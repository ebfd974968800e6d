import AcpAgent.Lib.Str

/-! SHA-256 digests, and the hexadecimal text in which the registry and the cache write them:
`parse_sha256` and `hex_encode` of `installer/binary/download.rs`. -/

namespace AcpAgent.Installer

abbrev Bytes := List UInt8

/-- The output of SHA-256. -/
abbrev Digest := { b : Bytes // b.length = 32 }

def hexDigits : Str := str "0123456789abcdef"

/-- `hex::encode`, in lower case. -/
def hexEncode : Bytes → Str
  | [] => []
  | b :: bs =>
    hexDigits.getD (b.toNat / 16) '0' :: hexDigits.getD (b.toNat % 16) '0' :: hexEncode bs

/-- `is_ascii_hexdigit`. -/
def isHexDigit (c : Char) : Bool := c.toLower ∈ hexDigits

def hexValue (c : Char) : ℕ := hexDigits.idxOf c.toLower

def hexDecode : Str → Bytes
  | c :: d :: s => .ofNat (16 * hexValue c + hexValue d) :: hexDecode s
  | _ => []

theorem hexDecode_length (s : Str) : (hexDecode s).length = s.length / 2 := by
  fun_induction hexDecode s with
  | case1 c d s ih =>
    simp only [List.length_cons, ih]
    omega
  | case2 s h =>
    rcases s with _ | ⟨c, _ | ⟨d, s⟩⟩
    · simp
    · simp
    · exact absurd rfl (h c d s)

/-- `parse_sha256`.  All characters of an accepted text are ASCII, so that there are as many bytes
as characters. -/
def parseSha256 (value : Str) : Except Str Digest :=
  if h : value.length = 64 ∧ value.all isHexDigit = true then
    .ok ⟨hexDecode value, by rw [hexDecode_length, h.1]⟩
  else .error (str "invalid sha256 checksum \"" ++ value ++
    str "\": expected 64 hexadecimal characters")

theorem hexDigit_lower : ∀ n < 16, (hexDigits.getD n '0').toLower = hexDigits.getD n '0' := by
  decide

theorem hexValue_hexDigit : ∀ n < 16, hexValue (hexDigits.getD n '0') = n := by
  decide

theorem mem_hexDigits : ∀ n < 16, hexDigits.getD n '0' ∈ hexDigits := by
  decide

@[simp] theorem hexDecode_hexEncode (b : Bytes) : hexDecode (hexEncode b) = b := by
  induction b with
  | nil => rfl
  | cons x b ih =>
    have hx := x.toNat_lt
    rw [hexEncode, hexDecode, hexValue_hexDigit _ (by omega), hexValue_hexDigit _ (by omega), ih,
      Nat.div_add_mod, UInt8.ofNat_toNat]

theorem hexEncode_injective : Function.Injective hexEncode :=
  Function.LeftInverse.injective hexDecode_hexEncode

@[simp] theorem lower_hexEncode (b : Bytes) : (hexEncode b).lower = hexEncode b := by
  induction b with
  | nil => rfl
  | cons x b ih =>
    have hx := x.toNat_lt
    simp only [Str.lower, hexEncode, List.map_cons] at ih ⊢
    rw [hexDigit_lower _ (by omega), hexDigit_lower _ (by omega), ih]

@[simp] theorem length_hexEncode (b : Bytes) : (hexEncode b).length = 2 * b.length := by
  induction b with
  | nil => rfl
  | cons x b ih =>
    simp only [hexEncode, List.length_cons, ih]
    omega

theorem mem_hexDigits_of_mem_hexEncode {b : Bytes} {c : Char} (h : c ∈ hexEncode b) :
    c ∈ hexDigits := by
  induction b with
  | nil => simp [hexEncode] at h
  | cons x b ih =>
    have hx := x.toNat_lt
    simp only [hexEncode, List.mem_cons] at h
    rcases h with rfl | rfl | h
    · exact mem_hexDigits _ (by omega)
    · exact mem_hexDigits _ (by omega)
    · exact ih h

theorem hexDecode_lower (s : Str) : hexDecode s.lower = hexDecode s := by
  fun_induction hexDecode s with
  | case1 c d s ih =>
    simp only [Str.lower, List.map_cons, hexDecode, hexValue, Str.toLower_toLower] at ih ⊢
    rw [ih]
  | case2 s h =>
    rcases s with _ | ⟨c, _ | ⟨d, s⟩⟩
    · rfl
    · rfl
    · exact absurd rfl (h c d s)

/-- The case of the digits does not matter. -/
theorem parseSha256_lower {value : Str} {d : Digest} :
    parseSha256 value.lower = .ok d ↔ parseSha256 value = .ok d := by
  have digits : value.lower.all isHexDigit = value.all isHexDigit := by
    have same : isHexDigit ∘ Char.toLower = isHexDigit := by
      funext c
      simp only [isHexDigit, Function.comp_apply, Str.toLower_toLower]
    simp only [Str.lower, List.all_map, same]
  unfold parseSha256
  simp only [digits, hexDecode_lower, show value.lower.length = value.length by simp [Str.lower]]
  split_ifs <;> simp

theorem hexDigit_hexValue {c : Char} (h : isHexDigit c = true) :
    hexDigits.getD (hexValue c) '0' = c.toLower ∧ hexValue c < 16 := by
  have member : c.toLower ∈ hexDigits := by simpa [isHexDigit] using h
  have bound : hexDigits.idxOf c.toLower < hexDigits.length := List.idxOf_lt_length_of_mem member
  refine ⟨?_, bound⟩
  rw [hexValue, List.getD_eq_getElem?_getD, List.getElem?_eq_getElem bound, List.getElem_idxOf,
    Option.getD_some]

theorem hexEncode_hexDecode {s : Str} (digits : ∀ c ∈ s, isHexDigit c = true)
    (even : s.length % 2 = 0) : hexEncode (hexDecode s) = s.lower := by
  fun_induction hexDecode s with
  | case1 c d s ih =>
    obtain ⟨hc, cb⟩ := hexDigit_hexValue (digits c (by simp))
    obtain ⟨hd, db⟩ := hexDigit_hexValue (digits d (by simp))
    have byte : (UInt8.ofNat (16 * hexValue c + hexValue d)).toNat =
        16 * hexValue c + hexValue d := UInt8.toNat_ofNat_of_lt' (by simp [UInt8.size]; omega)
    simp only [hexEncode, byte, Str.lower, List.map_cons] at ih ⊢
    rw [show (16 * hexValue c + hexValue d) / 16 = hexValue c by omega,
      show (16 * hexValue c + hexValue d) % 16 = hexValue d by omega, hc, hd,
      ih (fun e he => digits e (by simp [he])) (by simp only [List.length_cons] at even; omega)]
  | case2 s h =>
    rcases s with _ | ⟨c, _ | ⟨d, s⟩⟩
    · rfl
    · simp at even
    · exact absurd rfl (h c d s)

/-- In lower case, a digest has one text only. -/
theorem lower_of_parse {value : Str} {d : Digest} (h : parseSha256 value = .ok d) :
    value.lower = hexEncode d.1 := by
  unfold parseSha256 at h
  split_ifs at h with hd
  obtain rfl := Except.ok.inj h
  refine (hexEncode_hexDecode (fun c hc => ?_) (by omega)).symm
  exact List.all_eq_true.mp hd.2 c hc

end AcpAgent.Installer
