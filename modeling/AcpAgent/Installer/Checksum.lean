import AcpAgent.Installer.Paths

/-! The checksum that the registry declares, read byte by byte: `parse_sha256` of
`installer/binary/download.rs` with the slices and the conversions that could panic, and the cache
directory that belongs to a version and a checksum. -/

namespace AcpAgent.Installer

/-- `u8::is_ascii_hexdigit`. -/
def isAsciiHexdigit (b : UInt8) : Bool :=
  (48 ≤ b && b ≤ 57) || (65 ≤ b && b ≤ 70) || (97 ≤ b && b ≤ 102)

/-- `is_char_boundary` of a text with these bytes. -/
def isCharBoundary (value : Bytes) (index : ℕ) : Bool :=
  match value[index]? with
  | some b => b < 128 || 192 ≤ b
  | none => index = value.length

/-- `&value[start..stop]`, or a panic. -/
def slice (value : Bytes) (start stop : ℕ) : Option Bytes :=
  if start ≤ stop ∧ isCharBoundary value start ∧ isCharBoundary value stop then
    some ((value.drop start).take (stop - start))
  else none

/-- `char::to_digit(16)`. -/
def toDigit (b : UInt8) : Option ℕ :=
  if 48 ≤ b ∧ b ≤ 57 then some (b.toNat - 48)
  else if 65 ≤ b ∧ b ≤ 70 then some (b.toNat - 55)
  else if 97 ≤ b ∧ b ≤ 102 then some (b.toNat - 87)
  else none

/-- One more digit of a `u8`, unless it overflows. -/
def pushDigit (result : ℕ) (b : UInt8) : Option ℕ := do
  let digit ← toDigit b
  if 16 * result + digit < 256 then some (16 * result + digit) else none

/-- `u8::from_str_radix(src, 16)`, with no account of its errors. -/
def u8FromStrRadix : Bytes → Option UInt8
  | [] => none
  | b :: rest =>
    -- A sign alone is no number, and there are no negative ones.
    if b = 43 ∧ rest ≠ [] then (rest.foldlM pushDigit 0).map .ofNat
    else ((b :: rest).foldlM pushDigit 0).map .ofNat

/-- `parse_sha256` with its panics, where there is no result. -/
def parseSha256Bytes (value : Str) : Option (Except Str Bytes) :=
  if value.bytes.length ≠ 64 ∨ ¬value.bytes.all isAsciiHexdigit then
    some (.error (str "invalid sha256 checksum \"" ++ value ++
      str "\": expected 64 hexadecimal characters"))
  else do
    let digest ← (List.range 32).mapM fun index => do
      let digits ← slice value.bytes (index * 2) (index * 2 + 2)
      u8FromStrRadix digits
    return .ok digest

/-! ### No panic -/

/-- The byte of an ASCII character. -/
def asciiByte (c : Char) : UInt8 := .ofNat c.toNat

theorem ascii_digit : ∀ n < 128,
    isHexDigit (Char.ofNat n) = isAsciiHexdigit (asciiByte (Char.ofNat n)) ∧
    (isHexDigit (Char.ofNat n) = true →
      toDigit (asciiByte (Char.ofNat n)) = some (hexValue (Char.ofNat n)) ∧
        asciiByte (Char.ofNat n) < 128 ∧ asciiByte (Char.ofNat n) ≠ 43) := by
  decide +kernel

theorem ascii_forall {P : Char → Prop} (all : ∀ n < 128, P (Char.ofNat n)) {c : Char}
    (ascii : c.toNat < 128) : P c := by
  have here : P (Char.ofNat c.toNat) := all c.toNat ascii
  rwa [Char.ofNat_toNat] at here

theorem bytes_ascii {c : Char} (ascii : c.toNat < 128) :
    String.utf8EncodeChar c = [asciiByte c] := by
  have bound : c.val.toNat ≤ 127 := Nat.le_of_lt_succ ascii
  rw [String.utf8EncodeChar, if_pos bound]
  rfl

/-- The first byte of any other character is above those of ASCII. -/
theorem bytes_not_ascii {c : Char} (other : ¬c.toNat < 128) :
    ∃ b rest, String.utf8EncodeChar c = b :: rest ∧ 128 ≤ b := by
  have bound : ¬c.val.toNat ≤ 127 := fun le => other (Nat.lt_succ_of_le le)
  have high : ∀ n, 128 ≤ n → n < 256 → 128 ≤ UInt8.ofNat n := by
    intro n low small
    rw [UInt8.le_iff_toNat_le, UInt8.toNat_ofNat_of_lt' small]
    exact low
  simp only [String.utf8EncodeChar, if_neg bound]
  split_ifs
  · exact ⟨_, _, rfl, high _ (by omega) (by omega)⟩
  · exact ⟨_, _, rfl, high _ (by omega) (by omega)⟩
  · exact ⟨_, _, rfl, high _ (by omega) (by omega)⟩

theorem isHexDigit_not_ascii {c : Char} (other : ¬c.toNat < 128) : isHexDigit c = false := by
  have same : c.toLower = c := by
    apply dif_neg
    rintro ⟨-, upper⟩
    have bound : c.toNat ≤ 90 := UInt32.le_iff_toNat_le.mp upper
    omega
  have small : hexDigits.all (·.toNat < 128) = true := by decide
  rw [isHexDigit, same, decide_eq_false_iff_not]
  exact fun member => other (by simpa using List.all_eq_true.mp small c member)

theorem isAsciiHexdigit_high {b : UInt8} (high : 128 ≤ b) : isAsciiHexdigit b = false := by
  have bound : 128 ≤ b.toNat := UInt8.le_iff_toNat_le.mp high
  simp [isAsciiHexdigit, UInt8.le_iff_toNat_le]
  omega

/-- The bytes of a text are hexadecimal digits exactly if its characters are. -/
theorem all_isAsciiHexdigit (value : Str) :
    value.bytes.all isAsciiHexdigit = value.all isHexDigit := by
  induction value with
  | nil => rfl
  | cons c value ih =>
    have first : (String.utf8EncodeChar c).all isAsciiHexdigit = isHexDigit c := by
      by_cases ascii : c.toNat < 128
      · rw [bytes_ascii ascii, List.all_cons, List.all_nil, Bool.and_true]
        exact (ascii_forall (P := fun c => isHexDigit c = isAsciiHexdigit (asciiByte c))
          (fun n small => (ascii_digit n small).1) ascii).symm
      · obtain ⟨b, rest, bytes, high⟩ := bytes_not_ascii ascii
        rw [bytes, List.all_cons, isAsciiHexdigit_high high, isHexDigit_not_ascii ascii,
          Bool.false_and]
    rw [Str.bytes, List.flatMap_cons, List.all_append, first, List.all_cons]
    rw [Str.bytes] at ih
    rw [ih]

theorem isHexDigit_ascii {c : Char} (digit : isHexDigit c = true) : c.toNat < 128 := by
  by_contra other
  rw [isHexDigit_not_ascii other] at digit
  exact absurd digit (by decide)

theorem digit_of_isHexDigit {c : Char} (digit : isHexDigit c = true) :
    toDigit (asciiByte c) = some (hexValue c) ∧ asciiByte c < 128 ∧ asciiByte c ≠ 43 :=
  ascii_forall (P := fun c => isHexDigit c = true →
      toDigit (asciiByte c) = some (hexValue c) ∧ asciiByte c < 128 ∧ asciiByte c ≠ 43)
    (fun n small => (ascii_digit n small).2) (isHexDigit_ascii digit) digit

/-- Hexadecimal digits take one byte each. -/
theorem bytes_of_digits {value : Str} (digits : ∀ c ∈ value, isHexDigit c = true) :
    value.bytes = value.map asciiByte := by
  induction value with
  | nil => rfl
  | cons c value ih =>
    have first := bytes_ascii (isHexDigit_ascii (digits c (by simp)))
    have rest := ih fun d member => digits d (by simp [member])
    rw [Str.bytes] at rest ⊢
    rw [List.flatMap_cons, first, rest]
    rfl

/-- The conversion of two digits does not fail. -/
theorem u8FromStrRadix_digits {c d : Char} (hc : isHexDigit c = true) (hd : isHexDigit d = true) :
    u8FromStrRadix [asciiByte c, asciiByte d] =
      some (.ofNat (16 * hexValue c + hexValue d)) := by
  obtain ⟨first, -, sign⟩ := digit_of_isHexDigit hc
  obtain ⟨second, -, -⟩ := digit_of_isHexDigit hd
  have cb := (hexDigit_hexValue hc).2
  have db := (hexDigit_hexValue hd).2
  have high : 16 * 0 + hexValue c < 256 := by omega
  have both : 16 * (16 * 0 + hexValue c) + hexValue d < 256 := by omega
  rw [u8FromStrRadix, if_neg (fun plus => sign plus.1)]
  simp only [List.foldlM_cons, List.foldlM_nil, pushDigit, first, second, Option.bind_eq_bind,
    Option.bind_some, if_pos high, if_pos both, Option.pure_def, Option.map_some]
  congr 2
  omega

section Digits

variable {value : Str} (digits : ∀ c ∈ value, isHexDigit c = true)

include digits

theorem isCharBoundary_digits (index : ℕ) (bound : index ≤ value.length) :
    isCharBoundary value.bytes index = true := by
  rw [bytes_of_digits digits]
  unfold isCharBoundary
  rcases Nat.lt_or_eq_of_le bound with inside | rfl
  · have low := (digit_of_isHexDigit (digits _ (List.getElem_mem inside))).2.1
    simp [inside, low]
  · simp

theorem slice_digits {index : ℕ} (bound : index * 2 + 1 < value.length) :
    slice value.bytes (index * 2) (index * 2 + 2) =
      some [asciiByte value[index * 2], asciiByte value[index * 2 + 1]] := by
  have start := isCharBoundary_digits digits (index * 2) (by omega)
  have stop := isCharBoundary_digits digits (index * 2 + 2) (by omega)
  rw [slice, if_pos ⟨by omega, start, stop⟩, bytes_of_digits digits]
  congr 1
  rw [List.drop_eq_getElem_cons (by simp; omega), List.drop_eq_getElem_cons (by simp; omega)]
  simp

end Digits

theorem mapM_some {α β : Type*} {f : α → Option β} {g : α → β} {l : List α}
    (all : ∀ x ∈ l, f x = some (g x)) : l.mapM f = some (l.map g) := by
  induction l with
  | nil => rfl
  | cons x l ih =>
    rw [List.mapM_cons, all x (by simp), ih fun y member => all y (by simp [member])]
    rfl

theorem getElem_hexDecode (value : Str) {index : ℕ} (bound : index * 2 + 1 < value.length)
    (here : index < (hexDecode value).length) : (hexDecode value)[index] =
      .ofNat (16 * hexValue value[index * 2] + hexValue value[index * 2 + 1]) := by
  fun_induction hexDecode value generalizing index with
  | case1 c d s ih =>
    cases index with
    | zero => rfl
    | succ index =>
      simp only [List.length_cons] at bound here
      have rest := @ih index (by omega) (by omega)
      simp only [List.getElem_cons_succ, rest, show (index + 1) * 2 = index * 2 + 1 + 1 by omega]
  | case2 s h => simp at here

/-- The registry's checksum is read without a panic, to the bytes that its digits denote. -/
theorem parseSha256Bytes_eq (value : Str) :
    parseSha256Bytes value = some ((parseSha256 value).map Subtype.val) := by
  unfold parseSha256Bytes parseSha256
  rw [all_isAsciiHexdigit]
  by_cases accepted : value.length = 64 ∧ value.all isHexDigit = true
  · obtain ⟨length, all⟩ := accepted
    have digits : ∀ c ∈ value, isHexDigit c = true := List.all_eq_true.mp all
    have size : value.bytes.length = 64 := by rw [bytes_of_digits digits, List.length_map, length]
    have decoded : (hexDecode value).length = 32 := by rw [hexDecode_length, length]
    have each : ∀ index ∈ List.range 32, (do
        let digits ← slice value.bytes (index * 2) (index * 2 + 2)
        u8FromStrRadix digits) = some ((hexDecode value).getD index 0) := by
      intro index member
      have inside : index < 32 := List.mem_range.mp member
      have bound : index * 2 + 1 < value.length := by omega
      rw [slice_digits digits bound, Option.bind_eq_bind, Option.bind_some,
        u8FromStrRadix_digits (digits _ (List.getElem_mem _)) (digits _ (List.getElem_mem _)),
        List.getD_eq_getElem?_getD, List.getElem?_eq_getElem (by omega), Option.getD_some,
        getElem_hexDecode value bound]
    rw [if_neg (by simp [size, all]), mapM_some each, dif_pos ⟨length, all⟩]
    simp only [Option.bind_eq_bind, Option.bind_some, Except.map]
    congr 2
    apply List.ext_getElem (by simp [decoded])
    intro index _ inside
    simp [inside]
  · rw [dif_neg accepted, if_pos]
    · rfl
    · by_contra none
      push Not at none
      have digits : ∀ c ∈ value, isHexDigit c = true := List.all_eq_true.mp none.2
      apply accepted
      rw [bytes_of_digits digits, List.length_map] at none
      exact none

/-! ### The directory of a version and a checksum -/

theorem isHexDigit_iff {c : Char} :
    isHexDigit c = true ↔ c ∈ str "0123456789abcdefABCDEF" := by
  constructor
  · intro digit
    have all : ∀ n < 128, isHexDigit (Char.ofNat n) = true →
        Char.ofNat n ∈ str "0123456789abcdefABCDEF" := by
      decide +kernel
    exact ascii_forall (P := fun c => isHexDigit c = true → c ∈ str "0123456789abcdefABCDEF") all
      (isHexDigit_ascii digit) digit
  · have all : (str "0123456789abcdefABCDEF").all isHexDigit = true := by decide
    exact List.all_eq_true.mp all c

theorem parseSha256Bytes_eq_ok {value : Str} {b : Bytes} :
    parseSha256Bytes value = some (.ok b) ↔ ∃ d, parseSha256 value = .ok d ∧ d.1 = b := by
  rw [parseSha256Bytes_eq]
  cases parseSha256 value with
  | error message => simp [Except.map]
  | ok d => simp [Except.map]

theorem parseSha256_isOk {value : Str} :
    (∃ d, parseSha256 value = .ok d) ↔
      value.length = 64 ∧ ∀ c ∈ value, c ∈ str "0123456789abcdefABCDEF" := by
  unfold parseSha256
  simp only [List.all_eq_true, isHexDigit_iff]
  split_ifs with accepted
  · exact ⟨fun _ => accepted, fun _ => ⟨_, rfl⟩⟩
  · simpa using accepted

section Directory

variable {sha256 : Bytes → Digest} {version version' digest digest' : Str} {b b' : Bytes}

/-- An entry's directory tells the version and the checksum, and the text of a checksum matters only
for the bytes that it denotes. -/
theorem cacheDir_iff (rootDir : Path) (agentId : Str) (platform : Platform)
    (h : parseSha256Bytes digest = some (.ok b)) (h' : parseSha256Bytes digest' = some (.ok b'))
    (distinct : stablePathDigest sha256 (version ++ str "-sha256-" ++ digest.lower) =
      stablePathDigest sha256 (version' ++ str "-sha256-" ++ digest'.lower) →
      version ++ str "-sha256-" ++ digest.lower = version' ++ str "-sha256-" ++ digest'.lower) :
    ((binaryCachePathsWithDigest sha256 rootDir agentId version platform digest).cacheDir =
        (binaryCachePathsWithDigest sha256 rootDir agentId version' platform digest').cacheDir ↔
      version = version' ∧ b = b') ∧
    ∀ value : Str,
      parseSha256Bytes value ≠ none ∧
      ((∃ b, parseSha256Bytes value = some (.ok b)) ↔
        value.length = 64 ∧ ∀ c ∈ value, c ∈ str "0123456789abcdefABCDEF") ∧
      ∀ b, parseSha256Bytes value = some (.ok b) → hexEncode b = value.lower := by
  obtain ⟨d, parses, rfl⟩ := parseSha256Bytes_eq_ok.mp h
  obtain ⟨d', parses', rfl⟩ := parseSha256Bytes_eq_ok.mp h'
  refine ⟨⟨fun same => ?_, fun ⟨versions, digests⟩ => ?_⟩, fun value => ⟨?_, ?_, ?_⟩⟩
  · have keys := (List.append_inj' same rfl).2
    obtain ⟨versions, digests⟩ := cacheKey_inj parses parses' distinct (List.cons.inj keys).1
    exact ⟨versions, congrArg Subtype.val digests⟩
  · rw [binaryCachePathsWithDigest, binaryCachePathsWithDigest, versions, lower_of_parse parses,
      lower_of_parse parses', digests]
  · rw [parseSha256Bytes_eq]
    exact Option.some_ne_none _
  · rw [← parseSha256_isOk]
    constructor
    · rintro ⟨b, accepted⟩
      obtain ⟨d, ok, -⟩ := parseSha256Bytes_eq_ok.mp accepted
      exact ⟨d, ok⟩
    · rintro ⟨d, ok⟩
      exact ⟨d.1, parseSha256Bytes_eq_ok.mpr ⟨d, ok, rfl⟩⟩
  · intro b accepted
    obtain ⟨d, ok, rfl⟩ := parseSha256Bytes_eq_ok.mp accepted
    exact (lower_of_parse ok).symm

end Directory

namespace Ids

/-- SHA-256 of the keys of two versions with one checksum. -/
def keySha256 (bytes : Bytes) : Digest :=
  if bytes = (str "1.0.0-sha256-" ++ digest).bytes then
    ⟨hexDecode (str "f21750591237310906f848c2bd38a548bb4280937254af23dcf05f1c5dbd70d8"), by decide⟩
  else
    ⟨hexDecode (str "b732c4f0392cc3b9ff4d07241a56ff4e53040804fd52f3e6511589245bc9e904"), by decide⟩

end Ids

theorem cacheDir_iff_versions :
    (binaryCachePathsWithDigest Ids.keySha256 [] (str "demo") (str "1.0.0") .linuxX86_64
        Ids.digest).cacheDir ≠
      (binaryCachePathsWithDigest Ids.keySha256 [] (str "demo") (str "1.1.0") .linuxX86_64
        Ids.digest).cacheDir := by
  have parse : parseSha256Bytes Ids.digest = some (.ok (hexDecode Ids.digest)) := by
    decide +kernel
  intro same
  have versions := ((@cacheDir_iff Ids.keySha256 _ _ _ _ _ _ [] (str "demo") .linuxX86_64 parse
    parse (by decide +kernel)).1.mp same).1
  exact absurd versions (by decide)

end AcpAgent.Installer
