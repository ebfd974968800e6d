import AcpAgent.Lib.Str
import Mathlib.Data.Nat.Notation

/-! Text from bytes of which some may not be UTF-8, as `String::from_utf8_lossy` makes it. -/

namespace Str

/-- A byte behind the first one of a character. -/
def continues (b : UInt8) : Bool := 0x80 ≤ b && b < 0xc0

/-- The bytes of a character with this first byte, 0 if there is none. -/
def charWidth (b : UInt8) : ℕ :=
  if b < 0x80 then 1
  else if b < 0xc2 then 0
  else if b < 0xe0 then 2
  else if b < 0xf0 then 3
  else if b < 0xf5 then 4
  else 0

/-- A second byte, which must not make the character overlong, a surrogate or too large. -/
def second (first b : UInt8) : Bool :=
  if first = 0xe0 then 0xa0 ≤ b && b < 0xc0
  else if first = 0xed then 0x80 ≤ b && b < 0xa0
  else if first = 0xf0 then 0x90 ≤ b && b < 0xc0
  else if first = 0xf4 then 0x80 ≤ b && b < 0x90
  else continues b

/-- At most so many bytes that continue a character. -/
def continuation : ℕ → List UInt8 → List UInt8
  | 0, _ | _, [] => []
  | n + 1, b :: bytes => if continues b then b :: continuation n bytes else []

/-- What belongs to a character behind its first byte, as far as it is there. -/
def following (first : UInt8) : List UInt8 → List UInt8
  | [] => []
  | b :: bytes =>
    if 2 ≤ charWidth first ∧ second first b then b :: continuation (charWidth first - 2) bytes
    else []

/-- The loop of `Utf8Chunks`: a character, or the mark for bytes that are none or break off. -/
def lossyLoop (mark : Str) : ℕ → List UInt8 → Str
  | 0, _ | _, [] => []
  | fuel + 1, b :: bytes =>
    let rest := following b bytes
    (ofBytes (b :: rest)).getD mark ++ lossyLoop mark fuel (bytes.drop rest.length)

/-- The text of bytes, with the mark in the place of those that are not UTF-8. -/
def lossy (mark : Str) (bytes : List UInt8) : Str :=
  (ofBytes bytes).getD (lossyLoop mark bytes.length bytes)

@[simp] theorem lossy_bytes (mark s : Str) : lossy mark s.bytes = s := by
  rw [lossy, ofBytes_bytes, Option.getD_some]

/-- `from_utf8_lossy`. -/
def fromUtf8Lossy : List UInt8 → Str := lossy [Char.ofNat 0xfffd]

@[simp] theorem fromUtf8Lossy_bytes (s : Str) : fromUtf8Lossy s.bytes = s := lossy_bytes _ s

theorem bytes_injective {s t : Str} (h : bytes s = bytes t) : s = t := by
  have decoded := congrArg ofBytes h
  rwa [ofBytes_bytes, ofBytes_bytes, Option.some_inj] at decoded

theorem bytes_append (s t : Str) : bytes (s ++ t) = bytes s ++ bytes t := List.flatMap_append

/-! ### Separators -/

theorem ofNat_ne_slash {n : ℕ} (small : n < 256) (ne : n ≠ 47) : UInt8.ofNat n ≠ 47 := by
  intro eq
  have value := congrArg UInt8.toNat eq
  rw [UInt8.toNat_ofNat_of_lt' small] at value
  exact ne value

/-- A character beyond ASCII has no ASCII byte. -/
theorem slash_notMem_utf8EncodeChar {c : Char} (h : ¬c.val.toNat ≤ 0x7f) :
    47 ∉ String.utf8EncodeChar c := by
  unfold String.utf8EncodeChar
  intro member
  simp only [if_neg h] at member
  split_ifs at member <;> simp only [List.mem_cons, List.not_mem_nil, or_false] at member
  · rcases member with eq | eq <;> exact ofNat_ne_slash (by omega) (by omega) eq.symm
  · rcases member with eq | eq | eq <;> exact ofNat_ne_slash (by omega) (by omega) eq.symm
  · rcases member with eq | eq | eq | eq <;> exact ofNat_ne_slash (by omega) (by omega) eq.symm

theorem count_utf8EncodeChar (c : Char) :
    (String.utf8EncodeChar c).count 47 = if c = '/' then 1 else 0 := by
  have slash : c = '/' ↔ c.val.toNat = 47 := by
    rw [Char.ext_iff, ← UInt32.toNat_inj]
    rfl
  by_cases ascii : c.val.toNat ≤ 0x7f
  · rw [String.utf8EncodeChar, if_pos ascii]
    split_ifs with eq
    · rw [slash.mp eq]
      rfl
    · exact List.count_eq_zero.mpr fun member =>
        ofNat_ne_slash (by omega) (mt slash.mpr eq) (List.mem_singleton.mp member).symm
  · have other : c ≠ '/' := by
      rw [Ne, slash]
      omega
    rw [if_neg other]
    exact List.count_eq_zero.mpr (slash_notMem_utf8EncodeChar ascii)

theorem count_bytes (s : Str) : s.bytes.count 47 = s.count '/' := by
  induction s with
  | nil => rfl
  | cons c s ih =>
    have cons : bytes (c :: s) = String.utf8EncodeChar c ++ bytes s := List.flatMap_cons
    rw [cons, List.count_append, count_utf8EncodeChar, ih, List.count_cons, Nat.add_comm]
    simp

/-! What takes the place of bytes that are not UTF-8 has no separator, and neither have they. -/

theorem ofBytes_ascii {b : UInt8} (h : b < 0x80) : ofBytes [b] = some [Char.ofNat b.toNat] := by
  have small : b.toNat < 128 := by simpa using UInt8.lt_iff_toNat_lt.mp h
  have value : (Char.ofNat b.toNat).val.toNat = b.toNat := by
    rw [Char.ofNat, dif_pos (.inl (by omega))]
    rfl
  have encoded : bytes [Char.ofNat b.toNat] = [b] := by
    rw [bytes, List.flatMap_singleton, String.utf8EncodeChar, value, if_pos (by omega),
      UInt8.ofNat_toNat]
  exact ofBytes_eq_some.mpr encoded.symm

theorem slash_notMem_continuation (n : ℕ) (bytes : List UInt8) : 47 ∉ continuation n bytes := by
  induction n, bytes using continuation.induct with
  | case1 | case2 => simp [continuation]
  | case3 n b bytes here ih =>
    rw [continuation, if_pos here, List.mem_cons, not_or]
    refine ⟨?_, ih⟩
    rintro rfl
    revert here
    decide
  | case4 n b bytes here =>
    rw [continuation, if_neg here]
    exact List.not_mem_nil

theorem prefix_continuation (n : ℕ) (bytes : List UInt8) : continuation n bytes <+: bytes := by
  induction n, bytes using continuation.induct with
  | case1 | case2 => simp [continuation]
  | case3 n b bytes here ih =>
    rw [continuation, if_pos here]
    exact (List.prefix_cons_inj b).mpr ih
  | case4 n b bytes here =>
    rw [continuation, if_neg here]
    exact List.nil_prefix

theorem second_slash (first : UInt8) : second first 47 = false := by
  unfold second
  split_ifs <;> decide

theorem slash_notMem_following (first : UInt8) (bytes : List UInt8) :
    47 ∉ following first bytes := by
  cases bytes with
  | nil => exact List.not_mem_nil
  | cons b bytes =>
    rw [following]
    split_ifs with here
    · rw [List.mem_cons, not_or]
      refine ⟨?_, slash_notMem_continuation _ bytes⟩
      rintro rfl
      simp [second_slash] at here
    · exact List.not_mem_nil

theorem prefix_following (first : UInt8) (bytes : List UInt8) : following first bytes <+: bytes := by
  cases bytes with
  | nil => exact List.nil_prefix
  | cons b bytes =>
    rw [following]
    split_ifs
    · exact (List.prefix_cons_inj b).mpr (prefix_continuation ..)
    · exact List.nil_prefix

/-- An ASCII byte stands for itself. -/
theorem following_ascii {first : UInt8} (h : first < 0x80) (bytes : List UInt8) :
    following first bytes = [] := by
  cases bytes with
  | nil => rfl
  | cons b bytes => rw [following, charWidth, if_pos h, if_neg (by simp)]

theorem count_lossyLoop {mark : Str} (plain : '/' ∉ mark) {fuel : ℕ} {bytes : List UInt8}
    (enough : bytes.length ≤ fuel) : (lossyLoop mark fuel bytes).count '/' = bytes.count 47 := by
  induction fuel generalizing bytes with
  | zero =>
    rw [List.length_eq_zero_iff.mp (Nat.le_zero.mp enough)]
    rfl
  | succ fuel ih =>
    cases bytes with
    | nil => rfl
    | cons b bytes =>
      obtain ⟨left, whole⟩ := prefix_following b bytes
      have dropped : (following b bytes ++ left).drop (following b bytes).length = left :=
        List.drop_left ..
      rw [whole] at dropped
      have shorter : left.length ≤ fuel := by
        have lengths := congrArg List.length whole
        simp only [List.length_append, List.length_cons] at lengths enough
        omega
      have char : ((ofBytes (b :: following b bytes)).getD mark).count '/' =
          (b :: following b bytes).count 47 := by
        cases decoded : ofBytes (b :: following b bytes) with
        | some s =>
          rw [ofBytes_eq_some.mp decoded, count_bytes]
          rfl
        | none =>
          have other : b ≠ 47 := by
            rintro rfl
            rw [following_ascii (by decide), ofBytes_ascii (by decide)] at decoded
            cases decoded
          rw [List.count_cons_of_ne other, List.count_eq_zero.mpr (slash_notMem_following b bytes)]
          exact List.count_eq_zero.mpr plain
      rw [lossyLoop, List.count_append, char, dropped, ih shorter, ← List.count_append,
        List.cons_append, whole]

/-- The text has the separators that the bytes have. -/
theorem count_fromUtf8Lossy (bytes : List UInt8) :
    (fromUtf8Lossy bytes).count '/' = bytes.count 47 := by
  unfold fromUtf8Lossy lossy
  cases decoded : ofBytes bytes with
  | some s =>
    rw [ofBytes_eq_some.mp decoded, count_bytes]
    rfl
  | none => exact count_lossyLoop (by decide) le_rfl

end Str
