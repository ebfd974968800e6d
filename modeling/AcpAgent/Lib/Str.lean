import Mathlib.Algebra.GroupWithZero.Nat
import Mathlib.Data.List.Infix
import Mathlib.Data.String.Basic

/-! Strings as lists of characters, with the byte lengths, prefixes and blanks that the Rust
standard library gives to `str`. -/

/-- A `str`. -/
abbrev Str := List Char

/-- The `str` of a literal. -/
abbrev str (s : String) : Str := s.toList

namespace Str

/-- `len`: the number of UTF-8 bytes. -/
def len (s : Str) : ℕ := (s.map Char.utf8Size).sum

@[simp] theorem len_nil : len [] = 0 := rfl

theorem len_cons (c : Char) (s : Str) : len (c :: s) = c.utf8Size + len s := by simp [len]

@[simp] theorem len_append (s t : Str) : len (s ++ t) = len s + len t := by
  simp [len]

/-- Characters take at least one byte. -/
theorem length_le_len (s : Str) : s.length ≤ len s := by
  induction s with
  | nil => simp
  | cons c s ih =>
    have := c.utf8Size_pos
    simp only [len, List.map_cons, List.sum_cons, List.length_cons] at *
    omega

theorem len_eq_zero {s : Str} : len s = 0 ↔ s = [] := by
  constructor
  · intro h
    have := length_le_len s
    exact List.length_eq_zero_iff.mp (by omega)
  · rintro rfl
    rfl

/-- `strip_prefix`. -/
def stripPrefix (s p : Str) : Option Str :=
  if p.isPrefixOf s then some (s.drop p.length) else none

theorem stripPrefix_eq_some {s p t : Str} : stripPrefix s p = some t ↔ s = p ++ t := by
  unfold stripPrefix
  split_ifs with h
  · obtain ⟨u, rfl⟩ := List.isPrefixOf_iff_prefix.mp h
    simp [eq_comm]
  · simp only [false_iff]
    rintro rfl
    exact h (List.isPrefixOf_iff_prefix.mpr (List.prefix_append p t))

@[simp] theorem stripPrefix_append (p t : Str) : stripPrefix (p ++ t) p = some t :=
  stripPrefix_eq_some.mpr rfl

/-- Two prefixes of one string that are of one length are the same. -/
theorem prefix_eq {p q s t : Str} (h : p ++ s = q ++ t) (hl : len p = len q) : p = q := by
  rcases List.append_eq_append_iff.mp h with ⟨u, rfl, -⟩ | ⟨u, rfl, -⟩ <;>
  · rw [len_append] at hl
    obtain rfl : u = [] := len_eq_zero.mp (by omega)
    simp

/-- `char::is_whitespace`: the Unicode property `White_Space`. -/
def isWhitespace (c : Char) : Bool :=
  let n := c.toNat
  (0x9 ≤ n && n ≤ 0xd) || n == 0x20 || n == 0x85 || n == 0xa0 || n == 0x1680 ||
    (0x2000 ≤ n && n ≤ 0x200a) || n == 0x2028 || n == 0x2029 || n == 0x202f || n == 0x205f ||
    n == 0x3000

/-- `trim`. -/
def trim (s : Str) : Str :=
  ((s.dropWhile isWhitespace).reverse.dropWhile isWhitespace).reverse

/-- `trim().is_empty()`. -/
def isBlank (s : Str) : Bool := s.all isWhitespace

/-- `split(sep)`, the parts between the separators. -/
def split (sep : Char) : Str → List Str
  | [] => [[]]
  | c :: s =>
    if c = sep then [] :: split sep s
    else match split sep s with
      | part :: parts => (c :: part) :: parts
      | [] => [[c]]

/-- `to_ascii_lowercase`. -/
def lower (s : Str) : Str := s.map Char.toLower

theorem toLower_toLower (c : Char) : c.toLower.toLower = c.toLower := by
  by_cases h : c.val ≥ 'A'.val ∧ c.val ≤ 'Z'.val
  · have moved : c.toLower.val = c.val + ('a'.val - 'A'.val) := congrArg Char.val (dif_pos h)
    have lower : ¬(c.toLower.val ≥ 'A'.val ∧ c.toLower.val ≤ 'Z'.val) := by
      rw [moved]
      simp only [ge_iff_le, UInt32.le_iff_toNat_le, UInt32.toNat_add] at h ⊢
      have upper : 'A'.val.toNat = 65 ∧ 'Z'.val.toNat = 90 ∧ ('a'.val - 'A'.val).toNat = 32 := by
        decide
      omega
    exact dif_neg lower
  · have same : c.toLower = c := dif_neg h
    rw [same, same]

@[simp] theorem lower_lower (s : Str) : lower (lower s) = lower s := by
  simp only [lower, List.map_map, Function.comp_def, toLower_toLower]

/-- `as_bytes`. -/
def bytes (s : Str) : List UInt8 := s.flatMap String.utf8EncodeChar

theorem length_bytes (s : Str) : (bytes s).length = len s := by
  simp [bytes, len, List.length_flatMap]

/-- `from_utf8`. -/
def ofBytes (b : List UInt8) : Option Str := b.toByteArray.utf8Decode?.map Array.toList

@[simp] theorem ofBytes_bytes (s : Str) : ofBytes (bytes s) = some s := by
  have decoded : (bytes s).toByteArray.utf8Decode? = some s.toArray := List.utf8Decode?_utf8Encode
  rw [ofBytes, decoded, Option.map_some]

theorem ofBytes_eq_some {b : List UInt8} {s : Str} : ofBytes b = some s ↔ b = bytes s := by
  constructor
  · intro h
    obtain ⟨chars, decoded, rfl⟩ := Option.map_eq_some_iff.mp h
    have there : b.toByteArray.utf8Decode?.isSome := by simp [decoded]
    have encoded := ByteArray.utf8Encode_get_utf8Decode? (b := b.toByteArray) (h := there)
    simp only [decoded, Option.get_some] at encoded
    exact (List.toByteArray_inj.mp encoded).symm
  · rintro rfl
    exact ofBytes_bytes s

theorem ofBytes_bytes_append (s : Str) (b : List UInt8) :
    ofBytes (bytes s ++ b) = (ofBytes b).map (s ++ ·) := by
  induction s with
  | nil => simp [bytes]
  | cons c s ih =>
    have split : (bytes (c :: s) ++ b).toByteArray =
        [c].utf8Encode ++ (bytes s ++ b).toByteArray := by
      simp [bytes, List.utf8Encode]
    have first : ofBytes (bytes (c :: s) ++ b) = (ofBytes (bytes s ++ b)).map (c :: ·) := by
      simp only [ofBytes, split, ByteArray.utf8Decode?_utf8Encode_singleton_append, Option.map_map]
      congr 1
      funext chars
      simp
    rw [first, ih, Option.map_map]
    rfl

/-- `rfind`, as what stands before the last occurrence. -/
def rfind (pattern : Str) : Str → Option Str
  | [] => if pattern = [] then some [] else none
  | c :: s =>
    match rfind pattern s with
    | some before => some (c :: before)
    | none => if pattern.isPrefixOf (c :: s) then some [] else none

/-- `contains`. -/
def contains (s pattern : Str) : Bool := (rfind pattern s).isSome

theorem contains_iff {s pattern : Str} : contains s pattern = true ↔ pattern <:+: s := by
  unfold contains
  induction s with
  | nil => by_cases h : pattern = [] <;> simp [rfind, h]
  | cons c s ih =>
    rw [List.infix_cons_iff, ← ih, ← List.isPrefixOf_iff_prefix, rfind]
    cases rfind pattern s <;> by_cases h : pattern.isPrefixOf (c :: s) <;> simp [h]

theorem rfind_eq_none {s pattern : Str} : rfind pattern s = none ↔ ¬pattern <:+: s := by
  rw [← contains_iff, contains, Bool.not_eq_true, Option.isSome_eq_false_iff,
    Option.isNone_iff_eq_none]

/-- The last occurrence is where the pattern starts and does not occur any later. -/
theorem rfind_append {pattern before s : Str} {c : Char} (here : pattern <+: c :: s)
    (last : ¬pattern <:+: s) : rfind pattern (before ++ c :: s) = some before := by
  induction before with
  | nil => simp [rfind, rfind_eq_none.mpr last, List.isPrefixOf_iff_prefix.mpr here]
  | cons d before ih => simp [rfind, ih]

/-- A pattern that does not occur in what follows occurs, if at all, before it. -/
theorem length_of_rfind {pattern before s found : Str} (last : ¬pattern <:+: s)
    (h : rfind pattern (before ++ s) = some found) : found.length < before.length := by
  induction before generalizing found with
  | nil => simp [rfind_eq_none.mpr last] at h
  | cons d before ih =>
    simp only [List.cons_append, rfind] at h
    split at h
    · next front hf =>
      obtain rfl := Option.some.inj h
      simpa using ih hf
    · split_ifs at h
      obtain rfl := Option.some.inj h
      simp

theorem exists_split (sep : Char) (s : Str) : ∃ part parts, split sep s = part :: parts := by
  cases s with
  | nil => exact ⟨[], [], rfl⟩
  | cons d s =>
    rw [split]
    split_ifs
    · exact ⟨_, _, rfl⟩
    · split <;> exact ⟨_, _, rfl⟩

theorem split_cons {sep c : Char} {s : Str} (other : c ≠ sep) :
    ∃ part parts, split sep s = part :: parts ∧
      split sep (c :: s) = (c :: part) :: parts := by
  obtain ⟨part, parts, parted⟩ := exists_split sep s
  exact ⟨part, parts, parted, by rw [split, if_neg other, parted]⟩

theorem split_concat {sep c : Char} {s : Str} (other : c ≠ sep) :
    ∃ before part, split sep s = before ++ [part] ∧
      split sep (s ++ [c]) = before ++ [part ++ [c]] := by
  induction s with
  | nil => exact ⟨[], [], rfl, by simp [split, other]⟩
  | cons d s ih =>
    obtain ⟨before, part, parted, longer⟩ := ih
    by_cases same : d = sep
    · refine ⟨[] :: before, part, ?_, ?_⟩
      · rw [split, if_pos same, parted, List.cons_append]
      · rw [List.cons_append, split, if_pos same, longer, List.cons_append]
    · rw [List.cons_append, split, split, if_neg same, if_neg same, parted, longer]
      cases before with
      | nil => exact ⟨[], d :: part, rfl, rfl⟩
      | cons first before => exact ⟨(d :: first) :: before, part, rfl, rfl⟩

/-- What `trim` takes away at both ends. -/
theorem trim_blanks (s : Str) : ∃ front back, front.all isWhitespace = true ∧
    back.all isWhitespace = true ∧ s = front ++ trim s ++ back := by
  refine ⟨s.takeWhile isWhitespace,
    ((s.dropWhile isWhitespace).reverse.takeWhile isWhitespace).reverse,
    List.all_takeWhile, ?_, ?_⟩
  · rw [List.all_reverse]
    exact List.all_takeWhile
  · rw [trim, List.append_assoc, ← List.reverse_append, List.takeWhile_append_dropWhile,
      List.reverse_reverse, List.takeWhile_append_dropWhile]

/-- The decimal digits that `{}` writes of a number. -/
theorem isDigit_toDigits (n : ℕ) : ∀ c ∈ Nat.toDigits 10 n, c.isDigit = true :=
  fun _ hc => Nat.isDigit_of_mem_toDigits (by decide) (by decide) hc

theorem notMem_toDigits {n : ℕ} {c : Char} (h : c.isDigit = false) : c ∉ Nat.toDigits 10 n := by
  intro hc
  simp [isDigit_toDigits n c hc] at h

theorem toDigits_inj {m n : ℕ} : Nat.toDigits 10 m = Nat.toDigits 10 n ↔ m = n := by
  constructor
  · intro same
    rw [← Nat.ofDigitChars_ten_toDigits (n := m), same, Nat.ofDigitChars_ten_toDigits]
  · intro eq
    rw [eq]

end Str
