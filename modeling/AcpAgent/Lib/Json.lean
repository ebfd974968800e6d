import AcpAgent.Lib.Utf8
import Mathlib.Data.Nat.Notation
import Mathlib.Tactic.Ring
import Mathlib.Tactic.SplitIfs

/-! JSON: the compact text that `serde_json` writes, the length of that text, and a parser that reads
the text back. -/

namespace Json

/-! ### Numbers -/

def isNumberChar (c : Char) : Bool :=
  c.isDigit || c = '-' || c = '+' || c = '.' || c = 'e' || c = 'E'

/-- Digits, without a zero before another digit. -/
def isWhole (s : Str) : Bool := s.all Char.isDigit && s ≠ [] && (s.head? ≠ some '0' || s = ['0'])

/-- A whole number below zero. -/
def isNegative : Str → Bool
  | '-' :: s => isWhole s && s ≠ ['0']
  | _ => false

def isExponent : Str → Bool
  | [] => true
  | 'e' :: '+' :: s | 'e' :: '-' :: s | 'E' :: '+' :: s | 'E' :: '-' :: s | 'e' :: s | 'E' :: s =>
    s.all Char.isDigit && s ≠ []
  | _ => false

/-- What follows the whole part of a number. -/
def isFraction : Str → Bool
  | '.' :: s => s.takeWhile Char.isDigit ≠ [] && isExponent (s.dropWhile Char.isDigit)
  | s => isExponent s

def isNumber (s : Str) : Bool :=
  let s := if s.head? = some '-' then s.tail else s
  isWhole (s.takeWhile Char.isDigit) && isFraction (s.dropWhile Char.isDigit)

/-- A number that is not whole, or `-0`, by its text. -/
structure Decimal where
  text : Str
  valid : (text.all isNumberChar && isNumber text && !isWhole text && !isNegative text) = true
  deriving DecidableEq

end Json

/-- A value.  What only a reader that skips it accepts is `unreadable`: a string with half of a
surrogate pair or bytes that are no text, and an object with such a key. -/
inductive Json
  | null
  | bool (b : Bool)
  | number (n : ℕ)
  /-- `-(n + 1)`. -/
  | negative (n : ℕ)
  | decimal (d : Json.Decimal)
  | string (s : Str)
  | array (items : List Json)
  | object (members : List (Str × Json))
  | unreadable

namespace Json

/-! ### The writer -/

/-- A character of a string: `"`, `\` and the control characters are escaped. -/
def escapeChar (c : Char) : Str :=
  if c = '"' then ['\\', '"']
  else if c = '\\' then ['\\', '\\']
  else if c.toNat = 0x8 then ['\\', 'b']
  else if c.toNat = 0x9 then ['\\', 't']
  else if c.toNat = 0xa then ['\\', 'n']
  else if c.toNat = 0xc then ['\\', 'f']
  else if c.toNat = 0xd then ['\\', 'r']
  else if c.toNat < 0x20 then
    ['\\', 'u', '0', '0', (c.toNat / 16).digitChar, (c.toNat % 16).digitChar]
  else [c]

def escape (s : Str) : Str := s.flatMap escapeChar

def quote (s : Str) : Str := '"' :: escape s ++ ['"']

mutual

/-- `to_vec`, as text. -/
def text : Json → Str
  | null => str "null"
  | bool b => str (if b then "true" else "false")
  | number n => Nat.toDigits 10 n
  | negative n => '-' :: Nat.toDigits 10 (n + 1)
  | decimal d => d.text
  | string s => quote s
  | array items => '[' :: itemsText items ++ [']']
  | object members => '{' :: membersText members ++ ['}']
  | unreadable => ['"', '\\', 'u', 'd', '8', '0', '0', '"']

def itemsText : List Json → Str
  | [] => []
  | [item] => item.text
  | item :: next :: items => item.text ++ ',' :: itemsText (next :: items)

def membersText : List (Str × Json) → Str
  | [] => []
  | [(key, value)] => quote key ++ ':' :: value.text
  | (key, value) :: next :: members =>
    quote key ++ ':' :: value.text ++ ',' :: membersText (next :: members)

end

/-! ### The parser -/

def isBlank (c : Char) : Bool := c = ' ' || c = '\t' || c = '\n' || c = '\r'

def skip (s : Str) : Str := s.dropWhile isBlank

def hexDigit (c : Char) : Option ℕ :=
  if c.isDigit then some (c.toNat - '0'.toNat)
  else if 'a' ≤ c ∧ c ≤ 'f' then some (c.toNat - 'a'.toNat + 10)
  else if 'A' ≤ c ∧ c ≤ 'F' then some (c.toNat - 'A'.toNat + 10)
  else none

def hexFour : Str → Option (ℕ × Str)
  | a :: b :: c :: d :: s => do
    some ((((← hexDigit a) * 16 + (← hexDigit b)) * 16 + (← hexDigit c)) * 16 + (← hexDigit d), s)
  | _ => none

/-- What follows `\u`: a character, or the two halves of a surrogate pair, of which one by itself is
no character. -/
def unescapeUnicode (s : Str) : Option (Option Char × Str) := do
  let (high, s) ← hexFour s
  if high < 0xd800 ∨ 0xe000 ≤ high then some (some (Char.ofNat high), s)
  else if 0xdc00 ≤ high then some (none, s)
  else match s with
    | '\\' :: 'u' :: t => do
      let (low, t) ← hexFour t
      if 0xdc00 ≤ low ∧ low < 0xe000 then
        some (some (Char.ofNat (0x10000 + (high - 0xd800) * 0x400 + (low - 0xdc00))), t)
      else some (none, s)
    | _ => some (none, s)

/-- What follows a backslash. -/
def unescape : Str → Option (Option Char × Str)
  | '"' :: s => some ('"', s)
  | '\\' :: s => some ('\\', s)
  | '/' :: s => some ('/', s)
  | 'b' :: s => some (Char.ofNat 0x8, s)
  | 't' :: s => some (Char.ofNat 0x9, s)
  | 'n' :: s => some (Char.ofNat 0xa, s)
  | 'f' :: s => some (Char.ofNat 0xc, s)
  | 'r' :: s => some (Char.ofNat 0xd, s)
  | 'u' :: s => unescapeUnicode s
  | _ => none

/-- The rest of a string, if it is text, and what follows its closing quote. -/
def parseString : ℕ → Str → Option (Option Str × Str)
  | 0, _ | _, [] => none
  | fuel + 1, c :: s =>
    if c = '"' then some (some [], s)
    else if c = '\\' then do
      let (c, s) ← unescape s
      let (t, s) ← parseString fuel s
      some (c.bind fun c => t.map (c :: ·), s)
    else if c.toNat < 0x20 then none
    else do
      let (t, s) ← parseString fuel s
      some (t.map (c :: ·), s)

def ofString (s : Option Str) : Json := s.elim unreadable string

def ofMembers (members : Option (List (Str × Json))) : Json := members.elim unreadable object

/-- The number with this text. -/
def ofNumber (s : Str) : Option Json :=
  if isWhole s then some (number (Nat.ofDigitChars 10 s 0))
  else if isNegative s then some (negative (Nat.ofDigitChars 10 s.tail 0 - 1))
  else if h : (s.all isNumberChar && isNumber s && !isWhole s && !isNegative s) = true then
    some (decimal ⟨s, h⟩)
  else none

def parseNumber (s : Str) : Option (Json × Str) :=
  (ofNumber (s.takeWhile isNumberChar)).map fun number => (number, s.dropWhile isNumberChar)

def parseScalar : Str → Option (Json × Str)
  | 'n' :: 'u' :: 'l' :: 'l' :: s => some (null, s)
  | 't' :: 'r' :: 'u' :: 'e' :: s => some (bool true, s)
  | 'f' :: 'a' :: 'l' :: 's' :: 'e' :: s => some (bool false, s)
  | s => parseNumber s

mutual

def parseValue : ℕ → Str → Option (Json × Str)
  | 0, _ => none
  | fuel + 1, s =>
    match skip s with
    | '"' :: s => (parseString fuel s).map fun (t, s) => (ofString t, s)
    | '[' :: s =>
      match skip s with
      | ']' :: s => some (array [], s)
      | s => (parseItems fuel s).map fun (items, s) => (array items, s)
    | '{' :: s =>
      match skip s with
      | '}' :: s => some (object [], s)
      | s => (parseMembers fuel s).map fun (members, s) => (ofMembers members, s)
    | s => parseScalar s

def parseItems : ℕ → Str → Option (List Json × Str)
  | 0, _ => none
  | fuel + 1, s => do
    let (item, s) ← parseValue fuel s
    match skip s with
    | ',' :: s => (parseItems fuel s).map fun (items, s) => (item :: items, s)
    | ']' :: s => some ([item], s)
    | _ => none

/-- The rest of an object, if all keys are text. -/
def parseMembers : ℕ → Str → Option (Option (List (Str × Json)) × Str)
  | 0, _ => none
  | fuel + 1, s =>
    match skip s with
    | '"' :: s => do
      let (key, s) ← parseString fuel s
      match skip s with
      | ':' :: s =>
        let (value, s) ← parseValue fuel s
        match skip s with
        | ',' :: s => (parseMembers fuel s).map fun (members, s) =>
          (key.bind fun key => members.map ((key, value) :: ·), s)
        | '}' :: s => some (key.map fun key => [(key, value)], s)
        | _ => none
      | _ => none
    | _ => none

end

/-- `from_str`: one value, and blanks. -/
def parse (s : Str) : Option Json :=
  match parseValue (2 * s.length) s with
  | some (value, rest) => if skip rest = [] then some value else none
  | none => none

/-- `from_slice`.  Bytes that are not UTF-8 may stand in a string, behind no backslash, and make it
unreadable. -/
def fromSlice (bytes : List UInt8) : Option Json := parse (Str.lossy (str "x\\ud800") bytes)

/-! ### Reading what was written -/

theorem hexDigit_digitChar {n : ℕ} (h : n < 16) : hexDigit n.digitChar = some n := by
  have all : ∀ k : Fin 16, hexDigit k.val.digitChar = some k.val := by decide
  exact all ⟨n, h⟩

theorem ofNat_of_toNat {c : Char} {n : ℕ} (h : c.toNat = n) : Char.ofNat n = c := by
  rw [← h, Char.ofNat_toNat]

theorem unescape_control {c : Char} (h : c.toNat < 0x20) (s : Str) :
    unescape ('u' :: '0' :: '0' :: (c.toNat / 16).digitChar :: (c.toNat % 16).digitChar :: s) =
      some (some c, s) := by
  have digits : hexFour ('0' :: '0' :: (c.toNat / 16).digitChar :: (c.toNat % 16).digitChar :: s) =
      some (c.toNat, s) := by
    have zero : hexDigit '0' = some 0 := by decide
    have high := hexDigit_digitChar (show c.toNat / 16 < 16 by omega)
    have low := hexDigit_digitChar (show c.toNat % 16 < 16 by omega)
    simp only [hexFour, zero, high, low, Option.bind_eq_bind, Option.bind_some, Option.some.injEq,
      Prod.mk.injEq, and_true]
    omega
  have scalar : c.toNat < 0xd800 := by omega
  simp [unescape, unescapeUnicode, digits, scalar]

/-- A character is written as it is, or as what `unescape` reads after a backslash. -/
theorem escapeChar_cases (c : Char) :
    (escapeChar c = [c] ∧ c ≠ '"' ∧ c ≠ '\\' ∧ 0x20 ≤ c.toNat) ∨
      ∃ e, escapeChar c = '\\' :: e ∧ ∀ s, unescape (e ++ s) = some (some c, s) := by
  unfold escapeChar
  split_ifs with h1 h2 h3 h4 h5 h6 h7 h8
  · exact .inr ⟨_, rfl, fun s => by simp [unescape, h1]⟩
  · exact .inr ⟨_, rfl, fun s => by simp [unescape, h2]⟩
  · exact .inr ⟨_, rfl, fun s => by simpa [unescape] using ofNat_of_toNat h3⟩
  · exact .inr ⟨_, rfl, fun s => by simpa [unescape] using ofNat_of_toNat h4⟩
  · exact .inr ⟨_, rfl, fun s => by simpa [unescape] using ofNat_of_toNat h5⟩
  · exact .inr ⟨_, rfl, fun s => by simpa [unescape] using ofNat_of_toNat h6⟩
  · exact .inr ⟨_, rfl, fun s => by simpa [unescape] using ofNat_of_toNat h7⟩
  · exact .inr ⟨_, rfl, fun s => unescape_control h8 s⟩
  · exact .inl ⟨rfl, h1, h2, by omega⟩

theorem parseString_escape (t rest : Str) {fuel : ℕ}
    (h : (escape t ++ '"' :: rest).length ≤ fuel) :
    parseString fuel (escape t ++ '"' :: rest) = some (some t, rest) := by
  induction t generalizing fuel with
  | nil =>
    obtain ⟨fuel, rfl⟩ := Nat.exists_eq_add_of_le' h
    simp [escape, parseString]
  | cons c t ih =>
    have cons : escape (c :: t) = escapeChar c ++ escape t := List.flatMap_cons
    rw [cons, List.append_assoc] at h ⊢
    rcases escapeChar_cases c with ⟨plain, quoted, slash, control⟩ | ⟨e, escaped, read⟩
    · rw [plain] at h ⊢
      obtain ⟨fuel, rfl⟩ : ∃ n, fuel = n + 1 := ⟨fuel - 1, by simp at h; omega⟩
      have : parseString fuel _ = _ := ih (by simp at h ⊢; omega)
      simp [parseString, quoted, slash, Nat.not_lt.mpr control, this]
    · rw [escaped] at h ⊢
      obtain ⟨fuel, rfl⟩ : ∃ n, fuel = n + 1 := ⟨fuel - 1, by simp at h; omega⟩
      have : parseString fuel _ = _ := ih (by simp at h ⊢; omega)
      simp [parseString, read, this]

theorem parseString_half (fuel : ℕ) (rest : Str) :
    parseString (fuel + 2) ('\\' :: 'u' :: 'd' :: '8' :: '0' :: '0' :: '"' :: rest) =
      some (none, rest) := by
  have digits : hexFour ('d' :: '8' :: '0' :: '0' :: '"' :: rest) = some (0xd800, '"' :: rest) := rfl
  have half : unescapeUnicode ('d' :: '8' :: '0' :: '0' :: '"' :: rest) =
      some (none, '"' :: rest) := by
    simp [unescapeUnicode, digits]
  simp [parseString, unescape, half]

/-- Where a quoted string ends can be told from its text. -/
theorem quote_append_inj {s t r r' : Str} (h : quote s ++ r = quote t ++ r') : s = t ∧ r = r' := by
  have inner : escape s ++ '"' :: r = escape t ++ '"' :: r' := by
    simpa [quote] using h
  have read := parseString_escape s r le_rfl
  rw [inner, parseString_escape t r' le_rfl] at read
  obtain ⟨same, rfl⟩ := Prod.mk.inj (Option.some.inj read)
  exact ⟨(Option.some.inj same).symm, rfl⟩

/-- The digits of a number do not start with a zero, unless it is zero. -/
theorem head_toDigits {n : ℕ} (h : (Nat.toDigits 10 n).head? = some '0') : n = 0 := by
  induction n using Nat.strongRecOn with
  | ind n ih =>
    rcases Nat.lt_or_ge n 10 with small | large
    · rw [Nat.toDigits_of_lt_base small] at h
      have all : ∀ k : Fin 10, [k.val.digitChar].head? = some '0' → k.val = 0 := by decide
      exact all ⟨n, small⟩ h
    · rw [Nat.toDigits_of_base_le (by decide) large, List.head?_append_of_ne_nil _
        Nat.toDigits_ne_nil] at h
      have := ih (n / 10) (by omega) h
      omega

theorem isNumberChar_of_isDigit {c : Char} (h : c.isDigit = true) : isNumberChar c = true := by
  simp [isNumberChar, h]

theorem isBlank_of_isNumberChar {c : Char} (h : isNumberChar c = true) : isBlank c = false := by
  simp only [isBlank, Bool.or_eq_false_iff, decide_eq_false_iff_not]
  refine ⟨⟨⟨?_, ?_⟩, ?_⟩, ?_⟩ <;> rintro rfl <;> revert h <;> decide

theorem isWhole_toDigits (n : ℕ) : isWhole (Nat.toDigits 10 n) = true := by
  have leading : (Nat.toDigits 10 n).head? = some '0' → Nat.toDigits 10 n = ['0'] := by
    intro zero
    rw [head_toDigits zero, Nat.toDigits_zero]
  have digits : (Nat.toDigits 10 n).all Char.isDigit = true := by
    simpa using Str.isDigit_toDigits n
  simp only [isWhole, digits, Bool.true_and, Bool.and_eq_true, Bool.or_eq_true, decide_eq_true_eq]
  exact ⟨Nat.toDigits_ne_nil, (em _).symm.imp_right leading⟩

/-- A text that is read as a number, whatever follows it that is not part of a number. -/
structure Spells (s : Str) (j : Json) : Prop where
  nonempty : s ≠ []
  chars : ∀ c ∈ s, isNumberChar c = true
  read : ofNumber s = some j

theorem spells_number (n : ℕ) : Spells (Nat.toDigits 10 n) (number n) where
  nonempty := Nat.toDigits_ne_nil
  chars c h := isNumberChar_of_isDigit (Str.isDigit_toDigits n c h)
  read := by rw [ofNumber, if_pos (isWhole_toDigits n), Nat.ofDigitChars_ten_toDigits]

theorem spells_negative (n : ℕ) : Spells ('-' :: Nat.toDigits 10 (n + 1)) (negative n) where
  nonempty := List.cons_ne_nil _ _
  chars c h := by
    rcases List.mem_cons.mp h with rfl | h
    · decide
    · exact isNumberChar_of_isDigit (Str.isDigit_toDigits (n + 1) c h)
  read := by
    have signed : isWhole ('-' :: Nat.toDigits 10 (n + 1)) = false := by simp [isWhole]
    have other : Nat.toDigits 10 (n + 1) ≠ ['0'] := fun zero => by
      have := head_toDigits (n := n + 1) (by rw [zero]; rfl)
      omega
    have below : isNegative ('-' :: Nat.toDigits 10 (n + 1)) = true := by
      simp [isNegative, isWhole_toDigits, other]
    rw [ofNumber, if_neg (by simp [signed]), if_pos below, List.tail_cons,
      Nat.ofDigitChars_ten_toDigits, Nat.add_sub_cancel]

theorem spells_decimal (d : Decimal) : Spells d.text (decimal d) := by
  have valid := d.valid
  simp only [Bool.and_eq_true, Bool.not_eq_true'] at valid
  obtain ⟨⟨⟨chars, number⟩, whole⟩, negative⟩ := valid
  refine ⟨fun empty => ?_, by simpa using chars, ?_⟩
  · rw [empty] at number
    exact absurd number (by decide)
  · rw [ofNumber, if_neg (by simp [whole]), if_neg (by simp [negative]), dif_pos d.valid]

theorem parseNumber_spells {s rest : Str} {j : Json} (h : Spells s j)
    (after : ∀ c ∈ rest.head?, isNumberChar c = false) : parseNumber (s ++ rest) = some (j, rest) := by
  have ends : rest.takeWhile isNumberChar = [] ∧ rest.dropWhile isNumberChar = rest := by
    cases rest with
    | nil => exact ⟨rfl, rfl⟩
    | cons c rest => simp [after c rfl]
  rw [parseNumber, List.takeWhile_append_of_pos h.chars, List.dropWhile_append_of_pos h.chars, ends.1,
    ends.2, List.append_nil, h.read, Option.map_some]

theorem Spells.head {s : Str} {j : Json} (h : Spells s j) :
    ∃ c t, s = c :: t ∧ isNumberChar c = true := by
  cases s with
  | nil => exact absurd rfl h.nonempty
  | cons c t => exact ⟨c, t, rfl, h.chars c List.mem_cons_self⟩

/-- The text of a value starts with neither a blank nor a closing bracket. -/
theorem text_head (j : Json) : ∃ c t, j.text = c :: t ∧ isBlank c = false ∧ c ≠ ']' := by
  have number : ∀ {s j}, Spells s j → ∃ c t, s = c :: t ∧ isBlank c = false ∧ c ≠ ']' := by
    intro s j h
    obtain ⟨c, t, rfl, number⟩ := h.head
    refine ⟨c, t, rfl, isBlank_of_isNumberChar number, ?_⟩
    rintro rfl
    exact absurd number (by decide)
  cases j with
  | bool b => cases b <;> exact ⟨_, _, rfl, by decide, by decide⟩
  | number n => exact number (spells_number n)
  | negative n => exact number (spells_negative n)
  | decimal d => exact number (spells_decimal d)
  | null | string | array | object | unreadable => exact ⟨_, _, rfl, by decide, by decide⟩

theorem skip_cons {c : Char} {s : Str} (h : isBlank c = false) : skip (c :: s) = c :: s := by
  simp [skip, h]

theorem parseScalar_spells {s rest : Str} {j : Json} (h : Spells s j)
    (after : ∀ c ∈ rest.head?, isNumberChar c = false) :
    parseScalar (s ++ rest) = some (j, rest) := by
  have read := parseNumber_spells h after
  obtain ⟨c, t, rfl, number⟩ := h.head
  rw [List.cons_append] at read ⊢
  unfold parseScalar
  split
  case h_4 => exact read
  all_goals
    next heq =>
    obtain ⟨rfl, -⟩ := List.cons.inj heq
    exact absurd number (by decide)

theorem parseValue_spells {s rest : Str} {j : Json} {fuel : ℕ} (h : Spells s j)
    (after : ∀ c ∈ rest.head?, isNumberChar c = false) :
    parseValue (fuel + 1) (s ++ rest) = some (j, rest) := by
  have read := parseScalar_spells h after
  obtain ⟨c, t, rfl, number⟩ := h.head
  rw [List.cons_append] at read ⊢
  rw [parseValue, skip_cons (isBlank_of_isNumberChar number)]
  split
  case h_4 => exact read
  all_goals
    next heq =>
    obtain ⟨rfl, -⟩ := List.cons.inj heq
    exact absurd number (by decide)

/-- The items of an array do not start with a closing bracket. -/
theorem itemsText_head (item : Json) (items : List Json) (s : Str) :
    ∃ c t, itemsText (item :: items) ++ s = c :: t ∧ isBlank c = false ∧ c ≠ ']' := by
  obtain ⟨c, t, ht, blank, bracket⟩ := text_head item
  cases items <;> exact ⟨c, _, by rw [itemsText, ht]; rfl, blank, bracket⟩

theorem membersText_head (member : Str × Json) (members : List (Str × Json)) (s : Str) :
    ∃ t, membersText (member :: members) ++ s = '"' :: t := by
  cases members <;> exact ⟨_, rfl⟩

theorem parseValue_array {item : Json} {items : List Json} {s : Str} {fuel : ℕ} :
    parseValue (fuel + 1) ('[' :: (itemsText (item :: items) ++ s)) =
      (parseItems fuel (itemsText (item :: items) ++ s)).map fun (items, s) => (array items, s) := by
  obtain ⟨c, t, ht, blank, bracket⟩ := itemsText_head item items s
  rw [ht, parseValue, skip_cons (by decide)]
  simp only [skip_cons blank]
  split
  · next heq => exact absurd (List.cons.inj heq).1 bracket
  · rfl

theorem parseValue_object {member : Str × Json} {members : List (Str × Json)} {s : Str}
    {fuel : ℕ} :
    parseValue (fuel + 1) ('{' :: (membersText (member :: members) ++ s)) =
      (parseMembers fuel (membersText (member :: members) ++ s)).map
        fun (members, s) => (ofMembers members, s) := by
  obtain ⟨t, ht⟩ := membersText_head member members s
  rw [parseValue, skip_cons (by decide), ht]
  rfl

/-- With this much fuel the parser reads back what was written, if its input has at most half as
many characters. -/
structure Reads (fuel : ℕ) : Prop where
  value : ∀ j rest, (∀ c ∈ rest.head?, isNumberChar c = false) →
    2 * (text j ++ rest).length ≤ fuel → parseValue fuel (text j ++ rest) = some (j, rest)
  items : ∀ item items rest, 2 * (itemsText (item :: items) ++ ']' :: rest).length < fuel →
    parseItems fuel (itemsText (item :: items) ++ ']' :: rest) = some (item :: items, rest)
  members : ∀ member members rest,
    2 * (membersText (member :: members) ++ '}' :: rest).length < fuel →
    parseMembers fuel (membersText (member :: members) ++ '}' :: rest) =
      some (some (member :: members), rest)

theorem Reads.zero : Reads 0 where
  value j rest _ enough := by
    obtain ⟨c, t, ht, -⟩ := text_head j
    simp [ht] at enough
  items _ _ _ enough := absurd enough (Nat.not_lt_zero _)
  members _ _ _ enough := absurd enough (Nat.not_lt_zero _)

variable {fuel : ℕ}

theorem Reads.value_succ (r : Reads fuel) (j : Json) (rest : Str)
    (h : ∀ c ∈ rest.head?, isNumberChar c = false)
    (enough : 2 * (text j ++ rest).length ≤ fuel + 1) :
    parseValue (fuel + 1) (text j ++ rest) = some (j, rest) := by
  match j with
  | null => rfl
  | bool b => cases b <;> rfl
  | number n => exact parseValue_spells (spells_number n) h
  | negative n => exact parseValue_spells (spells_negative n) h
  | decimal d => exact parseValue_spells (spells_decimal d) h
  | unreadable =>
    obtain ⟨fuel, rfl⟩ : ∃ n, fuel = n + 2 := ⟨fuel - 2, by simp [text] at enough; omega⟩
    show parseValue (fuel + 3) ('"' :: '\\' :: 'u' :: 'd' :: '8' :: '0' :: '0' :: '"' :: rest) = _
    rw [parseValue, skip_cons (by decide)]
    simp only [parseString_half, Option.map_some]
    rfl
  | string s =>
    have shape : text (string s) ++ rest = '"' :: (escape s ++ '"' :: rest) := by
      simp [text, quote]
    rw [shape] at enough ⊢
    rw [parseValue, skip_cons (by decide)]
    simp only [parseString_escape s rest (show _ ≤ fuel by simp at enough ⊢; omega),
      Option.map_some]
    rfl
  | array [] => rfl
  | array (item :: items) =>
    have shape : text (array (item :: items)) ++ rest =
        '[' :: (itemsText (item :: items) ++ ']' :: rest) := by simp [text]
    rw [shape] at enough ⊢
    rw [parseValue_array, r.items item items rest (by simp at enough ⊢; omega), Option.map_some]
  | object [] => rfl
  | object (member :: members) =>
    have shape : text (object (member :: members)) ++ rest =
        '{' :: (membersText (member :: members) ++ '}' :: rest) := by simp [text]
    rw [shape] at enough ⊢
    rw [parseValue_object, r.members member members rest (by simp at enough ⊢; omega),
      Option.map_some]
    rfl

theorem Reads.items_succ (r : Reads fuel) (item : Json) (items : List Json) (rest : Str)
    (enough : 2 * (itemsText (item :: items) ++ ']' :: rest).length < fuel + 1) :
    parseItems (fuel + 1) (itemsText (item :: items) ++ ']' :: rest) =
      some (item :: items, rest) := by
  cases items with
  | nil =>
    rw [itemsText] at enough ⊢
    rw [parseItems, r.value item (']' :: rest) (by simp +decide) (by simp at enough ⊢; omega)]
    rfl
  | cons next items =>
    have shape : itemsText (item :: next :: items) ++ ']' :: rest =
        text item ++ ',' :: (itemsText (next :: items) ++ ']' :: rest) := by simp [itemsText]
    rw [shape] at enough ⊢
    rw [parseItems, r.value item _ (by simp +decide) (by simp at enough ⊢; omega)]
    simp only [Option.bind_eq_bind, Option.bind_some, skip_cons (show isBlank ',' = false by decide),
      r.items next items rest (by simp at enough ⊢; omega), Option.map_some]

theorem Reads.members_succ (r : Reads fuel) (member : Str × Json) (members : List (Str × Json))
    (rest : Str) (enough : 2 * (membersText (member :: members) ++ '}' :: rest).length < fuel + 1) :
    parseMembers (fuel + 1) (membersText (member :: members) ++ '}' :: rest) =
      some (some (member :: members), rest) := by
  obtain ⟨key, value⟩ := member
  have colon : isBlank ':' = false := by decide
  cases members with
  | nil =>
    have shape : membersText [(key, value)] ++ '}' :: rest =
        '"' :: (escape key ++ '"' :: ':' :: (text value ++ '}' :: rest)) := by
      simp [membersText, quote]
    rw [shape] at enough ⊢
    have name := parseString_escape key (':' :: (text value ++ '}' :: rest))
      (show _ ≤ fuel by simp at enough ⊢; omega)
    have content := r.value value ('}' :: rest) (by simp +decide) (by simp at enough ⊢; omega)
    rw [parseMembers, skip_cons (by decide)]
    simp only [name, Option.bind_eq_bind, Option.bind_some, Option.map_some, skip_cons colon, content,
      skip_cons (show isBlank '}' = false by decide)]
  | cons next members =>
    have shape : membersText ((key, value) :: next :: members) ++ '}' :: rest =
        '"' :: (escape key ++ '"' :: ':' ::
          (text value ++ ',' :: (membersText (next :: members) ++ '}' :: rest))) := by
      simp [membersText, quote]
    rw [shape] at enough ⊢
    have name := parseString_escape key
      (':' :: (text value ++ ',' :: (membersText (next :: members) ++ '}' :: rest)))
      (show _ ≤ fuel by simp at enough ⊢; omega)
    have content := r.value value (',' :: (membersText (next :: members) ++ '}' :: rest))
      (by simp +decide) (by simp at enough ⊢; omega)
    have others := r.members next members rest (by simp at enough ⊢; omega)
    rw [parseMembers, skip_cons (by decide)]
    simp only [name, Option.bind_eq_bind, Option.bind_some, skip_cons colon, content,
      skip_cons (show isBlank ',' = false by decide), others, Option.map_some]

theorem reads (fuel : ℕ) : Reads fuel := by
  induction fuel with
  | zero => exact .zero
  | succ fuel r => exact ⟨r.value_succ, r.items_succ, r.members_succ⟩

/-- What is written is read back. -/
@[simp] theorem parse_text (j : Json) : parse j.text = some j := by
  have := (reads (2 * j.text.length)).value j [] (by simp) (by simp)
  rw [List.append_nil] at this
  simp [parse, this, skip]

@[simp] theorem fromSlice_bytes (s : Str) : fromSlice s.bytes = parse s := by
  rw [fromSlice, Str.lossy_bytes]

/-! ### Lengths -/

/-- The bytes of a string between its quotes. -/
def escapedLen (s : Str) : ℕ := Str.len (escape s)

@[simp] theorem escapedLen_append (s t : Str) :
    escapedLen (s ++ t) = escapedLen s + escapedLen t := by
  simp [escapedLen, escape]

theorem escapedLen_replicate (n : ℕ) (c : Char) :
    escapedLen (List.replicate n c) = n * escapedLen [c] := by
  induction n with
  | zero => simp [escapedLen, escape]
  | succ n ih =>
    rw [List.replicate_succ', escapedLen_append, ih]
    ring

theorem len_quote (s : Str) : Str.len (quote s) = escapedLen s + 2 := by
  have mark : Str.len ['"'] = 1 := rfl
  have quoted : quote s = ['"'] ++ escape s ++ ['"'] := rfl
  rw [quoted, Str.len_append, Str.len_append, mark, escapedLen]
  omega

/-- The bytes of the text of a value. -/
def size (j : Json) : ℕ := Str.len j.text

theorem size_pos (j : Json) : 0 < size j := by
  obtain ⟨c, t, ht, -⟩ := text_head j
  rw [size, ht, Str.len_cons]
  exact Nat.add_pos_left c.utf8Size_pos _

@[simp] theorem size_bool (b : Bool) : size (bool b) = if b then 4 else 5 := by cases b <;> rfl

@[simp] theorem size_string (s : Str) : size (string s) = escapedLen s + 2 := len_quote s

/-- Digits are one byte each, and not escaped. -/
theorem len_of_isDigit {s : Str} (h : ∀ c ∈ s, c.isDigit = true) :
    Str.len s = s.length ∧ escapedLen s = s.length := by
  induction s with
  | nil => exact ⟨rfl, rfl⟩
  | cons c s ih =>
    obtain ⟨plain, escaped⟩ := ih fun d hd => h d (by simp [hd])
    have digit := h c (by simp)
    simp only [Char.isDigit, Bool.and_eq_true, decide_eq_true_eq, UInt32.le_iff_toNat_le] at digit
    have one : c.utf8Size = 1 := by
      rw [Char.utf8Size_eq_one_iff, UInt32.le_iff_toNat_le]
      exact Nat.le_trans digit.2 (by decide)
    have same : escapeChar c = [c] := by
      have low : 48 ≤ c.toNat := digit.1
      have high : c.toNat ≤ 57 := digit.2
      have quoted : c ≠ '"' ∧ c ≠ '\\' :=
        ⟨by rintro rfl; exact absurd low (by decide), by rintro rfl; exact absurd high (by decide)⟩
      simp only [escapeChar, quoted, if_false, show ¬c.toNat = 0x8 by omega,
        show ¬c.toNat = 0x9 by omega, show ¬c.toNat = 0xa by omega, show ¬c.toNat = 0xc by omega,
        show ¬c.toNat = 0xd by omega, show ¬c.toNat < 0x20 by omega]
    have cons : escapedLen (c :: s) = Str.len (escapeChar c) + escapedLen s := by
      simp [escapedLen, escape]
    rw [cons, same, Str.len_cons, Str.len_cons, one, plain, escaped, List.length_cons, Str.len_nil]
    omega

@[simp] theorem size_number (n : ℕ) : size (number n) = (Nat.toDigits 10 n).length :=
  (len_of_isDigit (Str.isDigit_toDigits n)).1

@[simp] theorem escapedLen_toDigits (n : ℕ) :
    escapedLen (Nat.toDigits 10 n) = (Nat.toDigits 10 n).length :=
  (len_of_isDigit (Str.isDigit_toDigits n)).2

@[simp] theorem size_array (items : List Json) :
    size (array items) = (items.map size).sum + (items.length - 1) + 2 := by
  have mark : Str.len ['['] = 1 ∧ Str.len [']'] = 1 ∧ Str.len [','] = 1 := ⟨rfl, rfl, rfl⟩
  have inner : ∀ item items, Str.len (itemsText (item :: items)) =
      ((item :: items).map size).sum + items.length := by
    intro item items
    induction items generalizing item with
    | nil => simp [itemsText, size]
    | cons next items ih =>
      have shape : itemsText (item :: next :: items) =
          text item ++ ([','] ++ itemsText (next :: items)) := by simp [itemsText]
      rw [shape, Str.len_append, Str.len_append, ih, mark.2.2]
      simp only [List.map_cons, List.sum_cons, List.length_cons, size]
      omega
  have outer : size (array items) = Str.len (['['] ++ itemsText items ++ [']']) := by
    simp [size, text]
  rw [outer, Str.len_append, Str.len_append, mark.1, mark.2.1]
  cases items with
  | nil => rfl
  | cons item items =>
    rw [inner, List.length_cons]
    omega

/-- The bytes of a member of an object, with its key, the quotes and the colon. -/
def memberSize (member : Str × Json) : ℕ := escapedLen member.1 + 3 + size member.2

@[simp] theorem size_object (members : List (Str × Json)) :
    size (object members) = (members.map memberSize).sum + (members.length - 1) + 2 := by
  have mark : Str.len ['{'] = 1 ∧ Str.len ['}'] = 1 ∧ Str.len [','] = 1 ∧ Str.len [':'] = 1 :=
    ⟨rfl, rfl, rfl, rfl⟩
  have one : ∀ key value, Str.len (quote key ++ [':'] ++ text value) = memberSize (key, value) := by
    intro key value
    rw [Str.len_append, Str.len_append, len_quote, mark.2.2.2, memberSize, size]
  have inner : ∀ member members, Str.len (membersText (member :: members)) =
      ((member :: members).map memberSize).sum + members.length := by
    intro member members
    induction members generalizing member with
    | nil =>
      obtain ⟨key, value⟩ := member
      have shape : membersText [(key, value)] = quote key ++ [':'] ++ text value := by
        simp [membersText]
      rw [shape, one]
      simp
    | cons next members ih =>
      obtain ⟨key, value⟩ := member
      have shape : membersText ((key, value) :: next :: members) =
          quote key ++ [':'] ++ text value ++ ([','] ++ membersText (next :: members)) := by
        simp [membersText]
      rw [shape, Str.len_append, one, Str.len_append, ih, mark.2.2.1]
      simp only [List.map_cons, List.sum_cons, List.length_cons]
      omega
  have outer : size (object members) = Str.len (['{'] ++ membersText members ++ ['}']) := by
    simp [size, text]
  rw [outer, Str.len_append, Str.len_append, mark.1, mark.2.1]
  cases members with
  | nil => rfl
  | cons member members =>
    rw [inner, List.length_cons]
    omega

end Json
