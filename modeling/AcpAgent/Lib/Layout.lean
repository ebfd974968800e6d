import AcpAgent.Lib.Json

/-! JSON with blanks between its tokens: the text of a value in any layout, of which the one that
`serde_json` calls pretty is an example, and the parser that reads every layout back. -/

namespace Json

/-- The blanks in the arrays and objects of each depth. -/
structure Layout where
  /-- Behind an opening bracket, and behind a comma. -/
  inner : ℕ → Str
  /-- Before a closing bracket. -/
  close : ℕ → Str
  /-- Behind the colon of a member. -/
  colon : Str
  blank : (∀ d, (inner d).all isBlank = true) ∧ (∀ d, (close d).all isBlank = true) ∧
    colon.all isBlank = true

mutual

def laid (l : Layout) : ℕ → Json → Str
  | d, array items =>
    '[' :: (if items.isEmpty then [] else l.inner d ++ laidItems l d items) ++ [']']
  | d, object members =>
    '{' :: (if members.isEmpty then [] else l.inner d ++ laidMembers l d members) ++ ['}']
  | _, null => text null
  | _, bool b => text (bool b)
  | _, number n => text (number n)
  | _, negative n => text (negative n)
  | _, decimal d => text (decimal d)
  | _, string s => text (string s)
  | _, unreadable => text unreadable

/-- The items, with the blanks before the closing bracket. -/
def laidItems (l : Layout) : ℕ → List Json → Str
  | d, [] => l.close d
  | d, item :: items =>
    laid l (d + 1) item ++
      (if items.isEmpty then l.close d else ',' :: l.inner d ++ laidItems l d items)

def laidMembers (l : Layout) : ℕ → List (Str × Json) → Str
  | d, [] => l.close d
  | d, (key, value) :: members =>
    quote key ++ ':' :: l.colon ++ laid l (d + 1) value ++
      (if members.isEmpty then l.close d else ',' :: l.inner d ++ laidMembers l d members)

end

/-- A line break and two blanks for each level, `PrettyFormatter`. -/
def newLine (depth : ℕ) : Str := '\n' :: (List.replicate depth [' ', ' ']).flatten

theorem newLine_blank (depth : ℕ) : (newLine depth).all isBlank = true := by
  rw [List.all_eq_true]
  intro c member
  rcases List.mem_cons.mp member with rfl | member
  · decide
  · obtain ⟨pair, two, there⟩ := List.mem_flatten.mp member
    obtain rfl := List.eq_of_mem_replicate two
    obtain rfl : c = ' ' := by simpa using there
    decide

/-- `to_string_pretty`. -/
def prettyLayout : Layout where
  inner d := newLine (d + 1)
  close := newLine
  colon := [' ']
  blank := ⟨fun d => newLine_blank (d + 1), newLine_blank, by decide⟩

def pretty (j : Json) : Str := laid prettyLayout 0 j

/-! ### Blanks -/

section Blanks

variable {b s : Str} {fuel : ℕ}

theorem skip_append (blank : b.all isBlank = true) : skip (b ++ s) = skip s := by
  unfold skip
  rw [List.dropWhile_append_of_pos]
  simpa using blank

theorem parseValue_append (blank : b.all isBlank = true) :
    parseValue fuel (b ++ s) = parseValue fuel s := by
  cases fuel with
  | zero => rfl
  | succ fuel => rw [parseValue, parseValue, skip_append blank]

theorem parseItems_append (blank : b.all isBlank = true) :
    parseItems fuel (b ++ s) = parseItems fuel s := by
  cases fuel with
  | zero => rfl
  | succ fuel => rw [parseItems, parseItems, parseValue_append blank]

theorem parseMembers_append (blank : b.all isBlank = true) :
    parseMembers fuel (b ++ s) = parseMembers fuel s := by
  cases fuel with
  | zero => rfl
  | succ fuel => rw [parseMembers, parseMembers, skip_append blank]

theorem not_number_append (blank : b.all isBlank = true)
    (h : ∀ c ∈ s.head?, isNumberChar c = false) :
    ∀ c ∈ (b ++ s).head?, isNumberChar c = false := by
  cases b with
  | nil => exact h
  | cons d b =>
    intro c same
    obtain rfl := Option.some.inj same
    rw [List.all_cons, Bool.and_eq_true] at blank
    by_contra number
    rw [isBlank_of_isNumberChar (by simpa using number)] at blank
    exact nomatch blank.1

end Blanks

/-! ### Reading a layout -/

section Read

variable (l : Layout)

theorem laid_head (d : ℕ) (j : Json) :
    ∃ c t, laid l d j = c :: t ∧ isBlank c = false ∧ c ≠ ']' := by
  cases j with
  | array items => exact ⟨'[', _, by rw [laid]; rfl, by decide, by decide⟩
  | object members => exact ⟨'{', _, by rw [laid]; rfl, by decide, by decide⟩
  | null | bool | number | negative | decimal | string | unreadable =>
    rw [laid]
    exact text_head _

theorem laidItems_head (d : ℕ) (item : Json) (items : List Json) (s : Str) :
    ∃ c t, laidItems l d (item :: items) ++ s = c :: t ∧ isBlank c = false ∧ c ≠ ']' := by
  obtain ⟨c, t, ht, blank, bracket⟩ := laid_head l (d + 1) item
  exact ⟨c, _, by rw [laidItems, ht]; rfl, blank, bracket⟩

theorem laidMembers_head (d : ℕ) (member : Str × Json) (members : List (Str × Json)) (s : Str) :
    ∃ t, laidMembers l d (member :: members) ++ s = '"' :: t := by
  obtain ⟨key, value⟩ := member
  exact ⟨_, by rw [laidMembers]; rfl⟩

variable {l} {d fuel : ℕ}

theorem laid_array (item : Json) (items : List Json) (rest : Str) :
    laid l d (array (item :: items)) ++ rest =
      '[' :: (l.inner d ++ (laidItems l d (item :: items) ++ ']' :: rest)) := by
  simp [laid]

theorem laid_object (member : Str × Json) (members : List (Str × Json)) (rest : Str) :
    laid l d (object (member :: members)) ++ rest =
      '{' :: (l.inner d ++ (laidMembers l d (member :: members) ++ '}' :: rest)) := by
  simp [laid]

theorem laidItems_next (item next : Json) (items : List Json) (rest : Str) :
    laidItems l d (item :: next :: items) ++ rest =
      laid l (d + 1) item ++ ',' :: (l.inner d ++ (laidItems l d (next :: items) ++ rest)) := by
  rw [laidItems]
  simp

theorem laidMembers_next (key : Str) (value : Json) (next : Str × Json)
    (members : List (Str × Json)) (rest : Str) :
    laidMembers l d ((key, value) :: next :: members) ++ rest =
      '"' :: (escape key ++ '"' :: ':' :: (l.colon ++ (laid l (d + 1) value ++
        ',' :: (l.inner d ++ (laidMembers l d (next :: members) ++ rest))))) := by
  rw [laidMembers]
  simp [quote]

theorem laidMembers_last (key : Str) (value : Json) (rest : Str) :
    laidMembers l d [(key, value)] ++ rest =
      '"' :: (escape key ++ '"' :: ':' :: (l.colon ++ (laid l (d + 1) value ++
        (l.close d ++ rest)))) := by
  rw [laidMembers]
  simp [quote]

/-- With this much fuel the parser reads back what was laid out, if its input has at most half as
many characters. -/
structure ReadsLaid (l : Layout) (fuel : ℕ) : Prop where
  value : ∀ d j rest, (∀ c ∈ rest.head?, isNumberChar c = false) →
    2 * (laid l d j ++ rest).length ≤ fuel → parseValue fuel (laid l d j ++ rest) = some (j, rest)
  items : ∀ d item items rest, 2 * (laidItems l d (item :: items) ++ ']' :: rest).length < fuel →
    parseItems fuel (laidItems l d (item :: items) ++ ']' :: rest) = some (item :: items, rest)
  members : ∀ d member members rest,
    2 * (laidMembers l d (member :: members) ++ '}' :: rest).length < fuel →
    parseMembers fuel (laidMembers l d (member :: members) ++ '}' :: rest) =
      some (some (member :: members), rest)

theorem ReadsLaid.zero : ReadsLaid l 0 where
  value d j rest _ enough := by
    obtain ⟨c, t, ht, -⟩ := laid_head l d j
    simp [ht] at enough
  items _ _ _ _ enough := absurd enough (Nat.not_lt_zero _)
  members _ _ _ _ enough := absurd enough (Nat.not_lt_zero _)

theorem ReadsLaid.value_succ (r : ReadsLaid l fuel) (d : ℕ) (j : Json) (rest : Str)
    (h : ∀ c ∈ rest.head?, isNumberChar c = false)
    (enough : 2 * (laid l d j ++ rest).length ≤ fuel + 1) :
    parseValue (fuel + 1) (laid l d j ++ rest) = some (j, rest) := by
  have blank := l.blank.1 d
  have bracket : isBlank '[' = false := by decide
  have brace : isBlank '{' = false := by decide
  match j with
  | null | bool _ | number _ | negative _ | decimal _ | string _ | unreadable =>
    rw [laid] at enough ⊢
    exact (reads _).value _ rest h enough
  | array [] => rfl
  | array (item :: items) =>
    rw [laid_array] at enough ⊢
    obtain ⟨c, t, ht, plain, other⟩ := laidItems_head l d item items (']' :: rest)
    have items_ := r.items d item items rest (by simp at enough ⊢; omega)
    rw [parseValue, skip_cons bracket]
    simp only [skip_append blank]
    rw [ht] at items_ ⊢
    simp only [skip_cons plain]
    split
    · next heq => exact absurd (List.cons.inj heq).1 other
    · rw [items_, Option.map_some]
  | object [] => rfl
  | object (member :: members) =>
    rw [laid_object] at enough ⊢
    obtain ⟨t, ht⟩ := laidMembers_head l d member members ('}' :: rest)
    have members_ := r.members d member members rest (by simp at enough ⊢; omega)
    rw [parseValue, skip_cons brace]
    simp only [skip_append blank]
    rw [ht] at members_ ⊢
    rw [skip_cons (show isBlank '"' = false by decide)]
    show (parseMembers fuel ('"' :: t)).map _ = _
    rw [members_, Option.map_some]
    rfl

theorem ReadsLaid.items_succ (r : ReadsLaid l fuel) (d : ℕ) (item : Json) (items : List Json)
    (rest : Str) (enough : 2 * (laidItems l d (item :: items) ++ ']' :: rest).length < fuel + 1) :
    parseItems (fuel + 1) (laidItems l d (item :: items) ++ ']' :: rest) =
      some (item :: items, rest) := by
  cases items with
  | nil =>
    have shape : laidItems l d [item] ++ ']' :: rest =
        laid l (d + 1) item ++ (l.close d ++ ']' :: rest) := by simp [laidItems]
    rw [shape] at enough ⊢
    have after := not_number_append (l.blank.2.1 d) (s := ']' :: rest) (by simp +decide)
    rw [parseItems, r.value (d + 1) item _ after (by simp at enough ⊢; omega)]
    simp only [Option.bind_eq_bind, Option.bind_some, skip_append (l.blank.2.1 d),
      skip_cons (show isBlank ']' = false by decide)]
  | cons next items =>
    rw [laidItems_next] at enough ⊢
    have others := r.items d next items rest (by simp at enough ⊢; omega)
    rw [parseItems, r.value (d + 1) item _ (by simp +decide) (by simp at enough ⊢; omega)]
    have comma : isBlank ',' = false := by decide
    simp only [Option.bind_eq_bind, Option.bind_some, skip_cons comma,
      parseItems_append (l.blank.1 d), others, Option.map_some]

theorem ReadsLaid.members_succ (r : ReadsLaid l fuel) (d : ℕ) (member : Str × Json)
    (members : List (Str × Json)) (rest : Str)
    (enough : 2 * (laidMembers l d (member :: members) ++ '}' :: rest).length < fuel + 1) :
    parseMembers (fuel + 1) (laidMembers l d (member :: members) ++ '}' :: rest) =
      some (some (member :: members), rest) := by
  obtain ⟨key, value⟩ := member
  have colon : isBlank ':' = false := by decide
  cases members with
  | nil =>
    rw [laidMembers_last] at enough ⊢
    have after := not_number_append (l.blank.2.1 d) (s := '}' :: rest) (by simp +decide)
    have name := parseString_escape key (':' :: (l.colon ++ (laid l (d + 1) value ++
      (l.close d ++ '}' :: rest)))) (show _ ≤ fuel by simp at enough ⊢; omega)
    have content := r.value (d + 1) value _ after (by simp at enough ⊢; omega)
    rw [parseMembers, skip_cons (by decide)]
    simp only [name, Option.bind_eq_bind, Option.bind_some, Option.map_some, skip_cons colon,
      parseValue_append l.blank.2.2, content, skip_append (l.blank.2.1 d),
      skip_cons (show isBlank '}' = false by decide)]
  | cons next members =>
    rw [laidMembers_next] at enough ⊢
    have name := parseString_escape key (':' :: (l.colon ++ (laid l (d + 1) value ++
      ',' :: (l.inner d ++ (laidMembers l d (next :: members) ++ '}' :: rest)))))
      (show _ ≤ fuel by simp at enough ⊢; omega)
    have content := r.value (d + 1) value
      (',' :: (l.inner d ++ (laidMembers l d (next :: members) ++ '}' :: rest)))
      (by simp +decide) (by simp at enough ⊢; omega)
    have others := r.members d next members rest (by simp at enough ⊢; omega)
    rw [parseMembers, skip_cons (by decide)]
    simp only [name, Option.bind_eq_bind, Option.bind_some, skip_cons colon,
      parseValue_append l.blank.2.2, content, skip_cons (show isBlank ',' = false by decide),
      parseMembers_append (l.blank.1 d), others, Option.map_some]

theorem readsLaid (l : Layout) (fuel : ℕ) : ReadsLaid l fuel := by
  induction fuel with
  | zero => exact .zero
  | succ fuel r => exact ⟨r.value_succ, r.items_succ, r.members_succ⟩

/-- A value is read back in every layout, with any blanks behind it. -/
theorem parse_laid (l : Layout) (d : ℕ) (j : Json) {rest : Str} (blank : rest.all isBlank = true) :
    parse (laid l d j ++ rest) = some j := by
  have after : ∀ c ∈ rest.head?, isNumberChar c = false := by
    have := not_number_append blank (s := []) (by simp)
    rwa [List.append_nil] at this
  have read := (readsLaid l (2 * (laid l d j ++ rest).length)).value d j rest after le_rfl
  have nothing : skip rest = [] := by
    have := skip_append blank (s := [])
    rwa [List.append_nil] at this
  rw [parse, read]
  exact if_pos nothing

/-- What `to_writer_pretty` and a line break write is read back. -/
theorem parse_pretty (j : Json) : parse (pretty j ++ ['\n']) = some j :=
  parse_laid prettyLayout 0 j (by decide)

end Read

end Json
