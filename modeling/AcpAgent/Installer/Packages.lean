import AcpAgent.Lib.Str
import Mathlib.Data.List.TakeWhile

/-! The package that an uninstall addresses: `bare_package_name` and `uv_tool_name` of
`installer/lifecycle.rs`, on the npm specifiers and the Python requirements that an install passes
on. -/

namespace AcpAgent.Installer

/-- `&s[..stop]`, which panics inside of a character and behind the end. -/
def sliceTo : Str → ℕ → Option Str
  | _, 0 => some []
  | [], _ + 1 => none
  | c :: s, stop => if c.utf8Size ≤ stop then (sliceTo s (stop - c.utf8Size)).map (c :: ·) else none

/-- `split_once(sep)`. -/
def splitOnce (sep : Char) : Str → Option (Str × Str)
  | [] => none
  | c :: s => if c = sep then some ([], s) else (splitOnce sep s).map fun (a, b) => (c :: a, b)

def afterScope (package : Str) : Str :=
  (((package.stripPrefix (str "@")).bind (splitOnce '/')).map Prod.snd).getD package

/-- `bare_package_name`, or a panic. -/
def barePackageName (package : Str) : Option Str :=
  match Str.rfind (str "@") (afterScope package) with
  | some before => sliceTo package (package.len - ((afterScope package).len - before.len))
  | none => some package

/-- The characters that end a name for `uv_tool_name`. -/
def isDelimiter (c : Char) : Bool :=
  Str.isWhitespace c || List.contains (str "[<>=!~@") c

def uvToolName (package : Str) : Except Str Str :=
  let package := package.trim
  let name := package.takeWhile (!isDelimiter ·)
  if name = [] then .error (str "invalid uv package requirement: " ++ package) else .ok name

/-! ### npm -/

/-- A part of an npm package name. -/
abbrev NpmPart := { s : Str // s ≠ [] ∧ '@' ∉ s ∧ '/' ∉ s }

structure NpmName where
  scope : Option NpmPart
  name : NpmPart

def NpmName.text (n : NpmName) : Str :=
  match n.scope with
  | some scope => '@' :: scope.1 ++ '/' :: n.name.1
  | none => n.name.1

theorem sliceTo_append (s t : Str) : sliceTo (s ++ t) s.len = some s := by
  induction s with
  | nil => simp [sliceTo]
  | cons c s ih =>
    have pos := c.utf8Size_pos
    rw [List.cons_append, Str.len_cons]
    obtain ⟨n, size⟩ : ∃ n, c.utf8Size + Str.len s = n + 1 := ⟨c.utf8Size + Str.len s - 1, by omega⟩
    rw [size, sliceTo, if_pos (by omega), show n + 1 - c.utf8Size = Str.len s by omega, ih,
      Option.map_some]
    exact Nat.succ_ne_zero n

theorem splitOnce_append {sep : Char} {s : Str} (first : sep ∉ s) (t : Str) :
    splitOnce sep (s ++ sep :: t) = some (s, t) := by
  induction s with
  | nil => simp [splitOnce]
  | cons c s ih =>
    rw [List.mem_cons, not_or] at first
    rw [List.cons_append, splitOnce, if_neg (Ne.symm first.1), ih first.2, Option.map_some]

theorem at_eq : str "@" = ['@'] := rfl

/-- The scope, if there is one, is what the bare name leaves of a package. -/
theorem afterScope_append (n : NpmName) :
    ∃ front, n.text = front ++ n.name.1 ∧
      ∀ rest, afterScope (n.text ++ rest) = n.name.1 ++ rest := by
  obtain ⟨scope, name, nonempty, noAt, noSlash⟩ := n
  cases scope with
  | none =>
    refine ⟨[], rfl, fun rest => ?_⟩
    obtain ⟨c, s, rfl⟩ := List.exists_cons_of_ne_nil nonempty
    rw [List.mem_cons, not_or] at noAt
    have unscoped : Str.stripPrefix (c :: (s ++ rest)) (str "@") = none := by
      rw [at_eq, Str.stripPrefix, List.isPrefixOf, beq_false_of_ne noAt.1, Bool.false_and,
        if_neg Bool.false_ne_true]
    simp [afterScope, NpmName.text, unscoped]
  | some scope =>
    refine ⟨'@' :: scope.1 ++ ['/'], by simp [NpmName.text], fun rest => ?_⟩
    have package : NpmName.text ⟨some scope, name, nonempty, noAt, noSlash⟩ ++ rest =
        str "@" ++ (scope.1 ++ '/' :: (name ++ rest)) := by
      simp [NpmName.text, at_eq]
    rw [package, afterScope, Str.stripPrefix_append, Option.bind_some,
      splitOnce_append scope.2.2.2, Option.map_some, Option.getD_some]

/-- What stands before the last `@` behind the scope. -/
theorem barePackageName_append {front before rest : Str}
    (scope : afterScope (front ++ (before ++ '@' :: rest)) = before ++ '@' :: rest)
    (last : '@' ∉ rest) :
    barePackageName (front ++ (before ++ '@' :: rest)) = some (front ++ before) := by
  have separator : Str.rfind (str "@") (before ++ '@' :: rest) = some before := by
    apply Str.rfind_append (List.prefix_append _ rest)
    exact fun later => last (later.subset (by decide))
  have stop : Str.len (front ++ (before ++ '@' :: rest)) -
      (Str.len (before ++ '@' :: rest) - Str.len before) = Str.len (front ++ before) := by
    simp only [Str.len_append]
    omega
  rw [barePackageName, scope, separator]
  simp only
  rw [stop, ← List.append_assoc, sliceTo_append]

theorem barePackageName_text (n : NpmName) : barePackageName n.text = some n.text := by
  obtain ⟨front, -, scope⟩ := afterScope_append n
  have behind : afterScope n.text = n.name.1 := by simpa using scope []
  have none : Str.rfind (str "@") n.name.1 = none :=
    Str.rfind_eq_none.mpr fun inside => n.name.2.2.1 (inside.subset (by decide))
  rw [barePackageName, behind, none]

theorem last_split {c : Char} {s : Str} (member : c ∈ s) :
    ∃ before rest, s = before ++ c :: rest ∧ c ∉ rest := by
  obtain ⟨rest, before, split, last⟩ := List.eq_append_cons_of_mem (List.mem_reverse.mpr member)
  refine ⟨before.reverse, rest.reverse, ?_, by simpa using last⟩
  rw [← List.reverse_reverse s, split]
  simp

/-- The name of a package is found exactly if no `@` is in its specifier. -/
theorem barePackageName_iff (n : NpmName) (specifier : Str) :
    barePackageName (n.text ++ '@' :: specifier) = some n.text ↔ '@' ∉ specifier := by
  obtain ⟨front, text, scope⟩ := afterScope_append n
  constructor
  · intro found member
    obtain ⟨before, rest, rfl, last⟩ := last_split member
    have package : n.text ++ '@' :: (before ++ '@' :: rest) =
        front ++ ((n.name.1 ++ '@' :: before) ++ '@' :: rest) := by simp [text]
    rw [package, barePackageName_append (by rw [← package, scope]; simp) last, text] at found
    have lengths := congrArg List.length (Option.some.inj found)
    simp at lengths
  · intro last
    have package : n.text ++ '@' :: specifier = front ++ (n.name.1 ++ '@' :: specifier) := by
      simp [text]
    rw [package, barePackageName_append (by rw [← package, scope]) last, text]

/-! ### Python requirements -/

/-- `wsp*` of the grammar of requirements. -/
abbrev Wsp := { s : Str // ∀ c ∈ s, c = ' ' ∨ c = '\t' }

/-- `identifier`: letters and digits, with dashes, underscores and dots between them. -/
structure Identifier where
  text : Str
  first : text.head?.any Char.isAlphanum = true
  last : text.getLast?.any Char.isAlphanum = true
  chars : ∀ c ∈ text, c.isAlphanum = true ∨ c = '-' ∨ c = '_' ∨ c = '.'

/-- `extras`. -/
structure Extras where
  inner : Wsp
  names : Option (Identifier × List (Wsp × Wsp × Identifier))
  close : Wsp

inductive VersionCmp
  | le
  | lt
  | ne
  | eq
  | ge
  | gt
  | compatible
  | arbitrary
  deriving DecidableEq

def VersionCmp.text : VersionCmp → Str
  | le => str "<="
  | lt => str "<"
  | ne => str "!="
  | eq => str "=="
  | ge => str ">="
  | gt => str ">"
  | compatible => str "~="
  | arbitrary => str "==="

/-- `version_one`. -/
structure VersionOne where
  before : Wsp
  cmp : VersionCmp
  gap : Wsp
  version : { s : Str // s ≠ [] ∧ ∀ c ∈ s, c.isAlphanum = true ∨ c ∈ str "-_.*+!" }
  after : Wsp

/-- `versionspec`. -/
structure Versionspec where
  parenthesized : Bool
  first : VersionOne
  rest : List (Wsp × VersionOne)

/-- `versionspec?` or `urlspec`, with the blanks before it. -/
inductive Clause
  | versions (gap : Wsp) (spec : Option Versionspec)
  /-- A URL, and the blanks that keep it apart from a marker. -/
  | url (gap inner : Wsp) (uri : Str) (after : Wsp)

/-- `quoted_marker`, with the blanks before it. -/
structure QuotedMarker where
  gap : Wsp
  inner : Wsp
  marker : Str

/-- `specification`. -/
structure Requirement where
  front : Wsp
  name : Identifier
  gap : Wsp
  extras : Option Extras
  clause : Clause
  marker : Option QuotedMarker
  back : Wsp

def Extras.text (extras : Extras) : Str :=
  '[' :: extras.inner.1 ++
    (match extras.names with
      | some (name, rest) => name.text ++
          rest.flatMap fun (gap, inner, name) => gap.1 ++ ',' :: inner.1 ++ name.text
      | none => []) ++ extras.close.1 ++ str "]"

def VersionOne.text (v : VersionOne) : Str :=
  v.before.1 ++ v.cmp.text ++ v.gap.1 ++ v.version.1 ++ v.after.1

def Versionspec.text (spec : Versionspec) : Str :=
  let clauses := spec.first.text ++ spec.rest.flatMap fun (gap, v) => gap.1 ++ ',' :: v.text
  if spec.parenthesized then '(' :: clauses ++ str ")" else clauses

def Clause.text : Clause → Str
  | versions gap spec => gap.1 ++ (spec.map Versionspec.text).getD []
  | url gap inner uri after => gap.1 ++ '@' :: inner.1 ++ uri ++ after.1

def QuotedMarker.text (marker : QuotedMarker) : Str :=
  marker.gap.1 ++ ';' :: marker.inner.1 ++ marker.marker

namespace Requirement

/-- What follows the name. -/
def afterName (r : Requirement) : Str :=
  r.gap.1 ++ (r.extras.map Extras.text).getD [] ++ r.clause.text ++
    (r.marker.map QuotedMarker.text).getD [] ++ r.back.1

def text (r : Requirement) : Str := r.front.1 ++ r.name.text ++ r.afterName

end Requirement

/-- The string is empty or begins with such a character. -/
def Starts (p : Char → Prop) (s : Str) : Prop := ∀ c, s.head? = some c → p c

section Starts

variable {p : Char → Prop} {s t : Str} {c : Char}

theorem Starts.nil : Starts p [] := by
  intro c head
  simp at head

theorem Starts.cons (first : p c) : Starts p (c :: s) := by
  intro d head
  obtain rfl : c = d := by simpa using head
  exact first

theorem Starts.append (hs : Starts p s) (ht : Starts p t) : Starts p (s ++ t) := by
  cases s with
  | nil => exact ht
  | cons c s => exact .cons (hs c rfl)

theorem Starts.of_nonempty (hs : Starts p s) (nonempty : s ≠ []) : Starts p (s ++ t) := by
  cases s with
  | nil => exact absurd rfl nonempty
  | cons c s => exact .cons (hs c rfl)

theorem Starts.getD {α : Type*} {o : Option α} {f : α → Str} (each : ∀ x, Starts p (f x)) :
    Starts p ((o.map f).getD []) := by
  cases o with
  | none => exact .nil
  | some x => exact each x

end Starts

/-- Where a name can end. -/
def EndsName (c : Char) : Prop := isDelimiter c = true ∨ c = '(' ∨ c = ';'

theorem starts_wsp (w : Wsp) : Starts EndsName w.1 := by
  intro c head
  rcases w.2 c (List.mem_of_mem_head? head) with rfl | rfl <;> exact .inl (by decide)

theorem starts_versionOne (v : VersionOne) (rest : Str) : Starts EndsName (v.text ++ rest) := by
  have cmp : Starts EndsName v.cmp.text ∧ v.cmp.text ≠ [] := by
    cases v.cmp <;> exact ⟨.cons (.inl (by decide)), by decide⟩
  simp only [VersionOne.text, List.append_assoc]
  exact (starts_wsp v.before).append (cmp.1.of_nonempty cmp.2)

theorem starts_versionspec (spec : Versionspec) : Starts EndsName spec.text := by
  unfold Versionspec.text
  cases spec.parenthesized with
  | true => exact .cons (.inr (.inl rfl))
  | false => exact starts_versionOne spec.first _

theorem starts_clause (clause : Clause) : Starts EndsName clause.text := by
  cases clause with
  | versions gap spec => exact (starts_wsp gap).append (.getD starts_versionspec)
  | url gap inner uri after =>
    simp only [Clause.text, List.append_assoc, List.cons_append]
    exact (starts_wsp gap).append (.cons (.inl (by decide)))

theorem starts_marker (marker : QuotedMarker) : Starts EndsName marker.text := by
  simp only [QuotedMarker.text, List.append_assoc, List.cons_append]
  exact (starts_wsp marker.gap).append (.cons (.inr (.inr rfl)))

theorem starts_extras (extras : Extras) : Starts EndsName extras.text := by
  simp only [Extras.text, List.append_assoc, List.cons_append]
  exact .cons (.inl (by decide))

theorem starts_afterName (r : Requirement) : Starts EndsName r.afterName := by
  unfold Requirement.afterName
  exact ((((starts_wsp r.gap).append (.getD starts_extras)).append (starts_clause r.clause)).append
    (.getD starts_marker)).append (starts_wsp r.back)

theorem toNat_of_isAlphanum {c : Char} (h : c.isAlphanum = true) :
    (48 ≤ c.toNat ∧ c.toNat ≤ 57) ∨ (65 ≤ c.toNat ∧ c.toNat ≤ 90) ∨
      (97 ≤ c.toNat ∧ c.toNat ≤ 122) := by
  have ranges : (decide ('A'.val ≤ c.val ∧ c.val ≤ 'Z'.val) ||
      ('a'.val ≤ c.val && c.val ≤ 'z'.val) || ('0'.val ≤ c.val && c.val ≤ '9'.val)) = true := h
  simp only [Bool.or_eq_true, Bool.and_eq_true, decide_eq_true_eq, UInt32.le_iff_toNat_le]
    at ranges
  have upper : 'A'.val.toNat = 65 ∧ 'Z'.val.toNat = 90 := by decide
  have lower : 'a'.val.toNat = 97 ∧ 'z'.val.toNat = 122 := by decide
  have digit : '0'.val.toNat = 48 ∧ '9'.val.toNat = 57 := by decide
  have same : c.toNat = c.val.toNat := rfl
  omega

/-- No character of an identifier ends it. -/
theorem isDelimiter_identifier {c : Char}
    (h : c.isAlphanum = true ∨ c = '-' ∨ c = '_' ∨ c = '.') : isDelimiter c = false := by
  rcases h with alphanum | rfl | rfl | rfl
  · have range := toNat_of_isAlphanum alphanum
    have blank : Str.isWhitespace c = false := by
      simp [Str.isWhitespace]
      omega
    have other : (str "[<>=!~@").all (!·.isAlphanum) = true := by decide
    have sign : List.contains (str "[<>=!~@") c = false := by
      by_contra found
      have member : c ∈ str "[<>=!~@" := by simpa using found
      have plain := List.all_eq_true.mp other c member
      rw [alphanum] at plain
      exact absurd plain (by decide)
    rw [isDelimiter, blank, sign, Bool.or_false]
  · decide
  · decide
  · decide

/-- Trimming reaches a text without blanks from both sides, and leaves it. -/
theorem trim_append {front name : Str} (blank : ∀ c ∈ front, Str.isWhitespace c = true)
    (nonempty : name ≠ []) (solid : ∀ c ∈ name, Str.isWhitespace c = false) (rest : Str) :
    ∃ rest', rest' <+: rest ∧ Str.trim (front ++ name ++ rest) = name ++ rest' ∧
      (rest' = [] → ∀ c ∈ rest, Str.isWhitespace c = true) := by
  refine ⟨(rest.reverse.dropWhile Str.isWhitespace).reverse, ?_, ?_, ?_⟩
  · have suffix := List.dropWhile_suffix Str.isWhitespace (l := rest.reverse)
    simpa using List.reverse_prefix.mpr suffix
  · have start : (front ++ name ++ rest).dropWhile Str.isWhitespace = name ++ rest := by
      rw [List.append_assoc, List.dropWhile_append_of_pos blank]
      obtain ⟨c, s, rfl⟩ := List.exists_cons_of_ne_nil nonempty
      simp [solid c (by simp)]
    have stop : name.reverse.dropWhile Str.isWhitespace = name.reverse := by
      obtain ⟨c, s, reversed⟩ := List.exists_cons_of_ne_nil (List.reverse_ne_nil_iff.mpr nonempty)
      have last : c ∈ name := by
        rw [← List.mem_reverse, reversed]
        exact List.mem_cons_self
      rw [reversed, List.dropWhile_cons, solid c last, if_neg Bool.false_ne_true]
    rw [Str.trim, start, List.reverse_append, List.dropWhile_append]
    split_ifs with empty
    · rw [List.isEmpty_iff] at empty
      rw [stop, empty, List.reverse_reverse, List.reverse_nil, List.append_nil]
    · rw [List.reverse_append, List.reverse_reverse]
  · intro empty c member
    rw [List.reverse_eq_nil_iff, List.dropWhile_eq_nil_iff] at empty
    exact empty c (List.mem_reverse.mpr member)

theorem Identifier.text_ne_nil (name : Identifier) : name.text ≠ [] := by
  intro empty
  have first := name.first
  rw [empty] at first
  exact absurd first (by decide)

theorem Identifier.not_delimiter (name : Identifier) : ∀ c ∈ name.text, isDelimiter c = false :=
  fun c member => isDelimiter_identifier (name.chars c member)

/-- The name of a requirement is found exactly if neither a parenthesis nor a semicolon directly
follows it. -/
theorem uvToolName_iff (r : Requirement) :
    uvToolName r.text = .ok r.name.text ↔
      r.afterName.head? ≠ some '(' ∧ r.afterName.head? ≠ some ';' := by
  have blank : ∀ c ∈ r.front.1, Str.isWhitespace c = true := by
    intro c member
    rcases r.front.2 c member with rfl | rfl <;> decide
  have solid : ∀ c ∈ r.name.text, Str.isWhitespace c = false := fun c member =>
    (Bool.or_eq_false_iff.mp (r.name.not_delimiter c member)).1
  obtain ⟨rest, start, trimmed, empty⟩ := trim_append blank r.name.text_ne_nil solid
    r.afterName
  have scanned : r.text.trim.takeWhile (!isDelimiter ·) =
      r.name.text ++ rest.takeWhile (!isDelimiter ·) := by
    rw [Requirement.text, trimmed, List.takeWhile_append_of_pos]
    intro c member
    simp [r.name.not_delimiter c member]
  have found : uvToolName r.text = .ok r.name.text ↔ rest.takeWhile (!isDelimiter ·) = [] := by
    simp [uvToolName, scanned, r.name.text_ne_nil]
  rw [found]
  cases rest with
  | nil =>
    have blanks := empty rfl
    have ne : ∀ d, Str.isWhitespace d = false → r.afterName.head? ≠ some d := by
      intro d solid head
      rw [blanks d (List.mem_of_mem_head? head)] at solid
      exact absurd solid (by decide)
    exact iff_of_true rfl ⟨ne '(' (by decide), ne ';' (by decide)⟩
  | cons c rest =>
    have head : r.afterName.head? = some c := by
      obtain ⟨t, split⟩ := start
      rw [← split]
      rfl
    rw [head]
    rcases starts_afterName r c head with delimiter | rfl | rfl
    · have ne : ∀ d, isDelimiter d = false → some c ≠ some d := by
        rintro d other same
        rw [Option.some.inj same, other] at delimiter
        exact absurd delimiter (by decide)
      exact iff_of_true (by simp [delimiter]) ⟨ne '(' (by decide), ne ';' (by decide)⟩
    · exact iff_of_false (by simp [show isDelimiter '(' = false by decide]) (by simp)
    · exact iff_of_false (by simp [show isDelimiter ';' = false by decide]) (by simp)

/-- When an uninstall addresses the package that the install named. -/
theorem names_found_iff (n : NpmName) (specifier : Str) (r : Requirement) :
    barePackageName n.text = some n.text ∧
      (barePackageName (n.text ++ '@' :: specifier) = some n.text ↔ '@' ∉ specifier) ∧
      (uvToolName r.text = .ok r.name.text ↔
        r.afterName.head? ≠ some '(' ∧ r.afterName.head? ≠ some ';') :=
  ⟨barePackageName_text n, barePackageName_iff n specifier, uvToolName_iff r⟩

namespace Sample

/-- `demo@npm:@scope/x@1`. -/
def npmDemo : NpmName := ⟨none, str "demo", by decide⟩

def identifierDemo : Identifier where
  text := str "demo"
  first := rfl
  last := rfl
  chars c member :=
    have all : (str "demo").all Char.isAlphanum = true := rfl
    .inl (List.all_eq_true.mp all c member)

def noBlank : Wsp := ⟨[], by simp⟩

/-- `demo;python_version<"3.9"`. -/
def marked : Requirement where
  front := noBlank
  name := identifierDemo
  gap := noBlank
  extras := none
  clause := .versions noBlank none
  marker := some ⟨noBlank, noBlank, str "python_version<\"3.9\""⟩
  back := noBlank

end Sample

/-- An npm alias of a scoped package, and a requirement with a marker, lead to other names. -/
theorem names_missed :
    barePackageName (Sample.npmDemo.text ++ '@' :: str "npm:@scope/x@1") =
        some (str "demo@npm:@scope/x") ∧
    uvToolName Sample.marked.text = .ok (str "demo;python_version") ∧
    ¬((∀ (n : NpmName) (specifier : Str),
        barePackageName (n.text ++ '@' :: specifier) = some n.text) ∧
      ∀ r : Requirement, uvToolName r.text = .ok r.name.text) := by
  refine ⟨by decide, by rfl, fun found => ?_⟩
  have alias_ := found.1 Sample.npmDemo (str "npm:@scope/x@1")
  exact absurd alias_ (by decide)

end AcpAgent.Installer
