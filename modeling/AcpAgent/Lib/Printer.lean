import AcpAgent.Lib.SortedBy
import AcpAgent.Lib.Str

/-! Text that is written until something fails, lists that are written element by element, and what
the order of a list that is sorted first has to do with its text. -/

/-- What was written, and the error that ended it if there was one. -/
@[ext]
structure Output (ε : Type*) where
  text : Str
  error : Option ε

namespace Output

variable {ε α κ : Type*}

def write (s : Str) : Output ε := ⟨s, none⟩

def fail (e : ε) : Output ε := ⟨[], some e⟩

/-- After an error, nothing more is written. -/
def andThen (a b : Output ε) : Output ε :=
  match a.error with
  | none => ⟨a.text ++ b.text, b.error⟩
  | some e => ⟨a.text, some e⟩

/-- The same, with something in front of the error. -/
def context (a : Output Str) (message : Str) : Output Str := ⟨a.text, a.error.map (message ++ ·)⟩

/-- The elements of a list, each behind a separator that is another one for the first. -/
def items (sep : Bool → Str) (body : α → Output ε) : Bool → List α → Output ε
  | _, [] => write []
  | first, a :: l => (write (sep first)).andThen ((body a).andThen (items sep body false l))

@[simp] theorem write_text (s : Str) : (write s : Output ε).text = s := rfl

@[simp] theorem write_error (s : Str) : (write s : Output ε).error = none := rfl

@[simp] theorem write_andThen (s : Str) (b : Output ε) :
    (write s).andThen b = ⟨s ++ b.text, b.error⟩ := rfl

@[simp] theorem fail_andThen (e : ε) (b : Output ε) : (fail e).andThen b = fail e := rfl

section Items

variable {sep : Bool → Str} {body : α → Output ε} {a b : α} {l m : List α}

theorem andThen_ok {x y : Output ε} (ok : x.error = none) :
    x.andThen y = ⟨x.text ++ y.text, y.error⟩ := by
  rw [andThen, ok]

theorem andThen_error {x y : Output ε} (failed : x.error ≠ none) : x.andThen y = x := by
  obtain ⟨e, he⟩ := Option.ne_none_iff_exists'.mp failed
  rw [andThen, he]
  ext1
  · rfl
  · exact he.symm

theorem text_andThen (x y : Output ε) : ∃ rest, (x.andThen y).text = x.text ++ rest ∧
    (x.error ≠ none → rest = []) := by
  by_cases ok : x.error = none
  · exact ⟨y.text, by rw [andThen_ok ok], fun failed => absurd ok failed⟩
  · exact ⟨[], by rw [andThen_error ok, List.append_nil], fun _ => rfl⟩

theorem items_error (first : Bool) :
    (items sep body first l).error = none ↔ ∀ a ∈ l, (body a).error = none := by
  induction l generalizing first with
  | nil => simp [items]
  | cons a l ih =>
    rw [items, write_andThen, List.forall_mem_cons]
    by_cases ok : (body a).error = none
    · rw [andThen_ok ok, and_iff_right ok]
      exact ih false
    · rw [andThen_error ok]
      exact iff_of_false ok fun all => ok all.1

/-- What is behind elements that do not fail comes behind their text. -/
theorem items_append (ok : ∀ a ∈ l, (body a).error = none) (first : Bool) :
    items sep body first (l ++ m) =
      ⟨(items sep body first l).text ++ (items sep body (first && l.isEmpty) m).text,
        (items sep body (first && l.isEmpty) m).error⟩ := by
  induction l generalizing first with
  | nil => simp [items]
  | cons a l ih =>
    obtain ⟨here, ok⟩ := List.forall_mem_cons.mp ok
    simp [items, andThen_ok here, ih ok]

theorem items_cons (first : Bool) : ∃ rest,
    (items sep body first (a :: l)).text = sep first ++ ((body a).text ++ rest) ∧
      ((body a).error ≠ none → rest = []) := by
  obtain ⟨rest, eq, failed⟩ := text_andThen (body a) (items sep body false l)
  exact ⟨rest, by rw [items, write_andThen, eq], failed⟩

/-- Elements that do not fail take the same room in any order. -/
theorem length_items (perm : l.Perm m) (ok : ∀ a ∈ l, (body a).error = none) (first : Bool) :
    (items sep body first l).text.length = (items sep body first m).text.length := by
  induction perm generalizing first with
  | nil => rfl
  | cons a _ ih =>
    obtain ⟨here, ok⟩ := List.forall_mem_cons.mp ok
    simp [items, andThen_ok here, ih ok]
  | swap a b l =>
    obtain ⟨hb, ok⟩ := List.forall_mem_cons.mp ok
    obtain ⟨ha, ok⟩ := List.forall_mem_cons.mp ok
    simp only [items, andThen_ok ha, andThen_ok hb, write_andThen, List.length_append]
    omega
  | trans perm _ ih ih' =>
    exact (ih ok first).trans (ih' (fun a ha => ok a (perm.mem_iff.mpr ha)) first)

/-- An element at the end, behind others that do not fail. -/
theorem items_concat (okl : ∀ e ∈ l, (body e).error = none) (ok : (body a).error = none)
    (first : Bool) :
    ∃ before, (items sep body first (l ++ [a])).text = before ++ (body a).text := by
  rw [items_append okl]
  refine ⟨(items sep body first l).text ++ sep (first && l.isEmpty), ?_⟩
  simp [items, andThen_ok ok]

end Items

/-! ### Where a text ends -/

section Ends

theorem eq_of_shorter {u v r r' s s' : Str} {sep : Char} (there : sep ∈ u)
    (count : u.count sep = v.count sep) (shorter : u.length ≤ v.length) (first : u ++ r = v ++ r')
    (last : s ++ u = s' ++ v) : u = v := by
  obtain ⟨z, rfl, -⟩ : ∃ z, v = u ++ z ∧ r = z ++ r' := by
    rcases List.append_eq_append_iff.mp first with ⟨z, eq, rest⟩ | ⟨z, eq, rest⟩
    · exact ⟨z, eq, rest⟩
    · obtain rfl : z = [] := List.length_eq_zero_iff.mp (by
        have lengths := congrArg List.length eq
        rw [List.length_append] at lengths
        omega)
      exact ⟨[], by simpa using eq.symm, by simpa using rest.symm⟩
  obtain ⟨y, eq⟩ : ∃ y, u ++ z = y ++ u := by
    rcases List.append_eq_append_iff.mp last with ⟨y, -, eq⟩ | ⟨y, -, eq⟩
    · have lengths := congrArg List.length eq
      simp only [List.length_append] at lengths
      obtain rfl : z = [] := List.length_eq_zero_iff.mp (by omega)
      exact ⟨[], by simp⟩
    · exact ⟨y, eq⟩
  rw [List.count_append, Nat.left_eq_add, List.count_eq_zero] at count
  have clean : sep ∉ y := by
    have counts := congrArg (List.count sep) eq
    rw [List.count_append, List.count_append, List.count_eq_zero.mpr count, Nat.add_zero,
      Nat.right_eq_add, List.count_eq_zero] at counts
    exact counts
  have places := congrArg (List.idxOf sep) eq
  rw [List.idxOf_append_of_mem there, List.idxOf_append_of_notMem clean, Nat.right_eq_add,
    List.length_eq_zero_iff] at places
  rw [places, List.nil_append] at eq
  exact eq.symm

/-- Texts that both start and end alike, as far as one of them goes, are the same if they have the
same number of some character. -/
theorem eq_of_ends {u v r r' s s' : Str} {sep : Char} (there : sep ∈ u)
    (count : u.count sep = v.count sep) (first : u ++ r = v ++ r') (last : s ++ u = s' ++ v) :
    u = v := by
  rcases le_total u.length v.length with shorter | longer
  · exact eq_of_shorter there count shorter first last
  · have there' : sep ∈ v := by
      rw [← List.count_pos_iff, ← count]
      exact List.count_pos_iff.mpr there
    exact (eq_of_shorter there' count.symm longer first.symm last.symm).symm

end Ends

/-! ### Sorted lists -/

section Sorted

variable [LinearOrder κ] {key : α → κ} {le : α → α → Bool} {sep : Bool → Str}
  {body : α → Output ε} {a b : α} {l m : List α}

/-- Two sorted lists with the same keys have the same text if elements with the same key are printed
alike, unless the printing fails before it gets to them. -/
theorem items_eq (keys : l.map key = m.map key) (sorted : l.Pairwise (key · ≤ key ·))
    (alike : ∀ a ∈ l, ∀ b ∈ m, key a = key b →
      (∀ e ∈ l, key e < key a → (body e).error = none) → body a = body b) (first : Bool) :
    items sep body first l = items sep body first m := by
  induction l generalizing m first with
  | nil => rw [List.map_eq_nil_iff.mp keys.symm]
  | cons a l ih =>
    obtain ⟨b, m, rfl, same, keys⟩ := List.map_eq_cons_iff.mp keys.symm
    obtain ⟨least, sorted⟩ := List.pairwise_cons.mp sorted
    have here : body a = body b := by
      refine alike a List.mem_cons_self b List.mem_cons_self same.symm fun e he less => ?_
      rcases List.mem_cons.mp he with rfl | he
      · exact absurd less (lt_irrefl _)
      · exact absurd less (not_lt.mpr (least e he))
    rw [items, items, here]
    by_cases ok : (body b).error = none
    · congr 2
      refine ih keys.symm sorted (fun a' ha b' hb same' smaller => ?_) false
      refine alike a' (List.mem_cons_of_mem _ ha) b' (List.mem_cons_of_mem _ hb) same' ?_
      intro e he less
      rcases List.mem_cons.mp he with rfl | he
      · rw [here]
        exact ok
      · exact smaller e he less
    · rw [andThen_error ok, andThen_error ok]

theorem mergeSort_perm_filter (le : α → α → Bool) (perm : l.Perm m) (p : α → Bool) :
    ((l.mergeSort le).filter p).Perm ((m.mergeSort le).filter p) :=
  (((List.mergeSort_perm l le).trans perm).trans (List.mergeSort_perm m le).symm).filter p

variable (hle : ∀ a b, le a b = true ↔ key a ≤ key b)

include hle

/-- What is printed after a sort does not depend on the order before it, under that condition. -/
theorem items_mergeSort (perm : l.Perm m)
    (alike : ∀ a ∈ l, ∀ b ∈ m, key a = key b →
      (∀ e ∈ l, key e < key a → (body e).error = none) → body a = body b) (first : Bool) :
    items sep body first (l.mergeSort le) = items sep body first (m.mergeSort le) := by
  refine items_eq (SortedBy.map_mergeSort hle l perm) (SortedBy.pairwise_mergeSort hle l) ?_ first
  intro a ha b hb same smaller
  rw [List.mem_mergeSort] at ha hb
  exact alike a ha b hb same fun e he => smaller e (List.mem_mergeSort.mpr he)

/-- The first element comes right behind the smaller ones. -/
theorem items_first (sep : Bool → Str) (ok : ∀ e ∈ l, key e < key a → (body e).error = none)
    (first : Bool) :
    let smaller := ((a :: l).mergeSort le).filter (key · < key a)
    (∀ e ∈ smaller, (body e).error = none) ∧
    ∃ r, (items sep body first ((a :: l).mergeSort le)).text =
        (items sep body first smaller).text ++
          (sep (first && smaller.isEmpty) ++ ((body a).text ++ r)) ∧
      ((body a).error ≠ none → r = []) := by
  intro smaller
  have group : ((a :: l).mergeSort le).filter (key · = key a) =
      a :: l.filter (key · = key a) := by
    rw [SortedBy.filter_mergeSort hle, List.filter_cons_of_pos (by simp)]
  have fine : ∀ e ∈ smaller, (body e).error = none := by
    intro e he
    obtain ⟨member, less⟩ := List.mem_filter.mp he
    have less : key e < key a := by simpa using less
    rcases List.mem_cons.mp (List.mem_mergeSort.mp member) with rfl | member
    · exact absurd less (lt_irrefl _)
    · exact ok e member less
  obtain ⟨r, text, failed⟩ : ∃ r, (items sep body (first && smaller.isEmpty)
      (a :: (l.filter (key · = key a) ++ ((a :: l).mergeSort le).filter (key a < key ·)))).text =
        sep (first && smaller.isEmpty) ++ ((body a).text ++ r) ∧ ((body a).error ≠ none → r = []) :=
    items_cons _
  refine ⟨fine, r, ?_, failed⟩
  rw [SortedBy.eq_append_of_pairwise (SortedBy.pairwise_mergeSort hle (a :: l)) (key a), group,
    items_append fine, List.cons_append, text]

/-- If two orders are printed alike, then so are the elements of one key that come first in them, as
far as what follows goes. -/
theorem firsts_of_eq (perm : (a :: l).Perm (b :: m)) (same : key a = key b)
    (ok : ∀ e ∈ a :: l, key e < key a → (body e).error = none) {first : Bool}
    (eq : (items sep body first ((a :: l).mergeSort le)).text =
      (items sep body first ((b :: m).mergeSort le)).text) :
    ∃ r r', (body a).text ++ r = (body b).text ++ r' ∧ ((body a).error ≠ none → r = []) ∧
      ((body b).error ≠ none → r' = []) := by
  obtain ⟨fine, r, text, failed⟩ := items_first hle sep
    (fun e he => ok e (List.mem_cons_of_mem _ he)) first
  obtain ⟨-, r', text', failed'⟩ := items_first hle sep
    (fun e he less => ok e (perm.mem_iff.mpr (List.mem_cons_of_mem _ he)) (same ▸ less)) first
  have before := mergeSort_perm_filter le perm (key · < key a)
  rw [eq, text', ← same, ← before.isEmpty_eq] at text
  obtain ⟨-, rest⟩ := List.append_inj text (length_items before fine first).symm
  exact ⟨r, r', (List.append_cancel_left rest).symm, failed, failed'⟩

/-- If nothing fails, the last element comes right before the larger ones. -/
theorem items_last (sep : Bool → Str) (ok : ∀ e, (body e).error = none) (first : Bool) :
    ∃ before, (items sep body first ((l ++ [a]).mergeSort le)).text =
      before ++ (body a).text ++
        (items sep body false (((l ++ [a]).mergeSort le).filter (key a < key ·))).text := by
  have group : ((l ++ [a]).mergeSort le).filter (key · = key a) =
      l.filter (key · = key a) ++ [a] := by
    rw [SortedBy.filter_mergeSort hle, List.filter_append, List.filter_cons_of_pos (by simp),
      List.filter_nil]
  obtain ⟨before, text⟩ : ∃ before, (items sep body first
      (((l ++ [a]).mergeSort le).filter (key · < key a) ++ l.filter (key · = key a) ++ [a])).text =
        before ++ (body a).text :=
    items_concat (fun e _ => ok e) (ok a) first
  have nonempty : (((l ++ [a]).mergeSort le).filter (key · < key a) ++
      l.filter (key · = key a) ++ [a]).isEmpty = false :=
    List.isEmpty_eq_false_iff.mpr (List.append_ne_nil_of_right_ne_nil _ (List.cons_ne_nil a []))
  refine ⟨before, ?_⟩
  conv_lhs =>
    rw [SortedBy.eq_append_of_pairwise (SortedBy.pairwise_mergeSort hle (l ++ [a])) (key a), group,
      ← List.append_assoc, ← List.append_assoc, items_append fun e _ => ok e]
  rw [text, nonempty, Bool.and_false]

/-- Likewise for those that come last, if nothing fails. -/
theorem lasts_of_eq (perm : (l ++ [a]).Perm (m ++ [b])) (same : key a = key b)
    (ok : ∀ e, (body e).error = none) {first : Bool}
    (eq : (items sep body first ((l ++ [a]).mergeSort le)).text =
      (items sep body first ((m ++ [b]).mergeSort le)).text) :
    ∃ r r', r ++ (body a).text = r' ++ (body b).text := by
  obtain ⟨r, text⟩ := items_last hle sep ok first
  obtain ⟨r', text'⟩ := items_last hle sep ok first
  have after := mergeSort_perm_filter le perm (key a < key ·)
  rw [eq, text', ← same] at text
  exact ⟨r, r', (List.append_inj' text
    (length_items after (fun e _ => ok e) false).symm).1.symm⟩

end Sorted

end Output
