import Mathlib.Data.List.DropRight
import Mathlib.Data.List.Infix
import Mathlib.Data.Nat.Notation
import Mathlib.Order.Lattice

/-! What is kept of a stream that only grows: its last elements, and suffixes that start where a
line does. -/

namespace Suffix

variable {α : Type*}

/-! ### The last elements -/

section Last

variable (n : ℕ) (kept rest : List α)

theorem length_rtake : (kept.rtake n).length = min n kept.length := by
  rw [List.rtake, List.length_drop]
  omega

theorem rtake_suffix : kept.rtake n <:+ kept := List.drop_suffix _ kept

variable {n kept rest}

theorem rtake_of_length_le (h : kept.length ≤ n) : kept.rtake n = kept := by
  rw [List.rtake, Nat.sub_eq_zero_of_le h, List.drop_zero]

/-- The last elements of what is long enough do not depend on what is before it. -/
theorem rtake_append_right (h : n ≤ rest.length) : (kept ++ rest).rtake n = rest.rtake n := by
  have past : kept.length ≤ (kept ++ rest).length - n := by
    rw [List.length_append]
    omega
  rw [List.rtake, List.drop_append, List.drop_eq_nil_of_le past, List.nil_append, List.rtake,
    List.length_append]
  congr 1
  omega

theorem rtake_append_left (h : rest.length ≤ n) :
    (kept ++ rest).rtake n = kept.rtake (n - rest.length) ++ rest := by
  have inside : (kept ++ rest).length - n - kept.length = 0 := by
    rw [List.length_append]
    omega
  rw [List.rtake, List.drop_append, inside, List.drop_zero, List.rtake, List.length_append]
  congr 2
  omega

/-- What was dropped before plays no part any more. -/
theorem rtake_rtake {m : ℕ} (h : n ≤ m) : (kept.rtake m).rtake n = kept.rtake n := by
  rw [List.rtake, length_rtake, List.rtake, List.drop_drop, List.rtake]
  congr 1
  omega

theorem rtake_rtake_append : (kept.rtake n ++ rest).rtake n = (kept ++ rest).rtake n := by
  rcases le_total n rest.length with long | short
  · rw [rtake_append_right long, rtake_append_right long]
  · rw [rtake_append_left short, rtake_append_left short, rtake_rtake (Nat.sub_le _ _)]

end Last

/-! ### Whole lines -/

section Lines

/-- Nothing, or something that ends with the separator. -/
def Terminated (sep : α) (l : List α) : Prop := ∀ last ∈ l.getLast?, last = sep

/-- A suffix that starts where a line does. -/
def LineSuffix (sep : α) (rest whole : List α) : Prop :=
  ∃ front, Terminated sep front ∧ front ++ rest = whole

/-- What is behind the first separator, or everything if there is none. -/
def dropLine [DecidableEq α] (sep : α) (l : List α) : List α :=
  match l.findIdx? (· = sep) with
  | some i => l.drop (i + 1)
  | none => l

variable {sep : α} {l m rest whole : List α}

@[simp] theorem Terminated.nil : Terminated sep [] := by simp [Terminated]

theorem Terminated.concat : Terminated sep (l ++ [sep]) := by simp [Terminated]

theorem Terminated.append (hl : Terminated sep l) (hm : Terminated sep m) :
    Terminated sep (l ++ m) := by
  rcases List.eq_nil_or_concat m with rfl | ⟨m, last, rfl⟩
  · simpa using hl
  · intro x hx
    exact hm x (by simpa using hx)

theorem Terminated.of_append (h : Terminated sep (l ++ m)) : Terminated sep m := by
  rcases List.eq_nil_or_concat m with rfl | ⟨m, last, rfl⟩
  · exact .nil
  · intro x hx
    exact h x (by simpa using hx)

theorem Terminated.mem (h : Terminated sep l) (nonempty : l ≠ []) : sep ∈ l := by
  have last := h _ (List.getLast?_eq_some_getLast nonempty)
  rw [← last]
  exact List.getLast_mem nonempty

theorem Terminated.flatten {texts : List (List α)} (h : ∀ text ∈ texts, Terminated sep text) :
    Terminated sep texts.flatten := by
  induction texts with
  | nil => exact .nil
  | cons text texts ih =>
    rw [List.flatten_cons]
    exact (h text List.mem_cons_self).append (ih fun t ht => h t (List.mem_cons_of_mem _ ht))

theorem LineSuffix.refl (sep : α) (whole : List α) : LineSuffix sep whole whole :=
  ⟨[], .nil, rfl⟩

theorem LineSuffix.suffix (h : LineSuffix sep rest whole) : rest <:+ whole := by
  obtain ⟨front, -, eq⟩ := h
  exact ⟨front, eq⟩

theorem LineSuffix.trans (h : LineSuffix sep l m) (h' : LineSuffix sep m whole) :
    LineSuffix sep l whole := by
  obtain ⟨front, hf, rfl⟩ := h
  obtain ⟨before, hb, rfl⟩ := h'
  exact ⟨before ++ front, hb.append hf, by rw [List.append_assoc]⟩

theorem LineSuffix.append (h : LineSuffix sep rest whole) (more : List α) :
    LineSuffix sep (rest ++ more) (whole ++ more) := by
  obtain ⟨front, hf, rfl⟩ := h
  exact ⟨front, hf, by rw [List.append_assoc]⟩

variable [DecidableEq α]

theorem findIdx?_of_notMem (h : sep ∉ l) : l.findIdx? (· = sep) = none := by
  rw [List.findIdx?_eq_none_iff]
  intro x hx
  exact decide_eq_false fun eq => h (eq ▸ hx)

theorem dropLine_of_notMem (h : sep ∉ l) : dropLine sep l = l := by
  rw [dropLine, findIdx?_of_notMem h]

theorem dropLine_append (h : sep ∉ l) : dropLine sep (l ++ sep :: m) = m := by
  have first : (l ++ sep :: m).findIdx? (· = sep) = some l.length := by
    simp [List.findIdx?_append, findIdx?_of_notMem h, List.findIdx?_cons]
  rw [dropLine, first]
  simp

/-- Behind the first separator of a suffix, there is the start of a line. -/
theorem LineSuffix.dropLine (h : rest <:+ whole) (terminated : Terminated sep whole) :
    LineSuffix sep (dropLine sep rest) whole := by
  obtain ⟨before, rfl⟩ := h
  rcases eq_or_ne rest [] with rfl | nonempty
  · exact ⟨before, by simpa using terminated, by simp [Suffix.dropLine]⟩
  · obtain ⟨line, next, rfl, first⟩ :=
      List.eq_append_cons_of_mem (terminated.of_append.mem nonempty)
    rw [dropLine_append first]
    exact ⟨before ++ line ++ [sep], .concat, by simp⟩

theorem length_dropLine_le (sep : α) (l : List α) : (dropLine sep l).length ≤ l.length := by
  unfold Suffix.dropLine
  split
  · rw [List.length_drop]
    omega
  · exact le_rfl

end Lines

end Suffix
