import Mathlib.Data.List.Sort
import Mathlib.Order.Lattice

/-! A stable sort by a key: the elements of one key keep their order, and only they depend on the
order of the input. -/

namespace SortedBy

variable {α κ : Type*} [LinearOrder κ] {key : α → κ} {le : α → α → Bool}

section Stable

variable (hle : ∀ a b, le a b = true ↔ key a ≤ key b) (l : List α)

include hle

theorem le_trans_ (a b c : α) (hab : le a b = true) (hbc : le b c = true) : le a c = true := by
  rw [hle] at hab hbc ⊢
  exact hab.trans hbc

theorem le_total_ (a b : α) : (le a b || le b a) = true := by
  rw [Bool.or_eq_true, hle, hle]
  exact le_total ..

theorem pairwise_mergeSort : (l.mergeSort le).Pairwise (key · ≤ key ·) :=
  (List.pairwise_mergeSort (le_trans_ hle) (le_total_ hle) l).imp fun h => (hle ..).mp h

/-- The elements of one key come in the order in which they were. -/
theorem filter_mergeSort (k : κ) :
    (l.mergeSort le).filter (key · = k) = l.filter (key · = k) := by
  have alike : (l.filter (key · = k)).Pairwise fun a b => le a b = true := by
    refine List.pairwise_of_forall_mem_list fun a ha b hb => ?_
    have hka : key a = k := by simpa using (List.mem_filter.mp ha).2
    have hkb : key b = k := by simpa using (List.mem_filter.mp hb).2
    rw [hle, hka, hkb]
  have kept := (List.sublist_mergeSort (le_trans_ hle) (le_total_ hle) alike
    List.filter_sublist).filter (key · = k)
  simp only [List.filter_filter, Bool.and_self] at kept
  exact (kept.eq_of_length ((List.mergeSort_perm l le).filter (key · = k)).length_eq.symm).symm

/-- The keys of the sorted list do not depend on the order. -/
theorem map_mergeSort {l' : List α} (perm : l.Perm l') :
    (l.mergeSort le).map key = (l'.mergeSort le).map key := by
  have sorted : ∀ l : List α, ((l.mergeSort le).map key).Pairwise (· ≤ ·) := fun l =>
    List.pairwise_map.mpr (pairwise_mergeSort hle l)
  have same : ((l.mergeSort le).map key).Perm ((l'.mergeSort le).map key) :=
    (((List.mergeSort_perm l le).trans perm).trans (List.mergeSort_perm l' le).symm).map key
  exact same.eq_of_pairwise (fun _ _ _ _ => le_antisymm) (sorted l) (sorted l')

/-- Elements of different keys are sorted in one way. -/
theorem mergeSort_congr {l' : List α} (perm : l.Perm l') (different : (l.map key).Nodup) :
    l.mergeSort le = l'.mergeSort le := by
  have sorted : (l.mergeSort le).Perm (l'.mergeSort le) :=
    ((List.mergeSort_perm l le).trans perm).trans (List.mergeSort_perm l' le).symm
  refine sorted.eq_of_pairwise (fun a b ha hb hab hba => ?_) (pairwise_mergeSort hle l)
    (pairwise_mergeSort hle l')
  exact List.inj_on_of_nodup_map different (List.mem_mergeSort.mp ha)
    (perm.mem_iff.mpr (List.mem_mergeSort.mp hb)) (le_antisymm hab hba)

end Stable

/-- In a list that has what meets a predicate first, the rest is behind it. -/
theorem eq_filter_append {s : List α} {p : α → Bool}
    (first : s.Pairwise fun a b => p b = true → p a = true) :
    s = s.filter p ++ s.filter (!p ·) := by
  induction s with
  | nil => rfl
  | cons a s ih =>
    obtain ⟨head, rest⟩ := List.pairwise_cons.mp first
    cases here : p a with
    | true => simpa [here] using ih rest
    | false =>
      have none_ : s.filter p = [] := by
        rw [List.filter_eq_nil_iff]
        intro b hb holds
        simp [head b hb holds] at here
      have all : s.filter (!p ·) = s := by
        rw [List.filter_eq_self]
        intro b hb
        simpa using List.filter_eq_nil_iff.mp none_ b hb
      simp [here, none_, all]

/-- What is sorted has the smaller elements first, then those of a key, then the larger ones. -/
theorem eq_append_of_pairwise {s : List α} (sorted : s.Pairwise (key · ≤ key ·)) (k : κ) :
    s = s.filter (key · < k) ++ (s.filter (key · = k) ++ s.filter (k < key ·)) := by
  have smaller : s = s.filter (key · < k) ++ s.filter (fun a => !decide (key a < k)) := by
    refine eq_filter_append (sorted.imp fun hab hb => ?_)
    simp only [decide_eq_true_eq] at hb ⊢
    exact hab.trans_lt hb
  have equal := eq_filter_append (s := s.filter fun a => !decide (key a < k)) (p := (key · = k)) <| by
    refine (sorted.filter _).imp_of_mem fun {a b} ha _ hab hb => ?_
    have notLess : ¬key a < k := by simpa using (List.mem_filter.mp ha).2
    simp only [decide_eq_true_eq] at hb ⊢
    exact le_antisymm (hab.trans_eq hb) (not_lt.mp notLess)
  rw [List.filter_filter, List.filter_filter] at equal
  have same : s.filter (fun a => decide (key a = k) && !decide (key a < k)) =
      s.filter (key · = k) := by
    refine List.filter_congr fun a _ => ?_
    by_cases h : key a = k <;> simp [h]
  have larger : s.filter (fun a => !decide (key a = k) && !decide (key a < k)) =
      s.filter (k < key ·) := by
    refine List.filter_congr fun a _ => ?_
    rcases lt_trichotomy (key a) k with h | h | h
    · simp [h, h.not_gt]
    · simp [h]
    · simp [h, h.not_gt, h.ne']
  rw [same, larger] at equal
  rw [← equal]
  exact smaller

end SortedBy
