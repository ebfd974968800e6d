import Mathlib.Logic.Function.Basic
import Mathlib.Logic.Relation
import Mathlib.Order.Basic

/-! Locks as the holds of parties: which holds exclude each other, and mutual exclusion as an
invariant of steps that take only what no other party's hold conflicts with.  A rank that grows
along every wait excludes cycles of waits. -/

namespace Locks

variable {ι η : Type*} {conflicts : η → η → Prop} {holds : ι → η → Prop}

/-- No two parties have conflicting holds. -/
def Exclusive (conflicts : η → η → Prop) (holds : ι → η → Prop) : Prop :=
  ∀ i j, i ≠ j → ∀ h k, holds i h → holds j k → ¬conflicts h k

/-- Party `i` may go on to the holds `next`: what it takes conflicts with no hold of another
party.  It gives up holds freely. -/
def Grants (conflicts : η → η → Prop) (holds : ι → η → Prop) (i : ι) (next : η → Prop) : Prop :=
  ∀ h, next h → ¬holds i h → ∀ j, j ≠ i → ∀ k, holds j k → ¬conflicts h k

theorem Exclusive.of_empty (h : ∀ i k, ¬holds i k) : Exclusive conflicts holds :=
  fun i _ _ _ _ hi => absurd hi (h i _)

/-- Mutual exclusion while the party that moves takes only what is granted; `hold` gives the holds
of a party from its state. -/
theorem Exclusive.update {τ : Type*} [DecidableEq ι] (hold : τ → η → Prop) {party : ι → τ} {i : ι}
    {x : τ} (hSymm : ∀ h k, conflicts h k → conflicts k h)
    (hx : Exclusive conflicts fun j => hold (party j))
    (hg : Grants conflicts (fun j => hold (party j)) i (hold x)) :
    Exclusive conflicts fun j => hold (Function.update party i x j) := by
  have taken : ∀ j, j ≠ i → ∀ h k, hold x h → hold (party j) k → ¬conflicts h k := by
    intro j hj h k hn hk
    by_cases old : hold (party i) h
    · exact hx i j (Ne.symm hj) h k old hk
    · exact hg h hn old j hj k hk
  intro a b hab h k ha hb
  by_cases hai : a = i
  · subst hai
    simp only [Function.update_self] at ha
    simp only [Function.update_of_ne (Ne.symm hab)] at hb
    exact taken b (Ne.symm hab) h k ha hb
  · simp only [Function.update_of_ne hai] at ha
    by_cases hbi : b = i
    · subst hbi
      simp only [Function.update_self] at hb
      exact fun c => taken a hai k h hb ha (hSymm _ _ c)
    · simp only [Function.update_of_ne hbi] at hb
      exact hx a b hab h k ha hb

/-- Parties of which each waits for one of a higher rank do not wait in a cycle. -/
theorem acyclic_of_rank {κ : Type*} [Preorder κ] {waits : ι → ι → Prop} (rank : ι → κ)
    (h : ∀ i j, waits i j → rank i < rank j) (i : ι) : ¬Relation.TransGen waits i i := by
  intro cycle
  have climbs : ∀ j, Relation.TransGen waits i j → rank i < rank j := by
    intro j path
    induction path with
    | single step => exact h _ _ step
    | tail _ step ih => exact ih.trans (h _ _ step)
  exact lt_irrefl _ (climbs i cycle)

/-- Below a bound, every chain of such waits has an end, at a party that waits for nobody. -/
theorem exists_end_of_rank {waits : ι → ι → Prop} (rank : ι → ℕ) {bound : ℕ}
    (h : ∀ i j, waits i j → rank i < rank j) (le : ∀ i, rank i ≤ bound) (i : ι) :
    ∃ j, Relation.ReflTransGen waits i j ∧ ∀ k, ¬waits j k := by
  induction n : bound - rank i using Nat.strongRecOn generalizing i with
  | ind n ih =>
    by_cases last : ∀ k, ¬waits i k
    · exact ⟨i, .refl, last⟩
    · obtain ⟨k, wait⟩ := not_forall_not.mp last
      have higher := h i k wait
      have most := le k
      obtain ⟨j, path, end_⟩ := ih (bound - rank k) (by omega) k rfl
      exact ⟨j, .head wait path, end_⟩

end Locks
