import Mathlib.Algebra.BigOperators.Group.Finset.Piecewise
import Mathlib.Algebra.BigOperators.Intervals
import Mathlib.Algebra.Order.BigOperators.Group.Finset

/-! A ledger over numbered accounts, of which the first `n` are open: how its total changes when
one account changes, and when the next account opens. -/

namespace Ledger

open Finset

variable {κ : Type*} {f : κ → ℕ} {c : ℕ → κ} {n i : ℕ}

/-- The sum of `f` over the first `n` accounts. -/
def total (f : κ → ℕ) (c : ℕ → κ) (n : ℕ) : ℕ := ∑ i ∈ range n, f (c i)

/-- Double entry: the total changes by as much as the account does. -/
theorem total_update (h : i < n) (x : κ) :
    total f (Function.update c i x) n + f (c i) = total f c n + f x := by
  have hi : i ∈ range n := mem_range.mpr h
  have outside : ∑ j ∈ (range n).erase i, f (Function.update c i x j) =
      ∑ j ∈ (range n).erase i, f (c j) := by
    apply sum_congr rfl
    intro j hj
    rw [Function.update_of_ne (ne_of_mem_erase hj)]
  have after := add_sum_erase (range n) (fun j => f (Function.update c i x j)) hi
  have before := add_sum_erase (range n) (fun j => f (c j)) hi
  simp only [Function.update_self] at after
  unfold total
  omega

/-- Opening the next account adds what it holds. -/
theorem total_succ (x : κ) : total f (Function.update c n x) (n + 1) = total f c n + f x := by
  unfold total
  rw [sum_range_succ, Function.update_self]
  congr 1
  apply sum_congr rfl
  intro j hj
  rw [Function.update_of_ne (mem_range.mp hj).ne]

theorem total_add (f g : κ → ℕ) : total (fun x => f x + g x) c n = total f c n + total g c n :=
  sum_add_distrib

theorem total_eq_zero (h : ∀ i, f (c i) = 0) : total f c n = 0 :=
  sum_eq_zero fun i _ => h i

/-- As many accounts as meet `p`, if each of them holds something, are at most the total. -/
theorem card_le_total (p : κ → Prop) [DecidablePred p] (h : ∀ x, p x → 1 ≤ f x) :
    ((range n).filter fun i => p (c i)).card ≤ total f c n := by
  calc ((range n).filter fun i => p (c i)).card
      = ∑ i ∈ (range n).filter fun i => p (c i), 1 := card_eq_sum_ones _
    _ ≤ ∑ i ∈ (range n).filter fun i => p (c i), f (c i) :=
        sum_le_sum fun i hi => h _ (mem_filter.mp hi).2
    _ ≤ total f c n := sum_le_sum_of_subset (filter_subset _ _)

end Ledger
