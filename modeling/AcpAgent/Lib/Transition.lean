import Mathlib.Logic.Function.Basic

/-! Labelled transition systems: reachable states, the invariant rule, runs whose steps all meet a
condition, and families of systems that run side by side. -/

namespace Transition

/-- A transition system with states `σ` and step labels `α`. -/
structure System (σ α : Type*) where
  init : σ → Prop
  step : σ → α → σ → Prop

variable {σ α : Type*}

/-- The states that some run of the system ends in. -/
inductive System.Reachable (S : System σ α) : σ → Prop
  | init {s : σ} (h : S.init s) : Reachable S s
  | step {s t : σ} {a : α} (hs : Reachable S s) (h : S.step s a t) : Reachable S t

/-- A property that holds initially and that steps from reachable states preserve holds of every
reachable state. -/
theorem System.Reachable.invariant {S : System σ α} {I : σ → Prop}
    (hInit : ∀ s, S.init s → I s)
    (hStep : ∀ s a t, S.Reachable s → I s → S.step s a t → I t)
    {s : σ} (h : S.Reachable s) : I s := by
  induction h with
  | init h => exact hInit _ h
  | step hs h ih => exact hStep _ _ _ hs ih h

/-- The runs of `S` whose steps all meet `ok`. -/
def System.restrict (S : System σ α) (ok : σ → α → Prop) : System σ α where
  init := S.init
  step s a t := ok s a ∧ S.step s a t

theorem System.Reachable.of_restrict {S : System σ α} {ok : σ → α → Prop} {s : σ}
    (h : (S.restrict ok).Reachable s) : S.Reachable s :=
  h.invariant (fun _ h => .init h) fun _ _ _ _ ih step => .step ih step.2

/-- A family of copies of `S`, of which one at a time takes a step. -/
def System.family {κ : Type*} (S : κ → System σ α) : System (κ → σ) (κ × α) where
  init s := ∀ k, (S k).init (s k)
  step s a t := (S a.1).step (s a.1) a.2 (t a.1) ∧ ∀ k, k ≠ a.1 → t k = s k

/-- One member of a family may run while all others stay where they are. -/
theorem System.Reachable.family {κ : Type*} [DecidableEq κ] {S : κ → System σ α} {s : κ → σ}
    (hs : ∀ k, (S k).init (s k)) {k : κ} {x : σ} (h : (S k).Reachable x) :
    (System.family S).Reachable (Function.update s k x) := by
  induction h with
  | @init x h =>
    refine .init fun j => ?_
    by_cases hj : j = k
    · subst hj
      simpa using h
    · simpa [hj] using hs j
  | @step x y a _ step ih =>
    refine .step (a := (k, a)) ih ⟨by simpa using step, fun j hj => ?_⟩
    simp [hj]

/-- Every member of a reachable family is reachable by itself. -/
theorem System.Reachable.member {κ : Type*} {S : κ → System σ α} {s : κ → σ}
    (h : (System.family S).Reachable s) (k : κ) : (S k).Reachable (s k) := by
  induction h with
  | init h => exact .init (h k)
  | @step s t a _ step ih =>
    by_cases hk : k = a.1
    · subst hk
      exact .step ih step.1
    · rw [step.2 k hk]
      exact ih

end Transition
