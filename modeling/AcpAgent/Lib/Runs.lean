import AcpAgent.Lib.Transition
import Mathlib.Data.Nat.Notation

/-! Runs of a transition system step by step, and the moments of the time in which a party of the
system has been busy. -/

namespace Transition

variable {σ α : Type*}

/-- A run of `n` steps. -/
structure System.Run (S : System σ α) (n : ℕ) (state : ℕ → σ) (label : ℕ → α) : Prop where
  init : S.init (state 0)
  step : ∀ i < n, S.step (state i) (label i) (state (i + 1))

section Run

variable {S : System σ α} {n : ℕ} {state : ℕ → σ} {label : ℕ → α}

theorem System.Run.reachable (run : S.Run n state label) {i : ℕ} (h : i ≤ n) :
    S.Reachable (state i) := by
  induction i with
  | zero => exact .init run.init
  | succ i ih => exact .step (ih (by omega)) (run.step i (by omega))

/-- A run goes on by a step. -/
theorem System.Run.extend (run : S.Run n state label) {a : α} {t : σ} (step : S.step (state n) a t) :
    S.Run (n + 1) (Function.update state (n + 1) t) (Function.update label n a) := by
  refine ⟨by simpa using run.init, fun i hi => ?_⟩
  by_cases last : i = n
  · subst last
    simpa using step
  · rw [Function.update_of_ne (by omega), Function.update_of_ne last,
      Function.update_of_ne (by omega)]
    exact run.step i (by omega)

/-- Every reachable state is the last one of a run. -/
theorem System.Reachable.exists_run {s : σ} (h : S.Reachable s) (a : α) :
    ∃ n state label, S.Run n state label ∧ state n = s := by
  induction h with
  | @init s h => exact ⟨0, fun _ => s, fun _ => a, ⟨h, fun _ => nofun⟩, rfl⟩
  | @step s t b _ step ih =>
    obtain ⟨n, state, label, run, rfl⟩ := ih
    exact ⟨n + 1, _, _, run.extend step, Function.update_self ..⟩

end Run

/-- A moment of the time up to `n`, since which the party has been busy. -/
def During (busy : ℕ → Prop) (n k : ℕ) : Prop := k ≤ n ∧ ∀ j, k < j → j ≤ n → busy j

section During

variable {busy : ℕ → Prop} {n k : ℕ}

theorem during_now (busy : ℕ → Prop) (n : ℕ) : During busy n n :=
  ⟨Nat.le_refl n, fun j after before => absurd after (by omega)⟩

theorem During.succ (h : During busy n k) (still : busy (n + 1)) : During busy (n + 1) k := by
  refine ⟨by have := h.1; omega, fun j after before => ?_⟩
  rcases Nat.lt_or_eq_of_le before with earlier | rfl
  · exact h.2 j after (by omega)
  · exact still

end During

end Transition
