import Mathlib.Order.Basic
import Mathlib.Order.Monotone.Basic

/-! Fair schedules of parties that take turns, and the rule that a goal is reached which the steps of
one party at a time bring nearer. -/

/-- Whose turn it is; each party gets a turn again and again. -/
structure Schedule (π : Type*) where
  turn : ℕ → π
  fair : ∀ p n, ∃ m, n ≤ m ∧ turn m = p

namespace Schedule

variable {π σ : Type*} (schedule : Schedule π) (step : ℕ → π → σ → σ)

/-- The state after so many turns. -/
def run (s : σ) : ℕ → σ
  | 0 => s
  | n + 1 => step n (schedule.turn n) (run s n)

variable {schedule step} {Inv Goal : σ → Prop}

theorem run_invariant (keeps : ∀ n p s, Inv s → Inv (step n p s)) {s : σ} (h : Inv s) (n : ℕ) :
    Inv (schedule.run step s n) := by
  induction n with
  | zero => exact h
  | succ n ih => exact keeps n (schedule.turn n) _ ih

section Progress

variable {mover : σ → π} {distance : σ → ℕ} (keeps : ∀ n p s, Inv s → Inv (step n p s))
  (moves : ∀ n s, Inv s → ¬Goal s → distance (step n (mover s) s) < distance s)
  (others : ∀ n p s, Inv s → ¬Goal s → p ≠ mover s → step n p s = s)

include keeps moves others in
/-- Either the goal has come nearer or nothing has changed. -/
theorem run_nearer {s : σ} (h : Inv s) (n k : ℕ) :
    (∃ m, Goal (schedule.run step s m) ∨
        distance (schedule.run step s m) < distance (schedule.run step s n)) ∨
      schedule.run step s (n + k) = schedule.run step s n := by
  induction k with
  | zero => exact .inr rfl
  | succ k ih =>
    rcases ih with near | same
    · exact .inl near
    · have inv : Inv (schedule.run step s (n + k)) := run_invariant keeps h (n + k)
      by_cases goal : Goal (schedule.run step s (n + k))
      · exact .inl ⟨n + k, .inl goal⟩
      by_cases turn : schedule.turn (n + k) = mover (schedule.run step s (n + k))
      · refine .inl ⟨n + k + 1, .inr ?_⟩
        rw [run, turn, ← same]
        exact moves (n + k) _ inv goal
      · refine .inr ?_
        rw [← Nat.add_assoc, run, others (n + k) _ _ inv goal turn, same]

include keeps moves others in
/-- If until the goal one party's step always brings it nearer and nobody else's step changes
anything, the goal is reached. -/
theorem reaches {s : σ} (h : Inv s) : ∃ n, Goal (schedule.run step s n) := by
  suffices nearer : ∀ d n, distance (schedule.run step s n) = d →
      ∃ m, Goal (schedule.run step s m) from nearer _ 0 rfl
  intro d
  induction d using Nat.strong_induction_on with
  | _ d ih =>
    rintro n rfl
    by_cases goal : Goal (schedule.run step s n)
    · exact ⟨n, goal⟩
    obtain ⟨m, hm, turn⟩ := schedule.fair (mover (schedule.run step s n)) n
    obtain ⟨k, rfl⟩ := Nat.exists_eq_add_of_le hm
    have inv : Inv (schedule.run step s n) := run_invariant keeps h n
    rcases run_nearer keeps moves others h n k with ⟨m, there | near⟩ | same
    · exact ⟨m, there⟩
    · exact ih _ near m rfl
    · have next : schedule.run step s (n + k + 1) =
          step (n + k) (mover (schedule.run step s n)) (schedule.run step s n) := by
        rw [run, turn, same]
      refine ih _ ?_ (n + k + 1) rfl
      rw [next]
      exact moves (n + k) _ inv goal

end Progress

end Schedule
