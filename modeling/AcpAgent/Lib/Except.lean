import Mathlib.Tactic.TypeStar

/-! When a computation in `Except` succeeds, and with which error it fails. -/

namespace Except

universe u

variable {ε ε' : Type*} {α β : Type u} {x : Except ε α} {f : α → Except ε β} {g : α → β}
  {h : ε → ε'} {a : α} {b : β} {e : ε} {e' : ε'}

theorem bind_eq_ok_iff : (x >>= f) = .ok b ↔ ∃ a, x = .ok a ∧ f a = .ok b := by
  cases x with
  | error e => simp [bind, Except.bind]
  | ok a => simp [bind, Except.bind]

theorem map_eq_ok_iff : x.map g = .ok b ↔ ∃ a, x = .ok a ∧ g a = b := by
  cases x <;> simp [Except.map]

theorem mapError_eq_ok_iff : x.mapError h = .ok a ↔ x = .ok a := by
  cases x with
  | error e => exact iff_of_false nofun nofun
  | ok b =>
    constructor
    · rintro ⟨⟩
      rfl
    · rintro ⟨⟩
      rfl

theorem mapError_eq_error_iff : x.mapError h = .error e' ↔ ∃ e, x = .error e ∧ h e = e' := by
  cases x with
  | error e =>
    constructor
    · rintro ⟨⟩
      exact ⟨e, rfl, rfl⟩
    · rintro ⟨_, ⟨⟩, rfl⟩
      rfl
  | ok b => exact iff_of_false nofun nofun

end Except
