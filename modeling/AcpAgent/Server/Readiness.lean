import AcpAgent.Serve.Health
import AcpAgent.Server.Control

/-! What a route's readiness probe (`readyz` in `serve/runtime.rs`) and the control plane
(`readiness_result` in `server/routes.rs`) report of its launches. -/

namespace AcpAgent.Server.Readiness

open Serve.Health

variable {τ : Type*}

/-- `readyz`: the status code and the body; `age` tells how long ago a time is. -/
def readyz (age : τ → Str) (snapshot : Serve.Health.ReadinessSnapshot τ) : UInt16 × Str :=
  if !snapshot.lastAttemptFailed then (200, str "ready\n")
  else
    let detail := match snapshot.lastFailure with
      | some failure =>
        str "last failure (" ++ age failure.time ++ str "): " ++ failure.detail ++ str "\n"
      | none => []
    (503, str "not ready: " ++ Nat.toDigits 10 snapshot.failures.toNat ++ str " of " ++
      Nat.toDigits 10 snapshot.attempts.toNat ++ str " agent launches failed; " ++ detail)

/-- The snapshot as the control plane reads it. -/
def controlSnapshot (snapshot : Serve.Health.ReadinessSnapshot τ) : Control.ReadinessSnapshot where
  attempts := snapshot.attempts
  failures := snapshot.failures
  lastAttemptFailed := snapshot.lastAttemptFailed
  lastFailure := snapshot.lastFailure.map ReadinessFailure.detail

theorem readyz_alike {a b : Serve.Health.ReadinessSnapshot τ} (h : a.Alike b) (age : Str) :
    readyz (fun _ => age) a = readyz (fun _ => age) b := by
  unfold readyz
  rw [h.attempts, h.failures, ← h.lastAttemptFailed]
  cases failed : a.lastAttemptFailed with
  | false => rfl
  | true =>
    have detail := h.detail failed
    cases left : a.lastFailure with
    | none =>
      have right : b.lastFailure = none := by simpa [left] using detail.symm
      rw [right]
    | some failure =>
      rw [left, Option.map_some] at detail
      obtain ⟨failure', right, same⟩ := Option.map_eq_some_iff.mp detail.symm
      simp only [right, same]

theorem readinessResult_alike {a b : Serve.Health.ReadinessSnapshot τ} (h : a.Alike b)
    (readyzEndpoint : Bool) :
    Control.readinessResult readyzEndpoint (controlSnapshot a) =
      Control.readinessResult readyzEndpoint (controlSnapshot b) := by
  unfold Control.readinessResult controlSnapshot
  rw [h.attempts, h.failures, ← h.lastAttemptFailed]
  cases failed : a.lastAttemptFailed with
  | false => rfl
  | true => rw [h.detail failed]

/-- The same outcomes, recorded in any two orders, lead to the same report, and the launch with the
highest generation decides it. -/
theorem readiness_confluent {first second : List (τ × Launch)}
    (same : (first.map Prod.snd).Perm (second.map Prod.snd))
    (distinct : ((first.map Prod.snd).map Launch.generation).Nodup) :
    let s := (AgentHealthState.initial.records first).snapshot
    let s' := (AgentHealthState.initial.records second).snapshot
    s.Alike s' ∧
    (∀ launch ∈ first.map Prod.snd,
      (∀ other ∈ first.map Prod.snd, other.generation ≤ launch.generation) →
      s.lastAttemptFailed = launch.failure.isSome ∧
        (s.lastAttemptFailed = true →
          s.lastFailure.map ReadinessFailure.detail = launch.failure)) ∧
    (∀ age : Str, readyz (fun _ => age) s = readyz (fun _ => age) s') ∧
    ∀ readyzEndpoint, Control.readinessResult readyzEndpoint (controlSnapshot s) =
      Control.readinessResult readyzEndpoint (controlSnapshot s') := by
  intro s s'
  have alike : s.Alike s' := records_alike same distinct
  exact ⟨alike, fun _ => records_highest distinct, readyz_alike alike, readinessResult_alike alike⟩

/-- The second launch fails before the first one succeeds. -/
def staleOutcome : List (ℕ × Launch) :=
  [(10, ⟨2, by decide, some (str "launch 2 failed")⟩), (11, ⟨1, by decide, none⟩)]

def launchOrder : List (ℕ × Launch) :=
  [(10, ⟨1, by decide, none⟩), (11, ⟨2, by decide, some (str "launch 2 failed")⟩)]

theorem readiness_confluent_stale :
    let s := (AgentHealthState.initial.records staleOutcome).snapshot
    let s' := (AgentHealthState.initial.records launchOrder).snapshot
    s.Alike s' ∧
    (∀ launch ∈ staleOutcome.map Prod.snd,
      (∀ other ∈ staleOutcome.map Prod.snd, other.generation ≤ launch.generation) →
      s.lastAttemptFailed = launch.failure.isSome ∧
        (s.lastAttemptFailed = true →
          s.lastFailure.map ReadinessFailure.detail = launch.failure)) ∧
    (∀ age : Str, readyz (fun _ => age) s = readyz (fun _ => age) s') ∧
    ∀ readyzEndpoint, Control.readinessResult readyzEndpoint (controlSnapshot s) =
      Control.readinessResult readyzEndpoint (controlSnapshot s') :=
  readiness_confluent (List.Perm.swap _ _ _) (by decide)

end AcpAgent.Server.Readiness
