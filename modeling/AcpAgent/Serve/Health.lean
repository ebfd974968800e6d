import AcpAgent.Lib.Register
import AcpAgent.Lib.Str

/-! The launch health of one route, `AgentHealth` in `serve/runtime.rs`. -/

namespace AcpAgent.Serve.Health

variable {τ : Type*}

/-- `ReadinessFailure`, with the time of the failure. -/
structure ReadinessFailure (τ : Type*) where
  time : τ
  detail : Str

structure AgentHealthState (τ : Type*) where
  attempts : UInt64
  failures : UInt64
  outcomeGeneration : UInt64
  lastAttemptFailed : Bool
  lastFailure : Option (ReadinessFailure τ)

structure ReadinessSnapshot (τ : Type*) where
  attempts : UInt64
  failures : UInt64
  lastAttemptFailed : Bool
  lastFailure : Option (ReadinessFailure τ)

/-- A launch whose outcome is known: its generation, which `next_generation` has given, and what it
has failed with, if it has. -/
structure Launch where
  generation : UInt64
  positive : 0 < generation
  failure : Option Str

namespace AgentHealthState

/-- `AgentHealthState::default`. -/
def initial : AgentHealthState τ := ⟨0, 0, 0, false, none⟩

def recordOk (s : AgentHealthState τ) (generation : UInt64) : AgentHealthState τ :=
  let s := { s with attempts := s.attempts + 1 }
  if generation > s.outcomeGeneration then
    { s with outcomeGeneration := generation, lastAttemptFailed := false }
  else s

def recordFailure (s : AgentHealthState τ) (now : τ) (generation : UInt64) (detail : Str) :
    AgentHealthState τ :=
  let s := { s with attempts := s.attempts + 1, failures := s.failures + 1 }
  if generation > s.outcomeGeneration then
    { s with
      outcomeGeneration := generation
      lastAttemptFailed := true
      lastFailure := some ⟨now, detail⟩ }
  else s

def snapshot (s : AgentHealthState τ) : ReadinessSnapshot τ :=
  ⟨s.attempts, s.failures, s.lastAttemptFailed, s.lastFailure⟩

def record (s : AgentHealthState τ) (now : τ) (launch : Launch) : AgentHealthState τ :=
  match launch.failure with
  | none => s.recordOk launch.generation
  | some detail => s.recordFailure now launch.generation detail

def records (s : AgentHealthState τ) (launches : List (τ × Launch)) : AgentHealthState τ :=
  launches.foldl (fun s launch => s.record launch.1 launch.2) s

/-- What shows of the last outcome: the detail, if it is a failure. -/
def shown (s : AgentHealthState τ) : Option Str :=
  if s.lastAttemptFailed then s.lastFailure.map ReadinessFailure.detail else none

def outcome (s : AgentHealthState τ) : Register ℕ (Option Str) :=
  ⟨s.outcomeGeneration.toNat, s.shown⟩

/-- A failure that shows has a detail. -/
def Detailed (s : AgentHealthState τ) : Prop :=
  s.lastAttemptFailed = true → s.lastFailure.isSome = true

theorem Detailed.shown {s : AgentHealthState τ} (h : s.Detailed) :
    s.shown.isSome = s.lastAttemptFailed := by
  unfold AgentHealthState.shown
  cases failed : s.lastAttemptFailed with
  | false => rfl
  | true => simpa using h failed

theorem shown_failed {s : AgentHealthState τ} (h : s.lastAttemptFailed = true) :
    s.shown = s.lastFailure.map ReadinessFailure.detail := if_pos h

/-- What one record changes. -/
structure Recorded (s : AgentHealthState τ) (launch : Launch) (s' : AgentHealthState τ) : Prop where
  attempts : s'.attempts = s.attempts + 1
  failures : s'.failures = s.failures + if launch.failure.isSome then 1 else 0
  outcome : s'.outcome = s.outcome.write (launch.generation.toNat, launch.failure)
  detailed : s.Detailed → s'.Detailed

theorem recorded (s : AgentHealthState τ) (now : τ) (launch : Launch) :
    s.Recorded launch (s.record now launch) := by
  obtain ⟨generation, positive, failure⟩ := launch
  unfold record
  have older : generation > s.outcomeGeneration ↔ s.outcomeGeneration.toNat < generation.toNat :=
    UInt64.lt_iff_toNat_lt
  cases failure with
  | none =>
    by_cases newer : generation > s.outcomeGeneration
    · constructor <;> simp [recordOk, newer, ← older, outcome, shown, Register.write, Detailed]
    · constructor <;> simp [recordOk, newer, ← older, outcome, shown, Register.write, Detailed]
  | some detail =>
    by_cases newer : generation > s.outcomeGeneration
    · constructor <;> simp [recordFailure, newer, ← older, outcome, shown, Register.write, Detailed]
    · constructor <;> simp [recordFailure, newer, ← older, outcome, shown, Register.write, Detailed]

/-- What is left of a sequence of records: two counts, and the register of their outcomes. -/
structure Summary (s : AgentHealthState τ) (launches : List Launch) (s' : AgentHealthState τ) :
    Prop where
  attempts : s'.attempts = s.attempts + .ofNat launches.length
  failures : s'.failures = s.failures + .ofNat (launches.countP fun launch => launch.failure.isSome)
  outcome : s'.outcome =
    s.outcome.writes (launches.map fun launch => (launch.generation.toNat, launch.failure))
  detailed : s.Detailed → s'.Detailed

theorem summary (s : AgentHealthState τ) (launches : List (τ × Launch)) :
    s.Summary (launches.map Prod.snd) (s.records launches) := by
  induction launches generalizing s with
  | nil => exact ⟨(UInt64.add_zero _).symm, (UInt64.add_zero _).symm, rfl, id⟩
  | cons launch launches ih =>
    obtain ⟨now, launch⟩ := launch
    have first := s.recorded now launch
    have rest := ih (s.record now launch)
    rw [records, List.foldl_cons, List.map_cons]
    refine ⟨rest.attempts.trans ?_, rest.failures.trans ?_, ?_, fun h =>
      rest.detailed (first.detailed h)⟩
    · rw [first.attempts, List.length_cons, UInt64.ofNat_add, UInt64.add_assoc, UInt64.add_comm 1]
      rfl
    · rw [first.failures, List.countP_cons, UInt64.ofNat_add, UInt64.add_assoc,
        UInt64.add_comm (ite ..)]
      cases launch.failure <;> rfl
    · rw [List.map_cons, Register.writes, List.foldl_cons, ← first.outcome]
      exact rest.outcome

end AgentHealthState

/-! ### Order -/

/-- The two tell the same, but for the time of the failure and for a failure that does not show. -/
structure ReadinessSnapshot.Alike (a b : ReadinessSnapshot τ) : Prop where
  attempts : a.attempts = b.attempts
  failures : a.failures = b.failures
  lastAttemptFailed : a.lastAttemptFailed = b.lastAttemptFailed
  detail : a.lastAttemptFailed = true →
    a.lastFailure.map ReadinessFailure.detail = b.lastFailure.map ReadinessFailure.detail

section Order

open AgentHealthState

theorem nodup_stamps {launches : List Launch}
    (distinct : (launches.map Launch.generation).Nodup) :
    ((launches.map fun launch => (launch.generation.toNat, launch.failure)).map
      Prod.fst).Nodup := by
  have stamps :
      (launches.map fun launch => (launch.generation.toNat, launch.failure)).map Prod.fst =
        (launches.map Launch.generation).map UInt64.toNat := by simp [Function.comp_def]
  rw [stamps]
  exact distinct.map fun _ _ => UInt64.toNat.inj

theorem detailed_records (launches : List (τ × Launch)) : (initial.records launches).Detailed :=
  (summary initial launches).detailed fun failed => nomatch failed

/-- The order of the outcomes of different launches plays no part. -/
theorem records_alike {first second : List (τ × Launch)}
    (same : (first.map Prod.snd).Perm (second.map Prod.snd))
    (distinct : ((first.map Prod.snd).map Launch.generation).Nodup) :
    (initial.records first).snapshot.Alike (initial.records second).snapshot := by
  have left := summary initial first
  have right := summary initial second
  have outcome : (initial.records first).outcome = (initial.records second).outcome := by
    rw [left.outcome, right.outcome]
    apply Register.writes_perm
    · exact same.map _
    · exact nodup_stamps distinct
  have shown : (initial.records first).shown = (initial.records second).shown :=
    congrArg Register.value outcome
  have failed : (initial.records first).lastAttemptFailed =
      (initial.records second).lastAttemptFailed := by
    rw [← (detailed_records first).shown, ← (detailed_records second).shown, shown]
  refine ⟨?_, ?_, failed, fun on => ?_⟩
  · exact left.attempts.trans (same.length_eq ▸ right.attempts.symm)
  · exact left.failures.trans (same.countP_eq _ ▸ right.failures.symm)
  · exact (shown_failed on).symm.trans (shown.trans (shown_failed (failed.symm.trans on)))

/-- The outcome of the highest generation shows. -/
theorem records_highest {launches : List (τ × Launch)}
    (distinct : ((launches.map Prod.snd).map Launch.generation).Nodup) {launch : Launch}
    (hl : launch ∈ launches.map Prod.snd)
    (highest : ∀ other ∈ launches.map Prod.snd, other.generation ≤ launch.generation) :
    let s := (initial.records launches).snapshot
    s.lastAttemptFailed = launch.failure.isSome ∧ (s.lastAttemptFailed = true →
      s.lastFailure.map ReadinessFailure.detail = launch.failure) := by
  intro s
  have outcome : (initial.records launches).outcome =
      ⟨launch.generation.toNat, launch.failure⟩ := by
    rw [(summary initial launches).outcome]
    apply Register.writes_highest
    · exact nodup_stamps distinct
    · exact List.mem_map.mpr ⟨launch, hl, rfl⟩
    · exact UInt64.lt_iff_toNat_lt.mp launch.positive
    · intro write hwrite
      obtain ⟨other, ho, rfl⟩ := List.mem_map.mp hwrite
      exact UInt64.le_iff_toNat_le.mp (highest other ho)
  have shown : (initial.records launches).shown = launch.failure := congrArg Register.value outcome
  refine ⟨?_, fun on => (shown_failed on).symm.trans shown⟩
  exact (detailed_records launches).shown.symm.trans (congrArg Option.isSome shown)

end Order

end AcpAgent.Serve.Health
