import AcpAgent.Lib.Ledger
import AcpAgent.Lib.Transition
import AcpAgent.Serve.Health

/-! The launches of one route in `serve/runtime.rs`: `LaunchState`, the observers of
`ObservedAgent::connect_to`, and `LaunchGuard`.  Launches are numbered in the order of their factory
calls, and their steps interleave.  The calls on `AgentHealth` are kept in the order in which they
are made.  A route does not launch `2^64` agents, so that no counter wraps. -/

namespace AcpAgent.Serve.Launch

open Transition Health

variable {κ τ : Type*}

/-! ### One launch -/

def stderrTailBytes : ℕ := 16 * 1024

/-- `LaunchState`; `κ` are the ids of requests. -/
structure LaunchState (κ : Type*) where
  generation : UInt64
  /-- `next_generation` starts at 1. -/
  positive : 0 < generation
  outcomeRecorded : Bool
  initializeRequested : Bool
  initializeId : Option κ
  stderrTail : List UInt8

/-- The loop of `push_stderr` that makes room for so many bytes. -/
def makeRoom (required : ℕ) : List UInt8 → List UInt8
  | [] => []
  | byte :: tail =>
    if (byte :: tail).length + required > stderrTailBytes then makeRoom required tail
    else byte :: tail

namespace LaunchState

def new (generation : UInt64) (positive : 0 < generation) : LaunchState κ :=
  ⟨generation, positive, false, false, none, []⟩

def pushStderr (s : LaunchState κ) (line : List UInt8) : LaunchState κ :=
  let required := line.length + 1
  if required ≥ stderrTailBytes then
    { s with stderrTail := line.drop (line.length - (stderrTailBytes - 1)) ++ [10] }
  else { s with stderrTail := makeRoom required s.stderrTail ++ line ++ [10] }

/-- `initialize_requested`. -/
def request (s : LaunchState κ) (id : κ) : LaunchState κ :=
  { s with initializeRequested := true, initializeId := some id }

def initializeIdMatches [DecidableEq κ] (s : LaunchState κ) (id : κ) : Bool :=
  s.initializeId = some id

def tryRecordOutcome (s : LaunchState κ) : Bool × LaunchState κ :=
  if s.outcomeRecorded then (false, s) else (true, { s with outcomeRecorded := true })

@[simp] theorem pushStderr_generation (s : LaunchState κ) (line : List UInt8) :
    (s.pushStderr line).generation = s.generation := by
  unfold pushStderr
  dsimp only
  split <;> rfl

@[simp] theorem pushStderr_outcomeRecorded (s : LaunchState κ) (line : List UInt8) :
    (s.pushStderr line).outcomeRecorded = s.outcomeRecorded := by
  unfold pushStderr
  dsimp only
  split <;> rfl

def launch (s : LaunchState κ) (failure : Option Str) : Health.Launch :=
  ⟨s.generation, s.positive, failure⟩

end LaunchState

/-- Where the future of `connect_to` is. -/
inductive Pc
  /-- Not polled yet. -/
  | built
  /-- Dropped, or refused, before it has a permit. -/
  | unlaunched
  /-- The connection is under way, and its guard alive. -/
  | connected
  /-- The observer of responses has set the flag, and tells the health. -/
  | observed (failure : Option Str)
  /-- In `LaunchGuard::complete`. -/
  | completing (result : Except Str Unit)
  /-- In `LaunchGuard::drop`. -/
  | dropping
  /-- The guard is at `try_record_outcome`. -/
  | claiming (detail : Str)
  /-- The guard has set the flag, and tells the health. -/
  | failing (detail : Str)
  | ended

/-- The call on the health that comes next, if the flag has been set for it. -/
def Pc.call : Pc → Option (Option Str)
  | .observed failure => some failure
  | .failing detail => some (some detail)
  | _ => none

/-- The connection of the launch has ended, and its guard is not done. -/
def Pc.Ending : Pc → Prop
  | .completing _ | .dropping | .claiming _ | .failing _ => True
  | _ => False

def Pc.Launched : Pc → Prop
  | .built | .unlaunched => False
  | _ => True

section Guard

-- `String::from_utf8_lossy`.
variable (lossy : List UInt8 → Str)

/-- The detail of `LaunchGuard::complete`. -/
def completeDetail (s : LaunchState κ) : Except Str Unit → Str
  | .ok () =>
    if s.initializeRequested then str "agent connection ended before completing initialize"
    else str "agent connection ended without sending initialize"
  | .error error => error

/-- The detail of `LaunchGuard::drop`. -/
def dropDetail (s : LaunchState κ) : Str :=
  if s.initializeRequested then
    let tail := lossy s.stderrTail
    if tail = [] then
      str "agent connection ended before completing initialize (no stderr captured)"
    else str "agent connection ended before completing initialize; stderr tail:\n" ++ tail
  else str "agent connection ended without sending initialize"

variable [DecidableEq κ]

/-- One step of a launch that makes no call on the health. -/
inductive Step : LaunchState κ × Pc → LaunchState κ × Pc → Prop
  | refuse {s} : Step (s, .built) (s, .unlaunched)
  | connect {s} : Step (s, .built) (s, .connected)
  /-- The agent writes a line to its standard error. -/
  | stderr {s pc} (line : List UInt8) : Step (s, pc) (s.pushStderr line, pc)
  /-- The client sends `initialize`. -/
  | request {s} (id : κ) : Step (s, .connected) (s.request id, .connected)
  /-- The agent answers with a result, or with an error of this text. -/
  | respond {s s'} (id : κ) (failure : Option Str) (matched : s.initializeIdMatches id = true)
      (first : s.tryRecordOutcome = (true, s')) : Step (s, .connected) (s', .observed failure)
  | finish {s} (result : Except Str Unit) : Step (s, .connected) (s, .completing result)
  /-- The future is dropped, or the server shuts down. -/
  | cancel {s} : Step (s, .connected) (s, .dropping)
  | completed {s result} (recorded : s.outcomeRecorded = true) :
      Step (s, .completing result) (s, .ended)
  | complete {s result} (fresh : s.outcomeRecorded = false) :
      Step (s, .completing result) (s, .claiming (completeDetail s result))
  | drop {s} : Step (s, .dropping) (s, .claiming (dropDetail lossy s))
  | claim {s s' detail} (first : s.tryRecordOutcome = (true, s')) :
      Step (s, .claiming detail) (s', .failing detail)
  | claimed {s s' detail} (late : s.tryRecordOutcome = (false, s')) :
      Step (s, .claiming detail) (s', .ended)

end Guard

/-- Where a launch goes on after its call on the health. -/
def Pc.told : Pc → Pc
  | .observed _ => .connected
  | .failing _ => .ended
  | pc => pc

/-! ### The launches of a route -/

/-- The launches that the factory has built, the health, and the calls of `record_ok` and
`record_failure` on it so far, with their times. -/
structure Route (κ τ : Type*) where
  built : ℕ
  launches : ℕ → LaunchState κ × Pc
  health : AgentHealthState τ
  calls : List (τ × Health.Launch)

theorem toNat_generation {i : ℕ} (room : i + 1 < UInt64.size) :
    (UInt64.ofNat (i + 1)).toNat = i + 1 := UInt64.toNat_ofNat_of_lt' room

theorem generation_pos {i : ℕ} (room : i + 1 < UInt64.size) : 0 < UInt64.ofNat (i + 1) := by
  rw [UInt64.lt_iff_toNat_lt, toNat_generation room]
  exact Nat.succ_pos i

theorem generation_inj {i j : ℕ} (hi : i + 1 < UInt64.size) (hj : j + 1 < UInt64.size)
    (same : UInt64.ofNat (i + 1) = UInt64.ofNat (j + 1)) : i = j := by
  have same := congrArg UInt64.toNat same
  rw [toNat_generation hi, toNat_generation hj] at same
  exact Nat.succ.inj same

namespace Route

def setLaunch (r : Route κ τ) (i : ℕ) (x : LaunchState κ × Pc) : Route κ τ :=
  { r with launches := Function.update r.launches i x }

/-- The agent factory, with `next_generation`. -/
def build (r : Route κ τ) (room : r.built + 1 < UInt64.size) : Route κ τ :=
  { r with
    built := r.built + 1
    launches := Function.update r.launches r.built
      (.new (.ofNat (r.built + 1)) (generation_pos room), .built) }

def call (r : Route κ τ) (now : τ) (launch : Health.Launch) : Route κ τ :=
  { r with health := r.health.record now launch, calls := r.calls ++ [(now, launch)] }

def count (r : Route κ τ) (generation : UInt64) : ℕ :=
  r.calls.countP fun call => call.2.generation = generation

section Lemmas

variable (r : Route κ τ) {i j : ℕ} (x : LaunchState κ × Pc)

@[simp] theorem count_setLaunch (generation : UInt64) :
    (r.setLaunch i x).count generation = r.count generation := rfl

@[simp] theorem setLaunch_self : (r.setLaunch i x).launches i = x := Function.update_self ..

theorem setLaunch_ne (h : j ≠ i) : (r.setLaunch i x).launches j = r.launches j :=
  Function.update_of_ne h ..

@[simp] theorem count_build (room : r.built + 1 < UInt64.size) (generation : UInt64) :
    (r.build room).count generation = r.count generation := rfl

theorem build_self (room : r.built + 1 < UInt64.size) : (r.build room).launches r.built =
    (.new (.ofNat (r.built + 1)) (generation_pos room), .built) := Function.update_self ..

theorem build_ne (room : r.built + 1 < UInt64.size) (h : j ≠ r.built) :
    (r.build room).launches j = r.launches j := Function.update_of_ne h ..

theorem count_call (now : τ) (launch : Health.Launch) (generation : UInt64) :
    (r.call now launch).count generation =
      r.count generation + if launch.generation = generation then 1 else 0 := by
  simp [call, count, List.countP_append, List.countP_singleton]

end Lemmas

end Route

inductive Event (τ : Type*)
  | build
  | step (i : ℕ)
  | call (i : ℕ) (now : τ)

section System

variable (lossy : List UInt8 → Str) [DecidableEq κ]

inductive RouteStep : Route κ τ → Event τ → Route κ τ → Prop
  | build {r} (room : r.built + 1 < UInt64.size) : RouteStep r .build (r.build room)
  | step {r i x} (there : i < r.built) (h : Step lossy (r.launches i) x) :
      RouteStep r (.step i) (r.setLaunch i x)
  | call {r i now failure} (there : i < r.built) (h : (r.launches i).2.call = some failure) :
      RouteStep r (.call i now) ((r.call now ((r.launches i).1.launch failure)).setLaunch i
        ((r.launches i).1, (r.launches i).2.told))

/-- A route, before its first launch.  What stands for launches to come is no launch yet. -/
def system (κ τ : Type*) [DecidableEq κ] : System (Route κ τ) (Event τ) where
  init r := r.built = 0 ∧ r.health = .initial ∧ r.calls = []
  step := RouteStep lossy

end System

/-! ### Counting -/

/-- The outcome of the launch is recorded, and the health has been told. -/
def decided (x : LaunchState κ × Pc) : Bool := x.1.outcomeRecorded && x.2.call.isNone

def decisions (x : LaunchState κ × Pc) : ℕ := if decided x then 1 else 0

/-- What the state of launch `i` says about the calls made for it. -/
structure Fits (count i : ℕ) (x : LaunchState κ × Pc) : Prop where
  generation : x.1.generation = .ofNat (i + 1)
  count : count = decisions x
  calling : x.2.call.isSome = true → x.1.outcomeRecorded = true
  ended : x.2 = .ended → x.1.outcomeRecorded = true
  unlaunched : ¬x.2.Launched → x.1.outcomeRecorded = false

theorem tryRecordOutcome_true {s s' : LaunchState κ} (h : s.tryRecordOutcome = (true, s')) :
    s.outcomeRecorded = false ∧ s' = { s with outcomeRecorded := true } := by
  unfold LaunchState.tryRecordOutcome at h
  split_ifs at h with recorded
  · simp at h
  · exact ⟨by simpa using recorded, (Prod.mk.inj h).2.symm⟩

theorem tryRecordOutcome_false {s s' : LaunchState κ} (h : s.tryRecordOutcome = (false, s')) :
    s.outcomeRecorded = true ∧ s' = s := by
  unfold LaunchState.tryRecordOutcome at h
  split_ifs at h with recorded
  · exact ⟨recorded, (Prod.mk.inj h).2.symm⟩
  · simp at h

section Steps

variable [DecidableEq κ] {lossy : List UInt8 → Str} {x y : LaunchState κ × Pc} {count i : ℕ}

/-- A step without a call leaves what is decided. -/
theorem Step.decisions (h : Step lossy x y) : decisions y = decisions x := by
  cases h with
  | refuse | connect | request | finish | cancel | completed | complete | drop => rfl
  | stderr => simp [Launch.decisions, decided]
  | respond id failure _ first =>
    obtain ⟨fresh, rfl⟩ := tryRecordOutcome_true first
    simp [Launch.decisions, decided, fresh, Pc.call]
  | claim first =>
    obtain ⟨fresh, rfl⟩ := tryRecordOutcome_true first
    simp [Launch.decisions, decided, fresh, Pc.call]
  | claimed late =>
    obtain ⟨-, rfl⟩ := tryRecordOutcome_false late
    rfl

theorem Step.fits (h : Step lossy x y) (fits : Fits count i x) : Fits count i y := by
  have count_ := fits.count.trans h.decisions.symm
  obtain ⟨generation, -, calling, ended, unlaunched⟩ := fits
  cases h with
  | refuse | connect => exact ⟨generation, count_, nofun, nofun, fun _ => unlaunched id⟩
  | stderr line =>
    exact ⟨(LaunchState.pushStderr_generation ..).trans generation, count_, by simpa, by simpa,
      by simpa⟩
  | request | finish | cancel | complete | drop =>
    exact ⟨generation, count_, nofun, nofun, fun alive => absurd trivial alive⟩
  | completed recorded =>
    exact ⟨generation, count_, nofun, fun _ => recorded, fun alive => absurd trivial alive⟩
  | respond id failure _ first =>
    obtain ⟨-, rfl⟩ := tryRecordOutcome_true first
    exact ⟨generation, count_, fun _ => rfl, nofun, fun alive => absurd trivial alive⟩
  | claim first =>
    obtain ⟨-, rfl⟩ := tryRecordOutcome_true first
    exact ⟨generation, count_, fun _ => rfl, nofun, fun alive => absurd trivial alive⟩
  | claimed late =>
    obtain ⟨recorded, rfl⟩ := tryRecordOutcome_false late
    exact ⟨generation, count_, nofun, fun _ => recorded, fun alive => absurd trivial alive⟩

end Steps

/-- A call is the first one for its launch, and decides it. -/
theorem Fits.told {count i : ℕ} {s : LaunchState κ} {pc : Pc} {failure : Option Str}
    (fits : Fits count i (s, pc)) (h : pc.call = some failure) :
    count = 0 ∧ Fits 1 i (s, pc.told) := by
  have recorded : s.outcomeRecorded = true := fits.calling (by rw [h]; rfl)
  have none_ : count = 0 := by simpa [Launch.decisions, decided, h] using fits.count
  refine ⟨none_, ?_⟩
  cases pc with
  | observed _ =>
    exact ⟨fits.generation, by simp [Launch.decisions, decided, recorded, Pc.told, Pc.call], nofun,
      nofun, fun alive => absurd trivial alive⟩
  | failing _ =>
    exact ⟨fits.generation, by simp [Launch.decisions, decided, recorded, Pc.told, Pc.call], nofun,
      fun _ => recorded, fun alive => absurd trivial alive⟩
  | _ => cases h

structure Counted (r : Route κ τ) : Prop where
  room : r.built < UInt64.size
  health : r.health = AgentHealthState.initial.records r.calls
  fits : ∀ i < r.built, Fits (r.count (.ofNat (i + 1))) i (r.launches i)
  generations : ∀ call ∈ r.calls, call.2.generation.toNat ≤ r.built
  attempts : r.calls.length = Ledger.total decisions r.launches r.built

section Run

variable [DecidableEq κ] {lossy : List UInt8 → Str} {r : Route κ τ}

omit [DecidableEq κ] in
theorem Counted.build (h : Counted r) (room : r.built + 1 < UInt64.size) :
    Counted (r.build room) := by
  have fresh : r.count (.ofNat (r.built + 1)) = 0 := by
    apply List.countP_eq_zero.mpr
    intro call hcall new
    have old := h.generations call hcall
    rw [of_decide_eq_true new, toNat_generation room] at old
    omega
  refine ⟨room, h.health, fun i there => ?_, fun call hcall => ?_, ?_⟩
  · rw [Route.count_build]
    by_cases new : i = r.built
    · rw [new, fresh, Route.build_self]
      exact ⟨rfl, rfl, nofun, nofun, fun _ => rfl⟩
    · rw [Route.build_ne r room new]
      have there : i < r.built + 1 := there
      apply h.fits
      omega
  · exact (h.generations call hcall).trans (Nat.le_succ r.built)
  · have total := Ledger.total_succ (f := decisions) (c := r.launches) (n := r.built)
      ((.new (.ofNat (r.built + 1)) (generation_pos room), .built) : LaunchState κ × Pc)
    exact h.attempts.trans total.symm

theorem Counted.step (h : Counted r) {i : ℕ} {x : LaunchState κ × Pc} (there : i < r.built)
    (step : Step lossy (r.launches i) x) : Counted (r.setLaunch i x) := by
  refine ⟨h.room, h.health, fun j hj => ?_, h.generations, ?_⟩
  · rw [Route.count_setLaunch]
    by_cases same : j = i
    · rw [same, Route.setLaunch_self]
      exact step.fits (h.fits i there)
    · rw [Route.setLaunch_ne r x same]
      exact h.fits j hj
  · have total := Ledger.total_update (f := decisions) (c := r.launches) there x
    rw [step.decisions, ← h.attempts] at total
    exact (Nat.add_right_cancel total).symm

omit [DecidableEq κ] in
theorem Counted.call (h : Counted r) {i : ℕ} (now : τ) {failure : Option Str} (there : i < r.built)
    (told : (r.launches i).2.call = some failure) :
    Counted ((r.call now ((r.launches i).1.launch failure)).setLaunch i
      ((r.launches i).1, (r.launches i).2.told)) := by
  have fits := h.fits i there
  have generation : ((r.launches i).1.launch failure).generation = .ofNat (i + 1) :=
    fits.generation
  have room : ∀ {j}, j < r.built → j + 1 < UInt64.size := fun there =>
    Nat.lt_of_le_of_lt there h.room
  obtain ⟨none_, fits'⟩ := fits.told told
  refine ⟨h.room, ?_, fun j hj => ?_, fun call hcall => ?_, ?_⟩
  · have appended : AgentHealthState.initial.records
        (r.calls ++ [(now, (r.launches i).1.launch failure)]) =
        (AgentHealthState.initial.records r.calls).record now ((r.launches i).1.launch failure) := by
      simp [AgentHealthState.records]
    exact (congrArg (·.record now ((r.launches i).1.launch failure)) h.health).trans appended.symm
  · rw [Route.count_setLaunch, Route.count_call, generation]
    by_cases same : j = i
    · rw [same, Route.setLaunch_self, none_, if_pos rfl]
      exact fits'
    · have other : UInt64.ofNat (i + 1) ≠ .ofNat (j + 1) := fun equal =>
        same (generation_inj (room there) (room hj) equal).symm
      rw [Route.setLaunch_ne _ _ same, if_neg other]
      exact h.fits j hj
  · rcases List.mem_append.mp hcall with old | new
    · exact h.generations call old
    · obtain rfl := List.mem_singleton.mp new
      change ((r.launches i).1.launch failure).generation.toNat ≤ r.built
      rw [generation, toNat_generation (room there)]
      exact there
  · have total := Ledger.total_update (f := decisions) (c := r.launches) there
      ((r.launches i).1, (r.launches i).2.told)
    rw [← fits'.count, ← fits.count, none_, ← h.attempts] at total
    exact (List.length_append ..).trans total.symm

theorem counted (h : (system lossy κ τ).Reachable r) : Counted r := by
  refine h.invariant ?_ ?_
  · rintro r ⟨built, health, calls⟩
    refine ⟨by rw [built]; decide, by rw [health, calls]; rfl, by simp [built], by simp [calls], ?_⟩
    simp [calls, built, Ledger.total]
  · intro r event r' _ ih step
    cases step with
    | build room => exact ih.build room
    | step there h => exact ih.step there h
    | call there told => exact ih.call _ there told

/-! ### Once each -/

def Leads (lossy : List UInt8 → Str) (r r' : Route κ τ) : Prop :=
  Relation.ReflTransGen (fun r r' => ∃ event, RouteStep lossy r event r') r r'

theorem Step.leads {i : ℕ} {x y : LaunchState κ × Pc} (there : i < r.built)
    (launch : r.launches i = x) (step : Step lossy x y) : Leads lossy r (r.setLaunch i y) :=
  .single ⟨.step i, .step there (launch ▸ step)⟩

theorem Step.ends {i : ℕ} {x y : LaunchState κ × Pc} (there : i < r.built)
    (launch : r.launches i = x) (step : Step lossy x y)
    (ends : ∃ r', Leads lossy (r.setLaunch i y) r' ∧ (r'.launches i).2 = .ended) :
    ∃ r', Leads lossy r r' ∧ (r'.launches i).2 = .ended := by
  obtain ⟨r', leads, ended⟩ := ends
  exact ⟨r', (step.leads there launch).trans leads, ended⟩

theorem failing_ends {i : ℕ} (there : i < r.built) {detail : Str}
    (at_ : (r.launches i).2 = .failing detail) (now : τ) :
    ∃ r', Leads lossy r r' ∧ (r'.launches i).2 = .ended := by
  have told : (r.launches i).2.call = some (some detail) := by
    rw [at_]
    rfl
  refine ⟨_, .single ⟨.call i now, .call there told⟩, ?_⟩
  rw [Route.setLaunch_self, at_]
  rfl

theorem claiming_ends {i : ℕ} (there : i < r.built) {detail : Str}
    (at_ : (r.launches i).2 = .claiming detail) (now : τ) :
    ∃ r', Leads lossy r r' ∧ (r'.launches i).2 = .ended := by
  have launch : r.launches i = ((r.launches i).1, .claiming detail) := Prod.ext rfl at_
  rcases first : (r.launches i).1.tryRecordOutcome with ⟨won, s⟩
  cases won with
  | false =>
    refine ⟨_, Step.leads there launch (.claimed first), ?_⟩
    rw [Route.setLaunch_self]
  | true =>
    apply Step.ends there launch (.claim first)
    exact failing_ends there (by rw [Route.setLaunch_self]) now

/-- The guard of a connection that has ended gets done. -/
theorem ending_ends {i : ℕ} (there : i < r.built) (ending : (r.launches i).2.Ending) (now : τ) :
    ∃ r', Leads lossy r r' ∧ (r'.launches i).2 = .ended := by
  rcases launch : r.launches i with ⟨s, pc⟩
  have claims : ∀ detail, Step lossy (s, pc) (s, .claiming detail) →
      ∃ r', Leads lossy r r' ∧ (r'.launches i).2 = .ended := by
    intro detail step
    apply step.ends there launch
    exact claiming_ends there (by rw [Route.setLaunch_self]) now
  rw [launch] at ending
  cases pc with
  | completing result =>
    cases recorded : s.outcomeRecorded with
    | false => exact claims _ (.complete recorded)
    | true =>
      refine ⟨_, Step.leads there launch (.completed recorded), ?_⟩
      rw [Route.setLaunch_self]
  | dropping => exact claims _ .drop
  | claiming detail => exact claiming_ends there (by rw [launch]) now
  | failing detail => exact failing_ends there (by rw [launch]) now
  | built | unlaunched | connected | observed | ended => cases ending

/-- The health is told of every launch with a permit once: never twice, and once its guard is done,
which it gets; and never of a launch without one. -/
structure Once (lossy : List UInt8 → Str) (r : Route κ τ) (i : ℕ) : Prop where
  generation : (r.launches i).1.generation.toNat = i + 1
  atMost : r.count (.ofNat (i + 1)) ≤ 1
  ended : (r.launches i).2 = .ended → r.count (.ofNat (i + 1)) = 1
  ends : (r.launches i).2.Ending → ∀ _ : τ, ∃ r', Leads lossy r r' ∧ (r'.launches i).2 = .ended
  unlaunched : ¬(r.launches i).2.Launched → r.count (.ofNat (i + 1)) = 0

theorem Counted.once {i : ℕ} (h : Counted r) (there : i < r.built) : Once lossy r i := by
  have fits := h.fits i there
  refine ⟨?_, ?_, fun ended => ?_, ending_ends there, fun alive => ?_⟩
  · rw [fits.generation, toNat_generation (Nat.lt_of_le_of_lt there h.room)]
  · rw [fits.count, decisions]
    split <;> omega
  · rw [fits.count, decisions, decided, fits.ended ended, ended]
    rfl
  · rw [fits.count, decisions, decided, fits.unlaunched alive]
    rfl

/-- Each launch is counted once, whatever happens to it and in whatever order, and the health counts
the launches that are decided. -/
theorem launches_counted_once (h : (system lossy κ τ).Reachable r) :
    (∀ i < r.built, Once lossy r i) ∧
    r.health = AgentHealthState.initial.records r.calls ∧
    r.health.failures ≤ r.health.attempts ∧
    r.health.attempts.toNat =
      ((Finset.range r.built).filter fun i => decided (r.launches i)).card := by
  have counted_ := counted h
  have summary := AgentHealthState.summary .initial r.calls
  rw [← counted_.health] at summary
  have decided_ : r.calls.length =
      ((Finset.range r.built).filter fun i => decided (r.launches i)).card := by
    rw [counted_.attempts, Finset.card_filter]
    rfl
  have few : r.calls.length < UInt64.size := by
    have all := Finset.card_filter_le (Finset.range r.built) fun i => decided (r.launches i) = true
    rw [Finset.card_range, ← decided_] at all
    exact Nat.lt_of_le_of_lt all counted_.room
  have attempts : r.health.attempts.toNat = r.calls.length := by
    rw [summary.attempts, AgentHealthState.initial, UInt64.zero_add, List.length_map]
    exact UInt64.toNat_ofNat_of_lt' few
  refine ⟨fun i there => counted_.once there, counted_.health, ?_, attempts.trans decided_⟩
  have fewer := List.countP_le_length (p := fun launch : Health.Launch => launch.failure.isSome)
    (l := r.calls.map Prod.snd)
  rw [List.length_map] at fewer
  rw [UInt64.le_iff_toNat_le, attempts, summary.failures, AgentHealthState.initial,
    UInt64.zero_add, UInt64.toNat_ofNat_of_lt' (Nat.lt_of_le_of_lt fewer few)]
  exact fewer

end Run

/-! ### A launch that is dropped -/

theorem first_pos : (0 : UInt64) < 1 := by decide

def firstState : LaunchState ℕ := .new 1 first_pos

def unused : Route ℕ ℕ := ⟨0, fun _ => (firstState, .built), .initial, []⟩

def launched : Route ℕ ℕ := (unused.build (by decide)).setLaunch 0 (firstState, .connected)

/-- Its future is dropped before `initialize`. -/
def dropped : Route ℕ ℕ :=
  let detail := str "agent connection ended without sending initialize"
  let recorded := { firstState with outcomeRecorded := true }
  ((((launched.setLaunch 0 (firstState, .dropping)).setLaunch 0
    (firstState, .claiming detail)).setLaunch 0
    (recorded, .failing detail)).call 7 (recorded.launch (some detail))).setLaunch 0
    (recorded, .ended)

theorem reachable_step {lossy : List UInt8 → Str} {r : Route ℕ ℕ} {i : ℕ}
    {x y : LaunchState ℕ × Pc} (h : (system lossy ℕ ℕ).Reachable r) (there : i < r.built)
    (launch : r.launches i = x) (step : Step lossy x y) :
    (system lossy ℕ ℕ).Reachable (r.setLaunch i y) :=
  .step (a := .step i) h (.step there (launch ▸ step))

theorem reachable_dropped (lossy : List UInt8 → Str) :
    (system lossy ℕ ℕ).Reachable dropped := by
  have built : (system lossy ℕ ℕ).Reachable (unused.build (by decide)) :=
    .step (a := .build) (.init ⟨rfl, rfl, rfl⟩) (.build (by decide))
  have connected := reachable_step built Nat.one_pos rfl .connect
  have dropping := reachable_step connected Nat.one_pos rfl .cancel
  have claiming := reachable_step dropping Nat.one_pos rfl .drop
  have failing := reachable_step claiming Nat.one_pos rfl (.claim rfl)
  exact .step (a := .call 0 7) failing (.call Nat.one_pos rfl)

theorem launches_counted_once_dropped :
    (∀ i < dropped.built, Once (fun _ => []) dropped i) ∧
    dropped.health = AgentHealthState.initial.records dropped.calls ∧
    dropped.health.failures ≤ dropped.health.attempts ∧
    dropped.health.attempts.toNat =
      ((Finset.range dropped.built).filter fun i => decided (dropped.launches i)).card :=
  launches_counted_once (reachable_dropped fun _ => [])

end AcpAgent.Serve.Launch
