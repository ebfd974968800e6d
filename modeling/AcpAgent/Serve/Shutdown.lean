import AcpAgent.Lib.Except
import AcpAgent.Lib.Transition
import AcpAgent.Serve.ForceClose

/-! The shutdown of a server: `serve_with_shutdown` of `serve/transport.rs`, the agents that it
cancels through `wait_for_cancellation` of `serve/runtime.rs`, and the connections that it forces to
close.  Times are in milliseconds. -/

namespace AcpAgent.Serve.Shutdown

open Transition Transport

def shutdownGrace : ℕ := 3000

def forceCloseGrace : ℕ := 1000

/-- What an error says, its contexts first. -/
abbrev Chain := List Str

def deadlineElapsed : Chain :=
  [str "ACP HTTP connections did not close after forced shutdown", str "deadline has elapsed"]

/-! ### Agents -/

/-- Where a `wait_for_cancellation` is. -/
inductive Cancellation
  | unresumed
  /-- In `receiver.changed().await`. -/
  | waiting
  /-- In `pending`, as the sender is gone. -/
  | pending
  | completed
  deriving DecidableEq

def pollWaitForCancellation (channel : Watch) (budget : Bool) : Cancellation → Cancellation
  | .unresumed => if channel.sent then .completed else changed
  | .waiting => changed
  | .pending => .pending
  | .completed => .completed
where
  changed : Cancellation :=
    match pollChanged channel budget with
    | none => .waiting
    | some (.ok ()) => .completed
    | some (.error ()) => .pending

/-- The task of `ObservedAgent::connect_to`. -/
inductive Agent
  | absent
  | connected (cancelled : Cancellation)
  | ended (cancelled : Bool)
  deriving DecidableEq

def Agent.poll (channel : Watch) (budget : Bool) : Agent → Agent
  | .connected cancelled =>
    match pollWaitForCancellation channel budget cancelled with
    | .completed => .ended true
    | next => .connected next
  | agent => agent

/-! ### The server -/

/-- How far `serve_with_shutdown` is, with the times at which it has come there. -/
inductive Progress
  | serving
  | draining (since : ℕ)
  | forced (drained since : ℕ)
  deriving DecidableEq

structure State where
  now : ℕ
  shutdown : Watch
  /-- When `shutdown` got its value, or was closed. -/
  asked : Option ℕ
  cancel : Watch
  forceClose : Watch
  /-- Another sender of `cancel` is held, by the instance. -/
  kept : Bool
  /-- The `wait_for_shutdown` of the supervisor. -/
  wait : Wait
  progress : Progress
  /-- What the HTTP server is ready with. -/
  server : Option (Except Str Unit)
  /-- What `serve_with_shutdown` has returned, and when. -/
  result : Option (Except Chain Unit)
  ended : ℕ
  agents : ℕ → Agent

namespace State

/-- `serve_with_shutdown` returns, and drops its senders. -/
def finish (s : State) (result : Except Chain Unit) : State :=
  { s with
    cancel := { s.cancel with closed := !s.kept }
    forceClose := { s.forceClose with closed := true }
    result := some result
    ended := s.now }

/-- `result.context("ACP HTTP server failed")`. -/
def context (r : Except Str Unit) : Except Chain Unit :=
  r.mapError fun error => [str "ACP HTTP server failed", error]

def await (s : State) (wait : Wait) : State := { s with wait }

/-- `timeout(shutdown_grace, &mut server)`. -/
def drain (s : State) : State := { s with wait := .completed, progress := .draining s.now }

def force (s : State) (drained : ℕ) : State :=
  { s with
    cancel := { s.cancel with sent := true }
    forceClose := { s.forceClose with sent := true }
    progress := .forced drained s.now }

/-- A poll of `serve_with_shutdown`.  Its `select!` polls the branches in any order: with `first` it
comes to `wait_for_shutdown` before the server. -/
def poll (grace : ℕ) (budget first : Bool) (s : State) : State :=
  match s.result with
  | some _ => s
  | none =>
    match s.progress, s.server with
    | .serving, some r =>
      if first && pollWaitForShutdown s.shutdown budget s.wait = some .completed then s.drain
      else s.finish (context r)
    | .serving, none =>
      match pollWaitForShutdown s.shutdown budget s.wait with
      | some .completed => s.drain
      | some next => s.await next
      -- The block is not polled again after it has completed.
      | none => s
    | .draining _, some r => s.finish (context r)
    | .draining since, none => if since + grace ≤ s.now then s.force since else s
    | .forced .., some r => s.finish (r.mapError fun error => [error])
    | .forced _ since, none =>
      if since + forceCloseGrace ≤ s.now then s.finish (.error deadlineElapsed) else s

end State

inductive Event
  | tick
  | supervisor
  | other
  deriving DecidableEq

inductive Step (grace : ℕ) : State → Event → State → Prop
  | tick {s : State} : Step grace s .tick { s with now := s.now + 1 }
  | poll {s : State} (budget first : Bool) : Step grace s .supervisor (s.poll grace budget first)
  /-- A signal has come to `await_termination_signal`, or `stop_instance` is called. -/
  | ask {s : State} : Step grace s .other { s with
      shutdown := { s.shutdown with sent := true }
      asked := s.asked.or (some s.now) }
  | hangUp {s : State} : Step grace s .other { s with
      shutdown := { s.shutdown with closed := true }
      asked := s.asked.or (some s.now) }
  /-- The HTTP server has drained, or has failed. -/
  | ready {s : State} (serving : s.result = none) (pending : s.server = none)
      (r : Except Str Unit) : Step grace s .other { s with server := some r }
  | launch {s : State} {i : ℕ} (h : s.agents i = .absent) : Step grace s .other { s with
      agents := Function.update s.agents i (.connected .unresumed) }
  /-- The connection ends by itself. -/
  | disconnect {s : State} {i : ℕ} {cancelled : Cancellation}
      (h : s.agents i = .connected cancelled) : Step grace s .other { s with
      agents := Function.update s.agents i (.ended false) }
  | agent {s : State} (i : ℕ) (budget : Bool) : Step grace s .other { s with
      agents := Function.update s.agents i ((s.agents i).poll s.cancel budget) }
  /-- The instance is dropped. -/
  | release {s : State} : Step grace s .other { s with
      kept := false
      cancel := { s.cancel with closed := s.cancel.closed || s.result.isSome } }

/-- A server that is up, with no connection. -/
def State.initial (start : ℕ) (kept : Bool) : State :=
  ⟨start, ⟨false, false⟩, none, ⟨false, false⟩, ⟨false, false⟩, kept, .unresumed, .serving, none,
    none, start, fun _ => .absent⟩

def system (grace : ℕ) : System State Event where
  init s := ∃ start kept, s = .initial start kept
  step := Step grace

/-! ### What a poll does -/

section Poll

variable {grace : ℕ} {budget first : Bool} {s : State}

/-- All that a poll of a supervisor that has not returned can do. -/
inductive Polled (grace : ℕ) (budget : Bool) (s : State) : State → Prop
  | stay : Polled grace budget s s
  | wait {next : Wait} (serving : s.progress = .serving) (fresh : next ≠ .completed) :
      Polled grace budget s (s.await next)
  | drain (serving : s.progress = .serving)
      (seen : pollWaitForShutdown s.shutdown budget s.wait = some .completed) :
      Polled grace budget s s.drain
  | force {since : ℕ} (draining : s.progress = .draining since) (busy : s.server = none)
      (late : since + grace ≤ s.now) : Polled grace budget s (s.force since)
  | serve {r : Except Str Unit} (ready : s.server = some r)
      (orderly : ∀ drained since, s.progress ≠ .forced drained since) :
      Polled grace budget s (s.finish (State.context r))
  | close {r : Except Str Unit} {drained since : ℕ} (ready : s.server = some r)
      (forced : s.progress = .forced drained since) :
      Polled grace budget s (s.finish (r.mapError fun error => [error]))
  | expire {drained since : ℕ} (forced : s.progress = .forced drained since)
      (busy : s.server = none) (late : since + forceCloseGrace ≤ s.now) :
      Polled grace budget s (s.finish (.error deadlineElapsed))

theorem polled (running : s.result = none) : Polled grace budget s (s.poll grace budget first) := by
  unfold State.poll
  rw [running]
  cases progress : s.progress with
  | serving =>
    cases ready : s.server with
    | some r =>
      dsimp only
      split_ifs with seen
      · exact .drain progress (by simpa using (Bool.and_eq_true_iff.mp seen).2)
      · exact .serve ready (by simp [progress])
    | none =>
      dsimp only
      split
      · next seen => exact .drain progress seen
      · next next_ fresh _ => exact .wait progress fresh
      · exact .stay
  | draining since =>
    cases ready : s.server with
    | some r => exact .serve ready (by simp [progress])
    | none =>
      dsimp only
      split_ifs with late
      · exact .force progress ready late
      · exact .stay
  | forced drained since =>
    cases ready : s.server with
    | some r => exact .close ready progress
    | none =>
      dsimp only
      split_ifs with late
      · exact .expire progress ready late
      · exact .stay

theorem poll_returned {r : Except Chain Unit} (h : s.result = some r) :
    s.poll grace budget first = s := by
  unfold State.poll
  rw [h]

end Poll

/-! ### Who is cancelled -/

section Runs

variable {grace : ℕ} {s t : State} {event : Event}

def Progress.isForced : Progress → Bool
  | .forced .. => true
  | .serving | .draining _ => false

/-- What is returned of what the HTTP server is ready with. -/
def Progress.outcome : Progress → Except Str Unit → Except Chain Unit
  | .forced .., r => r.mapError fun error => [error]
  | .serving, r | .draining _, r => State.context r

/-- The block of the agent can be where it is. -/
def Agent.Fits (s : State) : Agent → Prop
  | .absent | .ended false => True
  | .connected .completed => False
  | .connected .pending => s.cancel.sent = false ∧ s.cancel.closed = true
  | .connected _ => True
  | .ended true => s.cancel.sent = true

structure Coherent (grace : ℕ) (s : State) : Prop where
  cancel : s.cancel.sent = s.progress.isForced
  forceClose : s.forceClose.sent = s.progress.isForced
  returned : s.forceClose.closed = s.result.isSome
  closed : s.cancel.closed = (s.result.isSome && !s.kept)
  agents : ∀ i, (s.agents i).Fits s
  wait : s.progress = .serving → s.wait ≠ .completed
  asked : s.asked.isSome = (s.shutdown.sent || s.shutdown.closed)
  past : (∀ asked ∈ s.asked, asked ≤ s.now) ∧ s.ended ≤ s.now
  draining : ∀ since, s.progress = .draining since →
    ∃ asked ∈ s.asked, asked ≤ since ∧ since ≤ s.now
  forced : ∀ drained since, s.progress = .forced drained since →
    (∃ asked ∈ s.asked, asked ≤ drained) ∧ drained + grace ≤ since ∧ since ≤ s.now
  result : ∀ r ∈ s.result, (∃ x ∈ s.server, r = s.progress.outcome x) ∨
    r = .error deadlineElapsed ∧ s.server = none ∧
      ∃ drained since, s.progress = .forced drained since ∧ since + forceCloseGrace ≤ s.ended

theorem pollWaitForCancellation_completed {channel : Watch} {budget : Bool}
    {cancelled : Cancellation} (fresh : cancelled ≠ .completed)
    (h : pollWaitForCancellation channel budget cancelled = .completed) : channel.sent = true := by
  obtain ⟨sent, closed⟩ := channel
  revert fresh h
  cases cancelled <;> cases sent <;> cases closed <;> cases budget <;> decide

theorem pollWaitForCancellation_pending {channel : Watch} {budget : Bool}
    {cancelled : Cancellation} (fresh : cancelled ≠ .pending)
    (h : pollWaitForCancellation channel budget cancelled = .pending) :
    channel.sent = false ∧ channel.closed = true := by
  obtain ⟨sent, closed⟩ := channel
  revert fresh h
  cases cancelled <;> cases sent <;> cases closed <;> cases budget <;> decide

/-- With some budget, a poll cancels an agent exactly if the value has been sent. -/
theorem Agent.poll_cancels {channel : Watch} {cancelled : Cancellation}
    (fresh : cancelled ≠ .completed) (pending : cancelled = .pending → channel.sent = false) :
    (Agent.connected cancelled).poll channel true = .ended true ↔ channel.sent = true := by
  obtain ⟨sent, closed⟩ := channel
  revert fresh pending
  cases cancelled <;> cases sent <;> cases closed <;> decide

theorem pollWaitForShutdown_sees {channel : Watch} {wait : Wait} (fresh : wait ≠ .completed) :
    pollWaitForShutdown channel true wait = some .completed ↔
      (channel.sent || channel.closed) = true := by
  obtain ⟨sent, closed⟩ := channel
  revert fresh
  cases wait <;> cases sent <;> cases closed <;> decide

theorem Agent.Fits.poll {agent : Agent} (h : agent.Fits s) (budget : Bool) :
    (agent.poll s.cancel budget).Fits s := by
  cases agent with
  | absent => exact h
  | ended cancelled => exact h
  | connected cancelled =>
    have fresh : cancelled ≠ .completed := by
      rintro rfl
      exact h
    cases next : pollWaitForCancellation s.cancel budget cancelled with
    | completed =>
      simp only [Agent.poll, next]
      exact pollWaitForCancellation_completed fresh next
    | pending =>
      simp only [Agent.poll, next]
      by_cases before : cancelled = .pending
      · rw [before] at h
        exact h
      · exact pollWaitForCancellation_pending before next
    | unresumed | waiting =>
      simp only [Agent.poll, next]
      exact trivial

/-- The agent does not look at anything but its channel. -/
theorem Agent.Fits.mono {agent : Agent} (h : agent.Fits s)
    (sent : t.cancel.sent = s.cancel.sent)
    (closed : s.cancel.closed = true → t.cancel.closed = true) : agent.Fits t := by
  cases agent with
  | absent => exact h
  | ended cancelled =>
    cases cancelled with
    | false => exact trivial
    | true => exact sent.trans h
  | connected cancelled =>
    cases cancelled with
    | unresumed | waiting => exact trivial
    | completed => exact h
    | pending => exact ⟨sent.trans h.1, closed h.2⟩

/-- An agent that is not the one that moves stays as it was. -/
theorem fits_update {agents : ℕ → Agent} (h : ∀ i, (agents i).Fits s) {i : ℕ} {agent : Agent}
    (fits : agent.Fits s) (j : ℕ) : (Function.update agents i agent j).Fits s := by
  by_cases same : j = i
  · subst same
    rwa [Function.update_self]
  · rw [Function.update_of_ne same]
    exact h j

theorem Coherent.finish (h : Coherent grace s) (running : s.result = none)
    {r : Except Chain Unit}
    (result : (∃ x ∈ s.server, r = s.progress.outcome x) ∨
      r = .error deadlineElapsed ∧ s.server = none ∧
        ∃ drained since, s.progress = .forced drained since ∧ since + forceCloseGrace ≤ s.now) :
    Coherent grace (s.finish r) where
  cancel := h.cancel
  forceClose := h.forceClose
  returned := rfl
  closed := rfl
  agents i := (h.agents i).mono rfl fun closed => by simp [h.closed, running] at closed
  wait := h.wait
  asked := h.asked
  past := ⟨h.past.1, le_rfl⟩
  draining := h.draining
  forced := h.forced
  result := by
    intro r' same
    obtain rfl := Option.some.inj same
    exact result

/-- What a poll has seen was there. -/
theorem visible_of_seen {channel : Watch} {budget : Bool} {wait : Wait}
    (seen : pollWaitForShutdown channel budget wait = some .completed) :
    (channel.sent || channel.closed) = true := by
  have there := (pollWaitForShutdown_some seen).2.mp rfl
  rw [Bool.or_eq_true]
  tauto

theorem Coherent.polled (h : Coherent grace s) (running : s.result = none) {budget : Bool}
    (poll : Polled grace budget s t) : Coherent grace t := by
  have unreturned : ∀ {r}, r ∈ s.result → False := by simp [running]
  cases poll with
  | stay => exact h
  | wait serving fresh => exact { h with wait := fun _ => fresh }
  | drain serving seen =>
    have asked : s.asked.isSome = true := h.asked.trans (visible_of_seen seen)
    obtain ⟨asked, there⟩ := Option.isSome_iff_exists.mp asked
    have unforced : s.progress.isForced = false := by rw [serving]; rfl
    exact { h with
      cancel := h.cancel.trans unforced
      forceClose := h.forceClose.trans unforced
      wait := fun same => nomatch same
      draining := by
        intro since same
        obtain rfl := Progress.draining.inj same
        exact ⟨asked, there, h.past.1 asked there, le_rfl⟩
      forced := by
        intro drained since same
        exact nomatch same
      result := by
        intro r same
        exact (unreturned same).elim }
  | force draining busy late =>
    obtain ⟨asked, there, before, -⟩ := h.draining _ draining
    have open_ : s.cancel.closed = false := by simp [h.closed, running]
    exact { h with
      cancel := rfl
      forceClose := rfl
      agents := by
        intro i
        have fits := h.agents i
        show Agent.Fits _ (s.agents i)
        cases agent : s.agents i with
        | absent => exact trivial
        | ended cancelled => cases cancelled <;> first | exact trivial | rfl
        | connected cancelled =>
          rw [agent] at fits
          cases cancelled with
          | unresumed | waiting => exact trivial
          | completed => exact fits
          | pending => exact absurd fits.2 (by simp [open_])
      wait := fun same => nomatch same
      draining := by
        intro since same
        exact nomatch same
      forced := by
        intro drained since same
        obtain ⟨rfl, rfl⟩ := Progress.forced.inj same
        exact ⟨⟨asked, there, before⟩, late, le_rfl⟩
      result := by
        intro r same
        exact (unreturned same).elim }
  | @serve r ready orderly =>
    refine h.finish running (.inl ⟨r, ready, ?_⟩)
    cases progress : s.progress with
    | serving | draining => rfl
    | forced drained since => exact absurd progress (orderly drained since)
  | @close r drained since ready forced =>
    exact h.finish running (.inl ⟨r, ready, by rw [forced]; rfl⟩)
  | expire forced busy late => exact h.finish running (.inr ⟨rfl, busy, _, _, forced, late⟩)

/-- The first time is kept. -/
theorem Coherent.ask (h : Coherent grace s) {shutdown : Watch}
    (visible : (shutdown.sent || shutdown.closed) = true) :
    Coherent grace { s with shutdown, asked := s.asked.or (some s.now) } := by
  have kept : ∀ {asked}, asked ∈ s.asked → asked ∈ s.asked.or (some s.now) := by
    intro asked there
    simp [Option.mem_def.mp there]
  exact { h with
    asked := by
      show (s.asked.or (some s.now)).isSome = _
      rw [visible]
      simp
    past := by
      refine ⟨fun asked there => ?_, h.past.2⟩
      rcases Option.or_eq_some_iff.mp there with before | ⟨-, now⟩
      · exact h.past.1 asked before
      · exact le_of_eq (Option.some.inj now).symm
    draining := by
      intro since same
      obtain ⟨asked, there, before⟩ := h.draining since same
      exact ⟨asked, kept there, before⟩
    forced := by
      intro drained since same
      obtain ⟨⟨asked, there, before⟩, late⟩ := h.forced drained since same
      exact ⟨⟨asked, kept there, before⟩, late⟩ }

theorem Coherent.step (h : Coherent grace s) (step : Step grace s event t) : Coherent grace t := by
  cases step with
  | tick => exact { h with
      past := ⟨fun asked there => Nat.le_succ_of_le (h.past.1 asked there),
        Nat.le_succ_of_le h.past.2⟩
      draining := by
        intro since same
        obtain ⟨asked, there, before, past⟩ := h.draining since same
        exact ⟨asked, there, before, Nat.le_succ_of_le past⟩
      forced := by
        intro drained since same
        obtain ⟨asked, late, past⟩ := h.forced drained since same
        exact ⟨asked, late, Nat.le_succ_of_le past⟩ }
  | poll budget first =>
    cases running : s.result with
    | none => exact h.polled running (Shutdown.polled running)
    | some r => rwa [poll_returned running]
  | ask => exact h.ask rfl
  | hangUp => exact h.ask (by simp)
  | ready serving pending r => exact { h with
      result := by
        intro r' same
        exact absurd (serving.symm.trans same) (by simp) }
  | launch absent => exact { h with agents := fits_update h.agents trivial }
  | disconnect connected => exact { h with agents := fits_update h.agents trivial }
  | agent i budget => exact { h with agents := fits_update h.agents ((h.agents i).poll budget) }
  | release =>
    have closed : ∀ i, (s.agents i).Fits { s with
        kept := false
        cancel := { s.cancel with closed := s.cancel.closed || s.result.isSome } } :=
      fun i => (h.agents i).mono rfl fun closed => by simp [closed]
    exact { h with
      closed := by
        show (s.cancel.closed || s.result.isSome) = _
        rw [h.closed]
        cases s.result <;> simp
      agents := closed }

theorem coherent (h : (system grace).Reachable s) : Coherent grace s := by
  refine h.invariant ?_ fun s event t _ coherent step => coherent.step step
  rintro s ⟨start, kept, rfl⟩
  constructor <;> simp [State.initial, Progress.isForced, Agent.Fits]

/-- Only a poll forces the shutdown, after the whole drain and while the HTTP server is not ready. -/
theorem forces (step : Step grace s event t) (before : s.progress.isForced = false)
    (after : t.progress.isForced = true) :
    event = .supervisor ∧ s.result = none ∧ s.server = none ∧
      ∃ since, s.progress = .draining since ∧ since + grace ≤ s.now ∧
        t.progress = .forced since s.now := by
  have moved : t.progress ≠ s.progress := by
    intro same
    rw [same, before] at after
    exact Bool.false_ne_true after
  cases step with
  | tick | ask | hangUp | ready | launch | disconnect | agent | release => exact absurd rfl moved
  | poll budget first =>
    refine ⟨rfl, ?_⟩
    cases running : s.result with
    | some r => exact absurd (congrArg State.progress (poll_returned running)) moved
    | none =>
      have poll : Polled grace budget s (s.poll grace budget first) := polled running
      generalize s.poll grace budget first = t at poll after moved
      cases poll with
      | stay | wait | serve | close | expire => exact absurd rfl moved
      | drain => exact nomatch after
      | force draining busy late => exact ⟨rfl, busy, _, draining, late, rfl⟩

/-- Agents are cancelled only if the server was asked to shut down, has drained for the whole grace
and was not ready then either; and then the next poll with budget cancels them.  Connections that are
left see their forced close then, or once the server has returned. -/
theorem cancelled_iff_forced (h : (system grace).Reachable s) :
    (∀ i, s.agents i = .ended true → s.progress.isForced = true) ∧
    (∀ i cancelled, s.agents i = .connected cancelled →
      (∀ budget, (s.agents i).poll s.cancel budget = .ended true → s.progress.isForced = true) ∧
      (s.progress.isForced = true → (s.agents i).poll s.cancel true = .ended true)) ∧
    (∀ wait, wait ≠ .completed →
      (∀ budget, pollWaitForShutdown s.forceClose budget wait = some .completed →
        s.progress.isForced = true ∨ s.result.isSome = true) ∧
      (s.progress.isForced = true ∨ s.result.isSome = true →
        pollWaitForShutdown s.forceClose true wait = some .completed)) ∧
    (∀ event t, Step grace s event t → s.progress.isForced = false →
      t.progress.isForced = true → event = .supervisor ∧ s.result = none ∧ s.server = none ∧
        ∃ since, s.progress = .draining since ∧ since + grace ≤ s.now ∧
          t.progress = .forced since s.now) ∧
    ∀ drained since, s.progress = .forced drained since →
      (∃ asked ∈ s.asked, asked ≤ drained) ∧ drained + grace ≤ since ∧ since ≤ s.now := by
  have hs := coherent h
  refine ⟨fun i ended => ?_, fun i cancelled connected => ?_, fun wait fresh => ?_,
    fun _ _ => forces, hs.forced⟩
  · have fits := hs.agents i
    rw [ended] at fits
    exact hs.cancel.symm.trans fits
  · have fits := hs.agents i
    rw [← hs.cancel]
    refine ⟨fun budget ended => ?_, fun sent => ?_⟩
    · have fits' := fits.poll budget
      rwa [ended] at fits'
    · rw [connected] at fits ⊢
      refine (Agent.poll_cancels ?_ ?_).mpr sent
      · rintro rfl
        exact fits
      · rintro rfl
        exact fits.1
  · rw [← hs.forceClose, ← hs.returned, ← Bool.or_eq_true]
    exact ⟨fun budget => visible_of_seen, (pollWaitForShutdown_sees fresh).mpr⟩

/-! ### How long it takes -/

def State.visible (s : State) : Bool := s.shutdown.sent || s.shutdown.closed

/-- There is nothing for the supervisor to do. -/
def State.Settled (grace : ℕ) (s : State) : Prop :=
  s.result.isSome = true ∨ s.server = none ∧
    match s.progress with
    | .serving => s.visible = false
    | .draining since => s.now < since + grace
    | .forced _ since => s.now < since + forceCloseGrace

theorem State.Settled.phase (h : s.Settled grace) (running : s.result = none) :
    match s.progress with
    | .serving => s.visible = false
    | .draining since => s.now < since + grace
    | .forced _ since => s.now < since + forceCloseGrace := by
  rcases h with returned | ⟨-, phase⟩
  · simp [running] at returned
  · exact phase

/-- Time does not pass while the supervisor can go on. -/
def Prompt (grace : ℕ) (s : State) (event : Event) : Prop := event = .tick → s.Settled grace

/-- How many phases are still to come. -/
def State.stage (s : State) : ℕ :=
  match s.result, s.progress with
  | some _, _ => 0
  | none, .forced .. => 1
  | none, .draining _ => 2
  | none, .serving => 3

/-- Until it settles, each poll brings the supervisor to a later phase. -/
theorem Coherent.advances (h : Coherent grace s) (unsettled : ¬s.Settled grace) (first : Bool) :
    (s.poll grace true first).stage < s.stage := by
  obtain ⟨running, busy⟩ := not_or.mp unsettled
  have running : s.result = none := by simpa using running
  have stage : ∀ {progress}, s.progress = progress →
      s.stage = State.stage { s with progress, result := none } := by
    rintro progress rfl
    rw [← running]
  cases progress : s.progress with
  | serving =>
    rw [stage progress]
    cases ready : s.server with
    | some r =>
      simp only [State.poll, running, progress, ready]
      split_ifs
      · show State.stage (s.drain) < 3
        simp [State.drain, State.stage, running]
      · exact Nat.zero_lt_succ _
    | none =>
      have visible : s.visible = true := by simpa [ready, progress] using busy
      have seen := (pollWaitForShutdown_sees (h.wait progress)).mpr visible
      simp only [State.poll, running, progress, ready, seen]
      show State.stage (s.drain) < 3
      simp [State.drain, State.stage, running]
  | draining since =>
    rw [stage progress]
    cases ready : s.server with
    | some r =>
      simp only [State.poll, running, progress, ready]
      exact Nat.zero_lt_succ _
    | none =>
      have late : since + grace ≤ s.now := by simpa [ready, progress] using busy
      simp only [State.poll, running, progress, ready, if_pos late]
      show State.stage (s.force since) < 2
      simp [State.force, State.stage, running]
  | forced drained since =>
    rw [stage progress]
    cases ready : s.server with
    | some r =>
      simp only [State.poll, running, progress, ready]
      exact Nat.zero_lt_succ _
    | none =>
      have late : since + forceCloseGrace ≤ s.now := by simpa [ready, progress] using busy
      simp only [State.poll, running, progress, ready, if_pos late]
      exact Nat.zero_lt_succ _

structure Timely (grace : ℕ) (s : State) : Prop where
  serving : s.progress = .serving → s.result = none → ∀ asked ∈ s.asked, asked = s.now
  draining : ∀ since, s.progress = .draining since →
    s.asked = some since ∧ (s.result = none → s.now ≤ since + grace)
  forced : ∀ drained since, s.progress = .forced drained since → s.asked = some drained ∧
    since = drained + grace ∧ (s.result = none → s.now ≤ since + forceCloseGrace)
  ended : s.result.isSome = true → ∀ asked ∈ s.asked, s.ended ≤ asked + grace + forceCloseGrace

theorem Timely.running_le (h : Timely grace s) (running : s.result = none) {asked : ℕ}
    (there : asked ∈ s.asked) : s.now ≤ asked + grace + forceCloseGrace := by
  cases progress : s.progress with
  | serving =>
    have now := h.serving progress running asked there
    omega
  | draining since =>
    obtain ⟨same, late⟩ := h.draining since progress
    obtain rfl := Option.some.inj (same.symm.trans there)
    have := late running
    omega
  | forced drained since =>
    obtain ⟨same, rfl, late⟩ := h.forced drained since progress
    obtain rfl := Option.some.inj (same.symm.trans there)
    exact late running

theorem Timely.polled (h : Timely grace s) (coherent : Coherent grace s)
    (running : s.result = none) {budget : Bool} (poll : Polled grace budget s t) :
    Timely grace t := by
  have finish : ∀ r, Timely grace (s.finish r) := by
    intro r
    refine ⟨fun _ returned => (nomatch returned), fun since same => ?_,
      fun drained since same => ?_, fun _ asked there => h.running_le running there⟩
    · exact ⟨(h.draining since same).1, fun returned => nomatch returned⟩
    · obtain ⟨asked, since_, -⟩ := h.forced drained since same
      exact ⟨asked, since_, fun returned => nomatch returned⟩
  cases poll with
  | stay => exact h
  | wait => exact { h with }
  | drain serving seen =>
    obtain ⟨asked, there⟩ := Option.isSome_iff_exists.mp
      (coherent.asked.trans (visible_of_seen seen))
    obtain rfl := h.serving serving running asked there
    refine ⟨fun same => (nomatch same), fun since same => ?_, fun _ _ same => (nomatch same),
      fun returned => ?_⟩
    · obtain rfl := Progress.draining.inj same
      exact ⟨there, fun _ => Nat.le_add_right ..⟩
    · exact absurd returned (by simp [State.drain, running])
  | @force since draining busy late =>
    obtain ⟨asked, due⟩ := h.draining since draining
    have due := due running
    refine ⟨fun same => (nomatch same), fun _ same => (nomatch same), fun drained since' same => ?_,
      fun returned => ?_⟩
    · obtain ⟨rfl, rfl⟩ := Progress.forced.inj same
      exact ⟨asked, Nat.le_antisymm due late, fun _ => Nat.le_add_right ..⟩
    · exact absurd returned (by simp [State.force, running])
  | serve | close | expire => exact finish _

theorem Timely.ask (h : Timely grace s) (coherent : Coherent grace s) (shutdown : Watch) :
    Timely grace { s with shutdown, asked := s.asked.or (some s.now) } where
  serving progress running asked there := by
    rcases Option.or_eq_some_iff.mp there with before | ⟨-, now⟩
    · exact h.serving progress running asked before
    · exact (Option.some.inj now).symm
  draining since progress := by
    obtain ⟨asked, late⟩ := h.draining since progress
    exact ⟨by simp [asked], late⟩
  forced drained since progress := by
    obtain ⟨asked, late⟩ := h.forced drained since progress
    exact ⟨by simp [asked], late⟩
  ended returned asked there := by
    rcases Option.or_eq_some_iff.mp there with before | ⟨-, now⟩
    · exact h.ended returned asked before
    · obtain rfl := Option.some.inj now
      have past := coherent.past.2
      show s.ended ≤ s.now + grace + forceCloseGrace
      omega

/-- The clock goes on where there is nothing to do, so no deadline passes. -/
theorem Timely.tick (h : Timely grace s) (coherent : Coherent grace s)
    (settled : s.Settled grace) : Timely grace { s with now := s.now + 1 } where
  serving progress running asked there := by
    have progress : s.progress = .serving := progress
    have phase := settled.phase running
    rw [progress] at phase
    have unasked : s.asked.isSome = false := coherent.asked.trans phase
    have there : s.asked = some asked := there
    simp [there] at unasked
  draining since progress := by
    have progress : s.progress = .draining since := progress
    refine ⟨(h.draining since progress).1, fun running => ?_⟩
    have phase := settled.phase running
    rw [progress] at phase
    exact phase
  forced drained since progress := by
    have progress : s.progress = .forced drained since := progress
    obtain ⟨asked, same, -⟩ := h.forced drained since progress
    refine ⟨asked, same, fun running => ?_⟩
    have phase := settled.phase running
    rw [progress] at phase
    exact phase
  ended := h.ended

theorem Timely.step (h : Timely grace s) (coherent : Coherent grace s)
    (prompt : Prompt grace s event) (step : Step grace s event t) : Timely grace t := by
  cases step with
  | tick => exact h.tick coherent (prompt rfl)
  | poll budget first =>
    cases running : s.result with
    | none => exact h.polled coherent running (Shutdown.polled running)
    | some r => rwa [poll_returned running]
  | ask | hangUp => exact h.ask coherent _
  | ready | launch | disconnect | agent | release => exact { h with }

theorem timely (h : ((system grace).restrict (Prompt grace)).Reachable s) : Timely grace s := by
  refine h.invariant ?_ fun s event t before timely step =>
    timely.step (coherent before.of_restrict) step.1 step.2
  rintro s ⟨start, kept, rfl⟩
  constructor <;> simp [State.initial]

theorem outcome_ok {progress : Progress} {r : Except Str Unit} :
    progress.outcome r = .ok () ↔ r = .ok () := by
  cases progress <;> exact Except.mapError_eq_ok_iff

/-- No error of the HTTP server is taken for the end of both graces. -/
theorem outcome_ne {progress : Progress} {r : Except Str Unit} :
    progress.outcome r ≠ .error deadlineElapsed := by
  have other : str "ACP HTTP server failed" ≠
      str "ACP HTTP connections did not close after forced shutdown" := by decide
  cases progress with
  | serving | draining =>
    intro same
    obtain ⟨error, -, chain⟩ := Except.mapError_eq_error_iff.mp same
    exact other (List.cons.inj chain).1
  | forced =>
    intro same
    obtain ⟨error, -, chain⟩ := Except.mapError_eq_error_iff.mp same
    exact nomatch (List.cons.inj chain).2

/-- A server that has been asked to shut down has returned when both graces are over, as it goes on
whenever it can.  It says that it has not closed if it comes to their end, and otherwise what the
HTTP server says. -/
theorem returns_in_time (h : ((system grace).restrict (Prompt grace)).Reachable s) :
    (s.Settled grace ∨ ∀ first, (s.poll grace true first).stage < s.stage) ∧
    (s.result = none → ∀ asked ∈ s.asked, s.now ≤ asked + grace + forceCloseGrace) ∧
    (s.result = some (.ok ()) ↔ s.result.isSome = true ∧ s.server = some (.ok ())) ∧
    (s.result = some (.error deadlineElapsed) ↔ s.result.isSome = true ∧ s.server = none) ∧
    (s.result.isSome = true → ∀ asked ∈ s.asked, s.ended ≤ asked + grace + forceCloseGrace ∧
      (s.server = none → s.ended = asked + grace + forceCloseGrace)) := by
  have coherent := coherent h.of_restrict
  have timely := timely h
  refine ⟨?_, fun running asked there => timely.running_le running there, ?_, ?_,
    fun returned asked there => ⟨timely.ended returned asked there, fun busy => ?_⟩⟩
  · exact or_iff_not_imp_left.mpr fun unsettled => coherent.advances unsettled
  · cases result : s.result with
    | none => simp
    | some r =>
      rcases coherent.result r result with ⟨x, ready, rfl⟩ | ⟨rfl, busy, -⟩
      · simp [Option.mem_def.mp ready, outcome_ok]
      · simp [busy]
  · cases result : s.result with
    | none => simp
    | some r =>
      rcases coherent.result r result with ⟨x, ready, rfl⟩ | ⟨rfl, busy, -⟩
      · simp [Option.mem_def.mp ready, outcome_ne]
      · simp [busy]
  · obtain ⟨r, result⟩ := Option.isSome_iff_exists.mp returned
    obtain ⟨x, ready, -⟩ | ⟨-, -, drained, since, forced, late⟩ := coherent.result r result
    · exact nomatch busy.symm.trans ready
    · obtain ⟨same, rfl, -⟩ := timely.forced drained since forced
      obtain rfl := Option.some.inj (same.symm.trans there)
      exact Nat.le_antisymm (timely.ended returned _ there) late

end Runs

/-! ### A server that does not drain -/

/-- An agent is connected when the server is asked to shut down. -/
def busy : State :=
  { State.initial 0 false with
    shutdown := ⟨true, false⟩
    asked := some 0
    agents := Function.update (fun _ => .absent) 0 (.connected .unresumed) }

theorem reachable_busy {grace : ℕ} :
    ((system grace).restrict (Prompt grace)).Reachable busy := by
  have start : ((system grace).restrict (Prompt grace)).Reachable (State.initial 0 false) :=
    .init ⟨0, false, rfl⟩
  have launched := start.step (a := .other) ⟨nofun, .launch (i := 0) rfl⟩
  exact launched.step (a := .other) ⟨nofun, .ask⟩

/-- The server waits for the agent until the grace is over. -/
theorem reachable_draining {grace n : ℕ} (h : n ≤ grace) :
    ((system grace).restrict (Prompt grace)).Reachable { busy.drain with now := n } := by
  induction n with
  | zero =>
    exact reachable_busy.step (t := busy.poll grace true true) (a := .supervisor)
      ⟨nofun, .poll true true⟩
  | succ n ih =>
    have before := ih (Nat.le_of_succ_le h)
    have settled : State.Settled grace { busy.drain with now := n } := by
      refine .inr ⟨rfl, ?_⟩
      show n < 0 + grace
      omega
    exact before.step (a := .tick) ⟨fun _ => settled, .tick⟩

def expired : State := { busy.drain with now := shutdownGrace }

def forced : State := expired.poll shutdownGrace true true

theorem reachable_forced :
    ((system shutdownGrace).restrict (Prompt shutdownGrace)).Reachable forced :=
  (reachable_draining le_rfl).step (a := .supervisor) ⟨nofun, .poll true true⟩

theorem forced_cancels : forced.agents 0 = .connected .unresumed ∧
    (forced.agents 0).poll forced.cancel true = .ended true :=
  ⟨rfl, ((cancelled_iff_forced reachable_forced.of_restrict).2.1 0 .unresumed rfl).2 rfl⟩

theorem forced_in_time :
    forced.result = none ∧ forced.now ≤ 0 + shutdownGrace + forceCloseGrace :=
  ⟨rfl, (returns_in_time reachable_forced).2.1 rfl 0 rfl⟩

end AcpAgent.Serve.Shutdown
