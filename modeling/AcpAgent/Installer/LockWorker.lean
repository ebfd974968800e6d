import AcpAgent.Lib.Locks
import AcpAgent.Lib.Str
import AcpAgent.Lib.Transition

/-! The blocking worker that takes a lock file for `acquire_cache_lock` (`installer/cache.rs`) and
keeps it until the `BinaryCacheLock` is dropped, with the two channels between it and its caller. -/

namespace AcpAgent.Installer.LockWorker

inductive CacheLockMode
  | read
  | write
  | tryWrite
  deriving DecidableEq

/-- Where the worker is. -/
inductive Worker
  /-- Spawned, but not yet running. -/
  | queued
  | opening
  /-- In `lock`, `lock_shared` or `try_lock`. -/
  | locking
  | sending (ready : Except Str Bool)
  /-- In `release_rx.recv`. -/
  | waiting
  | closing
  | finished

/-- The lock of the operating system, which lasts until the file is closed. -/
def Worker.Holds : Worker → Prop
  | .sending (.ok true) | .waiting | .closing => True
  | _ => False

/-- Where the future is, or the `BinaryCacheLock` that it has returned. -/
inductive Caller
  | awaiting
  | holding
  /-- `BinaryCacheLock::drop`, with the message sent and the sender not dropped. -/
  | releasing
  | released
  /-- The future has returned without a lock. -/
  | returned (result : Except Str Unit)
  /-- The future was dropped. -/
  | dropped

/-- `release_tx` is there. -/
def Caller.Connected : Caller → Prop
  | .awaiting | .holding | .releasing => True
  | _ => False

/-- What the future makes of what it receives; nothing comes if the sender is dropped. -/
def Caller.resume (lockName : Str) : Option (Except Str Bool) → Caller
  | some (.ok true) => .holding
  | some (.ok false) => .returned (.ok ())
  | some (.error error) =>
    .returned (.error (str "failed to acquire " ++ lockName ++ str ": " ++ error))
  | none => .returned (.error (lockName ++ str " task terminated unexpectedly"))

structure State where
  worker : Worker
  caller : Caller
  /-- What is in the ready channel. -/
  ready : Option (Except Str Bool)
  /-- There is a message in the release channel. -/
  message : Bool

inductive Side
  | worker
  | caller
  deriving DecidableEq

/-- `hold_cache_lock` waits for the release, and any other message is the last thing to do. -/
def Worker.sent : Except Str Bool → Worker
  | .ok true => .waiting
  | _ => .finished

def Worker.unsent : Except Str Bool → Worker
  | .ok true => .closing
  | _ => .finished

inductive Step (mode : CacheLockMode) (lockName : Str) : State → Side → State → Prop
  /-- The runtime shuts down before the worker runs. -/
  | abort {s} (h : s.worker = .queued) :
      Step mode lockName s .worker { s with worker := .finished }
  | start {s} (h : s.worker = .queued) :
      Step mode lockName s .worker { s with worker := .opening }
  | openFails {s} (h : s.worker = .opening) (error : Str) :
      Step mode lockName s .worker { s with worker := .sending (.error error) }
  | opened {s} (h : s.worker = .opening) :
      Step mode lockName s .worker { s with worker := .locking }
  | locked {s} (h : s.worker = .locking) :
      Step mode lockName s .worker { s with worker := .sending (.ok true) }
  | lockFails {s} (h : s.worker = .locking) (error : Str) :
      Step mode lockName s .worker { s with worker := .sending (.error error) }
  | wouldBlock {s} (h : s.worker = .locking) (mode_ : mode = .tryWrite) :
      Step mode lockName s .worker { s with worker := .sending (.ok false) }
  | send {s ready} (h : s.worker = .sending ready) (there : s.caller = .awaiting) :
      Step mode lockName s .worker { s with worker := .sent ready, ready := some ready }
  | sendFails {s ready} (h : s.worker = .sending ready) (gone : s.caller ≠ .awaiting) :
      Step mode lockName s .worker { s with worker := .unsent ready }
  | recv {s} (h : s.worker = .waiting) (woken : s.message = true ∨ ¬s.caller.Connected) :
      Step mode lockName s .worker { s with worker := .closing, message := false }
  | close {s} (h : s.worker = .closing) :
      Step mode lockName s .worker { s with worker := .finished }
  | receive {s ready} (h : s.caller = .awaiting) (there : s.ready = some ready) :
      Step mode lockName s .caller
        { s with caller := .resume lockName (some ready), ready := none }
  | hungUp {s} (h : s.caller = .awaiting) (nothing : s.ready = none)
      (ended : s.worker = .finished) :
      Step mode lockName s .caller { s with caller := .resume lockName none }
  | drop {s} (h : s.caller = .awaiting) :
      Step mode lockName s .caller { s with caller := .dropped, ready := none }
  | release {s} (h : s.caller = .holding) :
      Step mode lockName s .caller { s with caller := .releasing, message := true }
  | disconnect {s} (h : s.caller = .releasing) :
      Step mode lockName s .caller { s with caller := .released }

def system (mode : CacheLockMode) (lockName : Str) : Transition.System State Side where
  init s := s = ⟨.queued, .awaiting, none, false⟩
  step := Step mode lockName

/-- Without its caller, the worker does nothing any more, whoever else has the lock. -/
def Quiet (mode : CacheLockMode) (lockName : Str) (s : State) : Prop :=
  ∀ t, ¬Step mode lockName s .worker t

/-- What the worker knows of its caller. -/
def Worker.Sound (caller : Caller) (ready : Option (Except Str Bool)) (message : Bool) :
    Worker → Prop
  | .queued | .opening | .locking | .sending _ =>
    ready = none ∧ (caller = .awaiting ∨ caller = .dropped)
  | .waiting => (caller = .awaiting → ready = some (.ok true)) ∧
    (caller = .releasing → message = true)
  | .closing | .finished => caller ≠ .holding ∧ ready ≠ some (.ok true)

structure State.Sound (s : State) : Prop where
  worker : s.worker.Sound s.caller s.ready s.message
  ready : s.ready ≠ none → s.caller = .awaiting
  message : s.message = true → s.caller = .releasing ∨ s.caller = .released

section Runs

variable {mode : CacheLockMode} {lockName : Str} {s t : State}

/-- A caller that waits or has the lock has not sent its message. -/
theorem State.Sound.unsent (hs : s.Sound) (h : s.caller = .awaiting ∨ s.caller = .holding) :
    s.message ≠ true := by
  intro sent
  rcases hs.message sent with caller | caller <;> simp [caller] at h

theorem State.Sound.empty (hs : s.Sound) (h : s.caller ≠ .awaiting) : s.ready = none := by
  by_contra some_
  exact h (hs.ready some_)

/-- What the caller makes of a message is right for the worker that has sent it. -/
theorem Worker.Sound.receive {worker : Worker} {value : Except Str Bool} {message : Bool}
    (h : worker.Sound .awaiting (some value) message) :
    worker.Sound (.resume lockName (some value)) none message := by
  cases worker with
  | queued | opening | locking | sending => cases h.1
  | waiting =>
    obtain rfl := Option.some.inj (h.1 rfl)
    exact ⟨by simp [Caller.resume], by simp [Caller.resume]⟩
  | closing | finished =>
    refine ⟨?_, by simp⟩
    rcases value with error | _ | _
    · simp [Caller.resume]
    · simp [Caller.resume]
    · exact absurd rfl h.2

theorem Worker.Sound.drop {worker : Worker} {ready : Option (Except Str Bool)} {message : Bool}
    (h : worker.Sound .awaiting ready message) : worker.Sound .dropped none message := by
  cases worker with
  | queued | opening | locking | sending => exact ⟨rfl, .inr rfl⟩
  | waiting => exact ⟨by simp, by simp⟩
  | closing | finished => exact ⟨by simp, by simp⟩

theorem Worker.Sound.release {worker : Worker} {ready : Option (Except Str Bool)} {message : Bool}
    (h : worker.Sound .holding ready message) : worker.Sound .releasing ready true := by
  cases worker with
  | queued | opening | locking | sending => rcases h.2 with caller | caller <;> cases caller
  | waiting => exact ⟨by simp, by simp⟩
  | closing | finished => exact absurd rfl h.1

theorem Worker.Sound.disconnect {worker : Worker} {ready : Option (Except Str Bool)}
    {message : Bool} (h : worker.Sound .releasing ready message) :
    worker.Sound .released ready message := by
  cases worker with
  | queued | opening | locking | sending => rcases h.2 with caller | caller <;> cases caller
  | waiting => exact ⟨by simp, by simp⟩
  | closing | finished => exact ⟨by simp, h.2⟩

theorem Step.sound {side : Side} (h : Step mode lockName s side t) (hs : s.Sound) : t.Sound := by
  have worker := hs.worker
  cases h with
  | abort h =>
    rw [h] at worker
    refine ⟨⟨?_, by simp [worker.1]⟩, hs.ready, hs.message⟩
    rcases worker.2 with caller | caller <;> simp [caller]
  | start h | openFails h | opened h | locked h | lockFails h | wouldBlock h | close h =>
    rw [h] at worker
    exact ⟨worker, hs.ready, hs.message⟩
  | @send value h there =>
    rw [h] at worker
    refine ⟨?_, fun _ => there, hs.message⟩
    rcases value with error | _ | _
    · exact ⟨by simp [there], by simp⟩
    · exact ⟨by simp [there], by simp⟩
    · exact ⟨fun _ => rfl, by simp [there]⟩
  | @sendFails value h gone =>
    rw [h] at worker
    have dropped := worker.2.resolve_left gone
    refine ⟨?_, hs.ready, hs.message⟩
    rcases value with error | _ | _ <;> exact ⟨by simp [dropped], by simp [worker.1]⟩
  | recv h woken =>
    have gone : s.caller ≠ .holding ∧ s.caller ≠ .awaiting := by
      rcases woken with told | alone
      · rcases hs.message told with caller | caller <;> simp [caller]
      · constructor <;>
        · intro caller
          exact alone (by rw [caller]; trivial)
    exact ⟨⟨gone.1, by simp [hs.empty gone.2]⟩, hs.ready, by simp⟩
  | receive h there =>
    rw [h, there] at worker
    exact ⟨worker.receive, by simp, fun sent => absurd sent (hs.unsent (.inl h))⟩
  | hungUp h nothing ended =>
    refine ⟨?_, fun some_ => absurd nothing some_, fun sent => absurd sent (hs.unsent (.inl h))⟩
    rw [ended]
    exact ⟨by simp [Caller.resume], by simp [nothing]⟩
  | drop h =>
    rw [h] at worker
    exact ⟨worker.drop, by simp, fun sent => absurd sent (hs.unsent (.inl h))⟩
  | release h =>
    rw [h] at worker
    exact ⟨worker.release, fun some_ => absurd (hs.empty (by simp [h])) some_, fun _ => .inl rfl⟩
  | disconnect h =>
    rw [h] at worker
    exact ⟨worker.disconnect, fun some_ => absurd (hs.empty (by simp [h])) some_,
      fun _ => .inr rfl⟩

theorem sound (h : (system mode lockName).Reachable s) : s.Sound := by
  refine h.invariant (I := State.Sound) ?_ fun _ _ _ _ hs step => Step.sound step hs
  rintro s rfl
  exact ⟨⟨rfl, .inl rfl⟩, by simp, by simp⟩

/-- The steps that the worker has behind it. -/
def Worker.rank : Worker → ℕ
  | .queued => 0
  | .opening => 1
  | .locking => 2
  | .sending _ => 3
  | .waiting => 4
  | .closing => 5
  | .finished => 6

theorem Step.rank_lt (h : Step mode lockName s .worker t) : s.worker.rank < t.worker.rank := by
  cases h with
  | @send value h | @sendFails value h =>
    rw [h]
    rcases value with error | _ | _ <;> simp [Worker.rank, Worker.sent, Worker.unsent]
  | abort h | start h | openFails h | opened h | locked h | lockFails h | wouldBlock h | recv h
  | close h =>
    rw [h]
    simp [Worker.rank]

/-- The worker comes to rest, wherever its caller is. -/
theorem exists_quiet (s : State) : ∃ t,
    Relation.ReflTransGen (fun s t => Step mode lockName s .worker t) s t ∧
      Quiet mode lockName t := by
  have le : ∀ s : State, s.worker.rank ≤ 6 := by
    intro s
    cases s.worker <;> simp [Worker.rank]
  exact Locks.exists_end_of_rank (fun s => s.worker.rank) (fun _ _ => Step.rank_lt) le s

/-- At rest, the worker waits for a caller that has the lock or is to get it, or is through. -/
theorem Quiet.worker (quiet : Quiet mode lockName s) :
    s.worker = .waiting ∧ s.message = false ∧ s.caller.Connected ∨ s.worker = .finished := by
  cases at_ : s.worker with
  | queued => exact absurd (.start at_) (quiet _)
  | opening => exact absurd (.opened at_) (quiet _)
  | locking => exact absurd (.locked at_) (quiet _)
  | sending ready =>
    by_cases there : s.caller = .awaiting
    · exact absurd (.send at_ there) (quiet _)
    · exact absurd (.sendFails at_ there) (quiet _)
  | waiting =>
    by_cases woken : s.message = true ∨ ¬s.caller.Connected
    · exact absurd (.recv at_ woken) (quiet _)
    · rw [not_or, not_not] at woken
      exact .inl ⟨rfl, Bool.eq_false_of_not_eq_true woken.1, woken.2⟩
  | closing => exact absurd (.close at_) (quiet _)
  | finished => exact .inr rfl

/-- `try_lock` has found the lock taken. -/
structure State.Refused (s : State) : Prop where
  worker : s.worker = .sending (.ok false) ∨ s.worker = .finished
  ready : s.ready = none ∨ s.ready = some (.ok false)
  caller : s.caller ≠ .holding

theorem Step.refused {side : Side} (h : Step mode lockName s side t) (hs : s.Refused) :
    t.Refused := by
  obtain ⟨worker, ready, caller⟩ := hs
  cases h with
  | abort h | start h | openFails h | opened h | locked h | lockFails h | wouldBlock h | recv h
  | close h => simp [h] at worker
  | send h =>
    simp only [h, Worker.sending.injEq, reduceCtorEq, or_false] at worker
    subst worker
    exact ⟨.inr rfl, .inr rfl, caller⟩
  | sendFails h =>
    simp only [h, Worker.sending.injEq, reduceCtorEq, or_false] at worker
    subst worker
    exact ⟨.inr rfl, ready, caller⟩
  | receive h there =>
    rw [there] at ready
    obtain rfl := Option.some.inj (ready.resolve_left (Option.some_ne_none _))
    exact ⟨worker, .inl rfl, by simp [Caller.resume]⟩
  | hungUp => exact ⟨worker, ready, by simp [Caller.resume]⟩
  | drop => exact ⟨worker, .inl rfl, by simp⟩
  | release h => exact absurd h caller
  | disconnect => exact ⟨worker, ready, by simp⟩

/-- A worker at rest has the lock exactly if there is a `BinaryCacheLock` or the caller is about to
receive one; it comes to rest by itself; and if `try_lock` has found the lock taken, neither the
worker nor its caller ever has it. -/
theorem lock_held_iff (h : (system mode lockName).Reachable s) :
    (Quiet mode lockName s → (s.worker.Holds ↔
      s.caller = .holding ∨ s.caller = .awaiting ∧ s.ready = some (.ok true))) ∧
    (∃ t, Relation.ReflTransGen (fun s t => Step mode lockName s .worker t) s t ∧
      Quiet mode lockName t) ∧
    (s.worker = .sending (.ok false) → ∀ t,
      Relation.ReflTransGen (fun s t => ∃ side, Step mode lockName s side t) s t →
        ¬t.worker.Holds ∧ t.caller ≠ .holding) := by
  have hs := sound h
  refine ⟨fun quiet => ?_, exists_quiet s, fun refused t run => ?_⟩
  · have worker := hs.worker
    rcases quiet.worker with ⟨waiting, unread, connected⟩ | finished
    · rw [waiting] at worker ⊢
      refine iff_of_true trivial ?_
      cases caller : s.caller with
      | awaiting => exact .inr ⟨rfl, worker.1 caller⟩
      | holding => exact .inl rfl
      | releasing => simp [worker.2 caller] at unread
      | released | returned | dropped =>
        rw [caller] at connected
        exact connected.elim
    · rw [finished] at worker ⊢
      refine iff_of_false id ?_
      rintro (holding | ⟨-, ready⟩)
      · exact worker.1 holding
      · exact worker.2 ready
  · have start : s.Refused := by
      have worker := hs.worker
      rw [refused] at worker
      refine ⟨.inl refused, .inl worker.1, ?_⟩
      rcases worker.2 with caller | caller <;> simp [caller]
    have end_ : t.Refused := by
      induction run with
      | refl => exact start
      | tail _ step ih =>
        obtain ⟨side, step⟩ := step
        exact step.refused ih
    refine ⟨?_, end_.caller⟩
    rcases end_.worker with worker | worker <;> simp [worker, Worker.Holds]

end Runs

/-- A caller that has got its lock, and the worker that keeps it. -/
theorem lock_held_write : ∃ s : State, s.caller = .holding ∧ Quiet .write (str "cache lock") s ∧
    s.worker.Holds := by
  have h0 : (system .write (str "cache lock")).Reachable ⟨.queued, .awaiting, none, false⟩ :=
    .init rfl
  have h1 := h0.step (Step.start rfl)
  have h2 := h1.step (Step.opened rfl)
  have h3 := h2.step (Step.locked rfl)
  have h4 := h3.step (Step.send rfl rfl)
  have h5 := h4.step (Step.receive rfl rfl)
  have quiet : Quiet .write (str "cache lock") ⟨.waiting, .holding, none, false⟩ := by
    rintro t step
    cases step with
    | recv h woken =>
      rcases woken with told | alone
      · exact Bool.false_ne_true told
      · exact alone trivial
    | abort h | start h | openFails h | opened h | locked h | lockFails h | wouldBlock h | send h
    | sendFails h | close h => exact Worker.noConfusion h
  exact ⟨_, rfl, quiet, ((lock_held_iff h5).1 quiet).mpr (.inl rfl)⟩

end AcpAgent.Installer.LockWorker
