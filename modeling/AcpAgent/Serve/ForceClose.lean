import AcpAgent.Lib.Str
import Mathlib.Data.List.Infix

/-! The forced close of a connection in `serve/transport.rs`: `ForceCloseIo`, whose poll methods
share one boxed `wait_for_shutdown`.  A run is a list of events, the calls of the methods in any order
with the moments at which the signal is sent and its sender dropped. -/

namespace AcpAgent.Serve.Transport

inductive ErrorKind
  | connectionAborted
  | other
  deriving DecidableEq

structure IoError where
  kind : ErrorKind
  text : Str
  deriving DecidableEq

/-- `Poll<io::Result<usize>>`, where `none` is pending; the number is 0 for calls that move no
bytes. -/
abbrev Reply := Option (Except IoError ℕ)

/-- The watch channel of the signal.  Only `true` is ever sent on it. -/
structure Watch where
  sent : Bool
  closed : Bool

/-- Where a `wait_for_shutdown` is. -/
inductive Wait
  | unresumed
  /-- In `receiver.changed().await`. -/
  | waiting
  | completed
  deriving DecidableEq

/-- A poll of `changed`, which is pending as well if the budget of the task is used up. -/
def pollChanged (channel : Watch) (budget : Bool) : Option (Except Unit Unit) :=
  if !budget then none
  else if channel.sent then some (.ok ())
  else if channel.closed then some (.error ())
  else none

section Poll

-- What the call finds: the channel, the budget of its task, and the block.
variable (channel : Watch) (budget : Bool) (cancelled : Wait)

/-- A poll of the block, unless it panics. -/
def pollWaitForShutdown : Option Wait :=
  match cancelled with
  | .unresumed => if channel.sent then some .completed else changed
  | .waiting => changed
  -- "`async fn` resumed after completion"
  | .completed => none
where
  changed : Option Wait :=
    match pollChanged channel budget with
    | none => some .waiting
    -- Either the sender is gone or the value is `true`.
    | some _ => some .completed

def graceExpired : IoError := ⟨.connectionAborted, str "ACP shutdown grace expired"⟩

def pollCancelled : Option (Except IoError Unit × Wait) := do
  let next ← pollWaitForShutdown channel budget cancelled
  if next = .completed then some (.error graceExpired, next) else some (.ok (), next)

/-- What the poll methods have in common; `inner` is the answer of the stream. -/
def pollIo (inner : Reply) : Option (Reply × Wait) := do
  match ← pollCancelled channel budget cancelled with
  | (.error error, next) => some (some (.error error), next)
  | (.ok (), next) => some (inner, next)

def pollRead (inner : Reply) : Option (Reply × Wait) := pollIo channel budget cancelled inner

def pollWrite (inner : Reply) : Option (Reply × Wait) := pollIo channel budget cancelled inner

def pollFlush (inner : Reply) : Option (Reply × Wait) := pollIo channel budget cancelled inner

def pollShutdown (inner : Reply) : Option (Reply × Wait) := pollIo channel budget cancelled inner

end Poll

theorem pollWaitForShutdown_none {channel : Watch} {budget : Bool} {cancelled : Wait} :
    pollWaitForShutdown channel budget cancelled = none ↔ cancelled = .completed := by
  obtain ⟨sent, closed⟩ := channel
  cases cancelled <;> cases sent <;> cases closed <;> cases budget <;> decide

theorem pollWaitForShutdown_some {channel : Watch} {budget : Bool} {cancelled next : Wait}
    (h : pollWaitForShutdown channel budget cancelled = some next) :
    next ≠ .unresumed ∧
      (next = .completed ↔ budget = true ∧ (channel.sent = true ∨ channel.closed = true) ∨
        channel.sent = true ∧ cancelled = .unresumed) := by
  obtain ⟨sent, closed⟩ := channel
  cases cancelled <;> cases sent <;> cases closed <;> cases budget <;> cases h <;> decide

inductive Method
  | read
  | write
  | flush
  | shutdown

structure Call where
  method : Method
  budget : Bool
  inner : Reply

inductive Event
  | call (call : Call)
  | send
  | dropSender

structure ForceCloseIo where
  channel : Watch
  cancelled : Wait

namespace ForceCloseIo

/-- `new`; the connection may be accepted at any moment. -/
def new (channel : Watch) : ForceCloseIo := ⟨channel, .unresumed⟩

/-- What the call returns and where it leaves the block, unless it panics. -/
def answer (io : ForceCloseIo) (call : Call) : Option (Reply × Wait) :=
  match call.method with
  | .read => pollRead io.channel call.budget io.cancelled call.inner
  | .write => pollWrite io.channel call.budget io.cancelled call.inner
  | .flush => pollFlush io.channel call.budget io.cancelled call.inner
  | .shutdown => pollShutdown io.channel call.budget io.cancelled call.inner

def step (io : ForceCloseIo) : Event → ForceCloseIo
  | .call call => { io with cancelled := ((io.answer call).map Prod.snd).getD io.cancelled }
  | .send => { io with channel := { io.channel with sent := true } }
  | .dropSender => { io with channel := { io.channel with closed := true } }

def after (io : ForceCloseIo) (events : List Event) : ForceCloseIo := events.foldl step io

@[simp] theorem after_concat (io : ForceCloseIo) (events : List Event) (event : Event) :
    io.after (events ++ [event]) = (io.after events).step event := by
  simp [after]

theorem answer_eq (io : ForceCloseIo) (call : Call) :
    io.answer call = pollIo io.channel call.budget io.cancelled call.inner := by
  obtain ⟨method, budget, inner⟩ := call
  cases method <;> rfl

theorem answer_cases (io : ForceCloseIo) (call : Call) :
    io.answer call =
      (pollWaitForShutdown io.channel call.budget io.cancelled).map fun next =>
        (if next = .completed then some (.error graceExpired) else call.inner, next) := by
  rw [answer_eq, pollIo, pollCancelled]
  cases pollWaitForShutdown io.channel call.budget io.cancelled with
  | none => rfl
  | some next => by_cases completed : next = .completed <;> simp [completed]

end ForceCloseIo

/-- In this run, each call from the first on that observes the signal returns an error of the kind
`ConnectionAborted`, and none polls a block that has completed. -/
structure Closes (channel : Watch) (events : List Event) : Prop where
  polls : ∀ before call, before ++ [.call call] <+: events →
    ((ForceCloseIo.new channel).after before).answer call ≠ none
  aborts : ∀ before call, before ++ [.call call] <+: events →
    ((ForceCloseIo.new channel).after (before ++ [.call call])).cancelled = .completed →
    ∃ error next, ((ForceCloseIo.new channel).after before).answer call =
      some (some (.error error), next) ∧ error.kind = .connectionAborted

/-- A call after these events sees the signal: it has been sent, or its sender dropped, and the task
has some budget left, or it has been sent before the first call. -/
def Sees (channel : Watch) (before : List Event) (call : Call) : Prop :=
  let sent := channel.sent = true ∨ .send ∈ before
  let closed := channel.closed = true ∨ .dropSender ∈ before
  call.budget = true ∧ (sent ∨ closed) ∨ sent ∧ ∀ earlier, .call earlier ∉ before

def Seen (channel : Watch) (events : List Event) : Prop :=
  ∃ before call, before ++ [.call call] <+: events ∧ Sees channel before call

section Run

variable {channel : Watch} {events : List Event}

theorem seen_concat {event : Event} :
    Seen channel (events ++ [event]) ↔
      Seen channel events ∨ ∃ call, event = .call call ∧ Sees channel events call := by
  constructor
  · rintro ⟨before, call, front, sees⟩
    rcases List.prefix_concat_iff.mp front with whole | front
    · obtain ⟨rfl, last⟩ := List.append_inj' whole rfl
      cases last
      exact .inr ⟨call, rfl, sees⟩
    · exact .inl ⟨before, call, front, sees⟩
  · rintro (⟨before, call, front, sees⟩ | ⟨call, rfl, sees⟩)
    · exact ⟨before, call, front.trans (List.prefix_append _ _), sees⟩
    · exact ⟨events, call, List.prefix_rfl, sees⟩

structure Left (channel : Watch) (events : List Event) (io : ForceCloseIo) : Prop where
  sent : io.channel.sent = true ↔ channel.sent = true ∨ .send ∈ events
  closed : io.channel.closed = true ↔ channel.closed = true ∨ .dropSender ∈ events
  unresumed : io.cancelled = .unresumed ↔ ∀ call, .call call ∉ events
  completed : io.cancelled = .completed ↔ Seen channel events

/-- One call more: it completes the block if it sees the signal. -/
theorem Left.call {io : ForceCloseIo} (h : Left channel events io) (call : Call) :
    Left channel (events ++ [.call call]) (io.step (.call call)) := by
  have resumed : ¬∀ earlier, .call earlier ∉ events ++ [.call call] := by
    intro none_
    exact none_ call (by simp)
  have sees : Sees channel events call ↔ call.budget = true ∧
      (io.channel.sent = true ∨ io.channel.closed = true) ∨
      io.channel.sent = true ∧ io.cancelled = .unresumed := by
    rw [Sees, h.sent, h.closed, h.unresumed]
  have seen : Seen channel (events ++ [.call call]) ↔
      io.cancelled = .completed ∨ Sees channel events call := by
    rw [seen_concat, h.completed]
    simp
  refine ⟨by simp [ForceCloseIo.step, h.sent], by simp [ForceCloseIo.step, h.closed], ?_, ?_⟩
  · refine iff_of_false ?_ resumed
    rw [ForceCloseIo.step, ForceCloseIo.answer_cases]
    cases poll : pollWaitForShutdown io.channel call.budget io.cancelled with
    | none => simp [pollWaitForShutdown_none.mp poll]
    | some next => simpa using (pollWaitForShutdown_some poll).1
  · rw [seen, sees, ForceCloseIo.step, ForceCloseIo.answer_cases]
    cases poll : pollWaitForShutdown io.channel call.budget io.cancelled with
    | none => simp [pollWaitForShutdown_none.mp poll]
    | some next =>
      have fresh : io.cancelled ≠ .completed := by
        intro completed
        rw [pollWaitForShutdown_none.mpr completed] at poll
        cases poll
      simpa [fresh] using (pollWaitForShutdown_some poll).2

theorem left (channel : Watch) (events : List Event) :
    Left channel events ((ForceCloseIo.new channel).after events) := by
  induction events using List.reverseRecOn with
  | nil => constructor <;> simp [ForceCloseIo.after, ForceCloseIo.new, Seen]
  | append_singleton events event ih =>
    rw [ForceCloseIo.after_concat]
    generalize (ForceCloseIo.new channel).after events = io at ih ⊢
    cases event with
    | call call => exact ih.call call
    | send =>
      refine ⟨by simp [ForceCloseIo.step], ?_, ?_, ?_⟩
      · simpa [ForceCloseIo.step] using ih.closed
      · simpa [ForceCloseIo.step] using ih.unresumed
      · simpa [ForceCloseIo.step, seen_concat] using ih.completed
    | dropSender =>
      refine ⟨?_, by simp [ForceCloseIo.step], ?_, ?_⟩
      · simpa [ForceCloseIo.step] using ih.sent
      · simpa [ForceCloseIo.step] using ih.unresumed
      · simpa [ForceCloseIo.step, seen_concat] using ih.completed

end Run

/-- A run closes the connection without a panic exactly if no call comes after one that sees the
signal. -/
theorem closes_iff (channel : Watch) (events : List Event) :
    Closes channel events ↔
      ∀ before call, before ++ [.call call] <+: events → ¬Seen channel before := by
  constructor
  · intro closes before call front seen
    have completed := (left channel before).completed.mpr seen
    apply closes.polls before call front
    rw [ForceCloseIo.answer_cases, pollWaitForShutdown_none.mpr completed, Option.map_none]
  · intro once
    have polled : ∀ before call, before ++ [.call call] <+: events →
        ∃ next, pollWaitForShutdown ((ForceCloseIo.new channel).after before).channel call.budget
          ((ForceCloseIo.new channel).after before).cancelled = some next := by
      intro before call front
      apply Option.ne_none_iff_exists'.mp
      intro panics
      apply once before call front
      exact (left channel before).completed.mp (pollWaitForShutdown_none.mp panics)
    refine ⟨fun before call front => ?_, fun before call front completed => ?_⟩
    · obtain ⟨next, poll⟩ := polled before call front
      simp [ForceCloseIo.answer_cases, poll]
    · obtain ⟨next, poll⟩ := polled before call front
      have answer := ForceCloseIo.answer_cases ((ForceCloseIo.new channel).after before) call
      rw [poll, Option.map_some] at answer
      rw [ForceCloseIo.after_concat, ForceCloseIo.step, answer] at completed
      obtain rfl : next = .completed := completed
      exact ⟨graceExpired, .completed, answer, rfl⟩

/-- The stack shuts the connection down after a read has failed. -/
theorem shutdown_after_read_panics : ¬Closes ⟨false, false⟩
    [.send, .call ⟨.read, true, none⟩, .call ⟨.shutdown, true, some (.ok 0)⟩] := by
  intro closes
  exact closes.polls [.send, .call ⟨.read, true, none⟩] _ List.prefix_rfl rfl

end AcpAgent.Serve.Transport
