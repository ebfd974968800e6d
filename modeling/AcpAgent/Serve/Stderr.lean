import AcpAgent.Lib.Transition
import AcpAgent.Serve.StderrTail

/-! What becomes of the lines that agents write to standard error: `forward_agent_line` and the
`AgentStderr` of `serve/runtime.rs`, whose one writer takes the lines of all launches of a route from
a channel that drops what it has no room for. -/

namespace AcpAgent.Serve.Stderr

open Launch StderrTail Suffix

/-- `STDERR_CHANNEL_CAPACITY`. -/
def capacity : ℕ := 1024

/-- One second, in nanoseconds. -/
def second : ℕ := 1000000000

/-- The channel, which never holds more than it may. -/
structure Channel (α : Type*) where
  lines : List α
  bounded : lines.length ≤ capacity

namespace Channel

variable {α : Type*} (channel : Channel α)

def empty : Channel α := ⟨[], Nat.zero_le _⟩

/-- `try_send` while there is a receiver. -/
def trySend (line : α) : Option (Channel α) :=
  if room : channel.lines.length < capacity then
    some ⟨channel.lines ++ [line], by simpa using room⟩
  else none

/-- `recv`, which waits for a line. -/
def recv : Option (α × Channel α) :=
  match h : channel.lines with
  | [] => none
  | line :: rest => some (line, ⟨rest, by
      have bounded := channel.bounded
      rw [h, List.length_cons] at bounded
      omega⟩)

variable {channel} {line : α} {next : Channel α}

theorem lines_trySend (h : channel.trySend line = some next) :
    next.lines = channel.lines ++ [line] := by
  unfold trySend at h
  split_ifs at h
  rw [← Option.some.inj h]

theorem exists_recv (h : channel.lines ≠ []) : ∃ line next, channel.recv = some (line, next) := by
  unfold recv
  split
  · rename_i empty
    exact absurd empty h
  · exact ⟨_, _, rfl⟩

theorem lines_recv (h : channel.recv = some (line, next)) :
    channel.lines = line :: next.lines := by
  unfold recv at h
  split at h
  · cases h
  · rename_i lines
    cases h
    exact lines

end Channel

variable {κ ι : Type*}

/-- Where the callback of a launch is. -/
inductive Callback
  | idle
  /-- After `push_stderr`. -/
  | sending (line : List UInt8)
  /-- After a `try_send` that failed. -/
  | counting

/-- The line that `try_send` has not decided about. -/
def Callback.undecided : Callback → List (List UInt8)
  | .sending line => [line]
  | .idle | .counting => []

/-- Whether a line has been dropped that is not counted yet. -/
def Callback.uncounted : Callback → ℕ
  | .counting => 1
  | .idle | .sending _ => 0

/-- Where the writer is. -/
inductive Writer (κ : Type*)
  | receiving
  | writing (line : κ × List UInt8)
  | loading
  | comparing (total : UInt64)
  /-- Between the check of the clock and `last_report = Instant::now()`. -/
  | stamping (total : UInt64)
  | reporting (total : UInt64)
  /-- The task has ended: `eprintln!` has panicked, or the runtime shuts down. -/
  | ended

def Writer.inHand : Writer κ → List (κ × List UInt8)
  | .writing line => [line]
  | .receiving | .loading | .comparing _ | .stamping _ | .reporting _ | .ended => []

/-- The state of the sink, with what has happened to every line. -/
structure State (κ ι : Type*) where
  now : ℕ
  launch : κ → LaunchState ι
  callback : κ → Callback
  channel : Channel (κ × List UInt8)
  writer : Writer κ
  dropped : UInt64
  reportedDrops : UInt64
  lastReport : ℕ
  /-- The lines that were given to `forward_agent_line`. -/
  forwarded : List (κ × List UInt8)
  /-- The lines in the order of `try_send`, and whether it has accepted them. -/
  decided : List ((κ × List UInt8) × Bool)
  /-- The launches in the order of `fetch_add`. -/
  counted : List κ
  written : List (κ × List UInt8)
  /-- What the channel held, and the writer, when the writer ended. -/
  lost : List (κ × List UInt8)
  reports : List UInt64

variable [DecidableEq κ]

inductive Step : State κ ι → Unit → State κ ι → Prop
  | tick {s : State κ ι} (elapsed : ℕ) : Step s () { s with now := s.now + elapsed }
  | forward {s : State κ ι} {k : κ} (h : s.callback k = .idle) (line : List UInt8) :
      Step s () { s with
        launch := Function.update s.launch k ((s.launch k).pushStderr line)
        callback := Function.update s.callback k (.sending line)
        forwarded := s.forwarded ++ [(k, line)] }
  | send {s : State κ ι} {k : κ} {line : List UInt8} {channel : Channel (κ × List UInt8)}
      (h : s.callback k = .sending line) (alive : s.writer ≠ .ended)
      (sent : s.channel.trySend (k, line) = some channel) :
      Step s () { s with
        callback := Function.update s.callback k .idle
        channel
        decided := s.decided ++ [((k, line), true)] }
  | full {s : State κ ι} {k : κ} {line : List UInt8} (h : s.callback k = .sending line)
      (refused : s.writer = .ended ∨ s.channel.trySend (k, line) = none) :
      Step s () { s with
        callback := Function.update s.callback k .counting
        decided := s.decided ++ [((k, line), false)] }
  | count {s : State κ ι} {k : κ} (h : s.callback k = .counting) :
      Step s () { s with
        callback := Function.update s.callback k .idle
        dropped := s.dropped + 1
        counted := s.counted ++ [k] }
  | receive {s : State κ ι} {line : κ × List UInt8} {channel : Channel (κ × List UInt8)}
      (h : s.writer = .receiving) (there : s.channel.recv = some (line, channel)) :
      Step s () { s with channel, writer := .writing line }
  | write {s : State κ ι} {line : κ × List UInt8} (h : s.writer = .writing line) :
      Step s () { s with writer := .loading, written := s.written ++ [line] }
  | load {s : State κ ι} (h : s.writer = .loading) :
      Step s () { s with writer := .comparing s.dropped }
  | quiet {s : State κ ι} {total : UInt64} (h : s.writer = .comparing total)
      (nothing : ¬(s.reportedDrops < total ∧ second ≤ s.now - s.lastReport)) :
      Step s () { s with writer := .receiving }
  | due {s : State κ ι} {total : UInt64} (h : s.writer = .comparing total)
      (more : s.reportedDrops < total) (late : second ≤ s.now - s.lastReport) :
      Step s () { s with writer := .stamping total }
  | stamp {s : State κ ι} {total : UInt64} (h : s.writer = .stamping total) :
      Step s () { s with
        writer := .reporting total
        reportedDrops := total
        lastReport := s.now }
  | report {s : State κ ι} {total : UInt64} (h : s.writer = .reporting total) :
      Step s () { s with writer := .receiving, reports := s.reports ++ [total] }
  | ends {s : State κ ι} (h : s.writer ≠ .ended) :
      Step s () { s with
        writer := .ended
        channel := .empty
        lost := s.writer.inHand ++ s.channel.lines }

/-- A sink that is made at the time `start`, and launches that have written nothing yet. -/
def system (κ ι : Type*) [DecidableEq κ] (start : ℕ) : Transition.System (State κ ι) Unit where
  init s := ∃ launch : κ → LaunchState ι, (∀ k, (launch k).stderrTail = []) ∧
    s = ⟨start, launch, fun _ => .idle, .empty, .receiving, 0, 0, start, [], [], [], [], [], []⟩
  step := Step

/-! ### Every line is accounted for -/

/-- The lines of one launch. -/
def linesOf (k : κ) (lines : List (κ × List UInt8)) : List (List UInt8) :=
  (lines.filter fun line => line.1 = k).map Prod.snd

/-- What `try_send` has accepted, or refused. -/
def linesThat (accepted : Bool) (decided : List ((κ × List UInt8) × Bool)) :
    List (κ × List UInt8) :=
  (decided.filter fun line => line.2 = accepted).map Prod.fst

section Lines

variable {k : κ} {lines rest : List (κ × List UInt8)} {line : List UInt8}

theorem linesOf_append : linesOf k (lines ++ rest) = linesOf k lines ++ linesOf k rest := by
  simp [linesOf]

@[simp] theorem linesOf_self : linesOf k [(k, line)] = [line] := by simp [linesOf]

theorem linesOf_ne {k' : κ} (h : k' ≠ k) : linesOf k [(k', line)] = [] := by simp [linesOf, h]

omit [DecidableEq κ] in
theorem linesThat_append {accepted : Bool} {decided more : List ((κ × List UInt8) × Bool)} :
    linesThat accepted (decided ++ more) =
      linesThat accepted decided ++ linesThat accepted more := by
  simp [linesThat]

omit [DecidableEq κ] in
@[simp] theorem linesThat_self {accepted : Bool} {line : κ × List UInt8} :
    linesThat accepted [(line, accepted)] = [line] := by simp [linesThat]

omit [DecidableEq κ] in
@[simp] theorem linesThat_not {accepted : Bool} {line : κ × List UInt8} :
    linesThat accepted [(line, !accepted)] = [] := by simp [linesThat]

end Lines

/-- Every line that was accepted is written, in the writer's hand, in the channel, or lost with the
writer, in that order; every other line is counted, or about to be; and the tail of a launch has its
lines whatever the sink does with them. -/
structure State.Accounted (s : State κ ι) : Prop where
  kept : linesThat true s.decided = s.written ++ s.writer.inHand ++ s.channel.lines ++ s.lost
  lost : s.writer ≠ .ended → s.lost = []
  closed : s.writer = .ended → s.channel.lines = []
  decided : ∀ k, linesOf k s.forwarded =
    linesOf k (s.decided.map Prod.fst) ++ (s.callback k).undecided
  counted : ∀ k, (linesOf k (linesThat false s.decided)).length =
    s.counted.count k + (s.callback k).uncounted
  dropped : s.dropped = UInt64.ofNat s.counted.length
  tail : ∀ k, (s.launch k).stderrTail = (stream (linesOf k s.forwarded)).rtake stderrTailBytes

section Runs

variable {s t : State κ ι}

theorem stderrTail_pushStderr (launch : LaunchState ι) (line : List UInt8) :
    (launch.pushStderr line).stderrTail =
      (launch.stderrTail ++ (line ++ [10])).rtake stderrTailBytes := by
  have pushed := pushStderr_stderrTail launch line (Nat.lt_succ_self _)
  rw [pushStderr_eq line (Nat.lt_succ_self _)] at pushed
  exact (Option.some.inj pushed).symm

theorem stream_append (lines : List (List UInt8)) (line : List UInt8) :
    stream (lines ++ [line]) = stream lines ++ (line ++ [10]) := by
  simp [stream]

/-- A step of the writer only: nothing is decided or counted, and no line goes astray. -/
theorem State.Accounted.of_writer (hs : s.Accounted) {writer : Writer κ} (h : s.writer ≠ .ended)
    (h' : writer ≠ .ended) (same : writer.inHand = s.writer.inHand) (reportedDrops : UInt64)
    (lastReport : ℕ) (reports : List UInt64) :
    State.Accounted { s with writer, reportedDrops, lastReport, reports } :=
  { hs with
    kept := by simpa [same] using hs.kept
    lost := fun _ => hs.lost h
    closed := fun ended => absurd ended h' }

theorem Step.accounted (h : Step s () t) (hs : s.Accounted) : t.Accounted := by
  cases h with
  | tick elapsed => exact { hs with }
  | @forward k h line =>
    refine { hs with decided := fun k' => ?_, counted := fun k' => ?_, tail := fun k' => ?_ }
    · rcases eq_or_ne k k' with rfl | other
      · have before := hs.decided k
        rw [h] at before
        simp [linesOf_append, before, Callback.undecided]
      · simp [linesOf_append, linesOf_ne other, Function.update_of_ne other.symm, hs.decided k']
    · rcases eq_or_ne k k' with rfl | other
      · have before := hs.counted k
        rw [h] at before
        simpa [Callback.uncounted] using before
      · simpa [Function.update_of_ne other.symm] using hs.counted k'
    · rcases eq_or_ne k k' with rfl | other
      · simp only [Function.update_self, stderrTail_pushStderr, hs.tail k, rtake_rtake_append,
          linesOf_append, linesOf_self, stream_append]
      · simpa [linesOf_append, linesOf_ne other, Function.update_of_ne other.symm] using hs.tail k'
  | @send k line channel h alive sent =>
    refine { hs with
      kept := ?_
      closed := fun ended => absurd ended alive
      decided := fun k' => ?_
      counted := fun k' => ?_ }
    · simp [linesThat_append, hs.kept, Channel.lines_trySend sent, hs.lost alive]
    · rcases eq_or_ne k k' with rfl | other
      · have before := hs.decided k
        rw [h] at before
        simp [linesOf_append, before, Callback.undecided]
      · simp [linesOf_append, linesOf_ne other, Function.update_of_ne other.symm, hs.decided k']
    · have refused : linesThat false [((k, line), true)] = [] := linesThat_not
      have same : (s.callback k).uncounted = Callback.idle.uncounted := by rw [h]; rfl
      rcases eq_or_ne k k' with rfl | other
      · simp [linesThat_append, refused, hs.counted k, same]
      · simp [linesThat_append, refused, hs.counted k', Function.update_of_ne other.symm]
  | @full k line h refused =>
    refine { hs with
      kept := ?_
      decided := fun k' => ?_
      counted := fun k' => ?_ }
    · have accepted : linesThat true [((k, line), false)] = [] := linesThat_not
      simp [linesThat_append, accepted, hs.kept]
    · rcases eq_or_ne k k' with rfl | other
      · have before := hs.decided k
        rw [h] at before
        simp [linesOf_append, before, Callback.undecided]
      · simp [linesOf_append, linesOf_ne other, Function.update_of_ne other.symm, hs.decided k']
    · rcases eq_or_ne k k' with rfl | other
      · have before := hs.counted k
        rw [h] at before
        simp [linesThat_append, linesOf_append, before, Callback.uncounted]
      · simp [linesThat_append, linesOf_append, linesOf_ne other, hs.counted k',
          Function.update_of_ne other.symm]
  | @count k h =>
    refine { hs with
      decided := fun k' => ?_
      counted := fun k' => ?_
      dropped := ?_ }
    · rcases eq_or_ne k k' with rfl | other
      · have before := hs.decided k
        rw [h] at before
        simpa [Callback.undecided] using before
      · simpa [Function.update_of_ne other.symm] using hs.decided k'
    · rcases eq_or_ne k k' with rfl | other
      · have before := hs.counted k
        rw [h] at before
        simp [before, Callback.uncounted]
      · simp [hs.counted k', Function.update_of_ne other.symm, List.count_append, other]
    · simp [hs.dropped, UInt64.ofNat_add]
  | @receive line channel h there =>
    refine { hs with kept := ?_, lost := fun _ => hs.lost (by simp [h]), closed := nofun }
    simp [hs.kept, h, Writer.inHand, Channel.lines_recv there]
  | write h =>
    refine { hs with kept := ?_, lost := fun _ => hs.lost (by simp [h]), closed := nofun }
    simp [hs.kept, h, Writer.inHand]
  | load h | quiet h | due h | stamp h | report h =>
    refine hs.of_writer ?_ ?_ ?_ _ _ _ <;> simp [h, Writer.inHand]
  | ends h =>
    refine { hs with kept := ?_, lost := fun alive => absurd rfl alive, closed := fun _ => rfl }
    simp [hs.kept, hs.lost h, Writer.inHand, Channel.empty]

/-- Whatever the order in which callbacks, writer and clock take their turns. -/
theorem accounted {start : ℕ} (h : (system κ ι start).Reachable s) : s.Accounted := by
  refine h.invariant (I := State.Accounted) ?_ fun _ _ _ _ hs step => Step.accounted step hs
  rintro s ⟨launch, fresh, rfl⟩
  refine ⟨rfl, fun _ => rfl, fun _ => rfl, fun _ => rfl, fun _ => rfl, rfl, fun k => ?_⟩
  rw [fresh k]
  exact (List.rtake_nil _).symm

theorem length_linesThat (k : κ) (decided : List ((κ × List UInt8) × Bool)) :
    (linesOf k (decided.map Prod.fst)).length =
      (linesOf k (linesThat true decided)).length +
        (linesOf k (linesThat false decided)).length := by
  induction decided with
  | nil => rfl
  | cons line decided ih =>
    obtain ⟨⟨k', line⟩, accepted⟩ := line
    by_cases same : k' = k <;> cases accepted <;> simp_all [linesOf, linesThat] <;> omega

theorem linesOf_sublist (k : κ) {lines rest : List (κ × List UInt8)} (h : lines.Sublist rest) :
    (linesOf k lines).Sublist (linesOf k rest) :=
  (h.filter _).map _

/-- A launch's lines come out in their order and none of them twice.  Each of them but one that the
callback still has is accepted or dropped, in their order: those that are accepted by all launches are
the lines written, then the one in the writer's hand, those in the channel and those lost with the
writer, and those dropped are counted, but for one that the callback is about to count.  The tail of
the launch has them all. -/
theorem lines_accounted {start : ℕ} (h : (system κ ι start).Reachable s) (k : κ) :
    (linesOf k s.written).Sublist (linesOf k s.forwarded) ∧
    linesOf k s.forwarded = linesOf k (s.decided.map Prod.fst) ++ (s.callback k).undecided ∧
    linesThat true s.decided = s.written ++ s.writer.inHand ++ s.channel.lines ++ s.lost ∧
    (linesOf k (linesThat false s.decided)).length =
      s.counted.count k + (s.callback k).uncounted ∧
    (linesOf k s.forwarded).length = (linesOf k s.written).length +
      (linesOf k (s.writer.inHand ++ s.channel.lines ++ s.lost)).length + s.counted.count k +
      ((s.callback k).undecided.length + (s.callback k).uncounted) ∧
    (s.writer ≠ .ended → s.lost = []) ∧
    s.dropped = UInt64.ofNat s.counted.length ∧
    (s.launch k).stderrTail = (stream (linesOf k s.forwarded)).rtake stderrTailBytes := by
  have hs := accounted h
  refine ⟨?_, hs.decided k, hs.kept, hs.counted k, ?_, hs.lost, hs.dropped, hs.tail k⟩
  · have written : s.written.Sublist (linesThat true s.decided) := by
      rw [hs.kept, List.append_assoc, List.append_assoc]
      exact List.sublist_append_left _ _
    have decided : (linesThat true s.decided).Sublist (s.decided.map Prod.fst) :=
      List.filter_sublist.map _
    rw [hs.decided k]
    exact (linesOf_sublist k (written.trans decided)).trans (List.sublist_append_left _ _)
  · have kept := congrArg (fun lines => (linesOf k lines).length) hs.kept
    simp only [linesOf_append, List.length_append] at kept ⊢
    rw [hs.decided k, List.length_append, length_linesThat, kept, hs.counted k]
    omega

/-! ### The reports of dropped lines -/

/-- A report that is stamped but not printed. -/
def Writer.unprinted : Writer κ → List UInt64
  | .reporting total => [total]
  | .receiving | .writing _ | .loading | .comparing _ | .stamping _ | .ended => []

/-- A total that the writer has read and may report. -/
def Writer.Fresh (counted lastReport now : ℕ) (reportedDrops : UInt64) : Writer κ → Prop
  | .comparing total => total.toNat ≤ counted
  | .stamping total =>
    total.toNat ≤ counted ∧ reportedDrops < total ∧ lastReport + second ≤ now
  | .receiving | .writing _ | .loading | .reporting _ | .ended => True

/-- Reports rise, none says more than was counted, and each has a second of its own. -/
structure State.Paced (start : ℕ) (s : State κ ι) : Prop where
  rising : (s.reports ++ s.writer.unprinted).Pairwise (· < ·)
  reported : ∀ total ∈ s.reports ++ s.writer.unprinted, total ≤ s.reportedDrops
  true_ : s.reportedDrops.toNat ≤ s.counted.length
  fresh : s.writer.Fresh s.counted.length s.lastReport s.now s.reportedDrops
  paced : start + (s.reports ++ s.writer.unprinted).length * second ≤ s.lastReport
  past : s.lastReport ≤ s.now

omit [DecidableEq κ] in
theorem Writer.Fresh.mono {counted counted' lastReport now now' : ℕ} {reportedDrops : UInt64}
    {writer : Writer κ} (h : writer.Fresh counted lastReport now reportedDrops)
    (more : counted ≤ counted') (later : now ≤ now') :
    writer.Fresh counted' lastReport now' reportedDrops := by
  cases writer with
  | comparing total => exact h.trans more
  | stamping total => exact ⟨h.1.trans more, h.2.1, h.2.2.trans later⟩
  | receiving | writing | loading | reporting | ended => trivial

theorem Step.paced {start : ℕ} (h : Step s () t) (accounted : s.Accounted) (hs : s.Paced start) :
    t.Paced start := by
  cases h with
  | tick elapsed =>
    exact { hs with
      fresh := hs.fresh.mono le_rfl (Nat.le_add_right ..)
      past := hs.past.trans (Nat.le_add_right ..) }
  | forward | send | full => exact { hs with }
  | count =>
    exact { hs with
      true_ := hs.true_.trans (by simp)
      fresh := hs.fresh.mono (by simp) le_rfl }
  | receive h | write h =>
    obtain ⟨rising, reported, true_, -, paced, past⟩ := hs
    rw [h] at rising reported paced
    exact ⟨rising, reported, true_, trivial, paced, past⟩
  | load h =>
    obtain ⟨rising, reported, true_, -, paced, past⟩ := hs
    rw [h] at rising reported paced
    refine ⟨rising, reported, true_, ?_, paced, past⟩
    simpa [Writer.Fresh, accounted.dropped] using Nat.mod_le _ _
  | quiet h =>
    obtain ⟨rising, reported, true_, -, paced, past⟩ := hs
    rw [h] at rising reported paced
    exact ⟨rising, reported, true_, trivial, paced, past⟩
  | due h more late =>
    obtain ⟨rising, reported, true_, fresh, paced, past⟩ := hs
    rw [h] at rising reported paced fresh
    have gap : s.lastReport + second ≤ s.now := by omega
    exact ⟨rising, reported, true_, ⟨fresh, more, gap⟩, paced, past⟩
  | @stamp total h =>
    obtain ⟨rising, reported, true_, fresh, paced, past⟩ := hs
    rw [h] at rising reported paced fresh
    simp only [Writer.unprinted, List.append_nil] at rising reported paced
    obtain ⟨counted, more, late⟩ := fresh
    have below : ∀ r ∈ s.reports, r < total := fun r hr =>
      UInt64.lt_of_le_of_lt (reported r hr) more
    refine ⟨?_, ?_, counted, trivial, ?_, le_rfl⟩
    · change (s.reports ++ [total]).Pairwise (· < ·)
      exact List.pairwise_append.mpr ⟨rising, List.pairwise_singleton _ _, by simpa using below⟩
    · change ∀ r ∈ s.reports ++ [total], r ≤ total
      intro r hr
      rcases List.mem_append.mp hr with before | now
      · exact UInt64.le_of_lt (below r before)
      · rw [List.mem_singleton.mp now]
        exact UInt64.le_refl _
    · change start + (s.reports ++ [total]).length * second ≤ s.now
      rw [List.length_append, List.length_singleton, Nat.succ_mul]
      omega
  | report h =>
    obtain ⟨rising, reported, true_, -, paced, past⟩ := hs
    rw [h] at rising reported paced
    exact ⟨by simpa [Writer.unprinted] using rising, by simpa [Writer.unprinted] using reported,
      true_, trivial, by simpa [Writer.unprinted] using paced, past⟩
  | ends h =>
    obtain ⟨rising, reported, true_, -, paced, past⟩ := hs
    have kept : s.reports.Sublist (s.reports ++ s.writer.unprinted) := List.sublist_append_left _ _
    refine ⟨?_, fun r hr => reported r (kept.subset (by simpa [Writer.unprinted] using hr)), true_,
      trivial, le_trans ?_ paced, past⟩
    · simpa [Writer.unprinted] using rising.sublist kept
    · simpa [Writer.unprinted] using Nat.mul_le_mul_right second (Nat.le_add_right _ _)

theorem paced {start : ℕ} (h : (system κ ι start).Reachable s) : s.Paced start := by
  refine h.invariant (I := State.Paced start) ?_ fun _ _ _ reachable hs step =>
    Step.paced step (accounted reachable) hs
  rintro s ⟨launch, -, rfl⟩
  exact ⟨.nil, nofun, le_rfl, trivial, by simp [Writer.unprinted], le_rfl⟩

theorem length_linesOf (k : κ) (lines : List (κ × List UInt8)) :
    (linesOf k lines).length = (lines.map Prod.fst).count k := by
  induction lines with
  | nil => rfl
  | cons line lines ih =>
    by_cases same : line.1 = k <;> simp_all [linesOf]

/-- No line is counted that was not dropped. -/
theorem State.Accounted.counted_le (hs : s.Accounted) :
    s.counted.length ≤ (linesThat false s.decided).length := by
  have some_ : s.counted.Subperm ((linesThat false s.decided).map Prod.fst) := by
    refine List.subperm_ext_iff.mpr fun k _ => ?_
    rw [← length_linesOf, hs.counted k]
    exact Nat.le_add_right ..
  simpa using some_.length_le

/-- Operators see at most one report for each second that the sink has been there, each says more
than the one before, and none says more than has been dropped. -/
theorem reports_paced {start : ℕ} (h : (system κ ι start).Reachable s) :
    s.reports.Pairwise (· < ·) ∧
    (∀ total ∈ s.reports, total.toNat ≤ (linesThat false s.decided).length) ∧
    s.reports.length * second ≤ s.now - start := by
  have hs := paced h
  have kept : s.reports.Sublist (s.reports ++ s.writer.unprinted) := List.sublist_append_left _ _
  refine ⟨hs.rising.sublist kept, fun total member => ?_, ?_⟩
  · calc total.toNat
        ≤ s.reportedDrops.toNat := hs.reported total (kept.subset member)
      _ ≤ s.counted.length := hs.true_
      _ ≤ (linesThat false s.decided).length := (accounted h).counted_le
  · have seconds := Nat.mul_le_mul_right second kept.length_le
    have paced := hs.paced
    have past := hs.past
    omega

end Runs

/-! ### A flood -/

/-- One launch, and a writer that does not come to anything. -/
structure Flooded (n : ℕ) (s : State Unit Unit) : Prop where
  reachable : (system Unit Unit 0).Reachable s
  callback : s.callback () = .idle
  channel : s.channel.lines.length = n
  writer : s.writer = .receiving
  fresh : s.now = 0 ∧ s.lastReport = 0 ∧ s.dropped = 0 ∧ s.reportedDrops = 0 ∧ s.reports = []

theorem exists_flooded {n : ℕ} (room : n ≤ capacity) : ∃ s, Flooded n s := by
  induction n with
  | zero => exact ⟨_, .init ⟨fun _ => .new 1 first_pos, fun _ => rfl, rfl⟩, rfl, rfl, rfl,
      rfl, rfl, rfl, rfl, rfl⟩
  | succ n ih =>
    obtain ⟨s, flooded⟩ := ih (Nat.le_of_succ_le room)
    have forwarded := flooded.reachable.step (.forward flooded.callback [])
    have space : s.channel.lines.length < capacity := by
      rw [flooded.channel]
      exact room
    have alive : s.writer ≠ .ended := by simp [flooded.writer]
    have sent := forwarded.step (.send (k := ()) rfl alive (dif_pos space))
    exact ⟨_, sent, rfl, by simp [flooded.channel], flooded.writer, flooded.fresh⟩

/-- Every line of a flood that fits is there, and the next one is dropped. -/
theorem flood_accounted : ∃ s : State Unit Unit, s.channel.lines.length = capacity ∧
    s.dropped = 1 ∧ s.dropped = UInt64.ofNat s.counted.length := by
  obtain ⟨s, flooded⟩ := exists_flooded le_rfl
  have full : s.channel.trySend ((), []) = none := dif_neg (by simp [flooded.channel])
  have h1 := flooded.reachable.step (.forward flooded.callback [])
  have h2 := h1.step (.full (k := ()) rfl (.inr full))
  have h3 := h2.step (.count (k := ()) rfl)
  refine ⟨_, ?_, ?_, (lines_accounted h3 ()).2.2.2.2.2.2.1⟩
  · exact flooded.channel
  · simp [flooded.fresh]

/-- The line that does not fit is counted, and reported a second after the start. -/
theorem flood_reported : ∃ s : State Unit Unit, s.reports = [1] ∧ s.now = second ∧
    s.reports.length * second ≤ s.now - 0 := by
  obtain ⟨s, flooded⟩ := exists_flooded le_rfl
  obtain ⟨now, lastReport, dropped, reportedDrops, reports⟩ := flooded.fresh
  have full : s.channel.trySend ((), []) = none := dif_neg (by simp [flooded.channel])
  have there : s.channel.lines ≠ [] := by
    rw [← List.length_pos_iff, flooded.channel]
    decide
  obtain ⟨line, next, received⟩ := Channel.exists_recv there
  have h1 := flooded.reachable.step (.forward flooded.callback [])
  have h2 := h1.step (.full (k := ()) rfl (.inr full))
  have h3 := h2.step (.count (k := ()) rfl)
  have h4 := h3.step (.receive flooded.writer received)
  have h5 := (h4.step (.write rfl)).step (.tick second)
  have h6 := h5.step (.load rfl)
  have h7 := h6.step (.due rfl (by simp [dropped, reportedDrops]) (by simp [now, lastReport]))
  have h8 := (h7.step (.stamp rfl)).step (.report rfl)
  exact ⟨_, by simp [reports, dropped], by simp [now], (reports_paced h8).2.2⟩

end AcpAgent.Serve.Stderr
