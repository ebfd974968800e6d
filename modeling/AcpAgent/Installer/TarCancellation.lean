import AcpAgent.Installer.Archive
import AcpAgent.Lib.Schedule

/-! `extract_tar` over a `CancellableReader`, read by read, and the cleanup task of
`CancellableExtraction` that waits for it. -/

namespace AcpAgent.Installer

/-- An `unpack_in` that does nothing. -/
def UnpackIn.idle : UnpackIn where
  actions _ := []
  succeeds _ := true
  bytes_le _ := Nat.zero_le _
  files_le _ := Nat.zero_le _
  entries_eq _ := rfl

/-! ### Reading -/

/-- What a read returns; it gives no bytes where the stream ends. -/
inductive Response
  | gives (bytes : ℕ)
  | interrupted
  | fails
  deriving DecidableEq

/-- `CancellableReader::read`. -/
def cancellableRead (cancel : Bool) (inner : Response) : Response :=
  if cancel then .interrupted else inner

/-- What the crate does with a member of the archive. -/
inductive Use
  /-- A long name, a long link name or a pax record, which it reads whole. -/
  | extension
  /-- An entry, of whose body `unpack_in` copies that many bytes. -/
  | entry (entry : TarEntry) (copied : ℕ)
  /-- A header that it refuses. -/
  | malformed

structure Member where
  header : ℕ
  body : ℕ
  padding : ℕ
  use : Use

/-- Where the extraction is; `skip` is what of a member is not read before the next header. -/
inductive Control
  /-- In `Entries::next`, with so many bytes to skip or of a header to read. -/
  | next (missing : ℕ)
  /-- In `read_to_end` of an extension. -/
  | extension (missing skip : ℕ)
  /-- At the head of the loop. -/
  | check (entry : Option TarEntry) (copied skip : ℕ)
  /-- In `std::io::copy` of a body. -/
  | body (missing skip : ℕ)
  | returned

structure Extraction where
  control : Control
  /-- The members whose headers have not been read. -/
  members : List Member
  counters : TarState
  cancel : Bool

/-- The two blocks that end an archive, behind its members. -/
def headerSize : List Member → ℕ
  | [] => 1024
  | member :: _ => member.header

namespace Extraction

def start (members : List Member) : Extraction :=
  ⟨.next (headerSize members), members, .empty, false⟩

/-- `Entries::next` goes on behind a body. -/
def toNext (s : Extraction) (skip : ℕ) : Extraction :=
  { s with control := .next (skip + headerSize s.members) }

def ret (s : Extraction) : Extraction := { s with control := .returned }

/-- A header has been read. -/
def onHeader (s : Extraction) : Extraction :=
  match s.members with
  | [] => s.ret
  | member :: members =>
    let s := { s with members }
    match member.use with
    | .extension =>
      if member.body = 0 then s.toNext member.padding
      else { s with control := .extension member.body member.padding }
    | .entry entry copied =>
      { s with control := .check (some entry) copied (member.body - copied + member.padding) }
    | .malformed => { s with control := .check none 0 0 }

/-- A read has returned. -/
def onRead (s : Extraction) (response : Response) : Extraction :=
  match s.control, response with
  -- The crate reads these with `?`.
  | .next missing, .gives bytes =>
    if bytes = 0 then s.ret
    else if bytes < missing then { s with control := .next (missing - bytes) }
    else s.onHeader
  | .next _, _ => s.ret
  | .extension missing skip, .gives bytes =>
    if bytes = 0 then s.toNext (missing + skip)
    else if bytes < missing then { s with control := .extension (missing - bytes) skip }
    else s.toNext skip
  -- `read_to_end` and `std::io::copy` read again.
  | .extension _ _, .interrupted => s
  | .body _ _, .interrupted => s
  | .extension _ _, .fails => s.ret
  | .body missing skip, .gives bytes =>
    if bytes = 0 then s.ret
    else if bytes < missing then { s with control := .body (missing - bytes) skip }
    else s.toNext skip
  | .body _ _, .fails => s.ret
  | .check _ _ _, _ => s
  | .returned, _ => s

/-- The head of the loop; its checks are those of `extract_tar`, and `unpack_in` is what follows. -/
def onCheck (limits : ArchiveLimits) (s : Extraction) (entry : Option TarEntry) (copied skip : ℕ) :
    Extraction :=
  if s.cancel then s.ret
  else
    match (extractTarEntry .idle limits s.counters entry).result with
    | .error _ => s.ret
    | .ok counters =>
      let s := { s with counters }
      if copied = 0 then s.toNext skip else { s with control := .body copied skip }

/-- One read, or one pass of the head of the loop. -/
def step (limits : ArchiveLimits) (inner : Response) (s : Extraction) : Extraction :=
  match s.control with
  | .check entry copied skip => s.onCheck limits entry copied skip
  | _ => s.onRead (cancellableRead s.cancel inner)

/-- The extraction after so many steps, if nobody cancels it. -/
def after (limits : ArchiveLimits) (members : List Member) (inner : ℕ → Response) : ℕ → Extraction
  | 0 => start members
  | n + 1 => (after limits members inner n).step limits (inner n)

end Extraction

/-! ### The cleanup task -/

/-- Where the task is that `CancellableExtraction::drop` spawns. -/
inductive Cleanup
  | awaiting
  | removing
  | releasing
  | ended

inductive Thread
  | extraction
  | task

/-- A dropped extraction; `staging` is there and `lock` is held. -/
structure Dropped where
  extraction : Extraction
  task : Cleanup
  staging : Bool
  lock : Bool

/-- `CancellableExtraction::drop`. -/
def Extraction.drop (s : Extraction) : Dropped := ⟨{ s with cancel := true }, .awaiting, true, true⟩

namespace Dropped

/-- One await of the task, which ends when it can; the removal of a blocking task that fails comes
before the task's own and leaves nothing for it to do. -/
def stepTask (d : Dropped) : Dropped :=
  match d.task with
  | .awaiting =>
    match d.extraction.control with
    | .returned => { d with task := .removing }
    | _ => d
  | .removing => { d with staging := false, task := .releasing }
  | .releasing => { d with lock := false, task := .ended }
  | .ended => d

def step (limits : ArchiveLimits) (inner : ℕ → Response) (n : ℕ) (thread : Thread) (d : Dropped) :
    Dropped :=
  match thread with
  | .extraction => { d with extraction := d.extraction.step limits (inner n) }
  | .task => d.stepTask

/-- The extraction has returned, the staging directory is gone and the lock is free. -/
structure CleanedUp (d : Dropped) : Prop where
  returned : d.extraction.control = .returned
  staging : d.staging = false
  lock : d.lock = false

end Dropped

/-! ### Whether the extraction returns -/

/-- Inside a loop that reads again, with bytes still to come. -/
def Control.Retrying : Control → Prop
  | .extension missing _ | .body missing _ => 0 < missing
  | .next _ | .check _ _ _ | .returned => False

instance : DecidablePred Control.Retrying
  | .extension missing _ | .body missing _ => inferInstanceAs (Decidable (0 < missing))
  | .next _ | .check _ _ _ | .returned => inferInstanceAs (Decidable False)

/-- Inside a loop that reads again. -/
def Control.Looping : Control → Prop
  | .extension _ _ | .body _ _ => True
  | .next _ | .check _ _ _ | .returned => False

theorem Control.Retrying.looping {control : Control} (h : control.Retrying) : control.Looping := by
  cases control with
  | extension | body => trivial
  | next | check | returned => exact h.elim

/-- A loop is left when its bytes have come. -/
def Control.Proper (control : Control) : Prop := control.Looping → control.Retrying

namespace Extraction

variable {limits : ArchiveLimits} {s : Extraction} {inner : Response}

theorem proper_next (s : Extraction) (skip : ℕ) : (s.toNext skip).control.Proper := fun h => h.elim

theorem proper_ret (s : Extraction) : s.ret.control.Proper := fun h => h.elim

theorem proper_header (s : Extraction) : s.onHeader.control.Proper := by
  unfold onHeader
  split
  · exact proper_ret s
  · next member members _ =>
    dsimp only
    split
    · split_ifs with empty
      · exact proper_next _ _
      · exact fun _ => Nat.pos_of_ne_zero empty
    · exact fun h => h.elim
    · exact fun h => h.elim

theorem proper_read (h : s.control.Proper) (response : Response) :
    (s.onRead response).control.Proper := by
  unfold onRead
  split
  · split_ifs
    · exact proper_ret s
    · exact fun h => h.elim
    · exact proper_header s
  · exact proper_ret s
  · split_ifs with ended more
    · exact proper_next s _
    · exact fun _ => Nat.sub_pos_of_lt more
    · exact proper_next s _
  · exact h
  · exact h
  · exact proper_ret s
  · split_ifs with ended more
    · exact proper_ret s
    · exact fun _ => Nat.sub_pos_of_lt more
    · exact proper_next s _
  · exact proper_ret s
  · exact h
  · exact h

theorem proper_check (s : Extraction) (entry : Option TarEntry) (copied skip : ℕ) :
    (s.onCheck limits entry copied skip).control.Proper := by
  unfold onCheck
  split_ifs with cancelled empty
  · exact proper_ret s
  · split
    · exact proper_ret s
    · exact proper_next _ _
  · split
    · exact proper_ret s
    · exact fun _ => Nat.pos_of_ne_zero empty

theorem proper_step (h : s.control.Proper) : (s.step limits inner).control.Proper := by
  unfold step
  split
  · exact proper_check s _ _ _
  · exact proper_read h _

theorem proper_after (limits : ArchiveLimits) (members : List Member) (inner : ℕ → Response)
    (n : ℕ) : (after limits members inner n).control.Proper := by
  induction n with
  | zero => exact fun h => h.elim
  | succ n ih => exact proper_step ih

/-- What `extract_tar` is given of the members. -/
def entriesOf : List Member → List (Option TarEntry)
  | [] => []
  | member :: members =>
    match member.use with
    | .extension => entriesOf members
    | .entry entry _ => some entry :: entriesOf members
    | .malformed => none :: entriesOf members

/-- The entries that have not passed the checks. -/
def unchecked (s : Extraction) : List (Option TarEntry) :=
  match s.control with
  | .check entry _ _ => entry :: entriesOf s.members
  | _ => entriesOf s.members

/-- What the checks of all entries left will say. -/
def verdict (limits : ArchiveLimits) (s : Extraction) : Except ArchiveError Unit :=
  (extractTarEntries .idle limits s.counters s.unchecked).result

theorem unchecked_header (s : Extraction) (going : s.onHeader.control ≠ .returned) :
    s.onHeader.unchecked = entriesOf s.members ∧ s.onHeader.counters = s.counters := by
  unfold onHeader at going ⊢
  split at going
  · exact absurd rfl going
  · next member members hmembers =>
    rw [hmembers, entriesOf]
    cases member.use with
    | extension =>
      dsimp only
      split_ifs <;> exact ⟨rfl, rfl⟩
    | entry entry copied => exact ⟨rfl, rfl⟩
    | malformed => exact ⟨rfl, rfl⟩

theorem unchecked_reading (reading : ∀ entry copied skip, s.control ≠ .check entry copied skip) :
    s.unchecked = entriesOf s.members := by
  unfold unchecked
  split
  · next entry copied skip control => exact absurd control (reading entry copied skip)
  · rfl

theorem unchecked_read (reading : ∀ entry copied skip, s.control ≠ .check entry copied skip)
    (response : Response) (going : (s.onRead response).control ≠ .returned) :
    (s.onRead response).unchecked = s.unchecked ∧ (s.onRead response).counters = s.counters := by
  rw [unchecked_reading reading]
  unfold onRead at going ⊢
  split at going
  · split_ifs at going ⊢ with ended more
    · exact absurd rfl going
    · exact ⟨rfl, rfl⟩
    · exact unchecked_header s going
  · exact absurd rfl going
  · split_ifs at going ⊢ with ended more
    · exact ⟨rfl, rfl⟩
    · exact ⟨rfl, rfl⟩
    · exact ⟨rfl, rfl⟩
  · exact ⟨unchecked_reading reading, rfl⟩
  · exact ⟨unchecked_reading reading, rfl⟩
  · exact absurd rfl going
  · split_ifs at going ⊢ with ended more
    · exact absurd rfl going
    · exact ⟨rfl, rfl⟩
    · exact ⟨rfl, rfl⟩
  · exact absurd rfl going
  · next control => exact absurd control (reading _ _ _)
  · next control => exact absurd control going

/-- A step that does not end the extraction changes nothing about what the checks will say. -/
theorem verdict_step (uncancelled : s.cancel = false)
    (going : (s.step limits inner).control ≠ .returned) :
    (s.step limits inner).verdict limits = s.verdict limits := by
  unfold step at going ⊢
  split at going
  · next entry copied skip control =>
    have entries : s.unchecked = entry :: entriesOf s.members := by rw [unchecked, control]
    have passes : ∀ counters,
        (extractTarEntry .idle limits s.counters entry).result = .ok counters →
        s.verdict limits =
          (extractTarEntries .idle limits counters (entriesOf s.members)).result := by
      intro counters passed
      rw [verdict, entries, extractTarEntries, Logged.bind_result passed]
    unfold onCheck at going ⊢
    rw [uncancelled, if_neg Bool.false_ne_true] at going ⊢
    split at going
    · exact absurd rfl going
    · next counters passed =>
      rw [passes counters passed]
      dsimp only
      split_ifs <;> rfl
  · next reading =>
    obtain ⟨same, counters⟩ :=
      unchecked_read (fun entry copied skip => reading entry copied skip) _ going
    rw [verdict, verdict, same, counters]

theorem cancel_header (s : Extraction) : s.onHeader.cancel = s.cancel := by
  unfold onHeader
  split
  · rfl
  · next member members _ =>
    cases member.use with
    | extension =>
      dsimp only
      split_ifs <;> rfl
    | entry | malformed => rfl

theorem cancel_read (s : Extraction) (response : Response) :
    (s.onRead response).cancel = s.cancel := by
  unfold onRead
  split
  · split_ifs
    · rfl
    · rfl
    · exact cancel_header s
  · rfl
  · split_ifs <;> rfl
  · rfl
  · rfl
  · rfl
  · split_ifs <;> rfl
  · rfl
  · rfl
  · rfl

/-- Only `drop` sets the flag. -/
theorem cancel_step (s : Extraction) : (s.step limits inner).cancel = s.cancel := by
  unfold step
  split
  · next entry copied skip _ =>
    unfold onCheck
    split_ifs
    · rfl
    · split <;> rfl
    · split <;> rfl
  · exact cancel_read s _

theorem step_returned (h : s.control = .returned) : s.step limits inner = s := by
  obtain ⟨control, members, counters, cancel⟩ := s
  obtain rfl : control = .returned := h
  rfl

/-- What the checks will say stays what `extract_tar` says of all entries. -/
theorem verdict_after {members : List Member} {reads : ℕ → Response} (n : ℕ) :
    (after limits members reads n).cancel = false ∧
      ((after limits members reads n).control ≠ .returned →
        (after limits members reads n).verdict limits =
          (extractTarEntries .idle limits .empty (entriesOf members)).result) := by
  induction n with
  | zero => exact ⟨rfl, fun _ => rfl⟩
  | succ n ih =>
    obtain ⟨uncancelled, same⟩ := ih
    refine ⟨(cancel_step _).trans uncancelled, fun going => ?_⟩
    have before : (after limits members reads n).control ≠ .returned := by
      intro returned
      rw [after, step_returned returned] at going
      exact going returned
    rw [after, verdict_step uncancelled going, same before]

/-- An extraction that nobody cancels and that gets behind the last member has passed all checks of
`extract_tar`. -/
theorem checked_of_end {members : List Member} {reads : ℕ → Response} {n missing : ℕ}
    (control : (after limits members reads n).control = .next missing)
    (last : (after limits members reads n).members = []) :
    (extractTarEntries .idle limits .empty (entriesOf members)).result = .ok () := by
  have going : (after limits members reads n).control ≠ .returned := by
    rw [control]
    exact Control.noConfusion
  rw [← (verdict_after n).2 going, verdict, unchecked, control]
  dsimp only
  rw [last]
  rfl

/-- A loop goes on once the flag is set. -/
theorem step_looping (cancelled : s.cancel = true) (h : s.control.Looping) :
    s.step limits inner = s := by
  obtain ⟨control, members, counters, cancel⟩ := s
  obtain rfl : cancel = true := cancelled
  cases control with
  | extension | body => rfl
  | next | check | returned => exact h.elim

/-- Everything else ends the extraction. -/
theorem step_leaving (cancelled : s.cancel = true) (h : ¬s.control.Looping) :
    s.step limits inner = s.ret := by
  obtain ⟨control, members, counters, cancel⟩ := s
  obtain rfl : cancel = true := cancelled
  cases control with
  | extension | body => exact absurd trivial h
  | next | check | returned => rfl

end Extraction

namespace Dropped

variable {limits : ArchiveLimits} {inner : ℕ → Response} {d : Dropped}

theorem stepTask_extraction (d : Dropped) : d.stepTask.extraction = d.extraction := by
  unfold stepTask
  split
  · split <;> rfl
  · rfl
  · rfl
  · rfl

/-- The extraction reads again and again. -/
structure Spinning (d : Dropped) : Prop where
  cancel : d.extraction.cancel = true
  looping : d.extraction.control.Looping

theorem Spinning.step (h : d.Spinning) (n : ℕ) (thread : Thread) :
    (d.step limits inner n thread).Spinning := by
  cases thread with
  | extraction =>
    have same : d.extraction.step limits (inner n) = d.extraction :=
      Extraction.step_looping h.cancel h.looping
    exact ⟨by rw [Dropped.step, same]; exact h.cancel, by rw [Dropped.step, same]; exact h.looping⟩
  | task =>
    have same := stepTask_extraction d
    exact ⟨by rw [Dropped.step, same]; exact h.cancel, by rw [Dropped.step, same]; exact h.looping⟩

/-- What the task has done behind the extraction. -/
def Settled (d : Dropped) : Prop :=
  match d.task with
  | .awaiting => True
  | .removing => d.extraction.control = .returned
  | .releasing => d.extraction.control = .returned ∧ d.staging = false
  | .ended => d.CleanedUp

/-- The extraction is about to return, or has. -/
structure Leaving (d : Dropped) : Prop where
  cancel : d.extraction.cancel = true
  leaves : ¬d.extraction.control.Looping
  settled : d.Settled

theorem Leaving.extraction (h : d.Leaving) (n : ℕ) :
    d.step limits inner n .extraction = { d with extraction := d.extraction.ret } := by
  rw [Dropped.step, Extraction.step_leaving h.cancel h.leaves]

theorem Leaving.step (n : ℕ) (thread : Thread) (h : d.Leaving) :
    (d.step limits inner n thread).Leaving := by
  obtain ⟨extraction, task, staging, lock⟩ := d
  cases thread with
  | extraction =>
    rw [h.extraction n]
    refine ⟨h.cancel, id, ?_⟩
    have settled := h.settled
    cases task with
    | awaiting => trivial
    | removing => rfl
    | releasing => exact ⟨rfl, settled.2⟩
    | ended => exact ⟨rfl, settled.staging, settled.lock⟩
  | task =>
    obtain ⟨cancel, leaves, settled⟩ := h
    cases task with
    | awaiting =>
      rw [Dropped.step, stepTask]
      dsimp only
      split
      · next returned => exact ⟨cancel, leaves, returned⟩
      · exact ⟨cancel, leaves, trivial⟩
    | removing => exact ⟨cancel, leaves, settled, rfl⟩
    | releasing => exact ⟨cancel, leaves, settled.1, settled.2, rfl⟩
    | ended => exact ⟨cancel, leaves, settled⟩

/-- Who has something to do. -/
def mover (d : Dropped) : Thread :=
  match d.extraction.control with
  | .returned => .task
  | _ => .extraction

def stepsLeft : Cleanup → ℕ
  | .awaiting => 3
  | .removing => 2
  | .releasing => 1
  | .ended => 0

/-- How many steps are left. -/
def distance (d : Dropped) : ℕ :=
  match d.mover with
  | .extraction => 1 + stepsLeft d.task
  | .task => stepsLeft d.task

theorem mover_returned (h : d.extraction.control = .returned) : d.mover = .task := by
  rw [mover, h]

theorem mover_running (h : d.extraction.control ≠ .returned) : d.mover = .extraction := by
  unfold mover
  split
  · next returned => exact absurd returned h
  · rfl

theorem Leaving.moves (n : ℕ) (d : Dropped) (h : d.Leaving) (unfinished : ¬d.CleanedUp) :
    (d.step limits inner n d.mover).distance < d.distance := by
  by_cases returned : d.extraction.control = .returned
  · obtain ⟨⟨control, members, counters, cancel⟩, task, staging, lock⟩ := d
    obtain rfl : control = .returned := returned
    cases task with
    | awaiting | removing | releasing => exact Nat.lt_succ_self _
    | ended => exact absurd h.settled unfinished
  · have after : { d with extraction := d.extraction.ret }.mover = .task := mover_returned rfl
    rw [mover_running returned, h.extraction n, distance, distance, after, mover_running returned]
    exact Nat.lt_add_of_pos_left Nat.zero_lt_one

theorem Leaving.others (n : ℕ) (thread : Thread) (d : Dropped) (h : d.Leaving)
    (other : thread ≠ d.mover) : d.step limits inner n thread = d := by
  by_cases returned : d.extraction.control = .returned
  · rw [mover_returned returned] at other
    cases thread with
    | task => exact absurd rfl other
    | extraction =>
      rw [h.extraction n, Extraction.ret, ← returned]
  · rw [mover_running returned] at other
    cases thread with
    | extraction => exact absurd rfl other
    | task =>
      obtain ⟨extraction, task, staging, lock⟩ := d
      cases task with
      | awaiting =>
        rw [Dropped.step, stepTask]
        dsimp only
        split
        · next control => exact absurd control returned
        · rfl
      | removing => exact absurd h.settled returned
      | releasing => exact absurd h.settled.1 returned
      | ended => exact absurd h.settled.returned returned

end Dropped

/-! ### Cancellation -/

section Cancelling

variable {limits : ArchiveLimits} {inner : ℕ → Response} {s : Extraction}

theorem not_cleanedUp (h : s.control.Retrying) (schedule : Schedule Thread) (n : ℕ) :
    ¬(schedule.run (Dropped.step limits inner) s.drop n).CleanedUp := by
  intro cleaned
  have spinning : s.drop.Spinning := ⟨rfl, h.looping⟩
  have still : (schedule.run (Dropped.step limits inner) s.drop n).Spinning :=
    Schedule.run_invariant (fun n thread d h => h.step n thread) spinning n
  have looping := still.looping
  rw [cleaned.returned] at looping
  exact looping

theorem cleanedUp (proper : s.control.Proper) (h : ¬s.control.Retrying)
    (schedule : Schedule Thread) :
    ∃ n, (schedule.run (Dropped.step limits inner) s.drop n).CleanedUp := by
  have leaving : s.drop.Leaving := ⟨rfl, fun looping => h (proper looping), trivial⟩
  exact Schedule.reaches (fun n thread d h => h.step n thread) Dropped.Leaving.moves
    (fun n thread d h _ => h.others n thread d) leaving

end Cancelling

/-- Whatever the archive holds, whatever its reads return and whenever the future is dropped, the
cleanup is done after finitely many steps exactly unless `std::io::copy` or `read_to_end` still has
bytes to read then. -/
theorem cleans_up_iff (limits : ArchiveLimits) (members : List Member) (inner : ℕ → Response)
    (moment : ℕ) (schedule : Schedule Thread) :
    (∃ n, (schedule.run (Dropped.step limits fun n => inner (moment + n))
      (Extraction.after limits members inner moment).drop n).CleanedUp) ↔
      ¬(Extraction.after limits members inner moment).control.Retrying :=
  ⟨fun ⟨n, cleaned⟩ retrying => not_cleanedUp retrying schedule n cleaned,
    fun h => cleanedUp (Extraction.proper_after limits members inner moment) h schedule⟩

/-- The extraction and the task take turns. -/
def alternating : Schedule Thread where
  turn n := if n % 2 = 0 then .extraction else .task
  fair thread n := by
    cases thread with
    | extraction => exact ⟨2 * n, by omega, if_pos (by omega)⟩
    | task => exact ⟨2 * n + 1, by omega, if_neg (by omega)⟩

/-- The file `a`, of two bytes. -/
def oneFile : List Member := [⟨512, 2, 510, .entry ⟨[97], none, 2, false, 0⟩ 2⟩]

/-- The header comes at once and the body byte by byte. -/
def byteByByte (n : ℕ) : Response := .gives (if n = 0 then 512 else 1)

/-- The future is dropped after the first byte of the body. -/
theorem cancelled_body_spins :
    ¬∀ (limits : ArchiveLimits) (members : List Member) (inner : ℕ → Response) (moment : ℕ)
      (schedule : Schedule Thread),
      ∃ n, (schedule.run (Dropped.step limits fun n => inner (moment + n))
        (Extraction.after limits members inner moment).drop n).CleanedUp := by
  intro claim
  obtain ⟨n, cleaned⟩ := claim ⟨1024, 10, 10⟩ oneFile byteByByte 3 alternating
  have inside : (Extraction.after ⟨1024, 10, 10⟩ oneFile byteByByte 3).control.Retrying := by
    decide +kernel
  exact not_cleanedUp inside alternating n cleaned

end AcpAgent.Installer
