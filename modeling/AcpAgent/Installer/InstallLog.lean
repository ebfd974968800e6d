import AcpAgent.Installer.Digest
import AcpAgent.Lib.Suffix
import AcpAgent.Lib.Transition

/-! The install log of `installer/binary/log.rs`: what `append_install_log_inner` makes of the file,
and the calls of several processes that take the lock file in turn. -/

namespace AcpAgent.Installer.InstallLog

open Suffix

/-- `INSTALL_LOG_MAX_BYTES`. -/
def maxBytes : ℕ := 1024 * 1024

/-- `INSTALL_LOG_TAIL_BYTES`. -/
def tailBytes : ℕ := 256 * 1024

def newline : UInt8 := 10

/-- The line that takes the place of what is cut off. -/
def marker : Bytes :=
  Str.bytes (str "[install log truncated; keeping the last " ++ Nat.toDigits 10 tailBytes ++
    str " bytes]\n")

/-- What `truncate_install_log` writes: the last bytes, drained up to their first newline. -/
def truncated (bytes : Bytes) : Bytes :=
  marker ++ dropLine newline (bytes.drop (bytes.length - tailBytes))

/-- What `append_install_log_inner` leaves in the log. -/
def append (log line : Bytes) : Bytes :=
  if log.length + line.length > maxBytes then truncated log ++ line else log ++ line

/-- The log after these texts. -/
def run (texts : List Bytes) : Bytes := texts.foldl append []

@[simp] theorem run_concat (texts : List Bytes) (line : Bytes) :
    run (texts ++ [line]) = append (run texts) line := by
  rw [run, List.foldl_append]
  rfl

theorem truncated_eq (log : Bytes) :
    truncated log = marker ++ dropLine newline (log.rtake tailBytes) := by
  rw [truncated, List.rtake]

theorem marker_length : marker.length = 55 := by decide

/-- The marker is one line. -/
theorem marker_line : ∃ label, marker = label ++ [newline] ∧ newline ∉ label :=
  ⟨marker.dropLast, by decide, by decide⟩

/-! ### What the log has of the texts -/

/-- A suffix of what was written that starts where a line does, perhaps behind the marker. -/
def Keeps (log stream : Bytes) : Prop :=
  ∃ kept, (log = kept ∨ log = marker ++ kept) ∧ LineSuffix newline kept stream

section Keeps

variable {log stream : Bytes}

theorem Keeps.append (h : Keeps log stream) (more : Bytes) : Keeps (log ++ more) (stream ++ more) := by
  obtain ⟨kept, there, lines⟩ := h
  refine ⟨kept ++ more, ?_, lines.append more⟩
  rcases there with rfl | rfl
  · exact .inl rfl
  · exact .inr (by rw [List.append_assoc])

/-- Behind a part of the marker, nothing is cut. -/
theorem dropLine_marker {n : ℕ} (some_ : n ≠ 0) (kept : Bytes) :
    dropLine newline (marker.rtake n ++ kept) = kept := by
  obtain ⟨label, eq, clean⟩ := marker_line
  obtain ⟨n, rfl⟩ := Nat.exists_eq_add_one_of_ne_zero some_
  have still : newline ∉ label.rtake n := fun member => clean ((rtake_suffix n label).subset member)
  rw [eq, List.rtake_concat_succ, List.append_assoc, List.singleton_append, dropLine_append still]

/-- What is kept of the log is again a suffix of what was written, whether the cut is behind the
marker or inside of it. -/
theorem Keeps.dropLine (h : Keeps log stream) (whole : Terminated newline stream) :
    LineSuffix newline (dropLine newline (log.rtake tailBytes)) stream := by
  obtain ⟨kept, there, lines⟩ := h
  have terminated : Terminated newline kept := by
    obtain ⟨front, -, rfl⟩ := lines
    exact whole.of_append
  have cut : LineSuffix newline (Suffix.dropLine newline (kept.rtake tailBytes)) stream :=
    (LineSuffix.dropLine (rtake_suffix tailBytes kept) terminated).trans lines
  rcases there with rfl | rfl
  · exact cut
  · rcases le_or_gt tailBytes kept.length with long | short
    · rw [rtake_append_right long]
      exact cut
    · rw [rtake_append_left short.le, dropLine_marker (Nat.sub_ne_zero_of_lt short)]
      exact lines

theorem Keeps.truncated (h : Keeps log stream) (whole : Terminated newline stream) :
    Keeps (truncated log) stream :=
  ⟨_, .inr (truncated_eq log), h.dropLine whole⟩

/-- The log that a text is appended to has the texts before it. -/
theorem Keeps.base (h : Keeps log stream) (whole : Terminated newline stream) (line : Bytes) :
    ∃ base, InstallLog.append log line = base ++ line ∧ Keeps base stream := by
  unfold InstallLog.append
  split_ifs
  · exact ⟨_, rfl, h.truncated whole⟩
  · exact ⟨log, rfl, h⟩

theorem keeps_run {texts : List Bytes} (whole : ∀ text ∈ texts, Terminated newline text) :
    Keeps (run texts) texts.flatten := by
  induction texts using List.reverseRecOn with
  | nil => exact ⟨[], .inl rfl, .refl newline []⟩
  | append_singleton texts line ih =>
    have before : ∀ text ∈ texts, Terminated newline text := fun text ht =>
      whole text (List.mem_append_left _ ht)
    obtain ⟨base, eq, keeps⟩ := (ih before).base (.flatten before) line
    rw [run_concat, eq, List.flatten_append, List.flatten_singleton]
    exact keeps.append line

theorem suffix_append (log line : Bytes) : line <:+ append log line := by
  unfold append
  split_ifs
  · exact List.suffix_append ..
  · exact List.suffix_append ..

theorem suffix_run {texts : List Bytes} {last : Bytes} (h : last ∈ texts.getLast?) :
    last <:+ run texts := by
  obtain ⟨before, rfl⟩ := List.getLast?_eq_some_iff.mp h
  rw [run_concat]
  exact suffix_append ..

end Keeps

/-! ### The size of the log -/

section Size

theorem length_truncated (log : Bytes) :
    (truncated log).length =
      marker.length + (dropLine newline (log.rtake tailBytes)).length := by
  rw [truncated_eq, List.length_append]

theorem length_truncated_le (log : Bytes) : (truncated log).length ≤ marker.length + tailBytes := by
  have kept := length_dropLine_le newline (log.rtake tailBytes)
  rw [length_rtake] at kept
  rw [length_truncated]
  omega

/-- The text fits behind the log, or behind the marker and the lines that are kept: those behind the
first newline of the last 256 KiB. -/
def Fits (log line : Bytes) : Prop :=
  log.length + line.length ≤ maxBytes ∨
    marker.length + (dropLine newline (log.rtake tailBytes)).length + line.length ≤ maxBytes

theorem length_append_le_iff {log line : Bytes} :
    (append log line).length ≤ maxBytes ↔ Fits log line := by
  unfold append Fits
  split_ifs with full
  · rw [List.length_append, length_truncated]
    omega
  · rw [List.length_append]
    omega

theorem fits_of_length_le {log line : Bytes}
    (h : line.length ≤ maxBytes - tailBytes - marker.length) : Fits log line := by
  have kept := length_dropLine_le newline (log.rtake tailBytes)
  rw [length_rtake] at kept
  rw [marker_length] at h
  have room : 55 + tailBytes ≤ maxBytes := by decide
  refine .inr ?_
  rw [marker_length]
  omega

theorem length_run_le {texts : List Bytes}
    (h : ∀ text ∈ texts, text.length ≤ maxBytes - tailBytes - marker.length) :
    (run texts).length ≤ maxBytes := by
  rcases List.eq_nil_or_concat' texts with rfl | ⟨texts, line, rfl⟩
  · exact Nat.zero_le _
  · rw [run_concat, length_append_le_iff]
    exact fits_of_length_le (h line (by simp))

/-- Bytes that come one by one fill the log up to its cap. -/
theorem run_replicate (byte : UInt8) {n : ℕ} (h : n ≤ maxBytes) :
    run (List.replicate n [byte]) = List.replicate n byte := by
  induction n with
  | zero => rfl
  | succ n ih =>
    rw [List.replicate_succ', run_concat, ih (by omega), append, if_neg, ← List.replicate_succ']
    simp
    omega

/-- A text that is longer than the rotation leaves room for breaks the cap, if it comes to a full
log that has no newline in it. -/
theorem length_run_gt {bound : ℕ} (h : maxBytes - tailBytes - marker.length < bound) :
    maxBytes < (run (List.replicate maxBytes [0] ++ [List.replicate bound 0])).length := by
  have tail : (List.replicate maxBytes (0 : UInt8)).rtake tailBytes = List.replicate tailBytes 0 := by
    rw [List.rtake, List.drop_replicate, List.length_replicate]
    rfl
  have clean : newline ∉ List.replicate tailBytes (0 : UInt8) := by
    intro member
    exact absurd (List.eq_of_mem_replicate member) (by decide)
  rw [run_concat, run_replicate 0 le_rfl, append, if_pos (by simp; omega), truncated_eq, tail,
    dropLine_of_notMem clean]
  simp only [List.length_append, List.length_replicate]
  omega

/-- The log stays capped exactly if every text fits when it comes; and a bound on the length of the
texts caps the log exactly if it leaves room for the marker and the tail. -/
theorem run_capped_iff (texts : List Bytes) (bound : ℕ) :
    ((∀ done, done <+: texts → (run done).length ≤ maxBytes) ↔
      ∀ done line, done ++ [line] <+: texts → Fits (run done) line) ∧
    ((∀ texts : List Bytes, (∀ text ∈ texts, text.length ≤ bound) →
        (run texts).length ≤ maxBytes) ↔
      bound ≤ maxBytes - tailBytes - marker.length) := by
  refine ⟨⟨fun capped done line h => ?_, fun fits done h => ?_⟩, fun capped => ?_,
    fun small texts h => length_run_le fun text ht => (h text ht).trans small⟩
  · rw [← length_append_le_iff, ← run_concat]
    exact capped _ h
  · rcases List.eq_nil_or_concat' done with rfl | ⟨done, line, rfl⟩
    · exact Nat.zero_le _
    · rw [run_concat, length_append_le_iff]
      exact fits done line h
  · by_contra big
    rw [not_le] at big
    refine absurd (capped _ fun text ht => ?_) (Nat.not_le.mpr (length_run_gt big))
    rcases List.mem_append.mp ht with byte | last
    · rw [List.eq_of_mem_replicate byte, List.length_singleton]
      omega
    · rw [List.mem_singleton.mp last, List.length_replicate]

/-- One text alone may be too long. -/
theorem run_uncapped : maxBytes < (run [List.replicate (maxBytes + 1) 97]).length := by
  have long : ([] : Bytes).length + (List.replicate (maxBytes + 1) (97 : UInt8)).length >
      maxBytes := by
    rw [List.length_nil, List.length_replicate]
    omega
  rw [← List.nil_append [_], run_concat, run, List.foldl_nil, append, if_pos long,
    List.length_append, List.length_replicate]
  omega

end Size

/-! ### Processes that take turns -/

/-- Where a call of `append_install_log_inner` is. -/
inductive Caller
  | idle
  /-- At `lock_file.lock()`. -/
  | locking (line : Bytes)
  /-- Has the lock, and opens the log. -/
  | opening (line : Bytes)
  | measuring (line : Bytes)
  /-- In `truncate_install_log`. -/
  | reading (line : Bytes)
  | rewriting (line rewritten : Bytes)
  | replacing (line : Bytes)
  | reopening (line : Bytes)
  /-- In `write_all`, with so much written, to a log that was rotated for it or not. -/
  | writing (rotated : Bool) (done rest : Bytes)

/-- The call has the lock on the lock file, which lasts until it returns. -/
def Caller.Holds : Caller → Prop
  | .idle | .locking _ => False
  | _ => True

/-- The call has not changed the log yet. -/
def Caller.Early : Caller → Prop
  | .locking _ | .opening _ | .measuring _ | .reading _ | .rewriting .. | .replacing _ => True
  | _ => False

structure State (ι : Type*) where
  log : Option Bytes
  /-- `agent-install.log.tmp`. -/
  temp : Option Bytes
  caller : ι → Caller
  /-- The texts of the calls that have returned, in the order in which they did. -/
  appended : List Bytes

namespace State

variable {ι : Type*} (s : State ι)

/-- The bytes of the log; there are none before there is a file. -/
def content : Bytes := s.log.getD []

/-- What a call that is not done has written of its text. -/
def Written (part : Bytes) : Prop :=
  (∃ i rotated rest, s.caller i = .writing rotated part rest) ∨
    part = [] ∧ ∀ i rotated done rest, s.caller i ≠ .writing rotated done rest

/-- A call has rotated the log to make room for its text, and is not done. -/
def Rotated : Prop :=
  ∃ i, (∃ line, s.caller i = .reopening line) ∨ ∃ done rest, s.caller i = .writing true done rest

end State

section System

variable {ι : Type*} [DecidableEq ι] (allowed : Bytes → Prop)

/-- A step of one caller, for texts of some kind.  Up to the renaming, it may fail or be killed. -/
inductive Step : State ι → ι → State ι → Prop
  | call {s i line} (idle : s.caller i = .idle) (ok : allowed line) :
      Step s i { s with caller := Function.update s.caller i (.locking line) }
  | lock {s i line} (h : s.caller i = .locking line) (free : ∀ j, ¬(s.caller j).Holds) :
      Step s i { s with caller := Function.update s.caller i (.opening line) }
  | open_ {s i line} (h : s.caller i = .opening line) :
      Step s i { s with
        log := some s.content, caller := Function.update s.caller i (.measuring line) }
  | fits {s i line} (h : s.caller i = .measuring line)
      (room : ¬s.content.length + line.length > maxBytes) :
      Step s i { s with caller := Function.update s.caller i (.writing false [] line) }
  | full {s i line} (h : s.caller i = .measuring line)
      (exceeds : s.content.length + line.length > maxBytes) :
      Step s i { s with caller := Function.update s.caller i (.reading line) }
  | read {s i line} (h : s.caller i = .reading line) :
      Step s i
        { s with caller := Function.update s.caller i (.rewriting line (truncated s.content)) }
  | rewrite {s i line rewritten} (h : s.caller i = .rewriting line rewritten) :
      Step s i { s with
        temp := some rewritten, caller := Function.update s.caller i (.replacing line) }
  | rename {s i line} (h : s.caller i = .replacing line) (there : s.temp ≠ none) :
      Step s i { s with
        log := s.temp, temp := none, caller := Function.update s.caller i (.reopening line) }
  | reopen {s i line} (h : s.caller i = .reopening line) :
      Step s i { s with caller := Function.update s.caller i (.writing true [] line) }
  /-- One write of `write_all`. -/
  | write {s i rotated done rest} (chunk : Bytes)
      (h : s.caller i = .writing rotated done (chunk ++ rest)) :
      Step s i { s with
        log := some (s.content ++ chunk)
        caller := Function.update s.caller i (.writing rotated (done ++ chunk) rest) }
  | return_ {s i rotated line} (h : s.caller i = .writing rotated line []) :
      Step s i { s with
        caller := Function.update s.caller i .idle, appended := s.appended ++ [line] }
  /-- A failed write leaves anything in the temporary file. -/
  | fail {s i} (temp : Option Bytes) (early : (s.caller i).Early)
      (own : (s.caller i).Holds ∨ temp = s.temp) :
      Step s i { s with temp := temp, caller := Function.update s.caller i .idle }

def system (ι : Type*) [DecidableEq ι] (allowed : Bytes → Prop) :
    Transition.System (State ι) ι where
  init s := s.log = none ∧ s.appended = [] ∧ ∀ i, s.caller i = .idle
  step := Step allowed

end System

/-- What the one that has the lock knows of the files; `before` is the log that it has found. -/
def Caller.Sound (before content : Bytes) (temp : Option Bytes) : Caller → Prop
  | .idle | .locking _ => True
  | .opening _ | .measuring _ => content = before
  | .reading line => content = before ∧ before.length + line.length > maxBytes
  | .rewriting line rewritten => content = before ∧ before.length + line.length > maxBytes ∧
      rewritten = truncated before
  | .replacing line => content = before ∧ before.length + line.length > maxBytes ∧
      temp = some (truncated before)
  | .reopening line => before.length + line.length > maxBytes ∧ content = truncated before
  | .writing rotated done rest => content ++ rest = append before (done ++ rest) ∧
      (rotated = false → content = before ++ done)

/-- The text that a call is about. -/
def Caller.text : Caller → Option Bytes
  | .idle => none
  | .locking line | .opening line | .measuring line | .reading line | .rewriting line _
  | .replacing line | .reopening line => some line
  | .writing _ done rest => some (done ++ rest)

/-- The log is what the calls that have returned make of it one after the other, apart from what
the one that has the lock is doing. -/
structure Inv {ι : Type*} (allowed : Bytes → Prop) (s : State ι) : Prop where
  alone : ∀ i j, (s.caller i).Holds → (s.caller j).Holds → i = j
  rest : (∀ i, ¬(s.caller i).Holds) → s.content = run s.appended
  sound : ∀ i, (s.caller i).Sound (run s.appended) s.content s.temp
  texts : ∀ i, ∀ line ∈ (s.caller i).text, allowed line
  appended : ∀ line ∈ s.appended, allowed line

section Runs

variable {ι : Type*} {allowed : Bytes → Prop} {s t : State ι} {i : ι}

theorem Caller.sound_of_not_holds {caller : Caller} (h : ¬caller.Holds) (before content : Bytes)
    (temp : Option Bytes) : caller.Sound before content temp := by
  cases caller with
  | idle | locking => trivial
  | _ => exact absurd trivial h

theorem Caller.Sound.unchanged {caller : Caller} {before content : Bytes} {temp : Option Bytes}
    (sound : caller.Sound before content temp) (holds : caller.Holds) (early : caller.Early) :
    content = before := by
  cases caller with
  | idle | locking => exact holds.elim
  | opening | measuring => exact sound
  | reading | rewriting | replacing => exact sound.1
  | reopening | writing => exact early.elim

/-- A part of the text more is in the log. -/
theorem Caller.Sound.write {rotated : Bool} {before content done chunk rest : Bytes}
    {temp : Option Bytes}
    (sound : (Caller.writing rotated done (chunk ++ rest)).Sound before content temp) :
    (Caller.writing rotated (done ++ chunk) rest).Sound before (content ++ chunk) temp := by
  obtain ⟨all, direct⟩ := sound
  refine ⟨?_, fun direct_ => ?_⟩
  · rw [List.append_assoc, List.append_assoc]
    exact all
  · rw [direct direct_, List.append_assoc]

/-- When nothing is left to write, the log is what the call makes of it. -/
theorem Caller.Sound.written {rotated : Bool} {before content line : Bytes} {temp : Option Bytes}
    (sound : (Caller.writing rotated line []).Sound before content temp) :
    content = append before line := by
  obtain ⟨all, -⟩ := sound
  rwa [List.append_nil, List.append_nil] at all

/-- While no call is writing or has rotated the log, it is what the calls before make of it in their
order. -/
theorem Inv.content_eq (h : Inv allowed s) (still : ¬s.Rotated)
    (quiet : ∀ i rotated done rest, s.caller i ≠ .writing rotated done rest) :
    s.content = run s.appended := by
  by_cases free : ∀ i, ¬(s.caller i).Holds
  · exact h.rest free
  · obtain ⟨i, holds⟩ := not_forall_not.mp free
    refine (h.sound i).unchanged holds ?_
    cases at_ : s.caller i with
    | idle | locking => simp [at_, Caller.Holds] at holds
    | opening | measuring | reading | rewriting | replacing => trivial
    | reopening line => exact (still ⟨i, .inl ⟨line, at_⟩⟩).elim
    | writing => exact (quiet i _ _ _ at_).elim

theorem not_rotated_of_idle (idle : ∀ j, s.caller j = .idle) : ¬s.Rotated := by
  rintro ⟨i, ⟨line, at_⟩ | ⟨done, rest, at_⟩⟩ <;> simp [idle] at at_

theorem written_of_idle (idle : ∀ j, s.caller j = .idle) {part : Bytes} (written : s.Written part) :
    part = [] := by
  rcases written with ⟨i, rotated, rest, at_⟩ | ⟨nothing, -⟩
  · simp [idle] at at_
  · exact nothing

variable [DecidableEq ι]

/-- What a caller does to the files while no other one has the lock. -/
theorem Inv.move (h : Inv allowed s) {caller : Caller} {log temp : Option Bytes}
    {appended : List Bytes} (others : ∀ j, j ≠ i → ¬(s.caller j).Holds)
    (sound : caller.Sound (run appended) (log.getD []) temp)
    (released : ¬caller.Holds → log.getD [] = run appended)
    (text : ∀ line ∈ caller.text, allowed line) (all : ∀ line ∈ appended, allowed line) :
    Inv allowed ⟨log, temp, Function.update s.caller i caller, appended⟩ := by
  have only : ∀ j, ((Function.update s.caller i caller) j).Holds → j = i := by
    intro j holds
    by_contra other
    rw [Function.update_of_ne other] at holds
    exact others j other holds
  refine ⟨fun j k hj hk => (only j hj).trans (only k hk).symm, fun none_ => released ?_, ?_, ?_, all⟩
  · exact ((Function.forall_update_iff s.caller fun _ other => ¬other.Holds).mp none_).1
  · exact (Function.forall_update_iff s.caller fun _ other => other.Sound ..).mpr
      ⟨sound, fun j other => Caller.sound_of_not_holds (others j other) ..⟩
  · exact (Function.forall_update_iff s.caller fun _ other => ∀ line ∈ other.text, allowed line).mpr
      ⟨text, fun j _ => h.texts j⟩

/-- A caller that does not have the lock plays no part. -/
theorem Inv.wait (h : Inv allowed s) {caller : Caller} (before : ¬(s.caller i).Holds)
    (after : ¬caller.Holds) (text : ∀ line ∈ caller.text, allowed line) :
    Inv allowed { s with caller := Function.update s.caller i caller } := by
  have same : ∀ j, ((Function.update s.caller i caller) j).Holds ↔ (s.caller j).Holds := by
    intro j
    by_cases eq : j = i
    · rw [eq, Function.update_self]
      exact iff_of_false after before
    · rw [Function.update_of_ne eq]
  refine ⟨fun j k hj hk => h.alone j k ((same j).mp hj) ((same k).mp hk),
    fun none_ => h.rest fun j hj => none_ j ((same j).mpr hj), ?_, ?_, h.appended⟩
  · exact (Function.forall_update_iff s.caller fun _ other => other.Sound ..).mpr
      ⟨Caller.sound_of_not_holds after .., fun j _ => h.sound j⟩
  · exact (Function.forall_update_iff s.caller fun _ other => ∀ line ∈ other.text, allowed line).mpr
      ⟨text, fun j _ => h.texts j⟩

theorem Inv.step (h : Inv allowed s) (step : Step allowed s i t) : Inv allowed t := by
  have sound := h.sound i
  have text := h.texts i
  have others : (s.caller i).Holds → ∀ j, j ≠ i → ¬(s.caller j).Holds := fun holds j other hj =>
    other (h.alone j i hj holds)
  cases step with
  | @call line idle ok =>
    refine h.wait (by simp [idle, Caller.Holds]) (by simp [Caller.Holds]) ?_
    simpa [Caller.text] using ok
  | lock at_ free =>
    rw [at_] at text
    exact h.move (fun j _ => free j) (h.rest free) (absurd trivial) text h.appended
  | open_ at_ =>
    rw [at_] at sound text others
    exact h.move (others trivial) sound (absurd trivial) text h.appended
  | @fits line at_ room =>
    rw [at_] at sound text others
    have same : s.content = run s.appended := sound
    rw [same] at room
    refine h.move (others trivial) ⟨?_, fun _ => ?_⟩ (absurd trivial) text h.appended
    · change s.content ++ line = append (run s.appended) line
      rw [append, if_neg room, same]
    · change s.content = run s.appended ++ []
      rw [List.append_nil, same]
  | full at_ exceeds =>
    rw [at_] at sound text others
    have same : s.content = run s.appended := sound
    rw [same] at exceeds
    exact h.move (others trivial) ⟨same, exceeds⟩ (absurd trivial) text h.appended
  | read at_ =>
    rw [at_] at sound text others
    refine h.move (others trivial) ⟨sound.1, sound.2, ?_⟩ (absurd trivial) text h.appended
    rw [sound.1]
  | rewrite at_ =>
    rw [at_] at sound text others
    exact h.move (others trivial) ⟨sound.1, sound.2.1, congrArg some sound.2.2⟩ (absurd trivial)
      text h.appended
  | rename at_ =>
    rw [at_] at sound text others
    refine h.move (others trivial) ⟨sound.2.1, ?_⟩ (absurd trivial) text h.appended
    rw [sound.2.2, Option.getD_some]
  | @reopen line at_ =>
    rw [at_] at sound text others
    refine h.move (others trivial) ⟨?_, (nomatch ·)⟩ (absurd trivial) text h.appended
    change s.content ++ line = append (run s.appended) line
    rw [append, if_pos sound.1, sound.2]
  | @write rotated done rest chunk at_ =>
    rw [at_] at sound text others
    refine h.move (others trivial) sound.write (absurd trivial) ?_ h.appended
    have same : done ++ (chunk ++ rest) = done ++ chunk ++ rest := (List.append_assoc ..).symm
    rw [Caller.text, ← same]
    exact text
  | @return_ rotated line at_ =>
    rw [at_] at sound text others
    have whole : s.content = run (s.appended ++ [line]) := by
      rw [run_concat]
      exact sound.written
    refine h.move (others trivial) trivial (fun _ => whole) (by simp [Caller.text]) ?_
    intro text_ ht
    rcases List.mem_append.mp ht with old | new
    · exact h.appended text_ old
    · rw [List.mem_singleton.mp new]
      exact text line (by simp [Caller.text])
  | fail temp early own =>
    by_cases holds : (s.caller i).Holds
    · exact h.move (others holds) trivial (fun _ => sound.unchanged holds early)
        (by simp [Caller.text]) h.appended
    · rw [own.resolve_left holds]
      exact h.wait holds id (by simp [Caller.text])

theorem inv_of_reachable (h : (system ι allowed).Reachable s) : Inv allowed s := by
  refine h.invariant (I := Inv allowed) (fun s start => ?_) fun _ _ _ _ inv step => inv.step step
  obtain ⟨log, appended, idle⟩ := start
  have free : ∀ i, ¬(s.caller i).Holds := by
    intro i
    simp [idle, Caller.Holds]
  refine ⟨fun i _ hi => absurd hi (free i), fun _ => ?_, fun i => ?_, ?_, ?_⟩
  · rw [State.content, log, appended]
    rfl
  · exact Caller.sound_of_not_holds (free i) ..
  · simp [idle, Caller.text]
  · simp [appended]

/-- At every time, the log is a suffix of what the calls have written, cut where a line starts,
perhaps behind one marker; and it ends with the last text and what there is of the next one, unless
the log was rotated for the next one. -/
theorem log_keeps_lines (h : (system ι (Terminated newline)).Reachable s) :
    ∃ kept part, (s.content = kept ∨ s.content = marker ++ kept) ∧ s.Written part ∧
      LineSuffix newline kept (s.appended.flatten ++ part) ∧
      (¬s.Rotated → ∀ last ∈ s.appended.getLast?, last ++ part <:+ s.content) := by
  have inv := inv_of_reachable h
  have before := keeps_run inv.appended
  have whole : Terminated newline s.appended.flatten := .flatten inv.appended
  by_cases writer : ∃ i rotated done rest, s.caller i = .writing rotated done rest
  · obtain ⟨i, rotated, done, rest, at_⟩ := writer
    have sound := inv.sound i
    rw [at_] at sound
    obtain ⟨base, eq, keeps⟩ := before.base whole (done ++ rest)
    have content : s.content = base ++ done := by
      have all : s.content ++ rest = base ++ (done ++ rest) := Eq.trans sound.1 eq
      rw [← List.append_assoc] at all
      exact List.append_cancel_right all
    obtain ⟨kept, there, lines⟩ := keeps.append done
    rw [← content] at there
    refine ⟨kept, done, there, .inl ⟨i, rotated, rest, at_⟩, lines, fun still last hl => ?_⟩
    cases rotated with
    | true => exact (still ⟨i, .inr ⟨done, rest, at_⟩⟩).elim
    | false =>
      obtain ⟨front, eq⟩ := suffix_run hl
      rw [sound.2 rfl, ← eq]
      exact ⟨front, (List.append_assoc ..).symm⟩
  · have quiet : ∀ i rotated done rest, s.caller i ≠ .writing rotated done rest :=
      fun i rotated done rest at_ => writer ⟨i, rotated, done, rest, at_⟩
    have keeps : Keeps s.content s.appended.flatten := by
      by_cases rotated : s.Rotated
      · obtain ⟨i, ⟨line, at_⟩ | ⟨done, rest, at_⟩⟩ := rotated
        · have sound := inv.sound i
          rw [at_] at sound
          rw [sound.2]
          exact before.truncated whole
        · exact (quiet i _ _ _ at_).elim
      · rw [inv.content_eq rotated quiet]
        exact before
    obtain ⟨kept, there, lines⟩ := keeps
    refine ⟨kept, [], there, .inr ⟨rfl, quiet⟩, by rwa [List.append_nil], fun still last hl => ?_⟩
    rw [List.append_nil, inv.content_eq still quiet]
    exact suffix_run hl

theorem exists_return (h : (system ι allowed).Reachable s) (others : ∀ j, j ≠ i → s.caller j = .idle)
    {line : Bytes} {rotated : Bool} (at_ : s.caller i = .writing rotated [] line) :
    ∃ t, (system ι allowed).Reachable t ∧ (∀ j, t.caller j = .idle) ∧
      t.appended = s.appended ++ [line] := by
  rw [← List.append_nil line] at at_
  have written := h.step (.write line at_)
  refine ⟨_, written.step (.return_ (Function.update_self ..)), fun j => ?_, rfl⟩
  by_cases eq : j = i
  · simp [eq]
  · simp [eq, others j eq]

/-- A call that has the log for itself gets to the measuring of it. -/
theorem exists_measuring (h : (system ι allowed).Reachable s) (idle : ∀ j, s.caller j = .idle)
    (i : ι) {line : Bytes} (ok : allowed line) :
    ∃ t, (system ι allowed).Reachable t ∧ t.caller i = .measuring line ∧
      (∀ j, j ≠ i → t.caller j = .idle) ∧ t.appended = s.appended ∧ t.content = s.content := by
  have locking := h.step (.call (idle i) ok)
  have opening := locking.step (.lock (Function.update_self ..) fun j => by
    by_cases eq : j = i <;> simp [eq, idle, Caller.Holds])
  have measuring := opening.step (.open_ (Function.update_self ..))
  exact ⟨_, measuring, Function.update_self .., fun j other => by simp [other, idle], rfl, rfl⟩

/-- If its text does not fit, it rotates the log. -/
theorem exists_reopening (h : (system ι allowed).Reachable s) {line : Bytes}
    (at_ : s.caller i = .measuring line) (others : ∀ j, j ≠ i → s.caller j = .idle)
    (exceeds : s.content.length + line.length > maxBytes) :
    ∃ t, (system ι allowed).Reachable t ∧ t.caller i = .reopening line ∧
      (∀ j, j ≠ i → t.caller j = .idle) ∧ t.appended = s.appended ∧
      t.content = truncated s.content := by
  have reading := h.step (.full at_ exceeds)
  have rewriting := reading.step (.read (Function.update_self ..))
  have replacing := rewriting.step (.rewrite (Function.update_self ..))
  have reopening := replacing.step (.rename (Function.update_self ..) (Option.some_ne_none _))
  exact ⟨_, reopening, Function.update_self .., fun j other => by simp [other, others], rfl, rfl⟩

/-- A call that has the log for itself gets through, with or without a rotation. -/
theorem exists_call (h : (system ι allowed).Reachable s) (idle : ∀ j, s.caller j = .idle)
    (i : ι) {line : Bytes} (ok : allowed line) :
    ∃ t, (system ι allowed).Reachable t ∧ (∀ j, t.caller j = .idle) ∧
      t.appended = s.appended ++ [line] := by
  obtain ⟨measuring, reached, at_, others, same, -⟩ := exists_measuring h idle i ok
  rw [← same]
  by_cases exceeds : measuring.content.length + line.length > maxBytes
  · obtain ⟨reopening, reached, at_, others, same, -⟩ := exists_reopening reached at_ others exceeds
    have writing := reached.step (.reopen at_)
    rw [← same]
    exact exists_return writing (fun j other => by simp [other, others]) (Function.update_self ..)
  · have writing := reached.step (.fits at_ exceeds)
    exact exists_return writing (fun j other => by simp [other, others]) (Function.update_self ..)

/-- Any texts are those of some run. -/
theorem exists_run (i : ι) {texts : List Bytes} (ok : ∀ text ∈ texts, allowed text) :
    ∃ s, (system ι allowed).Reachable s ∧ (∀ j, s.caller j = .idle) ∧ s.appended = texts := by
  induction texts using List.reverseRecOn with
  | nil => exact ⟨⟨none, none, fun _ => .idle, []⟩, .init ⟨rfl, rfl, fun _ => rfl⟩, fun _ => rfl, rfl⟩
  | append_singleton texts line ih =>
    obtain ⟨s, reached, idle, rfl⟩ := ih fun text ht => ok text (List.mem_append_left _ ht)
    exact exists_call reached idle i (ok line (List.mem_append_right _ List.mem_cons_self))

/-- A line that fills the log, and one that makes it rotate. -/
def fillingLine : Bytes := List.replicate maxBytes 97 ++ [newline]

def readyLine : Bytes := (str "ready\n").bytes

theorem terminated_fillingLine : Terminated newline fillingLine := .concat

theorem terminated_readyLine : Terminated newline readyLine := by
  intro last hl
  have char : readyLine.getLast? = some newline := by decide
  exact (Option.some.inj (char.symm.trans hl)).symm

theorem log_keeps_lines_rotated : ∃ s : State Unit,
    s.appended = [fillingLine, readyLine] ∧
    (∃ kept, (s.content = kept ∨ s.content = marker ++ kept) ∧
      LineSuffix newline kept s.appended.flatten) ∧
    readyLine <:+ s.content := by
  have whole : ∀ text ∈ [fillingLine, readyLine], Terminated newline text := by
    rintro text (_ | ⟨_, _ | ⟨_, ⟨⟩⟩⟩)
    · exact terminated_fillingLine
    · exact terminated_readyLine
  obtain ⟨s, reached, idle, texts⟩ := exists_run () whole
  obtain ⟨kept, part, there, written, lines, last⟩ := log_keeps_lines reached
  obtain rfl := written_of_idle idle written
  rw [List.append_nil] at lines
  refine ⟨s, texts, ⟨kept, there, lines⟩, ?_⟩
  have whole_ := last (not_rotated_of_idle idle) readyLine (by rw [texts]; rfl)
  rwa [List.append_nil] at whole_

/-- Once the log is rotated for the second line, there is no room in it for the first one, which is
the last that was appended. -/
theorem last_text_cut : ∃ s : State Unit,
    (system Unit (Terminated newline)).Reachable s ∧ s.appended.getLast? = some fillingLine ∧
      s.caller () = .reopening readyLine ∧ ¬fillingLine <:+ s.content := by
  have length : fillingLine.length = maxBytes + 1 := by
    rw [fillingLine, List.length_append, List.length_replicate, List.length_singleton]
  obtain ⟨first, reached, idle, texts⟩ :=
    exists_run () (List.forall_mem_singleton.mpr terminated_fillingLine)
  have quiet := (inv_of_reachable reached).content_eq (not_rotated_of_idle idle)
    fun i rotated done rest => by simp [idle]
  have whole : fillingLine <:+ first.content := by
    rw [quiet, texts]
    exact suffix_run rfl
  obtain ⟨measured, reached, at_, others, same, content⟩ :=
    exists_measuring reached idle () terminated_readyLine
  have exceeds : measured.content.length + readyLine.length > maxBytes := by
    have := whole.length_le
    rw [content]
    omega
  obtain ⟨s, reached, at_, -, same', content'⟩ := exists_reopening reached at_ others exceeds
  refine ⟨s, reached, by rw [same', same, texts]; rfl, at_, fun suffix => ?_⟩
  have room := suffix.length_le
  have short := length_truncated_le measured.content
  have small : marker.length + tailBytes < maxBytes := by decide
  rw [content'] at room
  omega

end Runs

end AcpAgent.Installer.InstallLog
