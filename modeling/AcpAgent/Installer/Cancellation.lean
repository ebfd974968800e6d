import AcpAgent.Installer.Recovery

/-! An installation whose future is dropped while it is suspended: what its guards
(`TempDir`, `CancellableExtraction`, `PostExtractionValidation`, `PreparedStaging`,
`PromotionTransaction` in `installer/binary`) and its detached blocking operations still do, and
which of them own the publication lock. -/

namespace AcpAgent.Installer

/-- Who goes on with an installation. -/
inductive Mode
  /-- The future. -/
  | awaiting (pc : InstallPc)
  /-- A guard or a blocking task, which owns the publication lock. -/
  | owned (pc : InstallPc)
  /-- `TempDir`, while a detached `create_dir_all` of the extraction directory is to run. -/
  | unwinding (dir : Str)
  /-- A detached `create_dir_all` of the extraction directory, without any lock. -/
  | late (dir : Str)
  /-- The detached `remove_dir_all` of `cleanup_dir`, without any lock. -/
  | unlocked (dir : Str)
  | ended

namespace Mode

/-- The publication lock is held. -/
def Locked : Mode → Prop
  | .awaiting pc => pc.Holds .publication
  | .owned _ | .unwinding _ => True
  | .late _ | .unlocked _ | .ended => False

/-- The future has returned or was dropped, and nothing that it started goes on. -/
def Quiescent : Mode → Prop
  | .ended | .awaiting .failed | .awaiting (.returned _) => True
  | _ => False

end Mode

/-- Who goes on when the future is dropped where it is suspended. -/
def InstallPc.dropped : InstallPc → Option Mode
  | .publication | .readLease | .validating _ | .lease _ => some .ended
  | .downloading dir _ => some (.owned (.cleaning dir false))
  | .creating dir _ => some (.unwinding dir)
  | .extracting dir archive => some (.owned (.extracting dir archive))
  | .finishing dir archive tree executable => some (.owned (.finishing dir archive tree executable))
  | .writeLease dir _ => some (.owned (.cleaning dir false))
  -- `cleanup_dir` after `resolve_cmd_path`; other guards remove the directory without suspending.
  | .cleaning dir false => some (.unlocked dir)
  | .staging | .resolving _ _ _ | .returned _ | .failed => none
  | pc => some (.owned pc)

/-- What a blocking task goes on with, or its guard, once the future is gone. -/
def InstallPc.next : InstallPc → Mode
  | .resolving dir _ _ | .writeLease dir _ => .owned (.cleaning dir false)
  | .lease _ | .failed => .ended
  | pc => .owned pc

/-- A guard removes the staging directory, and the future fails without being suspended again. -/
def InstallPc.Guarded : InstallPc → InstallPc → Prop
  | .resolving _ _ _, _ | .cleaning _ _, _ => False
  | _, .cleaning _ false => True
  | _, _ => False

/-- A removal or a restore that ends here has done what it should. -/
def InstallPc.Succeeds (d : Disk) : InstallPc → InstallPc → Prop
  | .cleaning dir _, .failed => d.work dir = none
  | .committed _ backup, .lease _ => d.work backup = none
  | .unpublishing _ _, .restoring _ _ => d.final = none
  | .restoring _ (some backup), .cleaning _ _ => d.work backup = none
  | _, _ => True

/-- What happens next to the installation. -/
inductive CancelEvent
  | work
  /-- A removal or a restore fails. -/
  | fault
  /-- The future is dropped. -/
  | drop
  /-- The future is dropped once the `create_dir_all` that it awaits has run. -/
  | dropCreated

section System

variable (c : Crates) (job : Job)

abbrev WorkStep (d : Disk) (pc : InstallPc) (d' : Disk) (pc' : InstallPc) : Prop :=
  InstallStep c (job.key c) job (fun _ => True) d pc d' pc'

inductive CancelStep : Disk × Mode → CancelEvent → Disk × Mode → Prop
  | await {d pc d' pc'} (h : WorkStep c job d pc d' pc') (own : ¬pc.Guarded pc')
      (fine : pc.Succeeds d' pc') :
      CancelStep (d, .awaiting pc) .work (d', .awaiting pc')
  | guard {d pc d' pc'} (h : WorkStep c job d pc d' pc') (guarded : pc.Guarded pc') :
      CancelStep (d, .awaiting pc) .work (d', .owned pc')
  | awaitFault {d pc d' pc'} (h : WorkStep c job d pc d' pc') (bad : ¬pc.Succeeds d' pc') :
      CancelStep (d, .awaiting pc) .fault (d', .awaiting pc')
  | own {d pc d' pc'} (h : WorkStep c job d pc d' pc') (fine : pc.Succeeds d' pc') :
      CancelStep (d, .owned pc) .work (d', pc'.next)
  | ownFault {d pc d' pc'} (h : WorkStep c job d pc d' pc') (bad : ¬pc.Succeeds d' pc') :
      CancelStep (d, .owned pc) .fault (d', pc'.next)
  | drop {d pc mode} (h : pc.dropped = some mode) : CancelStep (d, .awaiting pc) .drop (d, mode)
  | dropCreated {d dir archive d'}
      (h : WorkStep c job d (.creating dir archive) d' (.extracting dir archive)) :
      CancelStep (d, .awaiting (.creating dir archive)) .dropCreated
        (d', .owned (.cleaning dir false))
  | unwindSome {d dir node left} (at_ : d.work dir = some node) (h : node.Trims left) :
      CancelStep (d, .unwinding dir) .work (d.setWork dir (some left), .unwinding dir)
  | unwind {d dir} : CancelStep (d, .unwinding dir) .work (d.setWork dir none, .late dir)
  | unwindCreated {d dir node} (at_ : d.work dir = some node) :
      CancelStep (d, .unwinding dir) .work
        (d.setWork dir (some (node.setChild extractedName (.dir []))), .owned (.cleaning dir false))
  | create {d dir} :
      CancelStep (d, .late dir) .work
        (d.setWork dir (some (.dir [(extractedName, .dir [])])), .ended)
  | createFails {d dir} : CancelStep (d, .late dir) .work (d, .ended)
  | removeSome {d dir node left} (at_ : d.work dir = some node) (h : node.Trims left) :
      CancelStep (d, .unlocked dir) .work (d.setWork dir (some left), .unlocked dir)
  | remove {d dir} : CancelStep (d, .unlocked dir) .work (d.setWork dir none, .ended)
  | removeFails {d dir} : CancelStep (d, .unlocked dir) .fault (d, .ended)

/-- One process installs the key, and may drop the future. -/
def cancelSystem (before : Option Node) : Transition.System (Disk × Mode) CancelEvent where
  init s := s = (⟨before, fun _ => none⟩, .awaiting .publication)
  step := CancelStep c job

end System

/-! ### An installation whose removals succeed -/

section Tidy

variable {c : Crates} {job : Job} {key : Str} {before : Option Node} {free : Hold → Prop}
  {d d' : Disk} {pc pc' : InstallPc}

/-- What is on disk besides, as long as removals and restores succeed. -/
def InstallPc.Tidy (c : Crates) (job : Job) (key : Str) (before : Option Node) (d : Disk) :
    InstallPc → Prop
  | .checking dir _ _ => d.work dir = none
  | .committed _ backup => Traces c key (.bare before) d none (some backup)
  | .restoring _ _ => d.final = none
  | .cleaning dir true => Traces c key (.bare before) d (some dir) none ∧ d.final = before
  | .lease _ | .returned _ => Traces c key (.bare before) d none none
  | .failed => Traces c key (.bare before) d none none ∧ Intact c job before d.final
  | _ => True

theorem InstallStep.tidy (hkey : Plain key) (h : InstallStep c key job free d pc d' pc')
    (left : pc.Leaves c key (.bare before) d)
    (intact : ¬pc.RollsBack → d.final ≠ none → Intact c job before d.final)
    (tidy : pc.Tidy c job key before d) (fine : pc.Succeeds d' pc') :
    pc'.Tidy c job key before d' := by
  cases h with
  | lockFails | readFails | stageFails => exact ⟨left.1, .inl left.2⟩
  | validateFails => exact ⟨left.1, .inl left.2.1⟩
  | hit => exact left.1
  | probeFails | revalidateFails | preserveFails | discardFails => exact ⟨left.1, left.2.1⟩
  | discard => exact (left.1.setWork hkey none).dropDir (by simp)
  | publish => simp [InstallPc.Tidy]
  | publishFails => exact left.2.1
  | commit => exact left.1.dropDir tidy
  | commitBackup => exact left.1.dropDir tidy
  | dropBackupSome => exact tidy.setBackup left.2 _
  | dropBackup =>
    exact (tidy.setBackup left.2 none).dropBackup (by simp) fun missing => by
      simp [left.2] at missing
  | dropBackupFails => exact tidy.dropBackup fine fun missing => by simp [left.2] at missing
  | unpublish => rfl
  | unpublishFails => exact fine
  | restore =>
    have restored := left.1.restore left.2
    exact ⟨restored.dropBackup (by simp) fun final => left.2.symm.trans final, left.2⟩
  | @restoreFails dir backup =>
    obtain ⟨ht, kept⟩ := left
    cases backup with
    | none => exact ⟨ht, Eq.trans tidy (Eq.symm kept)⟩
    | some name =>
      have absent : before = none := Eq.trans (Eq.symm kept) fine
      exact ⟨ht.dropBackup fine fun _ => absent, Eq.trans tidy absent.symm⟩
  | @cleanSome dir promotion =>
    cases promotion with
    | false => trivial
    | true => exact ⟨tidy.1.setWork hkey _, tidy.2⟩
  | @clean dir promotion =>
    cases promotion with
    | false => exact ⟨(left.1.setWork hkey none).dropDir (by simp), .inl left.2⟩
    | true => exact ⟨(tidy.1.setWork hkey none).dropDir (by simp), .inl tidy.2⟩
  | @cleanFails dir promotion =>
    cases promotion with
    | false => exact ⟨left.1.dropDir fine, .inl left.2⟩
    | true => exact ⟨tidy.1.dropDir fine, .inl tidy.2⟩
  | leaseFails => exact ⟨tidy, intact id (by simp [left.2])⟩
  | lease => exact tidy
  | _ => trivial

theorem InstallStep.succeeds_of_guarded (h : InstallStep c key job free d pc d' pc')
    (guarded : pc.Guarded pc') : pc.Succeeds d' pc' := by
  cases h <;> trivial

/-- What holds where an installation is, as long as removals and restores succeed. -/
structure Faultless (c : Crates) (job : Job) (before : Option Node) (d : Disk) (pc : InstallPc) :
    Prop where
  left : pc.Leaves c (job.key c) (.bare before) d
  tidy : pc.Tidy c job (job.key c) before d
  chain : pc.Chain c job
  intact : ¬pc.RollsBack → d.final ≠ none → Intact c job before d.final

namespace Faultless

theorem step (h : Faultless c job before d pc) (step : WorkStep c job d pc d' pc')
    (fine : pc.Succeeds d' pc') : Faultless c job before d' pc' where
  left := step.leaves (plain_key c job) h.left
  tidy := step.tidy (plain_key c job) h.left h.intact h.tidy fine
  chain := step.chain h.chain
  intact := step.intact h.left h.chain h.intact

/-- Only the staging directory remains to be removed. -/
theorem cleaning {dir : Str} (ht : Traces c (job.key c) (.bare before) d (some dir) none)
    (final : d.final = before) : Faultless c job before d (.cleaning dir false) :=
  ⟨⟨ht, final⟩, trivial, trivial, fun _ _ => .inl final⟩

end Faultless

/-- What holds of the key, whoever goes on. -/
def Mode.Keeps (c : Crates) (job : Job) (before : Option Node) (d : Disk) : Mode → Prop
  | .awaiting pc | .owned pc => Faultless c job before d pc
  | .ended => Traces c (job.key c) (.bare before) d none none ∧ Intact c job before d.final
  | _ => False

namespace Faultless

theorem next (h : Faultless c job before d pc) : pc.next.Keeps c job before d := by
  cases pc with
  | resolving => exact cleaning h.left.1 h.left.2
  | writeLease => exact cleaning h.left.1 h.left.2.1
  | lease => exact ⟨h.tidy, h.intact id (by simp [h.left.2])⟩
  | failed => exact h.tidy
  | _ => exact h

/-- The future may be dropped unless it awaits `create_dir_all` or `cleanup_dir`. -/
theorem dropped (h : Faultless c job before d pc) {mode : Mode} (hm : pc.dropped = some mode)
    (creating : ∀ dir archive, pc ≠ .creating dir archive)
    (cleanup : ∀ dir, pc ≠ .cleaning dir false) : mode.Keeps c job before d := by
  cases pc with
  | publication | readLease =>
    obtain rfl := Option.some.inj hm
    exact ⟨h.left.1, .inl h.left.2⟩
  | validating =>
    obtain rfl := Option.some.inj hm
    exact ⟨h.left.1, .inl h.left.2.1⟩
  | lease =>
    obtain rfl := Option.some.inj hm
    exact h.next
  | downloading =>
    obtain rfl := Option.some.inj hm
    exact cleaning h.left.1 h.left.2
  | writeLease =>
    obtain rfl := Option.some.inj hm
    exact h.next
  | creating dir archive => exact absurd rfl (creating dir archive)
  | cleaning dir promotion =>
    cases promotion with
    | false => exact absurd rfl (cleanup dir)
    | true =>
      obtain rfl := Option.some.inj hm
      exact h
  | staging | resolving | returned | failed => cases hm
  | _ =>
    obtain rfl := Option.some.inj hm
    exact h

end Faultless

/-- Every removal and every restore succeeds, and the future is not dropped while it awaits a
`create_dir_all` that has not run, nor while it awaits `cleanup_dir`. -/
def Tolerates (s : Disk × Mode) : CancelEvent → Prop
  | .fault => False
  | .drop => match s.2 with
    | .awaiting (.creating _ _) | .awaiting (.cleaning _ false) => False
    | _ => True
  | .work | .dropCreated => True

theorem CancelStep.keeps {s t : Disk × Mode} {a : CancelEvent} (step : CancelStep c job s a t)
    (ok : Tolerates s a) (h : s.2.Keeps c job before s.1) : t.2.Keeps c job before t.1 := by
  cases step with
  | await step _ fine => exact Faultless.step h step fine
  | guard step guarded => exact Faultless.step h step (step.succeeds_of_guarded guarded)
  | own step fine => exact (Faultless.step h step fine).next
  | awaitFault | ownFault | removeFails => exact ok.elim
  | drop hm =>
    refine Faultless.dropped h hm ?_ ?_
    · rintro dir archive rfl
      exact ok
    · rintro dir rfl
      exact ok
  | dropCreated step =>
    have created := Faultless.step h step trivial
    exact Faultless.cleaning created.left.1 created.left.2
  | _ => exact h.elim

/-! ### Dropped installations -/

/-- Once nothing goes on, no work directory is left and the final directory is intact.  While a work
directory is there, the publication lock is held. -/
structure Clean (c : Crates) (job : Job) (before : Option Node) (s : Disk × Mode) : Prop where
  left : s.2.Quiescent → (∀ name, s.1.work name = none) ∧ Intact c job before s.1.final
  locked : ¬s.2.Locked → ∀ name, s.1.work name = none

theorem Traces.work_none (h : Traces c key (.bare before) d none none) (name : Str) :
    d.work name = none := by
  by_contra there
  simpa using h.only name there

theorem clean_of_keeps {s : Disk × Mode} (h : s.2.Keeps c job before s.1) :
    Clean c job before s := by
  obtain ⟨d, mode⟩ := s
  cases mode with
  | awaiting pc =>
    cases pc with
    | publication =>
      exact ⟨False.elim, fun _ => Traces.work_none (Faultless.left h).1⟩
    | returned =>
      have gone := Traces.work_none (Faultless.tidy h)
      have final : d.final = some _ := (Faultless.left h).2
      exact ⟨fun _ => ⟨gone, Faultless.intact h id (by simp [final])⟩, fun _ => gone⟩
    | failed =>
      obtain ⟨gone, intact⟩ := Faultless.tidy h
      exact ⟨fun _ => ⟨gone.work_none, intact⟩, fun _ => gone.work_none⟩
    | cleaning dir promotion =>
      cases promotion <;>
        exact ⟨False.elim, fun unlocked => absurd (by simp [Mode.Locked, InstallPc.Holds]) unlocked⟩
    | _ => exact ⟨False.elim, fun unlocked => absurd (by simp [Mode.Locked, InstallPc.Holds]) unlocked⟩
  | owned => exact ⟨False.elim, fun unlocked => absurd trivial unlocked⟩
  | ended => exact ⟨fun _ => ⟨h.1.work_none, h.2⟩, fun _ => h.1.work_none⟩
  | _ => exact h.elim

/-- However an installation is dropped, it leaves nothing behind, as long as no drop and no fault of
the file system comes at a bad time. -/
theorem cancellation_clean {s : Disk × Mode}
    (h : ((cancelSystem c job before).restrict Tolerates).Reachable s) : Clean c job before s := by
  refine clean_of_keeps (h.invariant (I := fun s => s.2.Keeps c job before s.1) ?_ ?_)
  · intro s init
    obtain rfl : s = (⟨before, fun _ => none⟩, .awaiting .publication) := init
    exact ⟨InstallPc.leaves_start, trivial, trivial, fun _ _ => .inl rfl⟩
  · intro s a t _ hs step
    exact CancelStep.keeps step.2 step.1 hs

end Tidy

/-! Installations of the sample archive, with some command. -/

namespace Sample

def jobOf (cmd : Str) : Job := { job with cmd }

def dir : Str := stagingName ((jobOf []).key crates) (str "x")

def absent : Disk := .bare none

def install (cmd : Str) : Transition.System (Disk × Mode) CancelEvent :=
  cancelSystem crates (jobOf cmd) none

theorem await {cmd : Str} {d d' : Disk} {pc pc' : InstallPc}
    (h : ((install cmd).restrict Tolerates).Reachable (d, .awaiting pc))
    (step : WorkStep crates (jobOf cmd) d pc d' pc') (own : ¬pc.Guarded pc')
    (fine : pc.Succeeds d' pc') :
    ((install cmd).restrict Tolerates).Reachable (d', .awaiting pc') :=
  h.step (a := .work) ⟨trivial, .await step own fine⟩

theorem reachable_downloading (cmd : Str) : ((install cmd).restrict Tolerates).Reachable
    (absent.setWork dir (some (.dir [])), .awaiting (.downloading dir none)) := by
  have h0 : ((install cmd).restrict Tolerates).Reachable (absent, .awaiting .publication) :=
    .init rfl
  have h1 := await h0 (.lock trivial) id trivial
  have h2 := await h1 (.read trivial) id trivial
  have h3 := await h2 (.miss rfl) id trivial
  exact await h3 (.stage (by decide) rfl) id trivial

theorem reachable_creating (cmd : Str) : ∃ d, d.final = none ∧
    ((install cmd).restrict Tolerates).Reachable (d, .awaiting (.creating dir archive)) := by
  have name : crates.archiveName (jobOf cmd).archive = some (str "agent").bytes := archiveName_job
  have h1 := await (reachable_downloading cmd) (.open_ name) id trivial
  have h2 := await h1 (.chunk name archive) id trivial
  exact ⟨_, rfl, await h2 (.downloaded parse_digest) id trivial⟩

end Sample

/-- The future is dropped during the download, and `TempDir` removes the staging directory. -/
theorem cancellation_clean_downloading : ∃ d, Clean Sample.crates (Sample.jobOf (str "agent")) none
    (d, .ended) := by
  let d := Sample.absent.setWork Sample.dir (some (.dir []))
  let S := (Sample.install (str "agent")).restrict Tolerates
  have h1 : S.Reachable (d, .owned (.cleaning Sample.dir false)) :=
    (Sample.reachable_downloading (str "agent")).step (a := .drop) ⟨trivial, .drop rfl⟩
  have h2 : S.Reachable (d.setWork Sample.dir none, .ended) :=
    h1.step (a := .work) ⟨trivial, .own .clean (by simp [InstallPc.Succeeds])⟩
  exact ⟨_, cancellation_clean h2⟩

/-- The future is dropped before `create_dir_all` runs.  `TempDir` removes the staging directory,
the lock is released, and then `create_dir_all` makes the directory again. -/
theorem dropped_creation_leaves_staging : ∃ s,
    (Sample.install (str "agent")).Reachable s ∧ s.2.Quiescent ∧
      s.1.work Sample.dir = some (.dir [(extractedName, .dir [])]) ∧
      ¬Clean Sample.crates (Sample.jobOf (str "agent")) none s := by
  obtain ⟨d, -, h⟩ := Sample.reachable_creating (str "agent")
  let S := Sample.install (str "agent")
  have h1 : S.Reachable (d, .unwinding Sample.dir) := h.of_restrict.step (a := .drop) (.drop rfl)
  have h2 : S.Reachable (d.setWork Sample.dir none, .late Sample.dir) :=
    h1.step (a := .work) .unwind
  let left := d.setWork Sample.dir (some (.dir [(extractedName, .dir [])]))
  have h3 : S.Reachable (left, .ended) := by
    have created : CancelStep Sample.crates (Sample.jobOf (str "agent"))
        (d.setWork Sample.dir none, .late Sample.dir) .work (_, .ended) := .create
    rw [Disk.setWork_setWork] at created
    exact h2.step (a := .work) created
  have there : left.work Sample.dir = some (.dir [(extractedName, .dir [])]) := by simp [left]
  refine ⟨_, h3, trivial, there, fun clean => ?_⟩
  rw [(clean.left trivial).1 Sample.dir] at there
  simp at there

/-- The future is dropped in `cleanup_dir`, after the command was found to leave the payload.  The
lock is released although the staging directory is still there. -/
theorem dropped_cleanup_unlocks : ∃ s,
    (Sample.install (str "../agent")).Reachable s ∧ ¬s.2.Locked ∧ s.1.work Sample.dir ≠ none := by
  obtain ⟨d, -, h⟩ := Sample.reachable_creating (str "../agent")
  have h1 := Sample.await h (.create Sample.archiveName_job (by decide)) id trivial
  have h2 := Sample.await h1 (.extract Sample.archiveName_job Sample.extract_archive) id trivial
  have h3 := Sample.await h2 .resolveFails id trivial
  have h4 : (Sample.install (str "../agent")).Reachable (_, .unlocked Sample.dir) :=
    h3.of_restrict.step (a := .drop) (.drop rfl)
  exact ⟨_, h4, id, by simp⟩

end AcpAgent.Installer
