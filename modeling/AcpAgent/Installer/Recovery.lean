import AcpAgent.Installer.Install
import AcpAgent.Lib.Transition
import Mathlib.Data.List.Sort
import Mathlib.Data.String.Basic
import Mathlib.Order.Bounds.Basic

/-! What the startup sweep makes of a key whose installation was killed at any point. -/

namespace AcpAgent.Installer

/-! ### The sweep as a function -/

/-- Removes these work directories but the one that has been restored. -/
def removeWork (restored : Option Str) : List Str → Disk → Disk
  | [], d => d
  | entry :: entries, d =>
    removeWork restored entries (if restored = some entry then d else d.setWork entry none)

/-- Restores the first of these backups that is there, and removes the other work directories. -/
def restoreBackup (entries : List Str) : List Str → Disk → Disk
  | [], d => removeWork none entries d
  | backup :: backups, d =>
    match d.work backup with
    | some node => removeWork (some backup) entries ((d.setFinal (some node)).setWork backup none)
    | none => restoreBackup entries backups d

/-- What `clean_stale_staging_entries_in` leaves of a key with these work directories, if no process
has the key and all calls succeed. -/
def cleanStaleStagingEntries (entries : List Str) (d : Disk) : Disk :=
  if d.final.isSome then removeWork none entries d
  else restoreBackup entries (sweepBackups entries) d

/-- What the rest of the sweep leaves. -/
def SweepPc.result (d : Disk) : SweepPc → Disk
  | .scanned entries | .probing entries => cleanStaleStagingEntries entries d
  | .restoring backups entries => restoreBackup entries backups d
  | .removing restored entries => removeWork restored entries d
  | .done => d

namespace Disk

@[simp] theorem setWork_setWork (d : Disk) (name : Str) (e e' : Option Node) :
    (d.setWork name e).setWork name e' = d.setWork name e' := by
  simp [setWork]

theorem setWork_eq_self {d : Disk} {name : Str} {e : Option Node} (h : d.work name = e) :
    d.setWork name e = d := by
  simp [setWork, ← h]

end Disk

/-- Every step of a sweep leaves the result of the rest as it is. -/
theorem SweepStep.result {d d' : Disk} {pc pc' : SweepPc}
    (h : SweepStep False (fun _ => True) d pc d' pc') : pc'.result d' = pc.result d := by
  cases h with
  | lock | lockFails h | probeFails h | restoreNone | swept => first | rfl | exact h.elim
  | lockBusy h => exact absurd trivial h
  | present h => simp [SweepPc.result, cleanStaleStagingEntries, Option.isSome_iff_ne_none, h]
  | missing h => simp [SweepPc.result, cleanStaleStagingEntries, h]
  | restore _ at_ => simp [SweepPc.result, restoreBackup, at_]
  | restoreFails h => simp [SweepPc.result, restoreBackup, h.resolve_right id]
  | keep => simp [SweepPc.result, removeWork]
  | removeSome other | remove other => simp [SweepPc.result, removeWork, other]
  | removeFails other h =>
    simp [SweepPc.result, removeWork, other, Disk.setWork_eq_self (h.resolve_right id)]

/-- The sweep of a key, with no other process at work on it. -/
def sweepSystem (entries : List Str) (d : Disk) : Transition.System (Disk × SweepPc) Unit where
  init s := s = (d, .scanned entries)
  step s _ t := SweepStep False (fun _ => True) s.1 s.2 t.1 t.2

section Runs

variable {entries₀ entries : List Str} {d₀ d d' : Disk}

theorem reachable_removed {restored : Option Str}
    (h : (sweepSystem entries₀ d₀).Reachable (d, .removing restored entries)) :
    (sweepSystem entries₀ d₀).Reachable (removeWork restored entries d, .done) := by
  induction entries generalizing d with
  | nil => exact h.step (a := ()) .swept
  | cons entry entries ih =>
    rw [removeWork]
    split_ifs with same
    · subst same
      exact ih (h.step (a := ()) .keep)
    · exact ih (h.step (a := ()) (.remove same))

theorem reachable_restored {backups : List Str} (final : d.final = none)
    (h : (sweepSystem entries₀ d₀).Reachable (d, .restoring backups entries)) :
    (sweepSystem entries₀ d₀).Reachable (restoreBackup entries backups d, .done) := by
  induction backups with
  | nil => exact reachable_removed (h.step (a := ()) .restoreNone)
  | cons backup backups ih =>
    rw [restoreBackup]
    split
    · next node at_ => exact reachable_removed (h.step (a := ()) (.restore final at_))
    · next missing => exact ih (h.step (a := ()) (.restoreFails (.inl missing)))

/-- The sweep ends, and always with the same result. -/
theorem sweep_done : (sweepSystem entries d).Reachable (d', .done) ↔
    d' = cleanStaleStagingEntries entries d := by
  constructor
  · intro h
    exact h.invariant (I := fun s => s.2.result s.1 = cleanStaleStagingEntries entries d)
      (fun _ init => by rw [init]; rfl) fun _ _ _ _ hs step => (SweepStep.result step).trans hs
  · rintro rfl
    have h0 : (sweepSystem entries d).Reachable (d, .scanned entries) := .init rfl
    have h1 : (sweepSystem entries d).Reachable (d, .probing entries) :=
      h0.step (a := ()) (.lock trivial)
    rw [cleanStaleStagingEntries]
    split_ifs with present
    · exact reachable_removed (h1.step (a := ()) (.present (Option.isSome_iff_ne_none.mp present)))
    · have missing : d.final = none := by simpa using present
      exact reachable_restored missing (h1.step (a := ()) (.missing missing))

end Runs

/-! ### Which directory the sweep restores -/

/-- A staging directory comes behind every backup of the key. -/
theorem backupName_lt_stagingName (sha256 : Bytes → Digest) {key : Str} (h : Plain key)
    (pid nanos : ℕ) (random : Str) : backupName sha256 key pid nanos < stagingName key random := by
  have name : stagingName key random = ('.' :: key) ++ (stagingMarker ++ random) := by
    simp [stagingName]
  rw [backupName_of_plain h, name]
  apply List.append_left_lt
  rw [stagingMarker_eq, backupMarker_eq]
  simp [List.cons_lt_cons_iff]

/-- The first backup that the sweep tries is the last by name. -/
theorem sweepBackups_head {entries : List Str} {name : Str} {rest : List Str}
    (h : sweepBackups entries = name :: rest) :
    name ∈ entries ∧ Str.contains name backupMarker = true ∧
      ∀ other ∈ entries, Str.contains other backupMarker = true → other ≤ name := by
  have member : ∀ other, other ∈ sweepBackups entries ↔
      other ∈ entries ∧ Str.contains other backupMarker = true := by
    simp [sweepBackups]
  have sorted : (sweepBackups entries).Pairwise (· ≥ ·) := by
    have := List.pairwise_mergeSort' (· ≤ ·) (entries.filter (Str.contains · backupMarker))
    simpa [sweepBackups, List.pairwise_reverse] using this
  rw [h, List.pairwise_cons] at sorted
  have first := (member name).mp (by simp [h])
  refine ⟨first.1, first.2, fun other mem marked => ?_⟩
  have := (member other).mpr ⟨mem, marked⟩
  rw [h, List.mem_cons] at this
  rcases this with rfl | later
  · exact le_rfl
  · exact sorted.1 other later

/-! ### What an installation leaves -/

/-- No work directory is there. -/
def Disk.bare (final : Option Node) : Disk := ⟨final, fun _ => none⟩

@[simp] theorem Disk.bare_final (final : Option Node) : (Disk.bare final).final = final := rfl
@[simp] theorem Disk.bare_work (final : Option Node) (name : Str) :
    (Disk.bare final).work name = none := rfl

/-- What was there before the installation is in this backup. -/
def Kept (before : Option Node) (d : Disk) : Option Str → Prop
  | none => before = none
  | some backup => d.work backup = before

/-- The work directories of an installation, beside those that were there at its start, and that the
entry from before is not lost. -/
structure Traces (c : Crates) (key : Str) (start d : Disk) (dir backup : Option Str) : Prop where
  only : ∀ name, d.work name ≠ start.work name → dir = some name ∨ backup = some name
  staging : ∀ name, dir = some name → ∃ random, '-' ∉ random ∧ name = stagingName key random
  backups : ∀ name, backup = some name → ∃ pid nanos, name = backupName c.sha256 key pid nanos
  kept : d.final = none → Kept start.final d backup

namespace Traces

variable {c : Crates} {key : Str} {start d : Disk} {dir name : Str} {dir? backup : Option Str}

theorem ne (h : Traces c key start d (some dir) (some name)) (hkey : Plain key) : name ≠ dir := by
  obtain ⟨random, -, rfl⟩ := h.staging dir rfl
  obtain ⟨pid, nanos, rfl⟩ := h.backups name rfl
  exact (backupName_lt_stagingName c.sha256 hkey pid nanos random).ne

/-- Nothing changes beside the directories of the installation. -/
theorem update (h : Traces c key start d dir? backup) {d' : Disk}
    (only : ∀ name, d'.work name ≠ start.work name →
      d.work name ≠ start.work name ∨ dir? = some name ∨ backup = some name)
    (kept : d'.final = none → Kept start.final d' backup) : Traces c key start d' dir? backup :=
  ⟨fun name changed => (only name changed).elim (h.only name) id, h.staging, h.backups, kept⟩

theorem changed_setWork {name other : Str} {e old : Option Node}
    (h : (d.setWork name e).work other ≠ old) : d.work other ≠ old ∨ name = other := by
  by_cases same : other = name
  · exact .inr same.symm
  · exact .inl (by simpa [same] using h)

theorem kept_setWork (h : Traces c key start d (some dir) backup) (hkey : Plain key)
    (kept : Kept start.final d backup) (e : Option Node) :
    Kept start.final (d.setWork dir e) backup := by
  cases backup with
  | none => exact kept
  | some name => simpa [Kept, h.ne hkey] using kept

/-- The staging directory changes. -/
theorem setWork (h : Traces c key start d (some dir) backup) (hkey : Plain key)
    (e : Option Node) : Traces c key start (d.setWork dir e) (some dir) backup :=
  h.update (fun _ changed => (changed_setWork changed).imp_right fun same =>
    .inl (congrArg some same)) fun final => h.kept_setWork hkey (h.kept final) e

/-- The backup changes, once there is a final directory. -/
theorem setBackup (h : Traces c key start d dir? (some name)) {cached : Node}
    (final : d.final = some cached) (e : Option Node) :
    Traces c key start (d.setWork name e) dir? (some name) :=
  h.update (fun _ changed => (changed_setWork changed).imp_right fun same =>
    .inr (congrArg some same)) fun missing => by simp [final] at missing

/-- The staging directory is gone. -/
theorem dropDir (h : Traces c key start d (some dir) backup)
    (gone : d.work dir = start.work dir) : Traces c key start d none backup where
  only name changed := (h.only name changed).imp_left fun same => by
    rw [← Option.some.inj same] at changed
    exact absurd gone changed
  staging := by simp
  backups := h.backups
  kept := h.kept

/-- The backup is gone. -/
theorem dropBackup (h : Traces c key start d dir? (some name))
    (gone : d.work name = start.work name) (kept : d.final = none → start.final = none) :
    Traces c key start d dir? none where
  only other changed := (h.only other changed).imp_right fun same => by
    rw [← Option.some.inj same] at changed
    exact absurd gone changed
  staging := h.staging
  backups := by simp
  kept := kept

/-- The backup becomes the final directory again. -/
theorem restore (h : Traces c key start d dir? (some name)) (kept : Kept start.final d (some name)) :
    Traces c key start ((d.setFinal (d.work name)).setWork name none) dir? (some name) := by
  refine h.update (fun other changed => ?_) fun final => ?_
  · exact (changed_setWork changed).imp_right fun same => .inr (congrArg some same)
  · have absent : start.final = none := kept.symm.trans final
    simp [Kept, absent]

end Traces

/-- What is on disk where an installation is. -/
def InstallPc.Leaves (c : Crates) (key : Str) (start d : Disk) : InstallPc → Prop
  | .publication | .readLease | .staging =>
    Traces c key start d none none ∧ d.final = start.final
  | .validating seen =>
    Traces c key start d none none ∧ d.final = start.final ∧ d.final = seen
  | .downloading dir _ | .creating dir _ | .extracting dir _ | .resolving dir _ _
  | .finishing dir _ _ _ | .cleaning dir false =>
    Traces c key start d (some dir) none ∧ d.final = start.final
  | .discarding dir cached =>
    Traces c key start d (some dir) none ∧ d.final = start.final ∧ d.final = some cached
  | .writeLease dir entry | .probing dir entry | .revalidating dir entry
  | .preserving dir entry =>
    Traces c key start d (some dir) none ∧ d.final = start.final ∧ d.work dir = some entry
  | .publishing dir entry backup =>
    Traces c key start d (some dir) backup ∧ d.final = none ∧ d.work dir = some entry
  | .checking dir entry backup =>
    Traces c key start d (some dir) backup ∧ Kept start.final d backup ∧ d.final = some entry
  | .committed cached backup =>
    (∃ dir, Traces c key start d dir (some backup)) ∧ d.final = some cached
  | .unpublishing dir backup | .restoring dir backup =>
    Traces c key start d (some dir) backup ∧ Kept start.final d backup
  | .cleaning dir true => ∃ backup, Traces c key start d (some dir) backup
  | .lease cached | .returned cached =>
    (∃ dir backup, Traces c key start d dir backup) ∧ d.final = some cached
  | .failed => ∃ dir backup, Traces c key start d dir backup

/-- What was there before the installation, or a completely prepared entry. -/
def Intact (c : Crates) (job : Job) (before entry : Option Node) : Prop :=
  entry = before ∨ ∃ node, entry = some node ∧ Prepared c job node

/-- A promotion has failed, and its roll-back is under way or over. -/
def InstallPc.RollsBack : InstallPc → Prop
  | .unpublishing _ _ | .restoring _ _ | .cleaning _ true | .failed => True
  | _ => False

section Install

variable {c : Crates} {key : Str} {job : Job} {start : Disk} {free : Hold → Prop}
  {d d' : Disk} {pc pc' : InstallPc}

theorem InstallPc.Leaves.traces (h : pc.Leaves c key start d) :
    ∃ dir backup, Traces c key start d dir backup := by
  cases pc with
  | cleaning dir promotion =>
    cases promotion with
    | false => exact ⟨_, _, h.1⟩
    | true => exact ⟨_, h⟩
  | committed =>
    obtain ⟨⟨dir, h⟩, -⟩ := h
    exact ⟨dir, _, h⟩
  | lease | returned => exact h.1
  | failed => exact h
  | _ => exact ⟨_, _, h.1⟩

theorem InstallPc.leaves_start : InstallPc.publication.Leaves c key start start :=
  ⟨⟨by simp, by simp, by simp, id⟩, rfl⟩

theorem InstallStep.leaves (hkey : Plain key) (h : InstallStep c key job free d pc d' pc')
    (ht : pc.Leaves c key start d) : pc'.Leaves c key start d' := by
  cases h with
  | lock | downloaded | resolve | writeLease | probePresent | probeRefresh
  | invalid => exact ht
  | stage alnum =>
    obtain ⟨ht, final⟩ := ht
    refine ⟨⟨fun name changed => ?_, fun name hn => ?_, by simp, fun hf => final ▸ hf⟩, final⟩
    · rcases Traces.changed_setWork changed with before | same
      · simpa using ht.only name before
      · exact .inl (congrArg some same)
    · obtain rfl := Option.some.inj hn
      exact ⟨_, alnum, rfl⟩
  | open_ | chunk | create | extractSome | extract | writeSome | discardSome =>
    exact ⟨ht.1.setWork hkey _, ht.2⟩
  | write => exact ⟨ht.1.setWork hkey _, ht.2, by simp⟩
  | downloadFails | createFails | extractFails | resolveFails | finishFails => exact ht
  | writeLeaseFails => exact ⟨ht.1, ht.2.1⟩
  | probeFails | revalidateFails | discardFails | preserveFails => exact ⟨_, ht.1⟩
  | probeMissing missing => exact ⟨ht.1, missing, ht.2.2⟩
  | revalid at_ => exact ⟨ht.1, ht.2.1, at_⟩
  | discard => exact ⟨⟨_, _, ht.1.setWork hkey none⟩, ht.2.2⟩
  | @preserve dir entry pid nanos backup name =>
    obtain ⟨ht, final, staged⟩ := ht
    have saved : Traces c key start ((d.setWork backup d.final).setFinal none) (some dir)
        (some backup) := by
      refine ⟨fun other changed => ?_, ht.staging, fun other hn => ?_, fun _ => ?_⟩
      · rcases Traces.changed_setWork changed with before | same
        · exact (ht.only other before).imp_right (by simp)
        · exact .inr (congrArg some same)
      · exact ⟨pid, nanos, Option.some.inj hn ▸ name⟩
      · simpa [Kept] using final
    exact ⟨saved, rfl, by simpa [(saved.ne hkey).symm] using staged⟩
  | publishFails => exact ⟨ht.1, ht.1.kept ht.2.1⟩
  | @publish dir entry backup missing =>
    obtain ⟨ht, -, staged⟩ := ht
    have kept : Kept start.final ((d.setFinal (d.work dir)).setWork dir none) backup :=
      ht.kept_setWork hkey (ht.kept missing) none
    refine ⟨ht.update (fun name changed => ?_) fun _ => kept, kept, by simpa using staged⟩
    exact (Traces.changed_setWork changed).imp_right fun same => .inl (congrArg some same)
  | checkFails => exact ⟨ht.1, ht.2.1⟩
  | commit at_ => exact ⟨⟨_, _, ht.1⟩, at_⟩
  | commitBackup at_ => exact ⟨⟨_, ht.1⟩, at_⟩
  | dropBackupSome | dropBackup =>
    obtain ⟨⟨dir, ht⟩, final⟩ := ht
    first
      | exact ⟨⟨dir, ht.setBackup final _⟩, final⟩
      | exact ⟨⟨dir, _, ht.setBackup final _⟩, final⟩
  | dropBackupFails => exact ⟨ht.1.imp fun _ h => ⟨_, h⟩, ht.2⟩
  | unpublishSome | unpublish =>
    exact ⟨ht.1.update (fun _ => .inl) fun _ => ht.2, ht.2⟩
  | unpublishFails => exact ht
  | restore => exact ⟨_, ht.1.restore ht.2⟩
  | restoreFails => exact ⟨_, ht.1⟩
  | @cleanSome dir promotion | @clean dir promotion =>
    cases promotion with
    | false => first | exact ⟨ht.1.setWork hkey _, ht.2⟩ | exact ⟨_, _, ht.1.setWork hkey _⟩
    | true =>
      obtain ⟨backup, ht⟩ := ht
      first | exact ⟨backup, ht.setWork hkey _⟩ | exact ⟨_, backup, ht.setWork hkey _⟩
  | leaseFails => exact ht.1
  | lease => exact ht
  | read => exact ⟨ht.1, ht.2, rfl⟩
  | hit => exact ⟨⟨_, _, ht.1⟩, ht.2.2⟩
  | miss => exact ⟨ht.1, ht.2.1⟩
  | _ => exact ht.traces

theorem InstallStep.rollsBack (h : InstallStep c key job free d pc d' pc')
    (rolls : pc.RollsBack) : pc'.RollsBack := by
  cases h <;> trivial

/-- What a step can make of the final directory. -/
theorem InstallStep.final_cases (h : InstallStep c key job free d pc d' pc')
    (left : pc.Leaves c key start d) (chain : pc.Chain c job) :
    d'.final = d.final ∨ d'.final = none ∨ Intact c job start.final d'.final ∨
      ∃ dir backup, pc = .unpublishing dir backup ∧ pc' = .unpublishing dir backup := by
  cases h with
  | preserve | unpublish => exact .inr (.inl rfl)
  | publish =>
    obtain ⟨-, -, staged⟩ := left
    exact .inr (.inr (.inl (.inr ⟨_, by simpa using staged, chain⟩)))
  | restore => exact .inr (.inr (.inl (.inl left.2)))
  | unpublishSome => exact .inr (.inr (.inr ⟨_, _, rfl, rfl⟩))
  | _ => exact .inl rfl

/-- A final directory that is there is intact, unless a roll-back has begun. -/
theorem InstallStep.intact (h : InstallStep c key job free d pc d' pc')
    (left : pc.Leaves c key start d) (chain : pc.Chain c job)
    (intact : ¬pc.RollsBack → d.final ≠ none → Intact c job start.final d.final)
    (going : ¬pc'.RollsBack) (there : d'.final ≠ none) : Intact c job start.final d'.final := by
  rcases h.final_cases left chain with same | gone | whole | ⟨dir, backup, -, rfl⟩
  · rw [same] at there ⊢
    exact intact (fun rolls => going (h.rollsBack rolls)) there
  · exact absurd gone there
  · exact whole
  · exact absurd trivial going

end Install

/-! ### Kills -/

/-- One process installs the key, whatever is on disk. -/
def installSystem (c : Crates) (job : Job) (start : Disk) :
    Transition.System (Disk × InstallPc) InstallPc where
  init s := s = (start, .publication)
  step s pc t := pc = t.2 ∧ InstallStep c (job.key c) job (fun _ => True) s.1 s.2 t.1 t.2

/-- The roll-back of a promotion does not delete a part of the published entry only. -/
def Whole (s : Disk × InstallPc) (pc : InstallPc) : Prop :=
  match s.2, pc with
  | .unpublishing _ _, .unpublishing _ _ => False
  | _, _ => True

/-- The staging directory may be there without all of its contents. -/
def InstallPc.Preparing : InstallPc → Prop
  | .downloading _ _ | .creating _ _ | .extracting _ _ | .resolving _ _ _ | .finishing _ _ _ _
  | .discarding _ _ | .cleaning _ _ | .failed => True
  | _ => False

/-- Where the final directory is missing, before any roll-back. -/
def InstallPc.Missing (before : Option Node) : InstallPc → Prop
  | .publishing _ _ _ => True
  | .checking _ _ _ | .committed _ _ | .lease _ | .returned _ => False
  | _ => before = none

/-- What the staging directory holds where it is new, and where it has been or is to be
published. -/
def InstallPc.Stages (c : Crates) (job : Job) (d : Disk) : InstallPc → Prop
  | .downloading dir none => d.work dir = some (.dir [])
  | .checking dir _ _ => d.work dir = none
  | .unpublishing dir _ => d.final ≠ none ∧ d.work dir = none
  | .restoring dir _ => ∀ node, d.work dir = some node → Prepared c job node
  | _ => True

/-- What is known of the disk and the installation, whenever the process is killed. -/
structure Killable (c : Crates) (job : Job) (start d : Disk) (pc : InstallPc) : Prop where
  left : pc.Leaves c (job.key c) start d
  chain : pc.Chain c job
  stages : pc.Stages c job d
  intact : d.final ≠ none → Intact c job start.final d.final

section Kill

variable {c : Crates} {key : Str} {job : Job} {start : Disk} {free : Hold → Prop}
  {d d' : Disk} {pc pc' : InstallPc}

theorem InstallPc.Leaves.missing (h : pc.Leaves c key start d) (going : ¬pc.RollsBack) :
    d.final = none ↔ pc.Missing start.final := by
  cases pc with
  | publishing => exact iff_of_true h.2.1 trivial
  | checking => exact iff_of_false (by simp [h.2.2]) id
  | committed | lease | returned => exact iff_of_false (by simp [h.2]) id
  | validating | discarding | writeLease | probing | revalidating | preserving =>
    rw [h.2.1]
    exact Iff.rfl
  | cleaning dir promotion =>
    cases promotion with
    | false =>
      rw [h.2]
      exact Iff.rfl
    | true => exact absurd trivial going
  | unpublishing | restoring | failed => exact absurd trivial going
  | _ =>
    rw [h.2]
    exact Iff.rfl

theorem InstallStep.stages (h : InstallStep c key job free d pc d' pc') (whole : Whole (d, pc) pc')
    (left : pc.Leaves c key start d) (chain : pc.Chain c job) (stages : pc.Stages c job d) :
    pc'.Stages c job d' := by
  cases h with
  | stage | publish => simp [InstallPc.Stages]
  | publishFails =>
    obtain ⟨-, -, staged⟩ := left
    intro node there
    rw [staged, Option.some.injEq] at there
    exact there ▸ chain
  | checkFails => exact ⟨by simp [left.2.2], stages⟩
  | unpublish | unpublishFails =>
    intro node there
    simp [show d.work _ = none from stages.2] at there
  | unpublishSome => exact whole.elim
  | _ => trivial

theorem killable (h : ((installSystem c job start).restrict Whole).Reachable (d, pc)) :
    Killable c job start d pc := by
  refine h.invariant (I := fun s => Killable c job start s.1 s.2) (fun s init => ?_)
    fun s pc t _ hs step => ?_
  · rw [show s = (start, .publication) from init]
    exact ⟨InstallPc.leaves_start, trivial, trivial, fun _ => .inl rfl⟩
  · obtain ⟨whole, rfl, step⟩ := step
    refine ⟨step.leaves (plain_key c job) hs.left, step.chain hs.chain,
      step.stages whole hs.left hs.chain hs.stages, fun there => ?_⟩
    rcases step.final_cases hs.left hs.chain with same | gone | intact | ⟨dir, backup, pc, pc'⟩
    · rw [same] at there ⊢
      exact hs.intact there
    · exact absurd gone there
    · exact intact
    · simp [Whole, pc, pc'] at whole

/-- A staging directory of which nothing is missing can be published. -/
theorem Killable.prepared (h : Killable c job start d pc) (ready : ¬pc.Preparing)
    (missing : d.final = none) : ∃ dir backup, Traces c (job.key c) start d dir backup ∧
      ∀ name, dir = some name → ∀ node, d.work name = some node → Prepared c job node := by
  obtain ⟨left, chain, stages, -⟩ := h
  cases pc with
  | publication | readLease | staging | validating => exact ⟨_, _, left.1, by simp⟩
  | writeLease | probing | revalidating | preserving | publishing =>
    refine ⟨_, _, left.1, fun name same node there => ?_⟩
    obtain rfl := Option.some.inj same
    rw [left.2.2, Option.some.injEq] at there
    exact there ▸ chain
  | restoring =>
    refine ⟨_, _, left.1, fun name same => ?_⟩
    obtain rfl := Option.some.inj same
    exact stages
  | checking => exact absurd left.2.2 (by simp [missing])
  | unpublishing => exact absurd missing stages.1
  | committed | lease | returned => exact absurd left.2 (by simp [missing])
  | _ => exact absurd trivial ready

end Kill

/-! ### Recovery -/

/-- The directories beside the final one that the sweep takes for backups of the key. -/
def Disk.backups (key : Str) (d : Disk) : Set Str :=
  {name | d.work name ≠ none ∧ workDirCacheKey name = some key ∧
    Str.contains name backupMarker = true}

/-- The final directory is intact, and no work directory of the key is left. -/
structure Recovered (c : Crates) (job : Job) (before : Option Node) (d : Disk) : Prop where
  final : Intact c job before d.final
  work : ∀ name, workDirCacheKey name = some (job.key c) → d.work name = none

/-- If the process is killed while the final directory is missing, the last of the backups is
restored.  That one is not left over from before the installation, unless it is as good as what the
installation found or makes; and it is no staging directory that is being prepared, which a version
with `-backup-` in it would let pass for a backup. -/
structure Recoverable (c : Crates) (job : Job) (start d : Disk) (pc : InstallPc) : Prop where
  leftover : d.final = none → ∀ name, IsGreatest (d.backups (job.key c)) name →
    d.work name = start.work name → Intact c job start.final (start.work name)
  version : d.final = none → backupMarker <:+: job.key c → pc.Preparing → ∀ random, '-' ∉ random →
    IsGreatest (d.backups (job.key c)) (stagingName (job.key c) random) →
    d.work (stagingName (job.key c) random) = start.work (stagingName (job.key c) random)

/-- The work directories of the key that a sweep finds. -/
def Scanned (c : Crates) (job : Job) (d : Disk) (entries : List Str) : Prop :=
  ∀ name, name ∈ entries ↔ d.work name ≠ none ∧ workDirCacheKey name = some (job.key c)

@[simp] theorem removeWork_final (restored : Option Str) (entries : List Str) (d : Disk) :
    (removeWork restored entries d).final = d.final := by
  induction entries generalizing d with
  | nil => rfl
  | cons entry entries ih =>
    rw [removeWork, ih]
    split_ifs <;> rfl

theorem removeWork_work {restored : Option Str} {name : Str} (other : restored ≠ some name)
    (entries : List Str) (d : Disk) :
    (removeWork restored entries d).work name = if name ∈ entries then none else d.work name := by
  induction entries generalizing d with
  | nil => rfl
  | cons entry entries ih =>
    rw [removeWork, ih]
    by_cases same : name = entry
    · subst same
      simp [other]
    · split_ifs <;> simp_all

theorem removeWork_restored (name : Str) (entries : List Str) (d : Disk) :
    (removeWork (some name) entries d).work name = d.work name := by
  induction entries generalizing d with
  | nil => rfl
  | cons entry entries ih =>
    rw [removeWork, ih]
    split_ifs with same
    · rfl
    · simp [show name ≠ entry from fun h => same (congrArg some h)]

section Recovery

variable {c : Crates} {job : Job} {before : Option Node} {start d : Disk} {pc : InstallPc}
  {entries : List Str} {dir? backup : Option Str}

/-- Where nothing was left over that the sweep takes for a backup, the version and the point of the
kill decide. -/
theorem recoverable_of_start (clean : start.backups (job.key c) = ∅)
    (version : ¬backupMarker <:+: job.key c ∨ ¬pc.Preparing ∨ d.final ≠ none) :
    Recoverable c job start d pc where
  leftover _ name last same := by
    have left : name ∈ start.backups (job.key c) := by
      refine ⟨?_, last.1.2⟩
      rw [← same]
      exact last.1.1
    simp [clean] at left
  version missing inside preparing := by
    rcases version with unmarked | ready | there
    · exact absurd inside unmarked
    · exact absurd preparing ready
    · exact absurd missing there

/-- Once all of them are removed, no work directory of the key is left. -/
theorem Scanned.work (scan : Scanned c job d entries) {name : Str}
    (hn : workDirCacheKey name = some (job.key c)) : (removeWork none entries d).work name = none := by
  rw [removeWork_work (by simp)]
  split_ifs with mem
  · rfl
  · by_contra there
    exact mem ((scan name).mpr ⟨there, hn⟩)

theorem Scanned.work_restored (scan : Scanned c job d entries) {name restored : Str} {node : Node}
    (hn : workDirCacheKey name = some (job.key c)) :
    (removeWork (some restored) entries
      ((d.setFinal (some node)).setWork restored none)).work name = none := by
  by_cases same : name = restored
  · rw [same, removeWork_restored]
    simp
  · rw [removeWork_work (fun h => same (Option.some.inj h).symm)]
    split_ifs with mem
    · rfl
    · by_contra there
      exact mem ((scan name).mpr ⟨by simpa [same] using there, hn⟩)

theorem Scanned.mem_sweepBackups (scan : Scanned c job d entries) {name : Str} :
    name ∈ sweepBackups entries ↔ name ∈ d.backups (job.key c) := by
  simp [sweepBackups, Disk.backups, scan name, and_assoc]

theorem Scanned.isGreatest (scan : Scanned c job d entries) {name : Str} {rest : List Str}
    (first : sweepBackups entries = name :: rest) : IsGreatest (d.backups (job.key c)) name := by
  refine ⟨scan.mem_sweepBackups.mp (by simp [first]), fun other listed => ?_⟩
  have mem := (scan other).mpr ⟨listed.1, listed.2.1⟩
  exact (sweepBackups_head first).2.2 other mem listed.2.2

/-- The sweep keeps a final directory, and otherwise restores the last of the backups. -/
theorem recovered_iff (scan : Scanned c job d entries) :
    Recovered c job before (cleanStaleStagingEntries entries d) ↔
      (d.final ≠ none → Intact c job before d.final) ∧
      (d.final = none → (d.backups (job.key c) = ∅ → before = none) ∧
        ∀ name, IsGreatest (d.backups (job.key c)) name → Intact c job before (d.work name)) := by
  rw [cleanStaleStagingEntries]
  split_ifs with present
  · have there : d.final ≠ none := Option.isSome_iff_ne_none.mp present
    constructor
    · rintro ⟨final, -⟩
      exact ⟨fun _ => by simpa using final, fun missing => absurd missing there⟩
    · rintro ⟨final, -⟩
      exact ⟨by simpa using final there, fun name hn => scan.work hn⟩
  · have missing : d.final = none := by simpa using present
    cases hb : sweepBackups entries with
    | nil =>
      have empty : d.backups (job.key c) = ∅ := by
        ext name
        simp [← scan.mem_sweepBackups, hb]
      have recovered : Recovered c job before (restoreBackup entries [] d) ↔ before = none := by
        constructor
        · rintro ⟨same | ⟨node, there, -⟩, -⟩
          · simpa [restoreBackup, missing, eq_comm] using same
          · simp [restoreBackup, missing] at there
        · intro absent
          exact ⟨.inl (by simp [restoreBackup, missing, absent]), fun name hn => scan.work hn⟩
      have nothing : ∀ name, ¬IsGreatest (∅ : Set Str) name := fun _ last => last.1
      simp [recovered, missing, empty, nothing]
    | cons name rest =>
      have last := scan.isGreatest hb
      obtain ⟨node, hnode⟩ := Option.ne_none_iff_exists'.mp last.1.1
      have recovered : Recovered c job before (restoreBackup entries (name :: rest) d) ↔
          Intact c job before (d.work name) := by
        rw [restoreBackup, hnode]
        exact ⟨fun h => by simpa using h.final,
          fun h => ⟨by simpa using h, fun other hn => scan.work_restored hn⟩⟩
      have only : ∀ other, IsGreatest (d.backups (job.key c)) other ↔ other = name := fun other =>
        ⟨fun h => h.unique last, fun same => same ▸ last⟩
      have some_ : d.backups (job.key c) ≠ ∅ := Set.nonempty_iff_ne_empty.mp ⟨name, last.1⟩
      simp [recovered, missing, only, some_]

/-- The last of the backups is left over from before, or the backup of the installation, or its
staging directory. -/
theorem Traces.origin (ht : Traces c (job.key c) start d dir? backup) (missing : d.final = none)
    (name : Str) : d.work name = start.work name ∨ d.work name = start.final ∨ dir? = some name := by
  by_cases same : d.work name = start.work name
  · exact .inl same
  · rcases ht.only name same with isDir | isBackup
    · exact .inr (.inr isDir)
    · subst isBackup
      exact .inr (.inl (ht.kept missing))

/-- The entry from before is among the backups, if the final directory is missing. -/
theorem Traces.backed_up (ht : Traces c (job.key c) start d dir? backup) (missing : d.final = none)
    (empty : d.backups (job.key c) = ∅) : start.final = none := by
  have kept := ht.kept missing
  cases backup with
  | none => exact kept
  | some name =>
    by_contra there
    obtain ⟨pid, nanos, rfl⟩ := ht.backups name rfl
    have listed : backupName c.sha256 (job.key c) pid nanos ∈ d.backups (job.key c) :=
      ⟨by rwa [show d.work _ = start.final from kept],
        workDirCacheKey_backupName (plain_key c job) pid nanos, contains_backupName pid nanos⟩
    simp [empty] at listed

theorem Recoverable.recovered {digest : Digest} (parses : parseSha256 job.digest = .ok digest)
    (h : Killable c job start d pc) (scan : Scanned c job d entries)
    (recoverable : Recoverable c job start d pc) :
    Recovered c job start.final (cleanStaleStagingEntries entries d) := by
  obtain ⟨dir, backup, ht, prepared⟩ : ∃ dir backup, Traces c (job.key c) start d dir backup ∧
      (¬pc.Preparing → d.final = none → ∀ name, dir = some name → ∀ node,
        d.work name = some node → Prepared c job node) := by
    by_cases able : ¬pc.Preparing ∧ d.final = none
    · obtain ⟨dir, backup, ht, prepared⟩ := h.prepared able.1 able.2
      exact ⟨dir, backup, ht, fun _ _ => prepared⟩
    · obtain ⟨dir, backup, ht⟩ := h.left.traces
      exact ⟨dir, backup, ht, fun ready missing => absurd ⟨ready, missing⟩ able⟩
  refine (recovered_iff scan).mpr ⟨h.intact, fun missing =>
    ⟨ht.backed_up missing, fun name last => ?_⟩⟩
  rcases ht.origin missing name with left | old | isDir
  · rw [left]
    exact recoverable.leftover missing name last left
  · exact .inl old
  · obtain ⟨random, alnum, rfl⟩ := ht.staging name isDir
    by_cases preparing : pc.Preparing
    · obtain ⟨front, l, hlast, hex⟩ := cacheKey_last parses
      have inside := (contains_stagingName hlast hex alnum).mp last.1.2.2
      have left := recoverable.version missing inside preparing random alnum last
      rw [left]
      exact recoverable.leftover missing _ last left
    · obtain ⟨node, hnode⟩ := Option.ne_none_iff_exists'.mp last.1.1
      exact .inr ⟨node, hnode, prepared preparing missing _ isDir node hnode⟩

/-- An empty directory is no prepared entry. -/
theorem not_prepared_empty : ¬Prepared c job (.dir []) := by
  rintro ⟨name, archive, tree, executable, -, -, -, -, -, same⟩
  have metadata := congrArg (Node.child · metadataName) same
  simp [child_stagedEntry_metadata] at metadata

theorem Recovered.recoverable (h : Killable c job start d pc) (scan : Scanned c job d entries)
    (known : ¬pc.Preparing ∨ ∃ dir, pc = .downloading dir none)
    (recovered : Recovered c job start.final (cleanStaleStagingEntries entries d)) :
    Recoverable c job start d pc := by
  have last := fun missing => (((recovered_iff scan).mp recovered).2 missing).2
  refine ⟨fun missing name isLast same => same ▸ last missing name isLast,
    fun missing _ preparing random _ isLast => ?_⟩
  obtain ⟨dir, rfl⟩ := known.resolve_left (not_not_intro preparing)
  obtain ⟨ht, final⟩ := h.left
  have absent : start.final = none := final.symm.trans missing
  rcases ht.origin missing (stagingName (job.key c) random) with left | old | isDir
  · exact left
  · exact absurd (old.trans absent) isLast.1.1
  · -- The new staging directory is empty.
    have empty : d.work (stagingName (job.key c) random) = some (.dir []) :=
      Option.some.inj isDir ▸ h.stages
    rcases last missing _ isLast with old | ⟨node, there, prepared⟩
    · exact absurd (old.trans absent) isLast.1.1
    · rw [empty, Option.some.injEq] at there
      exact absurd (there ▸ prepared) not_prepared_empty

/-- After a kill at any point, whatever the disk held at first, the sweep ends, and recovers what is
recoverable.  Where it is certain what the staging directory holds, it recovers nothing else.  Before
a roll-back the point of the kill tells whether the final directory is missing. -/
theorem crash_recovery {digest : Digest} (parses : parseSha256 job.digest = .ok digest)
    (h : ((installSystem c job start).restrict Whole).Reachable (d, pc))
    (scan : Scanned c job d entries) :
    (∃ d', (sweepSystem entries d).Reachable (d', .done)) ∧
      (∀ d', (sweepSystem entries d).Reachable (d', .done) →
        (Recoverable c job start d pc → Recovered c job start.final d') ∧
        (¬pc.Preparing ∨ (∃ dir, pc = .downloading dir none) →
          Recovered c job start.final d' → Recoverable c job start d pc)) ∧
      (¬pc.RollsBack → (d.final = none ↔ pc.Missing start.final)) := by
  have state := killable h
  refine ⟨⟨_, sweep_done.mpr rfl⟩, fun d' done => ?_, state.left.missing⟩
  rw [sweep_done.mp done]
  exact ⟨Recoverable.recovered parses state scan, Recovered.recoverable state scan⟩

end Recovery

/-! An agent version with `-backup-` in it, whose installation is killed as its download begins. -/

namespace Sample

/-- The staging directory is empty when the process is killed. -/
def killed (start : Disk) (job : Job) : Disk :=
  start.setWork (stagingName (job.key crates) (str "x")) (some (.dir []))

theorem reachable_killed {job : Job} {start : Disk} (missing : start.final = none)
    (fresh : start.work (stagingName (job.key crates) (str "x")) = none) :
    ((installSystem crates job start).restrict Whole).Reachable
      (killed start job, .downloading (stagingName (job.key crates) (str "x")) none) := by
  have h0 : ((installSystem crates job start).restrict Whole).Reachable (start, .publication) :=
    .init rfl
  have h1 := h0.step (t := (start, .readLease)) ⟨trivial, rfl, .lock trivial⟩
  have h2 := h1.step (t := (start, .validating start.final)) ⟨trivial, rfl, .read trivial⟩
  have h3 := h2.step (t := (start, .staging)) ⟨trivial, rfl, .miss (by rw [missing]; rfl)⟩
  exact h3.step ⟨trivial, rfl, .stage (by decide) fresh⟩

theorem scanned_killed {job : Job} {start : Disk} {entries : List Str}
    (scan : Scanned crates job start entries) :
    Scanned crates job (killed start job) (stagingName (job.key crates) (str "x") :: entries) := by
  intro name
  rw [List.mem_cons, scan name]
  by_cases same : name = stagingName (job.key crates) (str "x")
  · have read : workDirCacheKey (stagingName (job.key crates) (str "x")) = some (job.key crates) :=
      workDirCacheKey_stagingName (plain_key crates job).nonempty (by decide)
    subst same
    simp [killed, read]
  · simp [killed, same]

def backupJob : Job := { job with version := str "1.0-backup-1" }

/-- Another installation has left its staging directory. -/
def littered : Disk := (Disk.bare none).setWork (stagingName key (str "y")) (some (.dir []))

theorem scanned_bare (job : Job) : Scanned crates job (.bare none) [] := fun name => by simp

theorem scanned_littered : Scanned crates job littered [stagingName key (str "y")] := by
  intro name
  have read : workDirCacheKey (stagingName key (str "y")) = some key :=
    workDirCacheKey_stagingName (by decide) (by decide)
  rw [key_job, List.mem_singleton]
  constructor
  · rintro rfl
    exact ⟨by simp [littered], read⟩
  · rintro ⟨there, -⟩
    exact ((Traces.changed_setWork there).resolve_left (by simp)).symm

theorem recoverable_littered {d : Disk} {pc : InstallPc} :
    Recoverable crates job littered d pc := by
  refine recoverable_of_start ?_ (.inl (by rw [key_job]; decide +kernel))
  ext name
  simp only [Disk.backups, Set.mem_ofPred_eq, Set.mem_empty_iff_false, iff_false]
  rintro ⟨there, -, marked⟩
  obtain rfl := (Traces.changed_setWork there).resolve_left (by simp)
  exact absurd marked (by decide)

end Sample

/-- Version 1.0.0 is killed as its download begins, with a staging directory left over. -/
theorem crash_recovery_littered : ∃ d', (sweepSystem
    [stagingName (Sample.job.key Sample.crates) (str "x"), stagingName Sample.key (str "y")]
    (Sample.killed Sample.littered Sample.job)).Reachable (d', .done) ∧
      Recovered Sample.crates Sample.job none d' := by
  have killed : ((installSystem Sample.crates Sample.job Sample.littered).restrict Whole).Reachable
      (Sample.killed Sample.littered Sample.job, _) := Sample.reachable_killed rfl (by decide)
  obtain ⟨⟨d', done⟩, recovers, -⟩ := crash_recovery Sample.parse_digest killed
    (Sample.scanned_killed Sample.scanned_littered)
  exact ⟨d', done, (recovers d' done).1 Sample.recoverable_littered⟩

/-- The sweep makes the empty staging directory the final directory. -/
theorem partial_staging_restored : ∃ d pc entries d',
    (installSystem Sample.crates Sample.backupJob (.bare none)).Reachable (d, pc) ∧
      Scanned Sample.crates Sample.backupJob d entries ∧
      (sweepSystem entries d).Reachable (d', .done) ∧ d'.final = some (.dir []) ∧
      ¬Recovered Sample.crates Sample.backupJob none d' := by
  refine ⟨_, _, _, _, (Sample.reachable_killed rfl rfl).of_restrict,
    Sample.scanned_killed (Sample.scanned_bare _), sweep_done.mpr rfl, ?_⟩
  have final : (cleanStaleStagingEntries [stagingName (Sample.backupJob.key Sample.crates) (str "x")]
      (Sample.killed (.bare none) Sample.backupJob)).final = some (.dir []) := by
    have marked : Str.contains (stagingName (Sample.backupJob.key Sample.crates) (str "x"))
        backupMarker = true := by decide
    have found : sweepBackups [stagingName (Sample.backupJob.key Sample.crates) (str "x")] =
        [stagingName (Sample.backupJob.key Sample.crates) (str "x")] := by
      simp [sweepBackups, marked]
    rw [cleanStaleStagingEntries, found]
    simp [Sample.killed, restoreBackup]
  refine ⟨final, fun h => ?_⟩
  rcases h.final with absent | ⟨node, there, prepared⟩
  · simp [final] at absent
  · rw [final, Option.some.injEq] at there
    exact not_prepared_empty (there ▸ prepared)

end AcpAgent.Installer
