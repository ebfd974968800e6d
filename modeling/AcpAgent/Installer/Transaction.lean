import Mathlib.Logic.Relation
import AcpAgent.Installer.Promotion

/-! A promotion as a whole, with its `Drop`, is a run of the single operations of an installation. -/

namespace AcpAgent.Installer

section Transaction

variable {c : Crates} {key : Str} {job : Job} {free : Hold → Prop}

/-- Operations of an installation one after another. -/
abbrev InstallSteps (c : Crates) (key : Str) (job : Job) (free : Hold → Prop) :
    Disk × InstallPc → Disk × InstallPc → Prop :=
  Relation.ReflTransGen fun x y => InstallStep c key job free x.1 x.2 y.1 y.2

theorem InstallStep.one {d d' : Disk} {pc pc' : InstallPc}
    (step : InstallStep c key job free d pc d' pc') :
    InstallSteps c key job free (d, pc) (d', pc') :=
  .single step

theorem InstallStep.andThen {d d' : Disk} {pc pc' : InstallPc} {z : Disk × InstallPc}
    (step : InstallStep c key job free d pc d' pc')
    (rest : InstallSteps c key job free (d', pc') z) : InstallSteps c key job free (d, pc) z :=
  .head step rest

/-- A recursive delete of this node, if it fails, leaves a part of it. -/
def Removal.Of (removal : Removal) (node : Node) : Prop :=
  ∀ left, removal = .error left → node.Trims left

theorem isDir_of_trims {node left : Node} (h : node.Trims left) : left.isDir = node.isDir := by
  obtain ⟨before, hb, same, -⟩ := h [] left rfl
  obtain rfl := Option.some.inj hb
  exact same.symm

/-- The end of `drop` without a success. -/
def PromotionCalls.clean (calls : PromotionCalls) (dir : Str) (d : Disk) : Disk :=
  let (_, staging, d) := cleanupBlocking (some dir) calls.cleanup d
  PromotionTransaction.dropStaging staging calls.lastCleanup d

/-- The backup is renamed to the final directory unless there is something. -/
def PromotionCalls.restoreBackup (calls : PromotionCalls) (live : Bytes → Bool)
    (backup : Option Str) (d : Disk) : Disk :=
  match backup with
  | some backup =>
    if d.finalExists live then d
    else if calls.restore then (d.renameWork backup).getD d else d
  | none => d

variable {calls : PromotionCalls} {live : Bytes → Bool} {dir : Str} {d : Disk}

theorem drop_eq {t : PromotionTransaction} (uncommitted : t.committed = false)
    (owned : t.staging = some dir) :
    t.drop live calls d = calls.clean dir (calls.restoreBackup live t.backupDir
      (if t.published then d.removeFinalAll calls.unpublish else d)) := by
  rw [PromotionTransaction.drop, if_neg (by simp [uncommitted]), owned]
  rfl

theorem cleanupBlocking_none (gone : d.work dir = none) (removal : Removal) :
    cleanupBlocking (some dir) removal d = (true, none, d) := by
  simp [cleanupBlocking, Disk.removeWorkAll, gone]

theorem cleanupBlocking_error {node : Node} (at_ : d.work dir = some node) (left : Node) :
    cleanupBlocking (some dir) (.error left) d = (false, some dir, d.setWork dir (some left)) := by
  simp [cleanupBlocking, at_]

theorem clean_steps (cleanup : ∀ node, d.work dir = some node → calls.cleanup.Of node)
    (last : ∀ node, calls.cleanup = .error node → calls.lastCleanup.Of node) :
    InstallSteps c key job free (d, .cleaning dir true) (calls.clean dir d, .failed) := by
  unfold PromotionCalls.clean
  cases at_ : d.work dir with
  | none =>
    rw [cleanupBlocking_none at_]
    exact InstallStep.cleanFails.one
  | some node =>
    cases ended : calls.cleanup with
    | ok =>
      rw [cleanupBlocking_ok]
      exact InstallStep.clean.one
    | error left =>
      rw [cleanupBlocking_error at_]
      have trims : node.Trims left := cleanup node at_ left ended
      have first : InstallStep c key job free d (.cleaning dir true)
          (d.setWork dir (some left)) (.cleaning dir true) := .cleanSome at_ trims
      have at_left : (d.setWork dir (some left)).work dir = some left := by simp
      simp only [PromotionTransaction.dropStaging, Disk.removeWorkAll, at_left]
      cases again : calls.lastCleanup with
      | ok => exact first.andThen InstallStep.clean.one
      | error rest =>
        have second : InstallStep c key job free (d.setWork dir (some left)) (.cleaning dir true)
            ((d.setWork dir (some left)).setWork dir (some rest)) (.cleaning dir true) :=
          .cleanSome at_left (last left ended rest again)
        exact first.andThen (second.andThen InstallStep.cleanFails.one)

theorem restore_steps {backup : Option Str} (other : ∀ b, backup = some b → b ≠ dir)
    (missing : d.finalExists live = false → d.final = none)
    (cleanup : ∀ node, d.work dir = some node → calls.cleanup.Of node)
    (last : ∀ node, calls.cleanup = .error node → calls.lastCleanup.Of node) :
    InstallSteps c key job free (d, .restoring dir backup)
      (calls.clean dir (calls.restoreBackup live backup d), .failed) := by
  have skipped : InstallSteps c key job free (d, .restoring dir backup)
      (calls.clean dir d, .failed) :=
    InstallStep.restoreFails.andThen (clean_steps cleanup last)
  cases backup with
  | none => exact skipped
  | some b =>
    unfold PromotionCalls.restoreBackup
    dsimp only
    split_ifs with there restores
    · exact skipped
    · cases renamed : d.renameWork b with
      | none => exact skipped
      | some d' =>
        obtain ⟨node, at_, -, rfl⟩ := renameWork_eq_some renamed
        have step : InstallStep c key job free d (.restoring dir (some b))
            ((d.setFinal (some node)).setWork b none) (.cleaning dir true) := by
          rw [← at_]
          exact .restore (missing (by simpa using there))
        refine step.andThen (clean_steps (fun staged hstaged => cleanup staged ?_) last)
        simpa [(other b rfl).symm] using hstaged
    · exact skipped

/-- The rollback of a transaction whose staging directory may have been published. -/
theorem drop_steps {t : PromotionTransaction} (uncommitted : t.committed = false)
    (owned : t.staging = some dir) (other : ∀ b, t.backupDir = some b → b ≠ dir)
    (final : ∀ node, d.final = some node → node.isDir = true)
    (unpublish : ∀ node, d.final = some node → calls.unpublish.Of node)
    (cleanup : ∀ node, d.work dir = some node → calls.cleanup.Of node)
    (last : ∀ node, calls.cleanup = .error node → calls.lastCleanup.Of node) :
    InstallSteps c key job free
      (d, if t.published then .unpublishing dir t.backupDir else .restoring dir t.backupDir)
      (t.drop live calls d, .failed) := by
  have missing : ∀ d : Disk, (∀ node, d.final = some node → node.isDir = true) →
      d.finalExists live = false → d.final = none := by
    intro d dirs missing
    cases at_ : d.final with
    | none => rfl
    | some node =>
      rw [Disk.finalExists_dir at_ (dirs node at_)] at missing
      exact absurd missing Bool.noConfusion
  rw [drop_eq uncommitted owned]
  cases t.published with
  | false => exact restore_steps other (missing d final) cleanup last
  | true =>
    simp only [if_true]
    cases at_ : d.final with
    | none =>
      have same : d.removeFinalAll calls.unpublish = d := by simp [Disk.removeFinalAll, at_]
      rw [same]
      exact InstallStep.unpublishFails.andThen (restore_steps other (missing d final) cleanup last)
    | some node =>
      cases ended : calls.unpublish with
      | ok =>
        rw [removeFinalAll_ok]
        exact InstallStep.unpublish.andThen (restore_steps other (fun _ => rfl) cleanup last)
      | error left =>
        have trims : node.Trims left := unpublish node at_ left ended
        have kept : d.removeFinalAll (.error left) = d.setFinal (some left) := by
          simp [Disk.removeFinalAll, at_]
        have dirs : ∀ node, (d.setFinal (some left)).final = some node → node.isDir = true := by
          intro node' hnode
          obtain rfl := Option.some.inj hnode
          rw [isDir_of_trims trims, final node at_]
        rw [kept]
        have part : InstallStep c key job free d (.unpublishing dir t.backupDir)
            (d.setFinal (some left)) (.unpublishing dir t.backupDir) := .unpublishSome at_ trims
        exact part.andThen (InstallStep.unpublishFails.andThen
          (restore_steps other (missing _ dirs) cleanup last))

/-- The installation goes on after a success and has failed otherwise. -/
def InstallPc.Follows : Except PromotionError Unit → InstallPc → Prop
  | .ok _, .lease _ | .error _, .failed => True
  | _, _ => False

/-- A run of the installation leaves what the transaction leaves once it is dropped. -/
def Ends (c : Crates) (key : Str) (job : Job) (free : Hold → Prop) (live : Bytes → Bool)
    (calls : PromotionCalls) (start : Disk × InstallPc) (ended : PromotionTransaction.Ended) : Prop :=
  ∃ pc, pc.Follows ended.1 ∧
    InstallSteps c key job free start (ended.2.1.drop live calls ended.2.2, pc)

theorem InstallStep.thenEnds {d d' : Disk} {pc pc' : InstallPc} {ended : PromotionTransaction.Ended}
    (step : InstallStep c key job free d pc d' pc')
    (rest : Ends c key job free live calls (d', pc') ended) :
    Ends c key job free live calls (d, pc) ended := by
  obtain ⟨last, follows, steps⟩ := rest
  exact ⟨last, follows, step.andThen steps⟩

/-- The backup is deleted, or a part of it remains. -/
theorem dropBackup_steps {cached : Node} {backup : Str}
    (trims : ∀ node, d.work backup = some node → calls.dropBackup.Of node) :
    InstallSteps c key job free (d, .committed cached backup)
      (d.removeWorkAll backup calls.dropBackup, .lease cached) := by
  cases at_ : d.work backup with
  | none =>
    have same : d.removeWorkAll backup calls.dropBackup = d := by simp [Disk.removeWorkAll, at_]
    rw [same]
    exact InstallStep.dropBackupFails.one
  | some node =>
    cases ended : calls.dropBackup with
    | ok =>
      rw [removeWorkAll_ok]
      exact InstallStep.dropBackup.one
    | error left =>
      have kept : d.removeWorkAll backup (.error left) = d.setWork backup (some left) := by
        simp [Disk.removeWorkAll, at_]
      have step : InstallStep c key job free d (.committed cached backup)
          (d.setWork backup (some left)) (.committed cached backup) :=
        .dropBackupSome at_ (trims node at_ left ended)
      rw [kept]
      exact step.andThen InstallStep.dropBackupFails.one

theorem publish_steps {t : PromotionTransaction} {entry : Node}
    (uncommitted : t.committed = false) (unpublished : t.published = false)
    (owned : t.staging = some dir) (other : ∀ b, t.backupDir = some b → b ≠ dir)
    (missing : d.final = none) (staged : d.work dir = some entry) (isDir : entry.isDir = true)
    (unpublish : calls.unpublish.Of entry) (cleanup : calls.cleanup.Of entry)
    (last : ∀ node, calls.cleanup = .error node → calls.lastCleanup.Of node)
    (dropBackup : ∀ b node, t.backupDir = some b → d.work b = some node →
      calls.dropBackup.Of node) :
    Ends c key job free live calls (d, .publishing dir entry t.backupDir)
      (t.publish (validateCachedBinary c job.expected) calls d) := by
  have renamed : d.renameWork dir = some ((d.setFinal (some entry)).setWork dir none) := by
    simp [Disk.renameWork, staged, missing, Node.canReplace]
  have step : InstallStep c key job free d (.publishing dir entry t.backupDir)
      ((d.setFinal (some entry)).setWork dir none) (.checking dir entry t.backupDir) := by
    rw [← staged]
    exact .publish missing
  unfold PromotionTransaction.publish
  rw [owned, Option.bind_some, renamed]
  cases calls.promote with
  | false =>
    have cleanup' : ∀ node, d.work dir = some node → calls.cleanup.Of node := by
      intro node hnode
      obtain rfl := Option.some.inj (staged.symm.trans hnode)
      exact cleanup
    have undone : InstallSteps c key job free
        (d, if t.published then .unpublishing dir t.backupDir else .restoring dir t.backupDir)
        (t.drop live calls d, .failed) :=
      drop_steps uncommitted owned other (by simp [missing]) (by simp [missing]) cleanup' last
    rw [unpublished] at undone
    exact ⟨.failed, trivial, InstallStep.publishFails.andThen undone⟩
  | true =>
    dsimp only
    have final : ((d.setFinal (some entry)).setWork dir none).final = some entry := rfl
    have gone : ((d.setFinal (some entry)).setWork dir none).work dir = none := by simp
    have backups : ∀ b, t.backupDir = some b →
        ((d.setFinal (some entry)).setWork dir none).work b = d.work b := by
      intro b hb
      simp [other b hb]
    generalize (d.setFinal (some entry)).setWork dir none = d' at step final gone backups
    have undone : InstallSteps c key job free (d', .unpublishing dir t.backupDir)
        (({ t with staging := some dir, published := true } : PromotionTransaction).drop live calls
          d', .failed) := by
      have published : ∀ node, d'.final = some node → node = entry := fun node hnode =>
        Option.some.inj (hnode.symm.trans final)
      exact drop_steps (t := { t with staging := some dir, published := true }) uncommitted rfl other
        (fun node hnode => published node hnode ▸ isDir)
        (fun node hnode => published node hnode ▸ unpublish) (by simp [gone]) last
    apply step.thenEnds
    cases checked : if calls.postPublish = true then validateCachedBinary c job.expected d'.final
      else .error with
    | miss => exact ⟨.failed, trivial, InstallStep.checkFails.andThen undone⟩
    | error => exact ⟨.failed, trivial, InstallStep.checkFails.andThen undone⟩
    | valid =>
      have valid : validateCachedBinary c job.expected d'.final = .valid := by
        split_ifs at checked
        exact checked
      dsimp only
      cases hb : t.backupDir with
      | none => exact ⟨.lease entry, trivial, (InstallStep.commit final valid).one⟩
      | some b =>
        have commit : InstallStep c key job free d' (.checking dir entry (some b)) d'
            (.committed entry b) := .commitBackup final valid
        refine ⟨.lease entry, trivial, commit.andThen (dropBackup_steps fun node hnode => ?_)⟩
        exact dropBackup b node hb ((backups b hb).symm.trans hnode)

/-- Every delete that fails leaves a part of what it was to delete: the staged entry, what was at the
final directory, or what an earlier delete has left. -/
structure PromotionCalls.Trim (calls : PromotionCalls) (entry : Node) (old : Option Node) : Prop where
  discard : calls.discard.Of entry
  unpublish : calls.unpublish.Of entry
  cleanup : calls.cleanup.Of entry
  again : ∀ left, calls.discard = .error left → calls.cleanup.Of left
  last : ∀ left, calls.cleanup = .error left → calls.lastCleanup.Of left
  dropBackup : ∀ node, old = some node → calls.dropBackup.Of node

/-- What a promotion starts from. -/
structure Promotable (live : Bytes → Bool) (calls : PromotionCalls) (dir backup : Str) (entry : Node)
    (before : Disk) : Prop where
  staged : before.work dir = some entry
  isDir : entry.isDir = true
  other : backup ≠ dir
  fresh : before.work backup = none ∨ before.work backup = some (.dir [])
  -- The final directory is no link that leads nowhere.
  absent : before.finalExists live = false → before.final = none
  trim : calls.Trim entry before.final

variable {backup : Str} {entry : Node} {before : Disk}

/-- A transaction that has changed nothing only removes its staging directory. -/
theorem drop_new (dir : Str) (d : Disk) :
    (PromotionTransaction.new dir).drop live calls d = calls.clean dir d :=
  drop_eq rfl rfl

theorem Promotable.clean (h : Promotable live calls dir backup entry before) :
    InstallSteps c key job free (before, .cleaning dir true)
      ((PromotionTransaction.new dir).drop live calls before, .failed) := by
  rw [drop_new]
  refine clean_steps (fun node hnode => ?_) h.trim.last
  obtain rfl := Option.some.inj (h.staged.symm.trans hnode)
  exact h.trim.cleanup

theorem Promotable.preserve (h : Promotable live calls dir backup entry before) {pid nanos : ℕ}
    (name : backup = backupName c.sha256 key pid nanos) :
    Ends c key job free live calls (before, .preserving dir entry)
      ((PromotionTransaction.new dir).preserve (validateCachedBinary c job.expected) backup calls
        before) := by
  have failed : Ends c key job free live calls (before, .preserving dir entry)
      (.error .preserve, .new dir, before) :=
    ⟨.failed, trivial, InstallStep.preserveFails.andThen h.clean⟩
  unfold PromotionTransaction.preserve
  cases renamed : before.renameFinal backup with
  | none => exact failed
  | some d =>
    cases calls.preserve with
    | false => exact failed
    | true =>
      obtain ⟨-, rfl⟩ := renameFinal_eq_some renamed
      have step : InstallStep c key job free before (.preserving dir entry)
          ((before.setWork backup before.final).setFinal none)
          (.publishing dir entry (some backup)) := .preserve name h.fresh
      refine step.thenEnds (publish_steps rfl rfl rfl ?_ rfl ?_ h.isDir h.trim.unpublish
        h.trim.cleanup h.trim.last ?_)
      · intro b hb
        obtain rfl := Option.some.inj hb
        exact h.other
      · simp [h.other.symm, h.staged]
      · intro b node hb hnode
        obtain rfl := Option.some.inj hb
        exact h.trim.dropBackup node (by simpa using hnode)

/-- The end of `run` where a valid entry is there already. -/
theorem Promotable.discard (h : Promotable live calls dir backup entry before) (cached : Node) :
    Ends c key job free live calls (before, .discarding dir cached)
      (match cleanupBlocking (some dir) calls.discard before with
        | (true, staging, d) => (.ok (), ⟨staging, none, false, true⟩, d)
        | (false, staging, d) => (.error .discard, ⟨staging, none, false, false⟩, d)) := by
  cases ended : calls.discard with
  | ok =>
    rw [cleanupBlocking_ok]
    exact ⟨.lease cached, trivial, InstallStep.discard.one⟩
  | error left =>
    rw [cleanupBlocking_error h.staged]
    have part : InstallStep c key job free before (.discarding dir cached)
        (before.setWork dir (some left)) (.discarding dir cached) :=
      .discardSome h.staged (h.trim.discard left ended)
    refine ⟨.failed, trivial, part.andThen (InstallStep.discardFails.andThen ?_)⟩
    dsimp only
    rw [drop_eq rfl rfl]
    refine clean_steps (fun node hnode => ?_) h.trim.last
    obtain rfl : left = node := by simpa using hnode
    exact h.trim.again left ended

/-- The promotion of a prepared entry, whatever the outcomes of its calls, is a run of the operations
of an installation. -/
theorem run_steps (h : Promotable live calls dir backup entry before) {pid nanos : ℕ}
    (name : backup = backupName c.sha256 key pid nanos) :
    Ends c key job free live calls (before, .probing dir entry)
      ((PromotionTransaction.new dir).run (validateCachedBinary c job.expected) live backup calls
        job.forceRefresh before) := by
  have cleaned : ∀ error, Ends c key job free live calls (before, .cleaning dir true)
      (.error error, .new dir, before) := fun _ => ⟨.failed, trivial, h.clean⟩
  unfold PromotionTransaction.run
  split
  · exact InstallStep.probeFails.thenEnds (cleaned .inspect)
  split
  · next there =>
    have present : before.final ≠ none := by
      intro none
      simp [Disk.finalExists, none] at there
    split
    · next refresh => exact (InstallStep.probeRefresh present refresh).thenEnds (h.preserve name)
    · next keep =>
      refine (InstallStep.probePresent present (by simpa using keep)).thenEnds ?_
      cases validated : if calls.validate = true then
          validateCachedBinary c job.expected before.final else .error with
      | error => exact InstallStep.revalidateFails.thenEnds (cleaned .validate)
      | miss =>
        split_ifs at validated
        exact (InstallStep.invalid validated).thenEnds (h.preserve name)
      | valid =>
        split_ifs at validated
        obtain ⟨cached, at_⟩ := Option.ne_none_iff_exists'.mp present
        refine (InstallStep.revalid at_ validated).thenEnds ?_
        exact h.discard cached
  · next missing =>
    have final : before.final = none := h.absent (by simpa using missing)
    refine (InstallStep.probeMissing final).thenEnds ?_
    exact publish_steps rfl rfl rfl (by simp [PromotionTransaction.new]) final h.staged h.isDir
      h.trim.unpublish h.trim.cleanup h.trim.last (by simp [PromotionTransaction.new])

end Transaction

end AcpAgent.Installer
