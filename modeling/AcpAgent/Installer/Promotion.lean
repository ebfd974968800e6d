import AcpAgent.Installer.Recovery

/-! The promotion of a staging directory: `PromotionTransaction` of `installer/binary/publication.rs`
with its `Drop`, and the `PreparedStaging` of `installer/binary/staging.rs` that it owns, for any
outcome of each of their calls. -/

namespace AcpAgent.Installer

/-- How a recursive delete ends, and what it leaves if it fails. -/
abbrev Removal := Except Node Unit

/-- `rename` can put a node where this entry is. -/
def Node.canReplace (node : Node) : Option Node → Bool
  | none => true
  | some (.dir children) => node.isDir && children.isEmpty
  | some _ => !node.isDir

namespace Disk

/-- `rename` of the final directory to a name beside it. -/
def renameFinal (d : Disk) (name : Str) : Option Disk := do
  let node ← d.final
  if node.canReplace (d.work name) then some ((d.setWork name (some node)).setFinal none) else none

/-- `rename` of a directory beside the final one to its place. -/
def renameWork (d : Disk) (name : Str) : Option Disk := do
  let node ← d.work name
  if node.canReplace d.final then some ((d.setFinal (some node)).setWork name none) else none

/-- `remove_dir_all`, which finds nothing to do where nothing is. -/
def removeFinalAll (d : Disk) (removal : Removal) : Disk :=
  match d.final, removal with
  | none, _ => d
  | some _, .ok () => d.setFinal none
  | some _, .error left => d.setFinal (some left)

def removeWorkAll (d : Disk) (name : Str) (removal : Removal) : Disk :=
  match d.work name, removal with
  | none, _ => d
  | some _, .ok () => d.setWork name none
  | some _, .error left => d.setWork name (some left)

end Disk

/-- What `run` fails with. -/
inductive PromotionError
  | inspect
  | validate
  | discard
  | preserve
  | promote
  | postPublish

/-- The texts, for the paths of the final and of the staging directory. -/
def PromotionError.text (cacheDir staging : Str) : PromotionError → Str
  | .inspect => str "failed to inspect " ++ cacheDir
  | .discard => str "failed to discard superseded staging directory"
  | .preserve =>
    str "failed to preserve existing cache directory " ++ cacheDir ++ str " before replacement"
  | .promote => str "failed to promote staged cache " ++ staging ++ str " to " ++ cacheDir
  | .postPublish => str "published cache failed post-publish validation"
  -- The error of the validation itself.
  | .validate => []

/-- The outcomes of the calls of `run` and of `drop`. -/
structure PromotionCalls where
  inspect : Bool
  validate : Bool
  discard : Removal
  preserve : Bool
  promote : Bool
  postPublish : Bool
  dropBackup : Removal
  -- The rollback
  unpublish : Removal
  restore : Bool
  cleanup : Removal
  lastCleanup : Removal

/-- All of `drop`'s own calls succeed. -/
def PromotionCalls.RollsBack (calls : PromotionCalls) : Prop :=
  calls.unpublish = .ok () ∧ calls.restore = true ∧ calls.cleanup = .ok ()

/-- `staging` is the path that `PreparedStaging` owns. -/
structure PromotionTransaction where
  staging : Option Str
  backupDir : Option Str
  published : Bool
  committed : Bool

/-- `PreparedStaging::cleanup_blocking`: whether it succeeds, and the path that is left to it. -/
def cleanupBlocking (staging : Option Str) (removal : Removal) (d : Disk) :
    Bool × Option Str × Disk :=
  match staging with
  | none => (true, none, d)
  | some path =>
    match d.work path, removal with
    | some _, .error left => (false, some path, d.setWork path (some left))
    | _, _ => (true, none, d.removeWorkAll path removal)

namespace PromotionTransaction

def new (staging : Str) : PromotionTransaction := ⟨some staging, none, false, false⟩

section Run

-- What `validate_cached_binary_blocking` finds at the final directory if its reads succeed, which
-- link targets exist, the name of the backup, should one be made, and the outcomes.
variable (validate : Option Node → Validation) (live : Bytes → Bool) (backup : Str)
  (calls : PromotionCalls)

abbrev Ended := Except PromotionError Unit × PromotionTransaction × Disk

/-- From the rename of the staging directory on. -/
def publish (t : PromotionTransaction) (d : Disk) : Ended :=
  match t.staging.bind d.renameWork, calls.promote with
  | some d, true =>
    let t := { t with published := true }
    match if calls.postPublish then validate d.final else .error with
    | .valid =>
      let t := { t with committed := true, staging := none }
      match t.backupDir with
      | some backup => (.ok (), { t with backupDir := none }, d.removeWorkAll backup calls.dropBackup)
      | none => (.ok (), t, d)
    | .miss => (.error .postPublish, t, d)
    | .error => (.error .validate, t, d)
  | _, _ => (.error .promote, t, d)

/-- From the rename of the final directory on. -/
def preserve (t : PromotionTransaction) (d : Disk) : Ended :=
  match d.renameFinal backup, calls.preserve with
  | some d, true => publish validate calls { t with backupDir := some backup } d
  | _, _ => (.error .preserve, t, d)

def run (replaceExisting : Bool) (t : PromotionTransaction) (d : Disk) : Ended :=
  if ¬calls.inspect then (.error .inspect, t, d)
  else if d.finalExists live then
    if replaceExisting then preserve validate backup calls t d
    else match if calls.validate then validate d.final else .error with
      | .valid =>
        match cleanupBlocking t.staging calls.discard d with
        | (true, staging, d) => (.ok (), { t with staging, committed := true }, d)
        | (false, staging, d) => (.error .discard, { t with staging }, d)
      | .miss => preserve validate backup calls t d
      | .error => (.error .validate, t, d)
  else publish validate calls t d

/-- `PreparedStaging::drop`. -/
def dropStaging (staging : Option Str) (removal : Removal) (d : Disk) : Disk :=
  match staging with
  | none => d
  | some path => d.removeWorkAll path removal

/-- `drop`, and the drop of the staging directory's guard after it. -/
def drop (t : PromotionTransaction) (d : Disk) : Disk :=
  if t.committed then dropStaging t.staging calls.lastCleanup d
  else
    let d := if t.published then d.removeFinalAll calls.unpublish else d
    let d := match t.backupDir with
      | some backup =>
        if d.finalExists live then d
        else if calls.restore then (d.renameWork backup).getD d else d
      | none => d
    let (_, staging, d) := cleanupBlocking t.staging calls.cleanup d
    dropStaging staging calls.lastCleanup d

end Run

end PromotionTransaction

/-! ### Atomicity -/

/-- After a success, the staged tree or the entry from before has been validated at the final
directory. -/
structure Promoted (validate : Option Node → Validation) (replaceExisting : Bool) (staging : Str)
    (before after : Disk) : Prop where
  valid : validate after.final = .valid
  final : (∃ tree, before.work staging = some tree ∧ after.final = some tree) ∨
    (replaceExisting = false ∧ after.final = before.final)
  gone : after.work staging = none

/-- After a failure, all is as before, without the staging directory. -/
structure RolledBack (staging backup : Str) (before after : Disk) : Prop where
  final : after.final = before.final
  gone : after.work staging = none
  others : ∀ name, name ≠ staging →
    after.work name = before.work name ∨ name = backup ∧ after.work name = none

/-- Once the transaction is dropped, it has succeeded as a whole or left nothing behind. -/
def Atomic (validate : Option Node → Validation) (live : Bytes → Bool) (calls : PromotionCalls)
    (replaceExisting : Bool) (staging backup : Str) (before : Disk)
    (ended : PromotionTransaction.Ended) : Prop :=
  match ended with
  | (.ok _, t, d) => Promoted validate replaceExisting staging before (t.drop live calls d)
  | (.error _, t, d) => RolledBack staging backup before (t.drop live calls d)

/-- A transaction that is under way, and what it would have to undo. -/
structure Pending (staging backup : Str) (before : Disk) (t : PromotionTransaction) (d : Disk) :
    Prop where
  committed : t.committed = false
  owned : t.staging = some staging
  others : ∀ name, name ≠ staging → name ≠ backup → d.work name = before.work name
  unsaved : t.backupDir = none → d.work backup = before.work backup ∧
    if t.published then before.final = none else d.final = before.final
  saved : ∀ name, t.backupDir = some name → name = backup ∧ d.work backup = before.final ∧
    before.final ≠ none ∧ (t.published = false → d.final = none)

section Atomic

variable {validate : Option Node → Validation} {live : Bytes → Bool} {staging backup : Str}
  {calls : PromotionCalls} {before d : Disk} {t : PromotionTransaction}

theorem removeWorkAll_ok (d : Disk) (name : Str) :
    d.removeWorkAll name (.ok ()) = d.setWork name none := by
  unfold Disk.removeWorkAll
  cases at_ : d.work name with
  | none => exact (Disk.setWork_eq_self at_).symm
  | some node => rfl

theorem removeFinalAll_ok (d : Disk) : d.removeFinalAll (.ok ()) = d.setFinal none := by
  unfold Disk.removeFinalAll
  cases at_ : d.final with
  | none => simp [Disk.setFinal, ← at_]
  | some node => rfl

theorem cleanupBlocking_ok (path : Str) (d : Disk) :
    cleanupBlocking (some path) (.ok ()) d = (true, none, d.setWork path none) := by
  unfold cleanupBlocking
  cases at_ : d.work path with
  | none => simp [removeWorkAll_ok]
  | some node => simp [removeWorkAll_ok]

theorem renameFinal_eq_some {name : Str} {d' : Disk} (h : d.renameFinal name = some d') :
    d.final ≠ none ∧ d' = (d.setWork name d.final).setFinal none := by
  unfold Disk.renameFinal at h
  cases at_ : d.final with
  | none => simp [at_] at h
  | some node =>
    simp only [at_, Option.bind_eq_bind, Option.bind_some] at h
    split_ifs at h
    exact ⟨by simp, (Option.some.inj h).symm⟩

theorem renameWork_eq_some {name : Str} {d' : Disk} (h : d.renameWork name = some d') :
    ∃ node, d.work name = some node ∧ node.canReplace d.final = true ∧
      d' = (d.setFinal (some node)).setWork name none := by
  unfold Disk.renameWork at h
  cases at_ : d.work name with
  | none => simp [at_] at h
  | some node =>
    simp only [at_, Option.bind_eq_bind, Option.bind_some] at h
    split_ifs at h with fits
    exact ⟨node, rfl, fits, (Option.some.inj h).symm⟩

/-- A directory is renamed only to a place where nothing is, if that place is no directory. -/
theorem final_of_canReplace {node : Node} (dir : node.isDir = true)
    (missing : d.finalExists live = false) (fits : node.canReplace d.final = true) :
    d.final = none := by
  cases final : d.final with
  | none => rfl
  | some entry =>
    cases entry with
    | dir => simp [Disk.finalExists, final] at missing
    | file | link | other => simp [Node.canReplace, final, dir] at fits

/-- The rollback undoes what has been done. -/
theorem Pending.drop (h : Pending staging backup before t d) (other : backup ≠ staging)
    (rolls : calls.RollsBack) : RolledBack staging backup before (t.drop live calls d) := by
  obtain ⟨unpublish, restore, cleanup⟩ := rolls
  obtain ⟨committed, owned, others, unsaved, saved⟩ := h
  have clean : ∀ d : Disk, (let (_, staging, d) := cleanupBlocking (some staging) (.ok ()) d
      PromotionTransaction.dropStaging staging calls.lastCleanup d) = d.setWork staging none := by
    intro d
    rw [cleanupBlocking_ok]
    rfl
  rw [PromotionTransaction.drop, if_neg (by simp [committed]), owned, cleanup, unpublish, clean,
    removeFinalAll_ok]
  cases made : t.backupDir with
  | none =>
    obtain ⟨same, final⟩ := unsaved made
    refine ⟨?_, by simp, fun name away => .inl ?_⟩
    · cases published : t.published <;> simp_all
    · have work : d.work name = before.work name := by
        by_cases eq : name = backup
        · rw [eq, same]
        · exact others name away eq
      cases published : t.published <;> simp [away, work]
  | some name =>
    obtain ⟨rfl, kept, present, final⟩ := saved name made
    obtain ⟨node, at_⟩ := Option.ne_none_iff_exists'.mp present
    have missing : (if t.published then d.setFinal none else d) = d.setFinal none := by
      cases published : t.published with
      | false => simp [Disk.setFinal, ← final published]
      | true => rfl
    have put : (d.setFinal none).renameWork name =
        some ((d.setFinal (some node)).setWork name none) := by
      simp [Disk.renameWork, kept, at_, Node.canReplace, Disk.setFinal, Disk.setWork]
    simp only [missing]
    rw [if_neg (by simp [Disk.finalExists]), if_pos restore, put, Option.getD_some]
    refine ⟨by simp [at_], by simp, fun beside away => ?_⟩
    by_cases eq : beside = name
    · exact .inr ⟨eq, by simp [eq, other]⟩
    · exact .inl (by simp [away, eq, others beside away eq])

/-- What the transaction has come to when `run` returns. -/
def Settled (validate : Option Node → Validation) (replaceExisting : Bool) (staging backup : Str)
    (before : Disk) (ended : PromotionTransaction.Ended) : Prop :=
  match ended with
  | (.ok _, t, d) =>
    t.committed = true ∧ t.staging = none ∧ Promoted validate replaceExisting staging before d
  | (.error _, t, d) => Pending staging backup before t d

variable {replaceExisting : Bool}

theorem settled_publish (h : Pending staging backup before t d) (other : backup ≠ staging)
    (fresh : t.published = false) (missing : d.finalExists live = false)
    (staged : d.work staging = before.work staging)
    (dir : ∀ node, d.work staging = some node → node.isDir = true) :
    Settled validate replaceExisting staging backup before (t.publish validate calls d) := by
  obtain ⟨committed, owned, others, unsaved, saved⟩ := h
  have source : t.staging.bind d.renameWork = d.renameWork staging := by rw [owned, Option.bind_some]
  unfold PromotionTransaction.publish
  rw [source]
  split
  · next d' renamed _ =>
    obtain ⟨node, at_, fits, rfl⟩ := renameWork_eq_some renamed
    have final : d.final = none := final_of_canReplace (dir node at_) missing fits
    have published : Pending staging backup before { t with published := true }
        ((d.setFinal (some node)).setWork staging none) := by
      refine ⟨committed, owned, fun name away away' => ?_, fun made => ?_, fun name made => ?_⟩
      · simpa [away] using others name away away'
      · obtain ⟨same, kept⟩ := unsaved made
        rw [fresh] at kept
        exact ⟨by simpa [other] using same, kept.symm.trans final⟩
      · obtain ⟨eq, kept, present, -⟩ := saved name made
        exact ⟨eq, by simpa [other] using kept, present, by simp⟩
    have promoted : ∀ name removal, name ≠ staging →
        validate ((d.setFinal (some node)).setWork staging none).final = .valid →
        Promoted validate replaceExisting staging before
          (((d.setFinal (some node)).setWork staging none).removeWorkAll name removal) := by
      intro name removal away valid
      unfold Disk.removeWorkAll
      split <;>
      exact ⟨valid, .inl ⟨node, staged ▸ at_, rfl⟩, by simp [away.symm]⟩
    split
    · next valid =>
      have valid' : validate ((d.setFinal (some node)).setWork staging none).final = .valid := by
        split_ifs at valid
        exact valid
      cases made : t.backupDir with
      | some name =>
        obtain ⟨rfl, -⟩ := saved name made
        exact ⟨rfl, rfl, promoted name calls.dropBackup other valid'⟩
      | none =>
        exact ⟨rfl, rfl, valid', .inl ⟨node, staged ▸ at_, rfl⟩, by simp⟩
    · exact published
    · exact published
  · exact ⟨committed, owned, others, unsaved, saved⟩

theorem settled_preserve (other : backup ≠ staging)
    (dir : ∀ node, before.work staging = some node → node.isDir = true) :
    Settled validate replaceExisting staging backup before
      ((PromotionTransaction.new staging).preserve validate backup calls before) := by
  unfold PromotionTransaction.preserve
  split
  · next d renamed _ =>
    obtain ⟨present, rfl⟩ := renameFinal_eq_some renamed
    have staged : ((before.setWork backup before.final).setFinal none).work staging =
        before.work staging := by simp [other.symm]
    have missing : Disk.finalExists (fun _ => false)
        ((before.setWork backup before.final).setFinal none) = false := rfl
    refine settled_publish ?_ other rfl missing staged (by rwa [staged])
    refine ⟨rfl, rfl, fun name _ away => by simp [away], by simp, fun name made => ?_⟩
    exact ⟨(Option.some.inj made).symm, by simp, present, fun _ => rfl⟩
  · exact ⟨rfl, rfl, fun _ _ _ => rfl, fun _ => ⟨rfl, rfl⟩, by simp [PromotionTransaction.new]⟩

/-- The staging directory is removed because a valid entry has been published meanwhile. -/
theorem settled_discard (other : backup ≠ staging) (keep : replaceExisting = false)
    (valid : validate before.final = .valid) :
    Settled validate replaceExisting staging backup before
      (match cleanupBlocking (some staging) calls.discard before with
      | (true, path, d) => (.ok (), { PromotionTransaction.new staging with
          staging := path, committed := true }, d)
      | (false, path, d) =>
        (.error .discard, { PromotionTransaction.new staging with staging := path }, d)) := by
  cases at_ : before.work staging with
  | none =>
    have cleaned : cleanupBlocking (some staging) calls.discard before = (true, none, before) := by
      simp [cleanupBlocking, Disk.removeWorkAll, at_]
    simp only [cleaned]
    exact ⟨rfl, rfl, valid, .inr ⟨keep, rfl⟩, at_⟩
  | some node =>
    rcases calls.discard with left | u
    · have cleaned : cleanupBlocking (some staging) (.error left) before =
          (false, some staging, before.setWork staging (some left)) := by
        simp [cleanupBlocking, at_]
      simp only [cleaned]
      refine ⟨rfl, rfl, fun name away _ => by simp [away], fun _ => ⟨?_, rfl⟩, ?_⟩
      · simp [other]
      · simp [PromotionTransaction.new]
    · cases u
      simp only [cleanupBlocking_ok]
      exact ⟨rfl, rfl, valid, .inr ⟨keep, rfl⟩, by simp⟩

theorem settled_run (other : backup ≠ staging)
    (dir : ∀ node, before.work staging = some node → node.isDir = true) :
    Settled validate replaceExisting staging backup before
      ((PromotionTransaction.new staging).run validate live backup calls replaceExisting before) := by
  have pending : Pending staging backup before (.new staging) before :=
    ⟨rfl, rfl, fun _ _ _ => rfl, fun _ => ⟨rfl, rfl⟩, by simp [PromotionTransaction.new]⟩
  unfold PromotionTransaction.run
  split
  · exact pending
  · split
    · split
      · exact settled_preserve other dir
      · next replace =>
        split
        · next valid =>
          have valid' : validate before.final = .valid := by
            split_ifs at valid
            exact valid
          exact settled_discard other (by simpa using replace) valid'
        · exact settled_preserve other dir
        · exact pending
    · next missing => exact settled_publish pending other rfl (by simpa using missing) rfl dir

end Atomic

theorem promotion_atomic (validate : Option Node → Validation) (live : Bytes → Bool)
    {sha256 : Bytes → Digest} {key : Str} (hkey : Plain key) (random : Str) (pid nanos : ℕ)
    {calls : PromotionCalls} (rolls : calls.RollsBack) (replaceExisting : Bool) (before : Disk)
    (dir : ∀ node, before.work (stagingName key random) = some node → node.isDir = true) :
    Atomic validate live calls replaceExisting (stagingName key random)
      (backupName sha256 key pid nanos) before
      ((PromotionTransaction.new (stagingName key random)).run validate live
        (backupName sha256 key pid nanos) calls replaceExisting before) := by
  have other : backupName sha256 key pid nanos ≠ stagingName key random :=
    (backupName_lt_stagingName sha256 hkey pid nanos random).ne
  have settled : Settled validate replaceExisting (stagingName key random)
      (backupName sha256 key pid nanos) before
      ((PromotionTransaction.new (stagingName key random)).run validate live
        (backupName sha256 key pid nanos) calls replaceExisting before) := settled_run other dir
  generalize (PromotionTransaction.new (stagingName key random)).run validate live
    (backupName sha256 key pid nanos) calls replaceExisting before = ended at settled ⊢
  obtain ⟨result, t, d⟩ := ended
  cases result with
  | error => exact Pending.drop settled other rolls
  | ok =>
    obtain ⟨committed, gone, promoted⟩ := settled
    have dropped : t.drop live calls d = d := by
      rw [PromotionTransaction.drop, if_pos committed, gone]
      rfl
    simp only [Atomic, dropped]
    exact promoted

namespace Sample

/-- The entry is staged, and nothing is at the final directory. -/
def staged : Disk where
  final := none
  work := Function.update (fun _ => none) (stagingName key (str "a1b2c3")) (some entry)

def promotes : PromotionCalls :=
  ⟨true, true, .ok (), true, true, true, .ok (), .ok (), true, .ok (), .ok ()⟩

end Sample

open Sample in
theorem promotion_atomic_staged :
    Atomic (validateCachedBinary crates job.expected) (fun _ => false) promotes false
      (stagingName key (str "a1b2c3")) (backupName sha256 key 7 1000) staged
      ((PromotionTransaction.new (stagingName key (str "a1b2c3"))).run
        (validateCachedBinary crates job.expected) (fun _ => false)
        (backupName sha256 key 7 1000) promotes false staged) := by
  have plain : Plain key := by
    rw [← key_job]
    exact plain_key crates job
  refine promotion_atomic _ _ plain (str "a1b2c3") 7 1000 ⟨rfl, rfl, rfl⟩ false staged ?_
  intro node at_
  obtain rfl : entry = node := by simpa [staged] using at_
  rfl

end AcpAgent.Installer
