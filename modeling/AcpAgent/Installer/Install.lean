import AcpAgent.Installer.Names
import AcpAgent.Installer.Validation

/-! The operations on one key of the binary cache, one file system or lock operation at a time:
`cache_binary_target_in_mode` with `prepare_staging_directory` and `PromotionTransaction`
(`installer/binary`), the removal of an entry (`remove_cached_entries` in `installer/cache.rs`), and
the startup sweep (`installer/binary/recovery.rs`).  A future that is dropped before its operation
ends is the subject of `Installer.Cancellation`. -/

namespace AcpAgent.Installer

/-- What is on disk for one key: at the final cache directory, and at the names of the work
directories beside it. -/
structure Disk where
  final : Option Node
  work : Str → Option Node

namespace Disk

def setFinal (d : Disk) (final : Option Node) : Disk := { d with final }

def setWork (d : Disk) (name : Str) (entry : Option Node) : Disk :=
  { d with work := Function.update d.work name entry }

/-- `try_exists` of the final directory, which follows a link; `live` tells which targets exist. -/
def finalExists (live : Bytes → Bool) (d : Disk) : Bool :=
  match d.final with
  | none => false
  | some (.link target) => live target
  | some _ => true

@[simp] theorem setFinal_final (d : Disk) (f : Option Node) : (d.setFinal f).final = f := rfl
@[simp] theorem setFinal_work (d : Disk) (f : Option Node) : (d.setFinal f).work = d.work := rfl
@[simp] theorem setWork_final (d : Disk) (name : Str) (e : Option Node) :
    (d.setWork name e).final = d.final := rfl
@[simp] theorem setWork_work (d : Disk) (name : Str) (e : Option Node) :
    (d.setWork name e).work = Function.update d.work name e := rfl

theorem finalExists_dir {live : Bytes → Bool} {d : Disk} {node : Node} (final : d.final = some node)
    (dir : node.isDir = true) : d.finalExists live = true := by
  cases node with
  | dir => simp [finalExists, final]
  | file | link | other => simp [Node.isDir] at dir

theorem finalExists_congr {live : Bytes → Bool} {d d' : Disk} (same : d'.final = d.final) :
    d'.finalExists live = d.finalExists live := by
  rw [finalExists, finalExists, same]

end Disk

/-- The lock of a key for publication, and its lease of the payload, shared or exclusive. -/
inductive Hold
  | publication
  | useRead
  | useWrite
  deriving DecidableEq

def Hold.conflicts : Hold → Hold → Prop
  | .publication, .publication | .useWrite, .useWrite | .useRead, .useWrite
  | .useWrite, .useRead => True
  | _, _ => False

theorem Hold.conflicts_symm (h k : Hold) (hk : h.conflicts k) : k.conflicts h := by
  cases h <;> cases k <;> trivial

/-- What `cache_binary_target_in_mode` is called with. -/
structure Job where
  agentId : Str
  version : Str
  platform : Platform
  archive : Str
  cmd : Str
  digest : Str
  forceRefresh : Bool

namespace Job

def key (c : Crates) (job : Job) : Str := cacheKey c.sha256 job.version job.digest

def expected (job : Job) : BinaryCacheMetadata :=
  .new job.agentId job.version job.platform job.archive job.cmd (some job.digest)

/-- The metadata of the entry that the job stages. -/
def metadata (c : Crates) (job : Job) (tree : Node) (executable : Bytes) : BinaryCacheMetadata :=
  { job.expected with
    executableSha256 := some (c.hash executable)
    payloadSha256 := some (c.hashPayload tree) }

end Job

theorem plain_key (c : Crates) (job : Job) : Plain (job.key c) := plain_safePathComponent _

/-- A staging directory with the archive in it. -/
def stagedArchive (name archive : Bytes) : Node := (Node.dir []).setChild name (.file archive)

/-- A staging directory with the archive and this extracted tree. -/
def stagedTree (name archive : Bytes) (tree : Node) : Node :=
  (stagedArchive name archive).setChild extractedName tree

/-- A staging directory whose metadata file has this content. -/
def stagedEntry (name archive : Bytes) (tree : Node) (metadata : Bytes) : Node :=
  (stagedTree name archive tree).setChild metadataName (.file metadata)

/-- The download has the declared digest. -/
def Verified (c : Crates) (job : Job) (archive : Bytes) : Prop :=
  parseSha256 job.digest = .ok (c.sha256 archive)

/-- A completely prepared entry. -/
def Prepared (c : Crates) (job : Job) (entry : Node) : Prop :=
  ∃ name archive tree executable, c.archiveName job.archive = some name ∧
    name ≠ extractedName ∧ Verified c job archive ∧ c.extract name archive = some tree ∧
    c.executable tree job.cmd = some executable ∧
    entry = stagedEntry name archive tree (c.toVecPretty (job.metadata c tree executable))

theorem child_stagedEntry_metadata (name archive : Bytes) (tree : Node) (metadata : Bytes) :
    (stagedEntry name archive tree metadata).child metadataName = some (.file metadata) :=
  Node.child_setChild (by simp [stagedTree, stagedArchive]) _ _

theorem child_stagedTree_extracted (name archive : Bytes) (tree : Node) :
    (stagedTree name archive tree).child extractedName = some tree :=
  Node.child_setChild (by simp [stagedArchive]) _ _

theorem child_stagedEntry_extracted (name archive : Bytes) (tree : Node) (metadata : Bytes) :
    (stagedEntry name archive tree metadata).child extractedName = some tree :=
  (Node.child_setChild_ne _ _ metadataName_ne.symm).trans (child_stagedTree_extracted ..)

/-- A completely prepared entry passes the validation once it is published. -/
theorem valid_stagedEntry {c : Crates} {job : Job} {name archive : Bytes} {tree : Node}
    {executable : Bytes} (runs : c.executable tree job.cmd = some executable)
    (parses : c.fromSlice (c.toVecPretty (job.metadata c tree executable)) =
      some (job.metadata c tree executable)) :
    validateCachedBinary c job.expected (some (stagedEntry name archive tree
      (c.toVecPretty (job.metadata c tree executable)))) = .valid := by
  have metadata := child_stagedEntry_metadata name archive tree
    (c.toVecPretty (job.metadata c tree executable))
  have extracted := child_stagedEntry_extracted name archive tree
    (c.toVecPretty (job.metadata c tree executable))
  generalize stagedEntry name archive tree _ = entry at metadata extracted
  cases entry with
  | dir children =>
    simp only [validateCachedBinary, metadata, parses, extracted]
    simp [Job.metadata, runs, BinaryCacheMetadata.sameTarget, digestMatches, Job.expected,
      BinaryCacheMetadata.new]
  | _ => simp [Node.child] at metadata

/-! ### Installation -/

/-- Where `cache_binary_target_in_mode` is. -/
inductive InstallPc
  /-- Waiting for the publication lock. -/
  | publication
  /-- Waiting for the shared lease. -/
  | readLease
  | validating (seen : Option Node)
  | staging
  | downloading (dir : Str) (received : Option Bytes)
  | creating (dir : Str) (archive : Bytes)
  | extracting (dir : Str) (archive : Bytes)
  | resolving (dir : Str) (archive : Bytes) (tree : Node)
  | finishing (dir : Str) (archive : Bytes) (tree : Node) (executable : Bytes)
  /-- Waiting for the exclusive lease. -/
  | writeLease (dir : Str) (entry : Node)
  -- `PromotionTransaction::run`
  | probing (dir : Str) (entry : Node)
  | revalidating (dir : Str) (entry : Node)
  | discarding (dir : Str) (cached : Node)
  | preserving (dir : Str) (entry : Node)
  | publishing (dir : Str) (entry : Node) (backup : Option Str)
  | checking (dir : Str) (entry : Node) (backup : Option Str)
  | committed (cached : Node) (backup : Str)
  -- `PromotionTransaction::drop`
  | unpublishing (dir : Str) (backup : Option Str)
  | restoring (dir : Str) (backup : Option Str)
  /-- The staging directory is removed, in a promotion or before it. -/
  | cleaning (dir : Str) (promotion : Bool)
  /-- Waiting for the shared lease of the published entry. -/
  | lease (cached : Node)
  | returned (cached : Node)
  | failed

def InstallPc.Holds (h : Hold) : InstallPc → Prop
  | .publication | .failed => False
  | .validating _ => h = .publication ∨ h = .useRead
  | .probing _ _ | .revalidating _ _ | .discarding _ _ | .preserving _ _ | .publishing _ _ _
  | .checking _ _ _ | .committed _ _ | .unpublishing _ _ | .restoring _ _ | .cleaning _ true =>
    h = .publication ∨ h = .useWrite
  | .returned _ => h = .useRead
  | _ => h = .publication

/-- One operation of an installation of the key, while these holds are free. -/
inductive InstallStep (c : Crates) (key : Str) (job : Job) (free : Hold → Prop) :
    Disk → InstallPc → Disk → InstallPc → Prop
  | lockFails {d} : InstallStep c key job free d .publication d .failed
  | lock {d} (h : free .publication) : InstallStep c key job free d .publication d .readLease
  | readFails {d} : InstallStep c key job free d .readLease d .failed
  | read {d} (h : free .useRead) : InstallStep c key job free d .readLease d (.validating d.final)
  | hit {d cached} (h : validateCachedBinary c job.expected (some cached) = .valid) :
      InstallStep c key job free d (.validating (some cached)) d (.returned cached)
  | miss {d seen} (h : validateCachedBinary c job.expected seen = .miss) :
      InstallStep c key job free d (.validating seen) d .staging
  | validateFails {d seen} : InstallStep c key job free d (.validating seen) d .failed
  | stageFails {d} : InstallStep c key job free d .staging d .failed
  | stage {d random} (alnum : '-' ∉ random) (fresh : d.work (stagingName key random) = none) :
      InstallStep c key job free d .staging
        (d.setWork (stagingName key random) (some (.dir [])))
        (.downloading (stagingName key random) none)
  -- `download_archive_with_limits`
  | open_ {d dir name} (h : c.archiveName job.archive = some name) :
      InstallStep c key job free d (.downloading dir none)
        (d.setWork dir (some (stagedArchive name []))) (.downloading dir (some []))
  | chunk {d dir name received} (h : c.archiveName job.archive = some name) (bytes : Bytes) :
      InstallStep c key job free d (.downloading dir (some received))
        (d.setWork dir (some (stagedArchive name (received ++ bytes))))
        (.downloading dir (some (received ++ bytes)))
  | downloaded {d dir received} (h : Verified c job received) :
      InstallStep c key job free d (.downloading dir (some received)) d (.creating dir received)
  | downloadFails {d dir received} :
      InstallStep c key job free d (.downloading dir received) d (.cleaning dir false)
  | create {d dir name archive} (h : c.archiveName job.archive = some name)
      (free_ : name ≠ extractedName) :
      InstallStep c key job free d (.creating dir archive)
        (d.setWork dir (some (stagedTree name archive (.dir [])))) (.extracting dir archive)
  | createFails {d dir archive} :
      InstallStep c key job free d (.creating dir archive) d (.cleaning dir false)
  -- `extract_archive_with_cleanup`, with anything in the tree until it is done
  | extractSome {d dir name archive} (h : c.archiveName job.archive = some name) (tree : Node) :
      InstallStep c key job free d (.extracting dir archive)
        (d.setWork dir (some (stagedTree name archive tree))) (.extracting dir archive)
  | extract {d dir name archive tree} (h : c.archiveName job.archive = some name)
      (done : c.extract name archive = some tree) :
      InstallStep c key job free d (.extracting dir archive)
        (d.setWork dir (some (stagedTree name archive tree))) (.resolving dir archive tree)
  | extractFails {d dir archive} :
      InstallStep c key job free d (.extracting dir archive) d (.cleaning dir false)
  | resolve {d dir archive tree executable}
      (h : c.executable tree job.cmd = some executable) :
      InstallStep c key job free d (.resolving dir archive tree) d
        (.finishing dir archive tree executable)
  | resolveFails {d dir archive tree} :
      InstallStep c key job free d (.resolving dir archive tree) d (.cleaning dir false)
  -- `PostExtractionValidation`, with a part of the metadata file until it is written
  | writeSome {d dir name archive tree executable part}
      (h : c.archiveName job.archive = some name)
      (part_ : part <+: c.toVecPretty (job.metadata c tree executable)) :
      InstallStep c key job free d (.finishing dir archive tree executable)
        (d.setWork dir (some (stagedEntry name archive tree part)))
        (.finishing dir archive tree executable)
  | write {d dir name archive tree executable entry}
      (h : c.archiveName job.archive = some name)
      (complete : entry =
        stagedEntry name archive tree (c.toVecPretty (job.metadata c tree executable))) :
      InstallStep c key job free d (.finishing dir archive tree executable)
        (d.setWork dir (some entry)) (.writeLease dir entry)
  | finishFails {d dir archive tree executable} :
      InstallStep c key job free d (.finishing dir archive tree executable) d (.cleaning dir false)
  | writeLeaseFails {d dir entry} :
      InstallStep c key job free d (.writeLease dir entry) d (.cleaning dir false)
  | writeLease {d dir entry} (h : free .useWrite) :
      InstallStep c key job free d (.writeLease dir entry) d (.probing dir entry)
  -- `PromotionTransaction::run`
  | probeFails {d dir entry} :
      InstallStep c key job free d (.probing dir entry) d (.cleaning dir true)
  | probeMissing {d dir entry} (h : d.final = none) :
      InstallStep c key job free d (.probing dir entry) d (.publishing dir entry none)
  | probeRefresh {d dir entry} (h : d.final ≠ none) (refresh : job.forceRefresh = true) :
      InstallStep c key job free d (.probing dir entry) d (.preserving dir entry)
  | probePresent {d dir entry} (h : d.final ≠ none) (keep : job.forceRefresh = false) :
      InstallStep c key job free d (.probing dir entry) d (.revalidating dir entry)
  | revalidateFails {d dir entry} :
      InstallStep c key job free d (.revalidating dir entry) d (.cleaning dir true)
  | revalid {d dir entry cached} (at_ : d.final = some cached)
      (h : validateCachedBinary c job.expected d.final = .valid) :
      InstallStep c key job free d (.revalidating dir entry) d (.discarding dir cached)
  | invalid {d dir entry} (h : validateCachedBinary c job.expected d.final = .miss) :
      InstallStep c key job free d (.revalidating dir entry) d (.preserving dir entry)
  | discardSome {d dir cached node left} (at_ : d.work dir = some node) (h : node.Trims left) :
      InstallStep c key job free d (.discarding dir cached) (d.setWork dir (some left))
        (.discarding dir cached)
  | discard {d dir cached} :
      InstallStep c key job free d (.discarding dir cached) (d.setWork dir none) (.lease cached)
  | discardFails {d dir cached} :
      InstallStep c key job free d (.discarding dir cached) d (.cleaning dir true)
  | preserveFails {d dir entry} :
      InstallStep c key job free d (.preserving dir entry) d (.cleaning dir true)
  | preserve {d dir entry pid nanos backup} (name : backup = backupName c.sha256 key pid nanos)
      (fresh : d.work backup = none ∨ d.work backup = some (.dir [])) :
      InstallStep c key job free d (.preserving dir entry)
        ((d.setWork backup d.final).setFinal none) (.publishing dir entry (some backup))
  | publishFails {d dir entry backup} :
      InstallStep c key job free d (.publishing dir entry backup) d (.restoring dir backup)
  | publish {d dir entry backup} (h : d.final = none) :
      InstallStep c key job free d (.publishing dir entry backup)
        ((d.setFinal (d.work dir)).setWork dir none) (.checking dir entry backup)
  | checkFails {d dir entry backup} :
      InstallStep c key job free d (.checking dir entry backup) d (.unpublishing dir backup)
  | commit {d dir entry cached} (at_ : d.final = some cached)
      (h : validateCachedBinary c job.expected d.final = .valid) :
      InstallStep c key job free d (.checking dir entry none) d (.lease cached)
  | commitBackup {d dir entry cached backup} (at_ : d.final = some cached)
      (h : validateCachedBinary c job.expected d.final = .valid) :
      InstallStep c key job free d (.checking dir entry (some backup)) d (.committed cached backup)
  | dropBackupSome {d cached backup node left} (at_ : d.work backup = some node)
      (h : node.Trims left) :
      InstallStep c key job free d (.committed cached backup) (d.setWork backup (some left))
        (.committed cached backup)
  | dropBackup {d cached backup} :
      InstallStep c key job free d (.committed cached backup) (d.setWork backup none)
        (.lease cached)
  -- "A failed cleanup is recoverable by the startup sweep."
  | dropBackupFails {d cached backup} :
      InstallStep c key job free d (.committed cached backup) d (.lease cached)
  -- `PromotionTransaction::drop`
  | unpublishSome {d dir backup node left} (at_ : d.final = some node) (h : node.Trims left) :
      InstallStep c key job free d (.unpublishing dir backup) (d.setFinal (some left))
        (.unpublishing dir backup)
  | unpublish {d dir backup} :
      InstallStep c key job free d (.unpublishing dir backup) (d.setFinal none)
        (.restoring dir backup)
  | unpublishFails {d dir backup} :
      InstallStep c key job free d (.unpublishing dir backup) d (.restoring dir backup)
  | restore {d dir backup} (h : d.final = none) :
      InstallStep c key job free d (.restoring dir (some backup))
        ((d.setFinal (d.work backup)).setWork backup none) (.cleaning dir true)
  | restoreFails {d dir backup} :
      InstallStep c key job free d (.restoring dir backup) d (.cleaning dir true)
  | cleanSome {d dir promotion node left} (at_ : d.work dir = some node) (h : node.Trims left) :
      InstallStep c key job free d (.cleaning dir promotion) (d.setWork dir (some left))
        (.cleaning dir promotion)
  | clean {d dir promotion} :
      InstallStep c key job free d (.cleaning dir promotion) (d.setWork dir none) .failed
  | cleanFails {d dir promotion} :
      InstallStep c key job free d (.cleaning dir promotion) d .failed
  | leaseFails {d cached} : InstallStep c key job free d (.lease cached) d .failed
  | lease {d cached} (h : free .useRead) :
      InstallStep c key job free d (.lease cached) d (.returned cached)

/-- What an installation knows about what it has staged. -/
def InstallPc.Chain (c : Crates) (job : Job) : InstallPc → Prop
  | .creating _ archive => Verified c job archive
  | .extracting _ archive =>
    Verified c job archive ∧ ∃ name, c.archiveName job.archive = some name ∧ name ≠ extractedName
  | .resolving _ archive tree =>
    Verified c job archive ∧ ∃ name, c.archiveName job.archive = some name ∧
      name ≠ extractedName ∧ c.extract name archive = some tree
  | .finishing _ archive tree executable =>
    (Verified c job archive ∧ ∃ name, c.archiveName job.archive = some name ∧
      name ≠ extractedName ∧ c.extract name archive = some tree) ∧
      c.executable tree job.cmd = some executable
  | .writeLease _ entry | .probing _ entry | .revalidating _ entry | .preserving _ entry
  | .publishing _ entry _ | .checking _ entry _ => Prepared c job entry
  | _ => True

theorem InstallStep.chain {c : Crates} {key : Str} {job : Job} {free : Hold → Prop} {d d' : Disk}
    {pc pc' : InstallPc} (h : InstallStep c key job free d pc d' pc') (chain : pc.Chain c job) :
    pc'.Chain c job := by
  cases h with
  | downloaded verified => exact verified
  | create name other => exact ⟨chain, _, name, other⟩
  | extract name done =>
    obtain ⟨verified, name', hname, other⟩ := chain
    obtain rfl := Option.some.inj (name.symm.trans hname)
    exact ⟨verified, _, name, other, done⟩
  | resolve runs => exact ⟨chain, runs⟩
  | write name complete =>
    obtain ⟨⟨verified, name', hname, other, done⟩, runs⟩ := chain
    obtain rfl := Option.some.inj (name.symm.trans hname)
    exact ⟨_, _, _, _, name, other, verified, done, runs, complete⟩
  | extractSome | writeSome | writeLease | probeMissing | probeRefresh | probePresent | invalid
  | preserve | publish => exact chain
  | _ => trivial

/-! ### Removal -/

/-- Where the removal of the entry is. -/
inductive RemovePc
  | publication
  | use
  | removing
  | done

def RemovePc.Holds (h : Hold) : RemovePc → Prop
  | .publication | .done => False
  | .use => h = .publication
  | .removing => h = .publication ∨ h = .useWrite

/-- One operation of a removal, which waits for the locks or skips an entry that is in use. -/
inductive RemoveStep (wait : Bool) (free : Hold → Prop) : Disk → RemovePc → Disk → RemovePc → Prop
  | lockFails {d} : RemoveStep wait free d .publication d .done
  | lock {d} (h : free .publication) : RemoveStep wait free d .publication d .use
  | lockBusy {d} (skip : wait = false) (h : ¬free .publication) :
      RemoveStep wait free d .publication d .done
  | useFails {d} : RemoveStep wait free d .use d .done
  | use {d} (h : free .useWrite) : RemoveStep wait free d .use d .removing
  | useBusy {d} (skip : wait = false) (h : ¬free .useWrite) : RemoveStep wait free d .use d .done
  | removeSome {d node left} (at_ : d.final = some node) (h : node.Trims left) :
      RemoveStep wait free d .removing (d.setFinal (some left)) .removing
  | remove {d} : RemoveStep wait free d .removing (d.setFinal none) .done
  | removeFails {d} : RemoveStep wait free d .removing d .done

/-! ### The startup sweep -/

/-- Where the sweep is with the work directories of the key that it has seen. -/
inductive SweepPc
  | scanned (entries : List Str)
  | probing (entries : List Str)
  | restoring (backups entries : List Str)
  | removing (restored : Option Str) (entries : List Str)
  | done

def SweepPc.Holds (h : Hold) : SweepPc → Prop
  | .scanned _ | .done => False
  | .probing _ | .restoring _ _ | .removing _ _ => h = .publication

/-- The entries that the sweep takes for backups, the last one first. -/
def sweepBackups (entries : List Str) : List Str :=
  ((entries.filter (Str.contains · backupMarker)).mergeSort (· ≤ ·)).reverse

/-- One operation of the sweep; without `faults`, only what is missing fails. -/
inductive SweepStep (faults : Prop) (free : Hold → Prop) :
    Disk → SweepPc → Disk → SweepPc → Prop
  | lock {d entries} (h : free .publication) :
      SweepStep faults free d (.scanned entries) d (.probing entries)
  | lockBusy {d entries} (h : ¬free .publication) :
      SweepStep faults free d (.scanned entries) d .done
  | lockFails {d entries} (h : faults) : SweepStep faults free d (.scanned entries) d .done
  | probeFails {d entries} (h : faults) : SweepStep faults free d (.probing entries) d .done
  | present {d entries} (h : d.final ≠ none) :
      SweepStep faults free d (.probing entries) d (.removing none entries)
  | missing {d entries} (h : d.final = none) :
      SweepStep faults free d (.probing entries) d (.restoring (sweepBackups entries) entries)
  | restore {d backup backups entries node} (free_ : d.final = none)
      (at_ : d.work backup = some node) :
      SweepStep faults free d (.restoring (backup :: backups) entries)
        ((d.setFinal (some node)).setWork backup none) (.removing (some backup) entries)
  | restoreFails {d backup backups entries} (h : d.work backup = none ∨ faults) :
      SweepStep faults free d (.restoring (backup :: backups) entries) d
        (.restoring backups entries)
  | restoreNone {d entries} :
      SweepStep faults free d (.restoring [] entries) d (.removing none entries)
  | keep {d backup entries} :
      SweepStep faults free d (.removing (some backup) (backup :: entries)) d
        (.removing (some backup) entries)
  | removeSome {d restored entry entries node left} (other : restored ≠ some entry)
      (at_ : d.work entry = some node) (h : node.Trims left) :
      SweepStep faults free d (.removing restored (entry :: entries))
        (d.setWork entry (some left)) (.removing restored (entry :: entries))
  | remove {d restored entry entries} (other : restored ≠ some entry) :
      SweepStep faults free d (.removing restored (entry :: entries)) (d.setWork entry none)
        (.removing restored entries)
  | removeFails {d restored entry entries} (other : restored ≠ some entry)
      (h : d.work entry = none ∨ faults) :
      SweepStep faults free d (.removing restored (entry :: entries)) d
        (.removing restored entries)
  | swept {d restored} : SweepStep faults free d (.removing restored []) d .done

/-! ### A small entry -/

namespace Sample

/-- The digest of `archive`. -/
def digest : Str := str "8f434346648f6b96df89dda901c5176b10a6d83961dd3c1ac88b59b2dc327aa4"

/-- The digest of the payload of `tree`. -/
def payloadDigest : Str := str "527a0bb15c7e8521d814bcbf7876cbda5be5aabec7208effb4952186ff096837"

def archive : Bytes := (str "hi").bytes

def tree : Node := .dir [((str "agent").bytes, .file archive)]

def job : Job where
  agentId := str "demo"
  version := str "1.0.0"
  platform := .linuxX86_64
  archive := str "https://example.com/agent"
  cmd := str "agent"
  digest := digest
  forceRefresh := false

def metadata : BinaryCacheMetadata :=
  { job.expected with executableSha256 := some digest, payloadSha256 := some payloadDigest }

def json : Bytes := (str "\x7b").bytes ++ (str "
  \"agent_id\": \"demo\",
  \"agent_version\": \"1.0.0\",
  \"platform\": \"linux-x86_64\",
  \"archive\": \"https://example.com/agent\",
  \"cmd\": \"agent\",
  \"sha256\": \"8f434346648f6b96df89dda901c5176b10a6d83961dd3c1ac88b59b2dc327aa4\",
  \"executable_sha256\": \"8f434346648f6b96df89dda901c5176b10a6d83961dd3c1ac88b59b2dc327aa4\",
  \"payload_sha256\": \"527a0bb15c7e8521d814bcbf7876cbda5be5aabec7208effb4952186ff096837\"
\x7d").bytes

/-- SHA-256 of the archive and of the payload. -/
def sha256 (bytes : Bytes) : Digest :=
  if bytes = archive then ⟨hexDecode digest, by decide⟩ else ⟨hexDecode payloadDigest, by decide⟩

/-- The archive is no tar or zip file and is copied into the tree under its own name. -/
def crates : Crates where
  sha256 := sha256
  fromSlice bytes := if bytes = json then some metadata else none
  toVecPretty m := if m = metadata then json else []
  lastSegment url := if url = job.archive then some (str "agent") else none
  extract name bytes := some (.dir [(name, .file bytes)])
  executable tree cmd :=
    match tree.child cmd.bytes with
    | some (.file bytes) => some bytes
    | _ => none

def entry : Node := stagedEntry (str "agent").bytes archive tree json

def key : Str := str "1.0.0-sha256-" ++ digest

theorem key_job : job.key crates = key := by decide +kernel

theorem parse_digest : parseSha256 digest = .ok (sha256 archive) := by rfl

theorem payload_ne : tree.payload ≠ archive := by decide

theorem sha256_payload : crates.sha256 tree.payload = ⟨hexDecode payloadDigest, by decide⟩ := by
  simp [crates, sha256, payload_ne]

theorem hash_archive : crates.hash archive = digest := by decide +kernel

theorem hashPayload_tree : crates.hashPayload tree = payloadDigest := by
  rw [Crates.hashPayload, Crates.hash, sha256_payload]
  decide

theorem metadata_job : job.metadata crates tree archive = metadata := by
  rw [Job.metadata, hash_archive, hashPayload_tree, metadata]

theorem toVecPretty_metadata : crates.toVecPretty metadata = json := by
  simp [crates]

theorem head_json : json.head? = some 123 := by
  have first : (str "\x7b").bytes = [123] := by decide
  simp [json, first]

theorem fromSlice_json : crates.fromSlice json = some metadata := by
  simp [crates]

theorem archiveName_job : crates.archiveName job.archive = some (str "agent").bytes := by decide

theorem executable_tree : crates.executable tree job.cmd = some archive := by decide +kernel

theorem extract_archive : crates.extract (str "agent").bytes archive = some tree := rfl

theorem entry_eq : entry = stagedEntry (str "agent").bytes archive tree
    (crates.toVecPretty (job.metadata crates tree archive)) := by
  rw [metadata_job, toVecPretty_metadata, entry]

theorem valid_entry : validateCachedBinary crates job.expected (some entry) = .valid := by
  have parses := fromSlice_json
  rw [← toVecPretty_metadata, ← metadata_job] at parses
  rw [entry_eq]
  exact valid_stagedEntry executable_tree parses

end Sample

end AcpAgent.Installer
