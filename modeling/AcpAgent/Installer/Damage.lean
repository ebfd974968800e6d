import AcpAgent.Installer.Archive
import AcpAgent.Installer.Promotion

/-! What an installation makes of a damaged cache entry.  `validate_cached_binary_blocking` is taken
here with what each of its calls finds at the entry, so also with what cannot be read;
`cache_binary_target_in_mode` and `PromotionTransaction::run` follow from their locks on, with a
download, an extraction and other calls that succeed. -/

namespace AcpAgent.Installer

/-! ### What is found -/

/-- What `hash_payload_entry` finds at a path. -/
inductive Found
  /-- The length that the metadata tell, and what is read. -/
  | file (len : ℕ) (content : Option Bytes)
  | link (target : Option Bytes)
  | dir (entries : List (Bytes × Found))
  | other (size : UInt64)
  /-- It cannot be inspected, or is a directory that cannot be listed. -/
  | unreadable

mutual

/-- The tree that `hash_payload_entry` gets to see, unless one of its calls fails. -/
def Found.read : Found → Option Node
  | .file len content => do
    let bytes ← content
    if bytes.length = len then some (.file bytes) else none
  | .link target => target.map .link
  | .dir entries => (readEntries entries).map .dir
  | .other size => some (.other size)
  | .unreadable => none

def readEntries : List (Bytes × Found) → Option (List (Bytes × Node))
  | [] => some []
  | (name, found) :: entries => do
    let node ← found.read
    let nodes ← readEntries entries
    some ((name, node) :: nodes)

end

/-- All of it can be read, and no file is longer or shorter than its metadata tell. -/
inductive Found.Legible : Found → Prop
  | file {bytes} : Legible (.file bytes.length (some bytes))
  | link {target} : Legible (.link (some target))
  | dir {entries} (each : ∀ entry ∈ entries, entry.2.Legible) : Legible (.dir entries)
  | other {size} : Legible (.other size)

/-- What `try_exists` and `read` find at the metadata file. -/
inductive MetadataFile
  | missing
  /-- `try_exists` fails, for instance because the cache directory is a regular file. -/
  | hidden
  /-- `read` fails, for instance because it is a directory. -/
  | unreadable
  | content (bytes : Bytes)

/-- What the validation finds at the cache directory. -/
structure Contents where
  metadataPath : MetadataFile
  /-- The file at a path in the extracted directory, if it is one, and its bytes, if they can be
  read. -/
  file : List Str → Option (Option Bytes)
  extractedDir : Found

def Contents.absent : Contents := ⟨.missing, fun _ => none, .unreadable⟩

/-! ### Validation -/

/-- A digest is computed only if one is recorded. -/
def compareDigest (recorded : Option Str) (required : Bool) (actual : Option Str) : Validation :=
  match recorded with
  | some digest =>
    match actual with
    | none => .error
    | some actual => if digest.lower = actual.lower then .valid else .miss
  | none => if required then .miss else .valid

/-- `validate_cached_binary_blocking`, of any contents. -/
def validateContents (c : Crates) (expected : BinaryCacheMetadata) (contents : Contents) :
    Validation :=
  match contents.metadataPath with
  | .missing => .miss
  | .hidden | .unreadable => .error
  | .content bytes =>
    match c.fromSlice bytes with
    | none => .miss
    | some metadata =>
      if !metadata.sameTarget expected then .miss
      else match (resolveCmdPath metadata.cmd).bind contents.file with
        | none => .miss
        | some executable =>
          match compareDigest metadata.executableSha256 expected.sha256.isSome
              (executable.map c.hash) with
          | .valid => compareDigest metadata.payloadSha256 expected.sha256.isSome
              (contents.extractedDir.read.map c.hashPayload)
          | failed => failed

/-! ### Replacement -/

/-- What is at the path of the cache directory. -/
inductive CachePath
  | missing
  | dangling
  /-- A link that cannot be followed: `try_exists` fails. -/
  | unresolvable
  | found (contents : Contents)

def CachePath.contents : CachePath → Contents
  | .missing | .dangling => .absent
  | .unresolvable => { Contents.absent with metadataPath := .hidden }
  | .found contents => contents

section Install

variable (c : Crates) (expected : BinaryCacheMetadata) (staged : Contents)

/-- From the rename of the staging directory on: what is served then. -/
def publishStaged : Except PromotionError Contents :=
  match validateContents c expected staged with
  | .valid => .ok staged
  | .miss => .error .postPublish
  | .error => .error .validate

/-- `PromotionTransaction::run`, where only what it finds can make it fail. -/
def promoteStaged (replaceExisting : Bool) : CachePath → Except PromotionError Contents
  | .unresolvable => .error .inspect
  -- `rename` puts no directory in the place of a link.
  | .dangling => .error .promote
  | .missing => publishStaged c expected staged
  | .found contents =>
    if replaceExisting then publishStaged c expected staged
    else match validateContents c expected contents with
      | .valid => .ok contents
      | .miss => publishStaged c expected staged
      | .error => .error .validate

/-- `cache_binary_target_in_mode`, which finds this at the cache directory and stages that. -/
def cacheBinaryTargetInMode (forceRefresh : Bool) (path : CachePath) :
    Except PromotionError Contents :=
  match validateContents c expected path.contents with
  | .valid => .ok path.contents
  | .miss => promoteStaged c expected staged forceRefresh path
  | .error => .error .validate

end Install

/-! ### Readable entries -/

mutual

def Node.found : Node → Found
  | .file content => .file content.length (some content)
  | .link target => .link (some target)
  | .dir children => .dir (foundEntries children)
  | .other size => .other size

def foundEntries : List (Bytes × Node) → List (Bytes × Found)
  | [] => []
  | (name, node) :: children => (name, node.found) :: foundEntries children

end

mutual

@[simp] theorem Node.read_found : (node : Node) → node.found.read = some node
  | .file content => by simp [Node.found, Found.read]
  | .link target => rfl
  | .dir children => by rw [Node.found, Found.read, readEntries_found children, Option.map_some]
  | .other size => rfl

theorem readEntries_found : (children : List (Bytes × Node)) →
    readEntries (foundEntries children) = some children
  | [] => rfl
  | (name, node) :: children => by
    rw [foundEntries, readEntries, node.read_found, readEntries_found children]
    rfl

end

theorem readEntries_isSome (entries : List (Bytes × Found)) :
    (readEntries entries).isSome ↔ ∀ entry ∈ entries, entry.2.read.isSome := by
  induction entries with
  | nil => simp [readEntries]
  | cons entry entries ih =>
    obtain ⟨name, found⟩ := entry
    rw [List.forall_mem_cons, ← ih, readEntries]
    cases found.read with
    | none => simp
    | some node => cases readEntries entries <;> simp

theorem Found.Legible.read {found : Found} (h : found.Legible) : found.read.isSome := by
  induction h with
  | file => simp [Found.read]
  | link => rfl
  | dir _ ih =>
    rw [Found.read, Option.isSome_map]
    exact (readEntries_isSome _).mpr ih
  | other => rfl

mutual

theorem Found.legible_of_read : (found : Found) → found.read.isSome → found.Legible
  | .file len none, h => by simp [Found.read] at h
  | .file len (some bytes), h => by
    by_cases same : bytes.length = len
    · subst same
      exact .file
    · simp [Found.read, same] at h
  | .link none, h => by simp [Found.read] at h
  | .link (some target), _ => .link
  | .dir entries, h => by
    rw [Found.read, Option.isSome_map] at h
    exact .dir (legible_of_readEntries entries ((readEntries_isSome entries).mp h))
  | .other size, _ => .other
  | .unreadable, h => by simp [Found.read] at h

theorem legible_of_readEntries : (entries : List (Bytes × Found)) →
    (∀ entry ∈ entries, entry.2.read.isSome) → ∀ entry ∈ entries, entry.2.Legible
  | [], _ => List.forall_mem_nil _
  | (_, found) :: entries, h => by
    obtain ⟨first, rest⟩ := List.forall_mem_cons.mp h
    exact List.forall_mem_cons.mpr
      ⟨found.legible_of_read first, legible_of_readEntries entries rest⟩

end

theorem Found.read_isSome_iff {found : Found} : found.read.isSome ↔ found.Legible :=
  ⟨found.legible_of_read, Legible.read⟩

section Readable

variable (c : Crates) (expected : BinaryCacheMetadata) (contents : Contents)

/-- The metadata file is that of the expected target, and its command names this file. -/
def Contents.Names (metadata : BinaryCacheMetadata) (executable : Option Bytes) : Prop :=
  ∃ bytes, contents.metadataPath = .content bytes ∧ c.fromSlice bytes = some metadata ∧
    metadata.sameTarget expected = true ∧
    (resolveCmdPath metadata.cmd).bind contents.file = some executable

/-- What has to be read of the entry can be read: the metadata, the executable of the expected
target, and the tree of an executable that is not changed. -/
structure Contents.Readable : Prop where
  metadata : contents.metadataPath = .missing ∨ ∃ bytes, contents.metadataPath = .content bytes
  executable : ∀ metadata executable, contents.Names c expected metadata executable →
    metadata.executableSha256 ≠ none → executable ≠ none
  payload : ∀ metadata executable, contents.Names c expected metadata executable →
    compareDigest metadata.executableSha256 expected.sha256.isSome (executable.map c.hash) =
      .valid →
    metadata.payloadSha256 ≠ none → contents.extractedDir.Legible

end Readable

section Validation

variable {c : Crates} {expected : BinaryCacheMetadata} {contents : Contents}

theorem compareDigest_error (recorded : Option Str) (required : Bool) (actual : Option Str) :
    compareDigest recorded required actual = .error ↔ recorded ≠ none ∧ actual = none := by
  unfold compareDigest
  cases recorded with
  | none => cases required <;> simp
  | some digest =>
    cases actual with
    | none => simp
    | some actual => by_cases same : digest.lower = actual.lower <;> simp [same]

theorem compareDigest_some (recorded : Option Str) (required : Bool) (actual : Str) :
    compareDigest recorded required (some actual) =
      if digestMatches recorded required actual then .valid else .miss := by
  unfold compareDigest digestMatches
  cases recorded with
  | none => cases required <;> rfl
  | some digest => by_cases same : digest.lower = actual.lower <;> simp [same]

theorem validateContents_names {metadata : BinaryCacheMetadata} {executable : Option Bytes}
    (h : contents.Names c expected metadata executable) :
    validateContents c expected contents =
      match compareDigest metadata.executableSha256 expected.sha256.isSome
          (executable.map c.hash) with
      | .valid => compareDigest metadata.payloadSha256 expected.sha256.isSome
          (contents.extractedDir.read.map c.hashPayload)
      | failed => failed := by
  obtain ⟨bytes, content, parsed, same, file⟩ := h
  simp only [validateContents, content, parsed, same, file, Bool.not_true, Bool.false_eq_true,
    if_false]

theorem Contents.Names.unique {metadata metadata' : BinaryCacheMetadata}
    {executable executable' : Option Bytes} (h : contents.Names c expected metadata executable)
    (h' : contents.Names c expected metadata' executable') :
    metadata = metadata' ∧ executable = executable' := by
  obtain ⟨bytes, content, parsed, -, file⟩ := h
  obtain ⟨bytes', content', parsed', -, file'⟩ := h'
  rw [content] at content'
  cases content'
  rw [parsed] at parsed'
  cases parsed'
  rw [file] at file'
  cases file'
  exact ⟨rfl, rfl⟩

theorem validateContents_unnamed
    (h : ∀ metadata executable, ¬contents.Names c expected metadata executable) :
    validateContents c expected contents =
      match contents.metadataPath with
      | .hidden | .unreadable => .error
      | _ => .miss := by
  unfold validateContents
  split
  · next missing => rw [missing]
  · next hidden => rw [hidden]
  · next unreadable => rw [unreadable]
  · next bytes content =>
    rw [content]
    split
    · rfl
    · next metadata parsed =>
      split_ifs with other
      · rfl
      · split
        · rfl
        · next executable file =>
          exact absurd ⟨bytes, content, parsed, by simpa using other, file⟩ (h metadata executable)

theorem validateContents_error_iff :
    validateContents c expected contents = .error ↔ ¬contents.Readable c expected := by
  by_cases named : ∃ metadata executable, contents.Names c expected metadata executable
  · obtain ⟨metadata, executable, names⟩ := named
    have readable : contents.Readable c expected ↔
        (metadata.executableSha256 ≠ none → executable ≠ none) ∧
        (compareDigest metadata.executableSha256 expected.sha256.isSome
          (executable.map c.hash) = .valid →
        metadata.payloadSha256 ≠ none → contents.extractedDir.Legible) := by
      constructor
      · intro h
        exact ⟨h.executable _ _ names, h.payload _ _ names⟩
      · rintro ⟨file, payload⟩
        obtain ⟨bytes, content, -⟩ := id names
        refine ⟨.inr ⟨bytes, content⟩, fun metadata' executable' names' => ?_,
          fun metadata' executable' names' => ?_⟩
        · obtain ⟨rfl, rfl⟩ := names.unique names'
          exact file
        · obtain ⟨rfl, rfl⟩ := names.unique names'
          exact payload
    have errs := compareDigest_error metadata.executableSha256 expected.sha256.isSome
      (executable.map c.hash)
    have errs' := compareDigest_error metadata.payloadSha256 expected.sha256.isSome
      (contents.extractedDir.read.map c.hashPayload)
    rw [Option.map_eq_none_iff] at errs errs'
    rw [← Option.not_isSome_iff_eq_none, Found.read_isSome_iff] at errs'
    rw [readable, validateContents_names names]
    split
    · next valid =>
      have read : metadata.executableSha256 ≠ none → executable ≠ none := by
        intro recorded lost
        cases valid.symm.trans (errs.mpr ⟨recorded, lost⟩)
      rw [errs', ← Classical.not_imp]
      exact not_congr ⟨fun legible => ⟨read, fun _ => legible⟩, fun h => h.2 valid⟩
    · next invalid =>
      rw [errs]
      constructor
      · rintro ⟨recorded, lost⟩ ⟨read, -⟩
        exact read recorded lost
      · intro damaged
        by_contra whole
        exact damaged ⟨fun recorded lost => whole ⟨recorded, lost⟩, fun valid =>
          absurd valid invalid⟩
  · push Not at named
    rw [validateContents_unnamed named]
    have readable : contents.Readable c expected ↔
        contents.metadataPath = .missing ∨ ∃ bytes, contents.metadataPath = .content bytes := by
      constructor
      · exact fun h => h.metadata
      · intro h
        exact ⟨h, fun _ _ names => absurd names (named _ _), fun _ _ names =>
          absurd names (named _ _)⟩
    rw [readable]
    cases contents.metadataPath <;> simp

end Validation

/-! ### What the rest of the installer makes of an entry -/

/-- What is found at a node that can be read; `file` tells what files a tree has. -/
def Contents.ofNode (file : Node → List Str → Option Bytes) (node : Node) : Contents where
  metadataPath := match node.isDir, node.child metadataName with
    | false, _ => .hidden
    | true, none => .missing
    | true, some (.file bytes) => .content bytes
    | true, some _ => .unreadable
  file path := (node.child extractedName).bind fun tree => (file tree path).map some
  extractedDir := ((node.child extractedName).map Node.found).getD .unreadable

section OfNode

variable {c : Crates} {file : Node → List Str → Option Bytes}
  (executable : ∀ tree cmd, c.executable tree cmd = (resolveCmdPath cmd).bind (file tree))
include executable

theorem Contents.file_ofNode (node : Node) (cmd : Str) :
    (resolveCmdPath cmd).bind (ofNode file node).file =
      ((node.child extractedName).bind fun tree => c.executable tree cmd).map some := by
  cases path : resolveCmdPath cmd with
  | none => cases node.child extractedName <;> simp [executable, path]
  | some names =>
    cases extracted : node.child extractedName <;> simp [ofNode, executable, path, extracted]

/-- Of an entry that can be read, the validation is that of `Installer.Validation`. -/
theorem validateContents_ofNode (expected : BinaryCacheMetadata) (node : Node) :
    validateContents c expected (.ofNode file node) =
      validateCachedBinary c expected (some node) := by
  have files := Contents.file_ofNode executable node
  cases node with
  | dir children =>
    cases there : (Node.dir children).child metadataName with
    | none => simp [validateContents, validateCachedBinary, Contents.ofNode, there]
    | some entry =>
      cases entry with
      | file bytes =>
        have path : (Contents.ofNode file (.dir children)).metadataPath = .content bytes := by
          simp [Contents.ofNode, there]
        cases parsed : c.fromSlice bytes with
        | none => simp [validateContents, validateCachedBinary, path, parsed, there]
        | some metadata =>
          cases same : metadata.sameTarget expected with
          | false => simp [validateContents, validateCachedBinary, path, parsed, same, there]
          | true =>
            simp only [validateContents, validateCachedBinary, path, parsed, same, files, there]
            cases extracted : (Node.dir children).child extractedName with
            | none => rfl
            | some tree =>
              have read : (Contents.ofNode file (.dir children)).extractedDir.read = some tree := by
                simp [Contents.ofNode, extracted]
              cases found : c.executable tree metadata.cmd with
              | none => simp [found]
              | some bytes =>
                simp only [Option.bind_some, found, Option.map_some, read, compareDigest_some]
                cases digestMatches metadata.executableSha256 expected.sha256.isSome
                  (c.hash bytes) <;>
                cases digestMatches metadata.payloadSha256 expected.sha256.isSome
                  (c.hashPayload tree) <;> rfl
      | _ => simp [validateContents, validateCachedBinary, Contents.ofNode, there]
  | _ => rfl

end OfNode

/-- What `try_exists` and `rename` find at the path of the cache directory. -/
inductive CachePath.Shown (live : Bytes → Bool) : Option Node → CachePath → Prop
  | missing : Shown live none .missing
  | dangling {target} (dead : live target = false) : Shown live (some (.link target)) .dangling
  | found {node contents} (there : ∀ target, node = .link target → live target = true) :
      Shown live (some node) (.found contents)

structure PromotionCalls.Succeed (calls : PromotionCalls) : Prop where
  inspect : calls.inspect = true
  validate : calls.validate = true
  discard : calls.discard = .ok ()
  preserve : calls.preserve = true
  promote : calls.promote = true
  postPublish : calls.postPublish = true

section Promotion

variable {c : Crates} {expected : BinaryCacheMetadata} {staged : Contents}
  {validate : Option Node → Validation} {live : Bytes → Bool} {calls : PromotionCalls}
  {staging backup : Str} {d : Disk} {entry : Node}

theorem publish_staged (succeed : calls.Succeed) {t : PromotionTransaction}
    (owned : t.staging = some staging) (at_ : d.work staging = some entry)
    (fits : entry.canReplace d.final = true)
    (same : validate (some entry) = validateContents c expected staged) :
    (t.publish validate calls d).1 = (publishStaged c expected staged).map fun _ => () := by
  have renamed : t.staging.bind d.renameWork =
      some ((d.setFinal (some entry)).setWork staging none) := by
    simp [owned, Disk.renameWork, at_, fits]
  unfold PromotionTransaction.publish publishStaged
  rw [renamed, succeed.promote, succeed.postPublish]
  simp only [Disk.setWork_final, Disk.setFinal, if_true, same]
  cases validateContents c expected staged with
  | valid => cases t.backupDir <;> rfl
  | miss | error => rfl

/-- The transaction ends as `promoteStaged` says, if all its calls succeed. -/
theorem run_staged (succeed : calls.Succeed) {path : CachePath} (shown : path.Shown live d.final)
    (other : backup ≠ staging) (at_ : d.work staging = some entry) (dir : entry.isDir = true)
    (free : d.work backup = none)
    (same : validate (some entry) = validateContents c expected staged)
    (same' : validate d.final = validateContents c expected path.contents)
    (replaceExisting : Bool) :
    ((PromotionTransaction.new staging).run validate live backup calls replaceExisting d).1 =
      (promoteStaged c expected staged replaceExisting path).map fun _ => () := by
  have preserved : ∀ node, d.final = some node →
      ((PromotionTransaction.new staging).preserve validate backup calls d).1 =
        (publishStaged c expected staged).map fun _ => () := by
    intro node final
    have renamed : d.renameFinal backup =
        some ((d.setWork backup d.final).setFinal none) := by
      simp [Disk.renameFinal, final, free, Node.canReplace]
    unfold PromotionTransaction.preserve
    rw [renamed, succeed.preserve]
    exact publish_staged succeed rfl (by simp [at_, other.symm]) rfl same
  unfold PromotionTransaction.run
  rw [if_neg (by simp [succeed.inspect])]
  generalize final : d.final = seen at shown same'
  cases shown with
  | missing =>
    rw [if_neg (by simp [Disk.finalExists, final])]
    exact publish_staged succeed rfl at_ (by simp [final, Node.canReplace]) same
  | dangling dead =>
    rw [if_neg (by simp [Disk.finalExists, final, dead])]
    have blocked : (PromotionTransaction.new staging).staging.bind d.renameWork = none := by
      simp [PromotionTransaction.new, Disk.renameWork, at_, final, Node.canReplace, dir]
    rw [PromotionTransaction.publish, blocked]
    rfl
  | @found node contents there =>
    have exists_ : d.finalExists live = true := by
      unfold Disk.finalExists
      rw [final]
      cases node with
      | link target => exact there target rfl
      | _ => rfl
    rw [if_pos exists_, promoteStaged]
    cases replaceExisting with
    | true => exact preserved node final
    | false =>
      rw [CachePath.contents] at same'
      simp only [Bool.false_eq_true, if_false, succeed.validate, if_true, same']
      cases validateContents c expected contents with
      | valid =>
        have discarded : cleanupBlocking (PromotionTransaction.new staging).staging calls.discard d =
            (true, none, d.setWork staging none) := by
          rw [succeed.discard]
          exact cleanupBlocking_ok staging d
        rw [discarded]
        rfl
      | miss => exact preserved node final
      | error => rfl

end Promotion

/-! ### Installation over damage -/

/-- What `prepare_staging_directory` leaves if it succeeds: the files that it has read, and the
metadata that it has written of them. -/
structure Contents.Prepared (c : Crates) (job : Job) (tree : Node) (executable : Bytes)
    (contents : Contents) : Prop where
  file : (resolveCmdPath job.cmd).bind contents.file = some (some executable)
  extracted : contents.extractedDir.read = some tree
  metadata :
    contents.metadataPath = .content (c.toVecPretty (job.metadata c tree executable))

section Damage

variable {c : Crates} {job : Job} {tree : Node} {executable : Bytes} {staged : Contents}

theorem Contents.Prepared.valid (h : staged.Prepared c job tree executable)
    (parses : c.fromSlice (c.toVecPretty (job.metadata c tree executable)) =
      some (job.metadata c tree executable)) :
    validateContents c job.expected staged = .valid := by
  have names : staged.Names c job.expected (job.metadata c tree executable) (some executable) :=
    ⟨_, h.metadata, parses, by simp [Job.metadata, BinaryCacheMetadata.sameTarget], h.file⟩
  rw [validateContents_names names, h.extracted]
  simp [compareDigest, Job.metadata]

/-- An installation ends with the new entry, or with a valid one that it has found, exactly if what
it has to read of the old one can be read and the cache directory is no link to nothing. -/
theorem damage_replaced_iff (prepared : staged.Prepared c job tree executable)
    (parses : c.fromSlice (c.toVecPretty (job.metadata c tree executable)) =
      some (job.metadata c tree executable)) (path : CachePath) :
    (∃ served, cacheBinaryTargetInMode c job.expected staged job.forceRefresh path = .ok served ∧
      validateContents c job.expected served = .valid ∧
      (served = staged ∨
        served = path.contents ∧ validateContents c job.expected path.contents = .valid)) ↔
    path ≠ .dangling ∧ path.contents.Readable c job.expected := by
  have valid := prepared.valid parses
  have published : publishStaged c job.expected staged = .ok staged := by
    rw [publishStaged, valid]
  constructor
  · rintro ⟨served, ends, -⟩
    refine ⟨?_, ?_⟩
    · rintro rfl
      cases ends
    · by_contra damaged
      rw [cacheBinaryTargetInMode, validateContents_error_iff.mpr damaged] at ends
      cases ends
  · rintro ⟨followed, readable⟩
    unfold cacheBinaryTargetInMode
    cases seen : validateContents c job.expected path.contents with
    | valid => exact ⟨_, rfl, seen, .inr ⟨rfl, rfl⟩⟩
    | error => exact absurd readable (validateContents_error_iff.mp seen)
    | miss =>
      refine ⟨staged, ?_, valid, .inl rfl⟩
      cases path with
      | missing => exact published
      | dangling => exact absurd rfl followed
      | unresolvable => cases seen
      | found contents =>
        dsimp only [promoteStaged]
        rw [CachePath.contents] at seen
        rw [seen, published, ite_self]

end Damage

namespace Sample

def treeFile : List Str → Option (Option Bytes) := fun path =>
  if path = [str "agent"] then some (some archive) else none

def stagedContents : Contents := ⟨.content json, treeFile, tree.found⟩

def directoryAsMetadata : Contents := { stagedContents with metadataPath := .unreadable }

def truncatedMetadata : Contents := { stagedContents with metadataPath := .content (json.take 20) }

theorem prepared_staged : stagedContents.Prepared crates job tree archive where
  file := by decide +kernel
  extracted := Node.read_found tree
  metadata := by rw [metadata_job, toVecPretty_metadata, stagedContents]

theorem parses_metadata : crates.fromSlice (crates.toVecPretty (job.metadata crates tree archive)) =
    some (job.metadata crates tree archive) := by
  rw [metadata_job, toVecPretty_metadata, fromSlice_json]

end Sample

open Sample in
theorem damage_replaced_iff_truncated :
    (∃ served, cacheBinaryTargetInMode crates job.expected stagedContents job.forceRefresh
        (.found truncatedMetadata) = .ok served ∧
      validateContents crates job.expected served = .valid ∧
      (served = stagedContents ∨ served = truncatedMetadata ∧
        validateContents crates job.expected truncatedMetadata = .valid)) ↔
    CachePath.found truncatedMetadata ≠ .dangling ∧
      truncatedMetadata.Readable crates job.expected :=
  damage_replaced_iff prepared_staged parses_metadata (.found truncatedMetadata)

open Sample in
/-- A directory in the place of the metadata file makes an installation and an update fail. -/
theorem metadata_directory_fails :
    stagedContents.Prepared crates job tree archive ∧
    ∀ forceRefresh, cacheBinaryTargetInMode crates job.expected stagedContents forceRefresh
      (.found directoryAsMetadata) = .error .validate :=
  ⟨prepared_staged, fun _ => rfl⟩

end AcpAgent.Installer
