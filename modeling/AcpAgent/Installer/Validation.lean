import AcpAgent.Installer.Tree

/-! The metadata of a cache entry (`installer/cache.rs`) and the check of an entry against it,
`validate_cached_binary_blocking` of `installer/binary/validation.rs`. -/

namespace AcpAgent.Installer

inductive Platform
  | darwinAarch64
  | darwinX86_64
  | linuxAarch64
  | linuxX86_64
  deriving DecidableEq

def platformCacheKey : Platform → Str
  | .darwinAarch64 => str "darwin-aarch64"
  | .darwinX86_64 => str "darwin-x86_64"
  | .linuxAarch64 => str "linux-aarch64"
  | .linuxX86_64 => str "linux-x86_64"

structure BinaryCacheMetadata where
  agentId : Str
  agentVersion : Str
  platform : Str
  archive : Str
  cmd : Str
  sha256 : Option Str
  executableSha256 : Option Str
  payloadSha256 : Option Str
  deriving DecidableEq

/-- `BinaryCacheMetadata::new`. -/
def BinaryCacheMetadata.new (agentId agentVersion : Str) (platform : Platform) (archive cmd : Str)
    (sha256 : Option Str) : BinaryCacheMetadata :=
  ⟨agentId, agentVersion, platformCacheKey platform, archive, cmd, sha256.map Str.lower, none,
    none⟩

/-- Everything but the digests that an installation records is the same. -/
def BinaryCacheMetadata.sameTarget (a b : BinaryCacheMetadata) : Bool :=
  a.agentId = b.agentId && a.agentVersion = b.agentVersion && a.platform = b.platform &&
    a.archive = b.archive && a.cmd = b.cmd && a.sha256 = b.sha256

/-- What the cache takes from elsewhere: SHA-256, `serde_json` for the metadata, the last path
segment that the `url` crate finds in an archive's URL (`none` if it is no URL, empty if there is no
segment), what an extraction leaves in an empty directory, by the archive's file name and content,
and the content of the executable that a command names in an extracted tree, if it is a file. -/
structure Crates where
  sha256 : Bytes → Digest
  fromSlice : Bytes → Option BinaryCacheMetadata
  toVecPretty : BinaryCacheMetadata → Bytes
  lastSegment : Str → Option Str
  extract : Bytes → Bytes → Option Node
  executable : Node → Str → Option Bytes

/-- `METADATA_FILE_NAME`. -/
def metadataName : Bytes := (str "metadata.json").bytes

/-- `EXTRACTED_DIR_NAME`. -/
def extractedName : Bytes := (str "extracted").bytes

theorem metadataName_ne : metadataName ≠ extractedName := by
  decide

namespace Crates

variable (c : Crates)

def hash (bytes : Bytes) : Str := hexEncode (c.sha256 bytes).1

/-- `hash_payload_sha256_blocking`. -/
def hashPayload (tree : Node) : Str := c.hash tree.payload

def validateArchiveComponent (component : Str) : Bool :=
  !(component = [] || component = str "." || component = str ".." ||
    component.any fun ch => ch = '/' || ch = '\\' || ch = '\x00')

/-- The name under which `download_archive` stores an archive. -/
def archiveName (archive : Str) : Option Bytes := do
  let segment ← c.lastSegment archive
  let name := if segment = [] then str "download.bin" else segment
  if validateArchiveComponent name then some name.bytes else none

end Crates

/-- What `validate_cached_binary_blocking` finds. -/
inductive Validation
  | valid
  | miss
  /-- An I/O error. -/
  | error
  deriving DecidableEq

/-- The recorded digest is the actual one, or there is none and none is required. -/
def digestMatches (recorded : Option Str) (required : Bool) (actual : Str) : Bool :=
  match recorded with
  | some digest => digest.lower = actual.lower
  | none => !required

/-- `validate_cached_binary_blocking`, of what is at the cache directory. -/
def validateCachedBinary (c : Crates) (expected : BinaryCacheMetadata) : Option Node → Validation
  | none => .miss
  | some (.dir children) =>
    match (Node.dir children).child metadataName with
    | none => .miss
    | some (.file bytes) =>
      match c.fromSlice bytes with
      | none => .miss
      | some metadata =>
        if !metadata.sameTarget expected then .miss
        else match (Node.dir children).child extractedName with
          | none => .miss
          | some tree =>
            match c.executable tree metadata.cmd with
            | none => .miss
            | some executable =>
              if !digestMatches metadata.executableSha256 expected.sha256.isSome
                  (c.hash executable) then .miss
              else if !digestMatches metadata.payloadSha256 expected.sha256.isSome
                  (c.hashPayload tree) then .miss
              else .valid
    -- The file system's own error for a directory; no entry has a link or a device there.
    | some _ => .error
  | some _ => .error

/-- What a valid entry consists of. -/
theorem valid_entry {c : Crates} {expected : BinaryCacheMetadata} {final : Option Node}
    (h : validateCachedBinary c expected final = .valid) :
    ∃ node bytes metadata tree, final = some node ∧
      node.child metadataName = some (.file bytes) ∧ c.fromSlice bytes = some metadata ∧
      metadata.sameTarget expected = true ∧ node.child extractedName = some tree ∧
      digestMatches metadata.payloadSha256 expected.sha256.isSome (c.hashPayload tree) = true := by
  unfold validateCachedBinary at h
  split at h
  · simp at h
  · next children =>
    split at h
    · simp at h
    · next bytes hm =>
      split at h
      · simp at h
      · next metadata hp =>
        split_ifs at h with same
        split at h
        · simp at h
        · next tree ht =>
          split at h
          · simp at h
          · split_ifs at h with _ payload
            exact ⟨_, bytes, metadata, tree, rfl, hm, hp, by simpa using same, ht,
              by simpa using payload⟩
    · simp at h
  · simp at h

end AcpAgent.Installer
