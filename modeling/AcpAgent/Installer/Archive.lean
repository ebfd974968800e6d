import AcpAgent.Installer.Validation
import AcpAgent.Lib.FileSystem
import AcpAgent.Lib.Logged

/-! The extraction of archives, `installer/binary/archive.rs` and `installer/binary/paths.rs`, as the
actions that it performs in order.  A call that fails, a read that fails and a cancellation each end
an extraction, so that all that any execution does is a front part of these actions. -/

namespace AcpAgent.Installer

open FileSystem (Component)

/-! ### Paths -/

/-- One part of a path between separators; the empty part and a `.` inside a path say nothing. -/
def componentOf (part : Str) : List (Component Str) :=
  if part = [] ∨ part = str "." then []
  else if part = str ".." then [.up]
  else [.name part]

/-- `Path::components`. -/
def components (path : Str) : List (Component Str) :=
  match Str.split '/' path with
  | [] => []
  | first :: rest =>
    (if first = [] ∧ rest ≠ [] then [.root]
      else if first = str "." then [.here]
      else componentOf first) ++ rest.flatMap componentOf

/-- The components that are names. -/
def normalNames (path : List (Component Str)) : List Str :=
  path.filterMap fun
    | .name name => some name
    | _ => none

/-- A path below a directory, as `display` writes it. -/
def displayBelow (directory : Str) (names : List Str) : Str :=
  names.foldl (fun path name => path ++ '/' :: name) directory

inductive ArchiveError
  | notUtf8
  | unsafePath (text : Str)
  | emptyPath
  | nameNotUtf8
  | unsafeName (component : Str)
  | unsafeZipPath (index : ℕ)
  | entryLimit
  | fileLimit
  | sizeLimit
  | sizeOverflow
  | sizeMismatch (outpath : List Str) (declared extracted : ℕ)
  | symlinkSizeMismatch (outpath : List Str) (declared extracted : ℕ)
  | symlinkNotUtf8 (outpath : List Str)
  | unsupported
  /-- The archive, an entry or a part of it cannot be read, or the crate refuses to unpack it. -/
  | crate
  /-- A plain sum or difference of two `u64`s is out of range. -/
  | arithmetic
  deriving DecidableEq

/-- The texts, for an archive and a destination; `debug` is the `{:?}` of a string. -/
def ArchiveError.text (debug : Str → Str) (archive destination : Str) : ArchiveError → Str
  | .notUtf8 => str "archive path is not valid UTF-8"
  | .unsafePath text => str "unsafe archive path: " ++ debug text
  | .emptyPath => str "empty archive path"
  | .nameNotUtf8 => str "archive filename is not valid UTF-8"
  | .unsafeName component => str "unsafe archive filename: " ++ debug component
  | .unsafeZipPath index => str "unsafe path in ZIP archive " ++ archive ++ str ": entry " ++
      Nat.toDigits 10 index
  | .entryLimit => str "archive entry limit exceeded"
  | .fileLimit => str "archive file limit exceeded"
  | .sizeLimit => str "expanded archive size limit exceeded"
  | .sizeOverflow => str "expanded archive size overflow"
  | .sizeMismatch outpath declared extracted => str "ZIP entry size mismatch for " ++
      displayBelow destination outpath ++ str ": declared " ++ Nat.toDigits 10 declared ++
      str ", extracted " ++ Nat.toDigits 10 extracted
  | .symlinkSizeMismatch outpath declared extracted => str "ZIP symlink size mismatch for " ++
      displayBelow destination outpath ++ str ": declared " ++ Nat.toDigits 10 declared ++
      str ", extracted " ++ Nat.toDigits 10 extracted
  | .symlinkNotUtf8 outpath =>
    str "symlink target for " ++ displayBelow destination outpath ++ str " is not valid UTF-8"
  | .unsupported => str "unsupported archive format for " ++ archive
  -- The error of the crate; the panic of the arithmetic.
  | .crate | .arithmetic => []

/-- `validate_archive_path`, for what `to_str` gives. -/
def validateArchivePath : Option Str → Except ArchiveError Unit
  | none => .error .notUtf8
  | some text =>
    if text.any fun ch => ch = '\\' || ch = '\x00' then .error (.unsafePath text)
    else if (components text).any fun c => c = .up || c = .root then .error (.unsafePath text)
    else if normalNames (components text) = [] then .error .emptyPath
    else .ok ()

/-- The target of a link, if the entry has one. -/
def validateLinkName : Option Bytes → Except ArchiveError Unit
  | none => .ok ()
  | some link => validateArchivePath (Str.ofBytes link)

/-- What `resolve_cmd_path` puts behind the extraction directory. -/
def resolveCmdPath (cmd : Str) : Option (List Str) :=
  let candidate := components (Str.trim cmd)
  if candidate.any fun c => c = .up || c = .root then none else some (normalNames candidate)

/-! ### Actions -/

/-- `ArchiveLimits`, as far as extraction reads it. -/
structure ArchiveLimits where
  maxExpandedBytes : UInt64
  maxEntries : UInt64
  maxFiles : UInt64

/-- What an extraction does, at paths below its destination. -/
inductive Action
  /-- The next entry is taken. -/
  | entry
  | createDirAll (path : List Str)
  | createFile (path : List Str)
  /-- Writes to the file that was created last. -/
  | write (bytes : Bytes)
  | symlink (target : Str) (path : List Str)
  | setPermissions (path : List Str) (mode : UInt32)
  /-- A hard link or a special file. -/
  | createOther (path : List Str)

abbrev Extract (α : Type) := Logged Action ArchiveError α

def addU64 (a b : ℕ) : Extract ℕ := do
  .require (a + b < 2 ^ 64) .arithmetic
  return a + b

def subU64 (a b : ℕ) : Extract ℕ := do
  .require (b ≤ a) .arithmetic
  return a - b

def checkedAdd (a b : ℕ) : Extract ℕ := do
  .require (a + b < 2 ^ 64) .sizeOverflow
  return a + b

/-- `copy_with_limit`: what each read gives is written by `sink`. -/
def copyWithLimit (sink : Bytes → Extract Unit) (maxBytes copied : ℕ) : List Bytes → Extract ℕ
  | [] => return copied
  | chunk :: chunks =>
    if chunk = [] then return copied
    else do
      let copied ← checkedAdd copied chunk.length
      .require (copied ≤ maxBytes) .sizeLimit
      sink chunk
      copyWithLimit sink maxBytes copied chunks

theorem meets_checked {p : Prop} [Decidable p] {error : ArchiveError} {done : List Action}
    {always : List Action → Prop} {wrong : ArchiveError → Prop} (n : ℕ) (now : always done)
    (fails : wrong error) :
    Logged.Meets done (do .require p error; return n : Extract ℕ) always
      (fun value log => log = done ∧ value = n) wrong :=
  (Logged.Meets.require_quiet now fails).bind_quiet fun _ _ => .pure now ⟨rfl, rfl⟩

/-- What the sink keeps after each chunk holds when the loop ends, within the limit. -/
theorem meets_copyWithLimit {sink : Bytes → Extract Unit} {maxBytes : ℕ}
    {always : List Action → Prop} {wrong : ArchiveError → Prop} {I : ℕ → List Action → Prop}
    (overflow : wrong .sizeOverflow) (limit : wrong .sizeLimit)
    (within : ∀ copied log, copied ≤ maxBytes → I copied log → always log)
    (sinks : ∀ done copied (chunk : Bytes), copied + chunk.length ≤ maxBytes → I copied done →
      Logged.Meets done (sink chunk) always (fun _ log => I (copied + chunk.length) log) wrong)
    (chunks : List Bytes) {done : List Action} {copied : ℕ} (fits : copied ≤ maxBytes)
    (now : I copied done) :
    Logged.Meets done (copyWithLimit sink maxBytes copied chunks) always
      (fun total log => I total log ∧ total ≤ maxBytes) wrong := by
  induction chunks generalizing done copied with
  | nil => exact .pure (within copied done fits now) ⟨now, fits⟩
  | cons chunk chunks ih =>
    have here := within copied done fits now
    unfold copyWithLimit
    split_ifs with empty
    · exact .pure here ⟨now, fits⟩
    · refine (meets_checked (copied + chunk.length) here overflow).bind_quiet fun _ sum => ?_
      subst sum
      refine (Logged.Meets.require_quiet here limit).bind_quiet fun _ fits' => ?_
      refine (sinks done copied chunk fits' now).bind fun _ log next => ?_
      exact ih fits' next

/-! ### ZIP archives -/

/-- An entry as the `zip` crate gives it, with what each read of its body returns. -/
structure ZipEntry where
  enclosedName : Option Str
  size : UInt64
  isDir : Bool
  isSymlink : Bool
  unixMode : Option UInt32
  chunks : List Bytes

/-- The entries, `none` where `by_index` fails; their number is a `usize`. -/
structure ZipArchive where
  entries : List (Option ZipEntry)
  small : entries.length < 2 ^ 64

structure ZipState where
  expanded : ℕ
  files : ℕ
  unixModes : List (List Str × UInt32)

def ZipState.empty : ZipState := ⟨0, 0, []⟩

def extractZipSymlink (entry : ZipEntry) (outpath : List Str) (maxBytes : ℕ) : Extract Unit := do
  let copied ← copyWithLimit (fun _ => return ()) maxBytes 0 entry.chunks
  .require (copied = entry.size.toNat) (.symlinkSizeMismatch outpath entry.size.toNat copied)
  match Str.ofBytes (entry.chunks.takeWhile (· ≠ [])).flatten with
  | none => .stop (.symlinkNotUtf8 outpath)
  | some target =>
    .ofExcept (validateArchivePath (some target))
    .perform (.createDirAll outpath.dropLast)
    .perform (.symlink target outpath)

/-- One iteration of `extract_zip_with_limits`. -/
def extractZipEntry (limits : ArchiveLimits) (index : ℕ) (s : ZipState) :
    Option ZipEntry → Extract ZipState
  | none => .stop .crate
  | some entry => do
    .perform .entry
    match entry.enclosedName with
    | none => .stop (.unsafeZipPath index)
    | some enclosed =>
      .ofExcept (validateArchivePath (some enclosed))
      let outpath := normalNames (components enclosed)
      let expandedBeforeEntry := s.expanded
      let expanded ← checkedAdd s.expanded entry.size.toNat
      .require (expanded ≤ limits.maxExpandedBytes.toNat) .sizeLimit
      let unixModes := s.unixModes ++ (entry.unixMode.map fun mode => (outpath, mode)).toList
      if entry.isDir then
        .perform (.createDirAll outpath)
        return { s with expanded, unixModes }
      else
        let files ← addU64 s.files 1
        .require (files ≤ limits.maxFiles.toNat) .fileLimit
        if entry.isSymlink then
          let budget ← subU64 limits.maxExpandedBytes.toNat expandedBeforeEntry
          extractZipSymlink entry outpath budget
          return { s with expanded, files }
        else
          .perform (.createDirAll outpath.dropLast)
          .perform (.createFile outpath)
          let budget ← subU64 limits.maxExpandedBytes.toNat expandedBeforeEntry
          let copied ← copyWithLimit (.perform ∘ .write) budget 0 entry.chunks
          .require (copied = entry.size.toNat) (.sizeMismatch outpath entry.size.toNat copied)
          return { expanded, files, unixModes }

def extractZipEntries (limits : ArchiveLimits) :
    ℕ → ZipState → List (Option ZipEntry) → Extract ZipState
  | _, s, [] => return s
  | index, s, entry :: entries => do
    let s ← extractZipEntry limits index s entry
    extractZipEntries limits (index + 1) s entries

/-- The second pass. -/
def setModes : List (List Str × UInt32) → Extract Unit
  | [] => return ()
  | (path, mode) :: modes => do
    .perform (.setPermissions path mode)
    setModes modes

/-- `extract_zip_with_limits`. -/
def extractZip (limits : ArchiveLimits) (archive : ZipArchive) : Extract Unit := do
  .require (archive.entries.length ≤ limits.maxEntries.toNat) .entryLimit
  let s ← extractZipEntries limits 0 .empty archive.entries
  setModes s.unixModes.reverse

/-! ### Tar archives -/

/-- An entry as the `tar` crate gives it, with the position of its header in the archive. -/
structure TarEntry where
  path : Bytes
  linkName : Option Bytes
  size : UInt64
  isDir : Bool
  position : UInt64

/-- The entries, `none` where reading fails.  Each header takes a block of 512 bytes. -/
structure TarArchive where
  entries : List (Option TarEntry)
  spaced : entries.reduceOption.Pairwise fun a b => a.position.toNat + 512 ≤ b.position.toNat

structure TarState where
  entriesSeen : ℕ
  expanded : ℕ
  files : ℕ

def TarState.empty : TarState := ⟨0, 0, 0⟩

def Action.bytes : Action → ℕ
  | .write bytes => bytes.length
  | _ => 0

/-- The entries other than directories that an action creates. -/
def Action.files : Action → ℕ
  | .createFile _ | .symlink _ _ | .createOther _ => 1
  | _ => 0

def Action.entries : Action → ℕ
  | .entry => 1
  | _ => 0

/-- `unpack_in`: what it does with an entry, and whether it succeeds.  It writes no more bytes than
the entry declares, and creates one entry, which is a directory if the entry says so. -/
structure UnpackIn where
  actions : TarEntry → List Action
  succeeds : TarEntry → Bool
  bytes_le : ∀ entry, ((actions entry).map Action.bytes).sum ≤ entry.size.toNat
  files_le : ∀ entry, ((actions entry).map Action.files).sum ≤ if entry.isDir then 0 else 1
  entries_eq : ∀ entry, ((actions entry).map Action.entries).sum = 0

def UnpackIn.run (unpackIn : UnpackIn) (entry : TarEntry) : Extract Unit :=
  ⟨unpackIn.actions entry, if unpackIn.succeeds entry then .ok () else .error .crate⟩

/-- One iteration of `extract_tar`. -/
def extractTarEntry (unpackIn : UnpackIn) (limits : ArchiveLimits) (s : TarState) :
    Option TarEntry → Extract TarState
  | none => .stop .crate
  | some entry => do
    .ofExcept (validateArchivePath (Str.ofBytes entry.path))
    .ofExcept (validateLinkName entry.linkName)
    let entriesSeen ← addU64 s.entriesSeen 1
    .require (entriesSeen ≤ limits.maxEntries.toNat) .entryLimit
    .perform .entry
    let expanded ← checkedAdd s.expanded entry.size.toNat
    .require (expanded ≤ limits.maxExpandedBytes.toNat) .sizeLimit
    if entry.isDir then
      unpackIn.run entry
      return { s with entriesSeen, expanded }
    else
      let files ← addU64 s.files 1
      .require (files ≤ limits.maxFiles.toNat) .fileLimit
      unpackIn.run entry
      return { entriesSeen, expanded, files }

def extractTarEntries (unpackIn : UnpackIn) (limits : ArchiveLimits) :
    TarState → List (Option TarEntry) → Extract Unit
  | _, [] => return ()
  | s, entry :: entries => do
    let s ← extractTarEntry unpackIn limits s entry
    extractTarEntries unpackIn limits s entries

def extractTar (unpackIn : UnpackIn) (limits : ArchiveLimits) (archive : TarArchive) :
    Extract Unit :=
  extractTarEntries unpackIn limits .empty archive.entries

/-! ### Other files -/

/-- A file that is no archive: its name, its size by `metadata`, and what each read of it returns. -/
structure RawFile where
  fileName : Option Bytes
  size : UInt64
  chunks : List Bytes

/-- The last part of `extract_archive_blocking`. -/
def extractRaw (limits : ArchiveLimits) (file : RawFile) : Extract Unit := do
  .require (file.fileName ≠ none) .unsupported
  .require (file.size ≤ limits.maxExpandedBytes) .sizeLimit
  match file.fileName.bind Str.ofBytes with
  | none => .stop .nameNotUtf8
  | some name =>
    .require (Crates.validateArchiveComponent name) (.unsafeName name)
    .perform .entry
    .perform (.createFile [name])
    let _ ← copyWithLimit (.perform ∘ .write) limits.maxExpandedBytes.toNat 0 file.chunks
    return ()

/-- An archive, by what its name ends with. -/
inductive Archive
  | zip (archive : ZipArchive)
  | tar (archive : TarArchive)
  | raw (file : RawFile)

/-- `extract_archive_blocking`. -/
def extractArchive (unpackIn : UnpackIn) (limits : ArchiveLimits) : Archive → Extract Unit
  | .zip archive => extractZip limits archive
  | .tar archive => extractTar unpackIn limits archive
  | .raw file => extractRaw limits file

end AcpAgent.Installer
