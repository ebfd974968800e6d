import AcpAgent.Installer.Inventory
import AcpAgent.Installer.Paths

/-! The removal of an agent's entries, `remove_cached_entries` of `installer/cache.rs`, and what it
leaves of the cache.  Nothing else changes the cache meanwhile; of the calls to the file system, the
opening of a lock file fails if something else is there.  Links are not followed: `read_dir` and
`read` would follow one that takes the place of a directory or of the metadata, so this is about
caches that have no links there. -/

namespace AcpAgent.Installer

inductive BusyEntry
  | wait
  | skip
  deriving DecidableEq

inductive RemovalError
  | lock
  | useLock
  | removeDir (cacheDir : List Bytes)
  deriving DecidableEq

/-- The texts; `error` is that of the file system, which is the source of the last one. -/
def RemovalError.text (display : List Bytes → Str) (error : Str) : RemovalError → Str
  | .lock => str "failed to acquire cache lock: " ++ error
  | .useLock => str "failed to acquire cache use lock: " ++ error
  | .removeDir cacheDir => str "failed to remove cache directory " ++ display cacheDir

/-- Opens a lock file, which is created if nothing is there. -/
def openLock (root : Node) (path : List Bytes) : Option Node :=
  match root.look path with
  | none => if root.look path.dropLast = some .dir then some (root.addFile path) else none
  | some (.file _) => some root
  | some _ => none

/-- `binary_cache_lock_path` and `binary_cache_use_lock_path`, of what was found on disk. -/
def lockPathIn (sha256 : Bytes → Digest) (suffix : Str) (cacheDir : List Bytes) : List Bytes :=
  let name := (cacheDir.getLast?.bind Str.ofBytes).getD (str "cache")
  cacheDir.dropLast ++ [(safePathComponent sha256 name ++ suffix).bytes]

def cacheLockPath (sha256 : Bytes → Digest) : List Bytes → List Bytes :=
  lockPathIn sha256 (str "-cache.lock")

def cacheUseLockPath (sha256 : Bytes → Digest) : List Bytes → List Bytes :=
  lockPathIn sha256 (str "-cache.use.lock")

/-- They are the lock files that an installation takes. -/
theorem lockPaths_bytes (sha256 : Bytes → Digest) (root : Path) {names : Path} (h : names ≠ []) :
    (binaryCacheLockPath sha256 (.ofCacheDir root (root ++ names))).map Str.bytes =
        root.map Str.bytes ++ cacheLockPath sha256 (names.map Str.bytes) ∧
      (binaryCacheUseLockPath sha256 (.ofCacheDir root (root ++ names))).map Str.bytes =
        root.map Str.bytes ++ cacheUseLockPath sha256 (names.map Str.bytes) := by
  obtain ⟨front, name, rfl⟩ := (List.eq_nil_or_concat names).resolve_left h
  rw [List.concat_eq_append]
  have named : fileName (root ++ (front ++ [name])) = name := by
    rw [fileName, ← List.append_assoc, List.getLast?_concat, Option.getD_some]
  have parent : (BinaryCachePaths.ofCacheDir root (root ++ (front ++ [name]))).parentDir =
      root ++ front := by
    rw [BinaryCachePaths.ofCacheDir, if_neg (by simp), ← List.append_assoc, List.dropLast_concat]
  constructor
  · rw [binaryCacheLockPath, parent, BinaryCachePaths.ofCacheDir, named]
    simp [cacheLockPath, lockPathIn]
  · rw [binaryCacheUseLockPath, parent, BinaryCachePaths.ofCacheDir, named]
    simp [cacheUseLockPath, lockPathIn]

def removeEmptyCacheParents (cacheDir : List Bytes) (root : Node) : Node :=
  ((root.removeDir cacheDir.dropLast).removeDir cacheDir.dropLast.dropLast).removeDir [agentsName]

section Removal

-- `free` tells whether a lock of an entry is free when it is tried.
variable (c : Crates) (invalid : Bytes → Str) (free : List Bytes → Hold → Bool)

/-- The entries below the directory of the agent that are not in the inventory. -/
def namespaceEntries (agentId : Str) (platform : Option Str) (known : List (List Bytes))
    (root : Node) : List CachedAgent :=
  let agent := (safePathComponent c.sha256 agentId).bytes
  (root.readDir [agentsName, agent]).flatMap fun platformName =>
    let platform' := toStringLossy invalid platformName
    if platform.any (· ≠ platform') then []
    else if root.look [agentsName, agent, platformName] ≠ some .dir then []
    else (root.readDir [agentsName, agent, platformName]).flatMap fun name =>
      let cacheDir := [agentsName, agent, platformName, name]
      if isHidden invalid name then []
      else if root.look cacheDir ≠ some .dir ∨ known.contains cacheDir then []
      else [{
        agentId
        agentVersion := toStringLossy invalid name
        platform := platform'
        cacheDir
        executablePath := none }]

/-- One pass of the loop: whether the entry was removed. -/
def removeEntry (busy : BusyEntry) (cacheDir : List Bytes) (root : Node) :
    Node × Except RemovalError Bool :=
  match openLock root (cacheLockPath c.sha256 cacheDir) with
  | none => (root, .error .lock)
  | some root =>
    if busy = .skip ∧ free cacheDir .publication = false then (root, .ok false)
    else match openLock root (cacheUseLockPath c.sha256 cacheDir) with
      | none => (root, .error .useLock)
      | some root =>
        if busy = .skip ∧ free cacheDir .useWrite = false then (root, .ok false)
        else match root.look cacheDir with
          | none => (root, .ok false)
          | some .dir => (removeEmptyCacheParents cacheDir (root.removeAt cacheDir), .ok true)
          | some _ => (root, .error (.removeDir cacheDir))

def removeEntries (busy : BusyEntry) : List CachedAgent → Node → Bool →
    Node × Except RemovalError Bool
  | [], root, removed => (root, .ok removed)
  | entry :: entries, root, removed =>
    match removeEntry c free busy entry.cacheDir root with
    | (root, .error error) => (root, .error error)
    | (root, .ok now) => removeEntries busy entries root (removed || now)

/-- The entries that the loop does not pass over. -/
def selectedEntries (agentId : Str) (platform : Option Str) (keep : Option (List Bytes))
    (root : Node) : List CachedAgent :=
  let entries := listCachedAgents c invalid root
  let known := entries.map CachedAgent.cacheDir
  let entries := entries ++ namespaceEntries c invalid agentId platform known root
  entries.filter fun entry =>
    !(entry.agentId ≠ agentId || platform.any (entry.platform ≠ ·) ||
      keep.any (entry.cacheDir = ·))

def removeCachedEntries (agentId : Str) (platform : Option Str) (keep : Option (List Bytes))
    (busy : BusyEntry) (root : Node) : Node × Except RemovalError Bool :=
  removeEntries c free busy (selectedEntries c invalid agentId platform keep root) root false

def removeCachedAgent (agentId : Str) (root : Node) : Node × Except RemovalError Bool :=
  removeCachedEntries c invalid free agentId none none .wait root

/-- A path to keep that is not below the root is the path of no entry. -/
def removeReplacedPlatformEntries (agentId : Str) (platform : Platform) (keep : List Bytes)
    (root : Node) : Node × Except RemovalError Bool :=
  removeCachedEntries c invalid free agentId (some (platformCacheKey platform)) (some keep) .skip
    root

end Removal

/-! ### What is left -/

/-- Nothing is left of the deleted directories, and of the rest everything, with new lock files. -/
structure Cleared (before after : Node) (deleted locks : List Bytes → Prop) : Prop where
  gone : ∀ dir path, deleted dir → dir <+: path → after.look path = none
  kept : ∀ path, (∀ dir, deleted dir → ¬dir <+: path) → after.look path = before.look path ∨
    locks path ∧ before.look path = none ∧ after.look path = some (.file [])

/-- Deleted directories and lock files are different things at one depth. -/
structure Apart (before : Node) (deleted locks : List Bytes → Prop) : Prop where
  dirs : ∀ dir, deleted dir → dir.length = 4 ∧ before.look dir = some .dir
  files : ∀ path, locks path → path.length = 4 ∧
    (before.look path = none ∨ ∃ content, before.look path = some (.file content))

section Loop

variable {before after : Node} {deleted locks : List Bytes → Prop}

theorem Cleared.refl (root : Node) : Cleared root root (fun _ => False) locks :=
  ⟨fun _ _ => False.elim, fun _ _ => .inl rfl⟩

theorem Apart.not_below (apart : Apart before deleted locks) {dir path : List Bytes}
    (hd : deleted dir) (hp : locks path) : ¬dir <+: path := by
  intro below
  obtain ⟨dirLength, isDir⟩ := apart.dirs dir hd
  obtain ⟨pathLength, file⟩ := apart.files path hp
  obtain rfl := below.eq_of_length (dirLength.trans pathLength.symm)
  rcases file with missing | ⟨content, file⟩
  · simp [isDir] at missing
  · simp [isDir] at file

/-- What is above the entries stays. -/
theorem Cleared.look_above (cleared : Cleared before after deleted locks)
    (apart : Apart before deleted locks) {path : List Bytes} (above : path.length < 4)
    (dir : before.look path = some .dir) : after.look path = some .dir := by
  have outside : ∀ dir, deleted dir → ¬dir <+: path := by
    intro other hd below
    have shorter := below.length_le
    rw [(apart.dirs other hd).1] at shorter
    omega
  rcases cleared.kept path outside with same | ⟨-, missing, -⟩
  · rw [same, dir]
  · simp [dir] at missing

theorem Apart.insert (apart : Apart before deleted locks) {cacheDir : List Bytes}
    (dir : before.look cacheDir = some .dir) (depth : cacheDir.length = 4) :
    Apart before (fun dir => deleted dir ∨ dir = cacheDir) locks := by
  refine ⟨fun other hd => ?_, apart.files⟩
  rcases hd with hd | rfl
  · exact apart.dirs other hd
  · exact ⟨depth, dir⟩

theorem Cleared.look_entry (cleared : Cleared before after deleted locks)
    (apart : Apart before deleted locks) {cacheDir : List Bytes}
    (dir : before.look cacheDir = some .dir) (depth : cacheDir.length = 4)
    (still : ¬deleted cacheDir) : after.look cacheDir = some .dir := by
  have outside : ∀ dir, deleted dir → ¬dir <+: cacheDir := by
    intro other hd below
    obtain rfl := below.eq_of_length ((apart.dirs other hd).1.trans depth.symm)
    exact still hd
  rcases cleared.kept _ outside with same | ⟨-, missing, -⟩
  · rw [same, dir]
  · simp [dir] at missing

theorem Cleared.openLock (cleared : Cleared before after deleted locks)
    (apart : Apart before deleted locks) {path : List Bytes} (lock : locks path)
    (parent : before.look path.dropLast = some .dir) :
    ∃ after', openLock after path = some after' ∧ Cleared before after' deleted locks ∧
      after'.look path ≠ none := by
  have nonempty : path ≠ [] := by
    rintro rfl
    simpa using (apart.files _ lock).1
  have parent' : after.look path.dropLast = some .dir :=
    cleared.look_above apart (by simp [(apart.files path lock).1]) parent
  have outside : ∀ dir, deleted dir → ¬dir <+: path := fun dir hd => apart.not_below hd lock
  cases there : after.look path with
  | none =>
    have created := Node.look_addFile nonempty parent' there
    refine ⟨after.addFile path, by simp [Installer.openLock, there, parent'],
      ⟨fun dir query hd below => ?_, fun query free => ?_⟩, by simp [created]⟩
    · have other : query ≠ path := by
        rintro rfl
        exact outside dir hd below
      rw [created, if_neg other, cleared.gone dir query hd below]
    · rw [created]
      split_ifs with same
      · subst same
        rcases cleared.kept query free with same | ⟨-, -, file⟩
        · exact .inr ⟨lock, same.symm.trans there, rfl⟩
        · simp [there] at file
      · exact cleared.kept query free
  | some shape =>
    have file : ∃ content, shape = .file content := by
      rcases cleared.kept path outside with same | ⟨-, -, file⟩
      · rcases (apart.files path lock).2 with missing | ⟨content, file⟩
        · rw [same, missing] at there
          simp at there
        · rw [same, file] at there
          exact ⟨content, (Option.some.inj there).symm⟩
      · rw [file] at there
        exact ⟨[], (Option.some.inj there).symm⟩
    obtain ⟨content, rfl⟩ := file
    exact ⟨after, by simp [Installer.openLock, there], cleared, by simp [there]⟩

/-- The directories above an entry are not empty: its lock files are in there. -/
theorem removeEmptyCacheParents_of_look {root : Node} {a p v name : Bytes}
    (h : root.look [agentsName, a, p, name] ≠ none) :
    removeEmptyCacheParents [agentsName, a, p, v] root = root := by
  have platform : root.look [agentsName, a, p] = some .dir :=
    Node.look_dir (List.cons_ne_nil name []) h
  have agent : root.look [agentsName, a] = some .dir :=
    Node.look_dir (List.cons_ne_nil p []) (ne_of_eq_of_ne platform (Option.some_ne_none _))
  have platformStays : root.removeDir [agentsName, a, p] = root := Node.removeDir_of_look h
  have agentStays : root.removeDir [agentsName, a] = root :=
    Node.removeDir_of_look (ne_of_eq_of_ne platform (Option.some_ne_none _))
  have agentsStay : root.removeDir [agentsName] = root :=
    Node.removeDir_of_look (ne_of_eq_of_ne agent (Option.some_ne_none _))
  unfold removeEmptyCacheParents
  simp only [List.dropLast, platformStays, agentStays, agentsStay]

theorem Cleared.removeAt (cleared : Cleared before after deleted locks) {cacheDir : List Bytes}
    (nonempty : cacheDir ≠ []) :
    Cleared before (after.removeAt cacheDir) (fun dir => deleted dir ∨ dir = cacheDir) locks := by
  refine ⟨fun dir path hd below => ?_, fun path free => ?_⟩
  · rw [Node.look_removeAt nonempty]
    split_ifs with inside
    · rfl
    · rcases hd with hd | rfl
      · exact cleared.gone dir path hd below
      · exact absurd below inside
  · rw [Node.look_removeAt nonempty, if_neg (free cacheDir (.inr rfl))]
    exact cleared.kept path fun dir hd => free dir (.inl hd)

/-- Both locks of an entry are taken. -/
def Acquired (free : List Bytes → Hold → Bool) (busy : BusyEntry) (cacheDir : List Bytes) : Prop :=
  busy = .skip → free cacheDir .publication = true ∧ free cacheDir .useWrite = true

/-- An entry with lock files that can be opened. -/
structure Removable (sha256 : Bytes → Digest) (before : Node) (locks : List Bytes → Prop)
    (cacheDir : List Bytes) : Prop where
  path : ∃ a p v, cacheDir = [agentsName, a, p, v]
  dir : before.look cacheDir = some .dir
  lock : locks (cacheLockPath sha256 cacheDir)
  useLock : locks (cacheUseLockPath sha256 cacheDir)

variable {c : Crates} (free : List Bytes → Hold → Bool) (busy : BusyEntry)

theorem removeEntry_cleared (cleared : Cleared before after deleted locks)
    (apart : Apart before deleted locks) {cacheDir : List Bytes}
    (removable : Removable c.sha256 before locks cacheDir) :
    ∃ after' now, removeEntry c free busy cacheDir after = (after', .ok now) ∧
      Cleared before after'
        (fun dir => deleted dir ∨ dir = cacheDir ∧ Acquired free busy cacheDir) locks ∧
      (now = true ↔ Acquired free busy cacheDir ∧ ¬deleted cacheDir) := by
  obtain ⟨⟨a, p, v, rfl⟩, dir, lock, useLock⟩ := removable
  have parent : before.look [agentsName, a, p] = some .dir :=
    Node.look_dir (List.cons_ne_nil v []) (ne_of_eq_of_ne dir (Option.some_ne_none _))
  have skipped : ∀ {after' : Node}, ¬Acquired free busy [agentsName, a, p, v] →
      Cleared before after' deleted locks →
      Cleared before after' (fun dir => deleted dir ∨ dir = [agentsName, a, p, v] ∧
        Acquired free busy [agentsName, a, p, v]) locks := by
    intro after' missed same
    simpa [missed] using same
  obtain ⟨opened, open_, cleared, -⟩ := cleared.openLock apart lock parent
  unfold removeEntry
  rw [open_]
  dsimp only
  by_cases busy_ : busy = .skip ∧ free [agentsName, a, p, v] .publication = false
  · have missed : ¬Acquired free busy [agentsName, a, p, v] := by
      intro acquired
      simp [(acquired busy_.1).1] at busy_
    rw [if_pos busy_]
    exact ⟨opened, false, rfl, skipped missed cleared, by simp [missed]⟩
  rw [if_neg busy_]
  obtain ⟨opened', open_', cleared, there⟩ := cleared.openLock apart useLock parent
  rw [open_']
  dsimp only
  by_cases used : busy = .skip ∧ free [agentsName, a, p, v] .useWrite = false
  · have missed : ¬Acquired free busy [agentsName, a, p, v] := by
      intro acquired
      simp [(acquired used.1).2] at used
    rw [if_pos used]
    exact ⟨opened', false, rfl, skipped missed cleared, by simp [missed]⟩
  rw [if_neg used]
  have acquired : Acquired free busy [agentsName, a, p, v] := by
    intro skip
    simpa [skip] using And.intro busy_ used
  by_cases known : deleted [agentsName, a, p, v]
  · have gone : opened'.look [agentsName, a, p, v] = none :=
      cleared.gone _ _ known (List.prefix_refl _)
    rw [gone]
    refine ⟨opened', false, rfl, ⟨fun dir path hd below => ?_, fun path free => ?_⟩,
      by simp [known]⟩
    · rcases hd with hd | ⟨rfl, -⟩
      · exact cleared.gone dir path hd below
      · exact cleared.gone _ path known below
    · exact cleared.kept path fun dir hd => free dir (.inl hd)
  · have present := cleared.look_entry apart dir rfl known
    have outside : ¬[agentsName, a, p, v] <+: cacheUseLockPath c.sha256 [agentsName, a, p, v] :=
      (apart.insert dir rfl).not_below (.inr rfl) useLock
    have kept : (opened'.removeAt [agentsName, a, p, v]).look
        (cacheUseLockPath c.sha256 [agentsName, a, p, v]) ≠ none := by
      rw [Node.look_removeAt (by simp), if_neg outside]
      exact there
    rw [present]
    dsimp only
    rw [removeEmptyCacheParents_of_look kept]
    refine ⟨_, true, rfl, ?_, by simp [acquired, known]⟩
    simpa [acquired] using cleared.removeAt (List.cons_ne_nil _ _)

theorem removeEntries_cleared {entries : List CachedAgent} {removed : Bool}
    (cleared : Cleared before after deleted locks) (apart : Apart before deleted locks)
    (some_ : removed = true ↔ ∃ dir, deleted dir)
    (removable : ∀ entry ∈ entries, Removable c.sha256 before locks entry.cacheDir) :
    ∃ after' removed', removeEntries c free busy entries after removed = (after', .ok removed') ∧
      Cleared before after' (fun dir => deleted dir ∨
        (∃ entry ∈ entries, entry.cacheDir = dir) ∧ Acquired free busy dir) locks ∧
      (removed' = true ↔ ∃ dir, deleted dir ∨
        (∃ entry ∈ entries, entry.cacheDir = dir) ∧ Acquired free busy dir) := by
  induction entries generalizing after deleted removed with
  | nil => exact ⟨after, removed, rfl, by simpa using cleared, by simpa using some_⟩
  | cons entry entries ih =>
    have here := removable entry List.mem_cons_self
    obtain ⟨after₁, now, step, cleared₁, now_⟩ :=
      removeEntry_cleared free busy cleared apart here
    obtain ⟨a, p, v, path⟩ := here.path
    have apart₁ : Apart before (fun dir => deleted dir ∨
        dir = entry.cacheDir ∧ Acquired free busy entry.cacheDir) locks :=
      ⟨fun dir hd => (apart.insert here.dir (by simp [path])).dirs dir (hd.imp_right And.left),
        apart.files⟩
    have some₁ : (removed || now) = true ↔ ∃ dir, deleted dir ∨
        dir = entry.cacheDir ∧ Acquired free busy entry.cacheDir := by
      rw [Bool.or_eq_true, some_, now_]
      constructor
      · rintro (⟨dir, hd⟩ | ⟨acquired, -⟩)
        · exact ⟨dir, .inl hd⟩
        · exact ⟨_, .inr ⟨rfl, acquired⟩⟩
      · rintro ⟨dir, hd | ⟨-, acquired⟩⟩
        · exact .inl ⟨dir, hd⟩
        · by_cases known : deleted entry.cacheDir
          · exact .inl ⟨_, known⟩
          · exact .inr ⟨acquired, known⟩
    have all : ∀ dir, (deleted dir ∨ dir = entry.cacheDir ∧ Acquired free busy entry.cacheDir) ∨
        (∃ e ∈ entries, e.cacheDir = dir) ∧ Acquired free busy dir ↔
          deleted dir ∨ (∃ e ∈ entry :: entries, e.cacheDir = dir) ∧ Acquired free busy dir := by
      intro dir
      have same : dir = entry.cacheDir ∧ Acquired free busy entry.cacheDir ↔
          entry.cacheDir = dir ∧ Acquired free busy dir := by
        constructor <;>
        · rintro ⟨rfl, acquired⟩
          exact ⟨rfl, acquired⟩
      rw [same, List.exists_mem_cons_iff, or_and_right, or_assoc]
    obtain ⟨after', removed', rest, result⟩ := ih cleared₁ apart₁ some₁ fun e he =>
      removable e (List.mem_cons_of_mem _ he)
    simp only [all] at result
    refine ⟨after', removed', ?_, result⟩
    rw [removeEntries, step]
    exact rest

end Loop

/-! ### What is removed -/

section Selection

variable (c : Crates) (invalid : Bytes → Str) (root : Node)

/-- The metadata names the agent or, without metadata, the directory that the entry is in does. -/
def NamesAgent (agentId : Str) (cacheDir : List Bytes) : Prop :=
  match readMetadata c root cacheDir with
  | some metadata => metadata.agentId = agentId
  | none => ∃ p v, cacheDir = [agentsName, (safePathComponent c.sha256 agentId).bytes, p, v]

def OnPlatform (platform : Str) (cacheDir : List Bytes) : Prop :=
  match readMetadata c root cacheDir with
  | some metadata => metadata.platform = platform
  | none => ∃ a p v, cacheDir = [agentsName, a, p, v] ∧ toStringLossy invalid p = platform

/-- A version directory that belongs to the agent. -/
structure EntryOf (agentId : Str) (cacheDir : List Bytes) : Prop where
  path : ∃ a p v, cacheDir = [agentsName, a, p, v] ∧ isHidden invalid v = false
  dir : root.look cacheDir = some .dir
  names : NamesAgent c root agentId cacheDir

/-- Each lock path of an entry has a file or nothing, so that opening it does not fail. -/
def LocksOpen (cacheDir : List Bytes) : Prop :=
  ∀ path ∈ [cacheLockPath c.sha256 cacheDir, cacheUseLockPath c.sha256 cacheDir],
    root.look path = none ∨ ∃ content, root.look path = some (.file content)

/-- A lock file of an entry of the agent. -/
def LockFile (agentId : Str) (path : List Bytes) : Prop :=
  ∃ cacheDir, EntryOf c invalid root agentId cacheDir ∧
    path ∈ [cacheLockPath c.sha256 cacheDir, cacheUseLockPath c.sha256 cacheDir]

variable {c invalid root} {agentId : Str} {platform : Option Str}

theorem mem_namespaceEntries {known : List (List Bytes)} {entry : CachedAgent} :
    entry ∈ namespaceEntries c invalid agentId platform known root ↔
      ∃ p v, (∀ expected, platform = some expected → expected = toStringLossy invalid p) ∧
        isHidden invalid v = false ∧
        root.look [agentsName, (safePathComponent c.sha256 agentId).bytes, p, v] = some .dir ∧
        [agentsName, (safePathComponent c.sha256 agentId).bytes, p, v] ∉ known ∧
        entry = ⟨agentId, toStringLossy invalid v, toStringLossy invalid p,
          [agentsName, (safePathComponent c.sha256 agentId).bytes, p, v], none⟩ := by
  simp only [namespaceEntries, List.mem_flatMap]
  constructor
  · rintro ⟨p, -, member⟩
    split_ifs at member with other notDir
    · simp at member
    · simp at member
    · obtain ⟨v, -, member⟩ := List.mem_flatMap.mp member
      split_ifs at member with hidden skipped
      · simp at member
      · simp at member
      · push Not at skipped
        refine ⟨p, v, ?_, by simpa using hidden, skipped.1, by simpa using skipped.2,
          by simpa using member⟩
        rintro expected rfl
        simpa using other
  · rintro ⟨p, v, same, hidden, dir, unknown, rfl⟩
    have there := ne_of_eq_of_ne dir (Option.some_ne_none _)
    have platformDir : root.look
        [agentsName, (safePathComponent c.sha256 agentId).bytes, p] = some .dir :=
      Node.look_dir (List.cons_ne_nil v []) there
    have inAgent : p ∈ root.readDir [agentsName, (safePathComponent c.sha256 agentId).bytes] :=
      Node.mem_readDir.mpr (ne_of_eq_of_ne platformDir (Option.some_ne_none _))
    have inPlatform : v ∈ root.readDir
        [agentsName, (safePathComponent c.sha256 agentId).bytes, p] :=
      Node.mem_readDir.mpr there
    refine ⟨p, inAgent, ?_⟩
    have wanted : ¬(platform.any (· ≠ toStringLossy invalid p)) = true := by
      cases platform with
      | none => simp
      | some expected => simpa using same expected rfl
    rw [if_neg wanted, if_neg (not_not.mpr platformDir), List.mem_flatMap]
    refine ⟨v, inPlatform, ?_⟩
    simp [hidden, dir, unknown]

/-- The inventory has the version directories with metadata. -/
theorem mem_known {cacheDir : List Bytes} :
    cacheDir ∈ (listCachedAgents c invalid root).map CachedAgent.cacheDir ↔
      ∃ a p v metadata, cacheDir = [agentsName, a, p, v] ∧ isHidden invalid v = false ∧
        readMetadata c root cacheDir = some metadata := by
  rw [List.mem_map]
  constructor
  · rintro ⟨entry, member, rfl⟩
    obtain ⟨a, p, v, hidden, read⟩ := mem_listCachedAgents.mp member
    obtain ⟨metadata, parsed, rfl⟩ := readCachedAgent_eq_some.mp read
    exact ⟨a, p, v, metadata, rfl, hidden, parsed⟩
  · rintro ⟨a, p, v, metadata, rfl, hidden, parsed⟩
    exact ⟨_, mem_listCachedAgents.mpr ⟨a, p, v, hidden,
      readCachedAgent_eq_some.mpr ⟨metadata, parsed, rfl⟩⟩, rfl⟩

theorem mem_selectedEntries {keep : Option (List Bytes)} {entry : CachedAgent} :
    entry ∈ selectedEntries c invalid agentId platform keep root ↔
      (entry ∈ listCachedAgents c invalid root ∨ entry ∈ namespaceEntries c invalid agentId platform
        ((listCachedAgents c invalid root).map CachedAgent.cacheDir) root) ∧
      entry.agentId = agentId ∧ (∀ expected, platform = some expected → entry.platform = expected) ∧
      keep ≠ some entry.cacheDir := by
  rw [selectedEntries, List.mem_filter, List.mem_append]
  refine and_congr_right fun _ => ?_
  cases platform <;> cases keep <;> simp [@eq_comm _ _ entry.cacheDir, and_assoc]

/-- The two scans together find the entries of the agent, each with its own platform. -/
theorem selectedEntries_iff {keep : Option (List Bytes)} {cacheDir : List Bytes} :
    (∃ entry ∈ selectedEntries c invalid agentId platform keep root, entry.cacheDir = cacheDir) ↔
      EntryOf c invalid root agentId cacheDir ∧
        (∀ expected, platform = some expected → OnPlatform c invalid root expected cacheDir) ∧
        keep ≠ some cacheDir := by
  constructor
  · rintro ⟨entry, member, rfl⟩
    obtain ⟨scanned, named, onPlatform, kept⟩ := mem_selectedEntries.mp member
    rcases scanned with listed | found
    · obtain ⟨a, p, v, hidden, read⟩ := mem_listCachedAgents.mp listed
      obtain ⟨metadata, parsed, rfl⟩ := readCachedAgent_eq_some.mp read
      refine ⟨⟨⟨a, p, v, rfl, hidden⟩, look_of_readMetadata parsed, ?_⟩, ?_, kept⟩
      · simpa [NamesAgent, parsed] using named
      · intro expected same
        simpa [OnPlatform, parsed] using onPlatform expected same
    · obtain ⟨p, v, same, hidden, dir, unknown, rfl⟩ := mem_namespaceEntries.mp found
      have unparsed : readMetadata c root
          [agentsName, (safePathComponent c.sha256 agentId).bytes, p, v] = none := by
        rw [Option.eq_none_iff_forall_ne_some]
        intro metadata parsed
        exact unknown (mem_known.mpr ⟨_, p, v, metadata, rfl, hidden, parsed⟩)
      refine ⟨⟨⟨_, p, v, rfl, hidden⟩, dir, ?_⟩, ?_, kept⟩
      · simp [NamesAgent, unparsed]
      · intro expected wanted
        simp [OnPlatform, unparsed, same expected wanted]
  · rintro ⟨⟨⟨a, p, v, rfl, hidden⟩, dir, names⟩, onPlatform, kept⟩
    cases parsed : readMetadata c root [agentsName, a, p, v] with
    | some metadata =>
      have listed := mem_listCachedAgents.mpr
        ⟨a, p, v, hidden, readCachedAgent_eq_some.mpr ⟨metadata, parsed, rfl⟩⟩
      simp only [NamesAgent, OnPlatform, parsed] at names onPlatform
      exact ⟨_, mem_selectedEntries.mpr ⟨.inl listed, names, onPlatform, kept⟩, rfl⟩
    | none =>
      simp only [NamesAgent, OnPlatform, parsed] at names onPlatform
      obtain ⟨p', v', same⟩ := names
      simp only [List.cons.injEq, and_true, true_and] at same
      obtain ⟨rfl, rfl, rfl⟩ := same
      have lossy : ∀ expected, platform = some expected → expected = toStringLossy invalid p := by
        intro expected wanted
        obtain ⟨a', p', v', same, named⟩ := onPlatform expected wanted
        simp only [List.cons.injEq, and_true, true_and] at same
        rw [← named, same.2.1]
      have unknown : [agentsName, (safePathComponent c.sha256 agentId).bytes, p, v] ∉
          (listCachedAgents c invalid root).map CachedAgent.cacheDir := by
        intro known
        obtain ⟨_, _, _, metadata, -, -, parsed'⟩ := mem_known.mp known
        simp [parsed] at parsed'
      have found := mem_namespaceEntries.mpr ⟨p, v, lossy, hidden, dir, unknown, rfl⟩
      exact ⟨_, mem_selectedEntries.mpr ⟨.inr found, rfl, fun e he => (lossy e he).symm, kept⟩, rfl⟩

/-- What the loop leaves of the cache if no lock file fails to open. -/
theorem removeCachedEntries_cleared (free : List Bytes → Hold → Bool) (busy : BusyEntry)
    (platform : Option Str) (keep : Option (List Bytes))
    (opens : ∀ cacheDir, EntryOf c invalid root agentId cacheDir → LocksOpen c root cacheDir) :
    ∃ after removed,
      removeCachedEntries c invalid free agentId platform keep busy root = (after, .ok removed) ∧
      Cleared root after (fun cacheDir => (EntryOf c invalid root agentId cacheDir ∧
        (∀ expected, platform = some expected → OnPlatform c invalid root expected cacheDir) ∧
        keep ≠ some cacheDir) ∧ Acquired free busy cacheDir)
        (LockFile c invalid root agentId) ∧
      (removed = true ↔ ∃ cacheDir, (EntryOf c invalid root agentId cacheDir ∧
        (∀ expected, platform = some expected → OnPlatform c invalid root expected cacheDir) ∧
        keep ≠ some cacheDir) ∧ Acquired free busy cacheDir) := by
  have apart : Apart root (fun _ => False) (LockFile c invalid root agentId) := by
    refine ⟨fun _ => False.elim, fun path lock => ?_⟩
    obtain ⟨cacheDir, entry, member⟩ := lock
    refine ⟨?_, opens cacheDir entry path member⟩
    obtain ⟨a, p, v, rfl, -⟩ := entry.path
    simp only [List.mem_cons, List.not_mem_nil, or_false] at member
    rcases member with rfl | rfl <;> rfl
  have removable : ∀ entry ∈ selectedEntries c invalid agentId platform keep root,
      Removable c.sha256 root (LockFile c invalid root agentId) entry.cacheDir := by
    intro entry member
    obtain ⟨owned, -⟩ := selectedEntries_iff.mp ⟨entry, member, rfl⟩
    obtain ⟨a, p, v, path, -⟩ := owned.path
    exact ⟨⟨a, p, v, path⟩, owned.dir, ⟨_, owned, List.mem_cons_self⟩,
      ⟨_, owned, List.mem_cons_of_mem _ List.mem_cons_self⟩⟩
  have none_yet : false = true ↔ ∃ _ : List Bytes, False := by simp
  obtain ⟨after, removed, run, result⟩ :=
    removeEntries_cleared free busy (Cleared.refl root) apart none_yet removable
  simp only [selectedEntries_iff, false_or] at result
  exact ⟨after, removed, run, result⟩

variable (c invalid root agentId) in
/-- `remove_cached_agent` deletes the entries of the agent, `remove_replaced_platform_entries` those
of one platform but the one to keep, as far as both locks are free; nothing else is changed. -/
theorem removal_exact (free : List Bytes → Hold → Bool) (target : Platform) (keep : List Bytes)
    (opens : ∀ cacheDir, EntryOf c invalid root agentId cacheDir → LocksOpen c root cacheDir) :
    (∃ after removed, removeCachedAgent c invalid free agentId root = (after, .ok removed) ∧
      Cleared root after (EntryOf c invalid root agentId) (LockFile c invalid root agentId) ∧
      (removed = true ↔ ∃ cacheDir, EntryOf c invalid root agentId cacheDir)) ∧
    ∃ after removed, removeReplacedPlatformEntries c invalid free agentId target keep root =
        (after, .ok removed) ∧
      Cleared root after (fun cacheDir => EntryOf c invalid root agentId cacheDir ∧
        OnPlatform c invalid root (platformCacheKey target) cacheDir ∧ cacheDir ≠ keep ∧
        free cacheDir .publication = true ∧ free cacheDir .useWrite = true)
        (LockFile c invalid root agentId) ∧
      (removed = true ↔ ∃ cacheDir, EntryOf c invalid root agentId cacheDir ∧
        OnPlatform c invalid root (platformCacheKey target) cacheDir ∧ cacheDir ≠ keep ∧
        free cacheDir .publication = true ∧ free cacheDir .useWrite = true) := by
  constructor
  · obtain ⟨after, removed, run, result⟩ :=
      removeCachedEntries_cleared free .wait none none opens
    refine ⟨after, removed, run, ?_⟩
    simpa [Acquired] using result
  · obtain ⟨after, removed, run, result⟩ := removeCachedEntries_cleared free .skip
      (some (platformCacheKey target)) (some keep) opens
    refine ⟨after, removed, run, ?_⟩
    simpa [Acquired, and_assoc, @eq_comm _ keep] using result

end Selection

namespace Sample

/-- A cache that has nothing but the sample entry. -/
def root : Node := entry.nest (job.cacheDir crates)

abbrev Owned : List Bytes → Prop := EntryOf crates (fun _ => []) root job.agentId

/-- A lock file's name is longer than that of its entry. -/
theorem lockPathIn_ne {suffix : Str} (nonempty : suffix ≠ []) :
    lockPathIn crates.sha256 suffix (job.cacheDir crates) ≠ job.cacheDir crates := by
  intro same
  simp only [lockPathIn, Job.cacheDir, List.dropLast, List.getLast?, List.getLast,
    Option.bind_some, Str.ofBytes_bytes, Option.getD_some, List.cons_append, List.nil_append,
    List.cons.injEq, true_and, and_true] at same
  rw [safePathComponent_of_plain (plain_key crates job)] at same
  have longer := congrArg List.length same
  rw [Str.length_bytes, Str.length_bytes, Str.len_append] at longer
  exact nonempty (Str.len_eq_zero.mp (by omega))

theorem locksOpen {cacheDir : List Bytes} (owned : Owned cacheDir) :
    LocksOpen crates root cacheDir := by
  obtain ⟨⟨a, p, v, rfl, -⟩, dir, -⟩ := owned
  have here : [agentsName, a, p, v] = job.cacheDir crates := by
    by_contra other
    simp [root, Node.look_nest_of_ne _ _ other rfl] at dir
  rw [here]
  have depth (suffix : Str) : (lockPathIn crates.sha256 suffix (job.cacheDir crates)).length =
      (job.cacheDir crates).length := by simp [lockPathIn, Job.cacheDir]
  intro path member
  simp only [List.mem_cons, List.not_mem_nil, or_false] at member
  rcases member with rfl | rfl
  · exact .inl (Node.look_nest_of_ne _ _ (lockPathIn_ne (List.cons_ne_nil _ _)) (depth _))
  · exact .inl (Node.look_nest_of_ne _ _ (lockPathIn_ne (List.cons_ne_nil _ _)) (depth _))

/-- The agents' components, and those of the entries below them. -/
def demoPath : List Bytes := [(str "demo").bytes, (str "linux-x86_64").bytes, (job.key crates).bytes]

def crowPath : List Bytes := [(str "crow").bytes, (str "linux-x86_64").bytes, (str "0.9").bytes]

/-- A cache that also has an entry of another agent, without metadata. -/
def shared : Node :=
  .dir [(agentsName, .dir [((str "demo").bytes, entry.nest demoPath.tail),
    ((str "crow").bytes, (Node.dir []).nest crowPath.tail)])]

theorem cacheDir_demo : job.cacheDir crates = agentsName :: demoPath := rfl

theorem demo_ne_crow : (str "demo").bytes ≠ (str "crow").bytes := by decide

theorem look_demo (path : List Bytes) :
    shared.look (agentsName :: demoPath ++ path) = entry.look path := by
  have below : (entry.nest demoPath.tail).look (demoPath.tail ++ path) = entry.look path := by
    rw [Node.look_append, Node.at_nest, Option.bind_some]
  rw [← below]
  simp [shared, demoPath, Node.look_cons, Node.child]

theorem look_crow (path : List Bytes) :
    shared.look (agentsName :: crowPath ++ path) = (Node.dir []).look path := by
  have below : ((Node.dir []).nest crowPath.tail).look (crowPath.tail ++ path) =
      (Node.dir []).look path := by
    rw [Node.look_append, Node.at_nest, Option.bind_some]
  rw [← below]
  simp [shared, crowPath, Node.look_cons, Node.child, demo_ne_crow]

/-- At that depth, there is nothing else. -/
theorem look_shared {a p v : Bytes} (demo : [a, p, v] ≠ demoPath) (crow : [a, p, v] ≠ crowPath) :
    shared.look [agentsName, a, p, v] = none := by
  by_cases ha : (str "demo").bytes = a
  · subst ha
    have below : (entry.nest demoPath.tail).look [p, v] = none :=
      Node.look_nest_of_ne _ _ (fun same => demo (by rw [same]; rfl)) rfl
    rw [← below]
    simp [shared, Node.look_cons, Node.child]
  · by_cases hc : (str "crow").bytes = a
    · subst hc
      have below : ((Node.dir []).nest crowPath.tail).look [p, v] = none :=
        Node.look_nest_of_ne _ _ (fun same => crow (by rw [same]; rfl)) rfl
      rw [← below]
      simp [shared, Node.look_cons, Node.child, demo_ne_crow]
    · simp [shared, Node.look_cons, Node.child, ha, hc]

theorem owned_demo : EntryOf crates (fun _ => []) shared job.agentId (job.cacheDir crates) := by
  have read : readMetadata crates shared (job.cacheDir crates) = some metadata := by
    rw [readMetadata, cacheDir_demo, look_demo, entry, Node.look_cons, child_stagedEntry_metadata]
    exact fromSlice_json
  refine ⟨⟨_, _, _, rfl, not_isHidden_key⟩, look_of_readMetadata read, ?_⟩
  rw [NamesAgent, read]
  rfl

theorem not_owned_crow :
    ¬EntryOf crates (fun _ => []) shared job.agentId (agentsName :: crowPath) := by
  rintro ⟨-, -, names⟩
  have unread : readMetadata crates shared (agentsName :: crowPath) = none := by
    rw [readMetadata, look_crow]
    rfl
  rw [NamesAgent, unread] at names
  obtain ⟨p, v, same⟩ := names
  exact absurd (List.cons.inj (List.cons.inj same).2).1 (by decide +kernel)

/-- Next to the entry, there is no lock file yet. -/
theorem look_lockPath {suffix : Str} (nonempty : suffix ≠ []) :
    shared.look (lockPathIn crates.sha256 suffix (job.cacheDir crates)) = none := by
  have other := lockPathIn_ne nonempty
  refine look_shared (fun same => other ?_) fun same => demo_ne_crow (List.cons.inj same).1
  exact congrArg (List.cons agentsName) same

theorem locksOpen_shared {cacheDir : List Bytes}
    (owned : EntryOf crates (fun _ => []) shared job.agentId cacheDir) :
    LocksOpen crates shared cacheDir := by
  obtain ⟨⟨a, p, v, rfl, -⟩, dir, -⟩ := id owned
  have here : [a, p, v] = demoPath := by
    by_contra other
    have crow : [a, p, v] ≠ crowPath := fun same => not_owned_crow (same ▸ owned)
    simp [look_shared other crow] at dir
  rw [here, ← cacheDir_demo]
  intro path member
  simp only [List.mem_cons, List.not_mem_nil, or_false] at member
  rcases member with rfl | rfl
  · exact .inl (look_lockPath (List.cons_ne_nil _ _))
  · exact .inl (look_lockPath (List.cons_ne_nil _ _))

end Sample

/-- The entry of the other agent stays. -/
theorem removal_exact_sample : ∃ after,
    removeCachedAgent Sample.crates (fun _ => []) (fun _ _ => true) Sample.job.agentId
        Sample.shared = (after, .ok true) ∧
      after.look (Sample.job.cacheDir Sample.crates) = none ∧
      after.look (agentsName :: Sample.crowPath) = some .dir := by
  obtain ⟨after, removed, run, ⟨gone, kept⟩, done⟩ :=
    (removal_exact _ _ _ _ (fun _ _ => true) .linuxX86_64 [] fun _ => Sample.locksOpen_shared).1
  obtain rfl : removed = true := done.mpr ⟨_, Sample.owned_demo⟩
  have there : Sample.shared.look (agentsName :: Sample.crowPath) = some .dir :=
    Sample.look_crow []
  have outside : ∀ dir, EntryOf Sample.crates (fun _ => []) Sample.shared Sample.job.agentId dir →
      ¬dir <+: agentsName :: Sample.crowPath := by
    intro dir owned below
    obtain ⟨⟨a, p, v, rfl, -⟩, -, -⟩ := id owned
    exact Sample.not_owned_crow (below.eq_of_length rfl ▸ owned)
  refine ⟨after, run, gone _ _ Sample.owned_demo List.prefix_rfl, ?_⟩
  rcases kept _ outside with same | ⟨-, missing, -⟩
  · rw [same, there]
  · simp [there] at missing

end AcpAgent.Installer
