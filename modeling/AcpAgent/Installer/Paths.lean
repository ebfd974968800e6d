import AcpAgent.Installer.Names
import AcpAgent.Installer.Validation

/-! Where the binary cache keeps an agent: `binary_cache_paths` of `installer/cache.rs`, the lock
files beside an entry, and the same paths as `remove_cached_entries` and the startup sweep get them
from what they find on disk. -/

namespace AcpAgent.Installer

/-- An absolute path, as its components. -/
abbrev Path := List Str

structure BinaryCachePaths where
  rootDir : Path
  parentDir : Path
  cacheDir : Path
  extractedDir : Path
  metadataPath : Path
  deriving DecidableEq

/-- `file_name`, or the name that stands in for it. -/
def fileName (path : Path) : Str := path.getLast?.getD (str "cache")

/-- The paths of the entry in a directory, as `remove_cached_entries` and the sweep write them. -/
def BinaryCachePaths.ofCacheDir (rootDir cacheDir : Path) : BinaryCachePaths where
  rootDir := rootDir
  parentDir := if cacheDir = [] then rootDir else cacheDir.dropLast
  cacheDir := cacheDir
  extractedDir := cacheDir ++ [str "extracted"]
  metadataPath := cacheDir ++ [str "metadata.json"]

section Paths

variable (sha256 : Bytes → Digest)

def binaryCachePaths (rootDir : Path) (agentId agentVersion : Str) (platform : Platform) :
    BinaryCachePaths :=
  let parentDir := rootDir ++ [str "agents"] ++ [safePathComponent sha256 agentId] ++
    [platformCacheKey platform]
  let cacheDir := parentDir ++ [safePathComponent sha256 agentVersion]
  { rootDir
    parentDir
    extractedDir := cacheDir ++ [str "extracted"]
    metadataPath := cacheDir ++ [str "metadata.json"]
    cacheDir }

def binaryCachePathsWithDigest (rootDir : Path) (agentId agentVersion : Str) (platform : Platform)
    (digest : Str) : BinaryCachePaths :=
  binaryCachePaths sha256 rootDir agentId (agentVersion ++ str "-sha256-" ++ digest.lower) platform

def binaryCacheLockPath (paths : BinaryCachePaths) : Path :=
  paths.parentDir ++ [safePathComponent sha256 (fileName paths.cacheDir) ++ str "-cache.lock"]

def binaryCacheUseLockPath (paths : BinaryCachePaths) : Path :=
  paths.parentDir ++ [safePathComponent sha256 (fileName paths.cacheDir) ++ str "-cache.use.lock"]

/-- The paths for which the sweep takes the lock before it touches this work directory. -/
def sweepPaths (rootDir platformDir : Path) (name : Str) : Option BinaryCachePaths :=
  (workDirCacheKey name).map fun key => .ofCacheDir rootDir (platformDir ++ [key])

end Paths

/-! ### Agent directories -/

section Agents

variable {sha256 : Bytes → Digest}

theorem safePathComponent_of_not_plain {s : Str} (h : ¬Plain s) :
    safePathComponent sha256 s = trimmed s ++ '-' :: stablePathDigest sha256 s := by
  unfold safePathComponent
  split_ifs with lossy
  · rfl
  · push Not at lossy
    rw [← lossy.2.2] at h
    exact absurd (plain_trimmed s) h

variable (sha256) in
/-- A clean string that is spelled like the component of a lossy one. -/
def Mimics (clean lossy : Str) : Prop :=
  ¬Plain lossy ∧ clean = trimmed lossy ++ '-' :: stablePathDigest sha256 lossy

theorem not_mimics_of_separate {a b : Str}
    (h : safePathComponent sha256 a = safePathComponent sha256 b → a = b) :
    ¬Mimics sha256 b a := by
  rintro ⟨lossy, spelled⟩
  rw [← safePathComponent_of_not_plain lossy] at spelled
  have same : a = b := h (by rw [spelled, safePathComponent_safePathComponent])
  rw [same, spelled] at lossy
  exact lossy (plain_safePathComponent a)

/-- Strings whose digests differ share a component exactly if one of them mimics the other's. -/
theorem separate_iff {a b : Str}
    (h : stablePathDigest sha256 a = stablePathDigest sha256 b → a = b) :
    (safePathComponent sha256 a = safePathComponent sha256 b → a = b) ↔
      ¬Mimics sha256 a b ∧ ¬Mimics sha256 b a := by
  constructor
  · intro separate
    refine ⟨not_mimics_of_separate fun same => ?_, not_mimics_of_separate separate⟩
    exact (separate same.symm).symm
  · rintro ⟨ab, ba⟩ same
    by_cases ha : Plain a <;> by_cases hb : Plain b
    · rwa [safePathComponent_of_plain ha, safePathComponent_of_plain hb] at same
    · rw [safePathComponent_of_plain ha, safePathComponent_of_not_plain hb] at same
      exact absurd ⟨hb, same⟩ ab
    · rw [safePathComponent_of_not_plain ha, safePathComponent_of_plain hb] at same
      exact absurd ⟨ha, same.symm⟩ ba
    · rw [safePathComponent_of_not_plain ha, safePathComponent_of_not_plain hb] at same
      have rest := (List.append_inj' same (by simp [length_stablePathDigest])).2
      exact h (List.cons.inj rest).2

/-- The directory of an agent, below which the cache has one directory for each platform. -/
def BinaryCachePaths.agentDir (paths : BinaryCachePaths) : Path := paths.parentDir.dropLast

theorem agentDir_binaryCachePaths (rootDir : Path) (agentId agentVersion : Str)
    (platform : Platform) :
    (binaryCachePaths sha256 rootDir agentId agentVersion platform).agentDir =
      rootDir ++ [str "agents"] ++ [safePathComponent sha256 agentId] := by
  rw [BinaryCachePaths.agentDir, binaryCachePaths, List.dropLast_concat]

/-- Two ids whose digests differ get directories of their own exactly if neither of them is spelled
like the component that the other one, being lossy, is given. -/
theorem agents_separate_iff (rootDir : Path) (a b version version' : Str)
    (platform platform' : Platform)
    (h : stablePathDigest sha256 a = stablePathDigest sha256 b → a = b) :
    ((safePathComponent sha256 a = safePathComponent sha256 b → a = b) ↔
      ¬Mimics sha256 a b ∧ ¬Mimics sha256 b a) ∧
    (((binaryCachePaths sha256 rootDir a version platform).agentDir =
        (binaryCachePaths sha256 rootDir b version' platform').agentDir → a = b) ↔
      ¬Mimics sha256 a b ∧ ¬Mimics sha256 b a) := by
  refine ⟨separate_iff h, ?_⟩
  rw [agentDir_binaryCachePaths, agentDir_binaryCachePaths, List.append_cancel_left_eq,
    List.cons.injEq, and_iff_left rfl]
  exact separate_iff h

end Agents

namespace Ids

def lossy : Str := str "demo/agent"

/-- The digest of `lossy`. -/
def digest : Str := str "0b26afc5211b59a0b24d20a60de602f5fbef9bbc64e5ef08fa65d4885187cb79"

/-- What `safe_path_component` makes of `lossy`. -/
def mimic : Str := str "demo_agent-0b26afc5211b"

def other : Str := str "demo:agent"

/-- SHA-256 of these ids. -/
def sha256 (bytes : Bytes) : Digest :=
  if bytes = lossy.bytes then
    ⟨hexDecode digest, by decide⟩
  else if bytes = mimic.bytes then
    ⟨hexDecode (str "d821fa3088a85fa9a14ce94d73a78fdda4ef2a205a1c0129c0af3992417be1e5"), by decide⟩
  else
    ⟨hexDecode (str "abaf6dc633f830408d083eabeaf2b480fb4b0dd5c795826233fdeb068d9d3e77"), by decide⟩

end Ids

theorem agents_separate_iff_other :
    ((safePathComponent Ids.sha256 Ids.lossy = safePathComponent Ids.sha256 Ids.other →
        Ids.lossy = Ids.other) ↔
      ¬Mimics Ids.sha256 Ids.lossy Ids.other ∧ ¬Mimics Ids.sha256 Ids.other Ids.lossy) ∧
    (((binaryCachePaths Ids.sha256 [] Ids.lossy (str "1.0.0") .linuxX86_64).agentDir =
        (binaryCachePaths Ids.sha256 [] Ids.other (str "1.0.0") .linuxX86_64).agentDir →
        Ids.lossy = Ids.other) ↔
      ¬Mimics Ids.sha256 Ids.lossy Ids.other ∧ ¬Mimics Ids.sha256 Ids.other Ids.lossy) :=
  agents_separate_iff [] Ids.lossy Ids.other (str "1.0.0") (str "1.0.0") .linuxX86_64 .linuxX86_64
    (by decide +kernel)

/-- The id `demo_agent-0b26afc5211b` and the id `demo/agent` share one directory. -/
theorem mimic_shares_component :
    ¬∀ a b : Str, (stablePathDigest Ids.sha256 a = stablePathDigest Ids.sha256 b → a = b) →
      safePathComponent Ids.sha256 a = safePathComponent Ids.sha256 b → a = b := by
  intro separate
  have same := separate Ids.lossy Ids.mimic (by decide +kernel) (by decide +kernel)
  exact absurd same (by decide +kernel)

/-! ### The files of an entry -/

/-- What the cache puts into a platform directory for one key. -/
inductive CacheFile
  | entry
  | lock
  | useLock
  /-- The directory that `tempfile` makes, with the characters it adds. -/
  | staging (random : { s : Str // s.all Char.isAlphanum = true })
  | backup (pid nanos : ℕ)
  deriving DecidableEq

namespace CacheFile

def isWorkDir : CacheFile → Bool
  | .staging _ | .backup _ _ => true
  | .entry | .lock | .useLock => false

section Names

variable (sha256 : Bytes → Digest)

def path (paths : BinaryCachePaths) : CacheFile → Path
  | entry => paths.cacheDir
  | lock => binaryCacheLockPath sha256 paths
  | useLock => binaryCacheUseLockPath sha256 paths
  | staging random => paths.parentDir ++ [stagingName (fileName paths.cacheDir) random]
  | backup pid nanos => paths.parentDir ++ [backupName sha256 (fileName paths.cacheDir) pid nanos]

/-- The name beside an entry whose name is a cache key. -/
def name (key : Str) : CacheFile → Str
  | entry => key
  | lock => key ++ str "-cache.lock"
  | useLock => key ++ str "-cache.use.lock"
  | staging random => stagingName key random
  | backup pid nanos => backupName sha256 key pid nanos

end Names

end CacheFile

section Keys

variable {sha256 : Bytes → Digest} {rootDir : Path} {agentId agentId' version version' : Str}
  {platform platform' : Platform} {digest digest' : Str} {d d' : Digest}

theorem notMem_alphanum {s : Str} (h : s.all Char.isAlphanum = true) : '-' ∉ s := by
  intro member
  have := List.all_eq_true.mp h '-' member
  exact absurd this (by decide)

theorem numbers_inj {pid pid' nanos nanos' : ℕ}
    (h : Nat.toDigits 10 pid ++ '-' :: Nat.toDigits 10 nanos =
      Nat.toDigits 10 pid' ++ '-' :: Nat.toDigits 10 nanos') : pid = pid' ∧ nanos = nanos' := by
  have dash : ∀ n, '-' ∉ Nat.toDigits 10 n := fun n => Str.notMem_toDigits (by decide)
  obtain ⟨pids, -, rest⟩ := (List.append_cons_inj_of_notMem (dash pid) (dash nanos)).mp h
  exact ⟨Str.toDigits_inj.mp pids, Str.toDigits_inj.mp rest⟩

/-- The name of an entry. -/
structure Key (key : Str) : Prop where
  plain : Plain key
  last : ∃ front c, key = front ++ [c] ∧ c ∈ hexDigits

theorem key_cacheKey (version : Str) (h : parseSha256 digest = .ok d) :
    Key (cacheKey sha256 version digest) :=
  ⟨plain_safePathComponent _, cacheKey_last h⟩

theorem Key.last_ne {key : Str} (h : Key key) : key.getLast? ≠ some 'k' := by
  obtain ⟨front, c, rfl, hc⟩ := h.last
  rw [List.getLast?_concat]
  intro same
  rw [Option.some.inj same] at hc
  exact absurd hc (by decide)

namespace CacheFile

variable {key key' : Str} {file file' : CacheFile}

theorem workDirCacheKey_name (h : Key key) (work : file.isWorkDir = true) :
    workDirCacheKey (file.name sha256 key) = some key := by
  cases file with
  | staging random => exact workDirCacheKey_stagingName h.plain.nonempty (notMem_alphanum random.2)
  | backup pid nanos => exact workDirCacheKey_backupName h.plain pid nanos
  | entry | lock | useLock => simp [isWorkDir] at work

/-- Only the names of work directories begin with a dot. -/
theorem head_name (h : Key key) :
    (file.name sha256 key).head? = some '.' ↔ file.isWorkDir = true := by
  have first := h.plain.head
  rw [List.head?_eq_some_head h.plain.nonempty] at first
  have front : ∀ rest : Str, (key ++ rest).head? ≠ some '.' := by
    intro rest
    rwa [List.head?_append_of_ne_nil _ h.plain.nonempty, List.head?_eq_some_head h.plain.nonempty]
  cases file with
  | entry => simpa [name, isWorkDir] using h.plain.head
  | lock => simpa [name, isWorkDir] using front (str "-cache.lock")
  | useLock => simpa [name, isWorkDir] using front (str "-cache.use.lock")
  | staging | backup => simp [name, isWorkDir, stagingName, backupName]

/-- The names of work directories tell all about them. -/
theorem workDir_inj (h : Key key) (h' : Key key') (work : file.isWorkDir = true)
    (work' : file'.isWorkDir = true) (same : file.name sha256 key = file'.name sha256 key') :
    key = key' ∧ file = file' := by
  have keys : key = key' := by
    have found : workDirCacheKey (file.name sha256 key) = some key := workDirCacheKey_name h work
    rw [same, workDirCacheKey_name h' work'] at found
    exact (Option.some.inj found).symm
  refine ⟨keys, ?_⟩
  subst keys
  cases file with
  | staging random =>
    cases file' with
    | staging random' =>
      have rest : random.1 = random'.1 := List.append_cancel_left same
      rw [Subtype.ext rest]
    | backup pid nanos =>
      rw [name, name, backupName_of_plain h.plain] at same
      simp [stagingName, stagingMarker_eq, backupMarker_eq] at same
    | entry | lock | useLock => simp [isWorkDir] at work'
  | backup pid nanos =>
    cases file' with
    | staging random =>
      rw [name, name, backupName_of_plain h.plain] at same
      simp [stagingName, stagingMarker_eq, backupMarker_eq] at same
    | backup pid' nanos' =>
      rw [name, name, backupName_of_plain h.plain, backupName_of_plain h.plain] at same
      have rest := List.append_cancel_left (List.append_cancel_left same)
      obtain ⟨rfl, rfl⟩ := numbers_inj rest
      rfl
    | entry | lock | useLock => simp [isWorkDir] at work'
  | entry | lock | useLock => simp [isWorkDir] at work

/-- Neither lock file is an entry, and the two lock files differ. -/
theorem restFile_inj (h : Key key) (h' : Key key') (rest : file.isWorkDir = false)
    (rest' : file'.isWorkDir = false) (same : file.name sha256 key = file'.name sha256 key') :
    key = key' ∧ file = file' := by
  have differ : ∀ key key' : Str, key ++ str "-cache.lock" ≠ key' ++ str "-cache.use.lock" := by
    intro key key' eq
    have suffix : str "-cache.lock" <:+ str "-cache.use.lock" :=
      List.suffix_of_suffix_length_le (List.suffix_append key _)
        (eq ▸ List.suffix_append key' _) (by decide)
    exact absurd suffix (by decide)
  have lock : ∀ {k : Str} (f : Str), Key k → f.getLast? = some 'k' → ∀ key, k ≠ key ++ f := by
    intro k f hk hf key eq
    apply hk.last_ne
    rw [eq, List.getLast?_append, hf]
    rfl
  cases file with
  | entry =>
    cases file' with
    | entry => exact ⟨same, rfl⟩
    | lock => exact absurd same (lock _ h (by decide) key')
    | useLock => exact absurd same (lock _ h (by decide) key')
    | staging | backup => simp [isWorkDir] at rest'
  | lock =>
    cases file' with
    | entry => exact absurd same.symm (lock _ h' (by decide) key)
    | lock => exact ⟨List.append_cancel_right same, rfl⟩
    | useLock => exact absurd same (differ key key')
    | staging | backup => simp [isWorkDir] at rest'
  | useLock =>
    cases file' with
    | entry => exact absurd same.symm (lock _ h' (by decide) key)
    | lock => exact absurd same.symm (differ key' key)
    | useLock => exact ⟨List.append_cancel_right same, rfl⟩
    | staging | backup => simp [isWorkDir] at rest'
  | staging | backup => simp [isWorkDir] at rest

theorem name_inj (h : Key key) (h' : Key key')
    (same : file.name sha256 key = file'.name sha256 key') : key = key' ∧ file = file' := by
  have first : (file.name sha256 key).head? = some '.' ↔ file.isWorkDir = true := head_name h
  have work : file.isWorkDir = true ↔ file'.isWorkDir = true := by
    rw [← first, same, head_name h']
  by_cases hw : file.isWorkDir = true
  · exact workDir_inj h h' hw (work.mp hw) same
  · exact restFile_inj h h' (by simpa using hw) (by simpa [hw] using work) same

end CacheFile

variable (sha256 rootDir agentId version platform digest) in
theorem cacheDir_withDigest :
    (binaryCachePathsWithDigest sha256 rootDir agentId version platform digest).cacheDir =
      (binaryCachePathsWithDigest sha256 rootDir agentId version platform digest).parentDir ++
        [cacheKey sha256 version digest] := rfl

/-- An entry's directory alone tells all its paths. -/
theorem ofCacheDir_withDigest :
    BinaryCachePaths.ofCacheDir rootDir
        (binaryCachePathsWithDigest sha256 rootDir agentId version platform digest).cacheDir =
      binaryCachePathsWithDigest sha256 rootDir agentId version platform digest := by
  rw [BinaryCachePaths.ofCacheDir, cacheDir_withDigest, List.dropLast_concat, if_neg (by simp)]
  rfl

theorem CacheFile.path_withDigest (file : CacheFile) :
    file.path sha256 (binaryCachePathsWithDigest sha256 rootDir agentId version platform digest) =
      (binaryCachePathsWithDigest sha256 rootDir agentId version platform digest).parentDir ++
        [file.name sha256 (cacheKey sha256 version digest)] := by
  have last : fileName
      (binaryCachePathsWithDigest sha256 rootDir agentId version platform digest).cacheDir =
        cacheKey sha256 version digest := by
    rw [fileName, cacheDir_withDigest, List.getLast?_concat]
    rfl
  have plain : ∀ value, Plain (safePathComponent sha256 value) := plain_safePathComponent
  cases file with
  | entry => exact cacheDir_withDigest sha256 rootDir agentId version platform digest
  | lock | useLock =>
    simp only [path, name, binaryCacheLockPath, binaryCacheUseLockPath, last,
      safePathComponent_of_plain (plain _), cacheKey]
  | staging | backup => simp only [path, name, last]

theorem not_mimics_digest (version : Str) (h : parseSha256 digest = .ok d) (lossy : Str) :
    ¬Mimics sha256 (version ++ str "-sha256-" ++ digest.lower) lossy := by
  obtain ⟨length, digits⟩ := digits_of_parse h
  rintro ⟨-, same⟩
  exact append_digits_ne (by rw [length_lower, length]) digits
    (length_stablePathDigest sha256 lossy) same

/-- No two versions and digests share an entry, unless the digests of their names collide. -/
theorem cacheKey_inj (h : parseSha256 digest = .ok d) (h' : parseSha256 digest' = .ok d')
    (distinct : stablePathDigest sha256 (version ++ str "-sha256-" ++ digest.lower) =
      stablePathDigest sha256 (version' ++ str "-sha256-" ++ digest'.lower) →
      version ++ str "-sha256-" ++ digest.lower = version' ++ str "-sha256-" ++ digest'.lower)
    (same : cacheKey sha256 version digest = cacheKey sha256 version' digest') :
    version = version' ∧ d = d' := by
  have values := (separate_iff distinct).mpr
    ⟨not_mimics_digest version h _, not_mimics_digest version' h' _⟩ same
  have digests := cacheKey_digest h h' same
  refine ⟨?_, digests⟩
  rw [lower_of_parse h, lower_of_parse h', digests] at values
  exact List.append_cancel_right (List.append_cancel_right values)

theorem platformCacheKey_injective : Function.Injective platformCacheKey := by
  intro p q h
  cases p <;> cases q <;> first | rfl | exact absurd h (by decide)

/-- The remover, from the directory of the entry, and the sweep, from any work directory, take the
locks that the installer takes. -/
structure LocksAgree (sha256 : Bytes → Digest) (paths : BinaryCachePaths) : Prop where
  removerLock : binaryCacheLockPath sha256 (.ofCacheDir paths.rootDir paths.cacheDir) =
    binaryCacheLockPath sha256 paths
  removerUseLock : binaryCacheUseLockPath sha256 (.ofCacheDir paths.rootDir paths.cacheDir) =
    binaryCacheUseLockPath sha256 paths
  key : ∀ file : CacheFile, file.isWorkDir = true →
    workDirCacheKey (fileName (file.path sha256 paths)) = some (fileName paths.cacheDir)
  sweepLocks : ∀ file : CacheFile, file.isWorkDir = true → ∃ swept,
    sweepPaths paths.rootDir paths.parentDir (fileName (file.path sha256 paths)) = some swept ∧
      binaryCacheLockPath sha256 swept = binaryCacheLockPath sha256 paths ∧
      binaryCacheUseLockPath sha256 swept = binaryCacheUseLockPath sha256 paths

theorem locksAgree_withDigest (h : parseSha256 digest = .ok d) :
    LocksAgree sha256
      (binaryCachePathsWithDigest sha256 rootDir agentId version platform digest) := by
  have hkey : Key (cacheKey sha256 version digest) := key_cacheKey version h
  have entry : BinaryCachePaths.ofCacheDir rootDir
      (binaryCachePathsWithDigest sha256 rootDir agentId version platform digest).cacheDir =
        binaryCachePathsWithDigest sha256 rootDir agentId version platform digest :=
    ofCacheDir_withDigest
  have name : ∀ file : CacheFile, fileName (file.path sha256
      (binaryCachePathsWithDigest sha256 rootDir agentId version platform digest)) =
        file.name sha256 (cacheKey sha256 version digest) := by
    intro file
    rw [CacheFile.path_withDigest, fileName, List.getLast?_concat]
    rfl
  have last : fileName
      (binaryCachePathsWithDigest sha256 rootDir agentId version platform digest).cacheDir =
        cacheKey sha256 version digest := name .entry
  refine ⟨congrArg _ entry, congrArg _ entry, fun file work => ?_, fun file work => ?_⟩
  · rw [name, last, CacheFile.workDirCacheKey_name hkey work]
  · refine ⟨_, ?_, rfl, rfl⟩
    rw [name, sweepPaths, CacheFile.workDirCacheKey_name hkey work, Option.map_some,
      ← cacheDir_withDigest]
    exact congrArg some entry

/-- All processes agree on the locks of an entry, and all that the cache puts into the platform
directories has a path of its own. -/
theorem cacheFiles_agree (rootDir : Path) (agentId agentId' version version' : Str)
    (platform platform' : Platform) (h : parseSha256 digest = .ok d)
    (h' : parseSha256 digest' = .ok d') :
    LocksAgree sha256
      (binaryCachePathsWithDigest sha256 rootDir agentId version platform digest) ∧
    (∀ file file' : CacheFile,
      file.path sha256
          (binaryCachePathsWithDigest sha256 rootDir agentId version platform digest) =
        file'.path sha256
          (binaryCachePathsWithDigest sha256 rootDir agentId' version' platform' digest') →
      (binaryCachePathsWithDigest sha256 rootDir agentId version platform digest).cacheDir =
          (binaryCachePathsWithDigest sha256 rootDir agentId' version' platform' digest').cacheDir ∧
        file = file') ∧
    ((stablePathDigest sha256 (version ++ str "-sha256-" ++ digest.lower) =
        stablePathDigest sha256 (version' ++ str "-sha256-" ++ digest'.lower) →
        version ++ str "-sha256-" ++ digest.lower = version' ++ str "-sha256-" ++ digest'.lower) →
      (binaryCachePathsWithDigest sha256 rootDir agentId version platform digest).cacheDir =
        (binaryCachePathsWithDigest sha256 rootDir agentId' version' platform' digest').cacheDir →
      version = version' ∧ platform = platform' ∧ d = d') := by
  refine ⟨locksAgree_withDigest h, fun file file' same => ?_, fun distinct same => ?_⟩
  · rw [CacheFile.path_withDigest, CacheFile.path_withDigest] at same
    obtain ⟨parents, names⟩ := List.append_inj' same rfl
    obtain ⟨keys, files⟩ := CacheFile.name_inj (key_cacheKey version h) (key_cacheKey version' h')
      (List.cons.inj names).1
    exact ⟨by rw [cacheDir_withDigest, cacheDir_withDigest, parents, keys], files⟩
  · obtain ⟨parents, names⟩ := List.append_inj' same rfl
    obtain ⟨versions, digests⟩ := cacheKey_inj h h' distinct (List.cons.inj names).1
    have platforms := (List.append_inj' parents rfl).2
    exact ⟨versions, platformCacheKey_injective (List.cons.inj platforms).1, digests⟩

end Keys

theorem cacheFiles_agree_demo :
    LocksAgree Ids.sha256
      (binaryCachePathsWithDigest Ids.sha256 [] Ids.lossy (str "1.0.0") .linuxX86_64 Ids.digest) ∧
    ∀ file file' : CacheFile,
      file.path Ids.sha256
          (binaryCachePathsWithDigest Ids.sha256 [] Ids.lossy (str "1.0.0") .linuxX86_64
            Ids.digest) ≠
        file'.path Ids.sha256
          (binaryCachePathsWithDigest Ids.sha256 [] Ids.lossy (str "1.1.0") .linuxX86_64
            Ids.digest) := by
  have parse : parseSha256 Ids.digest = .ok (Ids.sha256 Ids.lossy.bytes) := by rfl
  obtain ⟨agree, apart, -⟩ := @cacheFiles_agree Ids.sha256 _ _ _ _ [] Ids.lossy Ids.lossy
    (str "1.0.0") (str "1.1.0") .linuxX86_64 .linuxX86_64 parse parse
  exact ⟨agree, fun file file' same => absurd (apart file file' same).1 (by decide +kernel)⟩

end AcpAgent.Installer
