import AcpAgent.Installer.Packages
import AcpAgent.Installer.Removal
import AcpAgent.Lib.Json
import AcpAgent.Lib.Logged
import AcpAgent.Lib.Utf8
import AcpAgent.Runner.Command

/-! `installer/lifecycle.rs`: the uninstallation of agents, from the cache or else through the
package manager of their distribution, one request after another. -/

namespace AcpAgent.Installer.Lifecycle

open Runner

/-! ### Programs -/

/-- A program that is run, with its arguments. -/
abbrev Call := Str × List Str

structure Output where
  success : Bool
  stdout : Bytes
  stderr : Bytes

/-- How the calls end that a request makes, and what the JSON library makes of their output. -/
structure Programs where
  output : Call → Except Str Output
  available : Str → Except Str Bool
  fromSlice : Bytes → Except Str Json

inductive Failure
  | removal (error : RemovalError)
  /-- The messages, the contexts first. -/
  | message (chain : List Str)
  | panic

inductive UninstallOutcome
  | cache (agentId : Str) (registryError : Option Str)
  | packageManager (agentId : Str) (runner : PackageRunner) (package : Str)
  | runnerManaged (agentId : Str) (runner : PackageRunner)

abbrev Run (α : Type) := Logged Call Failure α

section Programs

variable (programs : Programs)

/-- `process::output`. -/
def processOutput (call : Call) : Run (Except Str Output) := do
  Logged.perform call
  return programs.output call

def runCommand (program : Str) (args : List Str) (subject : Str) : Run Unit := do
  match ← processOutput programs (program, args) with
  | .error error => Logged.stop (.message [str "failed to run " ++ program, error])
  | .ok output =>
    if output.success then return ()
    else
      let stderr := (Str.fromUtf8Lossy output.stderr).trim
      let stdout := (Str.fromUtf8Lossy output.stdout).trim
      let detail := if stderr.isEmpty then stdout else stderr
      let failed := str "failed to run " ++ program ++ str " for " ++ subject
      if detail.isEmpty then Logged.stop (.message [failed])
      else Logged.stop (.message [failed ++ str ": " ++ detail])

/-- `npm_list_contains`; the keys of a `Value` are different. -/
def npmListContains (value : Json) (package : Str) : Bool :=
  match value with
  | .object members =>
    match members.lookup (str "dependencies") with
    | some (.object dependencies) => (dependencies.lookup package).isSome
    | _ => false
  | _ => false

def npmList : Call := (str "npm", [str "list", str "--global", str "--depth=0", str "--json"])

def npmPackageInstalled (package : Str) : Run Bool := do
  match ← processOutput programs npmList with
  | .error error =>
    Logged.stop (.message [str "failed to inspect globally installed npm packages", error])
  | .ok output =>
    match programs.fromSlice output.stdout with
    | .error error =>
      let detail := (Str.fromUtf8Lossy output.stderr).trim
      Logged.stop
        (.message [str "npm did not return a valid global package list: " ++ detail, error])
    | .ok value => return npmListContains value package

def npmUninstall (package : Str) : Call :=
  (str "npm", [str "uninstall", str "--global", package])

def uvToolUninstall (name : Str) : Call := (str "uv", [str "tool", str "uninstall", name])

def uninstallNpmPackage (agentId : Str) (runner : PackageRunner) (package : Str) :
    Run UninstallOutcome :=
  match barePackageName package with
  | none => Logged.stop .panic
  | some package =>
    if runner = .npm then
      match programs.available (str "npm") with
      | .error error => Logged.stop (.message [error])
      | .ok false => return .runnerManaged agentId runner
      | .ok true => do
        if ← npmPackageInstalled programs package then
          runCommand programs (npmUninstall package).1 (npmUninstall package).2
            (str "npm package " ++ package)
          return .packageManager agentId runner package
        else return .runnerManaged agentId runner
    else return .runnerManaged agentId runner

def uninstallUvxPackage (agentId : Str) (package : Str) : Run UninstallOutcome := do
  match uvToolName package with
  | .error error => Logged.stop (.message [error])
  | .ok toolName =>
    runCommand programs (uvToolUninstall toolName).1 (uvToolUninstall toolName).2
      (str "uv package " ++ toolName)
    return .packageManager agentId .uvx toolName

end Programs

/-! ### Uninstallation -/

/-- A call of `uninstall_from`, with what it finds outside of the cache. -/
structure Request where
  agentId : Str
  /-- `RegistrySnapshot`. -/
  registry : Except Str (List RegistryAgent)
  host : Host
  programs : Programs

namespace Request

variable (request : Request)

def notInstalled : Failure :=
  .message [str "agent \"" ++ request.agentId ++ str "\" is not installed"]

/-- From `let Some(agent) = agent` on. -/
def uninstallPackage (agent : Option RegistryAgent) : Run UninstallOutcome :=
  match agent with
  | none => Logged.stop request.notInstalled
  | some agent =>
    match request.host.resolveDistribution agent with
    | .error error => Logged.stop (.message [error])
    | .ok none => Logged.stop request.notInstalled
    | .ok (some (.binary _ _)) => Logged.stop request.notInstalled
    | .ok (some (.npm distribution runner)) =>
      uninstallNpmPackage request.programs request.agentId runner distribution.package
    | .ok (some (.uvx distribution)) =>
      uninstallUvxPackage request.programs request.agentId distribution.package

/-- From `let agent = match registry` on. -/
def afterCache (cacheRemoved : Bool) : Run UninstallOutcome :=
  match request.registry with
  | .ok agents =>
    if cacheRemoved then return .cache request.agentId none
    else request.uninstallPackage (Host.findAgent agents request.agentId)
  | .error error =>
    if cacheRemoved then return .cache request.agentId (some error)
    else Logged.stop (.message [str "could not determine how agent \"" ++ request.agentId ++
      str "\" was installed", error])

/-- `uninstall_from`, with what it leaves of the cache. -/
def uninstallFrom (c : Crates) (invalid : Bytes → Str) (free : List Bytes → Hold → Bool)
    (root : Node) : Node × Run UninstallOutcome :=
  match removeCachedAgent c invalid free request.agentId root with
  | (root, .error error) => (root, Logged.stop (.removal error))
  | (root, .ok cacheRemoved) => (root, request.afterCache cacheRemoved)

end Request

/-- The calls that uninstall a package which the registry names for the agent. -/
inductive Request.Addresses (request : Request) : Call → Prop
  | npm {agents : List RegistryAgent} {agent : RegistryAgent} {distribution : PackageDistribution}
      {name : Str} {call : Call} (fetched : request.registry = .ok agents)
      (found : Host.findAgent agents request.agentId = some agent)
      (resolved : request.host.resolveDistribution agent = .ok (some (.npm distribution .npm)))
      (named : barePackageName distribution.package = some name)
      (listed : call = npmList ∨ call = npmUninstall name) : request.Addresses call
  | uvx {agents : List RegistryAgent} {agent : RegistryAgent} {distribution : PackageDistribution}
      {name : Str} (fetched : request.registry = .ok agents)
      (found : Host.findAgent agents request.agentId = some agent)
      (resolved : request.host.resolveDistribution agent = .ok (some (.uvx distribution)))
      (named : uvToolName distribution.package = .ok name) :
      request.Addresses (uvToolUninstall name)

/-- One uninstallation after another. -/
def uninstallAll (c : Crates) (invalid : Bytes → Str) (free : List Bytes → Hold → Bool) :
    List Request → Node → Node × List (Run UninstallOutcome)
  | [], root => (root, [])
  | request :: requests, root =>
    let (root, run) := request.uninstallFrom c invalid free root
    let (root, runs) := uninstallAll c invalid free requests root
    (root, run :: runs)

/-! ### What is left of the cache -/

section Cache

variable {c : Crates} {invalid : Bytes → Str} {before after : Node}
  {deleted locks : List Bytes → Prop} {cacheDir : List Bytes} {agentId : Str}

/-- What is right below the version directories is as it was, or gone with them. -/
theorem readMetadata_cleared (cleared : Cleared before after deleted locks)
    (apart : Apart before deleted locks) (depth : cacheDir.length = 4) :
    (deleted cacheDir → readMetadata c after cacheDir = none) ∧
      (¬deleted cacheDir → readMetadata c after cacheDir = readMetadata c before cacheDir) := by
  constructor
  · intro gone
    have missing := cleared.gone cacheDir (cacheDir ++ [metadataName]) gone (List.prefix_append _ _)
    simp [readMetadata, missing]
  · intro still
    have outside : ∀ dir, deleted dir → ¬dir <+: cacheDir ++ [metadataName] := by
      intro dir hd below
      have same : dir = cacheDir := by
        have front : dir <+: cacheDir := by
          refine List.prefix_of_prefix_length_le below (List.prefix_append _ _) ?_
          rw [(apart.dirs dir hd).1, depth]
        exact front.eq_of_length ((apart.dirs dir hd).1.trans depth.symm)
      exact still (same ▸ hd)
    rcases cleared.kept _ outside with same | ⟨lock, -⟩
    · rw [readMetadata, readMetadata, same]
    · have length := (apart.files _ lock).1
      simp [depth] at length

theorem look_cleared (cleared : Cleared before after deleted locks)
    (apart : Apart before deleted locks) (depth : cacheDir.length = 4) :
    after.look cacheDir = some .dir ↔ before.look cacheDir = some .dir ∧ ¬deleted cacheDir := by
  constructor
  · intro dir
    have still : ¬deleted cacheDir := by
      intro gone
      simp [cleared.gone cacheDir cacheDir gone List.prefix_rfl] at dir
    refine ⟨?_, still⟩
    have outside : ∀ other, deleted other → ¬other <+: cacheDir := by
      intro other hd below
      obtain rfl := below.eq_of_length ((apart.dirs other hd).1.trans depth.symm)
      exact still hd
    rcases cleared.kept _ outside with same | ⟨-, -, file⟩
    · rw [← same, dir]
    · simp [dir] at file
  · rintro ⟨dir, still⟩
    exact cleared.look_entry apart dir depth still

/-- An entry with metadata belongs to the agent that the metadata names. -/
theorem entryOf_of_read {root : Node} {a p v : Bytes} {metadata : BinaryCacheMetadata}
    (hidden : isHidden invalid v = false)
    (read : readMetadata c root [agentsName, a, p, v] = some metadata) :
    EntryOf c invalid root agentId [agentsName, a, p, v] ↔ metadata.agentId = agentId := by
  have names : NamesAgent c root agentId [agentsName, a, p, v] ↔ metadata.agentId = agentId := by
    rw [NamesAgent, read]
  refine ⟨fun entry => names.mp entry.names, fun same => ?_⟩
  exact ⟨⟨a, p, v, rfl, hidden⟩, look_of_readMetadata read, names.mpr same⟩

theorem entryOf_cleared (cleared : Cleared before after deleted locks)
    (apart : Apart before deleted locks) :
    EntryOf c invalid after agentId cacheDir ↔
      EntryOf c invalid before agentId cacheDir ∧ ¬deleted cacheDir := by
  have depth : ∀ {root}, EntryOf c invalid root agentId cacheDir → cacheDir.length = 4 := by
    rintro root ⟨⟨a, p, v, rfl, -⟩, -, -⟩
    rfl
  constructor
  · intro entry
    obtain ⟨dir, still⟩ := (look_cleared cleared apart (depth entry)).mp entry.dir
    refine ⟨⟨entry.path, dir, ?_⟩, still⟩
    have names := entry.names
    rwa [NamesAgent, (readMetadata_cleared cleared apart (depth entry)).2 still] at names
  · rintro ⟨entry, still⟩
    refine ⟨entry.path, (look_cleared cleared apart (depth entry)).mpr ⟨entry.dir, still⟩, ?_⟩
    rw [NamesAgent, (readMetadata_cleared cleared apart (depth entry)).2 still]
    exact entry.names

theorem mem_list_cleared (cleared : Cleared before after deleted locks)
    (apart : Apart before deleted locks) {entry : CachedAgent} :
    entry ∈ listCachedAgents c invalid after ↔
      entry ∈ listCachedAgents c invalid before ∧ ¬deleted entry.cacheDir := by
  have read : ∀ a p v, readCachedAgent c after [agentsName, a, p, v] = some entry ↔
      readCachedAgent c before [agentsName, a, p, v] = some entry ∧ ¬deleted entry.cacheDir := by
    intro a p v
    obtain ⟨gone, still⟩ :=
      @readMetadata_cleared c _ _ _ _ [agentsName, a, p, v] cleared apart rfl
    by_cases hd : deleted [agentsName, a, p, v]
    · refine iff_of_false ?_ fun ⟨found, kept⟩ => kept (cacheDir_of_read found ▸ hd)
      simp [readCachedAgent, gone hd]
    · have same : readCachedAgent c after [agentsName, a, p, v] =
          readCachedAgent c before [agentsName, a, p, v] := by
        rw [readCachedAgent, readCachedAgent, still hd]
      rw [same]
      exact ⟨fun found => ⟨found, cacheDir_of_read found ▸ hd⟩, And.left⟩
  simp only [mem_listCachedAgents, read]
  constructor
  · rintro ⟨a, p, v, hidden, found, kept⟩
    exact ⟨⟨a, p, v, hidden, found⟩, kept⟩
  · rintro ⟨⟨a, p, v, hidden, found⟩, kept⟩
    exact ⟨a, p, v, hidden, found, kept⟩

/-- A lock file that can be opened still can. -/
theorem locksOpen_cleared (cleared : Cleared before after deleted locks)
    (apart : Apart before deleted locks) (depth : cacheDir.length = 4)
    (opens : LocksOpen c before cacheDir) : LocksOpen c after cacheDir := by
  intro path member
  have length : path.length = 4 := by
    simp only [List.mem_cons, List.not_mem_nil, or_false] at member
    rcases member with rfl | rfl <;> simp [cacheLockPath, cacheUseLockPath, lockPathIn, depth]
  by_cases gone : deleted path
  · exact .inl (cleared.gone path path gone List.prefix_rfl)
  · have outside : ∀ dir, deleted dir → ¬dir <+: path := by
      intro dir hd below
      obtain rfl := below.eq_of_length ((apart.dirs dir hd).1.trans length.symm)
      exact gone hd
    rcases cleared.kept path outside with same | ⟨-, -, file⟩
    · rw [same]
      exact opens path member
    · exact .inr ⟨[], file⟩

/-- Two removals are one, if the second takes no lock where the first has deleted a directory. -/
theorem cleared_trans {middle : Node} {deleted' locks' : List Bytes → Prop}
    (first : Cleared before middle deleted locks) (second : Cleared middle after deleted' locks')
    (free : ∀ dir path, deleted dir → locks' path → ¬dir <+: path) :
    Cleared before after (fun dir => deleted dir ∨ deleted' dir)
      (fun path => locks path ∨ locks' path) where
  gone dir path hd below := by
    by_cases gone' : ∃ dir, deleted' dir ∧ dir <+: path
    · obtain ⟨dir', hd', below'⟩ := gone'
      exact second.gone dir' path hd' below'
    · push Not at gone'
      rcases hd with hd | hd'
      · rcases second.kept path gone' with same | ⟨lock, -⟩
        · rw [same, first.gone dir path hd below]
        · exact absurd below (free dir path hd lock)
      · exact second.gone dir path hd' below
  kept path outside := by
    have kept := second.kept path fun dir hd => outside dir (.inr hd)
    have kept' := first.kept path fun dir hd => outside dir (.inl hd)
    rcases kept with same | ⟨lock, missing, file⟩
    · rw [same]
      rcases kept' with same' | ⟨lock, missing, file⟩
      · exact .inl same'
      · exact .inr ⟨.inl lock, missing, file⟩
    · rcases kept' with same' | ⟨lock', missing', file'⟩
      · exact .inr ⟨.inr lock, same'.symm.trans missing, file⟩
      · exact .inr ⟨.inl lock', missing', file⟩

theorem cleared_congr {deleted' locks' : List Bytes → Prop}
    (cleared : Cleared before after deleted locks) (same : ∀ dir, deleted dir ↔ deleted' dir)
    (more : ∀ path, locks path → locks' path) : Cleared before after deleted' locks' where
  gone dir path hd := cleared.gone dir path ((same dir).mpr hd)
  kept path outside := by
    refine (cleared.kept path fun dir hd => outside dir ((same dir).mp hd)).imp_right ?_
    exact And.imp_left (more path)

end Cache

section Requests

variable {c : Crates} {invalid : Bytes → Str} {root : Node}

variable (c invalid root) in
/-- The lock files of the agent's entries can be opened. -/
def Opens (agentId : Str) : Prop :=
  ∀ cacheDir, EntryOf c invalid root agentId cacheDir → LocksOpen c root cacheDir

theorem file_of_lockFile {agentId : Str} {path : List Bytes} (opens : Opens c invalid root agentId)
    (lock : LockFile c invalid root agentId path) :
    path.length = 4 ∧
      (root.look path = none ∨ ∃ content, root.look path = some (.file content)) := by
  obtain ⟨cacheDir, entry, member⟩ := lock
  refine ⟨?_, opens cacheDir entry path member⟩
  obtain ⟨a, p, v, rfl, -⟩ := entry.path
  simp only [List.mem_cons, List.not_mem_nil, or_false] at member
  rcases member with rfl | rfl <;> rfl

theorem dir_of_entryOf {agentId : Str} {dir : List Bytes}
    (entry : EntryOf c invalid root agentId dir) :
    dir.length = 4 ∧ root.look dir = some .dir := by
  obtain ⟨a, p, v, rfl, -⟩ := entry.path
  exact ⟨rfl, entry.dir⟩

theorem removeCachedAgent_cleared (free : List Bytes → Hold → Bool) {agentId : Str}
    (opens : Opens c invalid root agentId) :
    ∃ after removed, removeCachedAgent c invalid free agentId root = (after, .ok removed) ∧
      Cleared root after (EntryOf c invalid root agentId) (LockFile c invalid root agentId) ∧
      (removed = true ↔ ∃ cacheDir, EntryOf c invalid root agentId cacheDir) := by
  obtain ⟨after, removed, run, result⟩ := removeCachedEntries_cleared free .wait none none opens
  refine ⟨after, removed, run, ?_⟩
  simpa [Acquired] using result

variable (c invalid root) in
/-- An entry of the agent that is not an entry of an agent that has been uninstalled before. -/
def HasEntry (front : List Request) (request : Request) : Prop :=
  ∃ dir, EntryOf c invalid root request.agentId dir ∧
    ∀ earlier ∈ front, ¬EntryOf c invalid root earlier.agentId dir

variable (c invalid root) in
/-- What the requests leave of the cache, and what they come to. -/
structure Settled (requests : List Request) (after : Node) (runs : List (Run UninstallOutcome)) :
    Prop where
  cleared : Cleared root after
    (fun dir => ∃ request ∈ requests, EntryOf c invalid root request.agentId dir)
    (fun path => ∃ request ∈ requests, LockFile c invalid root request.agentId path)
  runs : ∀ front request back, requests = front ++ request :: back → ∃ removed,
    runs[front.length]? = some (request.afterCache removed) ∧
    (removed = true ↔ HasEntry c invalid root front request)

theorem settled (free : List Bytes → Hold → Bool) (requests : List Request)
    (opens : ∀ request ∈ requests, Opens c invalid root request.agentId) :
    Settled c invalid root requests (uninstallAll c invalid free requests root).1
      (uninstallAll c invalid free requests root).2 := by
  induction requests generalizing root with
  | nil =>
    refine ⟨cleared_congr (Cleared.refl root) (by simp) fun path => id, ?_⟩
    simp
  | cons request requests ih =>
    have own := opens request List.mem_cons_self
    obtain ⟨middle, removed, run, cleared, removed_iff⟩ := removeCachedAgent_cleared free own
    have apart : Apart root (EntryOf c invalid root request.agentId)
        (LockFile c invalid root request.agentId) :=
      ⟨fun _ => dir_of_entryOf, fun _ => file_of_lockFile own⟩
    have entries : ∀ {agentId dir}, EntryOf c invalid middle agentId dir ↔
        EntryOf c invalid root agentId dir ∧ ¬EntryOf c invalid root request.agentId dir :=
      entryOf_cleared cleared apart
    have lockFiles : ∀ {agentId path}, LockFile c invalid middle agentId path →
        LockFile c invalid root agentId path := by
      rintro agentId path ⟨dir, entry, member⟩
      exact ⟨dir, (entries.mp entry).1, member⟩
    have others : ∀ other ∈ requests, Opens c invalid middle other.agentId := by
      intro other member dir entry
      have entry := (entries.mp entry).1
      exact locksOpen_cleared cleared apart (dir_of_entryOf entry).1
        (opens other (List.mem_cons_of_mem _ member) dir entry)
    obtain ⟨rest, runs⟩ := ih others
    have first : request.uninstallFrom c invalid free root =
        (middle, request.afterCache removed) := by
      rw [Request.uninstallFrom, run]
    simp only [uninstallAll, first]
    refine ⟨?_, ?_⟩
    · refine cleared_congr (cleared_trans cleared rest ?_) ?_ ?_
      · rintro dir path hd ⟨other, member, lock⟩
        have other_ := opens other (List.mem_cons_of_mem _ member)
        have apart' : Apart root (EntryOf c invalid root request.agentId)
            (LockFile c invalid root other.agentId) :=
          ⟨fun _ => dir_of_entryOf, fun _ => file_of_lockFile other_⟩
        exact apart'.not_below hd (lockFiles lock)
      · intro dir
        simp only [entries, List.exists_mem_cons_iff]
        constructor
        · exact Or.imp_right fun ⟨other, member, entry, _⟩ => ⟨other, member, entry⟩
        · rintro (entry | ⟨other, member, entry⟩)
          · exact .inl entry
          · refine or_iff_not_imp_left.mpr fun kept => ⟨other, member, entry, kept⟩
      · intro path
        rw [List.exists_mem_cons_iff]
        exact Or.imp_right fun ⟨other, member, lock⟩ => ⟨other, member, lockFiles lock⟩
    · rintro (_ | ⟨earlier, front⟩) other back same
      · obtain ⟨rfl, rfl⟩ := List.cons.inj same
        exact ⟨removed, rfl, by simpa [HasEntry] using removed_iff⟩
      · obtain ⟨rfl, rfl⟩ := List.cons.inj same
        obtain ⟨removed', there, removed_iff'⟩ := runs front other back rfl
        refine ⟨removed', by simpa using there, removed_iff'.trans ?_⟩
        simp only [HasEntry, entries, List.forall_mem_cons]
        constructor
        · rintro ⟨dir, ⟨entry, kept⟩, rest⟩
          exact ⟨dir, entry, kept, fun earlier member owned => rest earlier member ⟨owned, kept⟩⟩
        · rintro ⟨dir, entry, kept, rest⟩
          exact ⟨dir, ⟨entry, kept⟩, fun earlier member owned => rest earlier member owned.1⟩

end Requests

/-! ### Packages -/

section Packages

variable {programs : Programs} {request : Request}

@[simp] theorem processOutput_bind_log {β : Type} (call : Call)
    (f : Except Str Output → Run β) :
    (processOutput programs call >>= f).log = call :: (f (programs.output call)).log := rfl

@[simp] theorem processOutput_bind_result {β : Type} (call : Call)
    (f : Except Str Output → Run β) :
    (processOutput programs call >>= f).result = (f (programs.output call)).result := rfl

/-- The program has been run, and has said that it was successful. -/
def Succeeds (programs : Programs) (call : Call) : Prop :=
  ∃ output, programs.output call = .ok output ∧ output.success = true

theorem runCommand_log (program : Str) (args : List Str) (subject : Str) :
    (runCommand programs program args subject).log = [(program, args)] := by
  rw [runCommand, processOutput_bind_log]
  congr 1
  cases programs.output (program, args) with
  | error error => rfl
  | ok output =>
    dsimp only
    split_ifs <;> rfl

theorem runCommand_ok {program : Str} {args : List Str} {subject : Str}
    (h : (runCommand programs program args subject).result = .ok ()) :
    Succeeds programs (program, args) := by
  rw [runCommand, processOutput_bind_result] at h
  cases output : programs.output (program, args) with
  | error error =>
    rw [output] at h
    exact nomatch h
  | ok output' =>
    rw [output] at h
    dsimp only at h
    split_ifs at h with success
    · exact ⟨output', output, success⟩
    all_goals exact nomatch h

theorem npmPackageInstalled_log (package : Str) :
    (npmPackageInstalled programs package).log = [npmList] := by
  rw [npmPackageInstalled, processOutput_bind_log]
  congr 1
  cases programs.output npmList with
  | error error => rfl
  | ok output => cases parsed : programs.fromSlice output.stdout <;> simp only [parsed] <;> rfl

/-- What an uninstallation does that has removed nothing from the cache. -/
structure PackageRun (request : Request) (run : Run UninstallOutcome) : Prop where
  calls : ∀ call ∈ run.log, request.Addresses call
  uncached : ∀ agentId error, run.result ≠ .ok (.cache agentId error)
  reported : ∀ agentId runner package, run.result = .ok (.packageManager agentId runner package) →
    agentId = request.agentId ∧ ∃ call ∈ run.log,
      (call = npmUninstall package ∨ call = uvToolUninstall package) ∧
      Succeeds request.programs call

theorem PackageRun.stop (failure : Failure) : PackageRun request (Logged.stop failure) where
  calls := by simp
  uncached _ _ := nofun
  reported _ _ _ := nofun

theorem PackageRun.runnerManaged (agentId : Str) (runner : PackageRunner) :
    PackageRun request (pure (.runnerManaged agentId runner)) where
  calls _ member := nomatch member
  uncached _ _ := nofun
  reported _ _ _ := nofun

theorem PackageRun.bind {α : Type} {m : Run α} {f : α → Run UninstallOutcome}
    (calls : ∀ call ∈ m.log, request.Addresses call)
    (rest : ∀ a, PackageRun request (f a)) : PackageRun request (m >>= f) := by
  cases result : m.result with
  | error failure =>
    rw [Logged.bind_of_error result]
    exact ⟨calls, fun _ _ => nofun, fun _ _ _ => nofun⟩
  | ok a =>
    rw [Logged.bind_of_ok result]
    refine ⟨fun call member => ?_, (rest a).uncached, fun agentId runner package removed => ?_⟩
    · rcases List.mem_append.mp member with before | after
      · exact calls call before
      · exact (rest a).calls call after
    · obtain ⟨same, call, member, succeeds⟩ := (rest a).reported agentId runner package removed
      exact ⟨same, call, List.mem_append_right _ member, succeeds⟩

/-- A package is reported to be removed after the call that has removed it. -/
theorem PackageRun.removed {call : Call} {subject package : Str} {runner : PackageRunner}
    (addressed : request.Addresses call)
    (removes : call = npmUninstall package ∨ call = uvToolUninstall package) :
    PackageRun request (do
      runCommand request.programs call.1 call.2 subject
      return .packageManager request.agentId runner package) := by
  have log : (runCommand request.programs call.1 call.2 subject).log = [call] :=
    runCommand_log call.1 call.2 subject
  cases result : (runCommand request.programs call.1 call.2 subject).result with
  | error failure =>
    rw [Logged.bind_of_error result, log]
    exact ⟨by simpa using addressed, fun _ _ => nofun, fun _ _ _ => nofun⟩
  | ok done =>
    rw [Logged.bind_of_ok result, log]
    refine ⟨by simpa [Pure.pure, Logged.pure] using addressed, fun _ _ => nofun,
      fun agentId runner' package' same => ?_⟩
    obtain ⟨rfl, rfl, rfl⟩ := UninstallOutcome.packageManager.inj (Except.ok.inj same)
    exact ⟨rfl, call, List.mem_cons_self, removes, runCommand_ok result⟩

theorem PackageRun.npm {runner : PackageRunner} {package : Str}
    (addressed : ∀ name call, runner = .npm → barePackageName package = some name →
      call = npmList ∨ call = npmUninstall name → request.Addresses call) :
    PackageRun request (uninstallNpmPackage request.programs request.agentId runner package) := by
  unfold uninstallNpmPackage
  cases named : barePackageName package with
  | none => exact .stop .panic
  | some name =>
    dsimp only
    split_ifs with isNpm
    · cases request.programs.available (str "npm") with
      | error error => exact .stop _
      | ok available =>
        cases available with
        | false => exact .runnerManaged ..
        | true =>
          refine .bind ?_ fun installed => ?_
          · rw [npmPackageInstalled_log]
            simpa using addressed name npmList isNpm named (.inl rfl)
          · cases installed with
            | false => exact .runnerManaged ..
            | true =>
              exact .removed (addressed name _ isNpm named (.inr rfl)) (.inl rfl)
    · exact .runnerManaged ..

theorem PackageRun.uvx {package : Str}
    (addressed : ∀ name, uvToolName package = .ok name →
      request.Addresses (uvToolUninstall name)) :
    PackageRun request (uninstallUvxPackage request.programs request.agentId package) := by
  unfold uninstallUvxPackage
  cases named : uvToolName package with
  | error error => exact .stop _
  | ok name => exact .removed (addressed name named) (.inr rfl)

theorem packageRun (request : Request) : PackageRun request (request.afterCache false) := by
  unfold Request.afterCache
  cases fetched : request.registry with
  | error error => exact .stop _
  | ok agents =>
    show PackageRun request (request.uninstallPackage (Host.findAgent agents request.agentId))
    cases found : Host.findAgent agents request.agentId with
    | none => exact .stop _
    | some agent =>
      unfold Request.uninstallPackage
      dsimp only
      cases resolved : request.host.resolveDistribution agent with
      | error error => exact .stop _
      | ok distribution =>
        rcases distribution with _ | ⟨platform, target⟩ | ⟨distribution, runner⟩ | distribution
        · exact .stop _
        · exact .stop _
        · refine .npm fun name call isNpm named listed => ?_
          subst isNpm
          exact .npm fetched found resolved named listed
        · exact .uvx fun name named => .uvx fetched found resolved named

end Packages

variable {c : Crates} {invalid : Bytes → Str} {root : Node}

/-- After any uninstallations the cache lists exactly the entries of all other agents.  A request
that finds an entry of its agent removes it without running a program, even if the registry could
not be read.  Any other one runs no program but those that uninstall the package which the registry
names for the agent, and reports it as removed only if that call was successful. -/
theorem uninstalls_accounted (free : List Bytes → Hold → Bool) (requests : List Request)
    (opens : ∀ request ∈ requests, Opens c invalid root request.agentId) :
    (∀ entry, entry ∈ listCachedAgents c invalid (uninstallAll c invalid free requests root).1 ↔
      entry ∈ listCachedAgents c invalid root ∧
        ∀ request ∈ requests, request.agentId ≠ entry.agentId) ∧
    ∀ front request back, requests = front ++ request :: back →
      ∃ run, (uninstallAll c invalid free requests root).2[front.length]? = some run ∧
        (HasEntry c invalid root front request → run.log = [] ∧ run.result = .ok (.cache
          request.agentId (match request.registry with | .ok _ => none | .error e => some e))) ∧
        (¬HasEntry c invalid root front request → PackageRun request run) := by
  obtain ⟨cleared, runs⟩ := settled free requests opens
  constructor
  · intro entry
    have apart : Apart root
        (fun dir => ∃ request ∈ requests, EntryOf c invalid root request.agentId dir)
        (fun path => ∃ request ∈ requests, LockFile c invalid root request.agentId path) := by
      constructor
      · rintro dir ⟨request, -, owned⟩
        exact dir_of_entryOf owned
      · rintro path ⟨request, member, lock⟩
        exact file_of_lockFile (opens request member) lock
    rw [mem_list_cleared cleared apart]
    refine and_congr_right fun listed => ?_
    obtain ⟨a, p, v, hidden, read⟩ := mem_listCachedAgents.mp listed
    obtain ⟨metadata, parsed, rfl⟩ := readCachedAgent_eq_some.mp read
    simp only [entryOf_of_read hidden parsed, not_exists, not_and]
    exact forall₂_congr fun request _ => not_congr eq_comm
  · intro front request back same
    obtain ⟨removed, there, removed_iff⟩ := runs front request back same
    refine ⟨_, there, fun present => ?_, fun absent => ?_⟩
    · obtain rfl := removed_iff.mpr present
      unfold Request.afterCache
      cases request.registry <;> exact ⟨rfl, rfl⟩
    · obtain rfl : removed = false := by
        rw [← Bool.not_eq_true]
        exact mt removed_iff.mp absent
      exact packageRun request

/-! ### An uninstallation without the registry -/

namespace Offline

open Sample (job crates)

def request : Request where
  agentId := job.agentId
  registry := .error (str "failed to fetch registry payload")
  host := ⟨.ok .linuxX86_64, .ok true, fun _ _ _ => .error [], .ok [], []⟩
  programs := ⟨fun _ => .error [], fun _ => .ok true, fun _ => .error []⟩

theorem read : readMetadata crates Sample.root (job.cacheDir crates) = some Sample.metadata := by
  have there : Sample.root.look (job.cacheDir crates ++ [metadataName]) =
      some (.file Sample.json) := by
    rw [Sample.root, Node.look_append, Node.at_nest, Option.bind_some, Node.look_cons,
      Sample.entry, child_stagedEntry_metadata]
    rfl
  rw [readMetadata, there]
  exact Sample.fromSlice_json

theorem owned : EntryOf crates (fun _ => []) Sample.root job.agentId (job.cacheDir crates) := by
  refine ⟨⟨_, _, _, rfl, not_isHidden_key⟩, look_of_readMetadata read, ?_⟩
  rw [NamesAgent, read]
  rfl

theorem hasEntry : HasEntry crates (fun _ => []) Sample.root [] request :=
  ⟨_, owned, by simp⟩

end Offline

/-- The entry is removed, and the error of the registry is reported with it. -/
theorem uninstalls_accounted_offline : ∃ run,
    (uninstallAll Sample.crates (fun _ => []) (fun _ _ => true) [Offline.request]
      Sample.root).2[0]? = some run ∧ run.log = [] ∧ run.result = .ok (.cache Sample.job.agentId
        (some (str "failed to fetch registry payload"))) := by
  have opens : ∀ request ∈ [Offline.request],
      Opens Sample.crates (fun _ => []) Sample.root request.agentId := by
    intro request member
    obtain rfl := List.mem_singleton.mp member
    exact fun _ => Sample.locksOpen
  obtain ⟨run, there, removed, -⟩ :=
    (uninstalls_accounted (fun _ _ => true) [Offline.request] opens).2 [] _ [] rfl
  exact ⟨run, there, removed Offline.hasEntry⟩

end AcpAgent.Installer.Lifecycle
