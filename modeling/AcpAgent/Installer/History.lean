import AcpAgent.Installer.Lifecycle

/-! The cache over a history of installations, updates and uninstallations: the tree in which
`installer/cache.rs` finds the agents represents a map, from the directories of the entries to their
metadata, and the operations of `installer/lifecycle.rs` are operations on the map. -/

namespace AcpAgent.Installer.History

open Lifecycle

/-! ### The map -/

abbrev Entries := List Bytes → Option BinaryCacheMetadata

namespace Entries

variable (entries : Entries)

def install (dir : List Bytes) (metadata : BinaryCacheMetadata) : Entries :=
  Function.update entries dir (some metadata)

/-- The map without the entries that meet a condition. -/
def without (condition : List Bytes → BinaryCacheMetadata → Bool) : Entries := fun dir =>
  (entries dir).filter fun metadata => !condition dir metadata

end Entries

/-- The version directories that the inventory looks into. -/
def isEntryDir (invalid : Bytes → Str) : List Bytes → Bool
  | [top, _, _, version] => top = agentsName && !isHidden invalid version
  | _ => false

/-- The map that a tree represents. -/
def entriesOf (c : Crates) (invalid : Bytes → Str) (root : Node) : Entries := fun dir =>
  if isEntryDir invalid dir then readMetadata c root dir else none

section Represents

variable {c : Crates} {invalid : Bytes → Str} {root before after : Node} {dir : List Bytes}
  {metadata : BinaryCacheMetadata} {deleted locks : List Bytes → Prop}

theorem isEntryDir_iff : isEntryDir invalid dir = true ↔
    ∃ a p v, dir = [agentsName, a, p, v] ∧ isHidden invalid v = false := by
  unfold isEntryDir
  split
  · simp
  · rename_i other
    refine iff_of_false (by simp) ?_
    rintro ⟨a, p, v, same, -⟩
    exact other _ _ _ _ same

theorem entriesOf_eq_some : entriesOf c invalid root dir = some metadata ↔
    isEntryDir invalid dir = true ∧ readMetadata c root dir = some metadata := by
  rw [entriesOf]
  split_ifs with entry <;> simp [entry]

/-- The listing of the tree is the listing of the map. -/
theorem mem_listCachedAgents_iff {agent : CachedAgent} :
    agent ∈ listCachedAgents c invalid root ↔
      ∃ dir metadata, entriesOf c invalid root dir = some metadata ∧
        agent = ⟨metadata.agentId, metadata.agentVersion, metadata.platform, dir,
          some (joinText metadata.cmd)⟩ := by
  simp only [mem_listCachedAgents, readCachedAgent_eq_some, entriesOf_eq_some, isEntryDir_iff]
  constructor
  · rintro ⟨a, p, v, hidden, metadata, read, same⟩
    exact ⟨_, metadata, ⟨⟨a, p, v, rfl, hidden⟩, read⟩, same⟩
  · rintro ⟨_, metadata, ⟨⟨a, p, v, rfl, hidden⟩, read⟩, same⟩
    exact ⟨a, p, v, hidden, metadata, read, same⟩

/-- What the removal asks of an entry that is in the map. -/
theorem entryOf_iff (agentId : Str) (there : entriesOf c invalid root dir = some metadata) :
    (EntryOf c invalid root agentId dir ↔ metadata.agentId = agentId) ∧
      ∀ platform, OnPlatform c invalid root platform dir ↔ metadata.platform = platform := by
  obtain ⟨entry, read⟩ := entriesOf_eq_some.1 there
  obtain ⟨a, p, v, rfl, hidden⟩ := isEntryDir_iff.1 entry
  exact ⟨entryOf_of_read hidden read, fun platform => by rw [OnPlatform, read]⟩

/-- A removal takes the entries out of the map that it deletes. -/
theorem entriesOf_cleared (cleared : Cleared before after deleted locks)
    (apart : Apart before deleted locks) {condition : List Bytes → BinaryCacheMetadata → Bool}
    (decides : ∀ dir metadata, entriesOf c invalid before dir = some metadata →
      (deleted dir ↔ condition dir metadata = true)) :
    entriesOf c invalid after = (entriesOf c invalid before).without condition := by
  funext dir
  rw [Entries.without]
  cases entry : isEntryDir invalid dir with
  | false => simp [entriesOf, entry]
  | true =>
    obtain ⟨a, p, v, rfl, -⟩ := isEntryDir_iff.1 entry
    obtain ⟨gone, still⟩ :=
      @readMetadata_cleared c _ _ _ _ [agentsName, a, p, v] cleared apart rfl
    cases there : entriesOf c invalid before [agentsName, a, p, v] with
    | none =>
      have missing : readMetadata c before [agentsName, a, p, v] = none := by
        simpa [entriesOf, entry] using there
      by_cases hd : deleted [agentsName, a, p, v]
      · simp [entriesOf, gone hd]
      · simp [entriesOf, still hd, missing]
    | some metadata =>
      have decided := decides _ _ there
      by_cases hd : deleted [agentsName, a, p, v]
      · simp [entriesOf, gone hd, Option.filter_some, decided.1 hd]
      · have kept : condition [agentsName, a, p, v] metadata = false :=
          Bool.eq_false_of_not_eq_true (decided.not.1 hd)
        have read := (entriesOf_eq_some.1 there).2
        simp [entriesOf, entry, still hd, read, Option.filter_some, kept]

end Represents

/-! ### Operations -/

inductive Op
  | install (job : Job) (metadata : BinaryCacheMetadata)
  /-- `free` tells whether a lock of an entry is free when the update tries it. -/
  | update (job : Job) (metadata : BinaryCacheMetadata) (free : List Bytes → Hold → Bool)
  | uninstall (agentId : Str)

section Operations

variable (c : Crates) (invalid : Bytes → Str)

/-- The other entries of the agent for the platform of an update that are not in use. -/
def replaced (job : Job) (free : List Bytes → Hold → Bool) (dir : List Bytes)
    (metadata : BinaryCacheMetadata) : Bool :=
  metadata.agentId = job.agentId && metadata.platform = platformCacheKey job.platform &&
    dir ≠ job.cacheDir c && (free dir .publication && free dir .useWrite)

def Op.apply (entries : Entries) : Op → Entries
  | .install job metadata => entries.install (job.cacheDir c) metadata
  | .update job metadata free =>
    (entries.install (job.cacheDir c) metadata).without (replaced c job free)
  | .uninstall agentId => entries.without fun _ metadata => metadata.agentId = agentId

/-- In a run of any parties of its key, an installation has returned, and this is at the final
directory. -/
def Returned (job : Job) (final : Option Node) : Prop :=
  ∃ (ι : Type) (_ : DecidableEq ι) (init : Disk → Prop) (w : Cache ι) (i : ι) (cached : Node),
    (cacheSystem c (job.key c) False init).Reachable w ∧
    w.party i = .install job (.returned cached) ∧ w.disk.final = final

/-- An installation has returned the entry of its job, and no other entry has changed. -/
structure Installed (job : Job) (metadata : BinaryCacheMetadata) (before after : Node) : Prop where
  returned : Returned c job (after.at_ (job.cacheDir c))
  read : readMetadata c after (job.cacheDir c) = some metadata
  others : ∀ dir, isEntryDir invalid dir = true → dir ≠ job.cacheDir c →
    readMetadata c after dir = readMetadata c before dir

/-- `install_binary`, the binary branch of `update_from`, and `uninstall_from`, each on a cache
whose lock files can be opened. -/
inductive Change : Node → Op → Node → Prop
  | install {job : Job} {metadata : BinaryCacheMetadata} {before after : Node}
      (installed : Installed c invalid job metadata before after) :
      Change before (.install job metadata) after
  | update {job : Job} {metadata : BinaryCacheMetadata} {free : List Bytes → Hold → Bool}
      {before middle after : Node} {removed : Bool}
      (installed : Installed c invalid job metadata before middle)
      (opens : Opens c invalid middle job.agentId)
      (pruned : removeReplacedPlatformEntries c invalid free job.agentId job.platform
        (job.cacheDir c) middle = (after, .ok removed)) :
      Change before (.update job metadata free) after
  | uninstall {request : Request} {free : List Bytes → Hold → Bool} {before after : Node}
      {run : Run UninstallOutcome} (opens : Opens c invalid before request.agentId)
      (ran : request.uninstallFrom c invalid free before = (after, run)) :
      Change before (.uninstall request.agentId) after

/-- Operations one after the other. -/
inductive Changes : Node → List Op → Node → Prop
  | nil {root : Node} : Changes root [] root
  | cons {root middle after : Node} {op : Op} {ops : List Op}
      (first : Change c invalid root op middle) (rest : Changes middle ops after) :
      Changes root (op :: ops) after

end Operations

/-! ### Refinement -/

section Refinement

variable {c : Crates} {invalid : Bytes → Str} {root before after : Node} {job : Job}
  {metadata : BinaryCacheMetadata} {op : Op} {ops : List Op}

theorem isEntryDir_cacheDir (job : Job) : isEntryDir invalid (job.cacheDir c) = true :=
  isEntryDir_iff.2 ⟨_, _, _, rfl, not_isHidden_key⟩

theorem Installed.refines (installed : Installed c invalid job metadata before after) :
    entriesOf c invalid after = (entriesOf c invalid before).install (job.cacheDir c) metadata := by
  funext dir
  rw [Entries.install]
  by_cases same : dir = job.cacheDir c
  · rw [same, Function.update_self, entriesOf, if_pos (isEntryDir_cacheDir job), installed.read]
  · rw [Function.update_of_ne same, entriesOf, entriesOf]
    split_ifs with entry
    · exact installed.others dir entry same
    · rfl

/-- What an installation returns has metadata, which is that of its target. -/
theorem Returned.read (returned : Returned c job (after.at_ (job.cacheDir c))) :
    ∃ metadata, readMetadata c after (job.cacheDir c) = some metadata ∧
      metadata.sameTarget job.expected = true := by
  obtain ⟨ι, _, init, w, i, cached, reachable, party, there⟩ := returned
  obtain ⟨final, valid⟩ := (Cache.sound reachable).leased id i job cached party
  obtain ⟨node, bytes, metadata, tree, same, file, parsed, target, -⟩ := valid_entry valid
  obtain rfl := Option.some.inj same
  refine ⟨metadata, ?_, target⟩
  rw [readMetadata, Node.look_append, ← there, final, Option.bind_some, Node.look_cons, file]
  exact parsed

theorem Installed.sameTarget (installed : Installed c invalid job metadata before after) :
    metadata.sameTarget job.expected = true := by
  obtain ⟨found, read, target⟩ := installed.returned.read
  obtain rfl := Option.some.inj (read.symm.trans installed.read)
  exact target

theorem apart_of_opens {agentId : Str} {deleted : List Bytes → Prop}
    (opens : Opens c invalid root agentId)
    (owned : ∀ dir, deleted dir → EntryOf c invalid root agentId dir) :
    Apart root deleted (LockFile c invalid root agentId) :=
  ⟨fun dir hd => dir_of_entryOf (owned dir hd), fun _ => file_of_lockFile opens⟩

theorem replaced_refines {free : List Bytes → Hold → Bool} {removed : Bool}
    (opens : Opens c invalid before job.agentId)
    (pruned : removeReplacedPlatformEntries c invalid free job.agentId job.platform
      (job.cacheDir c) before = (after, .ok removed)) :
    entriesOf c invalid after = (entriesOf c invalid before).without (replaced c job free) := by
  obtain ⟨after', removed', run, cleared, -⟩ := removeCachedEntries_cleared free .skip
    (some (platformCacheKey job.platform)) (some (job.cacheDir c)) opens
  rw [removeReplacedPlatformEntries, run] at pruned
  cases pruned
  refine entriesOf_cleared cleared (apart_of_opens opens fun dir hd => hd.1.1) ?_
  intro dir metadata there
  obtain ⟨entry, platform⟩ := entryOf_iff job.agentId there
  simp [replaced, entry, platform, Acquired, and_assoc, @eq_comm _ (job.cacheDir c)]

theorem uninstall_refines {request : Request} {free : List Bytes → Hold → Bool}
    {run : Run UninstallOutcome} (opens : Opens c invalid before request.agentId)
    (ran : request.uninstallFrom c invalid free before = (after, run)) :
    entriesOf c invalid after = (entriesOf c invalid before).without
      fun _ metadata => metadata.agentId = request.agentId := by
  obtain ⟨after', removed, removal, cleared, -⟩ := removeCachedAgent_cleared free opens
  rw [Request.uninstallFrom, removal] at ran
  cases ran
  refine entriesOf_cleared cleared (apart_of_opens opens fun dir hd => hd) ?_
  intro dir metadata there
  simp [entryOf_iff request.agentId there]

theorem Change.refines (change : Change c invalid before op after) :
    entriesOf c invalid after = op.apply c (entriesOf c invalid before) := by
  cases change with
  | install installed => exact installed.refines
  | update installed opens pruned =>
    rw [replaced_refines opens pruned, installed.refines, Op.apply]
  | uninstall opens ran => exact uninstall_refines opens ran

theorem Changes.refines (history : Changes c invalid root ops after) :
    entriesOf c invalid after = ops.foldl (Op.apply c) (entriesOf c invalid root) := by
  induction history with
  | nil => rfl
  | cons first _ ih => rw [List.foldl_cons, ih, first.refines]

theorem Changes.last {front : List Op} (history : Changes c invalid root (front ++ [op]) after) :
    ∃ middle, Change c invalid middle op after := by
  induction front generalizing root with
  | nil =>
    cases history with
    | cons first rest =>
      cases rest
      exact ⟨root, first⟩
  | cons earlier front ih =>
    cases history with
    | cons first rest => exact ih rest

/-- After an update, its entry is listed, and of the other entries of the agent for the platform
only those in use. -/
theorem update_listed {free : List Bytes → Hold → Bool}
    (change : Change c invalid before (.update job metadata free) after) :
    (∃ agent ∈ listCachedAgents c invalid after, agent.cacheDir = job.cacheDir c ∧
      agent.agentId = job.agentId ∧ agent.agentVersion = job.version ∧
      agent.platform = platformCacheKey job.platform) ∧
    ∀ agent ∈ listCachedAgents c invalid after, agent.agentId = job.agentId →
      agent.platform = platformCacheKey job.platform → agent.cacheDir = job.cacheDir c ∨
        free agent.cacheDir .publication = false ∨ free agent.cacheDir .useWrite = false := by
  have refines := change.refines
  constructor
  · have there : entriesOf c invalid after (job.cacheDir c) = some metadata := by
      simp [refines, Op.apply, Entries.without, Entries.install, replaced]
    refine ⟨_, mem_listCachedAgents_iff.2 ⟨_, metadata, there, rfl⟩, rfl, ?_⟩
    cases change with
    | update installed opens pruned =>
      have target := installed.sameTarget
      simp only [BinaryCacheMetadata.sameTarget, Bool.and_eq_true, decide_eq_true_eq] at target
      exact ⟨target.1.1.1.1.1, target.1.1.1.1.2, target.1.1.1.2⟩
  · intro agent listed named onPlatform
    obtain ⟨dir, metadata', there, rfl⟩ := mem_listCachedAgents_iff.1 listed
    rw [refines, Op.apply, Entries.without, Option.filter_eq_some_iff] at there
    have named : metadata'.agentId = job.agentId := named
    have onPlatform : metadata'.platform = platformCacheKey job.platform := onPlatform
    have kept := there.2
    by_cases same : dir = job.cacheDir c
    · exact .inl same
    · right
      simpa [replaced, named, onPlatform, same] using kept

/-- The cache refines the map: after any history, the inventory lists just the entries of the map
after the same operations. -/
theorem history_listed (history : Changes c invalid root ops after) :
    (∀ agent, agent ∈ listCachedAgents c invalid after ↔ ∃ dir metadata,
      ops.foldl (Op.apply c) (entriesOf c invalid root) dir = some metadata ∧
      agent = ⟨metadata.agentId, metadata.agentVersion, metadata.platform, dir,
        some (joinText metadata.cmd)⟩) ∧
    (∀ front job metadata free, ops = front ++ [.update job metadata free] →
      (∃ agent ∈ listCachedAgents c invalid after, agent.cacheDir = job.cacheDir c ∧
        agent.agentId = job.agentId ∧ agent.agentVersion = job.version ∧
        agent.platform = platformCacheKey job.platform) ∧
      ∀ agent ∈ listCachedAgents c invalid after, agent.agentId = job.agentId →
        agent.platform = platformCacheKey job.platform → agent.cacheDir = job.cacheDir c ∨
          free agent.cacheDir .publication = false ∨ free agent.cacheDir .useWrite = false) ∧
    ∀ front agentId, ops = front ++ [.uninstall agentId] →
      ∀ agent ∈ listCachedAgents c invalid after, agent.agentId ≠ agentId := by
  refine ⟨fun agent => ?_, ?_, ?_⟩
  · rw [← history.refines]
    exact mem_listCachedAgents_iff
  · rintro front job metadata free rfl
    obtain ⟨middle, change⟩ := history.last
    exact update_listed change
  · rintro front agentId rfl agent listed
    obtain ⟨middle, change⟩ := history.last
    obtain ⟨dir, metadata, there, rfl⟩ := mem_listCachedAgents_iff.1 listed
    rw [change.refines, Op.apply, Entries.without, Option.filter_eq_some_iff] at there
    simpa using there.2

end Refinement

namespace Sample

open Installer.Sample (job crates metadata)

theorem installed :
    Installed crates (fun _ => []) job metadata (.dir []) Installer.Sample.root := by
  refine ⟨⟨Unit, inferInstance, _, _, (), _, Cache.reachable_hit (fun _ => none)
    Installer.Sample.parse_digest Installer.Sample.valid_entry, rfl,
    (Node.at_nest _ _).symm⟩, Offline.read, ?_⟩
  intro dir entry other
  obtain ⟨a, p, v, rfl, -⟩ := isEntryDir_iff.1 entry
  have missing : Installer.Sample.root.look [agentsName, a, p, v] = none :=
    Node.look_nest_of_ne _ _ other rfl
  have below : Installer.Sample.root.look ([agentsName, a, p, v] ++ [metadataName]) = none := by
    by_contra there
    simp [Node.look_dir (List.cons_ne_nil _ _) there] at missing
  rw [readMetadata, readMetadata, below]
  rfl

/-- The installation of the sample in an empty cache, and its removal. -/
theorem history : Changes crates (fun _ => []) (.dir [])
    [.install job metadata, .uninstall Offline.request.agentId]
    (Offline.request.uninstallFrom crates (fun _ => []) (fun _ _ => true)
      Installer.Sample.root).1 :=
  .cons (.install installed)
    (.cons (.uninstall (fun _ => Installer.Sample.locksOpen) Prod.mk.eta.symm) .nil)

end Sample

theorem history_listed_sample : ∃ after, Changes Installer.Sample.crates (fun _ => []) (.dir [])
      [.install Installer.Sample.job Installer.Sample.metadata,
        .uninstall Offline.request.agentId] after ∧
    ∀ agent ∈ listCachedAgents Installer.Sample.crates (fun _ => []) after,
      agent.agentId ≠ Offline.request.agentId :=
  ⟨_, Sample.history, (history_listed Sample.history).2.2
    [.install Installer.Sample.job Installer.Sample.metadata] _ rfl⟩

end AcpAgent.Installer.History
