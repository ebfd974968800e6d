import AcpAgent.Installer.Archive
import AcpAgent.Installer.Cache
import AcpAgent.Installer.Directory

/-! What `list_cached_agents` of `installer/cache.rs` finds in the cache, and the executable that it
names beside the one that an installation returns. -/

namespace AcpAgent.Installer

open FileSystem (Component)

/-- `AGENTS_DIR`. -/
def agentsName : Bytes := (str "agents").bytes

/-- `to_string_lossy`; what it makes of a name that is not UTF-8 is left open. -/
def toStringLossy (invalid : Bytes → Str) (name : Bytes) : Str :=
  (Str.ofBytes name).getD (invalid name)

@[simp] theorem toStringLossy_bytes (invalid : Bytes → Str) (s : Str) :
    toStringLossy invalid s.bytes = s := by
  rw [toStringLossy, Str.ofBytes_bytes, Option.getD_some]

/-- What `join` of a text makes: components behind those of the directory, or instead of them. -/
inductive Joined
  | below (path : List (Component Str))
  | absolute (path : List (Component Str))
  deriving DecidableEq

/-- The components of a text behind other components, where only a `..` is special. -/
def innerComponents (text : Str) : List (Component Str) := (Str.split '/' text).flatMap componentOf

def joinText (text : Str) : Joined :=
  if text.head? = some '/' then .absolute (components text) else .below (innerComponents text)

/-- Paths are below the root of the cache, the executable below `extracted`. -/
structure CachedAgent where
  agentId : Str
  agentVersion : Str
  platform : Str
  cacheDir : List Bytes
  executablePath : Option Joined

section Inventory

variable (c : Crates) (invalid : Bytes → Str) (root : Node)

/-- The metadata of an entry, if it can be read and parsed. -/
def readMetadata (cacheDir : List Bytes) : Option BinaryCacheMetadata :=
  match root.look (cacheDir ++ [metadataName]) with
  | some (.file bytes) => c.fromSlice bytes
  | _ => none

def readCachedAgent (cacheDir : List Bytes) : Option CachedAgent := do
  let metadata ← readMetadata c root cacheDir
  return {
    agentId := metadata.agentId
    agentVersion := metadata.agentVersion
    platform := metadata.platform
    cacheDir
    executablePath := some (joinText metadata.cmd) }

def isHidden (name : Bytes) : Bool := (toStringLossy invalid name).head? = some '.'

def listCachedAgents : List CachedAgent :=
  (root.readDir [agentsName]).flatMap fun agent =>
    (root.readDir [agentsName, agent]).flatMap fun platform =>
      (root.readDir [agentsName, agent, platform]).flatMap fun version =>
        if isHidden invalid version then []
        else (readCachedAgent c root [agentsName, agent, platform, version]).toList

end Inventory

/-- The executable that an installation returns, `resolve_cmd_path`. -/
def Job.executablePath (job : Job) : Option Joined :=
  (resolveCmdPath job.cmd).map fun names => .below (names.map .name)

/-- Where an installation puts the entry. -/
def Job.cacheDir (c : Crates) (job : Job) : List Bytes :=
  [agentsName, (safePathComponent c.sha256 job.agentId).bytes,
    (platformCacheKey job.platform).bytes, (job.key c).bytes]

/-! ### What the inventory lists -/

section Listed

variable {c : Crates} {invalid : Bytes → Str} {root : Node} {agent : CachedAgent}

theorem readCachedAgent_eq_some {cacheDir : List Bytes} :
    readCachedAgent c root cacheDir = some agent ↔
      ∃ metadata, readMetadata c root cacheDir = some metadata ∧
        agent = ⟨metadata.agentId, metadata.agentVersion, metadata.platform, cacheDir,
          some (joinText metadata.cmd)⟩ := by
  unfold readCachedAgent
  cases readMetadata c root cacheDir <;> simp [eq_comm]

theorem cacheDir_of_read {cacheDir : List Bytes}
    (h : readCachedAgent c root cacheDir = some agent) :
    agent.cacheDir = cacheDir := by
  obtain ⟨metadata, -, rfl⟩ := readCachedAgent_eq_some.mp h
  rfl

/-- What has metadata in it is a directory. -/
theorem look_of_readMetadata {cacheDir : List Bytes} {metadata : BinaryCacheMetadata}
    (h : readMetadata c root cacheDir = some metadata) : root.look cacheDir = some .dir := by
  unfold readMetadata at h
  apply Node.look_dir (List.cons_ne_nil metadataName [])
  intro missing
  simp [missing] at h

/-- The directories above it name it. -/
theorem names_of_readMetadata {a p v : Bytes} {metadata : BinaryCacheMetadata}
    (read : readMetadata c root [agentsName, a, p, v] = some metadata) :
    a ∈ root.readDir [agentsName] ∧ p ∈ root.readDir [agentsName, a] ∧
      v ∈ root.readDir [agentsName, a, p] := by
  have there : root.look ([agentsName, a, p] ++ [v]) ≠ none := by
    simp [look_of_readMetadata read]
  have platform : root.look ([agentsName, a] ++ [p]) ≠ none := by
    have dir := Node.look_dir (by simp) there
    simp [dir]
  have agent : root.look ([agentsName] ++ [a]) ≠ none := by
    have dir := Node.look_dir (by simp) platform
    simp [dir]
  exact ⟨Node.mem_readDir.mpr agent, Node.mem_readDir.mpr platform, Node.mem_readDir.mpr there⟩

/-- Every entry whose metadata can be read is listed, wherever it is. -/
theorem mem_listCachedAgents :
    agent ∈ listCachedAgents c invalid root ↔
      ∃ a p v, isHidden invalid v = false ∧
        readCachedAgent c root [agentsName, a, p, v] = some agent := by
  simp only [listCachedAgents, List.mem_flatMap]
  constructor
  · rintro ⟨a, -, p, -, v, -, member⟩
    split_ifs at member with hidden
    · simp at member
    · exact ⟨a, p, v, by simpa using hidden, by simpa using member⟩
  · rintro ⟨a, p, v, hidden, read⟩
    obtain ⟨metadata, parsed, -⟩ := readCachedAgent_eq_some.mp read
    obtain ⟨ha, hp, hv⟩ := names_of_readMetadata parsed
    refine ⟨a, ha, p, hp, v, hv, ?_⟩
    simp [hidden, read]

end Listed

/-! ### Two readings of a command -/

section Commands

variable {s : Str} {c : Char}

/-- The number of characters in the names of a path. -/
def nameChars (path : List (Component Str)) : ℕ := ((normalNames path).map List.length).sum

theorem nameChars_append (path rest : List (Component Str)) :
    nameChars (path ++ rest) = nameChars path + nameChars rest := by
  simp [nameChars, normalNames]

theorem nameChars_componentOf_le (part : Str) : nameChars (componentOf part) ≤ part.length := by
  unfold componentOf
  split_ifs <;> simp [nameChars, normalNames]

/-- A part with a blank in it is a name. -/
theorem nameChars_componentOf {part : Str} (member : c ∈ part) (blank : Str.isWhitespace c = true) :
    nameChars (componentOf part) = part.length := by
  have other : c ≠ '.' := by
    rintro rfl
    exact absurd blank (by decide)
  have solid (dots : Str) (only : dots.all (· = '.') = true) : part ≠ dots := by
    rintro rfl
    exact other (by simpa using List.all_eq_true.mp only c member)
  simp [componentOf, solid [] rfl, solid (str ".") (by decide), solid (str "..") (by decide),
    nameChars, normalNames]

theorem slash_of_blank (blank : Str.isWhitespace c = true) : c ≠ '/' := by
  rintro rfl
  exact absurd blank (by decide)

theorem nameChars_cons (blank : Str.isWhitespace c = true) :
    nameChars (innerComponents s) < nameChars (innerComponents (c :: s)) := by
  obtain ⟨part, parts, split, longer⟩ := Str.split_cons (s := s) (slash_of_blank blank)
  have grown : nameChars (componentOf (c :: part)) = (c :: part).length :=
    nameChars_componentOf List.mem_cons_self blank
  have least := nameChars_componentOf_le part
  rw [List.length_cons] at grown
  simp only [innerComponents, split, longer, List.flatMap_cons, nameChars_append]
  omega

theorem nameChars_concat (blank : Str.isWhitespace c = true) :
    nameChars (innerComponents s) < nameChars (innerComponents (s ++ [c])) := by
  obtain ⟨before, part, split, longer⟩ := Str.split_concat (s := s) (slash_of_blank blank)
  have grown : nameChars (componentOf (part ++ [c])) = (part ++ [c]).length :=
    nameChars_componentOf (by simp) blank
  have least := nameChars_componentOf_le part
  rw [List.length_append, List.length_singleton] at grown
  simp only [innerComponents, split, longer, List.flatMap_append, List.flatMap_singleton,
    nameChars_append]
  omega

/-- Blanks around a command make its names longer. -/
theorem nameChars_blanks {front back : Str} (before : front.all Str.isWhitespace = true)
    (behind : back.all Str.isWhitespace = true) :
    nameChars (innerComponents s) + front.length + back.length ≤
      nameChars (innerComponents (front ++ s ++ back)) := by
  induction front with
  | nil =>
    rw [List.nil_append]
    induction back using List.reverseRecOn with
    | nil => simp
    | append_singleton back c ih =>
      rw [List.all_append, Bool.and_eq_true] at behind
      have grown := nameChars_concat (s := s ++ back) (c := c) (by simpa using behind.2)
      have rest := ih behind.1
      rw [← List.append_assoc, List.length_append, List.length_singleton]
      simp only [List.length_nil] at rest ⊢
      omega
  | cons c front ih =>
    rw [List.all_cons, Bool.and_eq_true] at before
    have grown := nameChars_cons (s := front ++ s ++ back) before.1
    have rest := ih before.2
    rw [List.cons_append, List.cons_append, List.length_cons]
    omega

theorem normalNames_append (path rest : List (Component Str)) :
    normalNames (path ++ rest) = normalNames path ++ normalNames rest :=
  List.filterMap_append

/-- Parts that do not lead upwards are names or nothing. -/
theorem names_of_inner {parts : List Str} (inner : Component.up ∉ parts.flatMap componentOf) :
    parts.flatMap componentOf = (normalNames (parts.flatMap componentOf)).map .name := by
  induction parts with
  | nil => rfl
  | cons part parts ih =>
    rw [List.flatMap_cons, List.mem_append, not_or] at inner
    have first : componentOf part = (normalNames (componentOf part)).map .name := by
      unfold componentOf at inner ⊢
      split_ifs at inner ⊢ <;> simp_all [normalNames]
    rw [List.flatMap_cons, normalNames_append, List.map_append, ← first, ← ih inner.2]

/-- What `resolve_cmd_path` accepts says the same behind the extraction directory. -/
theorem joinText_of_inner {text : Str}
    (inner : ((components text).any fun c => c = .up || c = .root) = false) :
    joinText text = .below ((normalNames (components text)).map .name) := by
  obtain ⟨first, rest, split⟩ := Str.exists_split '/' text
  have relative : ¬(first = [] ∧ rest ≠ []) := by
    intro absolute
    simp [components, split, if_pos absolute] at inner
  have head : text.head? ≠ some '/' := by
    intro slash
    obtain ⟨text, rfl⟩ := List.head?_eq_some_iff.mp slash
    obtain ⟨next, rest', more⟩ := Str.exists_split '/' text
    rw [Str.split, if_pos rfl, more] at split
    obtain ⟨rfl, rfl⟩ := List.cons.inj split
    exact relative ⟨rfl, List.cons_ne_nil _ _⟩
  have up : Component.up ∉ innerComponents text := by
    intro member
    rw [List.any_eq_false] at inner
    refine inner .up ?_ rfl
    rw [innerComponents, split] at member
    simp only [components, split, if_neg relative]
    by_cases dot : first = str "."
    · simpa [dot, componentOf] using member
    · simpa [dot] using member
  have names : normalNames (components text) = normalNames (innerComponents text) := by
    simp only [components, innerComponents, split, if_neg relative, List.flatMap_cons,
      normalNames_append]
    split_ifs with dot
    · simp [dot, componentOf, normalNames]
    · rfl
  rw [joinText, if_neg head, names]
  exact congrArg Joined.below (names_of_inner up)

theorem inner_of_joinText {text : Str} {path : List (Component Str)}
    (h : joinText text = .below path) : innerComponents text = path := by
  unfold joinText at h
  split_ifs at h
  exact Joined.below.inj h

/-- The two readings of an accepted command agree exactly if there are no blanks around it. -/
theorem joinText_iff {cmd : Str} {names : List Str} (accepted : resolveCmdPath cmd = some names) :
    joinText cmd = .below (names.map .name) ↔ cmd = Str.trim cmd := by
  unfold resolveCmdPath at accepted
  dsimp only at accepted
  split_ifs at accepted with outer
  obtain rfl := Option.some.inj accepted
  have trimmed := joinText_of_inner (Bool.eq_false_of_not_eq_true outer)
  constructor
  · intro same
    obtain ⟨front, back, before, behind, whole⟩ := Str.trim_blanks cmd
    have grown := nameChars_blanks (s := Str.trim cmd) before behind
    rw [← whole, inner_of_joinText same, inner_of_joinText trimmed] at grown
    have none_before : front = [] := List.length_eq_zero_iff.mp (by omega)
    have none_behind : back = [] := List.length_eq_zero_iff.mp (by omega)
    rw [none_before, none_behind, List.nil_append, List.append_nil] at whole
    exact whole
  · intro same
    rw [← same] at trimmed ⊢
    exact trimmed

end Commands

/-! ### The executable of an installation -/

section Installed

variable {c : Crates} {invalid : Bytes → Str} {root : Node} {job : Job}

theorem not_isHidden_key : isHidden invalid (job.key c).bytes = false := by
  rw [isHidden, toStringLossy_bytes, decide_eq_false_iff_not]
  exact (plain_key c job).head

/-- An entry that passes the validation is listed with the command of the target. -/
theorem listed_of_published {disk : Disk} {cached : Node} (published : Published c job disk cached)
    (at_ : root.at_ (job.cacheDir c) = disk.final) :
    ∃ agent ∈ listCachedAgents c invalid root, agent.cacheDir = job.cacheDir c ∧
      agent.executablePath = some (joinText job.cmd) := by
  obtain ⟨final, valid⟩ := published
  obtain ⟨node, bytes, metadata, tree, same, file, parsed, target, -⟩ := valid_entry valid
  obtain rfl := Option.some.inj same
  have read : readMetadata c root (job.cacheDir c) = some metadata := by
    have there : root.look (job.cacheDir c ++ [metadataName]) = some (.file bytes) := by
      rw [Node.look_append, at_, final, Option.bind_some, Node.look_cons, file]
      rfl
    rw [readMetadata, there]
    exact parsed
  have cmd : metadata.cmd = job.cmd := by
    simp only [BinaryCacheMetadata.sameTarget, Bool.and_eq_true, decide_eq_true_eq] at target
    exact target.1.2
  have entry := readCachedAgent_eq_some.mpr ⟨metadata, read, rfl⟩
  exact ⟨_, mem_listCachedAgents.mpr ⟨_, _, _, not_isHidden_key, entry⟩, rfl, by rw [cmd]⟩

theorem cacheDir_injOn {a b : CachedAgent} (ha : a ∈ listCachedAgents c invalid root)
    (hb : b ∈ listCachedAgents c invalid root) (same : a.cacheDir = b.cacheDir) : a = b := by
  obtain ⟨_, _, _, -, first⟩ := mem_listCachedAgents.mp ha
  obtain ⟨_, _, _, -, second⟩ := mem_listCachedAgents.mp hb
  rw [← cacheDir_of_read first, same] at first
  rw [← cacheDir_of_read second, first] at second
  exact Option.some.inj second

variable {ι : Type*} [DecidableEq ι]

/-- While an installation has its lease, the inventory lists its entry, and with the executable that
the installation returned exactly if there are no blanks around the command. -/
theorem inventory_executable_iff {init : Disk → Prop} {w : Cache ι}
    (h : (cacheSystem c (job.key c) False init).Reachable w) {i : ι} {cached : Node}
    (returned : w.party i = .install job (.returned cached))
    (at_ : root.at_ (job.cacheDir c) = w.disk.final) {path : Joined}
    (executable : job.executablePath = some path) :
    (∃ agent ∈ listCachedAgents c invalid root, agent.cacheDir = job.cacheDir c) ∧
      ((∀ agent ∈ listCachedAgents c invalid root, agent.cacheDir = job.cacheDir c →
          agent.executablePath = some path) ↔ job.cmd = Str.trim job.cmd) := by
  have published := (Cache.sound h).leased id i job cached returned
  obtain ⟨agent, listed, dir, joined⟩ := listed_of_published published at_
  obtain ⟨names, accepted, rfl⟩ := Option.map_eq_some_iff.mp executable
  refine ⟨⟨agent, listed, dir⟩, ?_⟩
  rw [← joinText_iff accepted]
  constructor
  · intro all
    have same := all agent listed dir
    rw [joined] at same
    exact Option.some.inj same
  · intro same other member there
    rw [cacheDir_injOn member listed (there.trans dir.symm), joined, same]

end Installed

/-! The sample entry, and one whose command has a blank behind it. -/

/-- A tree that has only this at a path. -/
def Node.nest : List Bytes → Node → Node
  | [], node => node
  | name :: path, node => .dir [(name, node.nest path)]

theorem Node.at_nest (path : List Bytes) (node : Node) : (node.nest path).at_ path = some node := by
  induction path with
  | nil => rfl
  | cons name path ih => simp [nest, at_, child, ih]

/-- At that depth, it has nothing else. -/
theorem Node.look_nest_of_ne (path : List Bytes) (node : Node) {query : List Bytes}
    (other : query ≠ path) (depth : query.length = path.length) :
    (node.nest path).look query = none := by
  induction path generalizing query with
  | nil => exact absurd (List.length_eq_zero_iff.mp depth) other
  | cons name path ih =>
    obtain ⟨first, rest, rfl⟩ := List.exists_cons_of_length_eq_add_one depth
    rw [look_cons, nest, child]
    by_cases same : name = first
    · subst same
      have other' : rest ≠ path := fun h => other (by rw [h])
      simpa using ih other' (by simpa using depth)
    · simp [same]

/-- The inventory names the executable that the installation of the sample returned. -/
theorem inventory_executable_sample :
    (∃ agent ∈ listCachedAgents Sample.crates (fun _ => [])
        (Sample.entry.nest (Sample.job.cacheDir Sample.crates)),
        agent.cacheDir = Sample.job.cacheDir Sample.crates) ∧
      ((∀ agent ∈ listCachedAgents Sample.crates (fun _ => [])
          (Sample.entry.nest (Sample.job.cacheDir Sample.crates)),
          agent.cacheDir = Sample.job.cacheDir Sample.crates →
          agent.executablePath = some (.below [.name (str "agent")])) ↔
        Sample.job.cmd = Str.trim Sample.job.cmd) :=
  inventory_executable_iff (i := ())
    (Cache.reachable_hit (fun _ => none) Sample.parse_digest Sample.valid_entry) rfl
    (Node.at_nest _ _) (by decide)

namespace Spaced

def job : Job := { Sample.job with cmd := str "agent " }

def metadata : BinaryCacheMetadata := { Sample.metadata with cmd := str "agent " }

def json : Bytes := (str "\x7b").bytes ++ (str "
  \"agent_id\": \"demo\",
  \"agent_version\": \"1.0.0\",
  \"platform\": \"linux-x86_64\",
  \"archive\": \"https://example.com/agent\",
  \"cmd\": \"agent \",
  \"sha256\": \"8f434346648f6b96df89dda901c5176b10a6d83961dd3c1ac88b59b2dc327aa4\",
  \"executable_sha256\": \"8f434346648f6b96df89dda901c5176b10a6d83961dd3c1ac88b59b2dc327aa4\",
  \"payload_sha256\": \"527a0bb15c7e8521d814bcbf7876cbda5be5aabec7208effb4952186ff096837\"
\x7d").bytes

/-- The executable is where `resolve_cmd_path` puts it. -/
def crates : Crates :=
  { Sample.crates with
    fromSlice := fun bytes => if bytes = json then some metadata else none
    toVecPretty := fun m => if m = metadata then json else []
    executable := fun tree cmd => do
      let names ← resolveCmdPath cmd
      match tree.at_ (names.map Str.bytes) with
      | some (.file bytes) => some bytes
      | _ => none }

def entry : Node := stagedEntry (str "agent").bytes Sample.archive Sample.tree json

theorem valid_entry : validateCachedBinary crates job.expected (some entry) = .valid := by
  have hashes : crates.hash = Sample.crates.hash := by
    funext bytes
    rw [Crates.hash, Crates.hash]
    rfl
  have recorded : job.metadata crates Sample.tree Sample.archive = metadata := by
    have payload := Sample.hashPayload_tree
    rw [Crates.hashPayload, ← hashes] at payload
    rw [Job.metadata, Crates.hashPayload, payload, hashes, Sample.hash_archive]
    rfl
  have written : crates.toVecPretty metadata = json := by simp only [crates, if_true]
  have parses : crates.fromSlice json = some metadata := by simp only [crates, if_true]
  rw [← written, ← recorded] at parses
  rw [entry, ← written, ← recorded]
  exact valid_stagedEntry (by decide +kernel) parses

end Spaced

/-- The inventory names a file that is not there. -/
theorem inventory_executable_spaced :
    ∃ w : Cache Unit,
      (cacheSystem Spaced.crates (Spaced.job.key Spaced.crates) False fun _ => True).Reachable w ∧
      w.party () = .install Spaced.job (.returned Spaced.entry) ∧
      (Spaced.entry.nest (Spaced.job.cacheDir Spaced.crates)).at_
        (Spaced.job.cacheDir Spaced.crates) = w.disk.final ∧
      Spaced.job.executablePath = some (.below [.name (str "agent")]) ∧
      ∃ agent ∈ listCachedAgents Spaced.crates (fun _ => [])
        (Spaced.entry.nest (Spaced.job.cacheDir Spaced.crates)),
        agent.cacheDir = Spaced.job.cacheDir Spaced.crates ∧
        agent.executablePath = some (.below [.name (str "agent ")]) := by
  have parses : parseSha256 Spaced.job.digest = _ := Sample.parse_digest
  have reached := Cache.reachable_hit (fun _ => none) parses Spaced.valid_entry
  have published := (Cache.sound reached).leased id () Spaced.job Spaced.entry rfl
  refine ⟨_, reached, rfl, Node.at_nest _ _, by decide, ?_⟩
  exact listed_of_published published (Node.at_nest _ _)

end AcpAgent.Installer
