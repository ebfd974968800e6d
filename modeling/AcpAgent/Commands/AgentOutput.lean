import AcpAgent.Installer.Inventory
import AcpAgent.Lib.Layout
import AcpAgent.Lib.Printer
import AcpAgent.Lib.Utf8
import Mathlib.Data.List.Perm.Basic
import Mathlib.Data.Prod.Lex

/-! The listing of installed agents: `installed_agents` of `installer/lifecycle.rs`, for any order
in which the directories of the cache are read, and `write_installed_agents` of
`commands/agent_output.rs`. -/

namespace AcpAgent.Commands

open Installer
open Json (newLine)

/-! ### What is listed -/

/-- `PathBuf::join`, on the bytes of paths. -/
def join (base path : Bytes) : Bytes :=
  if path.head? = some 47 then path
  else if base = [] ∨ base.getLast? = some 47 then base ++ path
  else base ++ 47 :: path

/-- `InstalledAgent`. -/
@[ext]
structure InstalledAgent where
  agentId : Str
  agentVersion : Str
  platform : Str
  cacheDir : Bytes
  executablePath : Bytes
  deriving DecidableEq

/-- The orders in which `read_dir` gives the names in the directories. -/
structure Enumeration (root : Node) where
  names : List Bytes → List Bytes
  perm : ∀ dir, (names dir).Perm (root.readDir dir)

/-- The order in which they are in the tree. -/
def Enumeration.given (root : Node) : Enumeration root := ⟨root.readDir, fun _ => .refl _⟩

section Listed

variable (c : Crates) (rootDir : Bytes) (root : Node)

/-- The record that is made of what `read_cached_agent` finds. -/
def installed (dir : List Bytes) (metadata : BinaryCacheMetadata) : InstalledAgent where
  agentId := metadata.agentId
  agentVersion := metadata.agentVersion
  platform := metadata.platform
  cacheDir := dir.foldl join rootDir
  executablePath := join (join (dir.foldl join rootDir) extractedName) metadata.cmd.bytes

/-- The entries that `list_cached_agents` finds, below the root of the cache. -/
def listEntries (order : Enumeration root) : List (List Bytes × BinaryCacheMetadata) :=
  (order.names [agentsName]).flatMap fun agent =>
    (order.names [agentsName, agent]).flatMap fun platform =>
      (order.names [agentsName, agent, platform]).flatMap fun version =>
        if isHidden Str.fromUtf8Lossy version then []
        else ((readMetadata c root [agentsName, agent, platform, version]).map
          ([agentsName, agent, platform, version], ·)).toList

def installedAgents (order : Enumeration root) : List InstalledAgent :=
  (listEntries c root order).map fun entry => installed rootDir entry.1 entry.2

end Listed

/-! ### What is printed -/

/-- The comparison of `write_installed_agents`. -/
def agentLe (left right : InstalledAgent) : Bool :=
  if left.agentId ≠ right.agentId then decide (left.agentId ≤ right.agentId)
  else if left.agentVersion ≠ right.agentVersion then
    decide (left.agentVersion ≤ right.agentVersion)
  else decide (left.platform ≤ right.platform)

/-- `AgentOutputFormat`. -/
inductive AgentOutputFormat
  | tsv
  | json
  deriving DecidableEq

/-- `Path::display`. -/
def display (path : Bytes) : Str := Str.fromUtf8Lossy path

def tsvLine (agent : InstalledAgent) : Output Str :=
  .write (agent.agentId ++ '\t' :: agent.agentVersion ++ '\t' :: agent.platform ++
    '\t' :: display agent.cacheDir ++ ['\n'])

/-- An array or an object of `serde_json::to_writer_pretty`. -/
def pretty {α : Type} (opening closing : Char) (depth : ℕ) (body : α → Output Str) (l : List α) :
    Output Str :=
  (Output.write [opening]).andThen
    ((Output.items (fun first => (if first then [] else [',']) ++ newLine (depth + 1)) body true
      l).andThen
      (.write ((if l.isEmpty then [] else newLine depth) ++ [closing])))

/-- `Serialize` of a path. -/
def pathJson (path : Bytes) : Output Str :=
  match Str.ofBytes path with
  | some s => .write (Json.quote s)
  | none => .fail (str "path contains invalid UTF-8 characters")

def memberJson (member : Str × Output Str) : Output Str :=
  (Output.write (Json.quote member.1 ++ str ": ")).andThen member.2

/-- `Serialize` of `InstalledAgent`, as an element of an array. -/
def agentJson (agent : InstalledAgent) : Output Str :=
  pretty '{' '}' 1 memberJson
    [(str "id", .write (Json.quote agent.agentId)),
      (str "version", .write (Json.quote agent.agentVersion)),
      (str "platform", .write (Json.quote agent.platform)),
      (str "cache_dir", pathJson agent.cacheDir),
      (str "executable_path", pathJson agent.executablePath)]

def writeInstalledAgents (agents : List InstalledAgent) (format : AgentOutputFormat) : Output Str :=
  let agents := agents.mergeSort agentLe
  match format with
  | .tsv => Output.items (fun _ => []) tsvLine true agents
  | .json =>
    ((pretty '[' ']' 0 agentJson agents).context
      (str "failed to serialize installed agent list: ")).andThen (.write ['\n'])

/-! ### The order of the directories -/

section Order

variable {c : Crates} {rootDir : Bytes} {root : Node} {entry : List Bytes × BinaryCacheMetadata}

theorem mem_listEntries (order : Enumeration root) :
    entry ∈ listEntries c root order ↔ ∃ a p v, a ∈ root.readDir [agentsName] ∧
      p ∈ root.readDir [agentsName, a] ∧ v ∈ root.readDir [agentsName, a, p] ∧
      isHidden Str.fromUtf8Lossy v = false ∧ entry.1 = [agentsName, a, p, v] ∧
      readMetadata c root entry.1 = some entry.2 := by
  simp only [listEntries, List.mem_flatMap, (order.perm _).mem_iff]
  constructor
  · rintro ⟨a, ha, p, hp, v, hv, member⟩
    split_ifs at member with hidden
    · simp at member
    · obtain ⟨metadata, read, rfl⟩ := Option.map_eq_some_iff.mp (Option.mem_toList.mp member)
      exact ⟨a, p, v, ha, hp, hv, by simpa using hidden, rfl, read⟩
  · rintro ⟨a, p, v, ha, hp, hv, hidden, dir, read⟩
    obtain ⟨dir_, metadata⟩ := entry
    obtain rfl : dir_ = [agentsName, a, p, v] := dir
    exact ⟨a, ha, p, hp, v, hv, by simp [hidden, show readMetadata c root _ = _ from read]⟩

/-- The inventory of the cache lists them in the order in which they are in the tree. -/
theorem listCachedAgents_eq (c : Crates) (root : Node) :
    listCachedAgents c Str.fromUtf8Lossy root =
      (listEntries c root (.given root)).map fun entry => ⟨entry.2.agentId, entry.2.agentVersion,
        entry.2.platform, entry.1, some (joinText entry.2.cmd)⟩ := by
  simp only [listCachedAgents, listEntries, Enumeration.given, List.map_flatMap]
  congr! 7 with agent platform version
  split_ifs
  · rfl
  · rw [readCachedAgent]
    cases readMetadata c root [agentsName, agent, platform, version] <;> rfl

/-- Every order gives the same entries. -/
theorem listEntries_perm (order order' : Enumeration root) :
    (listEntries c root order).Perm (listEntries c root order') := by
  have same : ∀ dir, (order.names dir).Perm (order'.names dir) := fun dir =>
    (order.perm dir).trans (order'.perm dir).symm
  exact (same _).flatMap fun agent _ => (same _).flatMap fun platform _ =>
    (same _).flatMap_right _

theorem installedAgents_perm (order order' : Enumeration root) :
    (installedAgents c rootDir root order).Perm (installedAgents c rootDir root order') :=
  (listEntries_perm order order').map _

/-- The order that reads what is on the way to a directory first. -/
def Enumeration.toward (root : Node) (target : List Bytes) : Enumeration root where
  names dir :=
    (root.readDir dir).filter (fun name => (dir ++ [name]).isPrefixOf target) ++
      (root.readDir dir).filter (fun name => !(dir ++ [name]).isPrefixOf target)
  perm _ := List.filter_append_perm _ _

def Enumeration.reverse (order : Enumeration root) : Enumeration root where
  names dir := (order.names dir).reverse
  perm dir := (List.reverse_perm _).trans (order.perm dir)

/-- What meets a predicate that only one element meets. -/
theorem filter_eq_cons {α : Type} {l : List α} {x : α} {p : α → Bool} (there : x ∈ l)
    (only : ∀ y, p y = true ↔ y = x) : ∃ others, l.filter p = x :: others := by
  have member : x ∈ l.filter p := List.mem_filter.mpr ⟨there, (only x).mpr rfl⟩
  obtain ⟨first, others, eq⟩ := List.exists_cons_of_ne_nil (List.ne_nil_of_mem member)
  have here : first ∈ l.filter p := by
    rw [eq]
    exact List.mem_cons_self
  obtain rfl := (only first).mp (List.mem_filter.mp here).2
  exact ⟨others, eq⟩

theorem names_toward (dir rest : List Bytes) {name : Bytes} (there : name ∈ root.readDir dir) :
    ∃ others, (Enumeration.toward root (dir ++ name :: rest)).names dir = name :: others := by
  obtain ⟨others, eq⟩ := filter_eq_cons
    (p := fun other => (dir ++ [other]).isPrefixOf (dir ++ name :: rest)) there fun other => by
      rw [List.isPrefixOf_iff_prefix, List.prefix_append_right_inj]
      simp
  rw [Enumeration.toward]
  dsimp only
  rw [eq]
  exact ⟨_, List.cons_append ..⟩

/-- In some order, an entry comes first. -/
theorem exists_first (order : Enumeration root) (h : entry ∈ listEntries c root order) :
    ∃ order' others, listEntries c root order' = entry :: others := by
  obtain ⟨dir_, metadata⟩ := entry
  obtain ⟨a, p, v, ha, hp, hv, hidden, dir, read⟩ := (mem_listEntries order).mp h
  obtain rfl : dir_ = [agentsName, a, p, v] := dir
  have read : readMetadata c root [agentsName, a, p, v] = some metadata := read
  obtain ⟨as, agents⟩ := names_toward [agentsName] [p, v] ha
  obtain ⟨ps, platforms⟩ := names_toward [agentsName, a] [v] hp
  obtain ⟨vs, versions⟩ := names_toward [agentsName, a, p] [] hv
  refine ⟨Enumeration.toward root [agentsName, a, p, v], ?_⟩
  simp only [List.cons_append, List.nil_append] at agents platforms versions
  rw [listEntries, agents, List.flatMap_cons, platforms, List.flatMap_cons, versions,
    List.flatMap_cons, hidden, read]
  exact ⟨_, rfl⟩

theorem listEntries_reverse (order : Enumeration root) :
    listEntries c root order.reverse = (listEntries c root order).reverse := by
  have one : ∀ (hidden : Bool) (found : Option (List Bytes × BinaryCacheMetadata)),
      (if hidden then [] else found.toList).reverse = if hidden then [] else found.toList := by
    intro hidden found
    cases hidden <;> cases found <;> rfl
  simp only [listEntries, Enumeration.reverse, List.reverse_flatMap, Function.comp_def, one]

theorem installedAgents_reverse (order : Enumeration root) :
    installedAgents c rootDir root order.reverse =
      (installedAgents c rootDir root order).reverse := by
  rw [installedAgents, listEntries_reverse, List.map_reverse, ← installedAgents]

/-- In some order, it comes last. -/
theorem exists_last (order : Enumeration root) (h : entry ∈ listEntries c root order) :
    ∃ order' others, listEntries c root order' = others ++ [entry] := by
  obtain ⟨order', others, eq⟩ := exists_first order h
  exact ⟨order'.reverse, others.reverse, by rw [listEntries_reverse, eq, List.reverse_cons]⟩

end Order

/-! ### Sorting and printing -/

section Printing

/-- What the listing is sorted by. -/
def InstalledAgent.key (agent : InstalledAgent) : Str ×ₗ Str ×ₗ Str :=
  toLex (agent.agentId, toLex (agent.agentVersion, agent.platform))

variable {a b : InstalledAgent} {agents others : List InstalledAgent}

theorem key_eq_iff : a.key = b.key ↔ a.agentId = b.agentId ∧ a.agentVersion = b.agentVersion ∧
    a.platform = b.platform := by
  simp [InstalledAgent.key]

theorem agentLe_iff (left right : InstalledAgent) :
    agentLe left right = true ↔ left.key ≤ right.key := by
  rw [InstalledAgent.key, InstalledAgent.key, Prod.Lex.toLex_le_toLex, Prod.Lex.toLex_le_toLex,
    agentLe]
  by_cases id : left.agentId = right.agentId
  · by_cases version : left.agentVersion = right.agentVersion
    · simp [id, version]
    · simp [id, version, le_iff_lt_or_eq]
  · simp [id, le_iff_lt_or_eq]

/-! The lines of the TSV. -/

theorem tsvLine_error (agent : InstalledAgent) : (tsvLine agent).error = none := rfl

theorem tsvLine_eq_iff (same : a.key = b.key) :
    (tsvLine a).text = (tsvLine b).text ↔ display a.cacheDir = display b.cacheDir := by
  obtain ⟨id, version, platform⟩ := key_eq_iff.mp same
  simp [tsvLine, id, version, platform]

end Printing

/-! ### Records of the JSON -/

section Records

variable {a b : InstalledAgent} {d x : Str}

/-- What is printed of a record before its first path. -/
def agentHead (agent : InstalledAgent) : Str :=
  '{' :: newLine 2 ++ Json.quote (str "id") ++ str ": " ++ Json.quote agent.agentId ++
    ',' :: newLine 2 ++ Json.quote (str "version") ++ str ": " ++ Json.quote agent.agentVersion ++
    ',' :: newLine 2 ++ Json.quote (str "platform") ++ str ": " ++ Json.quote agent.platform ++
    ',' :: newLine 2 ++ Json.quote (str "cache_dir") ++ str ": "

/-- What is printed between its paths. -/
def agentMiddle : Str := ',' :: newLine 2 ++ Json.quote (str "executable_path") ++ str ": "

theorem agentHead_congr (same : a.key = b.key) : agentHead a = agentHead b := by
  obtain ⟨id, version, platform⟩ := key_eq_iff.mp same
  rw [agentHead, agentHead, id, version, platform]

theorem agentJson_none (h : Str.ofBytes a.cacheDir = none) :
    agentJson a = ⟨agentHead a, some (str "path contains invalid UTF-8 characters")⟩ := by
  have path : pathJson a.cacheDir = .fail (str "path contains invalid UTF-8 characters") := by
    rw [pathJson, h]
  rw [agentJson, path]
  simp [pretty, Output.items, memberJson, Output.andThen, Output.write, Output.fail, agentHead]

theorem agentJson_some (hd : Str.ofBytes a.cacheDir = some d)
    (hx : Str.ofBytes a.executablePath = some x) :
    agentJson a = ⟨agentHead a ++ (Json.quote d ++ (agentMiddle ++ (Json.quote x ++
      (newLine 1 ++ ['}'])))), none⟩ := by
  have dir : pathJson a.cacheDir = .write (Json.quote d) := by rw [pathJson, hd]
  have executable : pathJson a.executablePath = .write (Json.quote x) := by rw [pathJson, hx]
  rw [agentJson, dir, executable]
  simp [pretty, Output.items, memberJson, Output.andThen, Output.write, agentHead, agentMiddle]

end Records

/-! ### Paths -/

section Paths

variable {base name : Bytes}

/-- A name of the file system. -/
def Named (name : Bytes) : Prop := name ≠ [] ∧ 47 ∉ name

instance : Decidable (Named name) := inferInstanceAs (Decidable (_ ∧ _))

/-- The names that `read_dir` gives have no separator in them. -/
def PlainNames (root : Node) : Prop := ∀ dir, ∀ name ∈ root.readDir dir, Named name

theorem Named.head (h : Named name) : name.head? ≠ some 47 := fun eq =>
  h.2 (List.mem_of_mem_head? eq)

theorem Named.last (h : Named name) (front : Bytes) : (front ++ name).getLast? ≠ some 47 := by
  rw [List.getLast?_append_of_ne_nil _ h.1]
  exact fun eq => h.2 (List.mem_of_mem_getLast? eq)

theorem Named.join_last (h : Named name) (base : Bytes) :
    join base name ≠ [] ∧ (join base name).getLast? ≠ some 47 := by
  rw [join, if_neg h.head]
  split_ifs
  · exact ⟨List.append_ne_nil_of_right_ne_nil _ h.1, h.last base⟩
  · rw [← List.singleton_append, ← List.append_assoc]
    exact ⟨List.append_ne_nil_of_right_ne_nil _ h.1, h.last (base ++ [47])⟩

theorem Named.count_join (h : Named name) (nonempty : base ≠ []) (open_ : base.getLast? ≠ some 47) :
    (join base name).count 47 = base.count 47 + 1 := by
  rw [join, if_neg h.head, if_neg (not_or.mpr ⟨nonempty, open_⟩), List.count_append,
    List.count_cons_self, List.count_eq_zero.mpr h.2]

theorem plainNames_file (content : Bytes) : PlainNames (.file content) := by
  intro dir name there
  cases dir <;> simp [Node.readDir, Node.at_, Node.child] at there

/-- The names below a directory are those in it and those below what is in it. -/
theorem plainNames_dir {children : List (Bytes × Node)}
    (h : ∀ child ∈ children, Named child.1 ∧ PlainNames child.2) : PlainNames (.dir children) := by
  intro dir name there
  cases dir with
  | nil =>
    obtain ⟨child, member, rfl⟩ := List.mem_map.mp there
    exact (h child member).1
  | cons first rest =>
    rw [Node.readDir, Node.at_, Node.child] at there
    cases found : children.find? (·.1 = first) with
    | none => simp [found] at there
    | some child =>
      rw [found, Option.map_some, Option.bind_some] at there
      exact (h child (List.mem_of_find?_eq_some found)).2 rest name there

theorem named_agents : Named agentsName := by
  decide

/-- All entries are at one depth. -/
theorem count_cacheDir {a p v : Bytes} (ha : Named a) (hp : Named p) (hv : Named v)
    (rootDir : Bytes) :
    (([agentsName, a, p, v] : List Bytes).foldl join rootDir).count 47 =
      (join rootDir agentsName).count 47 + 3 := by
  obtain ⟨n₁, l₁⟩ := named_agents.join_last rootDir
  obtain ⟨n₂, l₂⟩ := ha.join_last (join rootDir agentsName)
  obtain ⟨n₃, l₃⟩ := hp.join_last (join (join rootDir agentsName) a)
  simp only [List.foldl_cons, List.foldl_nil]
  rw [hv.count_join n₃ l₃, hp.count_join n₂ l₂, ha.count_join n₁ l₁]

/-- What is joined to UTF-8 is UTF-8. -/
theorem ofBytes_join {s : Str} (t : Str) (h : Str.ofBytes base = some s) :
    ∃ u, Str.ofBytes (join base t.bytes) = some u := by
  rw [Str.ofBytes_eq_some] at h
  have slash : 47 :: t.bytes = Str.bytes ('/' :: t) := rfl
  unfold join
  split_ifs
  · exact ⟨t, Str.ofBytes_bytes t⟩
  · rw [h, ← Str.bytes_append]
    exact ⟨_, Str.ofBytes_bytes _⟩
  · rw [h, slash, ← Str.bytes_append]
    exact ⟨_, Str.ofBytes_bytes _⟩

end Paths

/-! ### Records of the cache -/

section Cached

variable {c : Crates} {rootDir : Bytes} {root : Node} {agent : InstalledAgent}

/-- The record of an entry in the cache, in whatever order its directories are read. -/
def Cached (c : Crates) (rootDir : Bytes) (root : Node) (agent : InstalledAgent) : Prop :=
  ∃ a p v metadata, isHidden Str.fromUtf8Lossy v = false ∧
    readMetadata c root [agentsName, a, p, v] = some metadata ∧
    agent = installed rootDir [agentsName, a, p, v] metadata

theorem mem_installedAgents (order : Enumeration root) :
    agent ∈ installedAgents c rootDir root order ↔ Cached c rootDir root agent := by
  rw [installedAgents, List.mem_map]
  constructor
  · rintro ⟨⟨dir, metadata⟩, member, rfl⟩
    obtain ⟨a, p, v, -, -, -, hidden, dir, read⟩ := (mem_listEntries order).mp member
    dsimp only at dir read ⊢
    obtain rfl := dir
    exact ⟨a, p, v, metadata, hidden, read, rfl⟩
  · rintro ⟨a, p, v, metadata, hidden, read, rfl⟩
    obtain ⟨ha, hp, hv⟩ := names_of_readMetadata read
    exact ⟨([agentsName, a, p, v], metadata),
      (mem_listEntries order).mpr ⟨a, p, v, ha, hp, hv, hidden, rfl, read⟩, rfl⟩

/-- The record may be the first one. -/
theorem Cached.first (h : Cached c rootDir root agent) :
    ∃ order others, installedAgents c rootDir root order = agent :: others := by
  obtain ⟨entry, member, rfl⟩ := List.mem_map.mp ((mem_installedAgents (.given root)).mpr h)
  obtain ⟨order, others, eq⟩ := exists_first (.given root) member
  exact ⟨order, others.map _, by rw [installedAgents, eq, List.map_cons]⟩

/-- And it may be the last one. -/
theorem Cached.last (h : Cached c rootDir root agent) :
    ∃ order others, installedAgents c rootDir root order = others ++ [agent] := by
  obtain ⟨entry, member, rfl⟩ := List.mem_map.mp ((mem_installedAgents (.given root)).mpr h)
  obtain ⟨order, others, eq⟩ := exists_last (.given root) member
  exact ⟨order, others.map _, by rw [installedAgents, eq, List.map_append, List.map_singleton]⟩

theorem Cached.count (plain : PlainNames root) (h : Cached c rootDir root agent) :
    agent.cacheDir.count 47 = (join rootDir agentsName).count 47 + 3 := by
  obtain ⟨a, p, v, metadata, -, read, rfl⟩ := h
  obtain ⟨ha, hp, hv⟩ := names_of_readMetadata read
  exact count_cacheDir (plain _ a ha) (plain _ p hp) (plain _ v hv) rootDir

/-- The executable has a UTF-8 path if its entry has one. -/
theorem Cached.executable (h : Cached c rootDir root agent) {d : Str}
    (hd : Str.ofBytes agent.cacheDir = some d) :
    ∃ x, Str.ofBytes agent.executablePath = some x := by
  obtain ⟨a, p, v, metadata, -, -, rfl⟩ := h
  obtain ⟨u, hu⟩ := ofBytes_join (str "extracted") hd
  exact ofBytes_join metadata.cmd hu

/-- The JSON of a record fails exactly if the path of its entry is not UTF-8. -/
theorem Cached.error (h : Cached c rootDir root agent) :
    (agentJson agent).error = none ↔ Str.ofBytes agent.cacheDir ≠ none := by
  cases hd : Str.ofBytes agent.cacheDir with
  | none => simp [agentJson_none hd]
  | some d =>
    obtain ⟨x, hx⟩ := h.executable hd
    simp [agentJson_some hd hx]

end Cached

/-! ### The text of the listing -/

section Listing

variable {c : Crates} {rootDir : Bytes} {root : Node} {a b : InstalledAgent}
  {agents others : List InstalledAgent}

/-- The elements of the array. -/
def recordsJson (agents : List InstalledAgent) : Output Str :=
  Output.items (fun first => (if first then [] else [',']) ++ newLine 1) agentJson true
    (agents.mergeSort agentLe)

theorem recordsJson_error (agents : List InstalledAgent) :
    (recordsJson agents).error = none ↔ ∀ agent ∈ agents, (agentJson agent).error = none := by
  simp only [recordsJson, Output.items_error, List.mem_mergeSort]

theorem json_text (agents : List InstalledAgent) :
    (writeInstalledAgents agents .json).text = '[' :: ((recordsJson agents).text ++
      if (recordsJson agents).error = none then
        (if agents.isEmpty then [] else newLine 0) ++ [']', '\n'] else []) := by
  have empty : (agents.mergeSort agentLe).isEmpty = agents.isEmpty :=
    (List.mergeSort_perm agents agentLe).isEmpty_eq
  rw [writeInstalledAgents, pretty, empty, ← recordsJson]
  cases failed : (recordsJson agents).error with
  | none => simp [Output.andThen, Output.context, Output.write, failed]
  | some e => simp [Output.andThen, Output.context, Output.write, failed]

/-- The array ends the same way in any order. -/
theorem json_text_eq_iff (perm : agents.Perm others) :
    (writeInstalledAgents agents .json).text = (writeInstalledAgents others .json).text ↔
      (recordsJson agents).text = (recordsJson others).text := by
  have errors : (recordsJson agents).error = none ↔ (recordsJson others).error = none := by
    simp only [recordsJson_error, perm.mem_iff]
  rw [json_text, json_text, perm.isEmpty_eq, List.cons_inj_right]
  simp only [errors]
  exact List.append_left_inj _

theorem tsv_text (agents : List InstalledAgent) : writeInstalledAgents agents .tsv =
    Output.items (fun _ => []) tsvLine true (agents.mergeSort agentLe) := rfl

/-- The entries of one id, version and platform are displayed alike, and the JSON fails before it
tells them apart, at a path that is not UTF-8. -/
def Separated (c : Crates) (rootDir : Bytes) (root : Node) : Prop :=
  ∀ a b, Cached c rootDir root a → Cached c rootDir root b → a.key = b.key →
    a = b ∨ display a.cacheDir = display b.cacheDir ∧
      ((∃ e, Cached c rootDir root e ∧ e.key < a.key ∧ Str.ofBytes e.cacheDir = none) ∨
        Str.ofBytes a.cacheDir = none ∧ Str.ofBytes b.cacheDir = none)

/-- A sort that is stable leaves two entries of one key as they come. -/
theorem tsv_text_pair (same : a.key = b.key) :
    (writeInstalledAgents [a, b] .tsv).text = (tsvLine a).text ++ (tsvLine b).text := by
  have sorted : [a, b].mergeSort agentLe = [a, b] := by
    refine List.mergeSort_of_pairwise ?_
    simp [agentLe_iff, same]
  rw [tsv_text, sorted]
  simp [Output.items, Output.andThen_ok (tsvLine_error _)]

theorem tsv_text_ne (same : a.key = b.key)
    (lengths : (display a.cacheDir).length = (display b.cacheDir).length)
    (ne : display a.cacheDir ≠ display b.cacheDir) :
    (writeInstalledAgents [a, b] .tsv).text ≠ (writeInstalledAgents [b, a] .tsv).text := by
  intro eq
  have long : (tsvLine a).text.length = (tsvLine b).text.length := by
    obtain ⟨id, version, platform⟩ := key_eq_iff.mp same
    simp [tsvLine, id, version, platform, lengths]
  rw [tsv_text_pair same, tsv_text_pair same.symm] at eq
  exact ne ((tsvLine_eq_iff same).mp (List.append_inj eq long).1)

/-- If all paths are UTF-8, no two entries have the same id, version and platform. -/
theorem separated_iff (utf8 : ∀ a, Cached c rootDir root a → Str.ofBytes a.cacheDir ≠ none) :
    Separated c rootDir root ↔
      ∀ a b, Cached c rootDir root a → Cached c rootDir root b → a.key = b.key → a = b := by
  constructor
  · intro separated a b ha hb same
    rcases separated a b ha hb same with eq | ⟨-, ⟨e, he, -, invalid⟩ | ⟨invalid, -⟩⟩
    · exact eq
    · exact absurd invalid (utf8 e he)
    · exact absurd invalid (utf8 a ha)
  · intro single a b ha hb same
    exact .inl (single a b ha hb same)

/-! The listing does not change if they are. -/

theorem Separated.tsv (h : Separated c rootDir root) (order order' : Enumeration root) :
    writeInstalledAgents (installedAgents c rootDir root order) .tsv =
      writeInstalledAgents (installedAgents c rootDir root order') .tsv := by
  refine Output.items_mergeSort agentLe_iff (installedAgents_perm order order') ?_ true
  intro a ha b hb same _
  rw [mem_installedAgents] at ha hb
  have alike : display a.cacheDir = display b.cacheDir := by
    rcases h a b ha hb same with rfl | ⟨alike, -⟩
    · rfl
    · exact alike
  exact Output.ext ((tsvLine_eq_iff same).mpr alike) rfl

theorem Separated.recordsJson (h : Separated c rootDir root) (order order' : Enumeration root) :
    recordsJson (installedAgents c rootDir root order) =
      recordsJson (installedAgents c rootDir root order') := by
  refine Output.items_mergeSort agentLe_iff (installedAgents_perm order order') ?_ true
  intro a ha b hb same smaller
  rw [mem_installedAgents] at ha hb
  rcases h a b ha hb same with rfl | ⟨-, ⟨e, he, less, invalid⟩ | ⟨invalid, invalid'⟩⟩
  · rfl
  · -- The JSON has failed before.
    have ok := smaller e ((mem_installedAgents order).mpr he) less
    exact absurd invalid (he.error.mp ok)
  · rw [agentJson_none invalid, agentJson_none invalid', agentHead_congr same]

theorem Separated.text (h : Separated c rootDir root) (order order' : Enumeration root)
    (format : AgentOutputFormat) :
    (writeInstalledAgents (installedAgents c rootDir root order) format).text =
      (writeInstalledAgents (installedAgents c rootDir root order') format).text := by
  cases format with
  | tsv => rw [h.tsv order order']
  | json => rw [json_text_eq_iff (installedAgents_perm order order'), h.recordsJson order order']

/-! And it does if they are not. -/

theorem count_tsvLine (same : a.key = b.key)
    (depth : a.cacheDir.count 47 = b.cacheDir.count 47) :
    (tsvLine a).text.count '/' = (tsvLine b).text.count '/' := by
  obtain ⟨id, version, platform⟩ := key_eq_iff.mp same
  have dirs : (display a.cacheDir).count '/' = (display b.cacheDir).count '/' := by
    rw [display, display, Str.count_fromUtf8Lossy, Str.count_fromUtf8Lossy, depth]
  simp [tsvLine, id, version, platform, dirs]

/-- The lines of two entries of one key may each be the first and the last of that key. -/
theorem display_eq_of_stable (plain : PlainNames root)
    (stable : ∀ order order',
      (writeInstalledAgents (installedAgents c rootDir root order) .tsv).text =
        (writeInstalledAgents (installedAgents c rootDir root order') .tsv).text)
    (ha : Cached c rootDir root a) (hb : Cached c rootDir root b) (same : a.key = b.key) :
    display a.cacheDir = display b.cacheDir := by
  have ok : ∀ e, (tsvLine e).error = none := tsvLine_error
  obtain ⟨order₁, others₁, first₁⟩ := ha.first
  obtain ⟨order₂, others₂, first₂⟩ := hb.first
  obtain ⟨order₃, others₃, last₃⟩ := ha.last
  obtain ⟨order₄, others₄, last₄⟩ := hb.last
  have first := stable order₁ order₂
  have last := stable order₃ order₄
  rw [first₁, first₂] at first
  rw [last₃, last₄] at last
  have perm : List.Perm (installedAgents c rootDir root order₁) _ :=
    installedAgents_perm order₁ order₂
  have perm' : List.Perm (installedAgents c rootDir root order₃) _ :=
    installedAgents_perm order₃ order₄
  rw [first₁, first₂] at perm
  rw [last₃, last₄] at perm'
  obtain ⟨r, r', begins, -, -⟩ :=
    Output.firsts_of_eq agentLe_iff perm same (fun e _ _ => ok e) first
  obtain ⟨s, s', ends⟩ := Output.lasts_of_eq agentLe_iff perm' same ok last
  have depth := ha.count plain
  have count := count_tsvLine same (depth.trans (hb.count plain).symm)
  have there : '/' ∈ (tsvLine a).text := by
    have dir : '/' ∈ display a.cacheDir := by
      rw [← List.count_pos_iff, display, Str.count_fromUtf8Lossy, depth]
      omega
    simp [tsvLine, dir]
  exact (tsvLine_eq_iff same).mp (Output.eq_of_ends there count begins ends)

/-- If the JSON gets to them, it shows both their paths. -/
theorem agentJson_eq_of_prefix (ha : Cached c rootDir root a) (hb : Cached c rootDir root b)
    (same : a.key = b.key) {r r' : Str} (eq : (agentJson a).text ++ r = (agentJson b).text ++ r')
    (failed : (agentJson a).error ≠ none → r = [])
    (failed' : (agentJson b).error ≠ none → r' = []) :
    a = b ∨ Str.ofBytes a.cacheDir = none ∧ Str.ofBytes b.cacheDir = none := by
  cases da : Str.ofBytes a.cacheDir with
  | none =>
    cases db : Str.ofBytes b.cacheDir with
    | none => exact .inr ⟨rfl, rfl⟩
    | some d =>
      obtain ⟨x, hx⟩ := hb.executable db
      rw [failed fun ok => ha.error.mp ok da, agentJson_none da, agentJson_some db hx,
        agentHead_congr same, List.append_assoc, List.append_cancel_left_eq] at eq
      simp [Json.quote] at eq
  | some d =>
    obtain ⟨x, hx⟩ := ha.executable da
    cases db : Str.ofBytes b.cacheDir with
    | none =>
      rw [failed' fun ok => hb.error.mp ok db, agentJson_none db, agentJson_some da hx,
        agentHead_congr same, List.append_assoc, List.append_cancel_left_eq] at eq
      simp [Json.quote] at eq
    | some d' =>
      obtain ⟨x', hx'⟩ := hb.executable db
      rw [agentJson_some da hx, agentJson_some db hx', agentHead_congr same] at eq
      simp only [List.append_assoc, List.append_cancel_left_eq] at eq
      obtain ⟨rfl, rest⟩ := Json.quote_append_inj eq
      obtain ⟨rfl, -⟩ := Json.quote_append_inj (List.append_cancel_left rest)
      have dirs : a.cacheDir = b.cacheDir := by
        rw [Str.ofBytes_eq_some.mp da, Str.ofBytes_eq_some.mp db]
      have executables : a.executablePath = b.executablePath := by
        rw [Str.ofBytes_eq_some.mp hx, Str.ofBytes_eq_some.mp hx']
      obtain ⟨id, version, platform⟩ := key_eq_iff.mp same
      exact .inl (InstalledAgent.ext id version platform dirs executables)

theorem invalid_of_stable
    (stable : ∀ order order',
      (writeInstalledAgents (installedAgents c rootDir root order) .json).text =
        (writeInstalledAgents (installedAgents c rootDir root order') .json).text)
    (ha : Cached c rootDir root a) (hb : Cached c rootDir root b) (same : a.key = b.key)
    (smaller : ∀ e, Cached c rootDir root e → e.key < a.key → Str.ofBytes e.cacheDir ≠ none) :
    a = b ∨ Str.ofBytes a.cacheDir = none ∧ Str.ofBytes b.cacheDir = none := by
  obtain ⟨order, others, first⟩ := ha.first
  obtain ⟨order', others', first'⟩ := hb.first
  have perm : List.Perm (installedAgents c rootDir root order) _ :=
    installedAgents_perm order order'
  have text := (json_text_eq_iff perm).mp (stable order order')
  have ok : ∀ e ∈ a :: others, e.key < a.key → (agentJson e).error = none := by
    intro e he less
    rw [← first, mem_installedAgents] at he
    exact he.error.mpr (smaller e he less)
  rw [first, first'] at perm text
  obtain ⟨r, r', begins, failed, failed'⟩ := Output.firsts_of_eq agentLe_iff perm same ok text
  exact agentJson_eq_of_prefix ha hb same begins failed failed'

/-- The listing is the same in all orders exactly if no two entries of one id, version and platform
can be told apart by what is printed of them. -/
theorem listing_stable_iff (plain : PlainNames root) :
    (∀ order order' format,
      (writeInstalledAgents (installedAgents c rootDir root order) format).text =
        (writeInstalledAgents (installedAgents c rootDir root order') format).text) ↔
      Separated c rootDir root := by
  constructor
  · intro stable a b ha hb same
    have alike := display_eq_of_stable plain (fun order order' => stable order order' .tsv)
      ha hb same
    by_cases smaller : ∀ e, Cached c rootDir root e → e.key < a.key → Str.ofBytes e.cacheDir ≠ none
    · rcases invalid_of_stable (fun order order' => stable order order' .json) ha hb same smaller
        with eq | invalid
      · exact .inl eq
      · exact .inr ⟨alike, .inr invalid⟩
    · simp only [not_forall, not_not] at smaller
      obtain ⟨e, he, less, invalid⟩ := smaller
      exact .inr ⟨alike, .inl ⟨e, he, less, invalid⟩⟩
  · intro separated order order' format
    exact separated.text order order' format

end Listing

/-! ### Two archives of one version -/

namespace Rebuilt

def digest : Str := str "2cf24dba5fb0a30e26e83b2ac5b9e29e1b161e5c1fa7425e73043362938b9824"

def payloadDigest : Str := str "e66158fa210a40f29c7b07738aea7eb3b1f3f65670339127d6ce406ff9c854f0"

def archive : Bytes := (str "hello").bytes

def tree : Node := .dir [((str "agent").bytes, .file archive)]

def metadata : BinaryCacheMetadata :=
  { Sample.job.expected with
    sha256 := some digest, executableSha256 := some digest, payloadSha256 := some payloadDigest }

/-- The metadata file for an archive and a payload. -/
def json (digest payloadDigest : Str) : Bytes :=
  Str.bytes (str "\x7b
  \"agent_id\": \"demo\",
  \"agent_version\": \"1.0.0\",
  \"platform\": \"linux-x86_64\",
  \"archive\": \"https://example.com/agent\",
  \"cmd\": \"agent\",
  \"sha256\": \"" ++ (digest ++ (str "\",
  \"executable_sha256\": \"" ++ digest ++ str "\",
  \"payload_sha256\": \"" ++ payloadDigest ++ str "\"
\x7d")))

def crates : Crates :=
  { Sample.crates with
    fromSlice := fun bytes =>
      if bytes = json Sample.digest Sample.payloadDigest then some Sample.metadata
      else if bytes = json digest payloadDigest then some metadata
      else none }

def key : Str := str "1.0.0-sha256-" ++ digest

def older : Node :=
  stagedEntry (str "agent").bytes Sample.archive Sample.tree
    (json Sample.digest Sample.payloadDigest)

def newer : Node := stagedEntry (str "agent").bytes archive tree (json digest payloadDigest)

/-- The cache after the archive of the version was replaced and installed again. -/
def root : Node :=
  .dir [(agentsName, .dir [((str "demo").bytes, .dir [((str "linux-x86_64").bytes, .dir
    [(Sample.key.bytes, older), (key.bytes, newer)])])])]

def rootDir : Bytes := (str "/home/demo/.cache/acp-agent").bytes

def dir (version : Str) : List Bytes :=
  [agentsName, (str "demo").bytes, (str "linux-x86_64").bytes, version.bytes]

theorem digest_ne : digest ≠ Sample.digest := by
  decide +kernel

theorem json_ne : json digest payloadDigest ≠ json Sample.digest Sample.payloadDigest := by
  intro same
  have text := List.append_cancel_left (Str.bytes_injective same)
  exact digest_ne (List.append_inj text (by decide +kernel)).1

theorem key_ne : key ≠ Sample.key := by
  intro same
  exact digest_ne (List.append_cancel_left same)

theorem read_older : readMetadata crates root (dir Sample.key) = some Sample.metadata := by
  have found : root.at_ (dir Sample.key) = some older := by
    simp [root, dir, Node.at_, Node.child]
  rw [readMetadata, Node.look_append, found, Option.bind_some, Node.look_cons, older,
    child_stagedEntry_metadata]
  simp [Node.look_nil, Node.shape, crates]

theorem read_newer : readMetadata crates root (dir key) = some metadata := by
  have other : Sample.key.bytes ≠ key.bytes := fun same =>
    key_ne (Str.bytes_injective same).symm
  have found : root.at_ (dir key) = some newer := by
    simp [root, dir, Node.at_, Node.child, other]
  rw [readMetadata, Node.look_append, found, Option.bind_some, Node.look_cons, newer,
    child_stagedEntry_metadata]
  simp [Node.look_nil, Node.shape, crates, json_ne]

theorem listed : installedAgents crates rootDir root (.given root) =
    [installed rootDir (dir Sample.key) Sample.metadata, installed rootDir (dir key) metadata] := by
  have agents : root.readDir [agentsName] = [(str "demo").bytes] := by
    simp [root, Node.readDir, Node.at_, Node.child]
  have platforms : root.readDir [agentsName, (str "demo").bytes] =
      [(str "linux-x86_64").bytes] := by
    simp [root, Node.readDir, Node.at_, Node.child]
  have versions : root.readDir [agentsName, (str "demo").bytes, (str "linux-x86_64").bytes] =
      [Sample.key.bytes, key.bytes] := by
    simp [root, Node.readDir, Node.at_, Node.child]
  have older := read_older
  have newer := read_newer
  have shown : isHidden Str.fromUtf8Lossy Sample.key.bytes = false := by
    rw [isHidden, toStringLossy_bytes]
    rfl
  have shown' : isHidden Str.fromUtf8Lossy key.bytes = false := by
    rw [isHidden, toStringLossy_bytes]
    rfl
  rw [dir] at older newer
  simp [installedAgents, listEntries, Enumeration.given, agents, platforms, versions, shown, shown',
    older, newer, dir]

theorem named_older : Named Sample.key.bytes := by
  decide +kernel

theorem named_newer : Named key.bytes := by
  decide +kernel

theorem named_agent : Named (str "agent").bytes := by
  decide

theorem plain_entry (archive json : Bytes) {tree : Node} (h : PlainNames tree) :
    PlainNames (stagedEntry (str "agent").bytes archive tree json) := by
  have children : stagedEntry (str "agent").bytes archive tree json =
      .dir [(metadataName, .file json), (extractedName, tree),
        ((str "agent").bytes, .file archive)] := rfl
  have metadataFile : Named metadataName := by decide
  have extracted : Named extractedName := by decide
  rw [children]
  refine plainNames_dir (List.forall_mem_cons.mpr ⟨⟨metadataFile, plainNames_file json⟩, ?_⟩)
  refine List.forall_mem_cons.mpr ⟨⟨extracted, h⟩, ?_⟩
  exact List.forall_mem_singleton.mpr ⟨named_agent, plainNames_file archive⟩

theorem plain_tree (archive : Bytes) :
    PlainNames (.dir [((str "agent").bytes, .file archive)]) :=
  plainNames_dir (List.forall_mem_singleton.mpr ⟨named_agent, plainNames_file archive⟩)

theorem plain : PlainNames root := by
  have plainOlder : PlainNames older := plain_entry _ _ (plain_tree Sample.archive)
  have plainNewer : PlainNames newer := plain_entry _ _ (plain_tree archive)
  refine plainNames_dir (List.forall_mem_singleton.mpr ⟨by decide, ?_⟩)
  refine plainNames_dir (List.forall_mem_singleton.mpr ⟨by decide, ?_⟩)
  refine plainNames_dir (List.forall_mem_singleton.mpr ⟨by decide, ?_⟩)
  refine plainNames_dir (List.forall_mem_cons.mpr ⟨⟨named_older, plainOlder⟩, ?_⟩)
  exact List.forall_mem_singleton.mpr ⟨named_newer, plainNewer⟩

theorem same_key : (installed rootDir (dir Sample.key) Sample.metadata).key =
    (installed rootDir (dir key) metadata).key := by
  simp only [InstalledAgent.key, installed, metadata, Sample.metadata]

theorem display_dir {version : Str} (named : Named version.bytes) :
    display ((dir version).foldl join rootDir) =
      str "/home/demo/.cache/acp-agent/agents/demo/linux-x86_64/" ++ version := by
  have platform : ([agentsName, (str "demo").bytes, (str "linux-x86_64").bytes] :
      List Bytes).foldl join rootDir =
        (str "/home/demo/.cache/acp-agent/agents/demo/linux-x86_64").bytes := by
    decide +kernel
  have parts : dir version =
      [agentsName, (str "demo").bytes, (str "linux-x86_64").bytes] ++ [version.bytes] := rfl
  have whole : (dir version).foldl join rootDir = Str.bytes
      (str "/home/demo/.cache/acp-agent/agents/demo/linux-x86_64/" ++ version) := by
    rw [parts, List.foldl_append, platform, List.foldl_cons, List.foldl_nil, join,
      if_neg named.head, if_neg (by decide +kernel)]
    rw [Str.bytes_append, ← List.singleton_append, ← List.append_assoc]
    rfl
  rw [whole, display, Str.fromUtf8Lossy_bytes]

end Rebuilt

/-- Two archives of one version are listed in the order in which they are read. -/
theorem listing_rebuilt :
    (writeInstalledAgents (installedAgents Rebuilt.crates Rebuilt.rootDir Rebuilt.root
        (.given Rebuilt.root)) .tsv).text ≠
      (writeInstalledAgents (installedAgents Rebuilt.crates Rebuilt.rootDir Rebuilt.root
        (Enumeration.given Rebuilt.root).reverse) .tsv).text := by
  have lengths : Sample.key.length = Rebuilt.key.length := by decide +kernel
  rw [installedAgents_reverse, Rebuilt.listed, List.reverse_cons, List.reverse_singleton,
    List.singleton_append]
  refine tsv_text_ne Rebuilt.same_key ?_ ?_
  · rw [installed, installed, Rebuilt.display_dir Rebuilt.named_older,
      Rebuilt.display_dir Rebuilt.named_newer,
      List.length_append, List.length_append, lengths]
  · rw [installed, installed, Rebuilt.display_dir Rebuilt.named_older,
      Rebuilt.display_dir Rebuilt.named_newer]
    intro same
    exact Rebuilt.key_ne (List.append_cancel_left same).symm

theorem listing_stable_iff_rebuilt :
    (∀ order order' format,
      (writeInstalledAgents (installedAgents Rebuilt.crates Rebuilt.rootDir Rebuilt.root order)
          format).text =
        (writeInstalledAgents (installedAgents Rebuilt.crates Rebuilt.rootDir Rebuilt.root order')
          format).text) ↔
      Separated Rebuilt.crates Rebuilt.rootDir Rebuilt.root :=
  listing_stable_iff Rebuilt.plain

end AcpAgent.Commands
