import AcpAgent.Catalog.Registry
import AcpAgent.Commands.AgentOutput

/-! The published agents: `list` and `search` of `commands/mod.rs`, from the payload of the registry
to what `write_registry_agents` of `commands/agent_output.rs` prints. -/

namespace AcpAgent.Commands

open Catalog
open Installer (Bytes)

/-- `fetch_registry`, of the bytes of the response. -/
def fetchRegistry (source : Source) (fetched : Except Str Bytes) : Except Str Registry :=
  match fetched with
  | .ok bytes => fromSlice source bytes
  | .error error => .error (str "failed to fetch registry payload: " ++ error)

/-- The comparison of `write_registry_agents`. -/
def registryLe (left right : RegistryAgent) : Bool :=
  if Str.lower left.name ≠ Str.lower right.name then
    decide (Str.lower left.name ≤ Str.lower right.name)
  else decide (left.id ≤ right.id)

def registryLine (agent : RegistryAgent) : Str :=
  agent.name ++ '\t' :: agent.id ++ '\t' :: agent.description ++ ['\n']

def writeRegistryAgents (agents : List RegistryAgent) (format : AgentOutputFormat) : Output Str :=
  let agents := agents.mergeSort registryLe
  match format with
  | .tsv => Output.items (fun _ => []) (fun agent => .write (registryLine agent)) true agents
  | .json => .write (Json.pretty (.array (agents.map Catalog.agentJson)) ++ ['\n'])

section Commands

variable (source : Source) (fetched : Except Str Bytes) (format : AgentOutputFormat)

/-- `list`, of the published agents. -/
def listCommand : Output Str :=
  let failed := str "failed to list registry agents: "
  match fetchRegistry source fetched with
  | .ok registry => (writeRegistryAgents registry.agents format).context failed
  | .error error => .fail (failed ++ error)

def searchCommand (query : Str) : Output Str :=
  let failed := str "failed to search registry agents for \"" ++ query ++ str "\": "
  match fetchRegistry source fetched with
  | .ok registry => (writeRegistryAgents (registry.searchAgents query) format).context failed
  | .error error => .fail (failed ++ error)

end Commands

/-! ### What is searched for -/

/-- A field of the agent has the query in it, but for the case and for blanks around the query. -/
def Matches (query : Str) (agent : RegistryAgent) : Prop :=
  ∃ field ∈ [agent.id, agent.name, agent.description], Str.lower query.trim <:+: Str.lower field

instance (query : Str) (agent : RegistryAgent) : Decidable (Matches query agent) :=
  inferInstanceAs (Decidable (∃ field ∈ _, _))

theorem searchAgents_eq (registry : Registry) (query : Str) :
    registry.searchAgents query = registry.agents.filter (Matches query ·) := by
  rw [Registry.searchAgents]
  split_ifs with empty
  · have nothing : Str.lower query.trim = [] := List.isEmpty_iff.mp empty
    refine (List.filter_eq_self.mpr fun agent _ => ?_).symm
    exact decide_eq_true ⟨agent.id, List.mem_cons_self, nothing ▸ List.nil_infix⟩
  · refine List.filter_congr fun agent _ => ?_
    rw [Bool.eq_iff_iff, List.any_eq_true, decide_eq_true_iff, Matches]
    simp only [Str.contains_iff]

/-- What the listing is sorted by. -/
def nameKey (agent : RegistryAgent) : Str ×ₗ Str := toLex (Str.lower agent.name, agent.id)

theorem registryLe_iff (left right : RegistryAgent) :
    registryLe left right = true ↔ nameKey left ≤ nameKey right := by
  rw [nameKey, nameKey, Prod.Lex.toLex_le_toLex, registryLe]
  by_cases name : Str.lower left.name = Str.lower right.name
  · simp [name]
  · simp [name, le_iff_lt_or_eq]

/-! ### What is printed -/

/-- What a reader makes of the JSON. -/
def readAgents (text : Str) : Option (List RegistryAgent) :=
  (Json.parse text).bind (Serde.asArray agentOf)

theorem readAgents_pretty {agents : List RegistryAgent}
    (ordered : ∀ agent ∈ agents, DistributionOrdered agent.distribution) :
    readAgents (Json.pretty (.array (agents.map Catalog.agentJson)) ++ ['\n']) = some agents := by
  rw [readAgents, Json.parse_pretty, Option.bind_some]
  exact Serde.asArray_map_of_mem fun agent member => agentOf_members (ordered agent member)

theorem items_lines (first : Bool) (agents : List RegistryAgent) :
    (Output.items (fun _ => []) (fun agent => .write (registryLine agent)) first agents :
      Output Str) = .write (agents.flatMap registryLine) := by
  induction agents generalizing first with
  | nil => rfl
  | cons agent agents ih =>
    rw [Output.items, ih, List.flatMap_cons]
    rfl

theorem searchCommand_of_accepted {source : Source} {payload : Bytes} {registry : Registry}
    (accepted : fromSlice source payload = .ok registry) (query : Str)
    (format : AgentOutputFormat) :
    searchCommand source (.ok payload) format query =
      .write (match format with
        | .tsv => ((registry.searchAgents query).mergeSort registryLe).flatMap registryLine
        | .json => Json.pretty (.array (((registry.searchAgents query).mergeSort registryLe).map
            Catalog.agentJson)) ++ ['\n']) := by
  have fetched : fetchRegistry source (.ok payload) = .ok registry := accepted
  rw [searchCommand, fetched]
  cases format with
  | tsv =>
    dsimp only [writeRegistryAgents]
    rw [items_lines]
    rfl
  | json => rfl

/-- Of a payload that is accepted, the search prints the agents with the query in one of their
fields, in the order of their names and with all that the payload says of them: the JSON is read
back as these agents and the TSV has a line for each.  In what order the payload has agents of
different names makes no difference. -/
theorem search_output {source : Source} {payload : Bytes} {registry : Registry}
    (accepted : fromSlice source payload = .ok registry) (query : Str) :
    ∃ agents : List RegistryAgent,
      agents.Perm (registry.agents.filter (Matches query ·)) ∧
      agents.Pairwise (nameKey · ≤ nameKey ·) ∧
      (∀ key, agents.filter (nameKey · = key) =
        (registry.agents.filter (Matches query ·)).filter (nameKey · = key)) ∧
      (∃ text, searchCommand source (.ok payload) .json query = .write text ∧
        readAgents text = some agents) ∧
      searchCommand source (.ok payload) .tsv query = .write (agents.flatMap registryLine) ∧
      ∀ (payload' : Bytes) (registry' : Registry), fromSlice source payload' = .ok registry' →
        registry'.agents.Perm registry.agents → (agents.map nameKey).Nodup →
        ∀ format, searchCommand source (.ok payload') format query =
          searchCommand source (.ok payload) format query := by
  have wellFormed := wellFormed_of_fromSlice source accepted
  have sorted := List.mergeSort_perm (registry.searchAgents query) registryLe
  have found := searchAgents_eq registry query
  refine ⟨(registry.searchAgents query).mergeSort registryLe, found ▸ sorted,
    SortedBy.pairwise_mergeSort registryLe_iff _, fun key => ?_, ⟨_,
      searchCommand_of_accepted accepted query .json, readAgents_pretty fun agent member => ?_⟩,
    searchCommand_of_accepted accepted query .tsv,
    fun payload' registry' accepted' perm different format => ?_⟩
  · rw [← found]
    convert SortedBy.filter_mergeSort registryLe_iff (registry.searchAgents query) key
  · have listed : agent ∈ registry.searchAgents query := sorted.mem_iff.mp member
    rw [found] at listed
    exact wellFormed.ordered agent (List.mem_of_mem_filter listed)
  · have same : (registry'.searchAgents query).mergeSort registryLe =
        (registry.searchAgents query).mergeSort registryLe := by
      symm
      refine SortedBy.mergeSort_congr registryLe_iff _ ?_ ((sorted.map nameKey).nodup_iff.mp different)
      rw [found, searchAgents_eq]
      exact perm.symm.filter _
    rw [searchCommand_of_accepted accepted', searchCommand_of_accepted accepted, same]

theorem search_output_sample : ∃ agents : List RegistryAgent,
    (∃ text, searchCommand Sample.plain
      (.ok (Str.bytes (Json.pretty (registryJson Sample.registry)))) .json (str " CROW") =
        .write text ∧ readAgents text = some agents) ∧
      agents.Perm [Sample.agent] := by
  have accepted := fromSlice_registryJson Sample.plain Sample.wellFormed Json.prettyLayout
  obtain ⟨agents, perm, -, -, printed, -⟩ := search_output accepted (str " CROW")
  exact ⟨agents, printed, perm⟩

/-- The list is the search for nothing. -/
theorem listCommand_eq {source : Source} {payload : Bytes} {registry : Registry}
    (accepted : fromSlice source payload = .ok registry) {query : Str} (blank : query.trim = [])
    (format : AgentOutputFormat) :
    listCommand source (.ok payload) format = searchCommand source (.ok payload) format query := by
  have fetched : fetchRegistry source (.ok payload) = .ok registry := accepted
  have all : registry.searchAgents query = registry.agents := by
    rw [Registry.searchAgents, blank]
    rfl
  rw [searchCommand_of_accepted accepted, all, listCommand, fetched]
  cases format with
  | tsv =>
    dsimp only [writeRegistryAgents]
    rw [items_lines]
    rfl
  | json => rfl

end AcpAgent.Commands
