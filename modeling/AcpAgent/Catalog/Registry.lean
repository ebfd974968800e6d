import AcpAgent.Lib.Except
import AcpAgent.Lib.Layout
import AcpAgent.Lib.Serde
import AcpAgent.Runner.Command

/-! The catalog of agents, `registry.rs`: its JSON, with the validation that the decoding of a payload
ends with, and the searches in it. -/

namespace AcpAgent.Catalog

open Serde Runner

/-- `RegistryAgent`, of which the runner uses the id, the version and the distribution. -/
structure RegistryAgent where
  id : Str
  name : Str
  version : Str
  description : Str
  repository : Option Str
  website : Option Str
  authors : List Str
  license : Str
  icon : Option Str
  distribution : AgentDistribution

structure Registry where
  version : Str
  agents : List RegistryAgent
  extensions : Option (List Json)

/-! ### JSON -/

section Codec

def environmentJson (env : Environment) : Json :=
  .object (env.map fun entry => (entry.1, .string entry.2))

def argsJson (args : List Str) : Json := .array (args.map .string)

def binaryTargetMembers (target : BinaryTarget) : Members :=
  [(str "archive", .string target.archive), (str "cmd", .string target.cmd)] ++
    skipNone (str "sha256") .string target.sha256 ++ skipNone (str "args") argsJson target.args ++
    skipNone (str "env") environmentJson target.env

def binaryTargetOf : Json → Option BinaryTarget :=
  asStruct [str "archive", str "cmd", str "sha256", str "args", str "env"] 2 fun members => do
    some {
      archive := ← required (str "archive") asString members
      cmd := ← required (str "cmd") asString members
      sha256 := ← nullable (str "sha256") asString members
      args := ← nullable (str "args") (asArray asString) members
      env := ← nullable (str "env") (asMap asString) members }

def binaryTargetJson (target : BinaryTarget) : Json := .object (binaryTargetMembers target)

def binaryDistributionMembers (d : BinaryDistribution) : Members :=
  skipNone (str "darwin-aarch64") binaryTargetJson d.darwinAarch64 ++
    skipNone (str "darwin-x86_64") binaryTargetJson d.darwinX86_64 ++
    skipNone (str "linux-aarch64") binaryTargetJson d.linuxAarch64 ++
    skipNone (str "linux-x86_64") binaryTargetJson d.linuxX86_64

def binaryDistributionOf : Json → Option BinaryDistribution :=
  asStruct [str "darwin-aarch64", str "darwin-x86_64", str "linux-aarch64",
      str "linux-x86_64"] 0 fun members => do
    some {
      darwinAarch64 := ← nullable (str "darwin-aarch64") binaryTargetOf members
      darwinX86_64 := ← nullable (str "darwin-x86_64") binaryTargetOf members
      linuxAarch64 := ← nullable (str "linux-aarch64") binaryTargetOf members
      linuxX86_64 := ← nullable (str "linux-x86_64") binaryTargetOf members }

def packageDistributionMembers (d : PackageDistribution) : Members :=
  [(str "package", .string d.package)] ++ skipNone (str "args") argsJson d.args ++
    skipNone (str "env") environmentJson d.env

def packageDistributionOf : Json → Option PackageDistribution :=
  asStruct [str "package", str "args", str "env"] 1 fun members => do
    some {
      package := ← required (str "package") asString members
      args := ← nullable (str "args") (asArray asString) members
      env := ← nullable (str "env") (asMap asString) members }

def packageDistributionJson (d : PackageDistribution) : Json :=
  .object (packageDistributionMembers d)

def agentDistributionMembers (d : AgentDistribution) : Members :=
  skipNone (str "binary") (fun d => .object (binaryDistributionMembers d)) d.binary ++
    skipNone (str "npx") packageDistributionJson d.npx ++
    skipNone (str "uvx") packageDistributionJson d.uvx

def agentDistributionOf : Json → Option AgentDistribution :=
  asStruct [str "binary", str "npx", str "uvx"] 0 fun members => do
    some {
      binary := ← nullable (str "binary") binaryDistributionOf members
      npx := ← nullable (str "npx") packageDistributionOf members
      uvx := ← nullable (str "uvx") packageDistributionOf members }

def agentMembers (agent : RegistryAgent) : Members :=
  [(str "id", .string agent.id), (str "name", .string agent.name),
    (str "version", .string agent.version), (str "description", .string agent.description)] ++
    skipNone (str "repository") .string agent.repository ++
    skipNone (str "website") .string agent.website ++
    [(str "authors", .array (agent.authors.map .string)), (str "license", .string agent.license)] ++
    skipNone (str "icon") .string agent.icon ++
    [(str "distribution", .object (agentDistributionMembers agent.distribution))]

def agentJson (agent : RegistryAgent) : Json := .object (agentMembers agent)

def agentOf : Json → Option RegistryAgent :=
  asStruct [str "id", str "name", str "version", str "description", str "repository", str "website",
      str "authors", str "license", str "icon", str "distribution"] 10 fun members => do
    some {
      id := ← required (str "id") asString members
      name := ← required (str "name") asString members
      version := ← required (str "version") asString members
      description := ← required (str "description") asString members
      repository := ← nullable (str "repository") asString members
      website := ← nullable (str "website") asString members
      authors := ← required (str "authors") (asArray asString) members
      license := ← required (str "license") asString members
      icon := ← nullable (str "icon") asString members
      distribution := ← required (str "distribution") agentDistributionOf members }

def registryJson (registry : Registry) : Json :=
  .object ([(str "version", .string registry.version),
    (str "agents", .array (registry.agents.map agentJson))] ++
    skipNone (str "extensions") .array registry.extensions)

/-- The parser allows 127 levels, of which the registry and its list are two. -/
def asExtension (float : Str → Option Json.Decimal) : Json → Option Json := asValue float 125

def registryOf (float : Str → Option Json.Decimal) : Json → Option Registry :=
  asStruct [str "version", str "agents", str "extensions"] 2 fun members => do
    some {
      version := ← required (str "version") asString members
      agents := ← required (str "agents") (asArray agentOf) members
      extensions := ← nullable (str "extensions") (asArray (asExtension float)) members }

end Codec

/-! ### Decoding -/

def registryUrl (variable_ : Option Str) : Str :=
  match variable_ with
  | some url =>
    if !Str.isBlank url then url
    else str "https://cdn.agentclientprotocol.com/registry/v1/latest/registry.json"
  | none => str "https://cdn.agentclientprotocol.com/registry/v1/latest/registry.json"

/-- What decoding needs of its surroundings: the environment variable with the URL, if it is set to
Unicode text, how `serde_json` writes a number that it has read as an `f64`, and what it says of a
payload that is not a registry. -/
structure Source where
  variable_ : Option Str
  float : Str → Option Json.Decimal
  reason : List UInt8 → Str

section Decoding

variable (source : Source)

def registryDecodeError (reason : Str) : Str :=
  str "failed to decode registry payload from " ++ registryUrl source.variable_ ++ str ": " ++ reason

def hasDistributionSource (d : AgentDistribution) : Bool :=
  d.binary.isSome || d.npx.isSome || d.uvx.isSome

def validateDistribution (d : AgentDistribution) (path : Str) : Except Str Unit :=
  if hasDistributionSource d then .ok ()
  else .error (registryDecodeError source
    (path ++ str ".distribution must contain at least one of binary, npx, or uvx"))

/-- `validate`, from an index on. -/
def validateFrom (index : ℕ) : List RegistryAgent → Except Str Unit
  | [] => .ok ()
  | agent :: agents => do
    validateDistribution source agent.distribution
      (str "agents[" ++ Nat.toDigits 10 index ++ str "]")
    validateFrom (index + 1) agents

def validate (registry : Registry) : Except Str Unit := validateFrom source 0 registry.agents

def fromSlice (input : List UInt8) : Except Str Registry :=
  match (Json.fromSlice input).bind (registryOf source.float) with
  | some registry => do
    validate source registry
    return registry
  | none => .error (registryDecodeError source (source.reason input))

end Decoding

/-! ### Queries -/

namespace Registry

variable (registry : Registry)

def findAgent (agentId : Str) : Option RegistryAgent := registry.agents.find? (·.id = agentId)

def searchAgents (query : Str) : List RegistryAgent :=
  let needle := Str.lower query.trim
  if needle.isEmpty then registry.agents
  else registry.agents.filter fun agent =>
    [agent.id, agent.name, agent.description].any fun value => (Str.lower value).contains needle

end Registry

/-- What the runner gets to see of an agent. -/
def RegistryAgent.runner (agent : RegistryAgent) : Runner.RegistryAgent :=
  ⟨agent.id, agent.version, agent.distribution⟩

/-- The runner finds the agent that the catalog finds. -/
theorem findAgent_runner (registry : Registry) (agentId : Str) :
    Host.findAgent (registry.agents.map RegistryAgent.runner) agentId =
      (registry.findAgent agentId).map RegistryAgent.runner := by
  rw [Host.findAgent, List.find?_map]
  rfl

/-! ### What is encoded is decoded -/

section RoundTrip

/-- The environment variables are in the order of their names. -/
def EnvOrdered (env : Option Environment) : Prop := ∀ map ∈ env, Ordered map

def BinaryDistribution.targets (d : BinaryDistribution) : List BinaryTarget :=
  d.darwinAarch64.toList ++ d.darwinX86_64.toList ++ d.linuxAarch64.toList ++ d.linuxX86_64.toList

/-- All that is a `BTreeMap` in the distribution of an agent. -/
structure DistributionOrdered (d : AgentDistribution) : Prop where
  binary : ∀ b ∈ d.binary, ∀ target ∈ BinaryDistribution.targets b, EnvOrdered target.env
  npx : ∀ package ∈ d.npx, EnvOrdered package.env
  uvx : ∀ package ∈ d.uvx, EnvOrdered package.env

theorem envOf_json {env : Environment} (ordered : Ordered env) :
    asMap asString (.object (env.map fun entry => (entry.1, .string entry.2))) = some env :=
  asMap_map asString_string ordered

theorem binaryTargetOf_members {target : BinaryTarget} (ordered : EnvOrdered target.env) :
    binaryTargetOf (.object (binaryTargetMembers target)) = some target := by
  obtain ⟨archive, cmd, sha256, args, env⟩ := target
  rw [binaryTargetOf, asStruct_object]
  cases env with
  | none =>
    cases sha256 <;> cases args <;>
      simp +decide [binaryTargetMembers, required, nullable, skipNone, lookup,
        argsJson]
  | some env =>
    have env_ := envOf_json (ordered env rfl)
    cases sha256 <;> cases args <;>
      simp +decide [binaryTargetMembers, required, nullable, skipNone, lookup,
        argsJson, environmentJson, env_]

theorem packageDistributionOf_members {d : PackageDistribution} (ordered : EnvOrdered d.env) :
    packageDistributionOf (.object (packageDistributionMembers d)) = some d := by
  obtain ⟨package, args, env⟩ := d
  rw [packageDistributionOf, asStruct_object]
  cases env with
  | none =>
    cases args <;>
      simp +decide [packageDistributionMembers, required, nullable, skipNone,
        lookup, argsJson]
  | some env =>
    have env_ := envOf_json (ordered env rfl)
    cases args <;>
      simp +decide [packageDistributionMembers, required, nullable, skipNone,
        lookup, argsJson, environmentJson, env_]

theorem binaryDistributionOf_members {d : BinaryDistribution}
    (ordered : ∀ target ∈ BinaryDistribution.targets d, EnvOrdered target.env) :
    binaryDistributionOf (.object (binaryDistributionMembers d)) = some d := by
  obtain ⟨darwinArm, darwin, linuxArm, linux⟩ := d
  have read : ∀ target ∈ darwinArm.toList ++ darwin.toList ++ linuxArm.toList ++ linux.toList,
      binaryTargetOf (.object (binaryTargetMembers target)) = some target :=
    fun target member => binaryTargetOf_members (ordered target member)
  rw [binaryDistributionOf, asStruct_object]
  cases darwinArm <;> cases darwin <;> cases linuxArm <;> cases linux <;>
    simp at read <;>
    simp +decide [binaryDistributionMembers, nullable, skipNone, lookup,
      binaryTargetJson, read]

theorem agentDistributionOf_members {d : AgentDistribution} (ordered : DistributionOrdered d) :
    agentDistributionOf (.object (agentDistributionMembers d)) = some d := by
  obtain ⟨binary, npx, uvx⟩ := d
  have binary_ : ∀ d ∈ binary,
      binaryDistributionOf (.object (binaryDistributionMembers d)) = some d :=
    fun d member => binaryDistributionOf_members (ordered.binary d member)
  have npx_ : ∀ d ∈ npx, packageDistributionOf (.object (packageDistributionMembers d)) = some d :=
    fun d member => packageDistributionOf_members (ordered.npx d member)
  have uvx_ : ∀ d ∈ uvx, packageDistributionOf (.object (packageDistributionMembers d)) = some d :=
    fun d member => packageDistributionOf_members (ordered.uvx d member)
  rw [agentDistributionOf, asStruct_object]
  cases binary <;> cases npx <;> cases uvx <;>
    simp at binary_ npx_ uvx_ <;>
    simp +decide [agentDistributionMembers, nullable, skipNone, lookup,
      packageDistributionJson, binary_, npx_, uvx_]

theorem agentOf_members {agent : RegistryAgent}
    (ordered : DistributionOrdered agent.distribution) :
    agentOf (.object (agentMembers agent)) = some agent := by
  obtain ⟨id, name, version, description, repository, website, authors, license, icon, d⟩ := agent
  have d_ : agentDistributionOf (.object (agentDistributionMembers d)) = some d :=
    agentDistributionOf_members ordered
  rw [agentOf, asStruct_object]
  cases repository <;> cases website <;> cases icon <;>
    simp +decide [agentMembers, required, nullable, skipNone, lookup, d_]

/-- A catalog that can be decoded: all that is a `BTreeMap` is in order, and each extension is a
`Value`, with such numbers, and nested no deeper than the parser allows. -/
structure Registry.WellFormed (P : Json.Decimal → Prop) (registry : Registry) : Prop where
  ordered : ∀ agent ∈ registry.agents, DistributionOrdered agent.distribution
  values : ∀ extensions ∈ registry.extensions, ∀ extension ∈ extensions,
    IsValue P extension ∧ depth extension ≤ 125

theorem registryOf_json {float : Str → Option Json.Decimal} {registry : Registry}
    (wellFormed : registry.WellFormed fun d => float d.text = some d) :
    registryOf float (registryJson registry) = some registry := by
  obtain ⟨version, agents, extensions⟩ := registry
  have agents_ : asArray agentOf (.array (agents.map agentJson)) = some agents :=
    asArray_map_of_mem fun agent member => agentOf_members (wellFormed.ordered agent member)
  have extensions_ : ∀ items ∈ extensions,
      asArray (asExtension float) (.array items) = some items := by
    intro items there
    have read : asArray (asExtension float) (.array (items.map id)) = some items :=
      asArray_map_of_mem fun item member =>
        asValue_of_isValue (wellFormed.values items there item member).1
          (wellFormed.values items there item member).2
    rwa [List.map_id] at read
  cases extensions with
  | none => simp +decide [registryOf, registryJson, required, nullable, skipNone, lookup, agents_]
  | some items =>
    simp +decide [registryOf, registryJson, required, nullable, skipNone, lookup, agents_,
      extensions_ items rfl]

end RoundTrip

/-! ### What is decoded is well formed -/

section Decoded

theorem ordered_of_env {members : Members} {env : Option Environment}
    (h : nullable (str "env") (asMap asString) members = some env) : EnvOrdered env :=
  of_nullable (fun _ _ read => ordered_of_asMap read) h

theorem ordered_of_binaryTarget {json : Json} {target : BinaryTarget}
    (h : binaryTargetOf json = some target) : EnvOrdered target.env := by
  refine of_asStruct (P := fun target => EnvOrdered target.env) (fun members target h => ?_) h
  obtain ⟨_, -, h⟩ := Option.bind_eq_some_iff.mp h
  obtain ⟨_, -, h⟩ := Option.bind_eq_some_iff.mp h
  obtain ⟨_, -, h⟩ := Option.bind_eq_some_iff.mp h
  obtain ⟨_, -, h⟩ := Option.bind_eq_some_iff.mp h
  obtain ⟨env, env_, h⟩ := Option.bind_eq_some_iff.mp h
  cases h
  exact ordered_of_env env_

theorem ordered_of_binaryDistribution {json : Json} {d : BinaryDistribution}
    (h : binaryDistributionOf json = some d) :
    ∀ target ∈ BinaryDistribution.targets d, EnvOrdered target.env := by
  have read : ∀ json target, binaryTargetOf json = some target → EnvOrdered target.env :=
    fun _ _ => ordered_of_binaryTarget
  refine of_asStruct (P := fun d => ∀ target ∈ BinaryDistribution.targets d, EnvOrdered target.env)
    (fun members d h => ?_) h
  obtain ⟨darwinArm, one, h⟩ := Option.bind_eq_some_iff.mp h
  obtain ⟨darwin, two, h⟩ := Option.bind_eq_some_iff.mp h
  obtain ⟨linuxArm, three, h⟩ := Option.bind_eq_some_iff.mp h
  obtain ⟨linux, four, h⟩ := Option.bind_eq_some_iff.mp h
  cases h
  intro target member
  simp only [BinaryDistribution.targets, List.mem_append, Option.mem_toList] at member
  obtain ((member | member) | member) | member := member
  · exact of_nullable read one target member
  · exact of_nullable read two target member
  · exact of_nullable read three target member
  · exact of_nullable read four target member

theorem ordered_of_packageDistribution {json : Json} {d : PackageDistribution}
    (h : packageDistributionOf json = some d) : EnvOrdered d.env := by
  refine of_asStruct (P := fun d => EnvOrdered d.env) (fun members d h => ?_) h
  obtain ⟨_, -, h⟩ := Option.bind_eq_some_iff.mp h
  obtain ⟨_, -, h⟩ := Option.bind_eq_some_iff.mp h
  obtain ⟨env, env_, h⟩ := Option.bind_eq_some_iff.mp h
  cases h
  exact ordered_of_env env_

theorem ordered_of_agentDistribution {json : Json} {d : AgentDistribution}
    (h : agentDistributionOf json = some d) : DistributionOrdered d := by
  have package : ∀ json d, packageDistributionOf json = some d → EnvOrdered d.env :=
    fun _ _ => ordered_of_packageDistribution
  refine of_asStruct (fun members d h => ?_) h
  obtain ⟨binary, one, h⟩ := Option.bind_eq_some_iff.mp h
  obtain ⟨npx, two, h⟩ := Option.bind_eq_some_iff.mp h
  obtain ⟨uvx, three, h⟩ := Option.bind_eq_some_iff.mp h
  cases h
  exact {
    binary := of_nullable (fun _ _ => ordered_of_binaryDistribution) one
    npx := of_nullable package two
    uvx := of_nullable package three }

theorem ordered_of_agent {json : Json} {agent : RegistryAgent}
    (h : agentOf json = some agent) : DistributionOrdered agent.distribution := by
  refine of_asStruct (P := fun agent => DistributionOrdered agent.distribution)
    (fun members agent h => ?_) h
  obtain ⟨_, -, h⟩ := Option.bind_eq_some_iff.mp h
  obtain ⟨_, -, h⟩ := Option.bind_eq_some_iff.mp h
  obtain ⟨_, -, h⟩ := Option.bind_eq_some_iff.mp h
  obtain ⟨_, -, h⟩ := Option.bind_eq_some_iff.mp h
  obtain ⟨_, -, h⟩ := Option.bind_eq_some_iff.mp h
  obtain ⟨_, -, h⟩ := Option.bind_eq_some_iff.mp h
  obtain ⟨_, -, h⟩ := Option.bind_eq_some_iff.mp h
  obtain ⟨_, -, h⟩ := Option.bind_eq_some_iff.mp h
  obtain ⟨_, -, h⟩ := Option.bind_eq_some_iff.mp h
  obtain ⟨d, read, h⟩ := Option.bind_eq_some_iff.mp h
  cases h
  exact of_required (fun _ _ => ordered_of_agentDistribution) read

theorem wellFormed_of_registryOf {float : Str → Option Json.Decimal} {json : Json}
    {registry : Registry} (h : registryOf float json = some registry) :
    registry.WellFormed fun d => ∃ text, float text = some d := by
  refine of_asStruct (fun members registry h => ?_) h
  obtain ⟨_, -, h⟩ := Option.bind_eq_some_iff.mp h
  obtain ⟨agents, one, h⟩ := Option.bind_eq_some_iff.mp h
  obtain ⟨extensions, two, h⟩ := Option.bind_eq_some_iff.mp h
  cases h
  exact {
    ordered := of_required (fun _ _ => of_asArray fun _ _ => ordered_of_agent) one
    values := of_nullable (fun _ _ => of_asArray fun _ _ => of_asValue) two }

end Decoded

/-! ### Payloads -/

section Payloads

variable (source : Source)

/-- The first agent without a distribution is named. -/
theorem validateFrom_eq (index : ℕ) (agents : List RegistryAgent) :
    validateFrom source index agents =
      match agents.findIdx? fun agent => !hasDistributionSource agent.distribution with
      | none => .ok ()
      | some i => .error (registryDecodeError source (str "agents[" ++
          Nat.toDigits 10 (index + i) ++ str "]" ++
          str ".distribution must contain at least one of binary, npx, or uvx")) := by
  induction agents generalizing index with
  | nil => rfl
  | cons agent agents ih =>
    rw [validateFrom, List.findIdx?_cons]
    cases has : hasDistributionSource agent.distribution with
    | false =>
      have refused : validateDistribution source agent.distribution
          (str "agents[" ++ Nat.toDigits 10 index ++ str "]") = _ := if_neg (by simp [has])
      rw [refused]
      rfl
    | true =>
      have accepted : validateDistribution source agent.distribution
          (str "agents[" ++ Nat.toDigits 10 index ++ str "]") = .ok () := if_pos has
      rw [accepted]
      show validateFrom source (index + 1) agents = _
      rw [ih]
      cases agents.findIdx? fun agent => !hasDistributionSource agent.distribution with
      | none => rfl
      | some i => simp [Nat.add_assoc, Nat.add_comm 1 i]

/-- `parse` of a payload, before its validation. -/
theorem fromSlice_eq_ok_iff {input : List UInt8} {registry : Registry} :
    fromSlice source input = .ok registry ↔
      (Json.fromSlice input).bind (registryOf source.float) = some registry ∧
        ∀ agent ∈ registry.agents, hasDistributionSource agent.distribution = true := by
  rw [fromSlice]
  cases (Json.fromSlice input).bind (registryOf source.float) with
  | none => simp
  | some decoded =>
    show (validateFrom source 0 decoded.agents >>= fun _ => .ok decoded) = _ ↔ _
    rw [validateFrom_eq]
    cases found : decoded.agents.findIdx? fun agent => !hasDistributionSource agent.distribution with
    | none =>
      have all : ∀ agent ∈ decoded.agents, hasDistributionSource agent.distribution = true := by
        simpa using List.findIdx?_eq_none_iff.mp found
      constructor
      · rintro ⟨⟩
        exact ⟨rfl, all⟩
      · rintro ⟨⟨⟩, -⟩
        rfl
    | some i =>
      obtain ⟨inside, lacks, -⟩ := List.findIdx?_eq_some_iff_getElem.mp found
      constructor
      · exact nofun
      · rintro ⟨⟨⟩, all⟩
        simp [all _ (List.getElem_mem inside)] at lacks

theorem fromSlice_registryJson {registry : Registry}
    (wellFormed : registry.WellFormed fun d => source.float d.text = some d) (l : Json.Layout) :
    fromSlice source (Str.bytes (Json.laid l 0 (registryJson registry))) =
      match registry.agents.findIdx? fun agent => !hasDistributionSource agent.distribution with
      | none => .ok registry
      | some i => .error (registryDecodeError source (str "agents[" ++ Nat.toDigits 10 i ++
          str "].distribution must contain at least one of binary, npx, or uvx")) := by
  have parsed := Json.parse_laid l 0 (registryJson registry) (List.all_nil (f := Json.isBlank))
  rw [List.append_nil] at parsed
  rw [fromSlice, Json.fromSlice_bytes, parsed, Option.bind_some, registryOf_json wellFormed]
  show (validateFrom source 0 registry.agents >>= fun _ => .ok registry) = _
  rw [validateFrom_eq]
  cases registry.agents.findIdx? fun agent => !hasDistributionSource agent.distribution with
  | none => rfl
  | some i =>
    have index : 0 + i = i := Nat.zero_add i
    dsimp only
    rw [index, List.append_assoc (_ ++ _)]
    rfl

theorem wellFormed_of_fromSlice {input : List UInt8} {registry : Registry}
    (accepted : fromSlice source input = .ok registry) :
    registry.WellFormed fun d => ∃ text, source.float text = some d := by
  obtain ⟨decoded, -⟩ := (fromSlice_eq_ok_iff source).mp accepted
  obtain ⟨json, -, decoded⟩ := Option.bind_eq_some_iff.mp decoded
  exact wellFormed_of_registryOf decoded

/-- The payload of a catalog, in any layout, decodes to the catalog if every agent has a
distribution, and else to an error that names the first agent without one; and what any payload
decodes to has a distribution for every agent, has ordered maps and extensions that are `Value`s,
and is decoded again from its own payload if its numbers that are no 64-bit integers are read as
they are written. -/
theorem registry_round_trip (l : Json.Layout) :
    (∀ registry : Registry, (registry.WellFormed fun d => source.float d.text = some d) →
      fromSlice source (Str.bytes (Json.laid l 0 (registryJson registry))) =
        match registry.agents.findIdx? fun agent => !hasDistributionSource agent.distribution with
        | none => .ok registry
        | some i => .error (registryDecodeError source (str "agents[" ++ Nat.toDigits 10 i ++
            str "].distribution must contain at least one of binary, npx, or uvx"))) ∧
    ∀ input registry, fromSlice source input = .ok registry →
      (registry.WellFormed fun d => ∃ text, source.float text = some d) ∧
        (∀ agent ∈ registry.agents, hasDistributionSource agent.distribution = true) ∧
        ((registry.WellFormed fun d => source.float d.text = some d) →
          fromSlice source (Str.bytes (Json.laid l 0 (registryJson registry))) = .ok registry) := by
  refine ⟨fun registry wellFormed => fromSlice_registryJson source wellFormed l,
    fun input registry accepted => ?_⟩
  obtain ⟨-, all⟩ := (fromSlice_eq_ok_iff source).mp accepted
  refine ⟨wellFormed_of_fromSlice source accepted, all, fun wellFormed => ?_⟩
  rw [fromSlice_registryJson source wellFormed]
  have none_ : (registry.agents.findIdx? fun agent =>
      !hasDistributionSource agent.distribution) = none :=
    List.findIdx?_eq_none_iff.mpr (by simpa using all)
  rw [none_]

namespace Sample

def package_ : PackageDistribution := ⟨str "crow@1", some [str "acp"], some [(str "A", str "1")]⟩

def agent : RegistryAgent where
  id := str "crow"
  name := str "Crow"
  version := str "1.0.0"
  description := str "An \"agent\""
  repository := none
  website := some (str "crow.dev")
  authors := [str "a", str "b"]
  license := str "MIT"
  icon := none
  distribution := ⟨none, some package_, none⟩

/-- `0.5`. -/
def half : Json.Decimal := ⟨str "0.5", by decide⟩

def plain : Source where
  variable_ := none
  float := fun text => if text = str "0.5" then some half else none
  reason := fun _ => []

def registry : Registry :=
  ⟨str "1", [agent], some [.array [.null, .negative 2, .decimal half]]⟩

theorem wellFormed : registry.WellFormed fun d => plain.float d.text = some d where
  ordered := by
    intro agent member
    obtain rfl := List.mem_singleton.mp member
    exact {
      binary := fun _ there => absurd there (Option.not_mem_none _)
      npx := fun package there map set_ => by
        obtain rfl : package_ = package := Option.some.inj there
        obtain rfl : [(str "A", str "1")] = map := Option.some.inj set_
        exact List.pairwise_singleton ..
      uvx := fun _ there => absurd there (Option.not_mem_none _) }
  values := fun extensions there extension member => by
    obtain rfl : [.array [.null, .negative 2, .decimal half]] = extensions := Option.some.inj there
    obtain rfl := List.mem_singleton.mp member
    exact ⟨by simp [IsValue, AreValues, plain, half], by decide⟩

end Sample

theorem registry_round_trip_sample :
    fromSlice Sample.plain (Str.bytes (Json.pretty (registryJson Sample.registry))) =
      .ok Sample.registry :=
  ((registry_round_trip Sample.plain Json.prettyLayout).2 _ _
    ((registry_round_trip Sample.plain Json.prettyLayout).1 _ Sample.wellFormed)).2.2
      Sample.wellFormed

end Payloads

end AcpAgent.Catalog
