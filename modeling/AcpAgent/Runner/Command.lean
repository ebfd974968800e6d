import AcpAgent.Installer.Paths

/-! The process that an agent runs in: `runner.rs` resolves a registry agent to a `CommandSpec`, and
lowers it to the command of `run` or to the configuration of `serve` and of named servers. -/

namespace AcpAgent.Runner

open Installer

/-- A `BTreeMap`, as its entries in the order of their keys. -/
abbrev Environment := List (Str × Str)

structure BinaryTarget where
  archive : Str
  cmd : Str
  sha256 : Option Str
  args : Option (List Str)
  env : Option Environment

structure BinaryDistribution where
  darwinAarch64 : Option BinaryTarget
  darwinX86_64 : Option BinaryTarget
  linuxAarch64 : Option BinaryTarget
  linuxX86_64 : Option BinaryTarget

def BinaryDistribution.forPlatform (d : BinaryDistribution) : Platform → Option BinaryTarget
  | .darwinAarch64 => d.darwinAarch64
  | .darwinX86_64 => d.darwinX86_64
  | .linuxAarch64 => d.linuxAarch64
  | .linuxX86_64 => d.linuxX86_64

/-- `NpxDistribution` and `UvxDistribution`. -/
structure PackageDistribution where
  package : Str
  args : Option (List Str)
  env : Option Environment

structure AgentDistribution where
  binary : Option BinaryDistribution
  npx : Option PackageDistribution
  uvx : Option PackageDistribution

structure RegistryAgent where
  id : Str
  version : Str
  distribution : AgentDistribution

inductive PackageRunner
  | npm
  | deno
  | uvx
  deriving DecidableEq

inductive ResolvedDistribution
  | binary (platform : Platform) (target : BinaryTarget)
  | npm (distribution : PackageDistribution) (runner : PackageRunner)
  | uvx (distribution : PackageDistribution)

/-- The lease is the lock file that it holds. -/
structure CachedBinary where
  executablePath : Path
  extractedDir : Path
  cacheUseLease : Option Path

/-- A `PathBuf` that is either a name to be searched in `PATH` or a file. -/
inductive Program
  | name (name : Str)
  | file (path : Path)
  deriving DecidableEq

structure CommandSpec where
  program : Program
  args : List Str
  env : Environment
  currentDir : Option Path
  cacheUseLease : Option Path

/-- What a spawned process gets: without a directory, it is that of its parent. -/
structure Process where
  program : Program
  args : List Str
  env : Environment
  currentDir : Option Path
  deriving DecidableEq

/-- The configuration of the transport has no working directory. -/
structure AcpAgentConfig where
  command : Program
  arguments : List Str
  environment : Environment

structure ResolvedAgentConfig where
  config : AcpAgentConfig
  cacheUseLease : Option Path

def AcpAgentConfig.process (config : AcpAgentConfig) : Process :=
  ⟨config.command, config.arguments, config.environment, none⟩

namespace CommandSpec

variable (spec : CommandSpec)

def intoResolvedConfig : ResolvedAgentConfig :=
  ⟨⟨spec.program, spec.args, spec.env⟩, spec.cacheUseLease⟩

def command : Process := ⟨spec.program, spec.args, spec.env, spec.currentDir⟩

end CommandSpec

def packageCommandSpec (program : Str) (runnerArgs : List Str) (package : Str)
    (defaultArgs : Option (List Str)) (env : Option Environment) (userArgs : List Str) :
    CommandSpec where
  program := .name program
  args := runnerArgs ++ [package] ++ defaultArgs.getD [] ++ userArgs
  env := env.getD []
  currentDir := none
  cacheUseLease := none

def npmRunnerArgs : List Str := [str "exec", str "--"]

def denoRunnerArgs : List Str :=
  [str "x", str "--allow-all", str "--minimum-dependency-age", str "0"]

/-- `npm_command_spec`, or the panic of its `unreachable!`. -/
def npmCommandSpec (runner : PackageRunner) (package : Str) (defaultArgs : Option (List Str))
    (env : Option Environment) (userArgs : List Str) : Option CommandSpec :=
  match runner with
  | .npm => some (packageCommandSpec (str "npm") npmRunnerArgs package defaultArgs env userArgs)
  | .deno => some (packageCommandSpec (str "deno") denoRunnerArgs package defaultArgs env userArgs)
  | .uvx => none

def binaryCommandSpec (cached : CachedBinary) (target : BinaryTarget) (userArgs : List Str) :
    CommandSpec where
  program := .file cached.executablePath
  args := target.args.getD [] ++ userArgs
  env := target.env.getD []
  currentDir := some cached.extractedDir
  cacheUseLease := cached.cacheUseLease

/-! ### Resolution -/

/-- What the resolution asks of the host: its platform, whether `npm` is available, the binary
cache, the registry and the yolo catalog that it fetches. -/
structure Host where
  platform : Except Str Platform
  npmAvailable : Except Str Bool
  cacheBinaryTarget : RegistryAgent → Platform → BinaryTarget → Except Str CachedBinary
  registry : Except Str (List RegistryAgent)
  yoloModes : List (Str × List Str)

namespace Host

variable (host : Host)

def npmPackageRunner : Except Str PackageRunner := do
  return if ← host.npmAvailable then .npm else .deno

def resolveDistribution (agent : RegistryAgent) : Except Str (Option ResolvedDistribution) := do
  let platform ← host.platform
  match agent.distribution.binary.bind (·.forPlatform platform) with
  | some target => return some (.binary platform target)
  | none =>
    match agent.distribution.npx with
    | some distribution => return some (.npm distribution (← host.npmPackageRunner))
    | none => return agent.distribution.uvx.map .uvx

/-- `resolve_agent_command`, where no result is a panic. -/
def resolveAgentCommand (agent : RegistryAgent) (userArgs : List Str) :
    ExceptT Str Option CommandSpec := do
  match ← ExceptT.mk (some (host.resolveDistribution agent)) with
  | none =>
    throw (str "agent \"" ++ agent.id ++ str "\" does not have a runnable distribution")
  | some (.binary platform target) =>
    let cached ← ExceptT.mk (some (host.cacheBinaryTarget agent platform target))
    return binaryCommandSpec cached target userArgs
  | some (.npm distribution runner) =>
    ExceptT.lift
      (npmCommandSpec runner distribution.package distribution.args distribution.env userArgs)
  | some (.uvx distribution) =>
    return packageCommandSpec (str "uvx") [] distribution.package distribution.args
      distribution.env userArgs

def findAgent (agents : List RegistryAgent) (agentId : Str) : Option RegistryAgent :=
  agents.find? (·.id = agentId)

def getAgent (agents : List RegistryAgent) (agentId : Str) : Except Str RegistryAgent :=
  match findAgent agents agentId with
  | some agent => .ok agent
  | none => .error (str "agent with id \"" ++ agentId ++ str "\" was not found")

def resolveAgent (agentId : Str) (userArgs : List Str) : ExceptT Str Option CommandSpec := do
  let registry ← ExceptT.mk (some host.registry)
  match findAgent registry agentId with
  | none => throw (str "failed to resolve agent \"" ++ agentId ++ str "\" from registry")
  | some agent => host.resolveAgentCommand agent userArgs

def resolveAgentConfigFromRegistryAgent (agent : RegistryAgent) (userArgs : List Str) :
    ExceptT Str Option ResolvedAgentConfig := do
  let spec ← host.resolveAgentCommand agent userArgs
  return spec.intoResolvedConfig

def resolveAgentConfig (agentId : Str) (userArgs : List Str) :
    ExceptT Str Option ResolvedAgentConfig := do
  let registry ← ExceptT.mk (some host.registry)
  match findAgent registry agentId with
  | none => throw (str "failed to resolve agent \"" ++ agentId ++ str "\" from registry")
  | some agent => host.resolveAgentConfigFromRegistryAgent agent userArgs

/-- `yolo_extra_args_from`, of the arguments in a catalog. -/
def yoloExtraArgsFrom (modes : List (Str × List Str)) (agentId : Str) : Except Str (List Str) :=
  match modes.lookup agentId with
  | some args => .ok args
  | none => .error (str "no yolo mode mapping known for agent \"" ++ agentId ++
      str "\"; add an entry to data/yolo-modes.json or pass the agent's own arguments explicitly")

def resolveArgsFrom (modes : List (Str × List Str)) (agentId : Str) (enabled : Bool)
    (args : List Str) : Except Str (List Str) :=
  if enabled then (yoloExtraArgsFrom modes agentId).map (· ++ args) else .ok args

def resolveArgs (agentId : Str) (enabled : Bool) (args : List Str) : Except Str (List Str) :=
  resolveArgsFrom host.yoloModes agentId enabled args

/-! ### The commands -/

/-- The process of `run`. -/
def run (agentId : Str) (yolo : Bool) (args : List Str) : ExceptT Str Option Process := do
  let args ← ExceptT.mk (some (host.resolveArgs agentId yolo args))
  let spec ← host.resolveAgent agentId args
  return spec.command

/-- The process that `serve` starts for each connection. -/
def serve (agentId : Str) (yolo : Bool) (args : List Str) : ExceptT Str Option Process := do
  let args ← ExceptT.mk (some (host.resolveArgs agentId yolo args))
  let resolved ← host.resolveAgentConfig agentId args
  return resolved.config.process

/-- The process of a route of a named server. -/
def startRoute (agentId : Str) (yolo : Bool) (args : List Str) : ExceptT Str Option Process := do
  let registry ← ExceptT.mk (some (host.registry.mapError
    (str "failed to fetch agent registry: " ++ ·)))
  match findAgent registry agentId with
  | none => throw (str "agent " ++ agentId ++ str " was not found in the registry")
  | some agent =>
    let args ← ExceptT.mk (some (host.resolveArgs agentId yolo args))
    let resolved ← ExceptT.adapt (str "failed to resolve agent " ++ agentId ++ str ": " ++ ·)
      (host.resolveAgentConfigFromRegistryAgent agent args)
    return resolved.config.process

end Host

/-! ### Results -/

/-- The computation neither panics nor fails. -/
def Returns {α : Type} (x : ExceptT Str Option α) (a : α) : Prop := x.run = some (.ok a)

section Returns

variable {α β : Type} {x : ExceptT Str Option α} {f : α → ExceptT Str Option β} {a b : α} {c : β}

@[simp] theorem returns_bind : Returns (x >>= f) c ↔ ∃ a, Returns x a ∧ Returns (f a) c := by
  unfold Returns
  rw [ExceptT.run_bind]
  cases hx : x.run with
  | none => simp
  | some result => cases result <;> simp

@[simp] theorem returns_pure : Returns (pure a) b ↔ a = b := by
  simp [Returns]

@[simp] theorem not_returns_throw {e : Str} : ¬Returns (throw e : ExceptT Str Option α) a := by
  simp [Returns]

@[simp] theorem returns_mk {e : Except Str α} : Returns (ExceptT.mk (some e)) a ↔ e = .ok a := by
  simp [Returns]

@[simp] theorem returns_lift {o : Option α} : Returns (ExceptT.lift o) a ↔ o = some a := by
  cases o <;> simp [Returns]

@[simp] theorem returns_adapt {g : Str → Str} : Returns (x.adapt g) a ↔ Returns x a := by
  have mapped : (x.adapt g).run = x.run.map (Except.mapError g) := rfl
  unfold Returns
  rw [mapped]
  cases x.run with
  | none => simp
  | some result => cases result <;> simp [Except.mapError]

end Returns

namespace ResolvedDistribution

variable (d : ResolvedDistribution)

def isBinary : Bool :=
  match d with
  | binary .. => true
  | npm .. | uvx _ => false

def runnerArgs : List Str :=
  match d with
  | binary .. | uvx _ => []
  | npm _ .npm => npmRunnerArgs
  | npm _ .deno => denoRunnerArgs
  | npm _ .uvx => []

def packageArgs : List Str :=
  match d with
  | binary .. => []
  | npm distribution _ | uvx distribution => [distribution.package]

def registryArgs : List Str :=
  match d with
  | binary _ target => target.args.getD []
  | npm distribution _ | uvx distribution => distribution.args.getD []

end ResolvedDistribution

namespace Host

section Commands

variable {host : Host} {agent : RegistryAgent} {agentId : Str} {yolo : Bool}
  {args userArgs : List Str}
  {agents : List RegistryAgent} {d : ResolvedDistribution} {spec : CommandSpec} {p : Process}

/-- Only binaries have a working directory of their own. -/
theorem resolveAgentCommand_returns (resolved : host.resolveDistribution agent = .ok (some d))
    (returns : Returns (host.resolveAgentCommand agent args) spec) :
    spec.args = d.runnerArgs ++ d.packageArgs ++ d.registryArgs ++ args ∧
      (spec.currentDir = none ↔ d.isBinary = false) := by
  unfold resolveAgentCommand at returns
  rw [resolved, returns_bind] at returns
  obtain ⟨found, same, returns⟩ := returns
  obtain rfl : some d = found := Except.ok.inj (returns_mk.mp same)
  cases d with
  | binary platform target =>
    simp only [returns_bind, returns_mk, returns_pure] at returns
    obtain ⟨cached, -, rfl⟩ := returns
    exact ⟨rfl, by simp [binaryCommandSpec, ResolvedDistribution.isBinary]⟩
  | npm distribution runner =>
    simp only [returns_lift] at returns
    cases runner with
    | npm | deno =>
      obtain rfl := Option.some.inj returns
      exact ⟨rfl, by simp [packageCommandSpec, ResolvedDistribution.isBinary]⟩
    | uvx => simp [npmCommandSpec] at returns
  | uvx distribution =>
    obtain rfl := returns_pure.mp returns
    exact ⟨rfl, by simp [packageCommandSpec, ResolvedDistribution.isBinary]⟩

/-- The runner of an npm distribution is never `uvx`. -/
theorem npmPackageRunner_ne {runner : PackageRunner} (h : host.npmPackageRunner = .ok runner) :
    runner ≠ .uvx := by
  unfold npmPackageRunner at h
  cases available : host.npmAvailable with
  | error e =>
    rw [available] at h
    exact nomatch h
  | ok npm =>
    rw [available] at h
    obtain rfl := Except.ok.inj h
    cases npm <;> simp

theorem resolveDistribution_npm {distribution : PackageDistribution} {runner : PackageRunner}
    (resolved : host.resolveDistribution agent = .ok (some (.npm distribution runner))) :
    runner ≠ .uvx := by
  unfold resolveDistribution at resolved
  cases platform : host.platform with
  | error e =>
    rw [platform] at resolved
    exact nomatch resolved
  | ok platform' =>
    rw [platform] at resolved
    change (match agent.distribution.binary.bind (·.forPlatform platform') with
      | some target => _
      | none => _) = _ at resolved
    split at resolved
    · exact nomatch resolved
    · split at resolved
      · cases chosen : host.npmPackageRunner with
        | error e =>
          rw [chosen] at resolved
          exact nomatch resolved
        | ok chosenRunner =>
          rw [chosen] at resolved
          have same := Option.some.inj (Except.ok.inj resolved)
          obtain ⟨-, rfl⟩ := ResolvedDistribution.npm.inj same
          exact npmPackageRunner_ne chosen
      · cases uvx : agent.distribution.uvx with
        | none =>
          rw [uvx] at resolved
          exact nomatch resolved
        | some distribution' =>
          rw [uvx] at resolved
          exact nomatch Option.some.inj (Except.ok.inj resolved)

/-- The resolution does not get to the branch that cannot be reached. -/
theorem resolveAgentCommand_run (host : Host) (agent : RegistryAgent) (args : List Str) :
    (host.resolveAgentCommand agent args).run ≠ none := by
  unfold resolveAgentCommand
  rw [ExceptT.run_bind, ExceptT.run_mk]
  cases resolved : host.resolveDistribution agent with
  | error e => simp
  | ok found =>
    rcases found with _ | ⟨platform, target⟩ | ⟨distribution, runner⟩ | distribution
    · simp
    · cases cached : host.cacheBinaryTarget agent platform target <;> simp [cached]
    · cases runner with
      | npm | deno => simp [npmCommandSpec]
      | uvx => exact absurd rfl (resolveDistribution_npm resolved)
    · simp

/-- The arguments that `--yolo` puts before those of the user. -/
def yoloArgs (host : Host) (agentId : Str) (yolo : Bool) : List Str :=
  if yolo then (host.yoloModes.lookup agentId).getD [] else []

theorem resolveArgs_ok (h : host.resolveArgs agentId yolo userArgs = .ok args) :
    args = host.yoloArgs agentId yolo ++ userArgs := by
  unfold resolveArgs resolveArgsFrom yoloExtraArgsFrom at h
  unfold yoloArgs
  cases yolo with
  | false => exact (Except.ok.inj h).symm
  | true =>
    cases found : host.yoloModes.lookup agentId with
    | none => simp [found, Except.map] at h
    | some extra => simpa [found, Except.map, eq_comm] using h

/-- The specification that all commands lower. -/
structure Resolved (host : Host) (agentId : Str) (yolo : Bool) (userArgs : List Str)
    (agent : RegistryAgent) (spec : CommandSpec) : Prop where
  args : host.resolveArgs agentId yolo userArgs =
    .ok (host.yoloArgs agentId yolo ++ userArgs)
  found : ∃ agents, host.registry = .ok agents ∧ findAgent agents agentId = some agent
  spec : Returns (host.resolveAgentCommand agent (host.yoloArgs agentId yolo ++ userArgs)) spec

theorem run_returns : Returns (host.run agentId yolo userArgs) p ↔
    ∃ agent spec, Resolved host agentId yolo userArgs agent spec ∧ spec.command = p := by
  unfold run resolveAgent
  simp only [returns_bind, returns_mk, returns_pure]
  constructor
  · rintro ⟨args, yoloed, spec, ⟨agents, fetched, resolved⟩, rfl⟩
    obtain rfl := resolveArgs_ok yoloed
    cases found : findAgent agents agentId with
    | none =>
      rw [found] at resolved
      exact absurd resolved not_returns_throw
    | some agent =>
      rw [found] at resolved
      exact ⟨agent, spec, ⟨yoloed, ⟨agents, fetched, found⟩, resolved⟩, rfl⟩
  · rintro ⟨agent, spec, ⟨yoloed, ⟨agents, fetched, found⟩, resolved⟩, rfl⟩
    refine ⟨_, yoloed, spec, ⟨agents, fetched, ?_⟩, rfl⟩
    rw [found]
    exact resolved

theorem Resolved.config (h : Resolved host agentId yolo userArgs agent spec) :
    Returns (host.resolveAgentConfigFromRegistryAgent agent
      (host.yoloArgs agentId yolo ++ userArgs)) spec.intoResolvedConfig := by
  simp only [resolveAgentConfigFromRegistryAgent, returns_bind, returns_pure]
  exact ⟨spec, h.spec, rfl⟩

theorem Resolved.serve (h : Resolved host agentId yolo userArgs agent spec) :
    Returns (host.serve agentId yolo userArgs) spec.intoResolvedConfig.config.process := by
  obtain ⟨agents, fetched, found⟩ := h.found
  simp only [Host.serve, resolveAgentConfig, returns_bind, returns_mk, returns_pure]
  refine ⟨_, h.args, _, ⟨agents, fetched, ?_⟩, rfl⟩
  rw [found]
  exact h.config

theorem Resolved.startRoute (h : Resolved host agentId yolo userArgs agent spec) :
    Returns (host.startRoute agentId yolo userArgs) spec.intoResolvedConfig.config.process := by
  obtain ⟨agents, fetched, found⟩ := h.found
  simp only [Host.startRoute, returns_bind, returns_mk]
  refine ⟨agents, by rw [fetched]; rfl, ?_⟩
  rw [found]
  simp only [returns_bind, returns_mk, returns_adapt, returns_pure]
  exact ⟨_, h.args, _, h.config, rfl⟩

/-- All commands start the same process exactly if the distribution is no binary. -/
theorem same_process_iff (fetched : host.registry = .ok agents)
    (found : findAgent agents agentId = some agent)
    (distribution : host.resolveDistribution agent = .ok (some d))
    (runs : Returns (host.run agentId yolo userArgs) p) :
    (Returns (host.serve agentId yolo userArgs) p ∧
      Returns (host.startRoute agentId yolo userArgs) p ∧
      p.args = d.runnerArgs ++ d.packageArgs ++ d.registryArgs ++ host.yoloArgs agentId yolo ++
        userArgs) ↔
    d.isBinary = false := by
  obtain ⟨agent', spec, resolved, rfl⟩ := run_returns.mp runs
  have same : agent' = agent := by
    obtain ⟨agents', fetched', found'⟩ := resolved.found
    obtain rfl := Except.ok.inj (fetched.symm.trans fetched')
    exact Option.some.inj (found'.symm.trans found)
  subst same
  obtain ⟨args, dir⟩ := resolveAgentCommand_returns distribution resolved.spec
  rw [← dir]
  constructor
  · rintro ⟨serves, -, -⟩
    have process := (Except.ok.inj (Option.some.inj (resolved.serve.symm.trans serves)))
    exact (congrArg Process.currentDir process).symm
  · intro inherited
    have process : spec.intoResolvedConfig.config.process = spec.command := by
      simp [AcpAgentConfig.process, CommandSpec.intoResolvedConfig, CommandSpec.command, inherited]
    rw [← process]
    refine ⟨resolved.serve, resolved.startRoute, ?_⟩
    simpa [CommandSpec.intoResolvedConfig, AcpAgentConfig.process] using args

end Commands

namespace Sample

def target : BinaryTarget :=
  ⟨str "https://example.com/demo.tar.gz", str "./demo", some Ids.digest, some [str "--stdio"], none⟩

def agent (binary : Option BinaryDistribution) : RegistryAgent where
  id := str "demo"
  version := str "1.0.0"
  distribution := ⟨binary, some ⟨str "@acme/demo", some [str "--stdio"], none⟩, none⟩

def host (binary : Option BinaryDistribution) : Host where
  platform := .ok .linuxX86_64
  npmAvailable := .ok true
  cacheBinaryTarget _ _ _ := .ok ⟨[str "cache", str "extracted", str "demo"],
    [str "cache", str "extracted"], some [str "cache-cache.use.lock"]⟩
  registry := .ok [agent binary]
  yoloModes := [(str "demo", [str "--yolo"])]

def package : Host := host none

def binary : Host := host (some ⟨none, none, none, some target⟩)

end Sample

theorem same_process_package :
    Returns (Sample.package.serve (str "demo") true [str "--model"])
      ⟨.name (str "npm"), [str "exec", str "--", str "@acme/demo", str "--stdio", str "--yolo",
        str "--model"], [], none⟩ :=
  ((@same_process_iff Sample.package _ (str "demo") true [str "--model"] _
    (.npm ⟨str "@acme/demo", some [str "--stdio"], none⟩ .npm) _ rfl rfl rfl rfl).mpr rfl).1

/-- `run` starts a binary in its directory, `serve` starts it in that of the server. -/
theorem binary_process_differs :
    ¬∀ (host : Host) (agentId : Str) (yolo : Bool) (userArgs : List Str) (p q : Process),
      Returns (host.run agentId yolo userArgs) p → Returns (host.serve agentId yolo userArgs) q →
      p = q := by
  intro same
  have dirs := congrArg Process.currentDir
    (same Sample.binary (str "demo") false [] _ _ rfl rfl)
  exact absurd dirs (by decide)

end Host

end AcpAgent.Runner
