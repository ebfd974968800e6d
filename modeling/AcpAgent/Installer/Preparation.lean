import AcpAgent.Installer.Lifecycle

/-! The installation and the update of an agent whose distribution is a package,
`installer/lifecycle.rs`, beside the command that later runs it, `runner.rs`: the package manager
prepares the package that the runner of the command executes. -/

namespace AcpAgent.Installer.Preparation

open Runner Lifecycle

inductive InstallOutcome
  | binary (agentId : Str) (executablePath cacheDir : Path)
  | packageManager (agentId : Str) (runner : PackageRunner) (package : Str)

/-- The executable of a cached binary, and its cache directory. -/
abbrev BinaryCache := RegistryAgent → Platform → BinaryTarget → Except Failure (Path × Path)

section Install

variable (programs : Programs) (host : Host)

def denoCacheArgs (package : Str) : List Str :=
  [str "cache", str "--minimum-dependency-age", str "0", str "npm:" ++ package]

/-- The program that prepares a package for its runner. -/
def packageCall (runner : PackageRunner) (package : Str) : Call :=
  match runner with
  | .npm => (str "npm", [str "install", str "--global", package])
  | .deno => (str "deno", denoCacheArgs package)
  | .uvx => (str "uv", [str "tool", str "install", package])

def packageSubject (runner : PackageRunner) (package : Str) : Str :=
  match runner with
  | .npm => str "npm package " ++ package
  | .deno => str "npm package " ++ package ++ str " via Deno"
  | .uvx => str "uv package " ++ package

def installPackage (agent : RegistryAgent) (runner : PackageRunner) (package : Str) :
    Run InstallOutcome := do
  let call := packageCall runner package
  runCommand programs call.1 call.2 (packageSubject runner package)
  return .packageManager agent.id runner package

/-- The `match` on the distribution that `install_from_agent` and `update_from` share, but for the
call that caches a binary. -/
def prepareAgent (cacheBinary : BinaryCache) (agent : RegistryAgent) : Run InstallOutcome :=
  match host.resolveDistribution agent with
  | .error error => Logged.stop (.message [error])
  | .ok none => Logged.stop (.message [str "agent \"" ++ agent.id ++
      str "\" does not have an installable distribution"])
  | .ok (some (.binary platform target)) =>
    match cacheBinary agent platform target with
    | .error failure => Logged.stop failure
    | .ok (executablePath, cacheDir) => return .binary agent.id executablePath cacheDir
  | .ok (some (.npm distribution runner)) =>
    installPackage programs agent runner distribution.package
  | .ok (some (.uvx distribution)) => installPackage programs agent .uvx distribution.package

/-- `registry.get_agent`, and then the agent's distribution. -/
def prepareFrom (cacheBinary : BinaryCache) (agentId : Str) (agents : List RegistryAgent) :
    Run InstallOutcome :=
  match Host.getAgent agents agentId with
  | .error error => Logged.stop (.message [error])
  | .ok agent => prepareAgent programs host cacheBinary agent

/-- `install_from`, where a binary is taken from the cache if it is there. -/
def installFrom (cacheBinaryTarget : BinaryCache) : Str → List RegistryAgent → Run InstallOutcome :=
  prepareFrom programs host cacheBinaryTarget

/-- `update_from`, where a binary is refreshed, and what it replaces is removed. -/
def updateFrom (refreshBinaryTarget : BinaryCache) :
    Str → List RegistryAgent → Run InstallOutcome :=
  prepareFrom programs host refreshBinaryTarget

end Install

/-! ### What is prepared -/

/-- A call prepares the package that a process executes. -/
inductive Prepares : Call → Process → Prop
  /-- `npm exec` finds what is installed globally. -/
  | npm (package : Str) (rest : List Str) (env : Environment) :
      Prepares (str "npm", [str "install", str "--global", package])
        ⟨.name (str "npm"), str "exec" :: str "--" :: package :: rest, env, none⟩
  /-- `deno x` reads the npm cache of Deno. -/
  | deno (package : Str) (rest : List Str) (env : Environment) :
      Prepares (str "deno", [str "cache", str "--minimum-dependency-age", str "0",
          str "npm:" ++ package])
        ⟨.name (str "deno"), str "x" :: str "--allow-all" :: str "--minimum-dependency-age" ::
          str "0" :: package :: rest, env, none⟩
  /-- `uvx` prefers the tools that `uv` has installed. -/
  | uvx (package : Str) (rest : List Str) (env : Environment) :
      Prepares (str "uv", [str "tool", str "install", package])
        ⟨.name (str "uvx"), package :: rest, env, none⟩

section Prepared

variable {programs : Programs} {host : Host} {agent : RegistryAgent} {agents : List RegistryAgent}
  {agentId : Str}

theorem runCommand_iff {program : Str} {args : List Str} {subject : Str} :
    (runCommand programs program args subject).result = .ok () ↔
      Succeeds programs (program, args) := by
  refine ⟨runCommand_ok, fun ⟨output, ran, success⟩ => ?_⟩
  rw [runCommand, processOutput_bind_result, ran]
  simp only [success]
  rfl

theorem installPackage_run (programs : Programs) (agent : RegistryAgent) (runner : PackageRunner)
    (package : Str) :
    (installPackage programs agent runner package).log = [packageCall runner package] ∧
      ∀ outcome, (installPackage programs agent runner package).result = .ok outcome ↔
        outcome = .packageManager agent.id runner package ∧
          Succeeds programs (packageCall runner package) := by
  have logged := @runCommand_log programs (packageCall runner package).1
    (packageCall runner package).2 (packageSubject runner package)
  have succeeds := @runCommand_iff programs (packageCall runner package).1
    (packageCall runner package).2 (packageSubject runner package)
  unfold installPackage
  cases ran : (runCommand programs (packageCall runner package).1 (packageCall runner package).2
      (packageSubject runner package)).result with
  | error failure =>
    rw [ran] at succeeds
    rw [Logged.bind_of_error ran]
    exact ⟨logged, fun outcome => iff_of_false nofun fun done => nomatch succeeds.2 done.2⟩
  | ok _ =>
    rw [Logged.bind_of_ok ran, logged]
    refine ⟨rfl, fun outcome => ⟨fun same => ⟨?_, succeeds.1 ran⟩, fun done => ?_⟩⟩
    · exact (Except.ok.inj same).symm
    · rw [done.1]
      rfl

/-- The package of a distribution, and its runner. -/
def packageOf : ResolvedDistribution → Option (PackageRunner × Str)
  | .binary .. => none
  | .npm distribution runner => some (runner, distribution.package)
  | .uvx distribution => some (.uvx, distribution.package)

variable {d : ResolvedDistribution} {runner : PackageRunner} {package : Str}

theorem prepareFrom_package (cacheBinary : BinaryCache)
    (found : Host.findAgent agents agentId = some agent)
    (resolved : host.resolveDistribution agent = .ok (some d))
    (packaged : packageOf d = some (runner, package)) :
    prepareFrom programs host cacheBinary agentId agents =
      installPackage programs agent runner package := by
  rw [prepareFrom, Host.getAgent, found]
  dsimp only
  rw [prepareAgent, resolved]
  cases d with
  | binary platform target => cases packaged
  | npm distribution runner' =>
    cases packaged
    rfl
  | uvx distribution =>
    cases packaged
    rfl

/-- The command of a package distribution needs nothing but the package. -/
theorem resolveAgentCommand_package (args : List Str)
    (resolved : host.resolveDistribution agent = .ok (some d))
    (packaged : packageOf d = some (runner, package)) :
    ∃ spec, Returns (host.resolveAgentCommand agent args) spec ∧ spec.currentDir = none ∧
      Prepares (packageCall runner package) spec.command := by
  unfold Host.resolveAgentCommand
  rw [resolved]
  cases d with
  | binary platform target => cases packaged
  | npm distribution runner' =>
    cases packaged
    cases runner with
    | npm => exact ⟨_, rfl, rfl, .npm ..⟩
    | deno => exact ⟨_, rfl, rfl, .deno ..⟩
    | uvx => exact absurd rfl (Host.resolveDistribution_npm resolved)
  | uvx distribution =>
    cases packaged
    exact ⟨_, rfl, rfl, .uvx ..⟩

/-- The installation and the update of an agent with a package run one program, and succeed if it
does.  It prepares the package that all commands execute for the agent, in the same process. -/
theorem package_prepared (cached refreshed : BinaryCache) (fetched : host.registry = .ok agents)
    (found : Host.findAgent agents agentId = some agent)
    (resolved : host.resolveDistribution agent = .ok (some d))
    (packaged : packageOf d = some (runner, package)) :
    (∀ run ∈ [installFrom programs host cached agentId agents,
        updateFrom programs host refreshed agentId agents],
      run.log = [packageCall runner package] ∧
      ∀ outcome, run.result = .ok outcome ↔ outcome = .packageManager agent.id runner package ∧
        Succeeds programs (packageCall runner package)) ∧
    (∀ args, ∃ p, Returns (host.run agentId false args) p) ∧
    ∀ yolo args p, Returns (host.run agentId yolo args) p →
      Prepares (packageCall runner package) p ∧ Returns (host.serve agentId yolo args) p ∧
        Returns (host.startRoute agentId yolo args) p := by
  refine ⟨?_, ?_, ?_⟩
  · intro run member
    have same : run = installPackage programs agent runner package := by
      simp only [List.mem_cons, List.not_mem_nil, or_false] at member
      rcases member with rfl | rfl
      · exact prepareFrom_package cached found resolved packaged
      · exact prepareFrom_package refreshed found resolved packaged
    rw [same]
    exact installPackage_run programs agent runner package
  · intro args
    obtain ⟨spec, returns, -, -⟩ := resolveAgentCommand_package args resolved packaged
    exact ⟨_, Host.run_returns.2 ⟨agent, spec, ⟨rfl, ⟨agents, fetched, found⟩, returns⟩, rfl⟩⟩
  · intro yolo args p runs
    obtain ⟨agent', spec, command, rfl⟩ := Host.run_returns.1 runs
    have same : agent' = agent := by
      obtain ⟨agents', fetched', found'⟩ := command.found
      obtain rfl := Except.ok.inj (fetched.symm.trans fetched')
      exact Option.some.inj (found'.symm.trans found)
    subst same
    obtain ⟨spec', returns, inherited, prepares⟩ :=
      resolveAgentCommand_package (host.yoloArgs agentId yolo ++ args) resolved packaged
    obtain rfl : spec' = spec := Except.ok.inj (Option.some.inj (returns.symm.trans command.spec))
    have process : spec'.intoResolvedConfig.config.process = spec'.command := by
      simp [AcpAgentConfig.process, CommandSpec.intoResolvedConfig, CommandSpec.command, inherited]
    rw [← process]
    exact ⟨process ▸ prepares, command.serve, command.startRoute⟩

end Prepared

/-- `npm` installs the package of the sample, and then executes it. -/
theorem package_prepared_sample : ∃ p,
    Returns (Host.Sample.package.run (str "demo") true [str "--model"]) p ∧
      Prepares (str "npm", [str "install", str "--global", str "@acme/demo"]) p :=
  ⟨_, rfl, ((@package_prepared ⟨fun _ => .error [], fun _ => .ok true, fun _ => .error []⟩
    Host.Sample.package (Host.Sample.agent none) [Host.Sample.agent none] (str "demo")
    (.npm ⟨str "@acme/demo", some [str "--stdio"], none⟩ .npm) .npm (str "@acme/demo")
    (fun _ _ _ => .error .panic) (fun _ _ _ => .error .panic) rfl rfl rfl rfl).2.2
    true [str "--model"] _ rfl).1⟩

end AcpAgent.Installer.Preparation
