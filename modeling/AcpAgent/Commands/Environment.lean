import AcpAgent.Commands.AgentOutput
import AcpAgent.Lib.Except
import AcpAgent.Lib.Logged

/-! `install-env`: the toolchains that are missing, the question whether to install them, and the
installers that are run one after the other, of `installer/environment.rs` and
`commands/environment.rs`. -/

namespace AcpAgent.Commands.Environment

open Installer (Bytes)

/-! ### What is missing -/

structure ToolAvailability where
  name : Str
  path : Option Bytes

def ToolAvailability.isAvailable (tool : ToolAvailability) : Bool := tool.path.isSome

structure EnvironmentReport where
  js : List ToolAvailability
  python : List ToolAvailability

inductive InstallTarget
  | deno
  | uv
  deriving DecidableEq

/-- A program with its arguments, of which the last is the script of the installer. -/
structure InstallerCommand where
  program : Str
  args : List Str
  hasScript : args ≠ []

def InstallerCommand.display (command : InstallerCommand) : Str :=
  let rendered := command.args.dropLast.foldl (fun rendered arg => rendered ++ ' ' :: arg)
    command.program
  rendered ++ str " \"" ++ command.args.getLast command.hasScript ++ ['"']

namespace InstallTarget

def label : InstallTarget → Str
  | deno => str "deno"
  | uv => str "uv"

def program (target : InstallTarget) : Str := target.label

def installerCommand : InstallTarget → InstallerCommand
  | deno => ⟨str "sh", [str "-c", str "curl -fsSL https://deno.land/install.sh | sh"], by simp⟩
  | uv => ⟨str "sh", [str "-c", str "curl -LsSf https://astral.sh/uv/install.sh | sh"], by simp⟩

def officialCommandDisplay (target : InstallTarget) : Str := target.installerCommand.display

def knownBinDirectories (home : Bytes) : InstallTarget → List Bytes
  | deno => [join (join home (str ".deno").bytes) (str "bin").bytes]
  | uv => [join (join home (str ".local").bytes) (str "bin").bytes]

end InstallTarget

def jsTools : List Str := [str "npm", str "deno"]

def pythonTools : List Str := [str "uv"]

def planInstallation (report : EnvironmentReport) : List InstallTarget :=
  (if report.js.all (!·.isAvailable) then [.deno] else []) ++
    if report.python.all (!·.isAvailable) then [.uv] else []

/-! ### The machine -/

/-- A program that is run, with its arguments. -/
abbrev Call := Bytes × List Str

inductive ExitStatus
  | code (n : ℤ)
  | signal (n : ℕ)
  | unknown
  deriving DecidableEq

def ExitStatus.success (status : ExitStatus) : Bool := status = .code 0

def displayStatus : ExitStatus → Str
  | .code (.ofNat n) => Nat.toDigits 10 n
  | .code (.negSucc n) => '-' :: Nat.toDigits 10 (n + 1)
  | .signal n => str "signal " ++ Nat.toDigits 10 n
  | .unknown => str "unknown"

structure Output where
  status : ExitStatus
  stdout : Bytes
  stderr : Bytes

/-- What `resolve_program_with_directories`, `home_dir` and `process::output` give at some time. -/
structure Machine where
  resolve : Str → List Bytes → Except Str (Option Bytes)
  homeDir : Option Bytes
  output : Call → Except Str Output

/-- The machine when the tools are detected, and before and after the installer of a target. -/
structure Host where
  detected : Machine
  before : InstallTarget → Machine
  after : InstallTarget → Machine

/-- What the command does that others can see. -/
inductive Act
  | write (text : Str)
  | call (call : Call)

/-- The messages of an error, the contexts first. -/
abbrev Chain := List Str

abbrev Session (α : Type) := Logged Act Chain α

def write (text : Str) : Session Unit := Logged.perform (.write text)

def run (machine : Machine) (call : Call) : Session (Except Str Output) := do
  Logged.perform (.call call)
  return machine.output call

/-- `context`. -/
def context {α : Type} (message : Str) (m : Session α) : Session α :=
  ⟨m.log, m.result.mapError (message :: ·)⟩

/-! ### Detection -/

section Detection

variable (machine : Machine)

def detectTools : List Str → Except Str (List ToolAvailability) :=
  List.mapM fun name => do return ⟨name, ← machine.resolve name []⟩

def detectEnvironment : Except Str EnvironmentReport := do
  return ⟨← detectTools machine jsTools, ← detectTools machine pythonTools⟩

end Detection

/-! ### Installation -/

section Installation

variable (host : Host) (target : InstallTarget)

def renderOutput (output : Output) : Str :=
  let stdout := (Str.fromUtf8Lossy output.stdout).trim
  let stderr := (Str.fromUtf8Lossy output.stderr).trim
  match stdout.isEmpty, stderr.isEmpty with
  | true, true => str "installer exited without any output"
  | false, true => stdout
  | true, false => stderr
  | false, false => stdout ++ '\n' :: stderr

structure InstalledTool where
  target : InstallTarget
  path : Bytes
  onPath : Bool

def installerCall : Call :=
  (target.installerCommand.program.bytes, target.installerCommand.args)

def versionCall (path : Bytes) : Call := (path, [str "--version"])

def ensureInstallerPrerequisites (machine : Machine) : Except Chain Unit :=
  match machine.resolve (str "curl") [] with
  | .error error => .error [error]
  | .ok none => .error [str "Cannot install " ++ target.label ++
      str " because curl is not available in the current environment"]
  | .ok (some _) => .ok ()

def runInstaller (machine : Machine) : Session Unit := do
  Logged.ofExcept (ensureInstallerPrerequisites target machine)
  match ← run machine (installerCall target) with
  | .error error => Logged.stop [str "failed to run installer for " ++ target.label, error]
  | .ok output =>
    if output.status.success then return ()
    else
      Logged.stop [str "installer for " ++ target.label ++ str " failed with status " ++
        displayStatus output.status ++ str ": " ++ renderOutput output]

/-- Where `verify_installation` finds the executable, and whether that is on `PATH`. -/
def locate (machine : Machine) : Except Chain (Bytes × Bool) :=
  match machine.homeDir with
  | none => .error [str "unable to determine the home directory"]
  | some home =>
    match machine.resolve target.program [] with
    | .error error => .error [error]
    | .ok (some path) => .ok (path, true)
    | .ok none =>
      match machine.resolve target.program (target.knownBinDirectories home) with
      | .error error => .error [error]
      | .ok none => .error [str "verification failed for " ++ target.label ++ str ": " ++
          target.program ++ str " was not found after installation"]
      | .ok (some path) => .ok (path, false)

def verifyProgramVersion (machine : Machine) (path : Bytes) (subject : Str) : Session Unit := do
  match ← run machine (versionCall path) with
  | .error error => Logged.stop [str "failed to run installer for " ++ subject, error]
  | .ok output =>
    if output.status.success then return ()
    else
      Logged.stop [str "verification failed for " ++ subject ++ str ": " ++ renderOutput output]

def verifyInstallation (machine : Machine) : Session InstalledTool := do
  let (path, onPath) ← Logged.ofExcept (locate target machine)
  verifyProgramVersion machine path target.label
  return ⟨target, path, onPath⟩

def installAndVerify : Session InstalledTool := do
  runInstaller target (host.before target)
  verifyInstallation target (host.after target)

/-- `install_plan_with`. -/
def installPlan : List InstallTarget → Session (List InstalledTool)
  | [] => return []
  | target :: targets => do
    let tool ← installAndVerify host target
    let tools ← installPlan targets
    return tool :: tools

end Installation

/-! ### Messages -/

section Messages

def toolLine (tool : ToolAvailability) : Str :=
  match tool.path with
  | some path => tool.name ++ str ": available (" ++ display path ++ str ")\n"
  | none => tool.name ++ str ": missing\n"

def detectionReport (report : EnvironmentReport) : Str :=
  str "Environment detection results:\nJavaScript tools:\n" ++ report.js.flatMap toolLine ++
    str "Python tools:\n" ++ report.python.flatMap toolLine

def planLine (target : InstallTarget) : Str :=
  target.label ++ str ": " ++ target.officialCommandDisplay ++ ['\n']

def installationPlan (plan : List InstallTarget) : Str :=
  str "\nPlanned installation:\n" ++ plan.flatMap planLine

def nothingToInstall : Str :=
  str "\nEnvironment already satisfies the requirements. No installation is needed.\n"

def cancelled : Str := str "Installation cancelled.\n"

def installationStart : Str := str "\nStarting installation...\n"

def resultLine (tool : InstalledTool) : Str :=
  tool.target.label ++ str " installed and verified at " ++ display tool.path ++ ['\n'] ++
    if tool.onPath then []
    else str "Note: " ++ tool.target.program ++ str " was installed outside the current PATH. " ++
      str "Open a new shell if the command is not yet recognized.\n"

def installationComplete (tools : List InstalledTool) : Str :=
  '\n' :: tools.flatMap resultLine ++ str "Environment installation complete.\n"

end Messages

/-! ### The command -/

inductive Answer
  | yes
  | no
  | unclear
  deriving DecidableEq

def answer (input : Str) : Answer :=
  let input := Str.lower input.trim
  if input = [] ∨ input = str "y" ∨ input = str "yes" then .yes
  else if input = str "n" ∨ input = str "no" then .no
  else .unclear

/-- The loop of `prompt_for_installation`, over what `read_line` gives up to the end of the
input. -/
def promptForInstallation : List (Except Str Str) → Session Bool
  | [] => do
    write (str "Proceed with installation? [Y/n]: ")
    return true
  | line :: lines => do
    write (str "Proceed with installation? [Y/n]: ")
    match line with
    | .error error => Logged.stop [error]
    | .ok input =>
      match answer input with
      | .yes => return true
      | .no => return false
      | .unclear => do
        write (str "Please answer with y or n.\n")
        promptForInstallation lines

/-- Whether the installation goes ahead: `--yes`, or else `confirm_installation`. -/
def goAhead (yes : Bool) (lines : List (Except Str Str)) : Session Bool :=
  if yes then return true else promptForInstallation lines

/-- `install-env`, of `execute_cli`. -/
def installEnv (host : Host) (yes : Bool) (lines : List (Except Str Str)) : Session Unit := do
  let report ← context (str "failed to detect environment dependencies")
    (Logged.ofExcept ((detectEnvironment host.detected).mapError ([·])))
  write (detectionReport report)
  let plan := planInstallation report
  if plan = [] then write nothingToInstall
  else
    write (installationPlan plan)
    if ← goAhead yes lines then
      write installationStart
      let tools ← context (str "failed to install environment dependencies")
        (installPlan host plan)
      write (installationComplete tools)
    else write cancelled

/-! ### A verified installation -/

section Verified

variable {host : Host} {target : InstallTarget} {machine : Machine} {path : Bytes}

def Prepared (machine : Machine) : Prop := ∃ path, machine.resolve (str "curl") [] = .ok (some path)

def Succeeds (machine : Machine) (call : Call) : Prop :=
  ∃ output, machine.output call = .ok output ∧ output.status = .code 0

/-- The executable of a target is on `PATH`, or else in a directory that its installer uses. -/
inductive Found (machine : Machine) (target : InstallTarget) : Bytes × Bool → Prop
  | onPath {home path : Bytes} (known : machine.homeDir = some home)
      (resolved : machine.resolve target.program [] = .ok (some path)) :
      Found machine target (path, true)
  | apart {home path : Bytes} (known : machine.homeDir = some home)
      (missing : machine.resolve target.program [] = .ok none)
      (resolved : machine.resolve target.program (target.knownBinDirectories home) =
        .ok (some path)) : Found machine target (path, false)

/-- The installer of the target succeeded, and so did the tool when it was asked for its version. -/
structure Verified (host : Host) (target : InstallTarget) (tool : InstalledTool) : Prop where
  prepared : Prepared (host.before target)
  installed : Succeeds (host.before target) (installerCall target)
  target_eq : tool.target = target
  found : Found (host.after target) target (tool.path, tool.onPath)
  answers : Succeeds (host.after target) (versionCall tool.path)

theorem ensureInstallerPrerequisites_iff (target : InstallTarget) (machine : Machine) :
    ensureInstallerPrerequisites target machine = .ok () ↔ Prepared machine := by
  unfold ensureInstallerPrerequisites Prepared
  cases machine.resolve (str "curl") [] with
  | error error => simp
  | ok found => cases found <;> simp

theorem locate_iff {found : Bytes × Bool} :
    locate target machine = .ok found ↔ Found machine target found := by
  constructor
  · intro located
    cases known : machine.homeDir with
    | none => simp [locate, known] at located
    | some home =>
      cases searched : machine.resolve target.program [] with
      | error error => simp [locate, known, searched] at located
      | ok onPath =>
        cases onPath with
        | some path =>
          obtain rfl : (path, true) = found := by simpa [locate, known, searched] using located
          exact .onPath known searched
        | none =>
          cases beside : machine.resolve target.program (target.knownBinDirectories home) with
          | error error => simp [locate, known, searched, beside] at located
          | ok apart =>
            cases apart with
            | none => simp [locate, known, searched, beside] at located
            | some path =>
              obtain rfl : (path, false) = found := by
                simpa [locate, known, searched, beside] using located
              exact .apart known searched beside
  · rintro (⟨known, resolved⟩ | ⟨known, missing, resolved⟩)
    · simp [locate, known, resolved]
    · simp [locate, known, missing, resolved]

/-- A call whose failure ends the session, whatever it then says. -/
theorem run_required (machine : Machine) (call : Call) (lost : Str → Chain)
    (refused : Output → Chain) (session : Session Unit)
    (session_eq : session = run machine call >>= fun
      | .error error => Logged.stop (lost error)
      | .ok output =>
        if output.status.success then return () else Logged.stop (refused output)) :
    session.log = [.call call] ∧ (session.result = .ok () ↔ Succeeds machine call) := by
  have ran (next : Except Str Output → Session Unit) : run machine call >>= next =
      ⟨.call call :: (next (machine.output call)).log, (next (machine.output call)).result⟩ := rfl
  rw [session_eq, ran]
  unfold Succeeds
  cases machine.output call with
  | error error => exact ⟨rfl, iff_of_false nofun (by simp)⟩
  | ok output =>
    by_cases success : output.status = .code 0
    · have succeeds : output.status.success = true := decide_eq_true success
      simp only [succeeds, if_true]
      exact ⟨rfl, iff_of_true rfl ⟨output, rfl, success⟩⟩
    · have fails : ¬ output.status.success = true := of_decide_eq_true.mt success
      simp only [fails]
      exact ⟨rfl, iff_of_false nofun fun ⟨_, given, zero⟩ => success (by cases given; exact zero)⟩

theorem verifyProgramVersion_run (machine : Machine) (path : Bytes) (subject : Str) :
    (verifyProgramVersion machine path subject).log = [.call (versionCall path)] ∧
      ((verifyProgramVersion machine path subject).result = .ok () ↔
        Succeeds machine (versionCall path)) :=
  run_required machine (versionCall path) _ _ _ rfl

theorem runInstaller_run (target : InstallTarget) (machine : Machine) :
    ((runInstaller target machine).log = [] ∧ ¬ Prepared machine ∨
      (runInstaller target machine).log = [.call (installerCall target)]) ∧
      ((runInstaller target machine).result = .ok () ↔
        Prepared machine ∧ Succeeds machine (installerCall target)) := by
  rw [← ensureInstallerPrerequisites_iff target]
  unfold runInstaller
  cases ensureInstallerPrerequisites target machine with
  | error error => exact ⟨.inl ⟨rfl, nofun⟩, iff_of_false nofun nofun⟩
  | ok _ =>
    exact And.imp .inr (fun required => required.trans (by simp))
      (run_required machine (installerCall target) _ _ _ rfl)

/-- The installation of one target: it is verified, or else it ends early, and nothing that can be
found is a verified tool. -/
inductive Attempted (host : Host) (target : InstallTarget) : List Call → Option InstalledTool → Prop
  | verified (tool : InstalledTool) (verified : Verified host target tool) :
      Attempted host target [installerCall target, versionCall tool.path] (some tool)
  | failed {calls : List Call} (path : Bytes) (unverified : ∀ tool, ¬ Verified host target tool)
      (early : calls <+: [installerCall target, versionCall path]) :
      Attempted host target calls none

theorem installAndVerify_attempted (host : Host) (target : InstallTarget) :
    ∃ calls, (installAndVerify host target).log = calls.map .call ∧
      Attempted host target calls (installAndVerify host target).result.toOption := by
  have ⟨logged, installs⟩ := runInstaller_run target (host.before target)
  unfold installAndVerify
  cases installer : (runInstaller target (host.before target)).result with
  | error error =>
    rw [Logged.bind_of_error installer]
    have unverified (tool : InstalledTool) (verified : Verified host target tool) : False := by
      have succeeded := installs.2 ⟨verified.prepared, verified.installed⟩
      rw [installer] at succeeded
      cases succeeded
    obtain ⟨nothing, -⟩ | one := logged
    · exact ⟨[], nothing, .failed [] unverified List.nil_prefix⟩
    · exact ⟨[installerCall target], one, .failed [] unverified ⟨_, rfl⟩⟩
  | ok _ =>
    rw [Logged.bind_of_ok installer]
    obtain ⟨prepared, installed⟩ := installs.1 installer
    have one := logged.resolve_left fun nothing => nothing.2 prepared
    unfold verifyInstallation
    cases located : locate target (host.after target) with
    | error error =>
      refine ⟨[installerCall target], by rw [one]; rfl,
        .failed [] (fun tool verified => ?_) ⟨_, rfl⟩⟩
      have found := locate_iff.2 verified.found
      rw [located] at found
      cases found
    | ok found =>
      obtain ⟨path, onPath⟩ := found
      have ⟨asked, answers⟩ := verifyProgramVersion_run (host.after target) path target.label
      rw [Logged.bind_of_ok rfl]
      dsimp only
      cases version : (verifyProgramVersion (host.after target) path target.label).result with
      | error error =>
        rw [Logged.bind_of_error version]
        refine ⟨[installerCall target, versionCall path], by rw [one, asked]; rfl,
          .failed path (fun tool verified => ?_) List.prefix_rfl⟩
        have same := locate_iff.2 verified.found
        rw [located] at same
        cases same
        have succeeded := answers.2 verified.answers
        rw [version] at succeeded
        cases succeeded
      | ok _ =>
        rw [Logged.bind_of_ok version]
        exact ⟨[installerCall target, versionCall path], by rw [one, asked]; rfl,
          .verified ⟨target, path, onPath⟩
            ⟨prepared, installed, rfl, locate_iff.1 located, answers.1 version⟩⟩

/-- The installations of a plan, one after the other, up to the first that fails. -/
inductive Executed (host : Host) :
    List InstallTarget → List Call → Option (List InstalledTool) → Prop
  | done : Executed host [] [] (some [])
  | verified {target : InstallTarget} {targets : List InstallTarget} {own calls : List Call}
      {tool : InstalledTool} {tools : Option (List InstalledTool)}
      (first : Attempted host target own (some tool)) (rest : Executed host targets calls tools) :
      Executed host (target :: targets) (own ++ calls) (tools.map (tool :: ·))
  | aborted {target : InstallTarget} {targets : List InstallTarget} {own : List Call}
      (first : Attempted host target own none) : Executed host (target :: targets) own none

theorem installPlan_executed (host : Host) (targets : List InstallTarget) :
    ∃ calls, (installPlan host targets).log = calls.map .call ∧
      Executed host targets calls (installPlan host targets).result.toOption := by
  induction targets with
  | nil => exact ⟨[], rfl, .done⟩
  | cons target targets ih =>
    obtain ⟨own, logged, first⟩ := installAndVerify_attempted host target
    obtain ⟨calls, later, rest⟩ := ih
    unfold installPlan
    cases attempt : (installAndVerify host target).result with
    | error error =>
      rw [attempt] at first
      rw [Logged.bind_of_error attempt]
      exact ⟨own, logged, .aborted first⟩
    | ok tool =>
      rw [attempt] at first
      rw [Logged.bind_of_ok attempt]
      have both : Executed host (target :: targets) (own ++ calls) _ := .verified first rest
      cases remaining : (installPlan host targets).result with
      | error error =>
        rw [remaining] at both
        rw [Logged.bind_of_error remaining]
        exact ⟨own ++ calls, by simp [logged, later], both⟩
      | ok tools =>
        rw [remaining] at both
        rw [Logged.bind_of_ok remaining]
        exact ⟨own ++ calls, by simp [logged, later]; rfl, both⟩

end Verified

/-! ### What is planned, and the go-ahead -/

section GoAhead

variable {machine : Machine} {report : EnvironmentReport}

/-- The programs that make the installation of a target unnecessary. -/
def InstallTarget.alternatives : InstallTarget → List Str
  | .deno => jsTools
  | .uv => pythonTools

def Lacks (machine : Machine) (target : InstallTarget) : Prop :=
  ∀ name ∈ target.alternatives, machine.resolve name [] = .ok none

/-- The search for the tools ends without an error. -/
def Detects (machine : Machine) : Prop :=
  ∀ target : InstallTarget, ∀ name ∈ target.alternatives,
    ∃ found, machine.resolve name [] = .ok found

/-- The answers of a user who lets the installation go on, by an answer or by the end of the
input. -/
inductive Consents : List (Except Str Str) → Prop
  | ended : Consents []
  | agreed {input : Str} {lines : List (Except Str Str)} (yes : answer input = .yes) :
      Consents (.ok input :: lines)
  | later {input : Str} {lines : List (Except Str Str)} (unclear : answer input = .unclear)
      (consents : Consents lines) : Consents (.ok input :: lines)

theorem detectTools_cons (machine : Machine) (name : Str) (names : List Str) :
    detectTools machine (name :: names) =
      machine.resolve name [] >>= fun path =>
        detectTools machine names >>= fun tools => .ok (⟨name, path⟩ :: tools) := by
  simp [detectTools]
  rfl

theorem detectTools_ok {names : List Str} {tools : List ToolAvailability}
    (detected : detectTools machine names = .ok tools) :
    (∀ name ∈ names, ∃ found, machine.resolve name [] = .ok found) ∧
      (tools.all (!·.isAvailable) = true ↔ ∀ name ∈ names, machine.resolve name [] = .ok none) := by
  induction names generalizing tools with
  | nil =>
    cases detected
    simp
  | cons name names ih =>
    rw [detectTools_cons] at detected
    obtain ⟨path, found, detected⟩ := Except.bind_eq_ok_iff.1 detected
    obtain ⟨others, rest, listed⟩ := Except.bind_eq_ok_iff.1 detected
    cases listed
    have ⟨resolves, missing⟩ := ih rest
    constructor
    · simpa [found] using resolves
    · simp only [List.all_cons, Bool.and_eq_true, missing, List.forall_mem_cons, found]
      cases path <;> simp [ToolAvailability.isAvailable]

theorem detectTools_of_resolves {names : List Str}
    (resolves : ∀ name ∈ names, ∃ found, machine.resolve name [] = .ok found) :
    ∃ tools, detectTools machine names = .ok tools := by
  induction names with
  | nil => exact ⟨[], rfl⟩
  | cons name names ih =>
    obtain ⟨found, resolved⟩ := resolves name List.mem_cons_self
    obtain ⟨tools, detected⟩ := ih fun other mem => resolves other (List.mem_cons_of_mem _ mem)
    exact ⟨⟨name, found⟩ :: tools, by rw [detectTools_cons, resolved, detected]; rfl⟩

theorem detectEnvironment_ok (detected : detectEnvironment machine = .ok report) :
    Detects machine ∧ ∀ target, target ∈ planInstallation report ↔ Lacks machine target := by
  obtain ⟨js, jsDetected, rest⟩ := Except.bind_eq_ok_iff.1 detected
  obtain ⟨python, pythonDetected, listed⟩ := Except.bind_eq_ok_iff.1 rest
  cases listed
  have ⟨jsResolves, jsMissing⟩ := detectTools_ok jsDetected
  have ⟨pythonResolves, pythonMissing⟩ := detectTools_ok pythonDetected
  constructor
  · rintro (_ | _)
    · exact jsResolves
    · exact pythonResolves
  · rintro (_ | _)
    · rw [Lacks, InstallTarget.alternatives, ← jsMissing]
      simp [planInstallation]
    · rw [Lacks, InstallTarget.alternatives, ← pythonMissing]
      simp [planInstallation]

theorem detectEnvironment_of_detects (detects : Detects machine) :
    ∃ report, detectEnvironment machine = .ok report := by
  obtain ⟨js, jsDetected⟩ := detectTools_of_resolves (detects .deno)
  obtain ⟨python, pythonDetected⟩ := detectTools_of_resolves (detects .uv)
  refine ⟨⟨js, python⟩, ?_⟩
  change detectTools machine jsTools = _ at jsDetected
  change detectTools machine pythonTools = _ at pythonDetected
  unfold detectEnvironment
  rw [jsDetected, pythonDetected]
  rfl

theorem planInstallation_ordered (report : EnvironmentReport) :
    (planInstallation report).Sublist [.deno, .uv] := by
  unfold planInstallation
  split_ifs <;> simp

theorem promptForInstallation_run (lines : List (Except Str Str)) :
    (∃ texts : List Str, (promptForInstallation lines).log = texts.map .write) ∧
      ((promptForInstallation lines).result = .ok true ↔ Consents lines) := by
  induction lines with
  | nil => exact ⟨⟨[_], rfl⟩, iff_of_true rfl .ended⟩
  | cons line lines ih =>
    unfold promptForInstallation
    rw [Logged.bind_of_ok rfl]
    cases line with
    | error error => exact ⟨⟨[_], rfl⟩, iff_of_false nofun nofun⟩
    | ok input =>
      dsimp only
      cases replied : answer input with
      | yes => exact ⟨⟨[_], rfl⟩, iff_of_true rfl (.agreed replied)⟩
      | no =>
        refine ⟨⟨[_], rfl⟩, iff_of_false nofun fun consents => ?_⟩
        cases consents with
        | agreed yes => simp [replied] at yes
        | later unclear _ => simp [replied] at unclear
      | unclear =>
        obtain ⟨⟨texts, logged⟩, agreed⟩ := ih
        dsimp only
        rw [Logged.bind_of_ok rfl]
        refine ⟨⟨_ :: _ :: texts, by rw [logged]; rfl⟩,
          agreed.trans ⟨.later replied, fun consents => ?_⟩⟩
        cases consents with
        | agreed yes => simp [replied] at yes
        | later _ consents => exact consents

/-- The programs that are run. -/
def calls (log : List Act) : List Call :=
  log.filterMap fun
    | .write _ => none
    | .call call => some call

@[simp] theorem calls_append (first second : List Act) :
    calls (first ++ second) = calls first ++ calls second := List.filterMap_append

@[simp] theorem calls_write (texts : List Str) : calls (texts.map .write) = [] := by
  simp [calls]

/-- A plan is carried out: its targets are shown before any program is run, and the session
succeeds if all of them are verified. -/
def CarriesOut (host : Host) (targets : List InstallTarget) (session : Session Unit) : Prop :=
  ∃ (shown : List Str) (calls : List Call) (tools : Option (List InstalledTool)) (told : List Str),
    session.log = shown.map .write ++ calls.map .call ++ told.map .write ∧
    (∀ target ∈ targets, planLine target <:+: shown.flatten) ∧
    Executed host targets calls tools ∧
    (session.result = .ok () ↔ tools.isSome = true)

section Sessions

variable {host : Host} {yes : Bool} {lines : List (Except Str Str)}

theorem goAhead_run (yes : Bool) (lines : List (Except Str Str)) :
    (∃ texts : List Str, (goAhead yes lines).log = texts.map .write) ∧
      ((goAhead yes lines).result = .ok true ↔ yes = true ∨ Consents lines) := by
  cases yes with
  | true => exact ⟨⟨[], rfl⟩, iff_of_true rfl (.inl rfl)⟩
  | false => simpa [goAhead] using promptForInstallation_run lines

theorem installEnv_undetected {error : Str}
    (detected : detectEnvironment host.detected = .error error) :
    installEnv host yes lines =
      ⟨[], .error [str "failed to detect environment dependencies", error]⟩ := by
  unfold installEnv
  rw [detected]
  rfl

theorem installEnv_satisfied (detected : detectEnvironment host.detected = .ok report)
    (satisfied : planInstallation report = []) :
    installEnv host yes lines =
      ⟨[.write (detectionReport report), .write nothingToInstall], .ok ()⟩ := by
  unfold installEnv
  rw [detected, Logged.bind_of_ok (a := report) rfl, Logged.bind_of_ok rfl, if_pos satisfied]
  rfl

theorem installEnv_unconsented (unconsented : ¬(yes = true ∨ Consents lines)) :
    calls (installEnv host yes lines).log = [] := by
  obtain ⟨⟨texts, asked⟩, agreed⟩ := goAhead_run yes lines
  cases detected : detectEnvironment host.detected with
  | error error => rw [installEnv_undetected detected]; rfl
  | ok report =>
    by_cases satisfied : planInstallation report = []
    · rw [installEnv_satisfied detected satisfied]
      rfl
    · unfold installEnv
      rw [detected, Logged.bind_of_ok (a := report) rfl, Logged.bind_of_ok rfl, if_neg satisfied,
        Logged.bind_of_ok rfl]
      cases replied : (goAhead yes lines).result with
      | error error =>
        rw [Logged.bind_of_error replied, asked]
        exact calls_write texts
      | ok consent =>
        have refused : consent = false := by
          cases consent with
          | true => exact absurd (agreed.1 replied) unconsented
          | false => rfl
        subst refused
        rw [Logged.bind_of_ok replied, asked]
        exact (calls_append (texts.map .write) [.write cancelled]).trans
          (by rw [calls_write]; rfl)

theorem installEnv_consented (detected : detectEnvironment host.detected = .ok report)
    (consented : yes = true ∨ Consents lines) :
    CarriesOut host (planInstallation report) (installEnv host yes lines) := by
  obtain ⟨⟨texts, asked⟩, agreed⟩ := goAhead_run yes lines
  obtain ⟨calls, ran, executed⟩ := installPlan_executed host (planInstallation report)
  by_cases satisfied : planInstallation report = []
  · rw [installEnv_satisfied detected satisfied, satisfied]
    exact ⟨[_, _], [], some [], [], rfl, by simp, .done, by simp⟩
  · have planned : ∀ target ∈ planInstallation report,
        planLine target <:+: installationPlan (planInstallation report) := fun target mem =>
      (List.infix_of_mem_flatten (List.mem_map_of_mem mem)).trans
        ((List.suffix_append _ _).isInfix)
    have shown (later : List Str) : ∀ target ∈ planInstallation report, planLine target <:+:
        (detectionReport report :: installationPlan (planInstallation report) :: later).flatten :=
      fun target mem => (planned target mem).trans
        (List.infix_of_mem_flatten (by simp))
    unfold installEnv
    rw [detected, Logged.bind_of_ok (a := report) rfl, Logged.bind_of_ok rfl, if_neg satisfied,
      Logged.bind_of_ok rfl, Logged.bind_of_ok (agreed.2 consented), if_pos rfl,
      Logged.bind_of_ok rfl, asked]
    cases installed : (installPlan host (planInstallation report)).result with
    | error error =>
      rw [installed] at executed
      have failed : (context (str "failed to install environment dependencies")
          (installPlan host (planInstallation report))).result =
          .error (str "failed to install environment dependencies" :: error) := by
        rw [context, installed]
        rfl
      rw [Logged.bind_of_error failed]
      refine ⟨_ :: _ :: texts ++ [installationStart], calls, none, [], ?_, shown _, executed,
        by simp⟩
      simp [context, write, Logged.perform, Logged.ofExcept, ran]
    | ok tools =>
      rw [installed] at executed
      have succeeded : (context (str "failed to install environment dependencies")
          (installPlan host (planInstallation report))).result = .ok tools := by
        rw [context, installed]
        rfl
      rw [Logged.bind_of_ok succeeded]
      refine ⟨_ :: _ :: texts ++ [installationStart], calls, some tools,
        [installationComplete tools], ?_, shown _, executed, iff_of_true rfl rfl⟩
      simp [context, write, Logged.perform, Logged.ofExcept, ran]

end Sessions

/-- Programs are run only if the user lets the installation go on.  Then a session in which the
tools can be searched for carries out the plan of just the targets for which no program was
found. -/
theorem installs_by_consent (host : Host) (yes : Bool) (lines : List (Except Str Str)) :
    (calls (installEnv host yes lines).log ≠ [] → yes = true ∨ Consents lines) ∧
    (Detects host.detected → yes = true ∨ Consents lines → ∃ targets,
      (∀ target, target ∈ targets ↔ Lacks host.detected target) ∧ targets.Sublist [.deno, .uv] ∧
        CarriesOut host targets (installEnv host yes lines)) ∧
    (¬ Detects host.detected →
      (installEnv host yes lines).log = [] ∧ (installEnv host yes lines).result ≠ .ok ()) := by
  refine ⟨?_, ?_, ?_⟩
  · intro ran
    by_contra unconsented
    exact ran (installEnv_unconsented unconsented)
  · intro detects consented
    obtain ⟨report, detected⟩ := detectEnvironment_of_detects detects
    exact ⟨planInstallation report, (detectEnvironment_ok detected).2,
      planInstallation_ordered report, installEnv_consented detected consented⟩
  · intro undetectable
    cases detected : detectEnvironment host.detected with
    | error error =>
      rw [installEnv_undetected detected]
      exact ⟨rfl, nofun⟩
    | ok report => exact absurd (detectEnvironment_ok detected).1 undetectable

end GoAhead

end AcpAgent.Commands.Environment
