import AcpAgent.Lib.Transition
import AcpAgent.Server.Client

/-! The start of a daemon by a command that finds none: `request_or_start`, `start_daemon`,
`wait_for_health` and `StartupChildGuard` of `server/client.rs`, whatever the endpoint, the child and
the clock do, and wherever the future is dropped. -/

namespace AcpAgent.Server.Startup

open Serve Wire Control Client

/-! ### One request -/

/-- The awaits of `request_existing`. -/
inductive Stage
  | connecting
  | writing
  | reading

/-- What it finds there. -/
inductive Answer
  /-- `daemon_socket_path` fails, before the first await. -/
  | unresolved (error : Str)
  | connected (result : Except IoError Unit)
  | written (result : Except Str Unit)
  | read (result : Except Str ResponseEnvelope)

/-- The next await, or what the request returns. -/
def Stage.step : Stage → Answer → Option (Stage ⊕ Except ClientError Response)
  | .connecting, .unresolved error =>
    some (.inr (.error (.context (str "failed to resolve daemon endpoint") (.message error))))
  | .connecting, .connected (.error error) => some (.inr (.error (connectError error)))
  | .connecting, .connected (.ok ()) => some (.inl .writing)
  | .writing, .written (.error error) => some (.inr (.error (.message error)))
  | .writing, .written (.ok ()) => some (.inl .reading)
  | .reading, .read (.error error) => some (.inr (.error (.message error)))
  | .reading, .read (.ok response) => some (.inr (responseResult response))
  | _, _ => none

/-! ### The states of a start -/

/-- Where the future is; `childExited` and `waitingForWinner` are the variables of the loop. -/
inductive Phase
  /-- In the first request, or in the one after the start. -/
  | asking (again : Bool) (stage : Stage)
  | spawning
  | probing (childExited waitingForWinner : Bool) (stage : Stage)
  | inspecting (childExited waitingForWinner : Bool)
  | sleeping (childExited waitingForWinner : Bool)
  /-- `start_daemon` with an error of its own or of `wait_for_health`. -/
  | cleaning (error : ClientError)
  | returned (result : Except ClientError Response)
  | dropped
  | panicked

/-- Who has the child; `exit` says whether it has exited, and if with success. -/
inductive Custody
  | unspawned
  | guarded (exit : Option Bool)
  /-- The handle is dropped without a `kill`. -/
  | detached (exit : Option Bool)
  /-- After `kill` and `wait`, with the error of `wait`. -/
  | killed (wait : Option Str)

structure State where
  phase : Phase
  custody : Custody
  /-- The connections on which the command has been written, all of it or in part. -/
  commands : ℕ
  /-- What was last read for the command, and for a probe. -/
  answer : Option ResponseEnvelope
  health : Option ResponseEnvelope

/-- `request_or_start` after its first request, and after the second. -/
def Phase.asked (again : Bool) : Except ClientError Response → Phase
  | .error (.missingEndpoint source) =>
    if again then .returned (.error (.missingEndpoint source)) else .spawning
  | result => .returned result

def exitedEarly : ClientError := .message (str "acp-agent daemon exited before health succeeded")

def timedOut : ClientError :=
  .message (str "timed out waiting for the acp-agent daemon to become healthy")

def uninspected (error : Str) : ClientError :=
  .context (str "failed to inspect daemon startup process") (.message error)

def wrongVersion (version : UInt32) : ClientError :=
  .message (str "daemon reported protocol version " ++ Nat.toDigits 10 version.toNat ++
    str ", expected 2")

/-- `disarm`, and the command again. -/
def State.healthy (s : State) : State :=
  match s.custody with
  | .guarded exit => { s with custody := .detached exit, phase := .asking true .connecting }
  | _ => { s with phase := .panicked }

/-- `wait_for_health` after a probe. -/
def State.probed (s : State) (childExited waitingForWinner : Bool) :
    Except ClientError Response → State
  | .ok (.health version) =>
    if version ≠ protocolVersion then { s with phase := .cleaning (wrongVersion version) }
    else s.healthy
  | .ok other => { s with phase := .cleaning (.unexpected other (str "Health")) }
  | .error (.missingEndpoint _) | .error (.endpoint _) =>
    { s with phase := .inspecting childExited waitingForWinner }
  | .error error => { s with phase := .cleaning error }

/-- `wait_for_health` from `try_wait` on. -/
def State.inspect (s : State) (childExited waitingForWinner : Bool) : State :=
  if ¬childExited then
    match s.custody with
    | .guarded none => { s with phase := .sleeping childExited waitingForWinner }
    | .guarded (some success) =>
      if ¬success then { s with phase := .sleeping true true }
      else { s with phase := .cleaning exitedEarly }
    | _ => { s with phase := .panicked }
  else if ¬waitingForWinner then { s with phase := .cleaning exitedEarly }
  else { s with phase := .sleeping childExited waitingForWinner }

/-- `cleanup`, and what `start_daemon` makes of it. -/
def State.cleanup (s : State) (error : ClientError) (wait : Option Str) : State :=
  match s.custody, wait with
  | .guarded _, none => { s with custody := .killed none, phase := .returned (.error error) }
  | .guarded _, some source => { s with
      custody := .killed (some source)
      phase := .returned (.error (.context
        (str "failed to clean up daemon after startup failure: failed to wait for daemon child " ++
          str "during startup cleanup: " ++ source) error)) }
  | _, _ => { s with phase := .returned (.error error) }

/-- `Drop` of the guard, if the future is dropped while it is armed. -/
def State.drop (s : State) (wait : Option Str) : State :=
  match s.custody with
  | .guarded _ => { s with custody := .killed wait, phase := .dropped }
  | _ => { s with phase := .dropped }

/-- The await that the future may be dropped at, and `wait_for_health` be timed out at. -/
def Phase.Awaits : Phase → Prop
  | .asking _ _ | .probing _ _ _ | .sleeping _ _ => True
  | _ => False

def Phase.Waits : Phase → Prop
  | .probing _ _ _ | .sleeping _ _ => True
  | _ => False

/-- The start of a connection for the command, and the end of one. -/
def State.meet (s : State) : Answer → State
  | .connected (.ok ()) => { s with commands := s.commands + 1, answer := none }
  | .read (.ok response) => { s with answer := some response }
  | _ => s

def State.meetProbe (s : State) : Answer → State
  | .read (.ok response) => { s with health := some response }
  | _ => s

inductive Step : State → Unit → State → Prop
  | ask {s : State} {again : Bool} {stage next : Stage} {a : Answer}
      (h : s.phase = .asking again stage) (found : stage.step a = some (.inl next)) :
      Step s () { s.meet a with phase := .asking again next }
  | asked {s : State} {again : Bool} {stage : Stage} {a : Answer}
      {result : Except ClientError Response} (h : s.phase = .asking again stage)
      (found : stage.step a = some (.inr result)) :
      Step s () { s.meet a with phase := .asked again result }
  /-- `current_exe` fails, or `spawn`. -/
  | unspawned {s : State} (h : s.phase = .spawning) (error : ClientError) :
      Step s () { s with phase := .returned (.error error) }
  | spawned {s : State} (h : s.phase = .spawning) :
      Step s () { s with custody := .guarded none, phase := .probing false false .connecting }
  | exits {s : State} (h : s.custody = .guarded none) (success : Bool) :
      Step s () { s with custody := .guarded (some success) }
  | exitsDetached {s : State} (h : s.custody = .detached none) (success : Bool) :
      Step s () { s with custody := .detached (some success) }
  | probe {s : State} {exited winner : Bool} {stage next : Stage} {a : Answer}
      (h : s.phase = .probing exited winner stage) (found : stage.step a = some (.inl next)) :
      Step s () { s.meetProbe a with phase := .probing exited winner next }
  | probed {s : State} {exited winner : Bool} {stage : Stage} {a : Answer}
      {result : Except ClientError Response} (h : s.phase = .probing exited winner stage)
      (found : stage.step a = some (.inr result)) :
      Step s () ((s.meetProbe a).probed exited winner result)
  | inspect {s : State} {exited winner : Bool} (h : s.phase = .inspecting exited winner) :
      Step s () (s.inspect exited winner)
  | inspectFails {s : State} {winner : Bool} {exit : Option Bool}
      (h : s.phase = .inspecting false winner) (held : s.custody = .guarded exit) (error : Str) :
      Step s () { s with phase := .cleaning (uninspected error) }
  | wake {s : State} {exited winner : Bool} (h : s.phase = .sleeping exited winner) :
      Step s () { s with phase := .probing exited winner .connecting }
  | timeout {s : State} (h : s.phase.Waits) : Step s () { s with phase := .cleaning timedOut }
  | cleanup {s : State} {error : ClientError} (h : s.phase = .cleaning error) (wait : Option Str) :
      Step s () (s.cleanup error wait)
  | drop {s : State} (h : s.phase.Awaits) (wait : Option Str) : Step s () (s.drop wait)

def system : Transition.System State Unit where
  init s := s = ⟨.asking false .connecting, .unspawned, 0, none, none⟩
  step := Step

/-! ### What holds at every await -/

/-- Whether the command has been written on the connection of the request. -/
def Stage.begun : Stage → ℕ
  | .connecting => 0
  | .writing | .reading => 1

def healthyAnswer : ResponseEnvelope := success (.health protocolVersion)

def Custody.Guarded (custody : Custody) : Prop := ∃ exit, custody = .guarded exit

/-- The child is somebody else's: a probe has found a daemon of this version. -/
def Custody.Detached (custody : Custody) (health : Option ResponseEnvelope) : Prop :=
  (∃ exit, custody = .detached exit) ∧ health = some healthyAnswer

/-- The loop keeps going without its child only if the child has failed. -/
def Custody.Watched (childExited waitingForWinner : Bool) (custody : Custody) : Prop :=
  ∃ exit, custody = .guarded exit ∧
    (childExited = true → exit = some false ∧ waitingForWinner = true)

/-- No probe has found a daemon of this version, and the command has not been written. -/
def Early (commands : ℕ) (health : Option ResponseEnvelope) : Prop :=
  commands = 0 ∧ health ≠ some healthyAnswer

/-- What is known at the end: a child that is not there or killed, or that outlives the command. -/
inductive Settled (custody : Custody) (health : Option ResponseEnvelope) (commands : ℕ) : Prop
  | unspawned (h : custody = .unspawned) (once : commands ≤ 1) : Settled custody health commands
  | killed {wait : Option Str} (h : custody = .killed wait) (early : Early commands health) :
      Settled custody health commands
  | detached (h : custody.Detached health) (once : commands ≤ 1) : Settled custody health commands

/-- A result tells of the one time that the command was written. -/
def Told (commands : ℕ) (answer : Option ResponseEnvelope) : Except ClientError Response → Prop
  | .ok response => commands = 1 ∧ answer = some (success response)
  | .error (.missingEndpoint _) => commands = 0
  | .error _ => True

def Phase.Sound (custody : Custody) (commands : ℕ) (answer health : Option ResponseEnvelope) :
    Phase → Prop
  | .asking false stage =>
    custody = .unspawned ∧ commands = stage.begun ∧ health ≠ some healthyAnswer
  | .asking true stage => custody.Detached health ∧ commands = stage.begun
  | .spawning => custody = .unspawned ∧ Early commands health
  | .probing exited winner _ | .inspecting exited winner | .sleeping exited winner =>
    custody.Watched exited winner ∧ Early commands health
  | .cleaning _ => custody.Guarded ∧ Early commands health
  | .returned result => Settled custody health commands ∧ Told commands answer result
  | .dropped => Settled custody health commands
  | .panicked => False

def State.Sound (s : State) : Prop := s.phase.Sound s.custody s.commands s.answer s.health

section Runs

variable {s t : State} {stage next : Stage} {a : Answer} {result : Except ClientError Response}
  {exited winner : Bool}

theorem Custody.Watched.guarded {custody : Custody} (h : custody.Watched exited winner) :
    custody.Guarded :=
  h.imp fun _ held => held.1

theorem Stage.step_inl (h : stage.step a = some (.inl next)) :
    stage = .connecting ∧ a = .connected (.ok ()) ∧ next = .writing ∨
      stage = .writing ∧ a = .written (.ok ()) ∧ next = .reading := by
  unfold Stage.step at h
  split at h <;> simp_all

/-- A request ends with a response, or at an await at which nothing was read. -/
theorem Stage.step_inr (h : stage.step a = some (.inr result)) :
    (∃ response, stage = .reading ∧ a = .read (.ok response) ∧ result = responseResult response) ∨
      (∃ error, result = .error error) ∧ (∀ s : State, s.meet a = s ∧ s.meetProbe a = s) ∧
        ∀ source, result = .error (.missingEndpoint source) → stage = .connecting := by
  unfold Stage.step at h
  split at h
  all_goals simp_all [State.meet, State.meetProbe]
  all_goals subst_vars
  all_goals simp

theorem responseResult_eq_ok_iff {answer : ResponseEnvelope} {response : Response} :
    responseResult answer = .ok response ↔ answer = success response := by
  cases answer with
  | success version result =>
    by_cases current : version = protocolVersion <;> simp [responseResult, success, current]
  | error version error =>
    by_cases current : version = protocolVersion <;> simp [responseResult, success, current]

theorem responseResult_ne_missing {answer : ResponseEnvelope} {source : Str} :
    responseResult answer ≠ .error (.missingEndpoint source) := by
  unfold responseResult
  split
  all_goals
    split_ifs
    all_goals simp

theorem Stage.begun_le (stage : Stage) : stage.begun ≤ 1 := by
  cases stage <;> simp [Stage.begun]

theorem State.meet_next (found : stage.step a = some (.inl next)) (s : State)
    (h : s.commands = stage.begun) : (s.meet a).commands = next.begun ∧
      (s.meet a).custody = s.custody ∧ (s.meet a).health = s.health := by
  rcases Stage.step_inl found with ⟨rfl, rfl, rfl⟩ | ⟨rfl, rfl, rfl⟩
  · simp [State.meet, h, Stage.begun]
  · simp [State.meet, h, Stage.begun]

theorem State.meetProbe_next (found : stage.step a = some (.inl next)) (s : State) :
    s.meetProbe a = s := by
  rcases Stage.step_inl found with ⟨-, rfl, -⟩ | ⟨-, rfl, -⟩ <;> rfl

theorem Told.unwritten (answer : Option ResponseEnvelope) (error : ClientError) :
    Told 0 answer (.error error) := by
  cases error <;> simp [Told]

/-- A daemon that has answered has been written to. -/
theorem Told.read (response : ResponseEnvelope) :
    Told 1 (some response) (responseResult response) := by
  cases told : responseResult response with
  | ok result => exact ⟨rfl, congrArg some (responseResult_eq_ok_iff.mp told)⟩
  | error error =>
    cases error with
    | missingEndpoint source => exact absurd told responseResult_ne_missing
    | endpoint | daemon | unexpected | message | context => trivial

theorem Told.failed {answer : Option ResponseEnvelope} {error : ClientError}
    (missing : ∀ source, error = .missingEndpoint source → stage = .connecting) :
    Told stage.begun answer (.error error) := by
  cases error with
  | missingEndpoint source =>
    rw [missing source rfl]
    rfl
  | endpoint | daemon | unexpected | message | context => trivial

/-- Only a first request that has found no endpoint is followed by a start. -/
theorem Phase.asked_cases (again : Bool) (result : Except ClientError Response) :
    (again = false ∧ (∃ source, result = .error (.missingEndpoint source)) ∧
      Phase.asked again result = .spawning) ∨ Phase.asked again result = .returned result := by
  rcases result with (source | _ | _ | _ | _ | _) | response
  · cases again with
    | false => exact .inl ⟨rfl, ⟨source, rfl⟩, rfl⟩
    | true => exact .inr rfl
  all_goals exact .inr rfl

theorem Settled.asked {again : Bool} {custody : Custody} {commands : ℕ}
    {answer health : Option ResponseEnvelope}
    (h : (Phase.asking again stage).Sound custody commands answer health) :
    Settled custody health commands := by
  cases again with
  | false => exact .unspawned h.1 (h.2.1 ▸ stage.begun_le)
  | true => exact .detached h.1 (h.2 ▸ stage.begun_le)

/-- The command is told of as often as it was written, after the first request and the second. -/
theorem Phase.sound_asked {again : Bool} (h : (Phase.asking again stage).Sound s.custody s.commands
    s.answer s.health) (found : stage.step a = some (.inr result)) :
    (Phase.asked again result).Sound (s.meet a).custody (s.meet a).commands (s.meet a).answer
      (s.meet a).health := by
  have settled := Settled.asked h
  have begun : s.commands = stage.begun := by
    cases again with
    | false => exact h.2.1
    | true => exact h.2
  rcases Stage.step_inr found with ⟨response, rfl, rfl, rfl⟩ | ⟨⟨error, rfl⟩, same, missing⟩
  · rcases Phase.asked_cases again (responseResult response) with
      ⟨-, ⟨source, told⟩, -⟩ | returned
    · exact absurd told responseResult_ne_missing
    · rw [returned]
      refine ⟨settled, ?_⟩
      have once : s.commands = 1 := begun
      simpa [State.meet, once] using Told.read response
  · rw [(same s).1]
    rcases Phase.asked_cases again (.error error) with ⟨rfl, ⟨source, told⟩, next⟩ | returned
    · rw [next]
      rw [missing source told] at begun
      exact ⟨h.1, begun, h.2.2⟩
    · rw [returned, begun]
      refine ⟨begun ▸ settled, Told.failed ?_⟩
      rintro source rfl
      exact missing source rfl

/-- The guard has the child when a probe finds the daemon, so `disarm` finds it. -/
theorem State.sound_probed (held : s.custody.Watched exited winner) (none : s.commands = 0)
    (read : s.health = some healthyAnswer ↔ result = .ok (.health protocolVersion)) :
    (s.probed exited winner result).Sound := by
  have early : result ≠ .ok (.health protocolVersion) → Early s.commands s.health := fun other =>
    ⟨none, fun healthy => other (read.mp healthy)⟩
  unfold State.probed
  split
  · split_ifs with version
    · exact ⟨held.guarded, early (by simpa using version)⟩
    · obtain ⟨exit, guarded, -⟩ := held
      obtain rfl := not_not.mp version
      rw [State.healthy, guarded]
      exact ⟨⟨⟨exit, rfl⟩, read.mpr rfl⟩, none⟩
  · rename_i other
    exact ⟨held.guarded, early fun same => other _ (Except.ok.inj same)⟩
  · exact ⟨held, early nofun⟩
  · exact ⟨held, early nofun⟩
  · exact ⟨held.guarded, early nofun⟩

/-- Nor does `try_wait` ever miss it. -/
theorem State.sound_inspect (held : s.custody.Watched exited winner)
    (early : Early s.commands s.health) :
    (s.inspect exited winner).Sound := by
  obtain ⟨exit, guarded, failed⟩ := held
  unfold State.inspect
  rw [guarded]
  cases exited with
  | false =>
    rcases exit with _ | _ | _
    · exact ⟨⟨Option.none, rfl, nofun⟩, early⟩
    · exact ⟨⟨some false, rfl, fun _ => ⟨rfl, rfl⟩⟩, early⟩
    · exact ⟨⟨some true, rfl⟩, early⟩
  | true =>
    obtain ⟨-, rfl⟩ := failed rfl
    exact ⟨⟨exit, rfl, failed⟩, early⟩

section Exit

variable {phase : Phase} {commands : ℕ} {answer health : Option ResponseEnvelope}

theorem Custody.Watched.exits (h : (Custody.guarded none).Watched exited winner) (success : Bool) :
    (Custody.guarded (some success)).Watched exited winner := by
  obtain ⟨exit, guarded, failed⟩ := h
  obtain rfl := Custody.guarded.inj guarded
  exact ⟨some success, rfl, fun gone => nomatch (failed gone).1⟩

theorem Settled.not_guarded {exit : Option Bool} (h : Settled (.guarded exit) health commands) :
    False := by
  cases h with
  | unspawned h => cases h
  | killed h => cases h
  | detached h => exact nomatch h.1

theorem Phase.Sound.exits (h : phase.Sound (.guarded none) commands answer health)
    (success : Bool) : phase.Sound (.guarded (some success)) commands answer health := by
  cases phase with
  | asking again stage =>
    cases again with
    | false => exact nomatch h.1
    | true => exact nomatch h.1.1
  | spawning => exact nomatch h.1
  | probing | inspecting | sleeping => exact ⟨h.1.exits success, h.2⟩
  | cleaning => exact ⟨⟨_, rfl⟩, h.2⟩
  | returned => exact h.1.not_guarded.elim
  | dropped => exact Settled.not_guarded h |>.elim
  | panicked => exact h

theorem Settled.exits {exit exit' : Option Bool} (h : Settled (.detached exit) health commands) :
    Settled (.detached exit') health commands := by
  cases h with
  | unspawned h => cases h
  | killed h => cases h
  | detached h once => exact .detached ⟨⟨exit', rfl⟩, h.2⟩ once

theorem Phase.Sound.exitsDetached {exit exit' : Option Bool}
    (h : phase.Sound (.detached exit) commands answer health) :
    phase.Sound (.detached exit') commands answer health := by
  cases phase with
  | asking again stage =>
    cases again with
    | false => exact nomatch h.1
    | true => exact ⟨⟨⟨exit', rfl⟩, h.1.2⟩, h.2⟩
  | spawning => exact nomatch h.1
  | probing | inspecting | sleeping => exact nomatch h.1.guarded
  | cleaning => exact nomatch h.1
  | returned => exact ⟨h.1.exits, h.2⟩
  | dropped => exact Settled.exits h
  | panicked => exact h

end Exit

/-- The future is dropped with the guard armed, or with the child settled. -/
theorem State.sound_drop (h : s.phase.Awaits) (hs : s.Sound) (wait : Option Str) :
    (s.drop wait).Sound := by
  unfold State.Sound at hs
  have settles : (s.custody.Guarded ∧ Early s.commands s.health) ∨
      Settled s.custody s.health s.commands := by
    cases at_ : s.phase <;> rw [at_] at h hs
    case asking again stage => exact .inr (.asked hs)
    case probing | sleeping => exact .inl ⟨hs.1.guarded, hs.2⟩
    all_goals exact h.elim
  unfold State.drop
  rcases settles with ⟨⟨exit, guarded⟩, early⟩ | settled
  · rw [guarded]
    exact .killed rfl early
  · split
    · rename_i guarded
      rw [guarded] at settled
      exact settled.not_guarded.elim
    · exact settled

theorem State.sound_cleanup {error : ClientError} (guarded : s.custody.Guarded)
    (early : Early s.commands s.health) (wait : Option Str) : (s.cleanup error wait).Sound := by
  obtain ⟨exit, guarded⟩ := guarded
  unfold State.cleanup
  rw [guarded]
  cases wait with
  | none => exact ⟨.killed rfl early, early.1 ▸ Told.unwritten _ _⟩
  | some source => exact ⟨.killed rfl early, early.1 ▸ Told.unwritten _ _⟩

theorem Step.sound (h : Step s () t) (hs : s.Sound) : t.Sound := by
  have sound := hs
  unfold State.Sound at hs
  cases h with
  | @ask again _ _ _ h found =>
    rw [h] at hs
    cases again with
    | false =>
      obtain ⟨begun, custody, health⟩ := State.meet_next found s hs.2.1
      exact ⟨custody.trans hs.1, begun, health ▸ hs.2.2⟩
    | true =>
      obtain ⟨begun, custody, health⟩ := State.meet_next found s hs.2
      refine ⟨?_, begun⟩
      rw [custody, health]
      exact hs.1
  | asked h found =>
    rw [h] at hs
    exact Phase.sound_asked hs found
  | unspawned h error =>
    rw [h] at hs
    exact ⟨.unspawned hs.1 (by simp [hs.2.1]), hs.2.1 ▸ Told.unwritten _ _⟩
  | spawned h =>
    rw [h] at hs
    exact ⟨⟨none, rfl, nofun⟩, hs.2⟩
  | exits h success =>
    rw [h] at hs
    exact hs.exits success
  | exitsDetached h success =>
    rw [h] at hs
    exact hs.exitsDetached
  | probe h found =>
    rw [h] at hs
    rw [State.meetProbe_next found]
    exact hs
  | probed h found =>
    rw [h] at hs
    rcases Stage.step_inr found with ⟨response, -, rfl, rfl⟩ | ⟨⟨error, rfl⟩, same, -⟩
    · refine State.sound_probed hs.1 hs.2.1 ?_
      rw [responseResult_eq_ok_iff]
      exact Option.some_inj
    · rw [(same s).2]
      exact State.sound_probed hs.1 hs.2.1 (iff_of_false hs.2.2 nofun)
  | inspect h =>
    rw [h] at hs
    exact State.sound_inspect hs.1 hs.2
  | inspectFails h held error =>
    rw [h] at hs
    exact ⟨⟨_, held⟩, hs.2⟩
  | wake h =>
    rw [h] at hs
    exact hs
  | timeout h =>
    have waits : s.custody.Guarded ∧ Early s.commands s.health := by
      cases at_ : s.phase <;> rw [at_] at h hs
      case probing | sleeping => exact ⟨hs.1.guarded, hs.2⟩
      all_goals exact h.elim
    exact waits
  | cleanup h wait =>
    rw [h] at hs
    exact State.sound_cleanup hs.1 hs.2 wait
  | drop h wait => exact State.sound_drop h sound wait

theorem sound (h : system.Reachable s) : s.Sound := by
  refine h.invariant (I := State.Sound) ?_ fun _ _ _ _ hs step => Step.sound step hs
  rintro s rfl
  exact ⟨rfl, rfl, nofun⟩

/-- The future is over. -/
def Phase.Over : Phase → Prop
  | .returned _ | .dropped => True
  | _ => False

/-- Where the child can be. -/
theorem State.Sound.custody (hs : s.Sound) :
    s.custody = .unspawned ∨ (s.custody.Guarded ∧ ¬s.phase.Over ∧ Early s.commands s.health) ∨
      (∃ wait, s.custody = .killed wait ∧ Early s.commands s.health) ∨
      s.custody.Detached s.health := by
  have settled (h : Settled s.custody s.health s.commands) : s.custody = .unspawned ∨
      (∃ wait, s.custody = .killed wait ∧ Early s.commands s.health) ∨
      s.custody.Detached s.health := by
    cases h with
    | unspawned h => exact .inl h
    | killed h early => exact .inr (.inl ⟨_, h, early⟩)
    | detached h => exact .inr (.inr h)
  unfold State.Sound at hs
  cases at_ : s.phase <;> rw [at_] at hs
  case asking => exact (settled (.asked hs)).imp_right .inr
  case returned => exact (settled hs.1).imp_right .inr
  case dropped => exact (settled hs).imp_right .inr
  case panicked => exact hs.elim
  case spawning => exact .inl hs.1
  case cleaning => exact .inr (.inl ⟨hs.1, id, hs.2⟩)
  all_goals exact .inr (.inl ⟨hs.1.guarded, id, hs.2⟩)

theorem Settled.once {custody : Custody} {health : Option ResponseEnvelope} {commands : ℕ}
    (h : Settled custody health commands) : commands ≤ 1 := by
  cases h with
  | unspawned _ once => exact once
  | killed _ early => simp [early.1]
  | detached _ once => exact once

theorem State.Sound.once (hs : s.Sound) : s.commands ≤ 1 := by
  unfold State.Sound at hs
  cases at_ : s.phase <;> rw [at_] at hs
  case asking => exact (Settled.asked hs).once
  case returned => exact hs.1.once
  case dropped => exact Settled.once hs
  case panicked => exact hs.elim
  all_goals exact hs.2.1.le.trans (Nat.zero_le 1)

/-- Once there is a child, the command is written only to a daemon that has shown itself healthy. -/
theorem State.Sound.written (hs : s.Sound) (spawned : s.custody ≠ .unspawned)
    (written : 0 < s.commands) : s.custody.Detached s.health := by
  rcases hs.custody with custody | ⟨-, -, early⟩ | ⟨-, -, early⟩ | detached
  · exact absurd custody spawned
  · exact absurd early.1 written.ne'
  · exact absurd early.1 written.ne'
  · exact detached

/-- However the endpoint, the child and the clock behave, the command is written at most once; a
result is what the daemon that it was written to has answered, a missing endpoint means that it was
not written, and after a start it goes only to a daemon that a probe has found healthy. -/
theorem command_at_most_once (h : system.Reachable s) :
    s.commands ≤ 1 ∧
    (∀ response, s.phase = .returned (.ok response) →
      s.commands = 1 ∧ s.answer = some (success response)) ∧
    (∀ source, s.phase = .returned (.error (.missingEndpoint source)) → s.commands = 0) ∧
    (s.custody ≠ .unspawned → 0 < s.commands → s.custody.Detached s.health) := by
  have hs := sound h
  refine ⟨hs.once, fun response at_ => ?_, fun source at_ => ?_, hs.written⟩
  · unfold State.Sound at hs
    rw [at_] at hs
    exact hs.2
  · unfold State.Sound at hs
    rw [at_] at hs
    exact hs.2

/-- The first request finds no endpoint. -/
def nobody : State := ⟨.spawning, .unspawned, 0, none, none⟩

theorem reachable_nobody : system.Reachable nobody := by
  have h0 : system.Reachable ⟨.asking false .connecting, .unspawned, 0, none, none⟩ := .init rfl
  have h1 := h0.step (.asked (a := .connected (.error ⟨.notFound, []⟩)) rfl rfl)
  exact h1

/-- The daemon that was started answers the probe, and the command. -/
theorem command_after_start : ∃ s : State, s.phase = .returned (.ok .shutdown) ∧ s.commands = 1 ∧
    s.custody.Detached s.health := by
  have h1 := reachable_nobody.step (.spawned rfl)
  have h2 := h1.step (.probe (a := .connected (.ok ())) rfl rfl)
  have h3 := h2.step (.probe (a := .written (.ok ())) rfl rfl)
  have h4 := h3.step (.probed (a := .read (.ok healthyAnswer)) rfl rfl)
  have h5 := h4.step (.ask (a := .connected (.ok ())) rfl rfl)
  have h6 := h5.step (.ask (a := .written (.ok ())) rfl rfl)
  have h7 := h6.step (.asked (a := .read (.ok (success .shutdown))) rfl rfl)
  have facts := command_at_most_once h7
  exact ⟨_, rfl, (facts.2.1 _ rfl).1, facts.2.2.2 nofun Nat.one_pos⟩

/-- No start leaves a child behind: until a probe has found a daemon of this version the guard has
it, the end of the future, wherever it comes, kills it and waits for it, and afterwards it is never
killed; and `expect` never finds the guard disarmed. -/
theorem child_accounted (h : system.Reachable s) :
    s.phase ≠ .panicked ∧
    (s.phase.Over → ¬s.custody.Guarded) ∧
    ((∃ exit, s.custody = .detached exit) → s.health = some healthyAnswer) ∧
    ((∃ wait, s.custody = .killed wait) → s.health ≠ some healthyAnswer) ∧
    ∀ response, s.phase = .returned (.ok response) →
      s.custody = .unspawned ∨ s.custody.Detached s.health := by
  have hs := sound h
  have running : s.phase ≠ .panicked := by
    intro at_
    unfold State.Sound at hs
    rw [at_] at hs
    exact hs
  refine ⟨running, ?_⟩
  rcases hs.custody with custody | ⟨⟨exit, custody⟩, going, -⟩ | ⟨wait, custody, early⟩ | detached
  · rw [custody]
    exact ⟨fun _ => nofun, nofun, nofun, fun _ _ => .inl rfl⟩
  · rw [custody]
    refine ⟨fun over_ => absurd over_ going, nofun, nofun, fun response at_ => absurd ?_ going⟩
    rw [at_]
    trivial
  · rw [custody]
    refine ⟨fun _ => nofun, nofun, fun _ => early.2, fun response at_ => ?_⟩
    unfold State.Sound at hs
    rw [at_] at hs
    exact absurd (hs.2.1.symm.trans early.1) one_ne_zero
  · obtain ⟨⟨exit, custody⟩, healthy⟩ := detached
    rw [custody]
    exact ⟨fun _ => nofun, fun _ => healthy, nofun, fun _ _ => .inr ⟨⟨exit, rfl⟩, healthy⟩⟩

/-- A start that is dropped while its daemon comes up. -/
theorem child_of_dropped_start : ∃ s : State, s.phase = .dropped ∧ s.custody = .killed none ∧
    s.health ≠ some healthyAnswer := by
  have h1 := reachable_nobody.step (.spawned rfl)
  have awaits : (Phase.probing false false .connecting).Awaits := trivial
  have h2 := h1.step (.drop awaits none)
  exact ⟨_, rfl, rfl, (child_accounted h2).2.2.2.1 ⟨none, rfl⟩⟩

end Runs

end AcpAgent.Server.Startup
