import AcpAgent.Lib.Locks
import AcpAgent.Server.Routes

/-! The supervisor of the named servers: `create_instance`, `stop_instance` and the other operations
of `server/daemon.rs`, `register` and `unregister` of `server/routes.rs`, and `handle_request` and
`run_supervisor_loop` of `server/control.rs`, as tasks that interleave at their await points.  The
name of a task's state says what the task awaits. -/

namespace AcpAgent.Server.Supervisor

open Transition Routes

/-- `DaemonPhase`. -/
inductive Phase
  | running
  | shuttingDown
  deriving DecidableEq

/-- The address that a listener is bound to: its port, and its text as `public_address` gives it. -/
structure Address where
  port : UInt16
  text : Str
  deriving DecidableEq

/-- `DaemonInstance`.  `listenerTask` says whether the join handle is still in its mutex, and
`finished` whether the listener's task has ended. -/
structure Instance (ρ : Type*) where
  name : Str
  requestedHost : Str
  requestedPort : UInt16
  address : Address
  state : InstanceState
  listenerTask : Bool
  finished : Bool
  routes : Table ρ

/-- `SupervisorState` with the instances that tasks refer to, by number. -/
structure Shared (ρ : Type*) where
  phase : Phase
  instances : Str → Option ℕ
  table : ℕ → Instance ρ
  next : ℕ

/-- The mutexes that a task may hold at an await.  No task awaits anything while it holds a
`listener_task` mutex or a `routes` lock. -/
inductive Lock
  | daemon
  | stop (id : ℕ)
  | state (id : ℕ)
  deriving DecidableEq

/-- `stop_instance`. -/
inductive StopPc
  | lookup
  | notFound
  | stopLock (id : ℕ)
  | state (id : ℕ)
  | task (id : ℕ)
  | join (id : ℕ)
  | daemon (id : ℕ) (failure : Option Str)
  | done (id : ℕ) (failure : Option Str)

/-- What `register` and `unregister` do under their locks. -/
inductive Change (ρ : Type*)
  | register (request : RegisterRequest) (runtime : ρ)
  | unregister (request : UnregisterRequest)

/-- The end of `register` and of `unregister`, from `stop_lock` on. -/
inductive ChangePc
  | stopLock
  | state
  | daemon
  | routes

abbrev Outcome := Except OperationError Unit

/-- What a request is answered with success: `done` where the answer repeats nothing but the
request.  What an answer says of the readiness of its routes is read from their runtimes. -/
inductive Reply (ρ : Type*)
  | done
  | server (result : InstanceResult)
  | servers (results : List InstanceResult)
  | route (name : Str) (address : Address) (key : RouteKey) (runtime : ρ)
  | routes (name : Str) (address : Address) (routes : Table ρ)

abbrev Answer (ρ : Type*) := Except OperationError (Reply ρ)

/-- A task of the daemon. -/
inductive Thread (ρ : Type*)
  | idle
  | answered (request : Request) (answer : Answer ρ)
  /-- The phase check of `handle_request`. -/
  | gate (request : Request)
  | create (request : CreateInstanceRequest)
  | existing (request : CreateInstanceRequest) (id : ℕ)
  | bind (request : CreateInstanceRequest)
  /-- The new instance, which only its listener knows, waits for its own `listener_task` mutex. -/
  | spawned (request : CreateInstanceRequest) (instance_ : Instance ρ)
  | stop (name : Str) (pc : StopPc)
  | register (request : RegisterRequest)
  | firstCheck (request : RegisterRequest) (id : ℕ)
  /-- The registry, the agent's command and the runtime. -/
  | resolving (request : RegisterRequest) (id : ℕ)
  | unregister (request : UnregisterRequest)
  | change (c : Change ρ) (id : ℕ) (pc : ChangePc)
  | list
  | listing (ids : List ℕ) (results : List InstanceResult)
  | status (name : Str)
  | statusOf (name : Str) (id : ℕ)
  | registrations (name : Str)
  | registrationsOf (name : Str) (id : ℕ)
  | shutdown
  /-- A public request in `dispatch_instance`, before and under the `state` mutex. -/
  | dispatch (id : ℕ)
  | routing (id : ℕ)
  -- `run_supervisor_loop`.
  | serving
  | signalled
  | closing
  | snapshot
  | sweep (names : List Str)
  | sweeping (name : Str) (names : List Str) (pc : StopPc)
  | removing

/-! ### Errors -/

section Errors

def shuttingDown : OperationError := ⟨.operation, str "daemon is shutting down"⟩

/-- The error of `instance_for`; `debug` is the `{:?}` of a string. -/
def notFound (debug : Str → Str) (name : Str) : OperationError :=
  ⟨.notFound, str "instance " ++ debug name ++ str " was not found"⟩

/-- The error of `ensure_running`. -/
def isStopping (name : Str) : OperationError :=
  ⟨.operation, str "instance " ++ name ++ str " is stopping"⟩

def listenerFailed (error : Str) : OperationError :=
  ⟨.operation, str "instance listener failed: " ++ error⟩

def bindFailed (request : CreateInstanceRequest) (error : Str) : OperationError :=
  ⟨.unavailable, str "failed to bind instance " ++ request.host ++ str ":" ++
    Nat.toDigits 10 request.port.toNat ++ str ": " ++ error⟩

def addressFailed (error : Str) : OperationError :=
  ⟨.operation, str "failed to read instance listener address: " ++ error⟩

end Errors

variable {ρ : Type*}

/-- `DaemonInstance::result`. -/
def instanceResult (i : Instance ρ) (state : InstanceState) : InstanceResult :=
  ⟨i.name, i.requestedHost, i.address.port, i.address.text, state⟩

/-- Whether `create_instance` succeeds when the name is taken. -/
def existingOutcome (debug : Str → Str) (request : CreateInstanceRequest) (i : Instance ρ) :
    Outcome :=
  if i.state ≠ .running then
    .error ⟨.operation, str "instance " ++ debug request.name ++ str " is stopping"⟩
  else if i.requestedHost = request.host ∧ i.requestedPort = request.port then .ok ()
  else .error ⟨.conflict, str "instance " ++ debug request.name ++
    str " already exists with a different configuration"⟩

def Change.name : Change ρ → Str
  | .register request _ => request.name
  | .unregister request => request.name

def Change.request : Change ρ → Request
  | .register request _ => .register request
  | .unregister request => .unregister request

def Change.apply (routes : Table ρ) : Change ρ → Except OperationError (Table ρ)
  | .register request runtime =>
    insertRoute routes ⟨request.id, request.route, request.config⟩ runtime
  | .unregister request => removeRoute routes request.id

/-- What `register` and `unregister` answer for an instance of this name and address. -/
def Change.reply (name : Str) (address : Address) : Change ρ → Reply ρ
  | .register request runtime =>
    .route name address ⟨request.id, request.route, request.config⟩ runtime
  | .unregister _ => .done

/-- The order of `list_instances`. -/
def instanceLe (left right : InstanceResult) : Bool := decide (left.name ≤ right.name)

/-- The order of `registrations`: by route, then by id. -/
def routeLe (left right : RouteKey × ρ) : Bool :=
  if left.1.publicRoute = right.1.publicRoute then decide (left.1.id ≤ right.1.id)
  else decide (left.1.publicRoute ≤ right.1.publicRoute)

/-- The checks of `create_instance` before its first await. -/
def checkCreate (request : CreateInstanceRequest) : Outcome := do
  invalidInput (validateName request.name)
  if Str.isBlank request.host then
    .error ⟨.invalidInput, str "instance host must not be empty"⟩

/-- The checks of `unregister` before its first await. -/
def checkUnregister (request : UnregisterRequest) : Outcome := do
  invalidInput (validateName request.name)
  if ¬validateAgentId request.id then
    .error ⟨.invalidInput, str "agent id must not be empty"⟩

/-- The operation runs if its checks pass. -/
def Thread.checked (request : Request) (check : Outcome) (next : Thread ρ) : Thread ρ :=
  match check with
  | .ok () => next
  | .error error => .answered request (.error error)

/-- The `match` of `handle_request`. -/
def Thread.enter (lib : UriParser) : Request → Thread ρ
  | .health => .answered .health (.ok .done)
  | .createInstance request => .checked (.createInstance request) (checkCreate request)
      (.create request)
  | .stopInstance name => .stop name .lookup
  | .register request => .checked (.register request) (checkRegister lib request)
      (.register request)
  | .unregister request => .checked (.unregister request) (checkUnregister request)
      (.unregister request)
  | .list => .list
  | .status name => .status name
  | .registrations name => .registrations name
  | .shutdown => .shutdown

def isMutation : Request → Bool
  | .createInstance _ | .stopInstance _ | .register _ | .unregister _ => true
  | _ => false

/-! ### What a task holds -/

def StopPc.Holds (l : Lock) : StopPc → Prop
  | .state id | .task id | .join id | .daemon id _ => l = .stop id
  | _ => False

def Thread.Holds (l : Lock) : Thread ρ → Prop
  | .existing _ _ | .bind _ | .spawned _ _ => l = .daemon
  | .stop _ pc | .sweeping _ _ pc => pc.Holds l
  | .change _ id .state | .change _ id .daemon => l = .stop id
  | .change _ id .routes => l = .stop id ∨ l = .daemon
  | .routing id => l = .state id
  | _ => False

/-! ### Steps -/

namespace Shared

def setPhase (s : Shared ρ) (phase : Phase) : Shared ρ := { s with phase }

/-- `instances.insert`, of an instance that gets the next number. -/
def insert (s : Shared ρ) (i : Instance ρ) : Shared ρ :=
  { s with
    instances := Function.update s.instances i.name (some s.next)
    table := Function.update s.table s.next i
    next := s.next + 1 }

/-- `instances.remove(name)` if that is the instance it maps to. -/
def remove (s : Shared ρ) (name : Str) (id : ℕ) : Shared ρ :=
  if s.instances name = some id then
    { s with instances := Function.update s.instances name none }
  else s

def modify (s : Shared ρ) (id : ℕ) (f : Instance ρ → Instance ρ) : Shared ρ :=
  { s with table := Function.update s.table id (f (s.table id)) }

/-- The task of a listener ends. -/
def finish (s : Shared ρ) (id : ℕ) : Shared ρ := s.modify id fun i => { i with finished := true }

@[simp] theorem modify_table (s : Shared ρ) (id j : ℕ) (f : Instance ρ → Instance ρ) :
    (s.modify id f).table j = if j = id then f (s.table j) else s.table j := by
  by_cases h : j = id <;> simp [modify, h]

@[simp] theorem modify_phase (s : Shared ρ) (id : ℕ) (f : Instance ρ → Instance ρ) :
    (s.modify id f).phase = s.phase := rfl

@[simp] theorem modify_instances (s : Shared ρ) (id : ℕ) (f : Instance ρ → Instance ρ) :
    (s.modify id f).instances = s.instances := rfl

@[simp] theorem modify_next (s : Shared ρ) (id : ℕ) (f : Instance ρ → Instance ρ) :
    (s.modify id f).next = s.next := rfl

theorem remove_eq_some {s : Shared ρ} {name n : Str} {id j : ℕ} :
    (s.remove name id).instances n = some j ↔ s.instances n = some j ∧ ¬(n = name ∧ j = id) := by
  unfold remove
  split_ifs with h
  · by_cases hn : n = name
    · subst hn
      simp [h, eq_comm]
    · simp [hn]
  · constructor
    · intro hm
      refine ⟨hm, ?_⟩
      rintro ⟨rfl, rfl⟩
      exact h hm
    · exact And.left

@[simp] theorem remove_table (s : Shared ρ) (name : Str) (id : ℕ) :
    (s.remove name id).table = s.table := by
  unfold remove
  split_ifs <;> rfl

@[simp] theorem remove_phase (s : Shared ρ) (name : Str) (id : ℕ) :
    (s.remove name id).phase = s.phase := by
  unfold remove
  split_ifs <;> rfl

@[simp] theorem remove_next (s : Shared ρ) (name : Str) (id : ℕ) :
    (s.remove name id).next = s.next := by
  unfold remove
  split_ifs <;> rfl

end Shared

/-- One step of `stop_instance` for a name, while these locks are free. -/
inductive StopStep (free : Lock → Prop) (name : Str) :
    Shared ρ → StopPc → Shared ρ → StopPc → Prop
  | missing {s} (lock : free .daemon) (h : s.instances name = none) :
      StopStep free name s .lookup s .notFound
  | found {s id} (lock : free .daemon) (h : s.instances name = some id) :
      StopStep free name s .lookup s (.stopLock id)
  | stopLock {s id} (lock : free (.stop id)) : StopStep free name s (.stopLock id) s (.state id)
  | state {s id} (lock : free (.state id)) :
      StopStep free name s (.state id) (s.modify id fun i => { i with state := .stopping })
        (.task id)
  | take {s id} (h : (s.table id).listenerTask = true) :
      StopStep free name s (.task id) (s.modify id fun i => { i with listenerTask := false })
        (.join id)
  | taken {s id} (h : (s.table id).listenerTask = false) :
      StopStep free name s (.task id) s (.daemon id none)
  | joined {s id failure} (h : (s.table id).finished = true) :
      StopStep free name s (.join id) s (.daemon id failure)
  | remove {s id failure} (lock : free .daemon) :
      StopStep free name s (.daemon id failure) (s.remove name id) (.done id failure)

/-- One step of a task, while these locks are free. -/
inductive Step (lib : UriParser) (debug : Str → Str) (free : Lock → Prop) :
    Shared ρ → Thread ρ → Shared ρ → Thread ρ → Prop
  | receive {s} (request : Request) : Step lib debug free s .idle s
      (if isMutation request then .gate request else .enter lib request)
  | gateShut {s request} (lock : free .daemon) (h : s.phase ≠ .running) :
      Step lib debug free s (.gate request) s (.answered request (.error shuttingDown))
  | gateOpen {s request} (lock : free .daemon) (h : s.phase = .running) :
      Step lib debug free s (.gate request) s (.enter lib request)
  -- `create_instance`
  | createShut {s request} (lock : free .daemon) (h : s.phase ≠ .running) :
      Step lib debug free s (.create request) s
        (.answered (.createInstance request) (.error shuttingDown))
  | createExisting {s request id} (lock : free .daemon) (open_ : s.phase = .running)
      (h : s.instances request.name = some id) :
      Step lib debug free s (.create request) s (.existing request id)
  | createNew {s request} (lock : free .daemon) (open_ : s.phase = .running)
      (h : s.instances request.name = none) :
      Step lib debug free s (.create request) s (.bind request)
  | existing {s request id} (lock : free (.state id)) :
      Step lib debug free s (.existing request id) s
        (.answered (.createInstance request) ((existingOutcome debug request (s.table id)).map
          fun _ => .server (instanceResult (s.table id) (s.table id).state)))
  | bindFails {s request} (error : Str) : Step lib debug free s (.bind request) s
      (.answered (.createInstance request) (.error (bindFailed request error)))
  | addressFails {s request} (error : Str) : Step lib debug free s (.bind request) s
      (.answered (.createInstance request) (.error (addressFailed error)))
  | spawn {s request} (address : Address) : Step lib debug free s (.bind request) s
      (.spawned request
        ⟨request.name, request.host, request.port, address, .running, false, false, []⟩)
  | insert {s request i} : Step lib debug free s (.spawned request i)
      (s.insert { i with listenerTask := true })
      (.answered (.createInstance request) (.ok (.server (instanceResult i .running))))
  -- `stop_instance`
  | stop {s s' name pc pc'} (h : StopStep free name s pc s' pc') :
      Step lib debug free s (.stop name pc) s' (.stop name pc')
  | stopMissing {s name} : Step lib debug free s (.stop name .notFound) s
      (.answered (.stopInstance name) (.error (notFound debug name)))
  | stopDone {s name id failure} : Step lib debug free s (.stop name (.done id failure)) s
      (.answered (.stopInstance name) (failure.elim (.ok .done) fun e => .error (listenerFailed e)))
  -- `register` up to `stop_lock`
  | registerMissing {s request} (lock : free .daemon) (h : s.instances request.name = none) :
      Step lib debug free s (.register request) s
        (.answered (.register request) (.error (notFound debug request.name)))
  | registerFound {s request id} (lock : free .daemon) (h : s.instances request.name = some id) :
      Step lib debug free s (.register request) s (.firstCheck request id)
  | firstStopping {s request id} (lock : free (.state id)) (h : (s.table id).state ≠ .running) :
      Step lib debug free s (.firstCheck request id) s
        (.answered (.register request) (.error (isStopping (s.table id).name)))
  | firstRunning {s request id} (lock : free (.state id)) (h : (s.table id).state = .running) :
      Step lib debug free s (.firstCheck request id) s (.resolving request id)
  | resolveFails {s request id} (error : OperationError) :
      Step lib debug free s (.resolving request id) s (.answered (.register request) (.error error))
  -- `RouteRuntime::new` panics, which ends the task of the connection.
  | resolvePanics {s request id} : Step lib debug free s (.resolving request id) s .idle
  | resolved {s request id} (runtime : ρ) (config : request.config.validate = .ok ()) :
      Step lib debug free s (.resolving request id) s
        (.change (.register request runtime) id .stopLock)
  -- `unregister` up to `stop_lock`
  | unregisterMissing {s request} (lock : free .daemon) (h : s.instances request.name = none) :
      Step lib debug free s (.unregister request) s
        (.answered (.unregister request) (.error (notFound debug request.name)))
  | unregisterFound {s request id} (lock : free .daemon) (h : s.instances request.name = some id) :
      Step lib debug free s (.unregister request) s (.change (.unregister request) id .stopLock)
  -- `register` and `unregister` from `stop_lock` on
  | changeLock {s c id} (lock : free (.stop id)) :
      Step lib debug free s (.change c id .stopLock) s (.change c id .state)
  | changeStopping {s c id} (lock : free (.state id)) (h : (s.table id).state ≠ .running) :
      Step lib debug free s (.change c id .state) s
        (.answered c.request (.error (isStopping (s.table id).name)))
  | changeRunning {s c id} (lock : free (.state id)) (h : (s.table id).state = .running) :
      Step lib debug free s (.change c id .state) s (.change c id .daemon)
  | changeShut {s c id} (lock : free .daemon) (h : s.phase ≠ .running) :
      Step lib debug free s (.change c id .daemon) s (.answered c.request (.error shuttingDown))
  | changeOpen {s c id} (lock : free .daemon) (h : s.phase = .running) :
      Step lib debug free s (.change c id .daemon) s (.change c id .routes)
  | rejected {s c id error} (h : c.apply (s.table id).routes = .error error) :
      Step lib debug free s (.change c id .routes) s (.answered c.request (.error error))
  | applied {s c id routes} (h : c.apply (s.table id).routes = .ok routes) :
      Step lib debug free s (.change c id .routes) (s.modify id fun i => { i with routes })
        (.answered c.request (.ok (c.reply (s.table id).name (s.table id).address)))
  -- The operations that only read
  | list {s ids} (lock : free .daemon) (nodup : ids.Nodup)
      (h : ∀ id, id ∈ ids ↔ ∃ name, s.instances name = some id) :
      Step lib debug free s .list s (.listing ids [])
  | listNext {s id ids results} (lock : free (.state id)) :
      Step lib debug free s (.listing (id :: ids) results) s
        (.listing ids (results ++ [instanceResult (s.table id) (s.table id).state]))
  | listed {s results} : Step lib debug free s (.listing [] results) s
      (.answered .list (.ok (.servers (results.mergeSort instanceLe))))
  | statusMissing {s name} (lock : free .daemon) (h : s.instances name = none) :
      Step lib debug free s (.status name) s
        (.answered (.status name) (.error (notFound debug name)))
  | statusFound {s name id} (lock : free .daemon) (h : s.instances name = some id) :
      Step lib debug free s (.status name) s (.statusOf name id)
  | statusRead {s name id} (lock : free (.state id)) :
      Step lib debug free s (.statusOf name id) s (.answered (.status name)
        (.ok (.server (instanceResult (s.table id) (s.table id).state))))
  | registrationsMissing {s name} (lock : free .daemon) (h : s.instances name = none) :
      Step lib debug free s (.registrations name) s
        (.answered (.registrations name) (.error (notFound debug name)))
  | registrationsFound {s name id} (lock : free .daemon) (h : s.instances name = some id) :
      Step lib debug free s (.registrations name) s (.registrationsOf name id)
  | registrationsRead {s name id} :
      Step lib debug free s (.registrationsOf name id) s (.answered (.registrations name)
        (.ok (.routes name (s.table id).address ((s.table id).routes.mergeSort routeLe))))
  | shutdown {s} (lock : free .daemon) :
      Step lib debug free s .shutdown (s.setPhase .shuttingDown) (.answered .shutdown (.ok .done))
  -- `dispatch_instance`
  | dispatch {s id} (known : id < s.next) (listening : (s.table id).finished = false) :
      Step lib debug free s .idle s (.dispatch id)
  | dispatchStopping {s id} (lock : free (.state id)) (h : (s.table id).state ≠ .running) :
      Step lib debug free s (.dispatch id) s .idle
  | dispatchRunning {s id} (lock : free (.state id)) (h : (s.table id).state = .running) :
      Step lib debug free s (.dispatch id) s (.routing id)
  | routed {s id} : Step lib debug free s (.routing id) s .idle
  -- `run_supervisor_loop`
  | acceptFails {s} : Step lib debug free s .serving s .closing
  | signal {s} : Step lib debug free s .serving s .signalled
  | signalled {s} (lock : free .daemon) :
      Step lib debug free s .signalled (s.setPhase .shuttingDown) .closing
  | close {s} (lock : free .daemon) :
      Step lib debug free s .closing (s.setPhase .shuttingDown) .snapshot
  | snapshot {s names} (lock : free .daemon) (h : ∀ name, name ∈ names ↔ s.instances name ≠ none) :
      Step lib debug free s .snapshot s (.sweep names)
  | sweepNext {s name names} :
      Step lib debug free s (.sweep (name :: names)) s (.sweeping name names .lookup)
  | sweepStep {s s' name names pc pc'} (h : StopStep free name s pc s' pc') :
      Step lib debug free s (.sweeping name names pc) s' (.sweeping name names pc')
  | sweepMissing {s name names} :
      Step lib debug free s (.sweeping name names .notFound) s (.sweep names)
  | sweepDone {s name names id failure} :
      Step lib debug free s (.sweeping name names (.done id failure)) s (.sweep names)
  | sweepEnd {s} : Step lib debug free s (.sweep []) s .removing

/-- The daemon with its tasks. -/
structure World (ι ρ : Type*) where
  shared : Shared ρ
  threads : ι → Thread ρ

variable {ι : Type*} [DecidableEq ι]

/-- No other task holds the lock. -/
def World.Free (w : World ι ρ) (t : ι) (l : Lock) : Prop := ∀ u, u ≠ t → ¬(w.threads u).Holds l

/-- A task takes a step, or the task of a listener ends. -/
inductive WorldStep (lib : UriParser) (debug : Str → Str) :
    World ι ρ → Option ι → World ι ρ → Prop
  | thread {w t s thread} (h : Step lib debug (w.Free t) w.shared (w.threads t) s thread) :
      WorldStep lib debug w (some t) ⟨s, Function.update w.threads t thread⟩
  | finish {w id} (known : id < w.shared.next) :
      WorldStep lib debug w none { w with shared := w.shared.finish id }

/-- A daemon without instances, whose only task is the supervisor loop. -/
def system (lib : UriParser) (debug : Str → Str) (ι ρ : Type*) [DecidableEq ι] :
    System (World ι ρ) (Option ι) where
  init w := w.shared.phase = .running ∧ (∀ name, w.shared.instances name = none) ∧
    w.shared.next = 0 ∧ ∃ main, w.threads main = .serving ∧ ∀ t, t ≠ main → w.threads t = .idle
  step := WorldStep lib debug

/-! ### What a task knows -/

/-- The number is that of an instance with this name. -/
def Shared.Named (s : Shared ρ) (id : ℕ) (name : Str) : Prop :=
  id < s.next ∧ (s.table id).name = name

/-- What `stop_instance` knows about the instance it looked up. -/
def StopPc.Fits (s : Shared ρ) (name : Str) : StopPc → Prop
  | .lookup | .notFound => True
  | .stopLock id | .state id => s.Named id name
  | .task id | .join id => s.Named id name ∧ (s.table id).state = .stopping
  | .daemon id _ => s.Named id name ∧ (s.table id).state = .stopping ∧ (s.table id).finished = true
  | .done id _ => s.Named id name ∧ (s.table id).finished = true ∧ s.instances name ≠ some id

/-- While the phase is `ShuttingDown`, the name is mapped to what `stop_instance` looked up, or to
nothing. -/
def StopPc.Narrows (s : Shared ρ) (name : Str) : StopPc → Prop
  | .lookup => True
  | .notFound => s.instances name = none
  | .stopLock id | .state id | .task id | .join id | .daemon id _ | .done id _ =>
    ∀ j, s.instances name = some j → j = id

/-- What a task knows about the shared state at its await. -/
def Thread.Fits (s : Shared ρ) : Thread ρ → Prop
  | .bind request => s.phase = .running ∧ s.instances request.name = none
  | .spawned _ i => s.phase = .running ∧ s.instances i.name = none ∧ i.routes = []
  | .stop name pc => pc.Fits s name
  | .firstCheck request id | .resolving request id => s.Named id request.name
  | .change c id .stopLock | .change c id .state => s.Named id c.name
  | .change c id .daemon => s.Named id c.name ∧ (s.table id).state = .running
  | .change c id .routes =>
    s.Named id c.name ∧ (s.table id).state = .running ∧ s.phase = .running
  | .snapshot => s.phase = .shuttingDown
  | .sweep names => s.phase = .shuttingDown ∧ ∀ n, s.instances n ≠ none → n ∈ names
  | .sweeping name names pc => s.phase = .shuttingDown ∧ pc.Fits s name ∧ pc.Narrows s name ∧
      ∀ n, s.instances n ≠ none → n ∈ name :: names
  | .removing => s.phase = .shuttingDown ∧ ∀ n, s.instances n = none
  | _ => True

/-- What the holder of some locks can rely on while other tasks take steps. -/
structure Evolves (held : Lock → Prop) (s s' : Shared ρ) : Prop where
  next : s.next ≤ s'.next
  name : ∀ id < s.next, (s'.table id).name = (s.table id).name
  finished : ∀ id < s.next, (s.table id).finished = true → (s'.table id).finished = true
  stopping : ∀ id < s.next, (s.table id).state = .stopping → (s'.table id).state = .stopping
  state : ∀ id < s.next, held (.stop id) → (s'.table id).state = (s.table id).state
  phase : s.phase = .shuttingDown → s'.phase = .shuttingDown
  daemon : held .daemon → s'.phase = s.phase ∧ s'.instances = s.instances
  /-- Only new instances are added. -/
  known : ∀ n, ∀ id < s.next, s'.instances n = some id → s.instances n = some id
  /-- After `ShuttingDown` no instance is added. -/
  closed : s.phase = .shuttingDown → ∀ n id, s'.instances n = some id → s.instances n = some id

theorem Evolves.refl (held : Lock → Prop) (s : Shared ρ) : Evolves held s s := by
  constructor <;> simp

section Evolves

variable {held : Lock → Prop} {s s' : Shared ρ}

theorem Shared.Named.evolves {id : ℕ} {name : Str} (h : s.Named id name) (e : Evolves held s s') :
    s'.Named id name :=
  ⟨Nat.lt_of_lt_of_le h.1 e.next, (e.name id h.1).trans h.2⟩

theorem StopPc.Fits.evolves {name : Str} {pc : StopPc} (h : pc.Fits s name)
    (e : Evolves held s s') : pc.Fits s' name := by
  cases pc with
  | lookup | notFound => trivial
  | stopLock id | state id => exact Shared.Named.evolves h e
  | task id | join id => exact ⟨h.1.evolves e, e.stopping id h.1.1 h.2⟩
  | daemon id failure =>
    exact ⟨h.1.evolves e, e.stopping id h.1.1 h.2.1, e.finished id h.1.1 h.2.2⟩
  | done id failure =>
    exact ⟨h.1.evolves e, e.finished id h.1.1 h.2.1, fun hm => h.2.2 (e.known name id h.1.1 hm)⟩

theorem StopPc.Narrows.evolves {name : Str} {pc : StopPc} (h : pc.Narrows s name)
    (e : Evolves held s s') (closed : s.phase = .shuttingDown) : pc.Narrows s' name := by
  cases pc with
  | lookup => trivial
  | notFound =>
    exact Option.eq_none_iff_forall_ne_some.mpr fun id hm => by
      simpa [show s.instances name = none from h] using e.closed closed name id hm
  | _ => exact fun j hm => h j (e.closed closed name j hm)

/-- The names that are mapped become fewer after `ShuttingDown`. -/
theorem Evolves.unmapped (e : Evolves held s s') (closed : s.phase = .shuttingDown) {n : Str}
    (h : s'.instances n ≠ none) : s.instances n ≠ none := by
  obtain ⟨id, hid⟩ := Option.ne_none_iff_exists'.mp h
  simp [e.closed closed n id hid]

/-- What a task knows stays true while tasks that hold none of its locks take steps. -/
theorem Thread.Fits.evolves {thread : Thread ρ} (h : thread.Fits s)
    (e : Evolves (fun l => thread.Holds l) s s') : thread.Fits s' := by
  cases thread with
  | bind request | spawned request i =>
    obtain ⟨phase, instances⟩ := e.daemon rfl
    simpa only [Thread.Fits, phase, instances] using h
  | stop name pc => exact StopPc.Fits.evolves h e
  | firstCheck request id | resolving request id => exact Shared.Named.evolves h e
  | change c id pc =>
    cases pc with
    | stopLock | state => exact Shared.Named.evolves h e
    | daemon => exact ⟨h.1.evolves e, (e.state id h.1.1 rfl).trans h.2⟩
    | routes =>
      exact ⟨h.1.evolves e, (e.state id h.1.1 (.inl rfl)).trans h.2.1,
        (e.daemon (.inr rfl)).1.trans h.2.2⟩
  | snapshot => exact e.phase h
  | sweep names => exact ⟨e.phase h.1, fun n hn => h.2 n (e.unmapped h.1 hn)⟩
  | sweeping name names pc =>
    exact ⟨e.phase h.1, h.2.1.evolves e, h.2.2.1.evolves e h.1,
      fun n hn => h.2.2.2 n (e.unmapped h.1 hn)⟩
  | removing =>
    refine ⟨e.phase h.1, fun n => ?_⟩
    by_contra hn
    exact e.unmapped h.1 hn (h.2 n)
  | _ => trivial

end Evolves

/-! ### What a step can do -/

theorem Thread.enter_holds (lib : UriParser) (request : Request) (l : Lock) :
    ¬(Thread.enter lib request : Thread ρ).Holds l := by
  cases request <;> simp only [Thread.enter, Thread.checked]
  case createInstance | register | unregister => split <;> exact id
  all_goals exact id

theorem Thread.enter_fits (lib : UriParser) (request : Request) (s : Shared ρ) :
    (Thread.enter lib request : Thread ρ).Fits s := by
  cases request <;> simp only [Thread.enter, Thread.checked]
  case createInstance | register | unregister => split <;> trivial
  all_goals trivial

section Local

variable {lib : UriParser} {debug : Str → Str} {free held : Lock → Prop} {s s' : Shared ρ}
  {thread thread' : Thread ρ}

theorem StopStep.holds {name : Str} {pc pc' : StopPc} {l : Lock}
    (step : StopStep free name s pc s' pc') (h : pc'.Holds l) : pc.Holds l ∨ free l := by
  cases step with
  | missing | found | remove => exact h.elim
  | stopLock lock => exact .inr (by rwa [show l = _ from h])
  | state | take | taken | joined => exact .inl h

/-- A task takes only locks that are free. -/
theorem Step.holds {l : Lock} (step : Step lib debug free s thread s' thread')
    (h : thread'.Holds l) : thread.Holds l ∨ free l := by
  cases step with
  | receive request =>
    split at h
    · exact h.elim
    · exact absurd h (Thread.enter_holds lib request l)
  | @gateOpen request => exact absurd h (Thread.enter_holds lib request l)
  | createExisting lock | createNew lock | changeLock lock | dispatchRunning lock =>
    exact .inr (by rwa [show l = _ from h])
  | spawn | changeRunning => exact .inl h
  | changeOpen lock =>
    rcases h with h | rfl
    · exact .inl h
    · exact .inr lock
  | stop step | sweepStep step => exact step.holds h
  | _ => exact h.elim

theorem Evolves.modify {id : ℕ} {f : Instance ρ → Instance ρ} (hName : ∀ i, (f i).name = i.name)
    (hFinished : ∀ i, i.finished = true → (f i).finished = true)
    (hStopping : ∀ i, i.state = .stopping → (f i).state = .stopping)
    (hState : held (.stop id) → ∀ i, (f i).state = i.state) :
    Evolves held s (s.modify id f) := by
  constructor <;> simp only [Shared.modify_table, Shared.modify_next, Shared.modify_phase,
    Shared.modify_instances, Nat.le_refl, imp_self, implies_true, and_self]
  · intro j _
    split_ifs
    · exact hName _
    · rfl
  · intro j _ h
    split_ifs
    · exact hFinished _ h
    · exact h
  · intro j _ h
    split_ifs
    · exact hStopping _ h
    · exact h
  · intro j _ h
    split_ifs with hj
    · subst hj
      exact hState h _
    · rfl

theorem Evolves.setPhase (open_ : ¬held .daemon) :
    Evolves held s (s.setPhase .shuttingDown) :=
  ⟨Nat.le_refl _, fun _ _ => rfl, fun _ _ => id, fun _ _ => id, fun _ _ _ => rfl, fun _ => rfl,
    fun h => absurd h open_, fun _ _ _ => id, fun _ _ _ => id⟩

theorem Evolves.remove {name : Str} {id : ℕ} (open_ : ¬held .daemon) :
    Evolves held s (s.remove name id) :=
  ⟨by simp, by simp, by simp, by simp, by simp, by simp, fun h => absurd h open_,
    fun _ _ _ hj => (Shared.remove_eq_some.mp hj).1,
    fun _ _ _ hj => (Shared.remove_eq_some.mp hj).1⟩

theorem Evolves.insert {i : Instance ρ} (open_ : ¬held .daemon) (running : s.phase = .running) :
    Evolves held s (s.insert i) := by
  have old : ∀ id < s.next, (s.insert i).table id = s.table id := fun id hid =>
    Function.update_of_ne (Nat.ne_of_lt hid) _ _
  constructor
  · exact Nat.le_succ _
  · exact fun id hid => by rw [old id hid]
  · exact fun id hid => by rw [old id hid]; exact fun h => h
  · exact fun id hid => by rw [old id hid]; exact fun h => h
  · exact fun id hid _ => by rw [old id hid]
  · exact fun h => h
  · exact fun h => absurd h open_
  · intro n id hid hm
    by_cases hn : n = i.name
    · subst hn
      simp only [Shared.insert, Function.update_self, Option.some.injEq] at hm
      omega
    · simpa [Shared.insert, Function.update_of_ne hn] using hm
  · intro closed
    simp [running] at closed

theorem StopStep.evolves {name : Str} {pc pc' : StopPc} (step : StopStep free name s pc s' pc')
    (others : ∀ l, held l → ¬pc.Holds l ∧ ¬free l) : Evolves held s s' := by
  cases step with
  | @state id =>
    exact .modify (fun _ => rfl) (fun _ h => h) (fun _ _ => rfl) fun h => absurd rfl (others _ h).1
  | take => exact .modify (fun _ => rfl) (fun _ h => h) (fun _ h => h) fun _ _ => rfl
  | remove lock => exact .remove fun h => (others _ h).2 lock
  | _ => exact .refl held s

/-- Other tasks, which hold none of this one's locks, can rely on what `Evolves` says. -/
theorem Step.evolves (step : Step lib debug free s thread s' thread') (fits : thread.Fits s)
    (others : ∀ l, held l → ¬thread.Holds l ∧ ¬free l) : Evolves held s s' := by
  cases step with
  | insert => exact .insert (fun h => (others _ h).1 rfl) fits.1
  | stop step | sweepStep step => exact step.evolves others
  | applied => exact .modify (fun _ => rfl) (fun _ h => h) (fun _ h => h) fun _ _ => rfl
  | shutdown lock | signalled lock | close lock => exact .setPhase fun h => (others _ h).2 lock
  | _ => exact .refl held s

/-- What holds of the instances at every moment. -/
structure Sound (s : Shared ρ) : Prop where
  mapped : ∀ name id, s.instances name = some id → s.Named id name
  /-- An instance is taken out of the map only after it has left the state `Running`. -/
  running : ∀ id < s.next, (s.table id).state = .running →
    s.instances (s.table id).name = some id
  distinct : ∀ id < s.next, Distinct (s.table id).routes

theorem Sound.mapped_of_running {id : ℕ} {name : Str} (h : Sound s) (named : s.Named id name)
    (running : (s.table id).state = .running) : s.instances name = some id := by
  rw [← named.2]
  exact h.running id named.1 running

theorem Sound.modify {id : ℕ} {f : Instance ρ → Instance ρ} (h : Sound s)
    (hName : ∀ i, (f i).name = i.name)
    (hState : ∀ i, (f i).state = .running → i.state = .running)
    (hRoutes : id < s.next → Distinct (f (s.table id)).routes) : Sound (s.modify id f) := by
  constructor <;> simp only [Shared.Named, Shared.modify_table, Shared.modify_next,
    Shared.modify_instances]
  · intro name j hm
    obtain ⟨hj, named⟩ := h.mapped name j hm
    refine ⟨hj, ?_⟩
    split_ifs
    · rw [hName, named]
    · exact named
  · intro j hj
    split_ifs
    · rw [hName]
      exact fun hr => h.running j hj (hState _ hr)
    · exact h.running j hj
  · intro j hj
    split_ifs with hji
    · subst hji
      exact hRoutes hj
    · exact h.distinct j hj

theorem Sound.insert {i : Instance ρ} (h : Sound s) (free : s.instances i.name = none)
    (routes : Distinct i.routes) : Sound (s.insert i) := by
  constructor <;> simp only [Shared.insert, Shared.Named]
  · intro name id hm
    by_cases hn : name = i.name
    · subst hn
      obtain rfl : s.next = id := by simpa using hm
      simp
    · rw [Function.update_of_ne hn] at hm
      obtain ⟨hid, named⟩ := h.mapped name id hm
      rw [Function.update_of_ne (Nat.ne_of_lt hid)]
      exact ⟨Nat.lt_succ_of_lt hid, named⟩
  · intro id hid hr
    by_cases hi : id = s.next
    · simp [hi]
    · rw [Function.update_of_ne hi] at hr ⊢
      have mapped := h.running id (by omega) hr
      have hn : (s.table id).name ≠ i.name := fun hn => by simp [hn, free] at mapped
      rwa [Function.update_of_ne hn]
  · intro id hid
    by_cases hi : id = s.next
    · simpa [hi] using routes
    · rw [Function.update_of_ne hi]
      exact h.distinct id (by omega)

theorem Sound.remove {name : Str} {id : ℕ} (h : Sound s)
    (stopping : (s.table id).state = .stopping) : Sound (s.remove name id) := by
  constructor <;> simp only [Shared.Named, Shared.remove_table, Shared.remove_next]
  · exact fun n j hj => h.mapped n j (Shared.remove_eq_some.mp hj).1
  · intro j hj hr
    refine Shared.remove_eq_some.mpr ⟨h.running j hj hr, ?_⟩
    rintro ⟨-, rfl⟩
    simp [stopping] at hr
  · exact h.distinct

theorem Change.apply_distinct {c : Change ρ} {routes routes' : Table ρ} (h : Distinct routes)
    (applied : c.apply routes = .ok routes') : Distinct routes' := by
  cases c with
  | register request runtime => exact (h.insert applied).1
  | unregister request => exact (h.remove applied).1

theorem StopStep.sound {name : Str} {pc pc' : StopPc} (step : StopStep free name s pc s' pc')
    (h : Sound s) (fits : pc.Fits s name) : Sound s' := by
  cases step with
  | state => exact h.modify (fun _ => rfl) (by simp) (h.distinct _)
  | take => exact h.modify (fun _ => rfl) (fun _ h => h) (h.distinct _)
  | remove => exact h.remove fits.2.1
  | _ => exact h

theorem Step.sound (step : Step lib debug free s thread s' thread') (h : Sound s)
    (fits : thread.Fits s) : Sound s' := by
  cases step with
  | insert => exact h.insert fits.2.1 (by simp [fits.2.2, Distinct])
  | stop step => exact step.sound h fits
  | sweepStep step => exact step.sound h fits.2.1
  | applied applied =>
    exact h.modify (fun _ => rfl) (fun _ h => h) fun hid =>
      Change.apply_distinct (h.distinct _ hid) applied
  | shutdown | signalled | close => exact ⟨h.mapped, h.running, h.distinct⟩
  | _ => exact h

/-- Where the task is in `stop_instance`. -/
def Thread.stopPc : Thread ρ → Option StopPc
  | .stop _ pc | .sweeping _ _ pc => some pc
  | _ => none

theorem StopStep.fits {name : Str} {pc pc' : StopPc} (step : StopStep free name s pc s' pc')
    (h : Sound s) (fits : pc.Fits s name)
    (taken : ∀ id, pc = .task id → (s.table id).listenerTask = false →
      (s.table id).finished = true) : pc'.Fits s' name := by
  cases step with
  | missing => trivial
  | found _ hm => exact h.mapped name _ hm
  | stopLock => exact fits
  | state =>
    obtain ⟨hid, named⟩ := fits
    simp [StopPc.Fits, Shared.Named, hid, named]
  | take =>
    obtain ⟨⟨hid, named⟩, stopping⟩ := fits
    simp [StopPc.Fits, Shared.Named, hid, named, stopping]
  | taken ht => exact ⟨fits.1, fits.2, taken _ rfl ht⟩
  | joined ht => exact ⟨fits.1, fits.2, ht⟩
  | remove =>
    obtain ⟨⟨hid, named⟩, -, finished⟩ := fits
    simp only [StopPc.Fits, Shared.Named, Shared.remove_table, Shared.remove_next]
    exact ⟨⟨hid, named⟩, finished, fun hm => (Shared.remove_eq_some.mp hm).2 ⟨rfl, rfl⟩⟩

theorem StopStep.narrows {name : Str} {pc pc' : StopPc} (step : StopStep free name s pc s' pc')
    (narrows : pc.Narrows s name) : pc'.Narrows s' name := by
  cases step with
  | missing _ hm => exact hm
  | found _ hm => exact fun j hj => by simpa [hm, eq_comm] using hj
  | remove => exact fun j hj => narrows j (Shared.remove_eq_some.mp hj).1
  | _ => exact narrows

theorem Step.fits (step : Step lib debug free s thread s' thread') (h : Sound s)
    (fits : thread.Fits s)
    (taken : ∀ id, thread.stopPc = some (.task id) → (s.table id).listenerTask = false →
      (s.table id).finished = true) : thread'.Fits s' := by
  cases step with
  | receive request =>
    split
    · trivial
    · exact Thread.enter_fits lib request s
  | @gateOpen request => exact Thread.enter_fits lib request s
  | createNew _ running hm => exact ⟨running, hm⟩
  | spawn => exact ⟨fits.1, fits.2, rfl⟩
  | stop step => exact step.fits h fits fun id hid => taken id (congrArg some hid)
  | registerFound _ hm | unregisterFound _ hm => exact h.mapped _ _ hm
  | firstRunning | resolved | changeLock => exact fits
  | changeRunning _ hr => exact ⟨fits, hr⟩
  | changeOpen _ hr => exact ⟨fits.1, fits.2, hr⟩
  | close => rfl
  | snapshot _ hn => exact ⟨fits, fun n => (hn n).mpr⟩
  | sweepNext => exact ⟨fits.1, trivial, trivial, fits.2⟩
  | sweepStep step =>
    obtain ⟨closed, stop, narrows, others⟩ := fits
    have e : Evolves (fun _ => False) s s' := step.evolves fun _ => False.elim
    exact ⟨e.phase closed, step.fits h stop fun id hid => taken id (congrArg some hid),
      step.narrows narrows, fun n hn => others n (e.unmapped closed hn)⟩
  | sweepMissing =>
    refine ⟨fits.1, fun n hn => (List.mem_cons.mp (fits.2.2.2 n hn)).resolve_left ?_⟩
    rintro rfl
    exact hn fits.2.2.1
  | sweepDone =>
    obtain ⟨closed, ⟨-, -, gone⟩, narrows, others⟩ := fits
    refine ⟨closed, fun n hn => (List.mem_cons.mp (others n hn)).resolve_left ?_⟩
    rintro rfl
    obtain ⟨j, hj⟩ := Option.ne_none_iff_exists'.mp hn
    exact gone (narrows j hj ▸ hj)
  | sweepEnd =>
    refine ⟨fits.1, fun n => ?_⟩
    by_contra hn
    simpa using fits.2 n hn
  | _ => trivial

/-- A join handle is gone only with the task that joins it. -/
theorem Step.handle (step : Step lib debug free s thread s' thread') {id : ℕ} (hid : id < s'.next)
    (gone : (s'.table id).listenerTask = false) :
    id < s.next ∧ (s.table id).listenerTask = false ∨ thread'.stopPc = some (.join id) := by
  have stop : ∀ {name pc pc'}, StopStep free name s pc s' pc' →
      id < s.next ∧ (s.table id).listenerTask = false ∨ pc' = .join id := by
    intro name pc pc' step
    cases step with
    | @take j =>
      by_cases hj : id = j
      · exact .inr (by rw [hj])
      · exact .inl ⟨hid, by simpa [hj] using gone⟩
    | state => exact .inl ⟨hid, by simpa [apply_ite] using gone⟩
    | remove => exact .inl ⟨by simpa using hid, by simpa using gone⟩
    | _ => exact .inl ⟨hid, gone⟩
  cases step with
  | insert =>
    by_cases hi : id = s.next
    · simp [hi, Shared.insert] at gone
    · refine .inl ⟨?_, by simpa [Shared.insert, Function.update_of_ne hi] using gone⟩
      simp only [Shared.insert] at hid
      omega
  | stop step | sweepStep step => simpa [Thread.stopPc] using stop step
  | applied => exact .inl ⟨hid, by simpa [apply_ite] using gone⟩
  | _ => exact .inl ⟨hid, gone⟩

theorem Step.join (step : Step lib debug free s thread s' thread') {id : ℕ}
    (h : thread.stopPc = some (.join id)) : (s'.table id).finished = true := by
  cases step with
  | stop step | sweepStep step =>
    obtain rfl : _ = StopPc.join id := by simpa [Thread.stopPc] using h
    cases step with
    | joined finished => exact finished
  | _ => simp [Thread.stopPc] at h

end Local

/-! ### The daemon in every interleaving -/

/-- What holds of every reachable world. -/
structure Supervised (w : World ι ρ) : Prop where
  exclusive : Locks.Exclusive Eq fun t l => (w.threads t).Holds l
  sound : Sound w.shared
  fits : ∀ t, (w.threads t).Fits w.shared
  joined : ∀ id < w.shared.next, (w.shared.table id).listenerTask = false →
    (w.shared.table id).finished = true ∨ ∃ t, (w.threads t).stopPc = some (.join id)

theorem Thread.holds_stop {thread : Thread ρ} {id : ℕ}
    (h : thread.stopPc = some (.task id) ∨ thread.stopPc = some (.join id)) :
    thread.Holds (.stop id) := by
  cases thread <;> simp_all [Thread.stopPc, Thread.Holds]
  all_goals rcases h with rfl | rfl <;> rfl

omit [DecidableEq ι] in
/-- Whoever finds the join handle gone finds the task ended: the one that took it has the
`stop_lock` until then. -/
theorem Supervised.taken {w : World ι ρ} (h : Supervised w) {t : ι} {id : ℕ}
    (hpc : (w.threads t).stopPc = some (.task id))
    (gone : (w.shared.table id).listenerTask = false) :
    (w.shared.table id).finished = true := by
  have known : id < w.shared.next := by
    have fits := h.fits t
    cases ht : w.threads t <;> simp_all [Thread.stopPc]
    all_goals simp_all [Thread.Fits, StopPc.Fits, Shared.Named]
  rcases h.joined id known gone with finished | ⟨u, hu⟩
  · exact finished
  · by_cases hut : u = t
    · simp [hut, hpc] at hu
    · exact absurd rfl (h.exclusive u t hut _ _ (Thread.holds_stop (.inr hu))
        (Thread.holds_stop (.inl hpc)))

section Run

variable {lib : UriParser} {debug : Str → Str}

theorem Supervised.thread {w : World ι ρ} {t : ι} {s : Shared ρ} {thread : Thread ρ}
    (h : Supervised w) (step : Step lib debug (w.Free t) w.shared (w.threads t) s thread) :
    Supervised ⟨s, Function.update w.threads t thread⟩ := by
  have evolves : ∀ u, u ≠ t → Evolves (fun l => (w.threads u).Holds l) w.shared s := fun u hu =>
    step.evolves (h.fits t) fun l hl =>
      ⟨fun ht => h.exclusive u t hu l l hl ht rfl, fun free => free u hu hl⟩
  have all : Evolves (fun _ => False) w.shared s := step.evolves (h.fits t) fun _ => False.elim
  refine ⟨?_, step.sound h.sound (h.fits t), fun u => ?_, fun id hid gone => ?_⟩
  · apply h.exclusive.update (fun (th : Thread ρ) l => th.Holds l) (fun _ _ => Eq.symm)
    rintro l hl hold u hu _ hk rfl
    exact (step.holds hl).resolve_left hold u hu hk
  · by_cases hu : u = t
    · subst hu
      simpa using step.fits h.sound (h.fits u) fun id hpc gone => h.taken hpc gone
    · simpa [Function.update_of_ne hu] using (h.fits u).evolves (evolves u hu)
  · rcases step.handle hid gone with ⟨known, before⟩ | joins
    · rcases h.joined id known before with finished | ⟨u, hu⟩
      · exact .inl (all.finished id known finished)
      · by_cases hut : u = t
        · subst hut
          exact .inl (step.join hu)
        · exact .inr ⟨u, by simpa [Function.update_of_ne hut] using hu⟩
    · exact .inr ⟨t, by simpa using joins⟩

theorem supervised_step {w w' : World ι ρ} {a : Option ι} (h : Supervised w)
    (step : WorldStep lib debug w a w') : Supervised w' := by
  cases step with
  | thread step => exact h.thread step
  | @finish id known =>
    have evolves : ∀ held : Lock → Prop, Evolves held w.shared (w.shared.finish id) := fun _ =>
      .modify (fun _ => rfl) (fun _ _ => rfl) (fun _ h => h) fun _ _ => rfl
    have sound : Sound (w.shared.finish id) :=
      h.sound.modify (fun _ => rfl) (fun _ h => h) (h.sound.distinct id)
    refine ⟨h.exclusive, sound, fun t => (h.fits t).evolves (evolves _), fun j hj gone => ?_⟩
    rcases h.joined j hj (by simpa [Shared.finish, apply_ite] using gone) with finished | joins
    · exact .inl ((evolves fun _ => False).finished j hj finished)
    · exact .inr joins

theorem supervised_reachable {w : World ι ρ} (h : (system lib debug ι ρ).Reachable w) :
    Supervised w := by
  refine h.invariant ?_ fun w a w' _ ih (step : WorldStep lib debug w a w') =>
    supervised_step ih step
  rintro w ⟨running, empty, none_, main, hmain, idle⟩
  have quiet : ∀ t l, ¬(w.threads t).Holds l := by
    intro t l
    by_cases ht : t = main
    · rw [ht, hmain]
      exact fun h => h
    · rw [idle t ht]
      exact fun h => h
  refine ⟨.of_empty quiet, ⟨by simp [empty], by simp [none_], by simp [none_]⟩, fun t => ?_,
    by simp [none_]⟩
  by_cases ht : t = main
  · rw [ht, hmain]
    trivial
  · rw [idle t ht]
    trivial

/-- After `ShuttingDown` a step adds no instance and no route. -/
theorem Supervised.closed {w w' : World ι ρ} {a : Option ι} (h : Supervised w)
    (step : WorldStep lib debug w a w') (closed : w.shared.phase = .shuttingDown) :
    (∀ n id, w'.shared.instances n = some id → w.shared.instances n = some id) ∧
    ∀ id, ∀ entry ∈ (w'.shared.table id).routes, entry ∈ (w.shared.table id).routes := by
  cases step with
  | @finish j => exact ⟨fun _ _ hm => hm, fun id entry he => by
      simpa [Shared.finish, apply_ite] using he⟩
  | @thread t s thread step =>
    have fits := h.fits t
    have e : Evolves (fun _ => False) w.shared s := step.evolves fits fun _ => False.elim
    refine ⟨e.closed closed, fun id entry he => ?_⟩
    generalize w.threads t = before at step fits
    cases step with
    | insert => exact absurd (closed.symm.trans fits.1) (by decide)
    | applied => exact absurd (closed.symm.trans fits.2.2) (by decide)
    | stop step | sweepStep step => cases step <;> simpa [apply_ite] using he
    | _ => exact he

/-- What `insertRoute` adds was not there before. -/
theorem Change.apply_register {request : RegisterRequest} {runtime : ρ} {routes routes' : Table ρ}
    (distinct : Distinct routes)
    (applied : (Change.register request runtime).apply routes = .ok routes') :
    (⟨request.id, request.route, request.config⟩, runtime) ∈ routes' ∧
      ∀ entry ∈ routes, entry.1.id ≠ request.id := by
  refine ⟨(distinct.insert applied).2.1, fun entry he hid => ?_⟩
  have taken : routes.any (·.1.id = request.id) = true :=
    List.any_eq_true.mpr ⟨entry, he, by simpa using hid⟩
  simp [Change.apply, insertRoute, taken] at applied

theorem Thread.enter_registered {request : Request} {r : RegisterRequest} {reply : Reply ρ} :
    (Thread.enter lib request : Thread ρ) ≠ .answered (.register r) (.ok reply) := by
  cases request <;> simp only [Thread.enter, Thread.checked]
  case createInstance | register | unregister => split <;> simp
  all_goals simp

/-- A registration answered with success goes into an instance that is running and mapped to the
name. -/
theorem Supervised.registered {w w' : World ι ρ} {t : ι} {request : RegisterRequest}
    {reply : Reply ρ} (h : Supervised w) (step : WorldStep lib debug w (some t) w')
    (answer : w'.threads t = .answered (.register request) (.ok reply)) :
    ∃ id runtime, w.shared.instances request.name = some id ∧
      (w.shared.table id).state = .running ∧
      (∀ entry ∈ (w.shared.table id).routes, entry.1.id ≠ request.id) ∧
      (⟨request.id, request.route, request.config⟩, runtime) ∈ (w'.shared.table id).routes := by
  cases step with
  | @thread t s thread step =>
    have fits := h.fits t
    have hth : thread = .answered (.register request) (.ok reply) := by simpa using answer
    generalize w.threads t = before at step fits
    cases step with
    | receive =>
      split at hth
      · simp at hth
      · exact absurd hth Thread.enter_registered
    | gateOpen => exact absurd hth Thread.enter_registered
    | @applied c id routes applied =>
      obtain ⟨named, running, -⟩ := fits
      cases c with
      | unregister => simp [Change.request] at hth
      | register r runtime =>
        obtain ⟨rfl, -⟩ : r = request ∧ _ := by simpa [Change.request] using hth
        obtain ⟨added, fresh⟩ := Change.apply_register (h.sound.distinct id named.1) applied
        have mapped := h.sound.mapped_of_running named running
        exact ⟨id, runtime, mapped, running, fresh, by simpa using added⟩
    | stopDone => cases hth
    | _ => simp at hth

/-- What `stop_instance` unmaps is the instance that it looked up under that name. -/
theorem unmapped_by {w w' : World ι ρ} {a : Option ι} {n : Str} {id : ℕ}
    (step : WorldStep lib debug w a w') (before : w.shared.instances n = some id)
    (after : w'.shared.instances n ≠ some id) (h : Supervised w) :
    ∃ t failure, a = some t ∧ (w.threads t = .stop n (.daemon id failure) ∨
      ∃ names, w.threads t = .sweeping n names (.daemon id failure)) := by
  cases step with
  | finish => exact absurd before after
  | @thread t s thread step =>
    have fits := h.fits t
    generalize hb : w.threads t = thread₀ at step fits
    have removed : ∀ {name pc pc'}, StopStep (w.Free t) name w.shared pc s pc' →
        name = n ∧ ∃ failure, pc = .daemon id failure := by
      intro name pc pc' step
      cases step with
      | @remove j failure =>
        have gone : ¬(n = name ∧ id = j) → False := fun hne =>
          after (Shared.remove_eq_some.mpr ⟨before, hne⟩)
        obtain ⟨rfl, rfl⟩ := not_not.mp gone
        exact ⟨rfl, failure, rfl⟩
      | _ => exact absurd before after
    cases step with
    | stop step =>
      obtain ⟨rfl, failure, rfl⟩ := removed step
      exact ⟨t, failure, rfl, .inl hb⟩
    | sweepStep step =>
      obtain ⟨rfl, failure, rfl⟩ := removed step
      exact ⟨t, failure, rfl, .inr ⟨_, hb⟩⟩
    | @insert request i =>
      have hn : n ≠ i.name := by
        rintro rfl
        simp [fits.2.1] at before
      exact absurd (by simpa [Shared.insert, Function.update_of_ne hn] using before) after
    | _ => exact absurd before after

/-- How a `StopInstance` request comes to its answer. -/
theorem Supervised.stopped {w w' : World ι ρ} {t : ι} {name : Str} {answer : Answer ρ}
    (h : Supervised w) (step : WorldStep lib debug w (some t) w')
    (answered : w'.threads t = .answered (.stopInstance name) answer) :
    answer = .error (notFound debug name) ∨
    w.threads t = .gate (.stopInstance name) ∧ answer = .error shuttingDown ∨
    ∃ id failure, w.threads t = .stop name (.done id failure) ∧
      (w.shared.table id).finished = true ∧ ∀ n, w.shared.instances n ≠ some id := by
  cases step with
  | @thread t s thread step =>
    have fits := h.fits t
    have hth : thread = .answered (.stopInstance name) answer := by simpa using answered
    generalize w.threads t = thread₀ at step fits ⊢
    have entered : ∀ request, (Thread.enter lib request : Thread ρ) ≠
        .answered (.stopInstance name) answer := by
      intro request
      cases request <;> simp only [Thread.enter, Thread.checked]
      case createInstance | register | unregister => split <;> simp
      all_goals simp
    cases step with
    | receive request =>
      split at hth
      · simp at hth
      · exact absurd hth (entered request)
    | @gateOpen request => exact absurd hth (entered request)
    | @gateShut request =>
      simp only [Thread.answered.injEq] at hth
      exact .inr (.inl ⟨by rw [hth.1], hth.2.symm⟩)
    | stopMissing =>
      simp only [Thread.answered.injEq, Request.stopInstance.injEq] at hth
      exact .inl (by rw [← hth.2, hth.1])
    | @stopDone _ id failure =>
      simp only [Thread.answered.injEq, Request.stopInstance.injEq] at hth
      obtain ⟨rfl, -⟩ := hth
      obtain ⟨⟨-, named⟩, finished, unmapped⟩ := fits
      refine .inr (.inr ⟨id, failure, rfl, finished, fun n hn => ?_⟩)
      obtain ⟨-, named'⟩ := h.sound.mapped n id hn
      exact unmapped (by rw [← named, named', hn])
    | @changeStopping c | @changeShut c | @rejected c | @applied c =>
      cases c <;> simp [Change.request] at hth
    | _ => simp at hth

/-- The supervisor in every interleaving: registrations, route tables, stops, and shutdown. -/
theorem supervisor_safe {w : World ι ρ} (h : (system lib debug ι ρ).Reachable w) :
    (∀ t w' request reply, (system lib debug ι ρ).step w (some t) w' →
      w'.threads t = .answered (.register request) (.ok reply) →
      ∃ id runtime, w.shared.instances request.name = some id ∧
        (w.shared.table id).state = .running ∧
        (∀ entry ∈ (w.shared.table id).routes, entry.1.id ≠ request.id) ∧
        (⟨request.id, request.route, request.config⟩, runtime) ∈ (w'.shared.table id).routes) ∧
    (∀ id < w.shared.next, Distinct (w.shared.table id).routes) ∧
    (∀ a w' n id, (system lib debug ι ρ).step w a w' → w.shared.instances n = some id →
      w'.shared.instances n ≠ some id →
      ∃ t failure, a = some t ∧ (w.threads t = .stop n (.daemon id failure) ∨
        ∃ names, w.threads t = .sweeping n names (.daemon id failure))) ∧
    (∀ t w' name answer, (system lib debug ι ρ).step w (some t) w' →
      w'.threads t = .answered (.stopInstance name) answer →
      answer = .error (notFound debug name) ∨
      w.threads t = .gate (.stopInstance name) ∧ answer = .error shuttingDown ∨
      ∃ id failure, w.threads t = .stop name (.done id failure) ∧
        (w.shared.table id).finished = true ∧ ∀ n, w.shared.instances n ≠ some id) ∧
    (∀ a w', (system lib debug ι ρ).step w a w' → w.shared.phase = .shuttingDown →
      (∀ n id, w'.shared.instances n = some id → w.shared.instances n = some id) ∧
      ∀ id, ∀ entry ∈ (w'.shared.table id).routes, entry ∈ (w.shared.table id).routes) ∧
    ∀ t, w.threads t = .removing → ∀ n, w.shared.instances n = none := by
  have sup := supervised_reachable h
  refine ⟨fun _ _ _ _ step => sup.registered step, sup.sound.distinct,
    fun _ _ _ _ step before after => unmapped_by step before after sup,
    fun _ _ _ _ step => sup.stopped step, fun _ _ step => sup.closed step, fun t ht => ?_⟩
  have fits := sup.fits t
  rw [ht] at fits
  exact fits.2

/-- A step of a task while no other task holds a lock. -/
theorem reachable_alone {threads : ι → Thread ρ} (quiet : ∀ t l, ¬(threads t).Holds l) {t : ι}
    {s s' : Shared ρ} {thread thread' : Thread ρ}
    (h : (system lib debug ι ρ).Reachable ⟨s, Function.update threads t thread⟩)
    (step : ∀ free : Lock → Prop, (∀ l, free l) → Step lib debug free s thread s' thread') :
    (system lib debug ι ρ).Reachable ⟨s', Function.update threads t thread'⟩ := by
  have free : ∀ l, World.Free ⟨s, Function.update threads t thread⟩ t l := by
    intro l u hu
    simpa [Function.update_of_ne hu] using quiet u l
  have moved : WorldStep lib debug ⟨s, Function.update threads t thread⟩ (some t)
      ⟨s', Function.update (Function.update threads t thread) t thread'⟩ :=
    .thread (by simpa using step _ free)
  simpa using h.step moved

end Run

def workRequest : CreateInstanceRequest := ⟨str "work", str "127.0.0.1", 0⟩

def workInstance : Instance Unit :=
  ⟨str "work", str "127.0.0.1", 0, ⟨8010, str "http://127.0.0.1:8010"⟩, .running, true, false, []⟩

def empty : Shared Unit := ⟨.running, fun _ => none, fun _ => workInstance, 0⟩

/-- The supervisor loop, and a finished creation. -/
def created : Option Bool → Thread Unit
  | none => .serving
  | some false => .answered (.createInstance workRequest)
    (.ok (.server (instanceResult workInstance .running)))
  | some true => .idle

theorem reachable_created :
    (system plainUri id (Option Bool) Unit).Reachable ⟨empty.insert workInstance, created⟩ := by
  have quiet : ∀ t l, ¬((fun t => t.elim .serving fun _ => .idle :
      Option Bool → Thread Unit) t).Holds l := by
    rintro (_ | _) l <;> exact id
  have h0 : (system plainUri id (Option Bool) Unit).Reachable ⟨empty, Function.update
      (fun t => t.elim .serving fun _ => .idle) (some false) .idle⟩ :=
    .init ⟨rfl, fun _ => rfl, rfl, none, rfl, by rintro (_ | _ | _) <;> simp⟩
  have h1 := reachable_alone quiet h0 fun _ _ => .receive (.createInstance workRequest)
  have h2 := reachable_alone quiet h1 fun _ free => .gateOpen (free _) rfl
  have h3 := reachable_alone quiet h2 fun _ free => .createNew (free _) rfl rfl
  have h4 := reachable_alone quiet h3 fun _ _ => .spawn workInstance.address
  have h5 := reachable_alone quiet h4 fun _ _ => .insert
  have same : Function.update (fun t => t.elim .serving fun _ => .idle) (some false)
      (.answered (.createInstance workRequest)
        (.ok (.server (instanceResult workInstance .running)))) = created := by
    funext t
    rcases t with _ | _ | _ <;> rfl
  rw [← same]
  exact h5

/-- A task that is about to insert its route into the new instance. -/
def registering : World (Option Bool) Unit :=
  ⟨empty.insert workInstance, Function.update created (some true)
    (.change (.register (registration (str "a") (str "/agent")) ()) 0 .routes)⟩

theorem supervisor_safe_register : ∃ id, registering.shared.instances (str "work") = some id ∧
    (registering.shared.table id).state = .running := by
  have quiet : ∀ t l, ¬(created t).Holds l := by
    rintro (_ | _ | _) l <;> exact id
  have h0 : (system plainUri id (Option Bool) Unit).Reachable
      ⟨empty.insert workInstance, Function.update created (some true) .idle⟩ := by
    have same : Function.update created (some true) .idle = created :=
      Function.update_eq_self (some true) created
    rw [same]
    exact reachable_created
  have h1 := reachable_alone quiet h0 fun _ _ =>
    .receive (.register (registration (str "a") (str "/agent")))
  have h2 := reachable_alone quiet h1 fun _ free => .gateOpen (free _) rfl
  have h3 := reachable_alone quiet h2 fun _ free => .registerFound (free _) rfl
  have h4 := reachable_alone quiet h3 fun _ free => .firstRunning (free _) rfl
  have h5 := reachable_alone quiet h4 fun _ _ => .resolved () (by decide)
  have h6 := reachable_alone quiet h5 fun _ free => .changeLock (free _)
  have h7 := reachable_alone quiet h6 fun _ free => .changeRunning (free _) rfl
  have h8 : (system plainUri id (Option Bool) Unit).Reachable registering :=
    reachable_alone quiet h7 fun _ free => .changeOpen (free _) rfl
  have applied : Change.apply (registering.shared.table 0).routes
      (.register (registration (str "a") (str "/agent")) ()) = .ok [(outerKey, ())] := by
    decide
  obtain ⟨id, _, mapped, running, -⟩ := (supervisor_safe h8).1 (some true) _
    (registration (str "a") (str "/agent")) _ (.thread (.applied applied)) rfl
  exact ⟨id, mapped, running⟩

end AcpAgent.Server.Supervisor
