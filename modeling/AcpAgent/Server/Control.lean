import AcpAgent.Lib.Except
import AcpAgent.Serve.Router
import AcpAgent.Server.Supervisor
import AcpAgent.Server.Wire
import Mathlib.Data.List.Sort

/-! One control connection: `handle_protocol_connection` and `handle_request` of
`server/control.rs` with the operations they call, for whatever the operations find under the locks
that they take. -/

namespace AcpAgent.Server.Control

open Serve Routes Supervisor Wire

/-- `ReadinessSnapshot`, with the detail of the last failure. -/
structure ReadinessSnapshot where
  attempts : UInt64
  failures : UInt64
  lastAttemptFailed : Bool
  lastFailure : Option Str

/-- What a request finds at its awaits.  Maps are listed in the order of their iteration. -/
structure Seen (ρ : Type) where
  /-- The phase at the check of `handle_request`. -/
  gate : Phase
  /-- The phase under the lock that the operation itself takes, after it has looked up or waited. -/
  phase : Phase
  instances : List (Instance ρ)
  /-- The state of an instance at its first check, and under `stop_lock`. -/
  state : Instance ρ → InstanceState
  recheck : InstanceState
  routes : Table ρ
  readiness : ρ → ReadinessSnapshot
  /-- `TcpListener::bind` and `local_addr`. -/
  bind : Except Str (Except Str Address)
  /-- The error of the listener that `stop_instance` waits for. -/
  failure : Option Str
  /-- The ids of the agents in the registry, `resolve_args`, and the agent's command. -/
  registry : Except Str (List Str)
  args : Except Str Unit
  resolved : Except Str Unit
  /-- The library that builds the router of a runtime, and the runtime around that router. -/
  axum : Router.Library
  runtime : ρ

variable {ρ : Type}

/-- `instances.get`. -/
def Seen.lookup (seen : Seen ρ) (name : Str) : Option (Instance ρ) :=
  seen.instances.find? (·.name = name)

/-! ### Operations -/

def readinessResult (readyzEndpoint : Bool) (snapshot : ReadinessSnapshot) : ReadinessResult :=
  if ¬readyzEndpoint then ⟨.disabled, snapshot.attempts, snapshot.failures, none⟩
  else if snapshot.lastAttemptFailed then
    ⟨.notReady, snapshot.attempts, snapshot.failures, snapshot.lastFailure⟩
  else ⟨.ready, snapshot.attempts, snapshot.failures, none⟩

def registrationResult (name : Str) (address : Address) (key : RouteKey)
    (snapshot : ReadinessSnapshot) : RegistrationResult where
  name
  id := key.id
  route := key.publicRoute
  address := address.text
  path := key.config.path
  healthEndpoint := key.config.healthEndpoint
  readyzEndpoint := key.config.readyzEndpoint
  maxProcesses := key.config.maxProcesses
  readiness := readinessResult key.config.readyzEndpoint snapshot

section Operations

variable (lib : UriParser) (debug : Str → Str) (seen : Seen ρ)

def instanceFor (name : Str) : Except OperationError (Instance ρ) :=
  match seen.lookup name with
  | some i => .ok i
  | none => .error (notFound debug name)

def ensureRunning (i : Instance ρ) (state : InstanceState) : Outcome :=
  if state ≠ .running then .error (isStopping i.name) else .ok ()

def ensureOpen : Outcome := if seen.phase ≠ .running then .error shuttingDown else .ok ()

def createInstance (request : CreateInstanceRequest) : Except OperationError InstanceResult := do
  checkCreate request
  ensureOpen seen
  match seen.lookup request.name with
  | some i => do
    existingOutcome debug request { i with state := seen.state i }
    .ok (instanceResult i (seen.state i))
  | none =>
    match seen.bind with
    | .error error => .error (bindFailed request error)
    | .ok (.error error) => .error (addressFailed error)
    | .ok (.ok address) =>
      .ok ⟨request.name, request.host, address.port, address.text, .running⟩

def listInstances : List InstanceResult :=
  (seen.instances.map fun i => instanceResult i (seen.state i)).mergeSort
    fun left right => decide (left.name ≤ right.name)

def statusInstance (name : Str) : Except OperationError InstanceResult := do
  let i ← instanceFor debug seen name
  .ok (instanceResult i (seen.state i))

def stopInstance (name : Str) : Outcome := do
  let _ ← instanceFor debug seen name
  seen.failure.elim (.ok ()) fun error => .error (listenerFailed error)

/-- The part of `register` that finds the agent: the registry, and the agent's arguments and
command. -/
def resolve (request : RegisterRequest) : Outcome := do
  invalidInput request.config.validate
  let ids ← seen.registry.mapError fun error =>
    ⟨.unavailable, str "failed to fetch agent registry: " ++ error⟩
  if request.id ∉ ids then
    .error ⟨.notFound, str "agent " ++ request.id ++ str " was not found in the registry"⟩
  invalidInput seen.args
  seen.resolved.mapError fun error =>
    ⟨.unavailable, str "failed to resolve agent " ++ request.id ++ str ": " ++ error⟩

/-- `register` up to the runtime. -/
def accept (request : RegisterRequest) : Except OperationError (Instance ρ) := do
  checkRegister lib request
  let i ← instanceFor debug seen request.name
  ensureRunning i (seen.state i)
  resolve seen request
  .ok i

/-- `register` from `stop_lock` on. -/
def publish (request : RegisterRequest) (i : Instance ρ) :
    Except OperationError RegistrationResult := do
  ensureRunning i seen.recheck
  ensureOpen seen
  let key : RouteKey := ⟨request.id, request.route, request.config⟩
  let _ ← insertRoute seen.routes key seen.runtime
  .ok (registrationResult i.name i.address key (seen.readiness seen.runtime))

/-- `register`, unless `RouteRuntime::new` panics. -/
def register (request : RegisterRequest) : Option (Except OperationError RegistrationResult) :=
  match accept lib debug seen request with
  | .error error => some (.error error)
  | .ok i =>
    match Router.routeRuntime seen.axum request.config with
    | .error .panic => none
    | .error (.error error) =>
      some (.error ⟨.invalidInput, str "failed to construct route runtime: " ++ error⟩)
    | .ok _ => some (publish seen request i)

def unregister (request : UnregisterRequest) : Outcome := do
  checkUnregister request
  let i ← instanceFor debug seen request.name
  ensureRunning i seen.recheck
  ensureOpen seen
  let _ ← removeRoute seen.routes request.id
  .ok ()

/-- The order of `registrations`: by route, then by id. -/
def registrationLe (left right : RegistrationResult) : Bool :=
  if left.route = right.route then decide (left.id ≤ right.id) else decide (left.route ≤ right.route)

def registrations (name : Str) : Except OperationError (List RegistrationResult) := do
  let i ← instanceFor debug seen name
  .ok ((seen.routes.map fun entry =>
    registrationResult name i.address entry.1 (seen.readiness entry.2)).mergeSort registrationLe)

end Operations

/-! ### Requests and connections -/

def success (result : Response) : ResponseEnvelope := .success protocolVersion result

def errorResponse (error : OperationError) : ResponseEnvelope := .error protocolVersion error

def respond (result : Except OperationError Response) : ResponseEnvelope :=
  match result with
  | .ok result => success result
  | .error error => errorResponse error

section Requests

variable (lib : UriParser) (debug : Str → Str) (seen : Seen ρ)

/-- `handle_request`, unless it panics. -/
def handleRequest (request : Request) : Option ResponseEnvelope :=
  if isMutation request ∧ seen.gate ≠ .running then some (errorResponse shuttingDown)
  else match request with
  | .health => some (success (.health protocolVersion))
  | .createInstance request =>
    some (respond ((createInstance debug seen request).map .createInstance))
  | .stopInstance name =>
    some (respond ((stopInstance debug seen name).map fun _ => .stopInstance name))
  | .register request =>
    (register lib debug seen request).map fun result => respond (result.map .register)
  | .unregister request => some (respond ((unregister debug seen request).map fun _ =>
      .unregister request.name request.id))
  | .list => some (success (.list (listInstances seen)))
  | .status name => some (respond ((statusInstance debug seen name).map .status))
  | .registrations name =>
    some (respond ((registrations debug seen name).map (.registrations name)))
  | .shutdown => some (success .shutdown)

def unsupportedVersion (version : UInt32) : OperationError :=
  ⟨.invalidInput, str "unsupported protocol version " ++ Nat.toDigits 10 version.toNat ++
    str "; expected 2"⟩

/-- What a connection leaves behind: the frames on the stream, whether the daemon is told to shut
down, and how its task ends. -/
structure Connection where
  frames : List (List UInt8)
  shutdown : Bool
  result : Router.Run Unit

/-- The frames of a call of `write_frame`. -/
def framesOf (written : Except Str Unit × List UInt8) : List (List UInt8) :=
  match written.1 with
  | .ok () => [written.2]
  | .error _ => []

/-- The response that is written for a request. -/
def answer (request : RequestEnvelope) : Option ResponseEnvelope :=
  if request.version ≠ protocolVersion then
    some (errorResponse (unsupportedVersion request.version))
  else handleRequest lib debug seen request.command

/-- `handle_protocol_connection` on the bytes that the client sends. -/
def handleProtocolConnection (float : Str → Option Json.Decimal) (input : List UInt8) :
    Connection :=
  match readFrame (requestOfJson float) input with
  | .error error =>
    let written := writeFrame (responseJson (errorResponse ⟨.invalidInput, error⟩))
    ⟨framesOf written, false, .error (.error error)⟩
  | .ok request =>
    match answer lib debug seen request with
    | none => ⟨[], false, .error .panic⟩
    | some response =>
      let written := writeFrame (responseJson response)
      ⟨framesOf written, request.version = protocolVersion ∧ request.command = .shutdown,
        Router.ofResult written.1⟩

end Requests

/-! ### The bytes of an answer -/

section Sizes

open Json (escapedLen)

def digits (n : ℕ) : ℕ := (Nat.toDigits 10 n).length

def boolSize (b : Bool) : ℕ := if b then 4 else 5

/-- The bytes of an error response with this many bytes of message. -/
def errorSize (code : ErrorCode) (message : ℕ) : ℕ :=
  63 + (errorCodeName code).length + message

/-- The bytes of a response with data, given those of the variant's name and of the data. -/
def dataSize (variant data : ℕ) : ℕ := 58 + variant + data

def instanceSize (name host address : Str) (port : UInt16) (state : InstanceState) : ℕ :=
  53 + escapedLen name + escapedLen host + digits port.toNat + escapedLen address +
    (instanceStateName state).length

def readinessSize (readyzEndpoint : Bool) (snapshot : ReadinessSnapshot) : ℕ :=
  37 + digits snapshot.attempts.toNat + digits snapshot.failures.toNat +
    if ¬readyzEndpoint then 8
    else if snapshot.lastAttemptFailed then
      9 + snapshot.lastFailure.elim 0 fun detail => 12 + escapedLen detail
    else 5

def registrationSize (name : Str) (address : Address) (key : RouteKey)
    (snapshot : ReadinessSnapshot) : ℕ :=
  121 + escapedLen name + escapedLen key.id + escapedLen key.publicRoute +
    escapedLen address.text + escapedLen key.config.path + boolSize key.config.healthEndpoint +
    boolSize key.config.readyzEndpoint + digits key.config.maxProcesses.toNat +
    readinessSize key.config.readyzEndpoint snapshot

/-- The bytes of a JSON array, given those of its items. -/
def arraySize (items : List ℕ) : ℕ := items.sum + (items.length - 1) + 2

theorem escapedLen_keys :
    escapedLen (str "status") = 6 ∧
    escapedLen (str "version") = 7 ∧
    escapedLen (str "error") = 5 ∧
    escapedLen (str "result") = 6 ∧
    escapedLen (str "data") = 4 ∧
    escapedLen (str "ok") = 2 ∧
    escapedLen (str "code") = 4 ∧
    escapedLen (str "message") = 7 ∧
    escapedLen (str "name") = 4 ∧
    escapedLen (str "host") = 4 ∧
    escapedLen (str "port") = 4 ∧
    escapedLen (str "address") = 7 ∧
    escapedLen (str "state") = 5 ∧
    escapedLen (str "id") = 2 ∧
    escapedLen (str "route") = 5 ∧
    escapedLen (str "path") = 4 ∧
    escapedLen (str "health_endpoint") = 15 ∧
    escapedLen (str "readyz_endpoint") = 15 ∧
    escapedLen (str "max_processes") = 13 ∧
    escapedLen (str "readiness") = 9 ∧
    escapedLen (str "attempts") = 8 ∧
    escapedLen (str "failures") = 8 ∧
    escapedLen (str "detail") = 6 ∧
    escapedLen (str "instances") = 9 ∧
    escapedLen (str "registrations") = 13 ∧
    escapedLen (str "protocol_version") = 16 := by
  decide

theorem size_error (error : OperationError) : (responseJson (errorResponse error)).size =
    errorSize error.code (escapedLen error.message) := by
  have code : escapedLen (errorCodeName error.code) = (errorCodeName error.code).length := by
    cases error.code <;> decide
  have version : (Nat.toDigits 10 protocolVersion.toNat).length = 1 := by decide
  simp [responseJson, errorResponse, errorMembers, Json.memberSize, escapedLen_keys, code, version,
    errorSize]
  omega

theorem size_tagged (variant : Str) (data : Serde.Members) :
    (Json.object [(str "status", .string (str "ok")),
      (str "version", .number protocolVersion.toNat), (str "result", .object
        (Serde.tagged (str "result") (str "data") variant data))]).size =
      dataSize (escapedLen variant) (Json.object data).size := by
  have version : (Nat.toDigits 10 protocolVersion.toNat).length = 1 := by decide
  simp [Serde.tagged, Json.memberSize, escapedLen_keys, version, dataSize]
  omega

theorem size_instance (result : InstanceResult) : (Json.object (instanceMembers result)).size =
    instanceSize result.name result.host result.address result.port result.state := by
  have state : escapedLen (instanceStateName result.state) =
      (instanceStateName result.state).length := by
    cases result.state <;> decide
  simp [instanceMembers, Json.memberSize, escapedLen_keys, state, instanceSize, digits]
  omega

theorem size_readiness (readyzEndpoint : Bool) (snapshot : ReadinessSnapshot) :
    (Json.object (readinessMembers (readinessResult readyzEndpoint snapshot))).size =
      readinessSize readyzEndpoint snapshot := by
  have status : escapedLen (readinessStatusName .disabled) = 8 ∧
      escapedLen (readinessStatusName .notReady) = 9 ∧
      escapedLen (readinessStatusName .ready) = 5 := by decide
  obtain ⟨attempts, failures, lastAttemptFailed, lastFailure⟩ := snapshot
  cases readyzEndpoint with
  | false =>
    simp [readinessResult, readinessSize, readinessMembers, Serde.skipNone, Json.memberSize,
      escapedLen_keys, status, digits]
    omega
  | true =>
    cases lastAttemptFailed with
    | false =>
      simp [readinessResult, readinessSize, readinessMembers, Serde.skipNone, Json.memberSize,
        escapedLen_keys, status, digits]
      omega
    | true =>
      cases lastFailure <;>
      · simp [readinessResult, readinessSize, readinessMembers, Serde.skipNone, Json.memberSize,
          escapedLen_keys, status, digits]
        omega

theorem size_registration (name : Str) (address : Address) (key : RouteKey)
    (snapshot : ReadinessSnapshot) :
    (Json.object (registrationMembers (registrationResult name address key snapshot))).size =
      registrationSize name address key snapshot := by
  have readiness := size_readiness key.config.readyzEndpoint snapshot
  simp only [Json.size_object] at readiness
  simp [registrationMembers, registrationResult, Json.memberSize, escapedLen_keys, registrationSize,
    readiness, digits, boolSize]
  omega

/-! The bytes of the answer to a request, from the strings of the request and of what it finds. -/

section Answers

variable (lib : UriParser) (debug : Str → Str) (seen : Seen ρ)

def shuttingDownSize : ℕ := errorSize .operation 23

def notFoundSize (name : Str) : ℕ := errorSize .notFound (9 + escapedLen (debug name) + 14)

def isStoppingSize (i : Instance ρ) : ℕ := errorSize .operation (9 + escapedLen i.name + 12)

/-- The bytes of the error of a check, whose message is a fixed text. -/
def checkSize (error : OperationError) : ℕ := errorSize error.code (escapedLen error.message)

def createSize (request : CreateInstanceRequest) : ℕ :=
  match checkCreate request with
  | .error error => checkSize error
  | .ok () =>
    if seen.phase ≠ .running then shuttingDownSize
    else match seen.lookup request.name with
      | some i =>
        if seen.state i ≠ .running then
          errorSize .operation (9 + escapedLen (debug request.name) + 12)
        else if i.requestedHost = request.host ∧ i.requestedPort = request.port then
          dataSize 14
            (instanceSize i.name i.requestedHost i.address.text i.address.port (seen.state i))
        else errorSize .conflict (9 + escapedLen (debug request.name) + 46)
      | none => match seen.bind with
        | .error error => errorSize .unavailable
            (24 + escapedLen request.host + 1 + digits request.port.toNat + 2 + escapedLen error)
        | .ok (.error error) => errorSize .operation (42 + escapedLen error)
        | .ok (.ok address) => dataSize 14
            (instanceSize request.name request.host address.text address.port .running)

/-- Given what the answer takes if the agent is found. -/
def resolveSize (request : RegisterRequest) (next : ℕ) : ℕ :=
  match request.config.validate with
  | .error error => checkSize ⟨.invalidInput, error⟩
  | .ok () => match seen.registry with
    | .error error => errorSize .unavailable (32 + escapedLen error)
    | .ok ids =>
      if request.id ∉ ids then errorSize .notFound (6 + escapedLen request.id + 30)
      else match seen.args with
        | .error error => errorSize .invalidInput (escapedLen error)
        | .ok () => match seen.resolved with
          | .error error => errorSize .unavailable
              (24 + escapedLen request.id + 2 + escapedLen error)
          | .ok () => next

def publishSize (request : RegisterRequest) (i : Instance ρ) : ℕ :=
  if seen.recheck ≠ .running then isStoppingSize i
  else if seen.phase ≠ .running then shuttingDownSize
  else if seen.routes.any (·.1.id = request.id) then
    errorSize .conflict (9 + escapedLen request.id + 22)
  else if seen.routes.any (·.1.publicRoute = request.route) then
    errorSize .conflict (6 + escapedLen request.route + 22)
  else dataSize 8 (registrationSize i.name i.address
    ⟨request.id, request.route, request.config⟩ (seen.readiness seen.runtime))

def runtimeSize (request : RegisterRequest) (i : Instance ρ) : ℕ :=
  match Router.corsOptions seen.axum request.config.corsOrigins request.config.allowAnyOrigin with
  | .error error => errorSize .invalidInput (35 + escapedLen error)
  | .ok _ => publishSize seen request i

def registerSize (request : RegisterRequest) : ℕ :=
  match checkRegister lib request with
  | .error error => checkSize error
  | .ok () => match seen.lookup request.name with
    | none => notFoundSize debug request.name
    | some i =>
      if seen.state i ≠ .running then isStoppingSize i
      else resolveSize seen request (runtimeSize seen request i)

def unregisterSize (request : UnregisterRequest) : ℕ :=
  match checkUnregister request with
  | .error error => checkSize error
  | .ok () => match seen.lookup request.name with
    | none => notFoundSize debug request.name
    | some i =>
      if seen.recheck ≠ .running then isStoppingSize i
      else if seen.phase ≠ .running then shuttingDownSize
      else if seen.routes.any (·.1.id = request.id) then
        dataSize 10 (19 + escapedLen request.name + escapedLen request.id)
      else errorSize .notFound (6 + escapedLen request.id + 18)

def requestSize (request : Request) : ℕ :=
  if isMutation request ∧ seen.gate ≠ .running then shuttingDownSize
  else match request with
    | .health => dataSize 6 22
    | .createInstance request => createSize debug seen request
    | .stopInstance name =>
      if (seen.lookup name).isSome then
        seen.failure.elim (dataSize 12 (11 + escapedLen name)) fun error =>
          errorSize .operation (26 + escapedLen error)
      else notFoundSize debug name
    | .register request => registerSize lib debug seen request
    | .unregister request => unregisterSize debug seen request
    | .list => dataSize 4 (14 + arraySize (seen.instances.map fun i =>
        instanceSize i.name i.requestedHost i.address.text i.address.port (seen.state i)))
    | .status name => match seen.lookup name with
      | none => notFoundSize debug name
      | some i => dataSize 6
          (instanceSize i.name i.requestedHost i.address.text i.address.port (seen.state i))
    | .registrations name => match seen.lookup name with
      | none => notFoundSize debug name
      | some i => dataSize 13 (28 + escapedLen name + arraySize (seen.routes.map fun entry =>
          registrationSize name i.address entry.1 (seen.readiness entry.2)))
    | .shutdown => 58

def answerSize (request : RequestEnvelope) : ℕ :=
  if request.version ≠ protocolVersion then
    errorSize .invalidInput (29 + digits request.version.toNat + 12)
  else requestSize lib debug seen request.command

variable {lib : UriParser} {debug : Str → Str} {seen : Seen ρ}

theorem size_shuttingDown : (responseJson (errorResponse shuttingDown)).size = shuttingDownSize :=
  size_error _

/-- The bytes of an error, from those of its message. -/
theorem size_message {code : ErrorCode} {message : Str} {n : ℕ} (h : escapedLen message = n) :
    (responseJson (errorResponse ⟨code, message⟩)).size = errorSize code n := by
  rw [size_error, h]

theorem size_notFound (name : Str) :
    (responseJson (errorResponse (notFound debug name))).size = notFoundSize debug name :=
  size_message (by simp only [Json.escapedLen_append]; rfl)

theorem size_isStopping (i : Instance ρ) :
    (responseJson (errorResponse (isStopping i.name))).size = isStoppingSize i :=
  size_message (by simp only [Json.escapedLen_append]; rfl)

theorem respond_ok (result : Response) : respond (.ok result) = success result := rfl

theorem respond_error (error : OperationError) : respond (.error error) = errorResponse error := rfl

theorem size_create (request : CreateInstanceRequest) :
    (responseJson (respond ((createInstance debug seen request).map .createInstance))).size =
      createSize debug seen request := by
  have created : ∀ result : InstanceResult, (responseJson (success (.createInstance result))).size =
      dataSize 14 (instanceSize result.name result.host result.address result.port result.state) :=
    fun result => by rw [← size_instance]; exact size_tagged _ _
  unfold createInstance createSize
  rcases checkCreate request with error | _
  · exact size_error error
  rcases eq_or_ne seen.phase .running with running | stopped
  · simp only [ensureOpen, running, ne_eq, not_true, if_false, bind, Except.bind]
    rcases seen.lookup request.name with _ | i
    · rcases seen.bind with error | error | address
      · simp only [Except.map, respond_error, bindFailed]
        exact size_message (by simp only [Json.escapedLen_append, Json.escapedLen_toDigits]; rfl)
      · simp only [Except.map, respond_error, addressFailed]
        exact size_message (by simp only [Json.escapedLen_append]; rfl)
      · simp only [Except.map, respond_ok, created]
    · simp only [existingOutcome]
      split_ifs
      · simp only [Except.map, respond_error]
        exact size_message (by simp only [Json.escapedLen_append]; rfl)
      · simp only [Except.map, respond_ok, created, instanceResult]
      · simp only [Except.map, respond_error]
        exact size_message (by simp only [Json.escapedLen_append]; rfl)
  · simp only [ensureOpen, stopped, ne_eq, not_false_eq_true, if_true, bind, Except.bind, Except.map,
      respond_error, size_shuttingDown]

theorem size_registered (result : RegistrationResult) {n : ℕ}
    (h : (Json.object (registrationMembers result)).size = n) :
    (responseJson (success (.register result))).size = dataSize 8 n := by
  rw [← h]
  exact size_tagged _ _

theorem size_resolve (request : RegisterRequest) (next : ℕ) :
    resolveSize seen request next = match resolve seen request with
      | .error error => (responseJson (errorResponse error)).size
      | .ok () => next := by
  unfold resolve resolveSize
  simp only [invalidInput, bind, Except.bind]
  rcases request.config.validate with error | _
  · simp only [Except.mapError, size_error, checkSize]
  rcases seen.registry with error | ids
  · simp only [Except.mapError]
    exact (size_message (by simp only [Json.escapedLen_append]; rfl)).symm
  simp only [Except.mapError]
  by_cases known : request.id ∈ ids
  swap
  · simp only [known, not_false_eq_true, if_true]
    exact (size_message (by simp only [Json.escapedLen_append]; rfl)).symm
  simp only [known, not_true, if_false]
  rcases seen.args with error | _
  · simp only [size_error]
  rcases seen.resolved with error | _
  · exact (size_message (by simp only [Json.escapedLen_append]; rfl)).symm
  · rfl

theorem size_publish (request : RegisterRequest) (i : Instance ρ) :
    (responseJson (respond ((publish seen request i).map .register))).size =
      publishSize seen request i := by
  unfold publish publishSize
  simp only [ensureRunning, ensureOpen, insertRoute, bind, Except.bind]
  rcases eq_or_ne seen.recheck .running with running | stopping
  swap
  · simp only [stopping, ne_eq, not_false_eq_true, if_true, Except.map, respond_error,
      size_isStopping]
  rcases eq_or_ne seen.phase .running with running' | stopped
  swap
  · simp only [running, stopped, ne_eq, not_true, not_false_eq_true, if_true, if_false, Except.map,
      respond_error, size_shuttingDown]
  simp only [running, running', ne_eq, not_true, if_false]
  split_ifs
  · simp only [Except.map, respond_error]
    exact size_message (by simp only [Json.escapedLen_append]; rfl)
  · simp only [Except.map, respond_error]
    exact size_message (by simp only [Json.escapedLen_append]; rfl)
  · simp only [Except.map, respond_ok]
    exact size_registered _ (size_registration _ _ _ _)

theorem ok_bind {α β ε : Type} (a : α) (f : α → Except ε β) : (.ok a >>= f) = f a := rfl

/-- What `register` goes through before it builds the runtime. -/
theorem accept_ok_iff {request : RegisterRequest} {i : Instance ρ} :
    accept lib debug seen request = .ok i ↔ checkRegister lib request = .ok () ∧
      seen.lookup request.name = some i ∧ seen.state i = .running ∧
        resolve seen request = .ok () := by
  unfold accept instanceFor ensureRunning
  rcases checkRegister lib request with error | ⟨⟩
  · simp [bind, Except.bind]
  rcases found : seen.lookup request.name with _ | j
  · simp [bind, Except.bind]
  rcases eq_or_ne (seen.state j) .running with running | stopping
  · rcases resolve seen request with error | ⟨⟩
    · simp [bind, Except.bind, running]
    · simp only [bind, Except.bind, running, ne_eq, not_true, if_false, Except.ok.injEq,
        Option.some.injEq, true_and, and_true]
      constructor
      · rintro rfl
        exact ⟨rfl, running⟩
      · rintro ⟨rfl, -⟩
        rfl
  · simp only [bind, Except.bind, stopping, ne_eq, not_false_eq_true, if_true, Option.some.injEq]
    refine iff_of_false nofun ?_
    rintro ⟨-, rfl, running, -⟩
    exact stopping running

theorem size_accept (request : RegisterRequest) :
    registerSize lib debug seen request = match accept lib debug seen request with
      | .error error => (responseJson (errorResponse error)).size
      | .ok i => runtimeSize seen request i := by
  unfold registerSize accept instanceFor ensureRunning
  rcases checkRegister lib request with error | ⟨⟩
  · exact (size_error error).symm
  rcases seen.lookup request.name with _ | i
  · exact (size_notFound request.name).symm
  rcases eq_or_ne (seen.state i) .running with running | stopping
  · simp only [ok_bind, running, ne_eq, not_true, if_false]
    rw [size_resolve]
    rcases resolve seen request with error | ⟨⟩ <;> rfl
  · simp only [ok_bind, stopping, ne_eq, not_false_eq_true, if_true]
    exact (size_isStopping i).symm

theorem resolve_ok_iff {request : RegisterRequest} :
    resolve seen request = .ok () ↔ request.config.validate = .ok () ∧
      (∃ ids, seen.registry = .ok ids ∧ request.id ∈ ids) ∧ seen.args = .ok () ∧
        seen.resolved = .ok () := by
  unfold resolve invalidInput
  rcases request.config.validate with error | ⟨⟩
  · simp [bind, Except.bind, Except.mapError]
  rcases seen.registry with error | ids
  · simp [bind, Except.bind, Except.mapError]
  by_cases known : request.id ∈ ids
  · rcases seen.args with error | ⟨⟩ <;> rcases seen.resolved with error | ⟨⟩ <;>
      simp [bind, Except.bind, Except.mapError, known]
  · simp [bind, Except.bind, Except.mapError, known]

theorem size_register {request : RegisterRequest}
    {result : Except OperationError RegistrationResult}
    (h : register lib debug seen request = some result) :
    (responseJson (respond (result.map .register))).size = registerSize lib debug seen request := by
  rw [size_accept]
  unfold register at h
  cases admitted : accept lib debug seen request with
  | error error =>
    rw [admitted] at h
    cases h
    rfl
  | ok i =>
    rw [admitted] at h
    obtain ⟨-, -, -, resolved⟩ := accept_ok_iff.mp admitted
    dsimp only [runtimeSize] at h ⊢
    rcases Router.routeRuntime_cases seen.axum (resolve_ok_iff.mp resolved).1 with
      ⟨error, cors, failed⟩ | ⟨⟨cors, cors_⟩, ⟨-, panics⟩ | ⟨-, built⟩⟩
    · rw [failed] at h
      cases h
      rw [cors]
      exact size_message (by simp only [Json.escapedLen_append]; rfl)
    · rw [panics] at h
      exact nomatch h
    · rw [built] at h
      cases h
      rw [cors_]
      exact size_publish request i

theorem size_unregister (request : UnregisterRequest) :
    (responseJson (respond ((unregister debug seen request).map fun _ =>
      .unregister request.name request.id))).size = unregisterSize debug seen request := by
  have done : (responseJson (success (.unregister request.name request.id))).size =
      dataSize 10 (19 + escapedLen request.name + escapedLen request.id) := by
    refine (size_tagged (str "Unregister") _).trans ?_
    simp only [Json.size_object, List.map_cons, List.map_nil, Json.memberSize, escapedLen_keys,
      Json.size_string, List.sum_cons, List.sum_nil, List.length_cons, List.length_nil]
    rw [show escapedLen (str "Unregister") = 10 by decide]
    congr 1
    omega
  unfold unregister unregisterSize instanceFor
  rcases checkUnregister request with error | _
  · exact size_error error
  simp only [bind, Except.bind]
  rcases seen.lookup request.name with _ | i
  · simp only [Except.map, respond_error, size_notFound]
  simp only [ensureRunning, ensureOpen]
  rcases eq_or_ne seen.recheck .running with running | stopping
  swap
  · simp only [stopping, ne_eq, not_false_eq_true, if_true, Except.map, respond_error,
      size_isStopping]
  rcases eq_or_ne seen.phase .running with running' | stopped
  swap
  · simp only [running, stopped, ne_eq, not_true, not_false_eq_true, if_true, if_false, Except.map,
      respond_error, size_shuttingDown]
  simp only [running, running', ne_eq, not_true, if_false, removeRoute]
  by_cases registered : seen.routes.any (·.1.id = request.id) = true
  · obtain ⟨route, found⟩ := Option.isSome_iff_exists.mp (List.find?_isSome.mpr
      (by simpa using registered : ∃ x ∈ seen.routes, decide (x.1.id = request.id) = true))
    simp only [found, registered, if_true, Except.map, respond_ok, done]
  · have missing : seen.routes.find? (fun x => decide (x.1.id = request.id)) = none := by
      simpa using registered
    simp only [missing, registered, Except.map, respond_error]
    exact size_message (by simp only [Json.escapedLen_append]; rfl)

theorem size_stop (name : Str) : (responseJson (respond ((stopInstance debug seen name).map fun _ =>
    .stopInstance name))).size =
    if (seen.lookup name).isSome then
      seen.failure.elim (dataSize 12 (11 + escapedLen name)) fun error =>
        errorSize .operation (26 + escapedLen error)
    else notFoundSize debug name := by
  unfold stopInstance instanceFor
  simp only [bind, Except.bind]
  rcases seen.lookup name with _ | i
  · simp only [Except.map, respond_error, size_notFound]
    rfl
  rcases seen.failure with _ | error
  · simp only [Option.elim, Except.map, respond_ok, Option.isSome_some, if_true]
    refine (size_tagged (str "StopInstance") _).trans ?_
    simp only [nameMembers, Json.size_object, List.map_cons, List.map_nil, Json.memberSize,
      escapedLen_keys, Json.size_string, List.sum_cons, List.sum_nil, List.length_cons,
      List.length_nil]
    rw [show escapedLen (str "StopInstance") = 12 by decide]
    congr 1
    omega
  · simp only [Option.elim, Except.map, respond_error, Option.isSome_some, if_true]
    exact size_message (by simp only [Json.escapedLen_append]; rfl)

/-- The order of the items plays no part in the bytes of an array. -/
theorem size_sorted {α : Type} (le : α → α → Bool) (results : List α) (members : α → Serde.Members) :
    (Json.array ((results.mergeSort le).map fun result => .object (members result))).size =
      arraySize (results.map fun result => (Json.object (members result)).size) := by
  have perm := (List.mergeSort_perm results le).map fun result => (Json.object (members result)).size
  rw [Json.size_array, List.map_map, arraySize, ← perm.sum_nat, List.length_map, List.length_map,
    List.length_mergeSort]
  rfl

theorem size_list : (responseJson (success (.list (listInstances seen)))).size =
    dataSize 4 (14 + arraySize (seen.instances.map fun i =>
      instanceSize i.name i.requestedHost i.address.text i.address.port (seen.state i))) := by
  have items := size_sorted (fun left right => decide (left.name ≤ right.name))
    (seen.instances.map fun i => instanceResult i (seen.state i)) instanceMembers
  simp only [List.map_map, Function.comp_def, size_instance] at items
  refine (size_tagged (str "List") _).trans ?_
  simp only [Json.size_object, List.map_cons, List.map_nil, Json.memberSize, escapedLen_keys,
    List.sum_cons, List.sum_nil, List.length_cons, List.length_nil, listInstances, items]
  rw [show escapedLen (str "List") = 4 by decide]
  congr 1
  simp only [instanceResult]
  omega

theorem size_registrations (name : Str) :
    (responseJson (respond ((registrations debug seen name).map (.registrations name)))).size =
    match seen.lookup name with
    | none => notFoundSize debug name
    | some i => dataSize 13 (28 + escapedLen name + arraySize (seen.routes.map fun entry =>
        registrationSize name i.address entry.1 (seen.readiness entry.2))) := by
  unfold registrations instanceFor
  rcases seen.lookup name with _ | i
  · exact size_notFound name
  have items := size_sorted registrationLe (seen.routes.map fun entry =>
    registrationResult name i.address entry.1 (seen.readiness entry.2)) registrationMembers
  simp only [List.map_map, Function.comp_def, size_registration] at items
  simp only [ok_bind, Except.map, respond_ok]
  refine (size_tagged (str "Registrations") _).trans ?_
  simp only [Json.size_object, List.map_cons, List.map_nil, Json.memberSize, escapedLen_keys,
    Json.size_string, List.sum_cons, List.sum_nil, List.length_cons, List.length_nil, items]
  congr 1
  omega

theorem size_status (name : Str) :
    (responseJson (respond ((statusInstance debug seen name).map .status))).size =
    match seen.lookup name with
    | none => notFoundSize debug name
    | some i => dataSize 6
        (instanceSize i.name i.requestedHost i.address.text i.address.port (seen.state i)) := by
  unfold statusInstance instanceFor
  rcases seen.lookup name with _ | i
  · exact size_notFound name
  · simp only [ok_bind, Except.map, respond_ok]
    refine (size_tagged (str "Status") _).trans ?_
    rw [size_instance]
    rfl

theorem size_request {request : Request} {response : ResponseEnvelope}
    (h : handleRequest lib debug seen request = some response) :
    (responseJson response).size = requestSize lib debug seen request := by
  unfold handleRequest at h
  unfold requestSize
  split_ifs at h ⊢
  · cases h
    exact size_shuttingDown
  cases request with
  | health =>
    cases h
    refine (size_tagged (str "Health") _).trans ?_
    simp [Json.memberSize, escapedLen_keys]
    decide
  | createInstance request =>
    cases h
    exact size_create request
  | stopInstance name =>
    cases h
    exact size_stop name
  | register request =>
    obtain ⟨result, registered, rfl⟩ := Option.map_eq_some_iff.mp h
    exact size_register registered
  | unregister request =>
    cases h
    exact size_unregister request
  | list =>
    cases h
    exact size_list
  | status name =>
    cases h
    exact size_status name
  | registrations name =>
    cases h
    exact size_registrations name
  | shutdown =>
    cases h
    exact (by decide +kernel : (responseJson (success .shutdown)).size = 58)

/-- The bytes of the answer. -/
theorem size_answer {request : RequestEnvelope} {response : ResponseEnvelope}
    (h : answer lib debug seen request = some response) :
    (responseJson response).size = answerSize lib debug seen request := by
  unfold answer at h
  unfold answerSize
  split_ifs at h ⊢
  · cases h
    exact size_message (by simp only [Json.escapedLen_append, Json.escapedLen_toDigits]; rfl)
  · exact size_request h

end Answers

end Sizes

/-! ### One response for each request -/

section Panics

variable (lib : UriParser) (seen : Seen ρ)

/-- Nothing stops a `register` before axum gets the path of its configuration, and panics on it. -/
structure RuntimePanics (request : RegisterRequest) : Prop where
  checked : checkRegister lib request = .ok ()
  running : ∃ i, seen.lookup request.name = some i ∧ seen.state i = .running
  valid : request.config.validate = .ok ()
  known : ∃ ids, seen.registry = .ok ids ∧ request.id ∈ ids
  args : seen.args = .ok ()
  resolved : seen.resolved = .ok ()
  cors : ∃ cors, Router.corsOptions seen.axum request.config.corsOrigins
    request.config.allowAnyOrigin = .ok cors
  refused : Router.Refused seen.axum.routeBraces request.config.path

/-- The requests whose handling panics. -/
def Panics (request : Request) : Prop :=
  seen.gate = .running ∧ ∃ register, request = .register register ∧ RuntimePanics lib seen register

variable {lib : UriParser} {debug : Str → Str} {seen : Seen ρ}

theorem register_none_iff {request : RegisterRequest} :
    register lib debug seen request = none ↔ RuntimePanics lib seen request := by
  unfold register
  cases admitted : accept lib debug seen request with
  | error error =>
    refine iff_of_false nofun fun panics => ?_
    obtain ⟨i, found, running⟩ := panics.running
    have ok : accept lib debug seen request = .ok i := accept_ok_iff.mpr ⟨panics.checked, found,
      running, resolve_ok_iff.mpr ⟨panics.valid, panics.known, panics.args, panics.resolved⟩⟩
    exact nomatch admitted.symm.trans ok
  | ok i =>
    obtain ⟨checked, found, running, resolves⟩ := accept_ok_iff.mp admitted
    obtain ⟨valid, known, args, resolved⟩ := resolve_ok_iff.mp resolves
    dsimp only
    rcases Router.routeRuntime_cases seen.axum valid with
      ⟨error, cors, failed⟩ | ⟨cors, ⟨refused, panics⟩ | ⟨fine, built⟩⟩
    · rw [failed]
      refine iff_of_false nofun fun panics => ?_
      obtain ⟨_, cors'⟩ := panics.cors
      exact nomatch cors.symm.trans cors'
    · rw [panics]
      exact iff_of_true rfl
        ⟨checked, ⟨i, found, running⟩, valid, known, args, resolved, cors, refused⟩
    · rw [built]
      exact iff_of_false nofun fun panics => fine panics.refused

theorem handleRequest_none_iff {request : Request} :
    handleRequest lib debug seen request = none ↔ Panics lib seen request := by
  unfold handleRequest Panics
  split_ifs with stopped
  · exact iff_of_false nofun fun panics => stopped.2 panics.1
  cases request with
  | register request =>
    have running : seen.gate = .running := by simpa [isMutation] using stopped
    simp [running, register_none_iff]
  | _ => simp

theorem answer_none_iff {request : RequestEnvelope} :
    answer lib debug seen request = none ↔
      request.version = protocolVersion ∧ Panics lib seen request.command := by
  unfold answer
  split_ifs with other
  · exact iff_of_false nofun fun panics => other panics.1
  · rw [handleRequest_none_iff, and_iff_right (not_not.mp other)]

end Panics

/-- One frame is written, and the client reads a response from it. -/
def Answered (float : Str → Option Json.Decimal) (frames : List (List UInt8)) : Prop :=
  ∃ frame response, frames = [frame] ∧ readFrame (responseOfJson float) frame = .ok response

variable {float : Str → Option Json.Decimal}

/-- A response is written in one frame if it fits, and else nothing is written. -/
theorem answered_writeFrame (response : ResponseEnvelope) :
    Answered float (framesOf (writeFrame (responseJson response))) ↔
      (responseJson response).size ≤ maxFrameSize := by
  rcases Nat.lt_or_ge maxFrameSize (responseJson response).size with long | fits
  · rw [writeFrame_exceeds long]
    refine iff_of_false ?_ (Nat.not_le.mpr long)
    rintro ⟨frame, _, written, -⟩
    simp [framesOf] at written
  · rw [writeFrame_fits fits]
    refine iff_of_true ⟨_, response, rfl, ?_⟩ fits
    have read := readFrame_lengthBytes (responseOfJson_responseJson float response) fits []
    rwa [List.append_nil] at read

variable {lib : UriParser} {debug : Str → Str} {seen : Seen ρ}

/-- A request that decodes is answered if and only if it does not register a path on which axum
panics and its answer, with the strings that it repeats from the request and from the daemon, fits
into a frame. -/
theorem answered_iff {input : List UInt8} {request : RequestEnvelope}
    (h : readFrame (requestOfJson float) input = .ok request) :
    Answered float (handleProtocolConnection lib debug seen float input).frames ↔
      ¬(request.version = protocolVersion ∧ Panics lib seen request.command) ∧
        answerSize lib debug seen request ≤ maxFrameSize := by
  have silent : answer lib debug seen request = none ↔ _ := answer_none_iff
  rw [handleProtocolConnection, h, ← silent]
  dsimp only
  cases answered : answer lib debug seen request with
  | none =>
    refine iff_of_false ?_ fun small => small.1 rfl
    rintro ⟨frame, _, written, -⟩
    cases written
  | some response =>
    rw [← size_answer answered]
    exact (answered_writeFrame response).trans (and_iff_right nofun).symm

/-- A daemon without instances. -/
def fresh : Seen Unit where
  gate := .running
  phase := .running
  instances := []
  state _ := .running
  recheck := .running
  routes := []
  readiness _ := ⟨0, 0, false, none⟩
  bind := .ok (.ok ⟨8010, str "http://127.0.0.1:8010"⟩)
  failure := none
  registry := .ok []
  args := .ok ()
  resolved := .ok ()
  axum := Router.plainLibrary
  runtime := ()

/-- The `{:?}` of a string without special characters. -/
def quoted (s : Str) : Str := '"' :: s ++ ['"']

/-- No request has a number that is read as an `f64`. -/
def noFloat : Str → Option Json.Decimal := fun _ => none

theorem answered_iff_health :
    Answered noFloat (handleProtocolConnection plainUri quoted fresh noFloat
      (lengthBytes 32 ++ Str.bytes (requestJson ⟨2, .health⟩).text)).frames ↔
      ¬((2 : UInt32) = protocolVersion ∧ Panics plainUri fresh .health) ∧
        answerSize plainUri quoted fresh ⟨2, .health⟩ ≤ maxFrameSize := by
  have size : (requestJson ⟨2, .health⟩).size = 32 := by decide +kernel
  have read := readFrame_lengthBytes (requestOfJson_requestJson noFloat ⟨2, .health⟩)
    (show (requestJson ⟨2, .health⟩).size ≤ maxFrameSize by rw [size]; decide) []
  rw [List.append_nil, size] at read
  exact answered_iff read

theorem size_statusRequest (name : Str) :
    (requestJson ⟨2, .status name⟩).size = 54 + Json.escapedLen name := by
  have keys : Json.escapedLen (str "command") = 7 ∧ Json.escapedLen (str "payload") = 7 ∧
      Json.escapedLen (str "Status") = 6 ∧ (Nat.toDigits 10 2).length = 1 := by
    decide
  simp [requestJson, requestMembers, Serde.tagged, nameMembers, Json.memberSize, escapedLen_keys,
    keys]
  omega

/-- The error for an unknown instance is longer than the request. -/
theorem answerSize_status (name : Str) :
    answerSize plainUri quoted fresh ⟨2, .status name⟩ = 99 + Json.escapedLen name := by
  have marks : Json.escapedLen (quoted name) = 2 + Json.escapedLen name + 2 := by
    have mark : Json.escapedLen ['"'] = 2 := by decide
    have shape : quoted name = ['"'] ++ name ++ ['"'] := rfl
    rw [shape, Json.escapedLen_append, Json.escapedLen_append, mark]
  have code : (errorCodeName .notFound).length = 9 := by decide
  have missing : answerSize plainUri quoted fresh ⟨2, .status name⟩ =
      63 + (errorCodeName .notFound).length + (9 + Json.escapedLen (quoted name) + 14) := rfl
  rw [missing, marks, code]
  omega

theorem readFrame_statusRequest {name : Str} (h : Json.escapedLen name ≤ 1048522) :
    readFrame (requestOfJson float) (writeFrame (requestJson ⟨2, .status name⟩)).2 =
      .ok ⟨2, .status name⟩ := by
  have fits : (requestJson ⟨2, .status name⟩).size ≤ maxFrameSize := by
    rw [size_statusRequest, maxFrameSize]
    omega
  have read := readFrame_lengthBytes (requestOfJson_requestJson float ⟨2, .status name⟩) fits []
  rw [writeFrame_fits fits]
  rwa [List.append_nil] at read

/-- A name that nearly fills a frame. -/
def longName : Str := List.replicate 1048500 'a'

theorem escapedLen_longName : Json.escapedLen longName = 1048500 := by
  rw [longName, Json.escapedLen_replicate, show Json.escapedLen ['a'] = 1 by decide]

/-- The error for an instance that does not exist repeats its name, quoted and in more text than the
request has around it. -/
theorem long_name_unanswered :
    readFrame (requestOfJson noFloat) (writeFrame (requestJson ⟨2, .status longName⟩)).2 =
        .ok ⟨2, .status longName⟩ ∧
      ¬Answered noFloat (handleProtocolConnection plainUri quoted fresh noFloat
        (writeFrame (requestJson ⟨2, .status longName⟩)).2).frames := by
  have short : Json.escapedLen longName ≤ 1048522 := by
    rw [escapedLen_longName]
    decide
  have read : readFrame (requestOfJson noFloat) _ = .ok _ := readFrame_statusRequest short
  refine ⟨read, ?_⟩
  rw [handleProtocolConnection, read]
  dsimp only
  cases answered : answer plainUri quoted fresh ⟨2, .status longName⟩ with
  | none =>
    rintro ⟨frame, _, written, -⟩
    cases written
  | some response =>
    rw [answered_writeFrame, size_answer answered, answerSize_status, escapedLen_longName,
      maxFrameSize]
    decide

end AcpAgent.Server.Control
