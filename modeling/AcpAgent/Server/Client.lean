import AcpAgent.Lib.Except
import AcpAgent.Server.Control

/-! The client of the control protocol, `server/client.rs`: the requests that the commands make, and
what they report of the daemon's answers. -/

namespace AcpAgent.Server.Client

open Serve Routes Wire Control

/-- `io::ErrorKind`, as far as `request_existing` tells errors apart by it. -/
inductive IoErrorKind
  | notFound
  | connectionRefused
  | other
  deriving DecidableEq

structure IoError where
  kind : IoErrorKind
  text : Str

/-- The errors of the client: `MissingDaemonEndpoint`, `DaemonEndpointError`, `DaemonClientError`, a
result of another command, any other error by its text, and an error with what it is the cause of. -/
inductive ClientError
  | missingEndpoint (source : Str)
  | endpoint (source : Str)
  | daemon (error : OperationError)
  | unexpected (response : Response) (command : Str)
  | message (text : Str)
  | context (text : Str) (cause : ClientError)
  deriving DecidableEq

/-- The texts, for the path of the socket; `debug` is the `{:?}` of a response. -/
def ClientError.text (path : Str) (debug : Response → Str) : ClientError → Str
  | .missingEndpoint source =>
    str "daemon endpoint " ++ path ++ str " is missing: " ++ source
  | .endpoint source => str "daemon endpoint " ++ path ++ str " is unusable: " ++ source
  | .daemon error => str "daemon " ++ errorCodeName error.code ++ str " error: " ++ error.message
  | .unexpected response command =>
    str "daemon returned " ++ debug response ++ str " for " ++ command
  | .message text | .context text _ => text

/-! ### Requests -/

def connectError (error : IoError) : ClientError :=
  match error.kind with
  | .notFound | .connectionRefused => .missingEndpoint error.text
  | .other => .endpoint error.text

def responseResult : ResponseEnvelope → Except ClientError Response
  | .success version result =>
    if version ≠ protocolVersion then
      .error (.message (str "daemon response used protocol version " ++
        Nat.toDigits 10 version.toNat ++ str ", expected 2"))
    else .ok result
  | .error version error =>
    if version ≠ protocolVersion then
      .error (.message (str "daemon error response used protocol version " ++
        Nat.toDigits 10 version.toNat ++ str ", expected 2"))
    else .error (.daemon error)

/-- `request_existing`, with a peer that answers what it has received on a connection. -/
def requestExisting (float : Str → Option Json.Decimal) (connect : Except IoError Unit)
    (peer : List UInt8 → List UInt8) (command : Request) : Except ClientError Response :=
  match connect with
  | .error error => .error (connectError error)
  | .ok () =>
    match writeFrame (requestJson ⟨protocolVersion, command⟩) with
    | (.error error, _) => .error (.message error)
    | (.ok (), frame) =>
      match readFrame (responseOfJson float) (peer frame) with
      | .error error => .error (.message error)
      | .ok response => responseResult response

/-! ### Commands -/

structure StartOptions where
  name : Str
  host : Str
  port : UInt16

structure RegisterOptions where
  name : Str
  route : Option Str
  config : RouteConfig
  yolo : Bool
  args : List Str

structure ServerRecord where
  name : Str
  state : Str
  host : Str
  port : UInt16
  address : Str
  deriving DecidableEq

structure RegistrationRecord where
  id : Str
  route : Str
  readiness : Str
  detail : Option Str
  deriving DecidableEq

structure StartResult where
  name : Str
  address : Str
  deriving DecidableEq

structure RegisterResult where
  agentId : Str
  route : Str
  address : Str
  deriving DecidableEq

structure UnregisterResult where
  agentId : Str
  serverName : Str
  deriving DecidableEq

def serverRecord (instance_ : InstanceResult) : ServerRecord :=
  ⟨instance_.name, instanceStateName instance_.state, instance_.host, instance_.port,
    instance_.address⟩

def registrationRecord (registration : RegistrationResult) : RegistrationRecord :=
  ⟨registration.id, registration.route, readinessStatusName registration.readiness.status,
    registration.readiness.detail⟩

/-- A check of the client itself. -/
def checked (check : Except Str Unit) : Except ClientError Unit := check.mapError .message

section Commands

variable (lib : UriParser) (request : Request → Except ClientError Response)

def start (options : StartOptions) : Except ClientError StartResult := do
  checked (validateName options.name)
  match ← request (.createInstance ⟨options.name, options.host, options.port⟩) with
  | .createInstance result => .ok ⟨result.name, result.address⟩
  | other => .error (.unexpected other (str "CreateInstance"))

/-- `StopResult` holds a name and nothing else. -/
def stop (name : Str) : Except ClientError Str := do
  checked (validateName name)
  match ← request (.stopInstance name) with
  | .stopInstance name => .ok name
  | other => .error (.unexpected other (str "StopInstance"))

def register (agentId : Str) (options : RegisterOptions) : Except ClientError RegisterResult := do
  checked (validateName options.name)
  let route := options.route.getD ('/' :: agentId)
  checked (validateRoute lib route)
  match ← request (.register
      ⟨options.name, agentId, route, options.config, options.yolo, options.args⟩) with
  | .register result => .ok ⟨result.id, result.route, result.address⟩
  | other => .error (.unexpected other (str "Register"))

def unregister (agentId name : Str) : Except ClientError UnregisterResult := do
  checked (validateName name)
  match ← request (.unregister ⟨name, agentId⟩) with
  | .unregister name id => .ok ⟨id, name⟩
  | other => .error (.unexpected other (str "Unregister"))

def list : Except ClientError (List ServerRecord) := do
  match ← request .list with
  | .list instances => .ok (instances.map serverRecord)
  | other => .error (.unexpected other (str "List"))

def status (name : Str) : Except ClientError ServerRecord := do
  checked (validateName name)
  match ← request (.status name) with
  | .status result => .ok (serverRecord result)
  | other => .error (.unexpected other (str "Status"))

def registrations (name : Str) : Except ClientError (List RegistrationRecord) := do
  checked (validateName name)
  match ← request (.registrations name) with
  | .registrations _ registrations => .ok (registrations.map registrationRecord)
  | other => .error (.unexpected other (str "Registrations"))

end Commands

/-- A command of the client, with its options. -/
inductive Call
  | start (options : StartOptions)
  | stop (name : Str)
  | register (agentId : Str) (options : RegisterOptions)
  | unregister (agentId name : Str)
  | list
  | status (name : Str)
  | registrations (name : Str)

inductive Report
  | started (result : StartResult)
  | stopped (name : Str)
  | registered (result : RegisterResult)
  | unregistered (result : UnregisterResult)
  | servers (records : List ServerRecord)
  | server (record : ServerRecord)
  | registrations (records : List RegistrationRecord)

def Call.run (lib : UriParser) (request : Request → Except ClientError Response) :
    Call → Except ClientError Report
  | .start options => (Client.start request options).map .started
  | .stop name => (Client.stop request name).map .stopped
  | .register agentId options => (Client.register lib request agentId options).map .registered
  | .unregister agentId name => (Client.unregister request agentId name).map .unregistered
  | .list => (Client.list request).map .servers
  | .status name => (Client.status request name).map .server
  | .registrations name => (Client.registrations request name).map .registrations

/-! ### What a daemon answers -/

section Daemon

variable {ρ : Type} (float : Str → Option Json.Decimal) (lib : UriParser) (debug : Str → Str)
  (seen : Seen ρ)

/-- What the daemon writes to a connection. -/
def daemonPeer (input : List UInt8) : List UInt8 :=
  (handleProtocolConnection lib debug seen float input).frames.flatten

/-- The request reaches the daemon, and so does its answer the client. -/
structure Fits (command : Request) (answer : ResponseEnvelope) : Prop where
  request : (requestJson ⟨protocolVersion, command⟩).size ≤ maxFrameSize
  answer : (responseJson answer).size ≤ maxFrameSize

variable {float lib debug seen} {command : Request} {response : Response} {error : OperationError}

theorem framesOf_writeFrame (message : Json) : (framesOf (writeFrame message)).flatten =
    if maxFrameSize < message.size then [] else lengthBytes message.size ++ message.text.bytes := by
  split_ifs with long
  · rw [writeFrame_exceeds long]
    rfl
  · rw [writeFrame_fits (Nat.not_lt.mp long)]
    exact List.append_nil _

/-- A request that fits into a frame is handled, and the daemon writes the answer that it gives. -/
theorem daemonPeer_frame (fits : (requestJson ⟨protocolVersion, command⟩).size ≤ maxFrameSize) :
    daemonPeer float lib debug seen (lengthBytes (requestJson ⟨protocolVersion, command⟩).size ++
        (requestJson ⟨protocolVersion, command⟩).text.bytes) =
      match handleRequest lib debug seen command with
      | none => []
      | some response =>
        let answer := responseJson response
        if maxFrameSize < answer.size then []
        else lengthBytes answer.size ++ answer.text.bytes := by
  have read := readFrame_lengthBytes (requestOfJson_requestJson float ⟨protocolVersion, command⟩)
    fits []
  rw [List.append_nil] at read
  rw [daemonPeer, handleProtocolConnection, read]
  simp only [answer, ne_eq, not_true, if_false]
  cases handleRequest lib debug seen command with
  | none => rfl
  | some response => exact framesOf_writeFrame _

/-- A call of the daemon over the wire is the call itself, unless it panics or a frame gets too
long. -/
theorem requestExisting_daemon (float : Str → Option Json.Decimal) (lib : UriParser)
    (debug : Str → Str) (seen : Seen ρ) (command : Request) :
    requestExisting float (.ok ()) (daemonPeer float lib debug seen) command =
      if maxFrameSize < (requestJson ⟨protocolVersion, command⟩).size then
        .error (.message exceeds)
      else match handleRequest lib debug seen command with
        | none => .error (.message closed)
        | some response =>
          if maxFrameSize < (responseJson response).size then .error (.message closed)
          else responseResult response := by
  rw [requestExisting]
  by_cases long : maxFrameSize < (requestJson ⟨protocolVersion, command⟩).size
  · rw [writeFrame_exceeds long, if_pos long]
  · have fits := Nat.not_lt.mp long
    rw [writeFrame_fits fits, if_neg long]
    dsimp only
    rw [daemonPeer_frame fits]
    cases handleRequest lib debug seen command with
    | none => rfl
    | some response =>
      dsimp only
      split_ifs with unanswered
      · rfl
      · have read := readFrame_lengthBytes (responseOfJson_responseJson float response)
          (Nat.not_lt.mp unanswered) []
        rw [List.append_nil] at read
        rw [read]

/-! ### An answer is about what was asked -/

/-- A result belongs to a command, and names what the command names. -/
inductive Answers : Request → Response → Prop
  | health : Answers .health (.health protocolVersion)
  | create {request : CreateInstanceRequest} {result : InstanceResult}
      (named : result.name = request.name) :
      Answers (.createInstance request) (.createInstance result)
  | stop (name : Str) : Answers (.stopInstance name) (.stopInstance name)
  | register {request : RegisterRequest} {result : RegistrationResult}
      (named : result.name = request.name) (id : result.id = request.id)
      (route : result.route = request.route) : Answers (.register request) (.register result)
  | unregister (request : UnregisterRequest) :
      Answers (.unregister request) (.unregister request.name request.id)
  | list (instances : List InstanceResult) : Answers .list (.list instances)
  | status {name : Str} {result : InstanceResult} (named : result.name = name) :
      Answers (.status name) (.status result)
  | registrations {name : Str} {registrations : List RegistrationResult}
      (named : ∀ result ∈ registrations, result.name = name) :
      Answers (.registrations name) (.registrations name registrations)
  | shutdown : Answers .shutdown .shutdown

theorem Seen.name_of_lookup {name : Str} {i : Supervisor.Instance ρ}
    (h : seen.lookup name = some i) : i.name = name := by
  simpa using List.find?_some h

theorem respond_eq_success {result : Except OperationError Response} :
    respond result = success response ↔ result = .ok response := by
  cases result with
  | error error => simp [respond, success, errorResponse]
  | ok result => simp [respond, success]

theorem createInstance_named {request : CreateInstanceRequest} {result : InstanceResult}
    (h : createInstance debug seen request = .ok result) : result.name = request.name := by
  unfold createInstance at h
  simp only [Except.bind_eq_ok_iff] at h
  obtain ⟨-, -, -, -, h⟩ := h
  cases found : seen.lookup request.name with
  | some i =>
    simp only [found, Except.bind_eq_ok_iff] at h
    obtain ⟨-, -, h⟩ := h
    obtain rfl := Except.ok.inj h
    exact Seen.name_of_lookup found
  | none =>
    simp only [found] at h
    rcases bound : seen.bind with error | error | address
    · simp [bound] at h
    · simp [bound] at h
    · simp only [bound] at h
      obtain rfl := Except.ok.inj h
      rfl

theorem lookup_of_instanceFor {name : Str} {i : Supervisor.Instance ρ}
    (h : instanceFor debug seen name = .ok i) : i.name = name := by
  unfold instanceFor at h
  cases found : seen.lookup name with
  | some j =>
    simp only [found] at h
    obtain rfl := Except.ok.inj h
    exact Seen.name_of_lookup found
  | none => simp [found] at h

theorem statusInstance_named {name : Str} {result : InstanceResult}
    (h : statusInstance debug seen name = .ok result) : result.name = name := by
  unfold statusInstance at h
  rw [Except.bind_eq_ok_iff] at h
  obtain ⟨i, found, h⟩ := h
  obtain rfl := Except.ok.inj h
  exact lookup_of_instanceFor found

theorem register_named {request : RegisterRequest} {result : RegistrationResult}
    (h : Control.register lib debug seen request = some (.ok result)) :
    result.name = request.name ∧ result.id = request.id ∧ result.route = request.route := by
  unfold Control.register at h
  cases admitted : accept lib debug seen request with
  | error error =>
    rw [admitted] at h
    cases h
  | ok i =>
    have named : i.name = request.name := Seen.name_of_lookup (accept_ok_iff.mp admitted).2.1
    rw [admitted] at h
    rcases built : Router.routeRuntime seen.axum request.config with (_ | _) | router
    · simp [built] at h
    · simp [built] at h
    · simp only [built] at h
      have published := Option.some.inj h
      unfold publish at published
      simp only [Except.bind_eq_ok_iff] at published
      obtain ⟨-, -, -, -, -, -, published⟩ := published
      obtain rfl := Except.ok.inj published
      exact ⟨named, rfl, rfl⟩

theorem registrations_named {name : Str} {results : List RegistrationResult}
    (h : Control.registrations debug seen name = .ok results) :
    ∀ result ∈ results, result.name = name := by
  unfold Control.registrations at h
  rw [Except.bind_eq_ok_iff] at h
  obtain ⟨i, -, h⟩ := h
  obtain rfl := Except.ok.inj h
  intro result member
  obtain ⟨entry, -, rfl⟩ := List.mem_map.mp (List.mem_mergeSort.mp member)
  rfl

/-- The daemon never answers with the result of another command, or about another server or agent. -/
theorem handleRequest_answers (h : handleRequest lib debug seen command = some (success response)) :
    Answers command response := by
  unfold handleRequest at h
  split_ifs at h with refused
  · cases h
  · cases command with
    | health =>
      obtain rfl := (ResponseEnvelope.success.inj (Option.some.inj h)).2
      exact .health
    | createInstance request =>
      have h := respond_eq_success.mp (Option.some.inj h)
      obtain ⟨result, created, rfl⟩ := Except.map_eq_ok_iff.mp h
      exact .create (createInstance_named created)
    | stopInstance name =>
      have h := respond_eq_success.mp (Option.some.inj h)
      obtain ⟨-, -, rfl⟩ := Except.map_eq_ok_iff.mp h
      exact .stop name
    | register request =>
      obtain ⟨result, registered, h⟩ := Option.map_eq_some_iff.mp h
      obtain ⟨result, rfl, rfl⟩ := Except.map_eq_ok_iff.mp (respond_eq_success.mp h)
      obtain ⟨named, id, route⟩ := register_named registered
      exact .register named id route
    | unregister request =>
      have h := respond_eq_success.mp (Option.some.inj h)
      obtain ⟨-, -, rfl⟩ := Except.map_eq_ok_iff.mp h
      exact .unregister request
    | list =>
      obtain rfl := (ResponseEnvelope.success.inj (Option.some.inj h)).2
      exact .list _
    | status name =>
      have h := respond_eq_success.mp (Option.some.inj h)
      obtain ⟨result, found, rfl⟩ := Except.map_eq_ok_iff.mp h
      exact .status (statusInstance_named found)
    | registrations name =>
      have h := respond_eq_success.mp (Option.some.inj h)
      obtain ⟨results, found, rfl⟩ := Except.map_eq_ok_iff.mp h
      exact .registrations (registrations_named found)
    | shutdown =>
      obtain rfl := (ResponseEnvelope.success.inj (Option.some.inj h)).2
      exact .shutdown

theorem handleRequest_cases {answer : ResponseEnvelope}
    (h : handleRequest lib debug seen command = some answer) :
    (∃ response, answer = success response) ∨ ∃ error, answer = errorResponse error := by
  have responds : ∀ result, (∃ response, respond result = success response) ∨
      ∃ error, respond result = errorResponse error
    | .ok response => .inl ⟨response, rfl⟩
    | .error error => .inr ⟨error, rfl⟩
  unfold handleRequest at h
  split_ifs at h
  · cases h
    exact .inr ⟨_, rfl⟩
  · cases command
    case health | list | shutdown =>
      cases h
      exact .inl ⟨_, rfl⟩
    case register request =>
      obtain ⟨result, -, rfl⟩ := Option.map_eq_some_iff.mp h
      exact responds _
    all_goals
      cases h
      exact responds _

@[simp] theorem responseResult_success (response : Response) :
    responseResult (success response) = .ok response := rfl

@[simp] theorem responseResult_errorResponse (error : OperationError) :
    responseResult (errorResponse error) = .error (.daemon error) := rfl

end Daemon

/-! ### What a command reports -/

/-- What a command checks before it asks the daemon. -/
def Call.check (lib : UriParser) : Call → Except Str Unit
  | .start options => validateName options.name
  | .register agentId options => do
    validateName options.name
    validateRoute lib (options.route.getD ('/' :: agentId))
  | .stop name | .unregister _ name | .status name | .registrations name => validateName name
  | .list => .ok ()

/-- What it asks. -/
def Call.command : Call → Request
  | .start options => .createInstance ⟨options.name, options.host, options.port⟩
  | .stop name => .stopInstance name
  | .register agentId options => .register
      ⟨options.name, agentId, options.route.getD ('/' :: agentId), options.config, options.yolo,
        options.args⟩
  | .unregister agentId name => .unregister ⟨name, agentId⟩
  | .list => .list
  | .status name => .status name
  | .registrations name => .registrations name

/-- A report says what the daemon's result says, and is about what the command was called with. -/
inductive Reports : Call → Response → Report → Prop
  | started {options : StartOptions} {result : InstanceResult} (named : result.name = options.name) :
      Reports (.start options) (.createInstance result) (.started ⟨options.name, result.address⟩)
  | stopped (name : Str) : Reports (.stop name) (.stopInstance name) (.stopped name)
  | registered {agentId : Str} {options : RegisterOptions} {result : RegistrationResult}
      (named : result.name = options.name) (id : result.id = agentId)
      (route : result.route = options.route.getD ('/' :: agentId)) :
      Reports (.register agentId options) (.register result)
        (.registered ⟨agentId, options.route.getD ('/' :: agentId), result.address⟩)
  | unregistered (agentId name : Str) :
      Reports (.unregister agentId name) (.unregister name agentId) (.unregistered ⟨agentId, name⟩)
  | servers (instances : List InstanceResult) :
      Reports .list (.list instances) (.servers (instances.map serverRecord))
  | server {name : Str} {result : InstanceResult} (named : result.name = name) :
      Reports (.status name) (.status result) (.server (serverRecord result))
  | registrations {name : Str} {results : List RegistrationResult}
      (named : ∀ result ∈ results, result.name = name) :
      Reports (.registrations name) (.registrations name results)
        (.registrations (results.map registrationRecord))

section Run

variable {lib : UriParser} {call : Call} {response : Response} {report : Report}

theorem bind_map {α β : Type} (x : Except ClientError α) (f : α → Except ClientError β)
    (g : β → Report) : (x >>= f).map g = x >>= fun a => (f a).map g := by
  cases x <;> rfl

/-- A command that passes its own check asks once, and any other does not ask. -/
theorem run_eq (request : Request → Except ClientError Response) : call.run lib request =
    match call.check lib with
    | .error text => .error (.message text)
    | .ok () => request call.command >>= fun response => call.run lib fun _ => .ok response := by
  cases call with
  | list => exact bind_map (request .list) _ _
  | register agentId options =>
    simp only [Call.run, Client.register, Call.check, checked, Call.command]
    rcases validateName options.name with text | ⟨⟩
    · rfl
    rcases validateRoute lib (options.route.getD ('/' :: agentId)) with text | ⟨⟩
    · rfl
    · exact bind_map (request _) _ _
  | start options =>
    simp only [Call.run, Client.start, Call.check, checked]
    rcases validateName options.name with text | ⟨⟩
    · rfl
    · exact bind_map (request _) _ _
  | unregister agentId name =>
    simp only [Call.run, Client.unregister, Call.check, checked]
    rcases validateName name with text | ⟨⟩
    · rfl
    · exact bind_map (request _) _ _
  | stop name =>
    simp only [Call.run, Client.stop, Call.check, checked]
    rcases validateName name with text | ⟨⟩
    · rfl
    · exact bind_map (request _) _ _
  | status name =>
    simp only [Call.run, Client.status, Call.check, checked]
    rcases validateName name with text | ⟨⟩
    · rfl
    · exact bind_map (request _) _ _
  | registrations name =>
    simp only [Call.run, Client.registrations, Call.check, checked]
    rcases validateName name with text | ⟨⟩
    · rfl
    · exact bind_map (request _) _ _

theorem Reports.unique {report' : Report} (h : Reports call response report)
    (h' : Reports call response report') : report = report' := by
  cases h <;> cases h' <;> rfl

theorem Reports.of_answers (check : call.check lib = .ok ()) (h : Answers call.command response) :
    ∃ report, call.run lib (fun _ => .ok response) = .ok report ∧ Reports call response report := by
  cases call with
  | start options =>
    simp only [Call.run, Client.start, checked, show validateName options.name = .ok () from check]
    cases h with
    | create named => exact ⟨_, rfl, named ▸ .started named⟩
  | stop name =>
    simp only [Call.run, Client.stop, checked, show validateName name = .ok () from check]
    cases h with
    | stop => exact ⟨_, rfl, .stopped name⟩
  | register agentId options =>
    obtain ⟨⟨⟩, ok, routed⟩ := Except.bind_eq_ok_iff.mp check
    simp only [Call.run, Client.register, checked, ok, routed]
    cases h with
    | @register _ result named id route =>
      have reported := Reports.registered named id route
      refine ⟨.registered ⟨result.id, result.route, result.address⟩, rfl, ?_⟩
      rwa [id, route]
  | unregister agentId name =>
    simp only [Call.run, Client.unregister, checked, show validateName name = .ok () from check]
    cases h with
    | unregister => exact ⟨_, rfl, .unregistered agentId name⟩
  | list =>
    cases h with
    | list instances => exact ⟨_, rfl, .servers instances⟩
  | status name =>
    simp only [Call.run, Client.status, checked, show validateName name = .ok () from check]
    cases h with
    | status named => exact ⟨_, rfl, .server named⟩
  | registrations name =>
    simp only [Call.run, Client.registrations, checked, show validateName name = .ok () from check]
    cases h with
    | registrations named => exact ⟨_, rfl, .registrations named⟩

/-- A report says what an answer that belongs to the command says. -/
theorem reports_iff (check : call.check lib = .ok ()) (h : Answers call.command response) :
    call.run lib (fun _ => .ok response) = .ok report ↔ Reports call response report := by
  obtain ⟨made, ran, reports⟩ := Reports.of_answers check h
  rw [ran]
  constructor
  · rintro ⟨⟩
    exact reports
  · intro other
    rw [reports.unique other]

end Run

section Daemon

variable {ρ : Type} (float : Str → Option Json.Decimal) (lib : UriParser) (debug : Str → Str)
  (seen : Seen ρ) (call : Call)

/-- What a command reports of a daemon that answers it. -/
inductive Succeeds : Report → Prop
  | intro {response : Response} {report : Report} (check : call.check lib = .ok ())
      (answered : handleRequest lib debug seen call.command = some (success response))
      (fits : Fits call.command (success response))
      (reports : Reports call response report) : Succeeds report

/-- How a command fails against a daemon: by its own check, for a frame that gets too long, because
the operation panics on the path that it is to mount, or with the error that the daemon gives. -/
inductive Fails : ClientError → Prop
  | check {text : Str} (check : call.check lib = .error text) : Fails (.message text)
  | request (check : call.check lib = .ok ())
      (long : maxFrameSize < (requestJson ⟨protocolVersion, call.command⟩).size) :
      Fails (.message exceeds)
  | panic (check : call.check lib = .ok ())
      (fits : (requestJson ⟨protocolVersion, call.command⟩).size ≤ maxFrameSize)
      (panics : Panics lib seen call.command) : Fails (.message closed)
  | answer {answer : ResponseEnvelope} (check : call.check lib = .ok ())
      (fits : (requestJson ⟨protocolVersion, call.command⟩).size ≤ maxFrameSize)
      (answered : handleRequest lib debug seen call.command = some answer)
      (long : maxFrameSize < (responseJson answer).size) : Fails (.message closed)
  | daemon {error : OperationError} (check : call.check lib = .ok ())
      (refused : handleRequest lib debug seen call.command = some (errorResponse error))
      (fits : Fits call.command (errorResponse error)) : Fails (.daemon error)

/-- The command, asked of a daemon over a connection. -/
def runDaemon : Except ClientError Report :=
  call.run lib (requestExisting float (.ok ()) (daemonPeer float lib debug seen))

variable {float lib debug seen call} {report : Report} {error : ClientError}

theorem requestExisting_fits {command : Request} {answer : ResponseEnvelope}
    (answered : handleRequest lib debug seen command = some answer) (fits : Fits command answer) :
    requestExisting float (.ok ()) (daemonPeer float lib debug seen) command =
      responseResult answer := by
  rw [requestExisting_daemon, if_neg (Nat.not_lt.mpr fits.request), answered]
  exact if_neg (Nat.not_lt.mpr fits.answer)

theorem Succeeds.run (h : Succeeds lib debug seen call report) :
    runDaemon float lib debug seen call = .ok report := by
  obtain ⟨check, answered, fits, reports⟩ := h
  have made := (reports_iff check (handleRequest_answers answered)).mpr reports
  rw [runDaemon, run_eq, check, requestExisting_fits answered fits, responseResult_success]
  exact made

theorem Fails.run (h : Fails lib debug seen call error) :
    runDaemon float lib debug seen call = .error error := by
  rw [runDaemon, run_eq]
  cases h with
  | check check => rw [check]
  | request check long =>
    rw [check, requestExisting_daemon, if_pos long]
    rfl
  | panic check fits panics =>
    rw [check, requestExisting_daemon, if_neg (Nat.not_lt.mpr fits),
      handleRequest_none_iff.mpr panics]
    rfl
  | answer check fits answered long =>
    rw [check, requestExisting_daemon, if_neg (Nat.not_lt.mpr fits), answered]
    dsimp only
    rw [if_pos long]
    rfl
  | daemon check refused fits =>
    rw [check, requestExisting_fits refused fits, responseResult_errorResponse]
    rfl

theorem succeeds_or_fails (lib : UriParser) (debug : Str → Str) (seen : Seen ρ) (call : Call) :
    (∃ report, Succeeds lib debug seen call report) ∨ ∃ error, Fails lib debug seen call error := by
  cases check : call.check lib with
  | error text => exact .inr ⟨_, .check check⟩
  | ok =>
    rcases Nat.lt_or_ge maxFrameSize (requestJson ⟨protocolVersion, call.command⟩).size with
      long | request
    · exact .inr ⟨_, .request check long⟩
    cases handled : handleRequest lib debug seen call.command with
    | none => exact .inr ⟨_, .panic check request (handleRequest_none_iff.mp handled)⟩
    | some answer =>
      rcases Nat.lt_or_ge maxFrameSize (responseJson answer).size with long | fits
      · exact .inr ⟨_, .answer check request handled long⟩
      rcases handleRequest_cases handled with ⟨response, rfl⟩ | ⟨e, rfl⟩
      · obtain ⟨report, -, reports⟩ := Reports.of_answers check (handleRequest_answers handled)
        exact .inl ⟨report, check, handled, ⟨request, fits⟩, reports⟩
      · exact .inr ⟨_, .daemon check handled ⟨request, fits⟩⟩

/-- Through the frames of a connection, a command reports what the daemon's operation gave and fails
with the error that it gave; a result of another command or version, or about another server, agent
or route, never gets to the user. -/
theorem runDaemon_iff (float : Str → Option Json.Decimal) (lib : UriParser) (debug : Str → Str)
    (seen : Seen ρ) (call : Call) :
    (∀ report, runDaemon float lib debug seen call = .ok report ↔
      Succeeds lib debug seen call report) ∧
    ∀ error, runDaemon float lib debug seen call = .error error ↔
      Fails lib debug seen call error := by
  rcases succeeds_or_fails lib debug seen call with ⟨made, succeeds⟩ | ⟨wrong, fails⟩
  · refine ⟨fun report => ⟨?_, Succeeds.run⟩, fun error => ⟨?_, Fails.run⟩⟩
    all_goals
      rw [succeeds.run]
      rintro ⟨⟩
    exact succeeds
  · refine ⟨fun report => ⟨?_, Succeeds.run⟩, fun error => ⟨?_, Fails.run⟩⟩
    all_goals
      rw [fails.run]
      rintro ⟨⟩
    exact fails

end Daemon

end AcpAgent.Server.Client
