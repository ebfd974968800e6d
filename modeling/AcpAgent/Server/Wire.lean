import AcpAgent.Lib.Serde
import AcpAgent.Server.Protocol

/-! The control protocol on the wire, `server/protocol.rs`: the JSON of requests and responses, and
the frames of `read_frame` and `write_frame`. -/

namespace AcpAgent.Server

open Serde Serve

/-! ### Requests -/

namespace Wire

section Requests

def createInstanceMembers (request : CreateInstanceRequest) : Members :=
  [(str "name", .string request.name), (str "host", .string request.host),
    (str "port", .number request.port.toNat)]

def createInstanceOf : Json → Option CreateInstanceRequest :=
  asStruct [str "name", str "host", str "port"] 3 fun members => do
    some ⟨← required (str "name") asString members, ← required (str "host") asString members,
      ← required (str "port") asUInt16 members⟩

/-- `StopInstanceRequest`, `StatusRequest` and `RegistrationsRequest`. -/
def nameMembers (name : Str) : Members := [(str "name", .string name)]

def nameOf : Json → Option Str := asStruct [str "name"] 1 (required (str "name") asString)

def routeConfigMembers (config : RouteConfig) : Members :=
  [(str "path", .string config.path),
    (str "cors_origins", .array (config.corsOrigins.map .string)),
    (str "allow_any_origin", .bool config.allowAnyOrigin),
    (str "health_endpoint", .bool config.healthEndpoint),
    (str "readyz_endpoint", .bool config.readyzEndpoint),
    (str "max_processes", .number config.maxProcesses.toNat)]

def routeConfigOf (members : Members) : Option RouteConfig := do
  let default := RouteConfig.default
  some {
    path := ← defaulted (str "path") default.path asString members
    corsOrigins := ← defaulted (str "cors_origins") default.corsOrigins (asArray asString) members
    allowAnyOrigin := ← defaulted (str "allow_any_origin") default.allowAnyOrigin asBool members
    healthEndpoint := ← defaulted (str "health_endpoint") default.healthEndpoint asBool members
    readyzEndpoint := ← defaulted (str "readyz_endpoint") default.readyzEndpoint asBool members
    maxProcesses := ← defaulted (str "max_processes") default.maxProcesses asUInt64 members }

/-- The configuration is flattened into the members of the request. -/
def registerMembers (request : RegisterRequest) : Members :=
  [(str "name", .string request.name), (str "id", .string request.id),
    (str "route", .string request.route)] ++ routeConfigMembers request.config ++
  [(str "yolo", .bool request.yolo), (str "args", .array (request.args.map .string))]

/-- With a field that is flattened, it must be an object. -/
def registerOf : Json → Option RegisterRequest :=
  asObject fun members => do
    some {
      name := ← required (str "name") asString members
      id := ← required (str "id") asString members
      route := ← required (str "route") asString members
      config := ← routeConfigOf members
      yolo := ← defaulted (str "yolo") false asBool members
      args := ← defaulted (str "args") [] (asArray asString) members }

def unregisterMembers (request : UnregisterRequest) : Members :=
  [(str "name", .string request.name), (str "id", .string request.id)]

def unregisterOf : Json → Option UnregisterRequest :=
  asStruct [str "name", str "id"] 2 fun members => do
    some ⟨← required (str "name") asString members, ← required (str "id") asString members⟩

/-- `Request`, tagged by `command` with its content in `payload`. -/
def requestMembers : Request → Members
  | .health => [(str "command", .string (str "Health"))]
  | .createInstance request =>
    tagged (str "command") (str "payload") (str "CreateInstance") (createInstanceMembers request)
  | .stopInstance name =>
    tagged (str "command") (str "payload") (str "StopInstance") (nameMembers name)
  | .register request =>
    tagged (str "command") (str "payload") (str "Register") (registerMembers request)
  | .unregister request =>
    tagged (str "command") (str "payload") (str "Unregister") (unregisterMembers request)
  | .list => [(str "command", .string (str "List"))]
  | .status name => tagged (str "command") (str "payload") (str "Status") (nameMembers name)
  | .registrations name =>
    tagged (str "command") (str "payload") (str "Registrations") (nameMembers name)
  | .shutdown => [(str "command", .string (str "Shutdown"))]

def requestOf (members : Members) : Option Request := do
  let command ← required (str "command") variantName members
  let payload ← lookup (str "payload") members
  if command = str "Health" then (unitContent payload).map fun _ => .health
  else if command = str "CreateInstance" then (payload.bind createInstanceOf).map .createInstance
  else if command = str "StopInstance" then (payload.bind nameOf).map .stopInstance
  else if command = str "Register" then (payload.bind registerOf).map .register
  else if command = str "Unregister" then (payload.bind unregisterOf).map .unregister
  else if command = str "List" then (unitContent payload).map fun _ => .list
  else if command = str "Status" then (payload.bind nameOf).map .status
  else if command = str "Registrations" then (payload.bind nameOf).map .registrations
  else if command = str "Shutdown" then (unitContent payload).map fun _ => .shutdown
  else none

/-- The command is flattened into the members of the envelope. -/
def requestJson (request : RequestEnvelope) : Json :=
  .object ((str "version", .number request.version.toNat) :: requestMembers request.command)

/-- All members but the version are kept until it is known which of them belong to the command. -/
def requestOfJson (float : Str → Option Json.Decimal) : Json → Option RequestEnvelope :=
  asObject fun members => do
    let others := members.filter fun member => member.1 ≠ str "version"
    if buffered float (.object others) then
      some ⟨← required (str "version") asUInt32 members, ← requestOf others⟩
    else none

end Requests

/-! ### Responses -/

section Responses

def instanceStateName : InstanceState → Str
  | .running => str "running"
  | .stopping => str "stopping"

def readinessStatusName : ReadinessStatus → Str
  | .disabled => str "disabled"
  | .ready => str "ready"
  | .notReady => str "not_ready"

def errorCodeName : ErrorCode → Str
  | .unavailable => str "unavailable"
  | .invalidInput => str "invalid_input"
  | .notFound => str "not_found"
  | .conflict => str "conflict"
  | .operation => str "operation"

def instanceMembers (result : InstanceResult) : Members :=
  [(str "name", .string result.name), (str "host", .string result.host),
    (str "port", .number result.port.toNat), (str "address", .string result.address),
    (str "state", .string (instanceStateName result.state))]

def instanceOf : Json → Option InstanceResult :=
  asStruct [str "name", str "host", str "port", str "address", str "state"] 5 fun members => do
    some {
      name := ← required (str "name") asString members
      host := ← required (str "host") asString members
      port := ← required (str "port") asUInt16 members
      address := ← required (str "address") asString members
      state := ← required (str "state")
        (asVariant [.running, .stopping] instanceStateName) members }

def readinessMembers (result : ReadinessResult) : Members :=
  [(str "status", .string (readinessStatusName result.status)),
    (str "attempts", .number result.attempts.toNat),
    (str "failures", .number result.failures.toNat)] ++
  skipNone (str "detail") .string result.detail

def readinessOf : Json → Option ReadinessResult :=
  asStruct [str "status", str "attempts", str "failures", str "detail"] 4 fun members => do
    some {
      status := ← required (str "status")
        (asVariant [.disabled, .ready, .notReady] readinessStatusName) members
      attempts := ← required (str "attempts") asUInt64 members
      failures := ← required (str "failures") asUInt64 members
      detail := ← nullable (str "detail") asString members }

def registrationMembers (result : RegistrationResult) : Members :=
  [(str "name", .string result.name), (str "id", .string result.id),
    (str "route", .string result.route), (str "address", .string result.address),
    (str "path", .string result.path), (str "health_endpoint", .bool result.healthEndpoint),
    (str "readyz_endpoint", .bool result.readyzEndpoint),
    (str "max_processes", .number result.maxProcesses.toNat),
    (str "readiness", .object (readinessMembers result.readiness))]

def registrationOf : Json → Option RegistrationResult :=
  asStruct [str "name", str "id", str "route", str "address", str "path", str "health_endpoint",
      str "readyz_endpoint", str "max_processes", str "readiness"] 9 fun members => do
    some {
      name := ← required (str "name") asString members
      id := ← required (str "id") asString members
      route := ← required (str "route") asString members
      address := ← required (str "address") asString members
      path := ← required (str "path") asString members
      healthEndpoint := ← required (str "health_endpoint") asBool members
      readyzEndpoint := ← required (str "readyz_endpoint") asBool members
      maxProcesses := ← required (str "max_processes") asUInt64 members
      readiness := ← required (str "readiness") readinessOf members }

/-- `Response`, tagged by `result` with its content in `data`. -/
def responseMembers : Response → Members
  | .health protocolVersion => tagged (str "result") (str "data") (str "Health")
      [(str "protocol_version", .number protocolVersion.toNat)]
  | .createInstance result =>
    tagged (str "result") (str "data") (str "CreateInstance") (instanceMembers result)
  | .stopInstance name =>
    tagged (str "result") (str "data") (str "StopInstance") (nameMembers name)
  | .register result =>
    tagged (str "result") (str "data") (str "Register") (registrationMembers result)
  | .unregister name id => tagged (str "result") (str "data") (str "Unregister")
      [(str "name", .string name), (str "id", .string id)]
  | .list instances => tagged (str "result") (str "data") (str "List")
      [(str "instances", .array (instances.map fun result => .object (instanceMembers result)))]
  | .status result => tagged (str "result") (str "data") (str "Status") (instanceMembers result)
  | .registrations name registrations => tagged (str "result") (str "data") (str "Registrations")
      [(str "name", .string name), (str "registrations",
        .array (registrations.map fun result => .object (registrationMembers result)))]
  | .shutdown => [(str "result", .string (str "Shutdown"))]

def healthOf : Json → Option UInt32 :=
  asStruct [str "protocol_version"] 1 (required (str "protocol_version") asUInt32)

def listOf : Json → Option (List InstanceResult) :=
  asStruct [str "instances"] 1 (required (str "instances") (asArray instanceOf))

def registrationsOf : Json → Option (Str × List RegistrationResult) :=
  asStruct [str "name", str "registrations"] 2 fun members => do
    some (← required (str "name") asString members,
      ← required (str "registrations") (asArray registrationOf) members)

def responseOf : Json → Option Response :=
  asStruct [str "result", str "data"] 2 fun members => do
    let result ← required (str "result") variantName members
    let data ← lookup (str "data") members
    if result = str "Health" then (data.bind healthOf).map .health
    else if result = str "CreateInstance" then (data.bind instanceOf).map .createInstance
    else if result = str "StopInstance" then (data.bind nameOf).map .stopInstance
    else if result = str "Register" then (data.bind registrationOf).map .register
    else if result = str "Unregister" then
      (data.bind unregisterOf).map fun result => .unregister result.name result.id
    else if result = str "List" then (data.bind listOf).map .list
    else if result = str "Status" then (data.bind instanceOf).map .status
    else if result = str "Registrations" then
      (data.bind registrationsOf).map fun result => .registrations result.1 result.2
    else if result = str "Shutdown" then (unitContent data).map fun _ => .shutdown
    else none

/-- `ProtocolError`. -/
def errorMembers (error : OperationError) : Members :=
  [(str "code", .string (errorCodeName error.code)), (str "message", .string error.message)]

def errorOf : Json → Option OperationError :=
  asStruct [str "code", str "message"] 2 fun members => do
    some {
      code := ← required (str "code") (asVariant
        [.unavailable, .invalidInput, .notFound, .conflict, .operation] errorCodeName) members
      message := ← required (str "message") asString members }

/-- `ResponseEnvelope`, tagged by `status` among its own members. -/
def responseJson : ResponseEnvelope → Json
  | .success version result => .object [(str "status", .string (str "ok")),
      (str "version", .number version.toNat), (str "result", .object (responseMembers result))]
  | .error version error => .object [(str "status", .string (str "error")),
      (str "version", .number version.toNat), (str "error", .object (errorMembers error))]

/-- The variant with this tag, of what is left without the tag. -/
def variantOf (status : Str) : Json → Option ResponseEnvelope :=
  if status = str "ok" then
    asStruct [str "version", str "result"] 2 fun members => do
      some (.success (← required (str "version") asUInt32 members)
        (← required (str "result") responseOf members))
  else if status = str "error" then
    asStruct [str "version", str "error"] 2 fun members => do
      some (.error (← required (str "version") asUInt32 members)
        (← required (str "error") errorOf members))
  else fun _ => none

def responseOfJson (float : Str → Option Json.Decimal) : Json → Option ResponseEnvelope
  | .object members => do
    let status ← required (str "status") asString members
    let others := Json.object (members.filter fun member => member.1 ≠ str "status")
    if buffered float others then variantOf status others else none
  | .array (.string status :: items) =>
    if buffered float (.array items) then variantOf status (.array items) else none
  | _ => none

end Responses

/-! ### The JSON of a message is read back -/

section RoundTrip

theorem createInstanceOf_members (request : CreateInstanceRequest) :
    createInstanceOf (.object (createInstanceMembers request)) = some request := by
  simp +decide [createInstanceOf, createInstanceMembers, required, lookup]

theorem nameOf_members (name : Str) : nameOf (.object (nameMembers name)) = some name := by
  simp [nameOf, nameMembers, required, lookup]

theorem registerOf_members (request : RegisterRequest) :
    registerOf (.object (registerMembers request)) = some request := by
  simp +decide [registerOf, registerMembers, routeConfigOf, routeConfigMembers, required, defaulted,
    lookup]

theorem unregisterOf_members (request : UnregisterRequest) :
    unregisterOf (.object (unregisterMembers request)) = some request := by
  simp +decide [unregisterOf, unregisterMembers, required, lookup]

theorem requestOf_members (request : Request) : requestOf (requestMembers request) = some request := by
  cases request <;>
    simp +decide [requestOf, requestMembers, tagged, required, lookup, unitContent,
      createInstanceOf_members, nameOf_members, registerOf_members, unregisterOf_members]

theorem instanceOf_members (result : InstanceResult) :
    instanceOf (.object (instanceMembers result)) = some result := by
  obtain ⟨name, host, port, address, state⟩ := result
  have named : asVariant [.running, .stopping] instanceStateName
      (.string (instanceStateName state)) = some state := by
    cases state <;> decide
  simp +decide [instanceOf, instanceMembers, required, lookup, named]

theorem readinessOf_members (result : ReadinessResult) :
    readinessOf (.object (readinessMembers result)) = some result := by
  obtain ⟨status, attempts, failures, detail⟩ := result
  have named : asVariant [.disabled, .ready, .notReady] readinessStatusName
      (.string (readinessStatusName status)) = some status := by
    cases status <;> decide
  cases detail <;>
    simp +decide [readinessOf, readinessMembers, required, nullable, skipNone, lookup, named]

theorem registrationOf_members (result : RegistrationResult) :
    registrationOf (.object (registrationMembers result)) = some result := by
  simp +decide [registrationOf, registrationMembers, required, lookup, readinessOf_members]

theorem errorOf_members (error : OperationError) :
    errorOf (.object (errorMembers error)) = some error := by
  obtain ⟨code, message⟩ := error
  have named : asVariant [.unavailable, .invalidInput, .notFound, .conflict, .operation]
      errorCodeName (.string (errorCodeName code)) = some code := by
    cases code <;> decide
  simp +decide [errorOf, errorMembers, required, lookup, named]

theorem responseOf_members (response : Response) :
    responseOf (.object (responseMembers response)) = some response := by
  have instances : ∀ results : List InstanceResult, asArray instanceOf
      (.array (results.map fun result => .object (instanceMembers result))) = some results :=
    fun results => asArray_map instanceOf_members results
  have registrations : ∀ results : List RegistrationResult, asArray registrationOf
      (.array (results.map fun result => .object (registrationMembers result))) = some results :=
    fun results => asArray_map registrationOf_members results
  cases response <;>
    simp +decide [responseOf, responseMembers, tagged, required, lookup, unitContent, healthOf,
      nameOf_members, unregisterOf, instanceOf_members, registrationOf_members, listOf,
      registrationsOf, instances, registrations]

/-! The values of a message can be kept: all numbers have 64 bits, no key occurs twice, and few are
nested. -/

section Kept

variable {P : Json.Decimal → Prop}

theorem uint16_lt (n : UInt16) : n.toNat < 18446744073709551616 := n.toNat_lt.trans (by decide)

theorem uint32_lt (n : UInt32) : n.toNat < 18446744073709551616 := n.toNat_lt.trans (by decide)

theorem uint64_lt (n : UInt64) : n.toNat < 18446744073709551616 := n.toNat_lt

theorem isValue_map {α : Type} {encode : α → Json} {n : ℕ}
    (h : ∀ a, IsValue P (encode a) ∧ depth (encode a) ≤ n) (items : List α) :
    AreValues P (items.map encode) ∧ depthItems (items.map encode) ≤ n := by
  rw [areValues_iff, depthItems_le_iff]
  constructor <;>
  · intro item member
    obtain ⟨a, -, rfl⟩ := List.mem_map.mp member
    first | exact (h a).1 | exact (h a).2

theorem isValue_strings (items : List Str) :
    AreValues P (items.map .string) ∧ depthItems (items.map .string) ≤ 0 :=
  isValue_map (fun s => ⟨by rw [IsValue] <;> simp, Nat.le_of_eq (by rw [depth] <;> simp)⟩) items

theorem isValue_instance (result : InstanceResult) :
    IsValue P (.object (instanceMembers result)) ∧ depth (.object (instanceMembers result)) ≤ 1 := by
  simp +decide [instanceMembers, IsValue, IsMap, depth, depthMembers, uint16_lt]

theorem isValue_readiness (result : ReadinessResult) :
    IsValue P (.object (readinessMembers result)) ∧
      depth (.object (readinessMembers result)) ≤ 1 := by
  obtain ⟨status, attempts, failures, detail⟩ := result
  cases detail <;> simp +decide [readinessMembers, skipNone, IsValue, IsMap, depth, depthMembers,
    uint64_lt]

theorem isValue_registration (result : RegistrationResult) :
    IsValue P (.object (registrationMembers result)) ∧
      depth (.object (registrationMembers result)) ≤ 2 := by
  obtain ⟨is, shallow⟩ := isValue_readiness (P := P) result.readiness
  rw [IsValue] at is
  simp +decide [registrationMembers, IsValue, IsMap, depth, depthMembers, uint64_lt, is] at shallow ⊢
  exact shallow

theorem isValue_request (request : Request) : IsValue P (.object (requestMembers request)) ∧
    depth (.object (requestMembers request)) ≤ 3 := by
  cases request with
  | register request =>
    have origins := isValue_strings (P := P) request.config.corsOrigins
    have args := isValue_strings (P := P) request.args
    simp +decide [requestMembers, tagged, registerMembers, routeConfigMembers, IsValue, IsMap, depth,
      depthMembers, uint64_lt, origins.1, args.1]
    omega
  | _ =>
    simp +decide [requestMembers, tagged, createInstanceMembers, nameMembers, unregisterMembers,
      IsValue, IsMap, depth, depthMembers, uint16_lt]

theorem isValue_response (response : Response) : IsValue P (.object (responseMembers response)) ∧
    depth (.object (responseMembers response)) ≤ 5 := by
  cases response with
  | createInstance result | status result =>
    obtain ⟨is, shallow⟩ := isValue_instance (P := P) result
    simp +decide [responseMembers, tagged, IsValue, IsMap, depth, depthMembers] at is shallow ⊢
    exact ⟨is, by omega⟩
  | register result =>
    obtain ⟨is, shallow⟩ := isValue_registration (P := P) result
    simp +decide [responseMembers, tagged, IsValue, IsMap, depth, depthMembers] at is shallow ⊢
    exact ⟨is, by omega⟩
  | list instances =>
    obtain ⟨are, shallow⟩ := isValue_map isValue_instance (P := P) instances
    simp +decide [responseMembers, tagged, IsValue, IsMap, depth, depthMembers, are]
    omega
  | registrations name registrations =>
    obtain ⟨are, shallow⟩ := isValue_map isValue_registration (P := P) registrations
    simp +decide [responseMembers, tagged, IsValue, IsMap, depth, depthMembers, are]
    omega
  | _ =>
    simp +decide [responseMembers, tagged, nameMembers, IsValue, IsMap, depth, depthMembers,
      uint32_lt]

end Kept

variable (float : Str → Option Json.Decimal)

theorem requestOfJson_requestJson (request : RequestEnvelope) :
    requestOfJson float (requestJson request) = some request := by
  obtain ⟨version, command⟩ := request
  obtain ⟨is, shallow⟩ := isValue_request command
  have kept : buffered float (.object (requestMembers command)) = true :=
    buffered_of_isValue is (by omega)
  have tag : required (str "version") asUInt32
      ((str "version", .number version.toNat) :: requestMembers command) = some version := by
    cases command <;> simp +decide [requestMembers, tagged, required, lookup]
  have others : (requestMembers command).filter (fun member => !decide (member.1 = str "version")) =
      requestMembers command := by
    cases command <;> simp +decide [requestMembers, tagged]
  simp [requestOfJson, requestJson, others, kept, tag, requestOf_members]

theorem responseOfJson_responseJson (response : ResponseEnvelope) :
    responseOfJson float (responseJson response) = some response := by
  cases response with
  | success version result =>
    obtain ⟨is, shallow⟩ := isValue_response result
    have kept : buffered float (.object [(str "version", .number version.toNat),
        (str "result", .object (responseMembers result))]) = true := by
      refine buffered_of_isValue ?_ ?_
      · simp +decide [IsMap, uint32_lt, IsValue] at is ⊢
        exact is
      · simp [depth, depthMembers] at shallow ⊢
        omega
    simp +decide [responseOfJson, responseJson, variantOf, required, lookup, kept,
      responseOf_members]
  | error version error =>
    have kept : buffered float (.object [(str "version", .number version.toNat),
        (str "error", .object (errorMembers error))]) = true := by
      refine buffered_of_isValue ?_ ?_
      · simp +decide [errorMembers, IsMap, uint32_lt, IsValue]
      · simp [errorMembers, depth, depthMembers]
    simp +decide [responseOfJson, responseJson, variantOf, required, lookup, kept, errorOf_members]

end RoundTrip

/-! ### Frames -/

/-- Four bytes, the most significant first. -/
def lengthBytes (n : ℕ) : List UInt8 :=
  [.ofNat (n / 2 ^ 24), .ofNat (n / 2 ^ 16), .ofNat (n / 2 ^ 8), .ofNat n]

def lengthValue (a b c d : UInt8) : ℕ :=
  ((a.toNat * 2 ^ 8 + b.toNat) * 2 ^ 8 + c.toNat) * 2 ^ 8 + d.toNat

def exceeds : Str := str "protocol frame payload exceeds 1048576 bytes"

/-- `write_frame`, with the bytes that it writes. -/
def writeFrame (message : Json) : Except Str Unit × List UInt8 :=
  let payload := Str.bytes message.text
  if payload.length > maxFrameSize then (.error exceeds, [])
  else (.ok (), lengthBytes payload.length ++ payload)

def closed : Str := str "failed to read protocol frame: connection closed"

/-- `read_frame`, of the bytes until the peer closes the stream.  The codec has taken the length out
of its buffer when it waits for the payload. -/
def readFrame {α : Type} (decode : Json → Option α) (input : List UInt8) : Except Str α :=
  match input with
  | [] => .error closed
  | a :: b :: c :: d :: rest =>
    let length := lengthValue a b c d
    if length > maxFrameSize then .error exceeds
    else if length = 0 then .error (str "protocol frame has an empty payload")
    else if rest = [] then .error closed
    else if rest.length < length then .error (str "truncated protocol frame payload")
    else match (Json.fromSlice (rest.take length)).bind decode with
      | some value => .ok value
      | none => .error (str "invalid protocol JSON payload")
  | _ => .error (str "truncated protocol frame payload")

theorem lengthValue_lengthBytes {n : ℕ} (h : n < 2 ^ 32) :
    lengthValue (.ofNat (n / 2 ^ 24)) (.ofNat (n / 2 ^ 16)) (.ofNat (n / 2 ^ 8)) (.ofNat n) = n := by
  simp only [lengthValue, UInt8.toNat_ofNat']
  omega

theorem writeFrame_exceeds {message : Json} (h : maxFrameSize < message.size) :
    writeFrame message = (.error exceeds, []) := by
  rw [writeFrame, Str.length_bytes]
  exact if_pos h

theorem writeFrame_fits {message : Json} (h : message.size ≤ maxFrameSize) :
    writeFrame message = (.ok (), lengthBytes message.size ++ Str.bytes message.text) := by
  rw [writeFrame, Str.length_bytes]
  exact if_neg (Nat.not_lt.mpr h)

/-- The first frame of the input is read, whatever follows it. -/
theorem readFrame_lengthBytes {α : Type} {decode : Json → Option α} {message : Json} {value : α}
    (h : decode message = some value) (fits : message.size ≤ maxFrameSize) (rest : List UInt8) :
    readFrame decode (lengthBytes message.size ++ Str.bytes message.text ++ rest) = .ok value := by
  have length : lengthValue (.ofNat (message.size / 2 ^ 24)) (.ofNat (message.size / 2 ^ 16))
      (.ofNat (message.size / 2 ^ 8)) (.ofNat message.size) = message.size :=
    lengthValue_lengthBytes (Nat.lt_of_le_of_lt fits (by decide))
  have payload : (Str.bytes message.text).length = message.size := Str.length_bytes _
  have taken : (Str.bytes message.text ++ rest).take message.size = Str.bytes message.text := by
    rw [← payload, List.take_left]
  have whole : ¬(Str.bytes message.text ++ rest).length < message.size := by
    rw [List.length_append, payload]
    omega
  have nonempty : message.size ≠ 0 := Nat.ne_of_gt message.size_pos
  have there : Str.bytes message.text ++ rest ≠ [] := fun empty => by
    rw [(List.append_eq_nil_iff.mp empty).1] at payload
    exact nonempty payload.symm
  simp only [lengthBytes, List.cons_append, List.nil_append, readFrame, length,
    Nat.not_lt.mpr fits, whole, nonempty, there, if_false, taken, Json.fromSlice_bytes,
    Json.parse_text, Option.bind_some, h]

/-- Either the value is too long for a frame and nothing is written, or a frame is written from which
the value is read, whatever follows it. -/
def RoundTrips {α : Type} (encode : α → Json) (decode : Json → Option α) (value : α) : Prop :=
  (maxFrameSize < (Str.bytes (encode value).text).length ∧
      writeFrame (encode value) = (.error exceeds, [])) ∨
    ∃ frame, writeFrame (encode value) = (.ok (), frame) ∧
      ∀ rest, readFrame decode (frame ++ rest) = .ok value

theorem roundTrips {α : Type} {encode : α → Json} {decode : Json → Option α} {value : α}
    (h : decode (encode value) = some value) : RoundTrips encode decode value := by
  rcases Nat.lt_or_ge maxFrameSize (encode value).size with long | fits
  · exact .inl ⟨by rwa [Str.length_bytes], writeFrame_exceeds long⟩
  · exact .inr ⟨_, writeFrame_fits fits, readFrame_lengthBytes h fits⟩

/-- Requests and responses come out of the control protocol as they went in. -/
theorem messages_round_trip (float : Str → Option Json.Decimal) :
    (∀ request, RoundTrips requestJson (requestOfJson float) request) ∧
      ∀ response, RoundTrips responseJson (responseOfJson float) response :=
  ⟨fun request => roundTrips (requestOfJson_requestJson float request),
    fun response => roundTrips (responseOfJson_responseJson float response)⟩

end Wire

end AcpAgent.Server
