import AcpAgent.Serve.Config

/-! The requests and responses of the control protocol, `server/protocol.rs`. -/

namespace AcpAgent.Server

open Serve

/-- `PROTOCOL_VERSION`. -/
def protocolVersion : UInt32 := 2

/-- `MAX_FRAME_SIZE`: the longest JSON payload of one frame. -/
def maxFrameSize : ℕ := 1024 * 1024

structure CreateInstanceRequest where
  name : Str
  host : Str
  port : UInt16
  deriving DecidableEq

structure RegisterRequest where
  name : Str
  id : Str
  route : Str
  config : RouteConfig
  yolo : Bool
  args : List Str
  deriving DecidableEq

structure UnregisterRequest where
  name : Str
  id : Str
  deriving DecidableEq

/-- The typed daemon commands.  `StopInstanceRequest`, `StatusRequest` and `RegistrationsRequest`
hold a name and nothing else. -/
inductive Request
  | health
  | createInstance (request : CreateInstanceRequest)
  | stopInstance (name : Str)
  | register (request : RegisterRequest)
  | unregister (request : UnregisterRequest)
  | list
  | status (name : Str)
  | registrations (name : Str)
  | shutdown
  deriving DecidableEq

structure RequestEnvelope where
  version : UInt32
  command : Request
  deriving DecidableEq

inductive InstanceState
  | running
  | stopping
  deriving DecidableEq

structure InstanceResult where
  name : Str
  host : Str
  port : UInt16
  address : Str
  state : InstanceState
  deriving DecidableEq

inductive ReadinessStatus
  | disabled
  | ready
  | notReady
  deriving DecidableEq

structure ReadinessResult where
  status : ReadinessStatus
  attempts : UInt64
  failures : UInt64
  detail : Option Str
  deriving DecidableEq

structure RegistrationResult where
  name : Str
  id : Str
  route : Str
  address : Str
  path : Str
  healthEndpoint : Bool
  readyzEndpoint : Bool
  maxProcesses : UInt64
  readiness : ReadinessResult
  deriving DecidableEq

/-- The typed results of the daemon commands. -/
inductive Response
  | health (protocolVersion : UInt32)
  | createInstance (result : InstanceResult)
  | stopInstance (name : Str)
  | register (result : RegistrationResult)
  | unregister (name id : Str)
  | list (instances : List InstanceResult)
  | status (result : InstanceResult)
  | registrations (name : Str) (registrations : List RegistrationResult)
  | shutdown
  deriving DecidableEq

/-- The stable error categories. -/
inductive ErrorCode
  | unavailable
  | invalidInput
  | notFound
  | conflict
  | operation
  deriving DecidableEq

/-- `DaemonOperationError`, which becomes a `ProtocolError`. -/
structure OperationError where
  code : ErrorCode
  message : Str
  deriving DecidableEq

inductive ResponseEnvelope
  | success (version : UInt32) (result : Response)
  | error (version : UInt32) (error : OperationError)
  deriving DecidableEq

end AcpAgent.Server
