import AcpAgent.Serve.Admission
import AcpAgent.Lib.Str
import Mathlib.Logic.Relation

/-! The answers of a route under load: `admit_new_connection` of `serve/runtime.rs` decides from the
method and the headers of a request, before the HTTP library gets to see it. -/

namespace AcpAgent.Serve.Admission

/-- A request, with the names of its headers in lower case. -/
structure HttpRequest (β : Type*) where
  method : Str
  http2 : Bool
  path : Str
  headers : List (Str × List UInt8)
  body : β

structure Response where
  status : ℕ
  headers : List (Str × Str)
  body : Str
  deriving DecidableEq

/-- A text with its status, as `into_response` makes it. -/
def textResponse (status : ℕ) (body : Str) : Response :=
  ⟨status, [(str "content-type", str "text/plain; charset=utf-8")], body⟩

def processCapacityExhausted : Response :=
  textResponse 503 (str "agent process capacity exhausted\n")

/-- `eq_ignore_ascii_case`. -/
def eqIgnoreAsciiCase (a b : List UInt8) : Bool :=
  let lower (byte : UInt8) : UInt8 := if 65 ≤ byte ∧ byte ≤ 90 then byte + 32 else byte
  a.map lower = b.map lower

namespace HttpRequest

variable {β : Type*} (request : HttpRequest β)

def http1Websocket : Bool :=
  (request.headers.lookup (str "upgrade")).any (eqIgnoreAsciiCase · (Str.bytes (str "websocket")))

def http2Websocket : Bool := request.method = str "CONNECT" && request.http2

def websocket : Bool := request.http1Websocket || request.http2Websocket

def initialHttp : Bool :=
  request.method = str "POST" && (request.headers.lookup (str "acp-connection-id")).isNone

end HttpRequest

/-- The router below the admission layer: the requests for which it calls the agent factory, and its
answers (`next.run`).  Only the admission layer has the answer that it gives without a permit. -/
structure Library (β : Type*) where
  startsAgent : HttpRequest β → Bool
  answer : HttpRequest β → Response
  other : ∀ request, startsAgent request = false → answer request ≠ processCapacityExhausted

section Admit

variable {β : Type*} (lib : Library β)

/-- The connection switches its protocol. -/
def accepted (request : HttpRequest β) (response : Response) : Bool :=
  if request.http2Websocket then 200 ≤ response.status && response.status < 300
  else response.status = 101

/-- `admit_new_connection` for the connection `i`, once it gets the locks that it waits for. -/
def admitNewConnection (a : AdmissionState) (i : ℕ) (request : HttpRequest β) :
    AdmissionState × Response :=
  if request.initialHttp then
    if a.processSlots = 0 then (a, processCapacityExhausted)
    -- The scope drops the permit at its end, unless the factory has taken it.
    else if lib.startsAgent request then
      ({ a with processSlots := a.processSlots - 1 }, lib.answer request)
    else (a, lib.answer request)
  else if request.websocket then
    match AdmissionState.reserveWebsocket { a with wsHandshake := true } i with
    | (a, none) => (a, processCapacityExhausted)
    | (a, some id) =>
      let response := lib.answer request
      if accepted request response then (a, response)
      else (a.cancelWebsocketReservation id, response)
  else (a, lib.answer request)

end Admit

section Answers

variable {β : Type*} (lib : Library β) (a : AdmissionState) (i : ℕ) (request : HttpRequest β)

/-- With a free permit, the library answers. -/
theorem answer_free (free : a.processSlots ≠ 0) :
    (admitNewConnection lib a i request).2 = lib.answer request := by
  unfold admitNewConnection AdmissionState.reserveWebsocket
  simp only [if_neg free]
  split_ifs <;> rfl

/-- Without one, the layer answers what it takes for a new connection. -/
theorem answer_full (full : a.processSlots = 0) :
    (admitNewConnection lib a i request).2 =
      if request.initialHttp || request.websocket then processCapacityExhausted
      else lib.answer request := by
  unfold admitNewConnection AdmissionState.reserveWebsocket
  simp only [if_pos full]
  cases request.initialHttp with
  | true => rfl
  | false => cases request.websocket <;> rfl

/-- The response is the same at every load exactly if the layer takes the request for no new
connection. -/
theorem capacity_affects_iff (quiet : lib.startsAgent request = false) :
    (∀ (a a' : AdmissionState) (i i' : ℕ), (admitNewConnection lib a i request).2 =
      (admitNewConnection lib a' i' request).2) ↔
    request.initialHttp = false ∧ request.websocket = false := by
  constructor
  · intro same
    by_contra taken
    have refused : (request.initialHttp || request.websocket) = true := by
      cases http : request.initialHttp <;> cases ws : request.websocket <;>
        simp [http, ws] at taken ⊢
    have full := answer_full lib (.new 0) 0 request rfl
    have free := answer_free lib (.new 1) 0 request Nat.one_ne_zero
    rw [if_pos refused] at full
    apply lib.other request quiet
    rw [← free, ← full]
    exact same _ _ _ _
  · rintro ⟨http, ws⟩ a a' i i'
    have answered : ∀ (a : AdmissionState) (i : ℕ),
        (admitNewConnection lib a i request).2 = lib.answer request := by
      intro a i
      simp [admitNewConnection, http, ws]
    rw [answered, answered]

end Answers

/-! ### In the steps of the route -/

/-- Some steps of the route lead from one state to the other. -/
def Leads (r r' : Route) : Prop := Relation.ReflTransGen (fun r r' => ∃ event, Step r event r') r r'

section Steps

variable {β : Type*} {lib : Library β} {request : HttpRequest β} {r : Route}

theorem http_leads (quiet : lib.startsAgent request = false) (http : request.initialHttp = true) :
    ∃ r', Leads r r' ∧
      r'.admission = (admitNewConnection lib r.admission r.arrived request).1 := by
  unfold admitNewConnection
  rw [if_pos http, quiet]
  by_cases full : r.admission.processSlots = 0
  · rw [if_pos full]
    exact ⟨_, .single ⟨_, .httpRefuse full⟩, rfl⟩
  · rw [if_neg full]
    let admitted := (r.setAdmission
      { r.admission with processSlots := r.admission.processSlots - 1 }).arrive
        (.http (some r.arrived))
    have cell : (admitted.conns r.arrived).request = .http (some r.arrived) := by
      simp [admitted, Route.arrive, Route.setAdmission]
    refine ⟨_, .tail (.single ⟨_, .httpAdmit full⟩) ⟨_, .httpRespond cell⟩, ?_⟩
    have back : r.admission.processSlots - 1 + 1 = r.admission.processSlots := by omega
    simp [Route.setRequest, Route.setAdmission, Route.arrive, AdmissionState.release,
      Request.permits, back]

theorem websocket_leads (http : request.initialHttp = false) (ws : request.websocket = true)
    (unlocked : r.admission.wsHandshake = false) :
    ∃ r', Leads r r' ∧
      r'.admission = (admitNewConnection lib r.admission r.arrived request).1 := by
  let i := r.arrived
  let waiting := r.arrive .waiting
  let locked := (waiting.setAdmission { r.admission with wsHandshake := true }).setRequest i .locked
  have arrives : Leads r waiting := .single ⟨_, .wsArrive⟩
  have locks : Leads r locked := by
    apply arrives.tail
    exact ⟨.lock i, .lock (by simp [waiting, i, Route.arrive]) unlocked⟩
  have reserves := Step.reserve (r := locked) (i := i) (by simp [locked, Route.setRequest])
  have admission : locked.admission = { r.admission with wsHandshake := true } := rfl
  unfold admitNewConnection
  rw [if_neg (by simp [http]), if_pos ws]
  rw [admission] at reserves
  rcases reserved : AdmissionState.reserveWebsocket { r.admission with wsHandshake := true } i with
    ⟨a, _ | id⟩
  · rw [reserved] at reserves
    exact ⟨_, locks.tail ⟨_, reserves⟩, rfl⟩
  · rw [reserved] at reserves
    let reservedRoute := (locked.setAdmission a).setRequest i (.websocket id)
    have there : Leads r reservedRoute := locks.tail ⟨_, reserves⟩
    have websocket : (reservedRoute.conns i).request = .websocket id := by
      simp [reservedRoute, Route.setRequest]
    dsimp only
    split_ifs
    · exact ⟨_, there, rfl⟩
    · exact ⟨_, there.tail ⟨_, .wsReject websocket⟩, rfl⟩

/-- What the layer leaves of a request that starts no agent is what a run of the route leaves. -/
theorem admit_leads (quiet : lib.startsAgent request = false)
    (unlocked : r.admission.wsHandshake = false) :
    ∃ r', Leads r r' ∧
      r'.admission = (admitNewConnection lib r.admission r.arrived request).1 := by
  cases http : request.initialHttp with
  | true => exact http_leads quiet http
  | false =>
    cases ws : request.websocket with
    | true => exact websocket_leads http ws unlocked
    | false =>
      refine ⟨r, .refl, ?_⟩
      simp [admitNewConnection, http, ws]

end Steps

/-! ### A router with the documented answers -/

/-- The body tells whether the message is an `initialize`; no connection is open. -/
def acpAnswer (request : HttpRequest Bool) : Response :=
  if request.path = str "/health" then
    if request.method = str "GET" then textResponse 200 (str "ok") else ⟨405, [], []⟩
  else if request.path ≠ str "/acp" then ⟨404, [], []⟩
  else if request.websocket then ⟨101, [], []⟩
  else if request.method ≠ str "POST" then ⟨405, [], []⟩
  else if request.headers.lookup (str "content-type") ≠
      some (Str.bytes (str "application/json")) then
    textResponse 415 (str "Content-Type must be application/json")
  else if !request.initialHttp then ⟨404, [], []⟩
  else if request.body then ⟨200, [(str "acp-connection-id", str "0")], []⟩
  else textResponse 400 (str "Acp-Connection-Id header required")

theorem acpAnswer_available (request : HttpRequest Bool) : (acpAnswer request).status ≠ 503 := by
  unfold acpAnswer
  split_ifs <;> simp [textResponse]

def acpServer : Library Bool where
  startsAgent request :=
    request.path = str "/acp" && (request.websocket || (acpAnswer request).status = 200)
  answer := acpAnswer
  other request _ refused := by
    have status := congrArg Response.status refused
    exact acpAnswer_available request status

def unknownPost : HttpRequest Bool := ⟨str "POST", false, str "/nowhere", [], false⟩

def healthProbe : HttpRequest Bool := ⟨str "GET", false, str "/health", [], false⟩

theorem healthProbe_available :
    healthProbe.initialHttp = false ∧
      (admitNewConnection acpServer (.new 0) 0 healthProbe).2 =
        (admitNewConnection acpServer (.new 16) 3 healthProbe).2 :=
  ⟨rfl, (capacity_affects_iff acpServer healthProbe (by decide)).2 ⟨rfl, rfl⟩ _ _ _ _⟩

/-- A POST to an unknown path is refused when no permit is free. -/
theorem unknownPost_refused :
    ¬ ∀ (request : HttpRequest Bool) (a a' : AdmissionState) (i i' : ℕ),
      acpServer.startsAgent request = false →
      (admitNewConnection acpServer a i request).2 =
        (admitNewConnection acpServer a' i' request).2 := by
  intro same
  have unknown := same unknownPost (.new 0) (.new 1) 0 0 (by decide)
  revert unknown
  decide

end AcpAgent.Serve.Admission
