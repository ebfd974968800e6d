import AcpAgent.Lib.Ledger
import AcpAgent.Lib.Transition
import Mathlib.Tactic.SplitIfs

/-! Process admission of one route: `admit_new_connection`, `AdmissionState`, the agent factory and
the start of `ObservedAgent::connect_to` in `serve/runtime.rs`.  Connections are numbered in the
order in which their requests arrive.  A permit is named by the connection whose admission acquired
it, so that the model can tell whose permit an agent runs on; the code moves permits without
looking at them. -/

namespace AcpAgent.Serve.Admission

open Transition

/-- `WsPermitReservation`.  Its `_handshake_guard` keeps `ws_handshake` locked. -/
structure Reservation where
  id : ℕ
  permit : ℕ
  deriving DecidableEq

/-- `AdmissionState`: the free permits of `process_slots`, whether `ws_handshake` is locked,
`ws_reservation`, and `next_ws_reservation`. -/
structure AdmissionState where
  processSlots : ℕ
  wsHandshake : Bool
  wsReservation : Option Reservation
  nextWsReservation : ℕ
  deriving DecidableEq

namespace AdmissionState

def new (maxProcesses : ℕ) : AdmissionState := ⟨maxProcesses, false, none, 0⟩

/-- The permits inside the reservation slot. -/
def reserved (a : AdmissionState) : ℕ := a.wsReservation.elim 0 fun _ => 1

/-- Dropping `n` owned permits. -/
def release (a : AdmissionState) (n : ℕ) : AdmissionState :=
  { a with processSlots := a.processSlots + n }

/-- Dropping a reservation returns its permit and unlocks the handshake mutex. -/
def dropReservation (a : AdmissionState) : AdmissionState :=
  match a.wsReservation with
  | none => a
  | some _ => { a.release 1 with wsHandshake := false, wsReservation := none }

/-- `reserve_websocket` once connection `i` holds the handshake guard: without a free permit the
guard is dropped, and otherwise both move into the slot. -/
def reserveWebsocket (a : AdmissionState) (i : ℕ) : AdmissionState × Option ℕ :=
  if a.processSlots = 0 then ({ a with wsHandshake := false }, none)
  else
    let id := a.nextWsReservation
    -- The assignment to the slot drops what it held.
    ({ a.dropReservation with
        processSlots := a.dropReservation.processSlots - 1
        wsHandshake := true
        wsReservation := some ⟨id, i⟩
        nextWsReservation := (id + 1) % 2 ^ 64 }, some id)

def cancelWebsocketReservation (a : AdmissionState) (id : ℕ) : AdmissionState :=
  match a.wsReservation with
  | some entry => if entry.id = id then a.dropReservation else a
  | none => a

/-- The permit leaves the slot; the handshake guard is dropped. -/
def takeWebsocketReservation (a : AdmissionState) : AdmissionState × Option ℕ :=
  match a.wsReservation with
  | none => (a, none)
  | some entry => ({ a with wsHandshake := false, wsReservation := none }, some entry.permit)

end AdmissionState

/-- The task of one request in `admit_new_connection`. -/
inductive Request
  /-- Not arrived, answered, or dropped. -/
  | idle
  /-- Inside `RESERVED_PROCESS_PERMIT.scope`, with what the cell holds. -/
  | http (cell : Option ℕ)
  /-- Waiting for `ws_handshake` in `reserve_websocket`. -/
  | waiting
  | locked
  /-- `next.run` is pending, under this reservation id. -/
  | websocket (id : ℕ)
  /-- The 101 response is out, and the factory has not been called. -/
  | upgraded
  deriving DecidableEq

/-- The agent of one connection. -/
inductive Agent
  | none
  /-- Built by the factory, with its `reserved_permit`. -/
  | pending (reservedPermit : Option ℕ)
  | live (permit : ℕ)
  /-- `connect_to` answered "agent process capacity exhausted". -/
  | refused
  | ended
  deriving DecidableEq

structure Connection where
  request : Request
  agent : Agent
  deriving DecidableEq

def Request.permits : Request → ℕ
  | .http (some _) => 1
  | _ => 0

def Agent.permits : Agent → ℕ
  | .pending (some _) | .live _ => 1
  | _ => 0

/-- The permits that a connection's admission and its agent hold. -/
def Connection.permits (c : Connection) : ℕ := c.request.permits + c.agent.permits

/-- The admission machinery of one route with the connections that have arrived. -/
structure Route where
  admission : AdmissionState
  arrived : ℕ
  conns : ℕ → Connection

namespace Route

def setRequest (r : Route) (i : ℕ) (q : Request) : Route :=
  { r with conns := Function.update r.conns i { r.conns i with request := q } }

def setAgent (r : Route) (i : ℕ) (a : Agent) : Route :=
  { r with conns := Function.update r.conns i { r.conns i with agent := a } }

def setAdmission (r : Route) (a : AdmissionState) : Route := { r with admission := a }

/-- The next connection arrives, in this state of its request. -/
def arrive (r : Route) (q : Request) : Route :=
  { r with arrived := r.arrived + 1, conns := Function.update r.conns r.arrived ⟨q, .none⟩ }

/-- The factory call of connection `i`: `take_reserved_process_permit()` finds what `cell` holds,
and `take_websocket_reservation()` is asked only when that is nothing. -/
def factory (r : Route) (i : ℕ) (cell : Option ℕ) (q : Request) : Route :=
  match cell with
  | some permit => (r.setRequest i q).setAgent i (.pending (some permit))
  | none =>
    ((r.setRequest i q).setAdmission r.admission.takeWebsocketReservation.1).setAgent i
      (.pending r.admission.takeWebsocketReservation.2)

end Route

/-- What happens at one step, and to which connection. -/
inductive Event
  | httpArrive
  | wsArrive
  | lock (i : ℕ)
  | reserve (i : ℕ)
  | httpFactory (i : ℕ)
  | httpRespond (i : ℕ)
  | wsReject (i : ℕ)
  | wsAccept (i : ℕ)
  | wsFactory (i : ℕ)
  /-- The upgrade fails after the 101 response, so the factory is never called. -/
  | wsFail (i : ℕ)
  /-- The request's future is dropped at an await. -/
  | drop (i : ℕ)
  | connect (i : ℕ)
  /-- An agent is dropped before `connect_to` runs. -/
  | discard (i : ℕ)
  | finish (i : ℕ)

open Event

inductive Step : Route → Event → Route → Prop
  | httpAdmit {r} (free : r.admission.processSlots ≠ 0) :
      Step r httpArrive ((r.setAdmission
        { r.admission with processSlots := r.admission.processSlots - 1 }).arrive
          (.http (some r.arrived)))
  | httpRefuse {r} (full : r.admission.processSlots = 0) : Step r httpArrive (r.arrive .idle)
  | wsArrive {r} : Step r wsArrive (r.arrive .waiting)
  | lock {r i} (h : (r.conns i).request = .waiting) (free : r.admission.wsHandshake = false) :
      Step r (lock i) ((r.setAdmission { r.admission with wsHandshake := true }).setRequest i
        .locked)
  | reserve {r i} (h : (r.conns i).request = .locked) :
      Step r (reserve i) ((r.setAdmission (r.admission.reserveWebsocket i).1).setRequest i
        ((r.admission.reserveWebsocket i).2.elim .idle .websocket))
  -- The library constructs the agent inside the request's task, once.
  | httpFactory {r i cell} (h : (r.conns i).request = .http cell)
      (first : (r.conns i).agent = .none) :
      Step r (httpFactory i) (r.factory i cell (.http none))
  | httpRespond {r i cell} (h : (r.conns i).request = .http cell) :
      Step r (httpRespond i) ((r.setAdmission
        (r.admission.release (Request.http cell).permits)).setRequest i .idle)
  | wsReject {r i id} (h : (r.conns i).request = .websocket id) :
      Step r (wsReject i) ((r.setAdmission (r.admission.cancelWebsocketReservation id)).setRequest i
        .idle)
  | wsAccept {r i id} (h : (r.conns i).request = .websocket id) :
      Step r (wsAccept i) (r.setRequest i .upgraded)
  | wsFactory {r i} (h : (r.conns i).request = .upgraded) :
      Step r (wsFactory i) (r.factory i none .idle)
  | wsFail {r i} (h : (r.conns i).request = .upgraded) :
      Step r (wsFail i) (r.setRequest i .idle)
  | dropHttp {r i cell} (h : (r.conns i).request = .http cell) :
      Step r (drop i) ((r.setAdmission
        (r.admission.release (Request.http cell).permits)).setRequest i .idle)
  -- No guard of the request's future cancels the reservation.
  | dropWs {r i} (h : (r.conns i).request = .waiting ∨ ∃ id, (r.conns i).request = .websocket id) :
      Step r (drop i) (r.setRequest i .idle)
  | connect {r i permit} (h : (r.conns i).agent = .pending (some permit)) :
      Step r (connect i) (r.setAgent i (.live permit))
  | connectDirect {r i} (h : (r.conns i).agent = .pending none)
      (free : r.admission.processSlots ≠ 0) :
      Step r (connect i) ((r.setAdmission
        { r.admission with processSlots := r.admission.processSlots - 1 }).setAgent i (.live i))
  | connectRefused {r i} (h : (r.conns i).agent = .pending none)
      (full : r.admission.processSlots = 0) : Step r (connect i) (r.setAgent i .refused)
  | discard {r i reserved} (h : (r.conns i).agent = .pending reserved) :
      Step r (discard i) ((r.setAdmission
        (r.admission.release (Agent.pending reserved).permits)).setAgent i .ended)
  | finish {r i permit} (h : (r.conns i).agent = .live permit) :
      Step r (finish i) ((r.setAdmission (r.admission.release 1)).setAgent i .ended)

/-- A route with `maxProcesses` permits, before its first connection. -/
def system (maxProcesses : ℕ) : System Route Event where
  init r := r = ⟨.new maxProcesses, 0, fun _ => ⟨.idle, .none⟩⟩
  step := Step

/-! ### Whose permit is where -/

/-- The connection is between taking `ws_handshake` and its factory call. -/
def Connection.MidHandshake (c : Connection) : Prop :=
  match c.request with
  | .locked | .websocket _ | .upgraded => True
  | _ => False

/-- What the state of connection `i` says about the admission state and about its own permit. -/
structure Fits (a : AdmissionState) (i : ℕ) (c : Connection) : Prop where
  cell : ∀ p, c.request = .http (some p) → p = i
  spent : c.request = .http none → c.agent ≠ .none
  locked : c.request = .locked → a.wsHandshake = true ∧ a.wsReservation = none
  websocket : ∀ id, c.request = .websocket id → a.wsReservation = some ⟨id, i⟩
  upgraded : c.request = .upgraded → ∃ id, a.wsReservation = some ⟨id, i⟩
  unbuilt : c.request = .waiting ∨ c.MidHandshake → c.agent = .none
  pending : ∀ p, c.agent = .pending p → p = some i
  live : ∀ p, c.agent = .live p → p = i
  admitted : c.agent ≠ .refused

/-- What holds of every reachable route. -/
structure Correlated (maxProcesses : ℕ) (r : Route) : Prop where
  conserved : r.admission.processSlots + r.admission.reserved +
    Ledger.total Connection.permits r.conns r.arrived = maxProcesses
  opened : ∀ i, r.arrived ≤ i → r.conns i = ⟨.idle, .none⟩
  fits : ∀ i, Fits r.admission i (r.conns i)
  /-- The handshake mutex lets one upgrade at a time through. -/
  handshake : ∀ i j, (r.conns i).MidHandshake → (r.conns j).MidHandshake → i = j
  guarded : r.admission.wsHandshake = false → r.admission.wsReservation = none

/-- The route with another admission state and another state of connection `i`. -/
def Route.put (r : Route) (a : AdmissionState) (i : ℕ) (c : Connection) : Route :=
  { r with admission := a, conns := Function.update r.conns i c }

theorem Route.set_both (r : Route) (a : AdmissionState) (i : ℕ) (q : Request) (g : Agent) :
    ((r.setRequest i q).setAdmission a).setAgent i g = r.put a i ⟨q, g⟩ := by
  simp [Route.setRequest, Route.setAdmission, Route.setAgent, Route.put]

theorem Route.factory_pending (r : Route) (i : ℕ) (cell : Option ℕ) (q : Request) :
    ∃ p, ((r.factory i cell q).conns i).agent = .pending p := by
  cases cell <;> exact ⟨_, by simp [Route.factory, Route.setAgent]; rfl⟩

theorem Correlated.lt_arrived {m : ℕ} {r : Route} (h : Correlated m r) {i : ℕ}
    (hi : r.conns i ≠ ⟨.idle, .none⟩) : i < r.arrived := by
  by_contra hlt
  exact hi (h.opened i (Nat.not_lt.mp hlt))

theorem Fits.of_not_mid {a a' : AdmissionState} {i : ℕ} {c : Connection} (h : Fits a i c)
    (hc : ¬c.MidHandshake) : Fits a' i c := by
  obtain ⟨cell, spent, -, -, -, unbuilt, pending, live, admitted⟩ := h
  refine ⟨cell, spent, ?_, ?_, ?_, unbuilt, pending, live, admitted⟩ <;>
  · intros
    simp_all [Connection.MidHandshake]

/-- One connection moves on: permits only change hands, and the reservation slot and the handshake
mutex change only while no other connection is in a handshake. -/
theorem Correlated.put {m : ℕ} {r : Route} {a : AdmissionState} {i : ℕ} {c : Connection}
    (h : Correlated m r) (hi : r.conns i ≠ ⟨.idle, .none⟩)
    (sum : a.processSlots + a.reserved + c.permits =
      r.admission.processSlots + r.admission.reserved + (r.conns i).permits)
    (fits : Fits a i c)
    (guarded : a.wsHandshake = false → a.wsReservation = none)
    (others : (a.wsHandshake = r.admission.wsHandshake ∧
        a.wsReservation = r.admission.wsReservation ∧
        (c.MidHandshake → (r.conns i).MidHandshake)) ∨
      ∀ j, j ≠ i → ¬(r.conns j).MidHandshake) : Correlated m (r.put a i c) := by
  have hlt := h.lt_arrived hi
  have alone : c.MidHandshake → ∀ j, j ≠ i → ¬(r.conns j).MidHandshake := by
    intro hc j hj hmid
    rcases others with ⟨-, -, keep⟩ | others
    · exact hj (h.handshake j i hmid (keep hc))
    · exact others j hj hmid
  constructor <;> simp only [Route.put]
  · have := Ledger.total_update (f := Connection.permits) (c := r.conns) hlt c
    have := h.conserved
    omega
  · intro j hj
    rw [Function.update_of_ne (by omega)]
    exact h.opened j hj
  · intro j
    by_cases hj : j = i
    · subst hj
      rwa [Function.update_self]
    · rw [Function.update_of_ne hj]
      rcases others with ⟨hand, slot, -⟩ | others
      · obtain ⟨cell, spent, locked, websocket, upgraded, unbuilt, pending, live, admitted⟩ :=
          h.fits j
        exact ⟨cell, spent, by rwa [hand, slot], by rwa [slot], by rwa [slot], unbuilt, pending,
          live, admitted⟩
      · exact (h.fits j).of_not_mid (others j hj)
  · intro j k hj hk
    by_cases hji : j = i <;> by_cases hki : k = i
    · rw [hji, hki]
    · subst hji
      rw [Function.update_self] at hj
      rw [Function.update_of_ne hki] at hk
      exact absurd hk (alone hj k hki)
    · subst hki
      rw [Function.update_self] at hk
      rw [Function.update_of_ne hji] at hj
      exact absurd hj (alone hk j hji)
    · rw [Function.update_of_ne hji] at hj
      rw [Function.update_of_ne hki] at hk
      exact h.handshake j k hj hk
  · exact guarded

/-- The next connection arrives, with a permit that was free or with none. -/
theorem Correlated.arrive {m : ℕ} {r : Route} {n : ℕ} {q : Request} (h : Correlated m r)
    (sum : n + q.permits = r.admission.processSlots)
    (hq : q = .idle ∨ q = .waiting ∨ q = .http (some r.arrived)) :
    Correlated m ((r.setAdmission { r.admission with processSlots := n }).arrive q) := by
  have fresh : ¬(Connection.mk q .none).MidHandshake := by
    rcases hq with rfl | rfl | rfl <;> simp [Connection.MidHandshake]
  have mid : ∀ j, (Function.update r.conns r.arrived ⟨q, .none⟩ j).MidHandshake →
      (r.conns j).MidHandshake := by
    intro j hj
    by_cases hji : j = r.arrived
    · subst hji
      exact absurd hj (by rwa [Function.update_self])
    · rwa [Function.update_of_ne hji] at hj
  constructor <;> simp only [Route.arrive, Route.setAdmission]
  · have := Ledger.total_succ (f := Connection.permits) (c := r.conns) (n := r.arrived) ⟨q, .none⟩
    have := h.conserved
    simp only [Connection.permits, Agent.permits, AdmissionState.reserved] at *
    omega
  · intro j hj
    rw [Function.update_of_ne (by omega)]
    exact h.opened j (by omega)
  · intro j
    by_cases hj : j = r.arrived
    · subst hj
      rw [Function.update_self]
      rcases hq with rfl | rfl | rfl <;> constructor <;> simp
    · rw [Function.update_of_ne hj]
      obtain ⟨cell, spent, locked, websocket, upgraded, unbuilt, pending, live, admitted⟩ :=
        h.fits j
      exact ⟨cell, spent, locked, websocket, upgraded, unbuilt, pending, live, admitted⟩
  · intro j k hj hk
    exact h.handshake j k (mid j hj) (mid k hk)
  · exact h.guarded

/-- A step that only changes connection `i`, its request and agent included. -/
theorem Correlated.putSame {m : ℕ} {r : Route} {i : ℕ} {c : Connection} (h : Correlated m r)
    (hi : r.conns i ≠ ⟨.idle, .none⟩) (sum : c.permits = (r.conns i).permits)
    (fits : Fits r.admission i c) (keep : c.MidHandshake → (r.conns i).MidHandshake) :
    Correlated m (r.put r.admission i c) :=
  h.put hi (by omega) fits h.guarded (.inl ⟨rfl, rfl, keep⟩)

theorem correlated_init {m : ℕ} {r : Route} (h : (system m).init r) : Correlated m r := by
  obtain rfl := h
  constructor
  · simp [AdmissionState.new, AdmissionState.reserved, Ledger.total]
  · exact fun _ _ => rfl
  · intro i
    constructor <;> simp
  · simp [Connection.MidHandshake]
  · simp [AdmissionState.new]

/-- While one connection is in a handshake no other one is. -/
theorem Correlated.alone {m : ℕ} {r : Route} {i : ℕ} (h : Correlated m r)
    (hi : (r.conns i).MidHandshake) (j : ℕ) (hj : j ≠ i) : ¬(r.conns j).MidHandshake :=
  fun hm => hj (h.handshake j i hm hi)

/-- While `ws_handshake` is free no connection is in a handshake. -/
theorem Correlated.none_mid {m : ℕ} {r : Route} (h : Correlated m r)
    (free : r.admission.wsHandshake = false) (j : ℕ) : ¬(r.conns j).MidHandshake := by
  intro hj
  have empty := h.guarded free
  unfold Connection.MidHandshake at hj
  split at hj
  · next hq => simp [((h.fits j).locked hq).1] at free
  · next id hq => simp [(h.fits j).websocket id hq] at empty
  · next hq =>
    obtain ⟨id, hs⟩ := (h.fits j).upgraded hq
    simp [hs] at empty
  · exact hj

/-- A connection without a request of its own keeps what its agent holds. -/
theorem Fits.idle {a a' : AdmissionState} {i : ℕ} {c : Connection} (h : Fits a i c) :
    Fits a' i { c with request := .idle } :=
  ⟨by simp, by simp, by simp, by simp, by simp, by simp [Connection.MidHandshake], h.pending,
    h.live, h.admitted⟩

/-- The request of connection `i` ends, and what its cell held is released. -/
theorem Correlated.endRequest {m : ℕ} {r : Route} {i : ℕ} {cell : Option ℕ} (h : Correlated m r)
    (hq : (r.conns i).request = .http cell) :
    Correlated m (r.put (r.admission.release (Request.http cell).permits) i
      { r.conns i with request := .idle }) := by
  refine h.put (fun hc => by simp [hc] at hq) ?_ (h.fits i).idle h.guarded
    (.inl ⟨rfl, rfl, by simp [Connection.MidHandshake]⟩)
  simp only [AdmissionState.release, AdmissionState.reserved, Connection.permits, hq,
    Request.permits]
  omega

/-- The agent of connection `i` moves on without its permit, which is released. -/
theorem Correlated.endAgent {m : ℕ} {r : Route} {i : ℕ} (h : Correlated m r)
    (hg : (r.conns i).agent ≠ .none) :
    Correlated m (r.put (r.admission.release (r.conns i).agent.permits) i
      { r.conns i with agent := .ended }) := by
  refine h.put (fun hc => by simp [hc] at hg) ?_ ?_ h.guarded
    (.inl ⟨rfl, rfl, by simp [Connection.MidHandshake]⟩)
  · simp only [AdmissionState.release, AdmissionState.reserved, Connection.permits, Agent.permits]
    omega
  · have own := h.fits i
    exact ⟨own.cell, by simp, own.locked, own.websocket, own.upgraded,
      fun hm => absurd (own.unbuilt hm) hg, by simp, by simp, by simp⟩

/-- `reserve_websocket` under the handshake guard. -/
theorem Correlated.reserve {m : ℕ} {r : Route} {i : ℕ} (h : Correlated m r)
    (hq : (r.conns i).request = .locked) :
    Correlated m (r.put (r.admission.reserveWebsocket i).1 i { r.conns i with
      request := (r.admission.reserveWebsocket i).2.elim .idle .websocket }) := by
  have own := h.fits i
  obtain ⟨-, empty⟩ := own.locked hq
  have mid : (r.conns i).MidHandshake := by simp [Connection.MidHandshake, hq]
  have hi : r.conns i ≠ ⟨.idle, .none⟩ := fun hc => by simp [hc] at hq
  by_cases full : r.admission.processSlots = 0
  · simp only [AdmissionState.reserveWebsocket, full, ite_true, Option.elim]
    refine h.put hi ?_ own.idle (fun _ => empty) (.inr (h.alone mid))
    simp [AdmissionState.reserved, Connection.permits, hq, Request.permits, full]
  · simp only [AdmissionState.reserveWebsocket, full, ite_false, Option.elim,
      AdmissionState.dropReservation, empty]
    refine h.put hi ?_ ?_ (by simp) (.inr (h.alone mid))
    · simp only [AdmissionState.reserved, Connection.permits, hq, Request.permits, empty,
        Option.elim]
      omega
    · exact ⟨by simp, by simp, by simp, by simp, by simp, fun _ => own.unbuilt (.inr mid),
        own.pending, own.live, own.admitted⟩

/-- The factory call of an HTTP initialize request moves the request's own permit. -/
theorem Correlated.httpFactory {m : ℕ} {r : Route} {i : ℕ} {cell : Option ℕ} (h : Correlated m r)
    (hq : (r.conns i).request = .http cell) (first : (r.conns i).agent = .none) :
    Correlated m (r.factory i cell (.http none)) := by
  cases cell with
  | none => exact absurd first ((h.fits i).spent hq)
  | some p =>
    obtain rfl : p = i := (h.fits i).cell p hq
    have moved : r.factory p (some p) (.http none) =
        r.put r.admission p ⟨.http none, .pending (some p)⟩ := r.set_both r.admission p _ _
    rw [moved]
    refine h.putSame (fun hc => by simp [hc] at hq) ?_ ?_ (by simp [Connection.MidHandshake])
    · simp [Connection.permits, hq, first, Request.permits, Agent.permits]
    · constructor <;> simp [Connection.MidHandshake]

/-- The factory call of an accepted upgrade moves the permit of its reservation. -/
theorem Correlated.wsFactory {m : ℕ} {r : Route} {i : ℕ} (h : Correlated m r)
    (hq : (r.conns i).request = .upgraded) : Correlated m (r.factory i none .idle) := by
  obtain ⟨id, slot⟩ := (h.fits i).upgraded hq
  have mid : (r.conns i).MidHandshake := by simp [Connection.MidHandshake, hq]
  have agent := (h.fits i).unbuilt (.inr mid)
  simp only [Route.factory, r.set_both, AdmissionState.takeWebsocketReservation, slot]
  refine h.put (fun hc => by simp [hc] at hq) ?_ ?_ (by simp) (.inr (h.alone mid))
  · simp [Connection.permits, hq, agent, Request.permits, Agent.permits, AdmissionState.reserved,
      slot]
  · constructor <;> simp [Connection.MidHandshake]

/-- A rejected upgrade cancels its own reservation. -/
theorem Correlated.cancel {m : ℕ} {r : Route} {i id : ℕ} (h : Correlated m r)
    (hq : (r.conns i).request = .websocket id) :
    Correlated m (r.put (r.admission.cancelWebsocketReservation id) i
      { r.conns i with request := .idle }) := by
  have slot := (h.fits i).websocket id hq
  have mid : (r.conns i).MidHandshake := by simp [Connection.MidHandshake, hq]
  simp only [AdmissionState.cancelWebsocketReservation, slot, ite_true,
    AdmissionState.dropReservation]
  refine h.put (fun hc => by simp [hc] at hq) ?_ (h.fits i).idle (by simp) (.inr (h.alone mid))
  simp [AdmissionState.release, AdmissionState.reserved, Connection.permits, hq, Request.permits,
    slot]

/-- A request that holds no permit of its own ends, and leaves the admission state as it is. -/
theorem Correlated.abandon {m : ℕ} {r : Route} {i : ℕ} (h : Correlated m r)
    (hi : (r.conns i).request ≠ .idle) (none : (r.conns i).request.permits = 0) :
    Correlated m (r.put r.admission i { r.conns i with request := .idle }) := by
  refine h.putSame (fun hc => by simp [hc] at hi) ?_ (h.fits i).idle
    (by simp [Connection.MidHandshake])
  simp only [Connection.permits, none]
  simp [Request.permits]

theorem correlated_step {m : ℕ} {r r' : Route} {e : Event} (h : Correlated m r)
    (step : Step r e r') : Correlated m r' := by
  cases step with
  | httpAdmit free =>
    exact h.arrive (by simp [Request.permits]; omega) (.inr (.inr rfl))
  | httpRefuse =>
    exact h.arrive (n := r.admission.processSlots) (by simp [Request.permits]) (.inl rfl)
  | wsArrive =>
    exact h.arrive (n := r.admission.processSlots) (by simp [Request.permits]) (.inr (.inl rfl))
  | @lock i hq free =>
    have own := h.fits i
    refine h.put (a := { r.admission with wsHandshake := true })
      (c := { r.conns i with request := .locked }) (fun hc => by simp [hc] at hq) ?_ ?_ (by simp)
      (.inr fun j _ => h.none_mid free j)
    · simp [AdmissionState.reserved, Connection.permits, hq, Request.permits]
    · exact ⟨by simp, by simp, fun _ => ⟨rfl, h.guarded free⟩, by simp, by simp,
        fun _ => own.unbuilt (.inl hq), own.pending, own.live, own.admitted⟩
  | reserve hq => exact h.reserve hq
  | httpFactory hq first => exact h.httpFactory hq first
  | httpRespond hq | dropHttp hq => exact h.endRequest hq
  | wsReject hq => exact h.cancel hq
  | @wsAccept i id hq =>
    have own := h.fits i
    have mid : (r.conns i).MidHandshake := by simp [Connection.MidHandshake, hq]
    refine h.putSame (fun hc => by simp [hc] at hq) ?_ ?_ fun _ => mid
    · simp [Connection.permits, hq, Request.permits]
    · exact ⟨by simp, by simp, by simp, by simp, fun _ => ⟨id, own.websocket id hq⟩,
        fun _ => own.unbuilt (.inr mid), own.pending, own.live, own.admitted⟩
  | wsFactory hq => exact h.wsFactory hq
  | wsFail hq => exact h.abandon (by simp [hq]) (by simp [hq, Request.permits])
  | dropWs hq =>
    rcases hq with hq | ⟨id, hq⟩
    · exact h.abandon (by simp [hq]) (by simp [hq, Request.permits])
    · exact h.abandon (by simp [hq]) (by simp [hq, Request.permits])
  | @connect i p hg =>
    have own := h.fits i
    refine h.putSame (fun hc => by simp [hc] at hg) ?_ ?_ (by simp [Connection.MidHandshake])
    · simp [Connection.permits, hg, Agent.permits]
    · refine ⟨own.cell, by simp, own.locked, own.websocket, own.upgraded, ?_, by simp, ?_, by simp⟩
      · exact fun hm => by simp [own.unbuilt hm] at hg
      · intro q hq
        obtain rfl : p = q := by simpa using hq
        simpa using own.pending _ hg
  -- No agent is built without a permit, so none acquires one directly.
  | @connectDirect i hg | @connectRefused i hg =>
    have := (h.fits i).pending _ hg
    simp at this
  | @discard i _ hg | @finish i _ hg =>
    have ended := h.endAgent (i := i) (by simp [hg])
    rw [hg] at ended
    exact ended

theorem correlated_reachable {m : ℕ} {r : Route} (h : (system m).Reachable r) : Correlated m r :=
  h.invariant (fun _ => correlated_init) fun _ _ _ _ ih step => correlated_step ih step

/-- `connect_to` is running the agent process. -/
def Agent.isLive : Agent → Bool
  | .live _ => true
  | _ => false

/-- Permits are neither lost nor made, so at most `m` agents run at once; every factory call takes
the permit of its own connection's admission, and no admitted connection is refused later. -/
theorem admission_bound {m : ℕ} {r : Route} (h : (system m).Reachable r) :
    (Ledger.total (fun c => c.agent.permits) r.conns r.arrived +
      (Ledger.total (fun c => c.request.permits) r.conns r.arrived + r.admission.reserved) +
      r.admission.processSlots = m ∧
    ((Finset.range r.arrived).filter fun i => (r.conns i).agent.isLive).card ≤ m) ∧
    (∀ i r', (system m).step r (httpFactory i) r' ∨ (system m).step r (wsFactory i) r' →
      (r'.conns i).agent = .pending (some i)) ∧
    ∀ i, (r.conns i).agent ≠ .refused := by
  have corr := correlated_reachable h
  have sum := corr.conserved
  have split : Ledger.total Connection.permits r.conns r.arrived =
      Ledger.total (fun c => c.request.permits) r.conns r.arrived +
        Ledger.total (fun c => c.agent.permits) r.conns r.arrived := Ledger.total_add _ _
  have running := Ledger.card_le_total (f := fun c : Connection => c.agent.permits) (c := r.conns)
    (n := r.arrived) (fun c => c.agent.isLive = true) (by
      rintro ⟨q, g⟩ hg
      cases g <;> simp_all [Agent.isLive, Agent.permits])
  refine ⟨⟨by omega, by omega⟩, ?_, fun i => (corr.fits i).admitted⟩
  intro i r' step
  have after : Correlated m r' := by
    rcases step with step | step <;> exact correlated_step corr step
  have built : ∃ p, (r'.conns i).agent = .pending p := by
    rcases step with step | step
    · cases step with
      | @httpFactory _ cell => exact r.factory_pending i cell _
    · cases step with
      | wsFactory => exact r.factory_pending i none _
  obtain ⟨p, hp⟩ := built
  rw [hp, (after.fits i).pending p hp]

/-- An upgrade that takes the only slot of its route leaves one agent running, on its own permit. -/
theorem admission_bound_upgrade : ∃ r, (system 1).Reachable r ∧ (r.conns 0).agent = .live 0 ∧
    ((Finset.range r.arrived).filter fun i => (r.conns i).agent.isLive).card ≤ 1 := by
  have h0 : (system 1).Reachable ⟨.new 1, 0, fun _ => ⟨.idle, .none⟩⟩ := .init rfl
  have h1 := h0.step .wsArrive
  have h2 := h1.step (.lock (i := 0) rfl rfl)
  have h3 := h2.step (.reserve (i := 0) rfl)
  have h4 := h3.step (.wsAccept (i := 0) rfl)
  have h5 := h4.step (.wsFactory (i := 0) rfl)
  have h6 := h5.step (.connect (i := 0) rfl)
  exact ⟨_, h6, rfl, (admission_bound h6).1.2⟩

/-! ### What an idle route holds -/

def Agent.AtRest : Agent → Prop
  | .none | .refused | .ended => True
  | _ => False

/-- No request is in flight, no upgrade is between its 101 and its factory call, and no agent is
built or running. -/
def Route.Quiescent (r : Route) : Prop :=
  ∀ i, (r.conns i).request = .idle ∧ (r.conns i).agent.AtRest

/-- Nothing is reserved, all permits are free, and the next upgrade is admitted. -/
def Route.Clear (maxProcesses : ℕ) (r : Route) : Prop :=
  r.admission.wsReservation = none ∧ r.admission.wsHandshake = false ∧
    r.admission.processSlots = maxProcesses ∧
    (maxProcesses ≠ 0 → ∃ id, (r.admission.reserveWebsocket r.arrived).2 = some id)

/-- The step leaves no reservation behind: the future of a request that made one is not dropped,
and no upgrade fails after its 101 response. -/
def Handled (r : Route) : Event → Prop
  | .drop i => ∀ id, (r.conns i).request ≠ .websocket id
  | .wsFail _ => False
  | _ => True

/-- Whoever locked `ws_handshake` is still there to unlock it. -/
def Attended (r : Route) : Prop :=
  r.admission.wsHandshake = true → ∃ i, (r.conns i).MidHandshake

theorem Attended.put {r : Route} {a : AdmissionState} {i : ℕ} {c : Connection} (h : Attended r)
    (keep : a.wsHandshake = true → c.MidHandshake ∨
      (r.admission.wsHandshake = true ∧ ¬(r.conns i).MidHandshake)) : Attended (r.put a i c) := by
  intro locked
  rcases keep locked with hc | ⟨before, hi⟩
  · exact ⟨i, by simpa [Route.put] using hc⟩
  · obtain ⟨j, hj⟩ := h before
    have hji : j ≠ i := fun hji => hi (hji ▸ hj)
    exact ⟨j, by simpa [Route.put, Function.update_of_ne hji] using hj⟩

theorem Attended.arrive {m n : ℕ} {r : Route} {q : Request} (h : Attended r)
    (corr : Correlated m r) :
    Attended ((r.setAdmission { r.admission with processSlots := n }).arrive q) := by
  intro locked
  obtain ⟨j, hj⟩ := h locked
  have hjn : j ≠ r.arrived := by
    rintro rfl
    simp [corr.opened _ le_rfl, Connection.MidHandshake] at hj
  exact ⟨j, by simpa [Route.arrive, Route.setAdmission, Function.update_of_ne hjn] using hj⟩

/-- The agent of connection `i` moves on, its request stays where it is. -/
theorem Attended.agent {r : Route} {a : AdmissionState} {i : ℕ} {g : Agent} (h : Attended r)
    (same : a.wsHandshake = r.admission.wsHandshake) :
    Attended (r.put a i { r.conns i with agent := g }) := by
  apply h.put
  intro locked
  by_cases hi : (r.conns i).MidHandshake
  · exact .inl hi
  · exact .inr ⟨same ▸ locked, hi⟩

theorem attended_step {m : ℕ} {r r' : Route} {e : Event} (h : Attended r) (corr : Correlated m r)
    (handled : Handled r e) (step : Step r e r') : Attended r' := by
  cases step with
  | httpAdmit | httpRefuse | wsArrive => exact h.arrive corr
  | @lock i hq free =>
    exact h.put (a := { r.admission with wsHandshake := true })
      (c := { r.conns i with request := .locked }) fun _ => .inl (by simp [Connection.MidHandshake])
  | @reserve i hq =>
    refine h.put (c := { r.conns i with
      request := (r.admission.reserveWebsocket i).2.elim .idle .websocket }) fun locked => .inl ?_
    by_cases full : r.admission.processSlots = 0
    · simp [AdmissionState.reserveWebsocket, full, Route.setAdmission] at locked
    · simp [AdmissionState.reserveWebsocket, full, Connection.MidHandshake]
  | @httpFactory i cell hq first =>
    cases cell with
    | none => exact absurd first ((corr.fits i).spent hq)
    | some p =>
      have moved : r.factory i (some p) (.http none) =
          r.put r.admission i ⟨.http none, .pending (some p)⟩ := r.set_both r.admission i _ _
      rw [moved]
      exact h.put fun locked => .inr ⟨locked, by simp [Connection.MidHandshake, hq]⟩
  | @httpRespond i cell hq | @dropHttp i cell hq =>
    exact h.put (a := r.admission.release (Request.http cell).permits)
      (c := { r.conns i with request := .idle }) fun locked =>
        .inr ⟨locked, by simp [Connection.MidHandshake, hq]⟩
  | @wsReject i id hq =>
    refine h.put (a := r.admission.cancelWebsocketReservation id)
      (c := { r.conns i with request := .idle }) fun locked => ?_
    have slot := (corr.fits i).websocket id hq
    simp [AdmissionState.cancelWebsocketReservation, AdmissionState.dropReservation, slot] at locked
  | @wsAccept i id hq =>
    exact h.put (a := r.admission) (c := { r.conns i with request := .upgraded }) fun _ =>
      .inl (by simp [Connection.MidHandshake])
  | @wsFactory i hq =>
    obtain ⟨id, slot⟩ := (corr.fits i).upgraded hq
    simp only [Route.factory, r.set_both]
    apply h.put
    intro locked
    simp [AdmissionState.takeWebsocketReservation, slot] at locked
  | wsFail => exact handled.elim
  | @dropWs i hq =>
    rcases hq with hq | ⟨id, hq⟩
    · exact h.put (a := r.admission) (c := { r.conns i with request := .idle }) fun locked =>
        .inr ⟨locked, by simp [Connection.MidHandshake, hq]⟩
    · exact absurd hq (handled id)
  | connect | connectRefused => exact h.agent (a := r.admission) rfl
  | connectDirect | discard | finish => exact h.agent rfl

theorem attended_reachable {m : ℕ} {r : Route} (h : ((system m).restrict Handled).Reachable r) :
    Attended r := by
  refine h.invariant ?_ fun s _ _ hs ih step =>
    attended_step ih (correlated_reachable hs.of_restrict) step.1 step.2
  rintro _ rfl
  simp [Attended, AdmissionState.new]

/-- A quiescent route whose handshake mutex is free has all its permits back. -/
theorem Correlated.clear {m : ℕ} {r : Route} (h : Correlated m r) (quiet : r.Quiescent)
    (free : r.admission.wsHandshake = false) : r.Clear m := by
  have empty := h.guarded free
  have held : Ledger.total Connection.permits r.conns r.arrived = 0 := by
    apply Ledger.total_eq_zero
    intro i
    obtain ⟨request, agent⟩ := quiet i
    cases hg : (r.conns i).agent <;>
      simp_all [Connection.permits, Request.permits, Agent.permits, Agent.AtRest]
  have slots : r.admission.processSlots = m := by
    have := h.conserved
    simp only [AdmissionState.reserved, empty, Option.elim] at this
    omega
  refine ⟨empty, free, slots, fun hm => ⟨r.admission.nextWsReservation, ?_⟩⟩
  simp [AdmissionState.reserveWebsocket, slots, hm]

/-- A route on which every handshake that holds a reservation is rejected, or claimed by the
factory, is clear whenever it is quiescent. -/
theorem quiescent_clear {m : ℕ} {r : Route} (h : ((system m).restrict Handled).Reachable r)
    (quiet : r.Quiescent) : r.Clear m := by
  refine (correlated_reachable h.of_restrict).clear quiet (Bool.eq_false_iff.mpr fun locked => ?_)
  obtain ⟨i, hi⟩ := attended_reachable h locked
  have idle := (quiet i).1
  simp [Connection.MidHandshake, idle] at hi

theorem quiescent_clear_rejected : ∃ r : Route, r.arrived = 1 ∧ r.Clear 1 := by
  have h0 : ((system 1).restrict Handled).Reachable ⟨.new 1, 0, fun _ => ⟨.idle, .none⟩⟩ :=
    .init rfl
  have h1 := h0.step (a := wsArrive) ⟨trivial, .wsArrive⟩
  have h2 := h1.step (a := lock 0) ⟨trivial, .lock rfl rfl⟩
  have h3 := h2.step (a := reserve 0) ⟨trivial, .reserve rfl⟩
  have h4 := h3.step (a := wsReject 0) ⟨trivial, .wsReject rfl⟩
  refine ⟨_, rfl, quiescent_clear h4 fun i => ?_⟩
  by_cases hi : i = 0 <;>
    simp [hi, Route.setRequest, Route.setAdmission, Route.arrive, Agent.AtRest]

/-- The client of an upgrade disconnects while `next.run` is pending: its reservation stays, and
with it the route's only permit and the handshake mutex. -/
theorem dropped_upgrade_leaks : ∃ r, (system 1).Reachable r ∧ r.Quiescent ∧ ¬r.Clear 1 := by
  have h0 : (system 1).Reachable ⟨.new 1, 0, fun _ => ⟨.idle, .none⟩⟩ := .init rfl
  have h1 := h0.step .wsArrive
  have h2 := h1.step (.lock (i := 0) rfl rfl)
  have h3 := h2.step (.reserve (i := 0) rfl)
  have h4 := h3.step (.dropWs (i := 0) (.inr ⟨0, rfl⟩))
  refine ⟨_, h4, fun i => ?_, fun clear => ?_⟩
  · by_cases hi : i = 0 <;>
      simp [hi, Route.setRequest, Route.setAdmission, Route.arrive, Agent.AtRest]
  · exact absurd clear.2.1 (by decide)

end AcpAgent.Serve.Admission
