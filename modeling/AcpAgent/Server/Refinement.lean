import AcpAgent.Lib.Runs
import AcpAgent.Lib.SortedBy
import AcpAgent.Server.Supervisor

/-! The supervisor and a register of servers that handles one request after the other: what the
tasks make of the servers between their await points, and what they answer, are steps and answers of
the register, at a moment at which the request was being handled.  A list is put together of what
the register says at several such moments. -/

namespace AcpAgent.Server.Supervisor

open Transition Routes

/-! ### The register of servers -/

/-- A named server as its clients see it. -/
@[ext]
structure NamedServer (ρ : Type*) where
  host : Str
  port : UInt16
  address : Address
  stopping : Bool
  routes : Table ρ

@[ext]
structure Servers (ρ : Type*) where
  closing : Bool
  named : Str → Option (NamedServer ρ)

variable {ρ : Type*}

/-- What the register says of a server. -/
def NamedServer.result (i : NamedServer ρ) (name : Str) : InstanceResult :=
  ⟨name, i.host, i.address.port, i.address.text, if i.stopping then .stopping else .running⟩

namespace Servers

def set (s : Servers ρ) (name : Str) (server : Option (NamedServer ρ)) : Servers ρ :=
  { s with named := Function.update s.named name server }

/-- The checks of a request that do not depend on the servers. -/
def check (lib : UriParser) : Request → Outcome
  | .createInstance request => checkCreate request
  | .register request => checkRegister lib request
  | .unregister request => checkUnregister request
  | _ => .ok ()

/-- The server that a request names, if it has to be there. -/
def target : Request → Option Str
  | .stopInstance name | .status name | .registrations name => some name
  | .register request => some request.name
  | .unregister request => some request.name
  | _ => none

/-- The server whose routes a request changes. -/
def changes : Request → Option Str
  | .register request => some request.name
  | .unregister request => some request.name
  | _ => none

/-- What the register answers to a request that changes nothing. -/
inductive Reads (lib : UriParser) (debug : Str → Str) (s : Servers ρ) : Request → Answer ρ → Prop
  | health : Reads lib debug s .health (.ok .done)
  | closing {request} (mutation : isMutation request = true) (h : s.closing = true) :
      Reads lib debug s request (.error shuttingDown)
  | invalid {request error} (h : check lib request = .error error) :
      Reads lib debug s request (.error error)
  | missing {request name} (named : target request = some name) (h : s.named name = none) :
      Reads lib debug s request (.error (notFound debug name))
  | status {name i} (h : s.named name = some i) :
      Reads lib debug s (.status name) (.ok (.server (i.result name)))
  | registrations {name i} (h : s.named name = some i) :
      Reads lib debug s (.registrations name)
        (.ok (.routes name i.address (i.routes.mergeSort routeLe)))
  -- A server that is there already
  | reused {request i} (open_ : s.closing = false) (h : s.named request.name = some i)
      (running : i.stopping = false) (same : i.host = request.host ∧ i.port = request.port) :
      Reads lib debug s (.createInstance request) (.ok (.server (i.result request.name)))
  | conflict {request i} (open_ : s.closing = false) (h : s.named request.name = some i)
      (running : i.stopping = false) (other : ¬(i.host = request.host ∧ i.port = request.port)) :
      Reads lib debug s (.createInstance request) (.error ⟨.conflict, str "instance " ++
        debug request.name ++ str " already exists with a different configuration"⟩)
  | ending {request i} (open_ : s.closing = false) (h : s.named request.name = some i)
      (stopping : i.stopping = true) :
      Reads lib debug s (.createInstance request)
        (.error ⟨.operation, str "instance " ++ debug request.name ++ str " is stopping"⟩)
  | bindFails {request} (open_ : s.closing = false) (free : s.named request.name = none)
      (error : Str) :
      Reads lib debug s (.createInstance request) (.error (bindFailed request error))
  | addressFails {request} (open_ : s.closing = false) (free : s.named request.name = none)
      (error : Str) : Reads lib debug s (.createInstance request) (.error (addressFailed error))
  -- A change of routes that is refused
  | stopping {request name i} (changes : changes request = some name) (h : s.named name = some i)
      (stopping : i.stopping = true) : Reads lib debug s request (.error (isStopping name))
  | rejected {c : Change ρ} {i error} (open_ : s.closing = false) (h : s.named c.name = some i)
      (running : i.stopping = false) (refused : c.apply i.routes = .error error) :
      Reads lib debug s c.request (.error error)

/-- What a request makes of the register, with its answer. -/
inductive Does (s : Servers ρ) : Request → Answer ρ → Servers ρ → Prop
  | created {request i} (address : Address) (open_ : s.closing = false)
      (free : s.named request.name = none)
      (new : i = ⟨request.host, request.port, address, false, []⟩) :
      Does s (.createInstance request) (.ok (.server (i.result request.name)))
        (s.set request.name (some i))
  | changed {c : Change ρ} {i routes} (open_ : s.closing = false) (h : s.named c.name = some i)
      (running : i.stopping = false) (applied : c.apply i.routes = .ok routes) :
      Does s c.request (.ok (c.reply c.name i.address)) (s.set c.name (some { i with routes }))
  | stopped {name i} (h : s.named name = some i) (stopping : i.stopping = true)
      (failure : Option Str) :
      Does s (.stopInstance name) (failure.elim (.ok .done) fun e => .error (listenerFailed e))
        (s.set name none)
  | closed : Does s .shutdown (.ok .done) { s with closing := true }

/-- An entry of a list that is true of the register. -/
def Says (s : Servers ρ) (result : InstanceResult) : Prop :=
  ∃ i, s.named result.name = some i ∧ result = i.result result.name

/-- A list has each server of the register once, in the order of their names. -/
structure Lists (s : Servers ρ) (results : List InstanceResult) : Prop where
  sorted : results.Pairwise fun left right => left.name < right.name
  named : ∀ name, name ∈ results.map (·.name) ↔ s.named name ≠ none

/-- What a stop does before it waits for the listener. -/
inductive Marks (s : Servers ρ) (name : Str) : Servers ρ → Prop
  | mark {i} (h : s.named name = some i) :
      Marks s name (s.set name (some { i with stopping := true }))

end Servers

/-! ### The servers of the supervisor -/

def Instance.server (i : Instance ρ) : NamedServer ρ where
  host := i.requestedHost
  port := i.requestedPort
  address := i.address
  stopping := i.state = .stopping
  routes := i.routes

def Shared.servers (s : Shared ρ) : Servers ρ where
  closing := s.phase = .shuttingDown
  named name := (s.instances name).map fun id => (s.table id).server

section View

variable {s : Shared ρ} {name : Str} {id : ℕ}

@[simp] theorem servers_closing : s.servers.closing = true ↔ s.phase = .shuttingDown := by
  simp [Shared.servers]

theorem servers_open (h : s.phase = .running) : s.servers.closing = false := by
  simp [Shared.servers, h]

theorem phase_of_ne (h : s.phase ≠ .running) : s.phase = .shuttingDown := by
  cases hp : s.phase with
  | running => exact absurd hp h
  | shuttingDown => rfl

theorem named_some (h : s.instances name = some id) :
    s.servers.named name = some (s.table id).server := by
  simp [Shared.servers, h]

theorem named_none (h : s.instances name = none) : s.servers.named name = none := by
  simp [Shared.servers, h]

theorem server_running (h : (s.table id).state = .running) :
    (s.table id).server.stopping = false := by
  simp [Instance.server, h]

theorem server_stopping (h : (s.table id).state ≠ .running) :
    (s.table id).server.stopping = true := by
  cases hs : (s.table id).state with
  | running => exact absurd hs h
  | stopping => simp [Instance.server, hs]

/-- What the daemon says of an instance is what the register says of it. -/
theorem instanceResult_eq (i : Instance ρ) : instanceResult i i.state = i.server.result i.name := by
  cases state : i.state <;> simp [instanceResult, Instance.server, NamedServer.result, state]

/-- Nobody sees a change to an instance that is not in the map. -/
theorem servers_modify_unmapped (h : ∀ n, s.instances n ≠ some id) (f : Instance ρ → Instance ρ) :
    (s.modify id f).servers = s.servers := by
  ext1
  · rfl
  · funext n
    simp only [Shared.servers, Shared.modify_instances]
    cases hn : s.instances n with
    | none => rfl
    | some j =>
      have other : j ≠ id := fun same => h n (by rw [hn, same])
      simp [other]

/-- A change that the clients do not see. -/
theorem servers_modify_same {f : Instance ρ → Instance ρ} (h : ∀ i, (f i).server = i.server) :
    (s.modify id f).servers = s.servers := by
  ext1
  · rfl
  · funext n
    simp only [Shared.servers, Shared.modify_instances]
    cases hn : s.instances n with
    | none => rfl
    | some j =>
      by_cases same : j = id
      · simp [same, h]
      · simp [same]

/-- A change to an instance that is in the map under one name. -/
theorem servers_modify (sound : Sound s) (h : s.instances name = some id)
    (f : Instance ρ → Instance ρ) :
    (s.modify id f).servers = s.servers.set name (some (f (s.table id)).server) := by
  ext1
  · rfl
  · funext n
    by_cases same : n = name
    · subst same
      simp [Shared.servers, Servers.set, h]
    · simp only [Shared.servers, Servers.set, Shared.modify_instances, Function.update_of_ne same]
      cases hn : s.instances n with
      | none => rfl
      | some j =>
        have other : j ≠ id := by
          rintro rfl
          exact same ((sound.mapped n j hn).2.symm.trans (sound.mapped name j h).2)
        simp [other]

theorem servers_insert (sound : Sound s) (i : Instance ρ) :
    (s.insert i).servers = s.servers.set i.name (some i.server) := by
  ext1
  · rfl
  · funext n
    by_cases same : n = i.name
    · subst same
      simp [Shared.servers, Servers.set, Shared.insert]
    · simp only [Shared.servers, Servers.set, Shared.insert, Function.update_of_ne same]
      cases hn : s.instances n with
      | none => rfl
      | some j =>
        have other : j ≠ s.next := (sound.mapped n j hn).1.ne
        simp [Function.update_of_ne other]

theorem servers_remove (h : s.instances name = some id) :
    (s.remove name id).servers = s.servers.set name none := by
  rw [Shared.remove, if_pos h]
  ext1
  · rfl
  · funext n
    by_cases same : n = name
    · subst same
      simp [Shared.servers, Servers.set]
    · simp [Shared.servers, Servers.set, Function.update_of_ne same]

theorem servers_remove_other (h : s.instances name ≠ some id) :
    (s.remove name id).servers = s.servers := by
  rw [Shared.remove, if_neg h]

theorem servers_close : (s.setPhase .shuttingDown).servers = { s.servers with closing := true } := by
  ext1 <;> simp [Shared.servers, Shared.setPhase]

end View

/-! ### What the clients see of a step -/

/-- The name that a task is stopping. -/
def Thread.stops : Thread ρ → Option Str
  | .stop name _ | .sweeping name _ _ => some name
  | _ => none

/-- A step of a task, as its clients see it. -/
inductive Seen (s : Servers ρ) (thread thread' : Thread ρ) : Servers ρ → Prop
  | nothing : Seen s thread thread' s
  /-- The change that a request is answered for in this step. -/
  | answered {request reply s'} (answer : thread' = .answered request (.ok reply))
      (does : s.Does request (.ok reply) s') : Seen s thread thread' s'
  | marked {name s'} (stops : thread.stops = some name) (marks : s.Marks name s') :
      Seen s thread thread' s'
  | removed {name i} (stops : thread.stops = some name) (h : s.named name = some i)
      (stopping : i.stopping = true) : Seen s thread thread' (s.set name none)
  /-- The supervisor loop ends. -/
  | closed (loop : thread = .signalled ∨ thread = .closing) :
      Seen s thread thread' { s with closing := true }

section Step

variable {lib : UriParser} {debug : Str → Str} {free : Lock → Prop} {s s' : Shared ρ}
  {thread thread' : Thread ρ}

/-- Outside of the map, every instance is stopping. -/
theorem Sound.unmapped (sound : Sound s) {name : Str} {id : ℕ} (named : s.Named id name)
    (h : s.instances name ≠ some id) :
    (s.table id).state = .stopping ∧ ∀ n, s.instances n ≠ some id := by
  constructor
  · cases hs : (s.table id).state with
    | running => exact absurd (sound.mapped_of_running named hs) h
    | stopping => rfl
  · intro n hn
    have same : n = name := (sound.mapped n id hn).2.symm.trans named.2
    exact h (same ▸ hn)

theorem StopStep.seen {name : Str} {pc pc' : StopPc} (step : StopStep free name s pc s' pc')
    (sound : Sound s) (fits : pc.Fits s name) (stops : thread.stops = some name) :
    Seen s.servers thread thread' s'.servers := by
  cases step with
  | missing | found | stopLock | taken | joined => exact .nothing
  | @state id =>
    by_cases mapped : s.instances name = some id
    · rw [servers_modify sound mapped]
      exact .marked stops (.mark (named_some mapped))
    · rw [servers_modify_unmapped (sound.unmapped fits mapped).2]
      exact .nothing
  | @take id =>
    have same : (s.modify id fun i => { i with listenerTask := false }).servers = s.servers :=
      servers_modify_same fun _ => rfl
    rw [same]
    exact .nothing
  | @remove id failure =>
    by_cases mapped : s.instances name = some id
    · rw [servers_remove mapped]
      refine .removed stops (named_some mapped) (server_stopping ?_)
      rw [fits.2.1]
      decide
    · rw [servers_remove_other mapped]
      exact .nothing

/-- The phase is checked for mutations, and the instance that is about to be inserted is the one
that was asked for. -/
def Thread.Carries : Thread ρ → Prop
  | .gate request => isMutation request = true
  | .spawned request i => ∃ address,
    i = ⟨request.name, request.host, request.port, address, .running, false, false, []⟩
  | _ => True

theorem Thread.enter_carries (lib : UriParser) (request : Request) :
    (Thread.enter lib request : Thread ρ).Carries := by
  cases request <;> simp only [Thread.enter, Thread.checked]
  case createInstance | register | unregister => split <;> trivial
  all_goals trivial

theorem Step.carries (step : Step lib debug free s thread s' thread') : thread'.Carries := by
  cases step with
  | receive request =>
    split_ifs with mutation
    · exact mutation
    · exact Thread.enter_carries lib request
  | gateOpen => exact Thread.enter_carries lib _
  | spawn address => exact ⟨address, rfl⟩
  | _ => trivial

theorem Step.seen (step : Step lib debug free s thread s' thread') (sound : Sound s)
    (fits : thread.Fits s) (carries : thread.Carries) :
    Seen s.servers thread thread' s'.servers := by
  cases step with
  | @insert request i =>
    obtain ⟨address, rfl⟩ := carries
    rw [servers_insert sound]
    exact .answered rfl (.created address (servers_open fits.1) (named_none fits.2.1) rfl)
  | stop step => exact step.seen sound fits rfl
  | sweepStep step => exact step.seen sound fits.2.1 rfl
  | @applied c id routes applied =>
    obtain ⟨named, running, open_⟩ := fits
    have mapped := sound.mapped_of_running named running
    rw [servers_modify sound mapped]
    refine .answered rfl ?_
    rw [named.2]
    exact .changed (servers_open open_) (named_some mapped) (server_running running) applied
  | shutdown =>
    rw [servers_close]
    exact .answered rfl .closed
  | signalled =>
    rw [servers_close]
    exact .closed (.inl rfl)
  | close =>
    rw [servers_close]
    exact .closed (.inr rfl)
  | _ => exact .nothing

end Step

section World

variable {ι : Type*} [DecidableEq ι] {lib : UriParser} {debug : Str → Str} {w w' : World ι ρ}

theorem carries_reachable (h : (system lib debug ι ρ).Reachable w) (t : ι) :
    (w.threads t).Carries := by
  refine h.invariant (I := fun w => ∀ t, (w.threads t).Carries) ?_ ?_ t
  · rintro w ⟨-, -, -, main, hmain, idle⟩ t
    by_cases ht : t = main
    · rw [ht, hmain]
      trivial
    · rw [idle t ht]
      trivial
  · intro w a w' _ ih step t
    cases (step : WorldStep lib debug w a w') with
    | finish => exact ih t
    | @thread u s thread step =>
      by_cases ht : t = u
      · subst ht
        simpa using step.carries
      · simpa [Function.update_of_ne ht] using ih t

end World

/-! ### What a task knows of the past -/

/-- The instance that `stop_instance` has found. -/
def StopPc.found : StopPc → Option ℕ
  | .stopLock id | .state id | .task id | .join id | .daemon id _ => some id
  | .lookup | .notFound | .done _ _ => none

/-- The instance that a task has found under a name. -/
def Thread.found : Thread ρ → Option (Str × ℕ)
  | .firstCheck request id | .resolving request id => some (request.name, id)
  | .change c id .stopLock | .change c id .state => some (c.name, id)
  | .stop name pc => pc.found.map (name, ·)
  | .statusOf name id | .registrationsOf name id => some (name, id)
  | _ => none

section Found

variable {lib : UriParser} {debug : Str → Str} {free : Lock → Prop} {s s' : Shared ρ}
  {thread thread' : Thread ρ} {name : Str} {id : ℕ}

theorem StopStep.of_found {pc pc' : StopPc} (step : StopStep free name s pc s' pc')
    (h : pc'.found = some id) : pc.found = some id ∨ s'.instances name = some id := by
  cases step with
  | missing | remove => exact nomatch h
  | found lock mapped =>
    obtain rfl := Option.some.inj h
    exact .inr mapped
  | _ => exact .inl h

theorem Thread.enter_found (lib : UriParser) (request : Request) :
    (Thread.enter lib request : Thread ρ).found = none := by
  cases request <;> simp only [Thread.enter, Thread.checked]
  case createInstance | register | unregister => split <;> rfl
  all_goals rfl

theorem Step.of_found (step : Step lib debug free s thread s' thread')
    (h : thread'.found = some (name, id)) :
    thread.found = some (name, id) ∨ s'.instances name = some id := by
  cases step with
  | receive request =>
    split_ifs at h
    · exact nomatch h
    · exact nomatch (Thread.enter_found lib request).symm.trans h
  | gateOpen => exact nomatch (Thread.enter_found lib _).symm.trans h
  | stop step =>
    obtain ⟨j, found, same⟩ := Option.map_eq_some_iff.mp h
    obtain ⟨rfl, rfl⟩ := Prod.mk.inj same
    exact (step.of_found found).imp_left fun before => by simp [Thread.found, before]
  | registerFound lock mapped | unregisterFound lock mapped | statusFound lock mapped
  | registrationsFound lock mapped =>
    obtain ⟨rfl, rfl⟩ := Prod.mk.inj (Option.some.inj h)
    exact .inr mapped
  | firstRunning | resolved | changeLock => exact .inl h
  | _ => exact nomatch h

/-- What a task has just learned that comes to some of its await points. -/
def Thread.Learned (thread : Thread ρ) (s s' : Shared ρ) : Thread ρ → Prop
  | .stop name .notFound => s.instances name = none
  | .stop name (.done id _) => thread.found = some (name, id)
  | .existing request id => s'.phase = .running ∧ s'.instances request.name = some id
  | .resolving request id => thread = .firstCheck request id ∧ (s.table id).state = .running
  | .listing ids results =>
    (results = [] ∧ ids.Nodup ∧ ∀ id, id ∈ ids ↔ ∃ name, s.instances name = some id) ∨
      ∃ id before, thread = .listing (id :: ids) before ∧
        results = before ++ [instanceResult (s.table id) (s.table id).state]
  | _ => True

theorem Thread.enter_learned (lib : UriParser) (request : Request) :
    thread.Learned s s' (Thread.enter lib request) := by
  cases request <;> simp only [Thread.enter, Thread.checked]
  case createInstance | register | unregister => split <;> trivial
  all_goals trivial

theorem Step.learned (step : Step lib debug free s thread s' thread') :
    thread.Learned s s' thread' := by
  cases step with
  | receive request =>
    split_ifs
    · trivial
    · exact Thread.enter_learned lib request
  | gateOpen => exact Thread.enter_learned lib _
  | createExisting lock open_ mapped => exact ⟨open_, mapped⟩
  | firstRunning lock running => exact ⟨rfl, running⟩
  | list lock nodup all => exact .inl ⟨rfl, nodup, all⟩
  | listNext => exact .inr ⟨_, _, rfl, rfl⟩
  | stop step =>
    cases step with
    | missing lock none_ => exact none_
    | remove => rfl
    | _ => trivial
  | _ => trivial

end Found

section History

variable {ι : Type*} [DecidableEq ι] {lib : UriParser} {debug : Str → Str} {w w' : World ι ρ}
  {a : Option ι} {t : ι} {name : Str} {id : ℕ}

/-- A task is as before, or has taken the step. -/
theorem WorldStep.task (step : WorldStep lib debug w a w') (t : ι) :
    a ≠ some t ∧ w'.threads t = w.threads t ∨
      a = some t ∧ Step lib debug (w.Free t) w.shared (w.threads t) w'.shared (w'.threads t) := by
  cases step with
  | finish => exact .inl ⟨nofun, rfl⟩
  | @thread u s thread step =>
    by_cases same : t = u
    · subst same
      exact .inr ⟨rfl, by simpa using step⟩
    · exact .inl ⟨fun h => same (Option.some.inj h).symm, Function.update_of_ne same ..⟩

/-- What a task relies on while others take steps. -/
theorem Supervised.evolves (h : Supervised w) (step : WorldStep lib debug w a w')
    (other : a ≠ some t) : Evolves (fun l => (w.threads t).Holds l) w.shared w'.shared := by
  cases step with
  | @finish id =>
    have evolves : Evolves (fun l => (w.threads t).Holds l) w.shared (w.shared.finish id) :=
      .modify (fun _ => rfl) (fun _ _ => rfl) (fun _ h => h) fun _ _ => rfl
    exact evolves
  | @thread u s thread step =>
    have different : t ≠ u := fun same => other (same ▸ rfl)
    exact step.evolves (h.fits u) fun l hl =>
      ⟨fun ht => h.exclusive t u different l l hl ht rfl, fun free => free t different hl⟩

/-- What all rely on. -/
theorem Supervised.evolves_all (h : Supervised w) (step : WorldStep lib debug w a w') :
    Evolves (fun _ => False) w.shared w'.shared := by
  cases step with
  | @finish id =>
    have evolves : Evolves (fun _ => False) w.shared (w.shared.finish id) :=
      .modify (fun _ => rfl) (fun _ _ => rfl) (fun _ h => h) fun _ _ => rfl
    exact evolves
  | @thread u s thread step => exact step.evolves (h.fits u) fun _ => False.elim

/-- A server that is stopping stays as it is. -/
theorem Supervised.frozen (h : Supervised w) (step : WorldStep lib debug w a w')
    (known : id < w.shared.next) (stopping : (w.shared.table id).state = .stopping) :
    (w'.shared.table id).server = (w.shared.table id).server := by
  cases step with
  | finish =>
    simp only [Shared.finish, Shared.modify_table]
    split_ifs <;> rfl
  | @thread u s thread step =>
    have fits := h.fits u
    have stopped : ∀ {name pc pc'}, StopStep (w.Free u) name w.shared pc s pc' →
        (s.table id).server = (w.shared.table id).server := by
      intro name pc pc' step
      cases step with
      | state | take =>
        rw [Shared.modify_table]
        split_ifs
        · simp [Instance.server, stopping]
        · rfl
      | remove => rw [Shared.remove_table]
      | _ => rfl
    generalize w.threads u = before at step fits
    cases step with
    | insert =>
      have old : id ≠ w.shared.next := known.ne
      simp [Shared.insert, Function.update_of_ne old]
    | stop step | sweepStep step => exact stopped step
    | @applied c j routes applied =>
      have other : id ≠ j := by
        rintro rfl
        exact absurd (stopping.symm.trans fits.2.1) (by decide)
      simp [other]
    | _ => rfl

/-- Whoever takes an instance out of the map takes a server that is stopping from the register. -/
theorem Supervised.removed (h : Supervised w) (step : WorldStep lib debug w a w')
    (mapped : w.shared.instances name = some id) (gone : w'.shared.instances name ≠ some id) :
    (w.shared.table id).state = .stopping ∧
      w'.shared.servers = w.shared.servers.set name none := by
  obtain ⟨t, failure, rfl, acts⟩ := unmapped_by step mapped gone h
  have fits := h.fits t
  have taken : ∀ {s' pc'}, StopStep (w.Free t) name w.shared (.daemon id failure) s' pc' →
      s'.servers = w.shared.servers.set name none := by
    intro s' pc' step
    cases step with
    | remove => exact servers_remove mapped
  obtain ⟨other, -⟩ | ⟨-, step⟩ := step.task t
  · exact absurd rfl other
  generalize w'.threads t = thread', w'.shared = s' at step
  rcases acts with acts | ⟨names, acts⟩
  · rw [acts] at step fits
    cases step with
    | stop step => exact ⟨fits.2.1, taken step⟩
  · rw [acts] at step fits
    cases step with
    | sweepStep step => exact ⟨fits.2.1.2.1, taken step⟩

/-! The moments of a run at which a task was handling its request. -/

variable (state : ℕ → World ι ρ)

def Busy (t : ι) (j : ℕ) : Prop := (state j).threads t ≠ .idle

/-- Since the task has its request, the server was taken from the register, as it still is. -/
structure Removed (t : ι) (n : ℕ) (name : Str) (id k : ℕ) : Prop where
  during : During (Busy state t) n k
  known : (state n).shared.Named id name
  stopping : ((state n).shared.table id).state = .stopping
  named : (state k).shared.servers.named name = some ((state n).shared.table id).server
  taken : (state (k + 1)).shared.servers = (state k).shared.servers.set name none

def Kept (t : ι) (n : ℕ) (name : Str) (id : ℕ) : Prop :=
  (state n).shared.instances name = some id ∨ ∃ k, Removed state t n name id k

/-- A list that is being put together: its snapshot was taken at `k`, and the servers that are left
have these names. -/
structure Listing (t : ι) (n : ℕ) (ids : List ℕ) (results : List InstanceResult) (k : ℕ)
    (left : List (Str × ℕ)) : Prop where
  during : During (Busy state t) n k
  ids : left.map Prod.snd = ids
  kept : ∀ entry ∈ left, Kept state t n entry.1 entry.2
  nodup : (results.map (·.name) ++ left.map Prod.fst).Nodup
  named : ∀ name, name ∈ results.map (·.name) ++ left.map Prod.fst ↔
    (state k).shared.servers.named name ≠ none
  entries : ∀ result ∈ results, ∃ j, During (Busy state t) n j ∧
    (state j).shared.servers.Says result

/-- What a task that has come so far knows of the time since it has its request. -/
structure Knows (t : ι) (n : ℕ) : Prop where
  found : ∀ name id, ((state n).threads t).found = some (name, id) → Kept state t n name id
  done : ∀ name id failure, (state n).threads t = .stop name (.done id failure) →
    ∃ k, Removed state t n name id k
  missing : ∀ name, (state n).threads t = .stop name .notFound →
    ∃ k, During (Busy state t) n k ∧ (state k).shared.servers.named name = none
  existing : ∀ request id, (state n).threads t = .existing request id →
    (state n).shared.phase = .running ∧ (state n).shared.instances request.name = some id
  resolving : ∀ request id, (state n).threads t = .resolving request id →
    ∃ k, During (Busy state t) n k ∧ ∃ i,
      (state k).shared.servers.named request.name = some i ∧ i.stopping = false
  listing : ∀ ids results, (state n).threads t = .listing ids results →
    ∃ k left, Listing state t n ids results k left

variable {state} {n : ℕ}

omit [DecidableEq ι] in
theorem busy_of_thread (here : (state n).threads t = thread) (ne : thread ≠ .idle) :
    Busy state t n :=
  fun idle => ne (here.symm.trans idle)

theorem Removed.succ {k : ℕ} (sup : Supervised (state n)) (h : Removed state t n name id k)
    (step : WorldStep lib debug (state n) a (state (n + 1))) (busy : Busy state t (n + 1)) :
    Removed state t (n + 1) name id k where
  during := h.during.succ busy
  known := h.known.evolves (sup.evolves_all step)
  stopping := (sup.evolves_all step).stopping id h.known.1 h.stopping
  named := by rw [sup.frozen step h.known.1 h.stopping, h.named]
  taken := h.taken

theorem Kept.succ (sup : Supervised (state n)) (h : Kept state t n name id)
    (step : WorldStep lib debug (state n) a (state (n + 1))) (busy : Busy state t (n + 1)) :
    Kept state t (n + 1) name id := by
  rcases h with mapped | ⟨k, removed⟩
  · by_cases still : (state (n + 1)).shared.instances name = some id
    · exact .inl still
    · obtain ⟨stopping, taken⟩ := sup.removed step mapped still
      have known := sup.sound.mapped name id mapped
      have evolves := sup.evolves_all step
      exact .inr ⟨n, {
        during := (during_now _ n).succ busy
        known := known.evolves evolves
        stopping := evolves.stopping id known.1 stopping
        named := by rw [named_some mapped, sup.frozen step known.1 stopping]
        taken }⟩
  · exact .inr ⟨k, removed.succ sup step busy⟩

omit [DecidableEq ι] in
theorem Kept.known (sup : Supervised (state n)) (h : Kept state t n name id) :
    (state n).shared.Named id name := by
  rcases h with mapped | ⟨k, removed⟩
  · exact sup.sound.mapped name id mapped
  · exact removed.known

omit [DecidableEq ι] in
/-- The register has had the server as the instance is now. -/
theorem Kept.named (h : Kept state t n name id) : ∃ k, During (Busy state t) n k ∧
    (state k).shared.servers.named name = some ((state n).shared.table id).server := by
  rcases h with mapped | ⟨k, removed⟩
  · exact ⟨n, during_now _ n, named_some mapped⟩
  · exact ⟨k, removed.during, removed.named⟩

theorem Listing.succ {ids : List ℕ} {results : List InstanceResult} {k : ℕ}
    {left : List (Str × ℕ)} (sup : Supervised (state n)) (h : Listing state t n ids results k left)
    (step : WorldStep lib debug (state n) a (state (n + 1))) (busy : Busy state t (n + 1)) :
    Listing state t (n + 1) ids results k left :=
  { h with
    during := h.during.succ busy
    kept := fun entry member => (h.kept entry member).succ sup step busy
    entries := fun result member =>
      let ⟨j, during, there⟩ := h.entries result member
      ⟨j, during.succ busy, there⟩ }

omit [DecidableEq ι] in
/-- The list begins with all servers of the register left. -/
theorem Listing.start {ids : List ℕ} (sup : Supervised (state n)) (nodup : ids.Nodup)
    (all : ∀ id, id ∈ ids ↔ ∃ name, (state n).shared.instances name = some id) :
    Listing state t n ids [] n (ids.map fun id => (((state n).shared.table id).name, id)) := by
  have mapped : ∀ id ∈ ids,
      (state n).shared.instances ((state n).shared.table id).name = some id := by
    intro id member
    obtain ⟨name, mapped⟩ := (all id).mp member
    rwa [(sup.sound.mapped name id mapped).2]
  refine ⟨during_now _ n, by simp [Function.comp_def], ?_, ?_, fun name => ?_, by simp⟩
  · intro entry member
    obtain ⟨id, there, rfl⟩ := List.mem_map.mp member
    exact .inl (mapped id there)
  · rw [List.map_nil, List.nil_append, List.map_map]
    refine nodup.map_on fun id there id' there' same => ?_
    have same : ((state n).shared.table id).name = ((state n).shared.table id').name := same
    exact Option.some.inj ((mapped id there).symm.trans (same ▸ mapped id' there'))
  · rw [List.map_nil, List.nil_append, List.map_map, List.mem_map]
    constructor
    · rintro ⟨id, there, rfl⟩
      have found := named_some (mapped id there)
      exact fun none_ => nomatch found.symm.trans none_
    · intro some_
      cases hn : (state n).shared.instances name with
      | none => exact absurd (named_none hn) some_
      | some id => exact ⟨id, (all id).mpr ⟨name, hn⟩, (sup.sound.mapped name id hn).2⟩

omit [DecidableEq ι] in
/-- The state of the next server is read. -/
theorem Listing.next {ids : List ℕ} {results : List InstanceResult} {k : ℕ}
    {left : List (Str × ℕ)} (sup : Supervised (state n))
    (h : Listing state t n (id :: ids) results k left) :
    ∃ left', Listing state t n ids (results ++ [instanceResult ((state n).shared.table id)
      ((state n).shared.table id).state]) k left' := by
  obtain ⟨⟨name, id⟩, left, rfl, rfl, rfl⟩ := List.map_eq_cons_iff.mp h.ids
  obtain ⟨kept, others⟩ := List.forall_mem_cons.mp h.kept
  have known : ((state n).shared.table id).name = name := (kept.known sup).2
  refine ⟨left, h.during, rfl, others, ?_, ?_, ?_⟩
  · simpa [instanceResult, known] using h.nodup
  · simpa [instanceResult, known] using h.named
  · intro result member
    rcases List.mem_append.mp member with before | new
    · exact h.entries result before
    · obtain rfl := List.mem_singleton.mp new
      obtain ⟨j, during, named⟩ := kept.named
      refine ⟨j, during, _, ?_, instanceResult_eq _⟩
      rwa [← known] at named

omit [DecidableEq ι] in
/-- The list is sorted. -/
theorem Listing.lists {results : List InstanceResult} {k : ℕ} {left : List (Str × ℕ)}
    (h : Listing state t n [] results k left) :
    (state k).shared.servers.Lists (results.mergeSort instanceLe) := by
  have none_ : left = [] := List.map_eq_nil_iff.mp h.ids
  have perm := (List.mergeSort_perm results instanceLe).map (·.name)
  have nodup : (results.map (·.name)).Nodup := by simpa [none_] using h.nodup
  constructor
  · have le : (results.mergeSort instanceLe).Pairwise (·.name ≤ ·.name) :=
      SortedBy.pairwise_mergeSort (fun _ _ => decide_eq_true_iff) results
    have ne : (results.mergeSort instanceLe).Pairwise (·.name ≠ ·.name) :=
      List.pairwise_map.mp (perm.nodup_iff.mpr nodup)
    exact (le.and ne).imp fun both => lt_of_le_of_ne both.1 both.2
  · intro name
    rw [perm.mem_iff, ← h.named name, none_, List.map_nil, List.append_nil]

omit [DecidableEq ι] in
theorem Knows.of_new (h : (state n).threads t = .serving ∨ (state n).threads t = .idle) :
    Knows state t n := by
  rcases h with h | h <;> constructor <;> rw [h] <;> exact nofun

/-- A step of other tasks leaves what a task knows as it is. -/
theorem Knows.other (sup : Supervised (state n)) (h : Knows state t n)
    (step : WorldStep lib debug (state n) a (state (n + 1))) (other : a ≠ some t)
    (same : (state (n + 1)).threads t = (state n).threads t) : Knows state t (n + 1) := by
  have busy : ∀ {thread : Thread ρ}, (state n).threads t = thread → thread ≠ .idle →
      Busy state t (n + 1) := fun here => busy_of_thread (same.trans here)
  constructor
  · intro name id found
    rw [same] at found
    refine (h.found name id found).succ sup step fun idle => ?_
    rw [← same, idle] at found
    exact nomatch found
  · intro name id failure here
    rw [same] at here
    obtain ⟨k, removed⟩ := h.done name id failure here
    exact ⟨k, removed.succ sup step (busy here nofun)⟩
  · intro name here
    rw [same] at here
    obtain ⟨k, during, none_⟩ := h.missing name here
    exact ⟨k, during.succ (busy here nofun), none_⟩
  · intro request id here
    rw [same] at here
    obtain ⟨phase, instances⟩ := (sup.evolves step other).daemon (by rw [here]; rfl)
    rw [phase, instances]
    exact h.existing request id here
  · intro request id here
    rw [same] at here
    obtain ⟨k, during, running⟩ := h.resolving request id here
    exact ⟨k, during.succ (busy here nofun), running⟩
  · intro ids results here
    rw [same] at here
    obtain ⟨k, left, listing⟩ := h.listing ids results here
    exact ⟨k, left, listing.succ sup step (busy here nofun)⟩

/-- What a task gets to know by its own step. -/
theorem Knows.own (sup : Supervised (state n)) (sup' : Supervised (state (n + 1)))
    (h : Knows state t n) (world : WorldStep lib debug (state n) a (state (n + 1)))
    (step : Step lib debug ((state n).Free t) (state n).shared ((state n).threads t)
      (state (n + 1)).shared ((state (n + 1)).threads t)) : Knows state t (n + 1) := by
  have learned := step.learned
  have kept : ∀ name id, ((state n).threads t).found = some (name, id) →
      Busy state t (n + 1) → Kept state t (n + 1) name id := fun name id found busy =>
    (h.found name id found).succ sup world busy
  constructor
  · intro name id found
    rcases step.of_found found with before | mapped
    · refine kept name id before fun idle => ?_
      rw [idle] at found
      exact nomatch found
    · exact .inl mapped
  · intro name id failure here
    have fits := sup'.fits t
    rw [here] at learned fits
    have busy : Busy state t (n + 1) := busy_of_thread here nofun
    exact (kept name id learned busy).resolve_left fits.2.2
  · intro name here
    rw [here] at learned
    have busy : Busy state t (n + 1) := busy_of_thread here nofun
    exact ⟨n, (during_now _ n).succ busy, named_none learned⟩
  · intro request id here
    rw [here] at learned
    exact learned
  · intro request id here
    rw [here] at learned
    obtain ⟨before, running⟩ := learned
    have busy : Busy state t (n + 1) := busy_of_thread here nofun
    have fits := sup.fits t
    rw [before] at fits
    have mapped := sup.sound.mapped_of_running fits running
    exact ⟨n, (during_now _ n).succ busy, _, named_some mapped, server_running running⟩
  · intro ids results here
    rw [here] at learned
    have busy : Busy state t (n + 1) := busy_of_thread here nofun
    rcases learned with ⟨rfl, nodup, all⟩ | ⟨id, before, thread, rfl⟩
    · exact ⟨n, _, (Listing.start sup nodup all).succ sup world busy⟩
    · obtain ⟨k, left, listing⟩ := h.listing _ before thread
      obtain ⟨left', listing⟩ := listing.next sup
      exact ⟨k, left', listing.succ sup world busy⟩

/-- How the answer to a request comes from the register of servers. -/
inductive Explained (lib : UriParser) (debug : Str → Str) (state : ℕ → World ι ρ) (t : ι) (n : ℕ) :
    Request → Answer ρ → Prop
  | read {k request answer} (during : During (Busy state t) n k)
      (reads : (state k).shared.servers.Reads lib debug request answer) :
      Explained lib debug state t n request answer
  | done {k request answer} (during : During (Busy state t) n k)
      (does : (state k).shared.servers.Does request answer (state (k + 1)).shared.servers) :
      Explained lib debug state t n request answer
  /-- The servers are those of one moment, and each entry is true at a moment of its own. -/
  | listed {k results} (during : During (Busy state t) n k)
      (lists : (state k).shared.servers.Lists results)
      (entries : ∀ result ∈ results, ∃ j, During (Busy state t) n j ∧
        (state j).shared.servers.Says result) :
      Explained lib debug state t n .list (.ok (.servers results))
  /-- The agent is not found or cannot be run. -/
  | unresolved {k request id i error} (during : During (Busy state t) n k)
      (there : (state k).shared.servers.named request.name = some i) (running : i.stopping = false)
      (resolving : (state n).threads t = .resolving request id) :
      Explained lib debug state t n (.register request) (.error error)

section Answers

variable {state : ℕ → World ι ρ} {n : ℕ} {request : Request} {answer : Answer ρ}

theorem Thread.enter_answered {request' : Request}
    (h : (Thread.enter lib request : Thread ρ) = .answered request' answer)
    (s : Servers ρ) : s.Reads lib debug request' answer := by
  cases request with
  | health =>
    obtain ⟨rfl, rfl⟩ := Thread.answered.inj h
    exact .health
  | createInstance request | register request | unregister request =>
    simp only [Thread.enter, Thread.checked] at h
    split at h
    · simp at h
    · next failed =>
      obtain ⟨rfl, rfl⟩ := Thread.answered.inj h
      exact .invalid failed
  | stopInstance | list | status | registrations | shutdown => simp [Thread.enter] at h

/-- The answer for a name that is taken. -/
theorem reads_existing {s : Shared ρ} {request : CreateInstanceRequest}
    (open_ : s.phase = .running) (mapped : s.instances request.name = some id)
    (named : (s.table id).name = request.name) :
    s.servers.Reads lib debug (.createInstance request)
      ((existingOutcome debug request (s.table id)).map fun _ =>
        .server (instanceResult (s.table id) (s.table id).state)) := by
  rw [existingOutcome, instanceResult_eq, named]
  split_ifs with state same
  · exact .ending (servers_open open_) (named_some mapped) (server_stopping state)
  · exact .reused (servers_open open_) (named_some mapped) (server_running (not_not.mp state)) same
  · exact .conflict (servers_open open_) (named_some mapped) (server_running (not_not.mp state)) same

omit [DecidableEq ι] in
theorem Step.explained (sup : Supervised (state n)) (knows : Knows state t n)
    (carries : ((state n).threads t).Carries)
    (step : Step lib debug ((state n).Free t) (state n).shared ((state n).threads t)
      (state (n + 1)).shared ((state (n + 1)).threads t))
    (answered : (state (n + 1)).threads t = .answered request answer) :
    Explained lib debug state t n request answer := by
  have fits := sup.fits t
  have sound := sup.sound
  have now : (state n).shared.servers.Reads lib debug request answer →
      Explained lib debug state t n request answer := .read (during_now _ n)
  have does : (state n).shared.servers.Does request answer (state (n + 1)).shared.servers →
      Explained lib debug state t n request answer := .done (during_now _ n)
  have kept : ∀ {name id}, ((state n).threads t).found = some (name, id) →
      ((state n).shared.table id).name = name ∧ ∃ k, During (Busy state t) n k ∧
        (state k).shared.servers.named name = some ((state n).shared.table id).server :=
    fun found => ⟨((knows.found _ _ found).known sup).2, (knows.found _ _ found).named⟩
  have stopping : ∀ {name id}, ((state n).threads t).found = some (name, id) →
      ((state n).shared.table id).state ≠ .running →
      ∀ request', Servers.changes request' = some name →
      Explained lib debug state t n request' (.error (isStopping name)) := by
    intro name id found state_ request' changes
    obtain ⟨-, k, during, named⟩ := kept found
    exact .read during (.stopping changes named (server_stopping state_))
  generalize hthread : (state n).threads t = thread at step fits carries stopping kept
  generalize hs : (state n).shared = s at step fits sound now does stopping kept
  generalize hs' : (state (n + 1)).shared = s' at step does
  rw [answered] at step
  generalize hth : Thread.answered request answer = thread' at step
  cases step with
  | receive received =>
    split_ifs at hth with mutation
    · exact now (Thread.enter_answered hth.symm _)
  | gateOpen => exact now (Thread.enter_answered hth.symm _)
  | gateShut lock shut =>
    cases hth
    exact now (.closing carries (servers_closing.mpr (phase_of_ne shut)))
  | createShut lock shut =>
    cases hth
    exact now (.closing rfl (servers_closing.mpr (phase_of_ne shut)))
  | existing lock =>
    cases hth
    obtain ⟨open_, mapped⟩ := knows.existing _ _ hthread
    rw [hs] at open_ mapped
    exact now (reads_existing open_ mapped (sound.mapped _ _ mapped).2)
  | bindFails error =>
    cases hth
    exact now (.bindFails (servers_open fits.1) (named_none fits.2) error)
  | addressFails error =>
    cases hth
    exact now (.addressFails (servers_open fits.1) (named_none fits.2) error)
  | insert =>
    cases hth
    obtain ⟨address, rfl⟩ := carries
    refine does ?_
    rw [servers_insert sound]
    exact .created address (servers_open fits.1) (named_none fits.2.1) rfl
  | stopMissing =>
    cases hth
    obtain ⟨k, during, none_⟩ := knows.missing _ hthread
    exact .read during (.missing rfl none_)
  | stopDone =>
    cases hth
    obtain ⟨k, removed⟩ := knows.done _ _ _ hthread
    refine .done removed.during ?_
    rw [removed.taken]
    refine .stopped removed.named (server_stopping ?_) _
    rw [removed.stopping]
    decide
  | registerMissing lock none_ | unregisterMissing lock none_ | statusMissing lock none_
  | registrationsMissing lock none_ =>
    cases hth
    exact now (.missing rfl (named_none none_))
  | firstStopping lock state_ =>
    cases hth
    rw [fits.2]
    exact stopping rfl state_ _ rfl
  | resolveFails error =>
    cases hth
    obtain ⟨k, during, i, named, running⟩ := knows.resolving _ _ hthread
    exact .unresolved during named running hthread
  | @changeStopping c id lock state_ =>
    cases hth
    rw [fits.2]
    exact stopping rfl state_ _ (by cases c <;> rfl)
  | @changeShut c id lock shut =>
    cases hth
    exact now (.closing (by cases c <;> rfl) (servers_closing.mpr (phase_of_ne shut)))
  | @rejected c id error refused =>
    cases hth
    obtain ⟨named, running, open_⟩ := fits
    have mapped := sound.mapped_of_running named running
    exact now (.rejected (servers_open open_) (named_some mapped) (server_running running) refused)
  | @applied c id routes applied =>
    cases hth
    obtain ⟨named, running, open_⟩ := fits
    have mapped := sound.mapped_of_running named running
    refine does ?_
    rw [servers_modify sound mapped, named.2]
    exact .changed (servers_open open_) (named_some mapped) (server_running running) applied
  | listed =>
    cases hth
    obtain ⟨k, left, listing⟩ := knows.listing _ _ hthread
    exact .listed listing.during listing.lists fun result member =>
      listing.entries result (List.mem_mergeSort.mp member)
  | statusRead =>
    cases hth
    obtain ⟨name, k, during, named⟩ := kept rfl
    rw [instanceResult_eq, name]
    exact .read during (.status named)
  | registrationsRead =>
    cases hth
    obtain ⟨-, k, during, named⟩ := kept rfl
    exact .read during (.registrations named)
  | shutdown =>
    cases hth
    refine does ?_
    rw [servers_close]
    exact .closed
  | _ => exact nomatch hth

theorem knows_run {label : ℕ → Option ι} {m : ℕ}
    (run : (system lib debug ι ρ).Run m state label) (t : ι) {i : ℕ} (h : i ≤ m) :
    Knows state t i := by
  induction i with
  | zero =>
    obtain ⟨-, -, -, main, hmain, idle⟩ := run.init
    by_cases ht : t = main
    · exact .of_new (.inl (ht ▸ hmain))
    · exact .of_new (.inr (idle t ht))
  | succ i ih =>
    have step : WorldStep lib debug (state i) (label i) (state (i + 1)) := run.step i (by omega)
    have sup := supervised_reachable (run.reachable (i := i) (by omega))
    have sup' := supervised_reachable (run.reachable h)
    rcases step.task t with ⟨other, same⟩ | ⟨-, own⟩
    · exact (ih (by omega)).other sup step other same
    · exact (ih (by omega)).own sup sup' step own

/-- In every run, whatever a request is answered was the answer of the register of servers at some
moment while it was handled; what the request has changed was changed at that moment.  A list has
the servers of one such moment, and says of each what was true at one. -/
theorem answers_explained {m : ℕ} {label : ℕ → Option ι}
    (run : (system lib debug ι ρ).Run m state label) {n : ℕ} (h : n < m) {t : ι}
    (acts : label n = some t) {request : Request} {answer : Answer ρ}
    (answered : (state (n + 1)).threads t = .answered request answer) :
    Explained lib debug state t n request answer := by
  have step : WorldStep lib debug (state n) (label n) (state (n + 1)) := run.step n h
  have reachable := run.reachable (i := n) (by omega)
  rcases step.task t with ⟨other, -⟩ | ⟨-, own⟩
  · exact absurd acts other
  · exact own.explained (supervised_reachable reachable) (knows_run run t (by omega))
      (carries_reachable reachable t) answered

end Answers

end History

/-! ### An example -/

/-- The world after the creation, with a request that another task has received. -/
def received (thread : Thread Unit) : World (Option Bool) Unit :=
  ⟨empty.insert workInstance, Function.update created (some true) thread⟩

theorem created_quiet (t : Option Bool) (l : Lock) : ¬(created t).Holds l := by
  rcases t with _ | _ | _ <;> exact id

theorem received_free (thread : Thread Unit) (l : Lock) :
    (received thread).Free (some true) l := by
  intro u other
  have same : (received thread).threads u = created u := Function.update_of_ne other ..
  rw [same]
  exact created_quiet u l

theorem reachable_received : (system plainUri id (Option Bool) Unit).Reachable (received .idle) := by
  have same : Function.update created (some true) .idle = created :=
    Function.update_eq_self (some true) created
  rw [received, same]
  exact reachable_created

theorem answers_explained_reuse : ∃ (state : ℕ → World (Option Bool) Unit) (n : ℕ),
    Explained plainUri id state (some true) n (.createInstance workRequest)
      (.ok (.server (instanceResult workInstance .running))) := by
  have h1 := reachable_alone created_quiet reachable_received fun _ _ =>
    .receive (.createInstance workRequest)
  have h2 := reachable_alone created_quiet h1 fun _ free => .gateOpen (free _) rfl
  have h3 : (system plainUri id (Option Bool) Unit).Reachable (received (.existing workRequest 0)) :=
    reachable_alone created_quiet h2 fun _ free => .createExisting (free _) rfl rfl
  obtain ⟨n, state, label, run, last⟩ := h3.exists_run none
  have step : WorldStep plainUri id (state n) (some (some true)) _ :=
    .thread (by
      rw [last]
      exact .existing (received_free _ _))
  exact ⟨_, n, answers_explained (run.extend step) (Nat.lt_succ_self n) (Function.update_self ..)
    (by simp [last]; rfl)⟩

end AcpAgent.Server.Supervisor
