import AcpAgent.Server.Supervisor
import Mathlib.Data.Prod.Lex

/-! The locks of the daemon do not deadlock: what each task awaits and keeps at each of its awaits,
and the rank that grows along every wait.  A `listener_task` mutex and the lock of the routes are
released before the task that took them awaits anything. -/

namespace AcpAgent.Server.Supervisor

variable {ι ρ : Type*}

inductive Resource
  | daemon
  | stop (id : ℕ)
  | state (id : ℕ)
  | listenerTask (id : ℕ)
  | routes (id : ℕ)
  deriving DecidableEq

def Lock.resource : Lock → Resource
  | .daemon => .daemon
  | .stop id => .stop id
  | .state id => .state id

def StopPc.awaits : StopPc → Option Resource
  | .lookup | .daemon _ _ => some .daemon
  | .stopLock id => some (.stop id)
  | .state id => some (.state id)
  | .task id => some (.listenerTask id)
  | .notFound | .join _ | .done _ _ => none

/-- The lock that a task waits for.  The `listener_task` mutex of an instance that is being created
is known to no other task. -/
def Thread.awaits : Thread ρ → Option Resource
  | .gate _ | .create _ | .register _ | .unregister _ | .list | .status _ | .registrations _
  | .shutdown | .signalled | .closing | .snapshot | .change _ _ .daemon => some .daemon
  | .existing _ id | .firstCheck _ id | .change _ id .state | .listing (id :: _) _
  | .statusOf _ id | .dispatch id => some (.state id)
  | .change _ id .stopLock => some (.stop id)
  | .change _ id .routes | .registrationsOf _ id | .routing id => some (.routes id)
  | .stop _ pc | .sweeping _ _ pc => pc.awaits
  | .idle | .answered _ _ | .bind _ | .spawned _ _ | .resolving _ _ | .listing [] _ | .serving
  | .sweep _ | .removing => none

/-- The locks that a task keeps while it waits. -/
def Thread.Keeps (r : Resource) (thread : Thread ρ) : Prop := ∃ l, thread.Holds l ∧ l.resource = r

/-- The listener that a task waits for. -/
def StopPc.joins : StopPc → Option ℕ
  | .join id => some id
  | _ => none

def Thread.joins : Thread ρ → Option ℕ
  | .stop _ pc | .sweeping _ _ pc => pc.joins
  | _ => none

/-- The listener that a public request came in by, up to where its route is known. -/
def Thread.servedBy : Thread ρ → Option ℕ
  | .dispatch id | .routing id => some id
  | _ => none

/-- What waits: the tasks, and the listeners, by the numbers of their instances. -/
inductive Party (ι : Type*)
  | task (t : ι)
  | listener (id : ℕ)

/-- Who waits for whom.  Tasks that await one lock get it in the order in which they came. -/
inductive World.Waits (w : World ι ρ) (arrival : ι → ℕ) : Party ι → Party ι → Prop
  | held {t u r} (awaits : (w.threads t).awaits = some r) (keeps : (w.threads u).Keeps r) :
      Waits w arrival (.task t) (.task u)
  | queued {t u r} (awaits : (w.threads t).awaits = some r)
      (awaits' : (w.threads u).awaits = some r) (h : arrival u < arrival t) :
      Waits w arrival (.task t) (.task u)
  | joined {t id} (h : (w.threads t).joins = some id) : Waits w arrival (.task t) (.listener id)
  | served {u id} (h : (w.threads u).servedBy = some id) : Waits w arrival (.listener id) (.task u)

def Resource.rank : Resource → ℕ
  | .stop _ => 0
  | .daemon => 3
  | .state _ => 4
  | .listenerTask _ | .routes _ => 5

def Thread.rank (thread : Thread ρ) : ℕ :=
  match thread.awaits, thread.joins with
  | some r, _ => r.rank
  | none, some _ => 1
  | none, none => 6

theorem StopPc.rank_of_holds {pc : StopPc} {l : Lock} (h : pc.Holds l) (name : Str) :
    l.resource.rank < (Thread.stop name pc : Thread ρ).rank := by
  cases pc with
  | state | task | join | daemon =>
    obtain rfl := h
    simp only [Thread.rank, Thread.awaits, Thread.joins, StopPc.awaits, StopPc.joins, Lock.resource,
      Resource.rank]
    omega
  | _ => exact h.elim

/-- Whoever keeps a lock awaits only locks of a higher rank, and a listener only while it keeps
nothing but a `stop_lock`. -/
theorem Thread.rank_of_keeps {thread : Thread ρ} {r : Resource} (h : thread.Keeps r) :
    r.rank < thread.rank := by
  obtain ⟨l, holds, rfl⟩ := h
  cases thread with
  | existing | bind | spawned | routing =>
    obtain rfl := holds
    simp only [Thread.rank, Thread.awaits, Thread.joins, Lock.resource, Resource.rank]
    omega
  | stop name pc => exact StopPc.rank_of_holds (ρ := ρ) holds name
  | sweeping name names pc => exact StopPc.rank_of_holds (ρ := ρ) holds name
  | change c id pc =>
    cases pc with
    | stopLock => exact holds.elim
    | state | daemon =>
      obtain rfl := holds
      simp only [Thread.rank, Thread.awaits, Lock.resource, Resource.rank]
      omega
    | routes =>
      rcases holds with rfl | rfl <;>
      · simp only [Thread.rank, Thread.awaits, Lock.resource, Resource.rank]
        omega
  | _ => exact holds.elim

/-- A task that awaits a lock takes no step before the lock is free. -/
theorem StopStep.free_of_awaits {free : Lock → Prop} {name : Str} {s s' : Shared ρ}
    {pc pc' : StopPc} {l : Lock} (step : StopStep free name s pc s' pc')
    (h : pc.awaits = some l.resource) : free l := by
  cases step <;> cases l <;> simp_all [StopPc.awaits, Lock.resource]

theorem Step.free_of_awaits {lib : Routes.UriParser} {debug : Str → Str} {free : Lock → Prop}
    {s s' : Shared ρ} {thread thread' : Thread ρ} {l : Lock}
    (step : Step lib debug free s thread s' thread') (h : thread.awaits = some l.resource) :
    free l := by
  cases step with
  | stop step | sweepStep step => exact step.free_of_awaits h
  | _ => cases l <;> simp_all [Thread.awaits, StopPc.awaits, Lock.resource]

def World.rank (w : World ι ρ) (arrival : ι → ℕ) : Party ι → ℕ ×ₗ ℕᵒᵈ
  | .task t => toLex ((w.threads t).rank, OrderDual.toDual (arrival t))
  | .listener _ => toLex (2, OrderDual.toDual 0)

theorem World.Waits.rank_lt {w : World ι ρ} {arrival : ι → ℕ} {p q : Party ι}
    (h : w.Waits arrival p q) : w.rank arrival p < w.rank arrival q := by
  cases h with
  | @held t u r awaits keeps =>
    have own : (w.threads t).rank = r.rank := by rw [Thread.rank, awaits]
    exact Prod.Lex.toLex_lt_toLex.mpr (.inl (by rw [own]; exact Thread.rank_of_keeps keeps))
  | @queued t u r awaits awaits' earlier =>
    have own : (w.threads t).rank = r.rank := by rw [Thread.rank, awaits]
    have other : (w.threads u).rank = r.rank := by rw [Thread.rank, awaits']
    exact Prod.Lex.toLex_lt_toLex.mpr (.inr ⟨own.trans other.symm, earlier⟩)
  | @joined t id h =>
    refine Prod.Lex.toLex_lt_toLex.mpr (.inl ?_)
    generalize w.threads t = thread at h ⊢
    have after : ∀ pc : StopPc, pc.joins = some id → pc = .join id := by
      intro pc joins
      cases pc <;> simp [StopPc.joins] at joins
      rw [joins]
    cases thread with
    | stop name pc | sweeping name names pc =>
      obtain rfl := after pc h
      simp [Thread.rank, Thread.awaits, Thread.joins, StopPc.awaits, StopPc.joins]
    | _ => simp [Thread.joins] at h
  | @served u id h =>
    refine Prod.Lex.toLex_lt_toLex.mpr (.inl ?_)
    generalize w.threads u = thread at h ⊢
    unfold Thread.servedBy at h
    split at h
    · simp [Thread.rank, Thread.awaits, Resource.rank]
    · simp [Thread.rank, Thread.awaits, Resource.rank]
    · simp at h

/-- In no state of the daemon do tasks and listeners wait for each other in a cycle. -/
theorem no_cycle_of_waits (w : World ι ρ) (arrival : ι → ℕ) (p : Party ι) :
    ¬Relation.TransGen (w.Waits arrival) p p :=
  Locks.acyclic_of_rank (w.rank arrival) (fun _ _ => World.Waits.rank_lt) p

end AcpAgent.Server.Supervisor
