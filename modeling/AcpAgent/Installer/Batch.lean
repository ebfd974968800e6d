import AcpAgent.Lib.Str
import AcpAgent.Lib.Transition
import Mathlib.Data.List.Perm.Basic
import Mathlib.Logic.Relation

/-! The batch commands: `run_concurrently` of `installer/lifecycle.rs` runs an operation for each
distinct agent, a few at a time, and `report_batch_outcome` of `commands/mod.rs` prints what came of
them. -/

namespace AcpAgent.Installer.Batch

variable {τ : Type*}

/-- The payload of a panic. -/
inductive Payload
  | string (message : Str)
  | literal (message : Str)
  | other

/-- How a future ends.  Errors are their texts. -/
inductive Outcome (τ : Type*)
  | ok (value : τ)
  | err (error : Str)
  | panic (payload : Payload)

/-- What a call of the operation gives: its future, unless it panics before there is one. -/
inductive Call (τ : Type*)
  | future (outcome : Outcome τ)
  | panics

def Payload.message : Payload → Str
  | string message | literal message => message
  | other => str "unknown panic"

/-- `catch_unwind`, and the result that its caller makes of a panic. -/
def catchUnwind (id : Str) : Outcome τ → Except Str τ
  | .ok value => .ok value
  | .err error => .error error
  | .panic payload =>
    .error (str "operation for agent \"" ++ id ++ str "\" panicked: " ++ payload.message)

/-- `OPERATION_CONCURRENCY`. -/
def operationConcurrency : ℕ := 4

/-- The filter of the ids, with those that it has seen. -/
def distinct (seen : List Str) : List Str → List Str
  | [] => []
  | id :: ids => if seen.contains id then distinct seen ids else id :: distinct (id :: seen) ids

/-- A block of the stream; the operation is called when it is first polled. -/
inductive Block (τ : Type*)
  | created
  | polled (outcome : Outcome τ)

/-- The stream with its buffer, the results in the order in which they came, and the calls made. -/
structure State (τ : Type*) where
  waiting : List Str
  running : List (Str × Block τ)
  results : List (Str × Except Str τ)
  calls : List Str
  aborted : Bool

def State.start (agentIds : List Str) : State τ := ⟨distinct [] agentIds, [], [], [], false⟩

def State.finished (s : State τ) : Prop := s.waiting = [] ∧ s.running = [] ∧ s.aborted = false

inductive Step (operation : Str → Call τ) : State τ → Unit → State τ → Prop
  | create {s id rest} (live : s.aborted = false) (next : s.waiting = id :: rest)
      (room : s.running.length < operationConcurrency) :
      Step operation s ()
        { s with waiting := rest, running := s.running ++ [(id, .created)] }
  | poll {s id before after outcome} (live : s.aborted = false)
      (block : s.running = before ++ (id, .created) :: after)
      (call : operation id = .future outcome) :
      Step operation s ()
        { s with running := before ++ (id, .polled outcome) :: after, calls := s.calls ++ [id] }
  /-- A call that panics is not caught. -/
  | abort {s id before after} (live : s.aborted = false)
      (block : s.running = before ++ (id, .created) :: after) (call : operation id = .panics) :
      Step operation s () { s with calls := s.calls ++ [id], aborted := true }
  | complete {s id before after outcome} (live : s.aborted = false)
      (block : s.running = before ++ (id, .polled outcome) :: after) :
      Step operation s ()
        { s with running := before ++ after
                 results := s.results ++ [(id, catchUnwind id outcome)] }

def system (agentIds : List Str) (operation : Str → Call τ) : Transition.System (State τ) Unit where
  init s := s = .start agentIds
  step := Step operation

abbrev ResultMap (τ : Type*) := Str → Option (Except Str τ)

def ResultMap.insert (map : ResultMap τ) (result : Str × Except Str τ) : ResultMap τ :=
  Function.update map result.1 (some result.2)

/-- The `HashMap` of the results. -/
def resultsById (results : List (Str × Except Str τ)) : ResultMap τ :=
  results.foldl .insert fun _ => none

/-- The results by the ids, each removed from the map; none if the `expect` panics. -/
def regroup (map : ResultMap τ) : List Str → Option (List (Str × Except Str τ))
  | [] => some []
  | id :: ids =>
    match map id with
    | none => none
    | some result => (regroup (Function.update map id none) ids).map ((id, result) :: ·)

/-- What `run_concurrently` returns once its stream has ended. -/
def State.output (s : State τ) (agentIds : List Str) : Option (List (Str × Except Str τ)) :=
  regroup (resultsById s.results) (distinct [] agentIds)

inductive CliExit
  | success
  | code (code : ℤ)
  deriving DecidableEq

/-- A line of `report_batch_outcome` for an operation that failed. -/
def failureLine (action : Str) (outcome : Str × Except Str τ) : Str :=
  match outcome.2 with
  | .ok _ => []
  | .error error => str "failed to " ++ action ++ str " agent \"" ++ outcome.1 ++ str "\": " ++
      error ++ str "\n"

def successLine (render : τ → Str) (outcome : Str × Except Str τ) : Str :=
  match outcome.2 with
  | .ok value => render value ++ str "\n"
  | .error _ => []

/-- What is printed, and the exit. -/
def reportBatchOutcome (outcomes : List (Str × Except Str τ)) (action : Str) (render : τ → Str) :
    Str × CliExit :=
  if outcomes.all (·.2.isOk) then (outcomes.flatMap (successLine render), .success)
  else (outcomes.flatMap (failureLine action), .code 1)

/-! ### The callers -/

section Callers

variable {ρ π : Type*}

/-- The operation of a batch that cannot start. -/
def failEach (error : Str) : Str → Call τ := fun _ => .future (.err error)

def installAgents (registry : Except Str ρ) (installFrom : Str → ρ → Outcome τ) : Str → Call τ :=
  match registry with
  | .error error => failEach error
  | .ok registry => fun id => .future (installFrom id registry)

def updateAgents (registry : Except Str ρ) (rootDir : Except Str π)
    (updateFrom : Str → ρ → π → Outcome τ) : Str → Call τ :=
  match registry, rootDir with
  | .error error, _ => failEach error
  | .ok _, .error error => failEach error
  | .ok registry, .ok rootDir => fun id => .future (updateFrom id registry rootDir)

def uninstallAgents (registry : Except Str ρ) (rootDir : Except Str π)
    (uninstallFrom : Str → Except Str ρ → π → Outcome τ) : Str → Call τ :=
  match rootDir with
  | .error error => failEach error
  | .ok rootDir => fun id => .future (uninstallFrom id registry rootDir)

end Callers

/-- Every call of the operation gives its future. -/
def Builds (agentIds : List Str) (operation : Str → Call τ) (outcome : Str → Outcome τ) : Prop :=
  ∀ id ∈ agentIds, operation id = .future (outcome id)

/-- The closures of all callers do nothing but build their futures. -/
theorem callers_build {ρ π : Type*} (agentIds : List Str) (registry : Except Str ρ)
    (rootDir : Except Str π) (installFrom : Str → ρ → Outcome τ)
    (updateFrom : Str → ρ → π → Outcome τ) (uninstallFrom : Str → Except Str ρ → π → Outcome τ) :
    (∃ outcome, Builds agentIds (installAgents registry installFrom) outcome) ∧
      (∃ outcome, Builds agentIds (updateAgents registry rootDir updateFrom) outcome) ∧
      ∃ outcome, Builds agentIds (uninstallAgents registry rootDir uninstallFrom) outcome := by
  refine ⟨?_, ?_, ?_⟩
  · cases registry <;> exact ⟨_, fun _ _ => rfl⟩
  · cases registry <;> cases rootDir <;> exact ⟨_, fun _ _ => rfl⟩
  · cases rootDir <;> exact ⟨_, fun _ _ => rfl⟩

/-! ### The distinct ids -/

theorem mem_distinct {seen ids : List Str} {id : Str} :
    id ∈ distinct seen ids ↔ id ∈ ids ∧ id ∉ seen := by
  fun_induction distinct seen ids with
  | case1 => simp
  | case2 seen first ids found ih =>
    have first_ : first ∈ seen := by simpa using found
    rw [ih, List.mem_cons]
    constructor
    · exact fun ⟨member, fresh⟩ => ⟨.inr member, fresh⟩
    · rintro ⟨rfl | member, fresh⟩
      · exact absurd first_ fresh
      · exact ⟨member, fresh⟩
  | case3 seen first ids fresh ih =>
    have first_ : first ∉ seen := by simpa using fresh
    rw [List.mem_cons, ih, List.mem_cons, List.mem_cons]
    by_cases same : id = first
    · subst same
      simp [first_]
    · simp [same]

/-- The ids come in the order in which they first occur. -/
theorem pairwise_distinct (seen ids : List Str) :
    (distinct seen ids).Pairwise fun a b => ids.idxOf a < ids.idxOf b := by
  fun_induction distinct seen ids with
  | case1 => exact .nil
  | case2 seen first ids found ih =>
    have first_ : first ∈ seen := by simpa using found
    refine ih.imp_of_mem fun {a b} ha hb lt => ?_
    have other : ∀ c ∈ distinct seen ids, first ≠ c := by
      rintro c member rfl
      exact (mem_distinct.mp member).2 first_
    rw [List.idxOf_cons_ne _ (other a ha), List.idxOf_cons_ne _ (other b hb)]
    omega
  | case3 seen first ids fresh ih =>
    have other : ∀ c ∈ distinct (first :: seen) ids, first ≠ c := by
      rintro c member rfl
      exact (mem_distinct.mp member).2 List.mem_cons_self
    rw [List.pairwise_cons]
    refine ⟨fun b hb => ?_, ih.imp_of_mem fun {a b} ha hb lt => ?_⟩
    · rw [List.idxOf_cons_self, List.idxOf_cons_ne _ (other b hb)]
      omega
    · rw [List.idxOf_cons_ne _ (other a ha), List.idxOf_cons_ne _ (other b hb)]
      omega

theorem nodup_distinct (seen ids : List Str) : (distinct seen ids).Nodup :=
  (pairwise_distinct seen ids).imp fun {a b} lt same => by
    subst same
    omega

/-! ### The results by their ids -/

section Regroup

variable {map : ResultMap τ} {results : List (Str × Except Str τ)}

theorem foldl_of_notMem {id : Str} (absent : id ∉ results.map Prod.fst) :
    results.foldl .insert map id = map id := by
  induction results generalizing map with
  | nil => rfl
  | cons result results ih =>
    rw [List.map_cons, List.mem_cons, not_or] at absent
    rw [List.foldl_cons, ih absent.2, ResultMap.insert, Function.update_of_ne absent.1]

/-- With one result for each id, the map has them all. -/
theorem resultsById_of_mem {id : Str} {result : Except Str τ}
    (nodup : (results.map Prod.fst).Nodup) (member : (id, result) ∈ results) :
    resultsById results id = some result := by
  unfold resultsById
  generalize (fun _ => none : ResultMap τ) = map
  induction results generalizing map with
  | nil => simp at member
  | cons first results ih =>
    rw [List.map_cons, List.nodup_cons] at nodup
    rw [List.foldl_cons]
    rcases List.mem_cons.mp member with rfl | member
    · rw [foldl_of_notMem nodup.1, ResultMap.insert, Function.update_self]
    · exact ih nodup.2 member _

/-- The `expect` does not panic while every id has a result. -/
theorem regroup_eq {ids : List Str} {own : Str → Except Str τ} (nodup : ids.Nodup)
    (all : ∀ id ∈ ids, map id = some (own id)) :
    regroup map ids = some (ids.map fun id => (id, own id)) := by
  induction ids generalizing map with
  | nil => rfl
  | cons first ids ih =>
    rw [List.nodup_cons] at nodup
    have rest : ∀ id ∈ ids, Function.update map first none id = some (own id) := by
      intro id member
      have ne : id ≠ first := by
        rintro rfl
        exact nodup.1 member
      rw [Function.update_of_ne ne, all id (List.mem_cons_of_mem _ member)]
    rw [regroup, all first List.mem_cons_self]
    simp only [ih nodup.2 rest, Option.map_some, List.map_cons]

end Regroup

/-! ### The runs -/

def polledId : Str × Block τ → Option Str
  | (id, .polled _) => some id
  | (_, .created) => none

structure Inv (agentIds : List Str) (operation : Str → Call τ) (s : State τ) : Prop where
  ids : (s.waiting ++ s.running.map Prod.fst ++ s.results.map Prod.fst).Perm
    (distinct [] agentIds)
  polled : ∀ id outcome, (id, Block.polled outcome) ∈ s.running → operation id = .future outcome
  own : ∀ id result, (id, result) ∈ s.results →
    ∃ outcome, operation id = .future outcome ∧ result = catchUnwind id outcome
  calls : s.aborted = false →
    s.calls.Perm (s.running.filterMap polledId ++ s.results.map Prod.fst)
  room : s.running.length ≤ operationConcurrency

section Runs

variable {agentIds : List Str} {operation : Str → Call τ} {s t : State τ} {a : Unit}

theorem Inv.start : Inv agentIds operation (.start agentIds) where
  ids := by simp [State.start]
  polled id outcome member := by simp [State.start] at member
  own id result member := by simp [State.start] at member
  calls _ := by simp [State.start]
  room := by simp [State.start]

theorem Inv.step (h : Inv agentIds operation s) (step : Step operation s a t) :
    Inv agentIds operation t := by
  obtain ⟨ids, polled, own, calls, room_⟩ := h
  rw [List.perm_iff_count] at ids
  cases step with
  | @create id rest live next room =>
    refine ⟨List.perm_iff_count.mpr fun x => ?_, ?_, own, fun _ => ?_, ?_⟩
    · have before := ids x
      simp only [next, List.map_append, List.map_cons, List.map_nil, List.count_append,
        List.count_cons, List.count_nil] at before ⊢
      omega
    · intro id' outcome member
      exact polled id' outcome (by simpa using member)
    · have created : polledId (id, (Block.created : Block τ)) = none := rfl
      simpa [List.filterMap_append, created] using calls live
    · rw [List.length_append]
      exact room
  | @poll id before after outcome live block call =>
    refine ⟨List.perm_iff_count.mpr fun x => ?_, ?_, own, fun _ => ?_, ?_⟩
    · simpa [block] using ids x
    · intro id' outcome' member
      rcases List.mem_append.mp member with member | member
      · exact polled id' outcome' (by simp [block, member])
      · rcases List.mem_cons.mp member with same | member
        · obtain ⟨rfl, rfl⟩ : id' = id ∧ outcome' = outcome := by simpa using same
          exact call
        · exact polled id' outcome' (by simp [block, member])
    · have called := List.perm_iff_count.mp (calls live)
      refine List.perm_iff_count.mpr fun x => ?_
      have before := called x
      simp only [block, List.filterMap_append, List.filterMap_cons, polledId, List.count_append,
        List.count_cons, List.count_nil] at before ⊢
      omega
    · simpa [block] using room_
  | @abort id before after live block call =>
    exact ⟨List.perm_iff_count.mpr ids, polled, own, (nomatch ·), room_⟩
  | @complete id before after outcome live block =>
    refine ⟨List.perm_iff_count.mpr fun x => ?_, ?_, ?_, fun _ => ?_, ?_⟩
    · have before := ids x
      simp only [block, List.map_append, List.map_cons, List.map_nil, List.count_append,
        List.count_cons, List.count_nil] at before ⊢
      omega
    · intro id' outcome' member
      apply polled id' outcome'
      rw [block]
      rcases List.mem_append.mp member with member | member <;> simp [member]
    · intro id' result member
      rcases List.mem_append.mp member with member | member
      · exact own id' result member
      · obtain ⟨rfl, rfl⟩ : id' = id ∧ result = catchUnwind id outcome := by simpa using member
        exact ⟨outcome, polled _ _ (by simp [block]), rfl⟩
    · have called := List.perm_iff_count.mp (calls live)
      refine List.perm_iff_count.mpr fun x => ?_
      have before := called x
      simp only [block, List.filterMap_append, List.filterMap_cons, polledId, List.map_append,
        List.map_cons, List.map_nil, List.count_append, List.count_cons,
        List.count_nil] at before ⊢
      omega
    · rw [block, List.length_append, List.length_cons] at room_
      rw [List.length_append]
      omega

theorem inv_of_reachable (h : (system agentIds operation).Reachable s) :
    Inv agentIds operation s :=
  h.invariant (fun _ init => init ▸ .start) fun _ _ _ _ inv step => inv.step step

/-- At most four operations run at a time. -/
theorem running_le (h : (system agentIds operation).Reachable s) :
    s.running.length ≤ operationConcurrency :=
  (inv_of_reachable h).room

variable {outcome : Str → Outcome τ}

theorem mem_agentIds (inv : Inv agentIds operation s) {id : Str}
    (member : id ∈ s.waiting ++ s.running.map Prod.fst ++ s.results.map Prod.fst) :
    id ∈ agentIds :=
  (mem_distinct.mp (inv.ids.subset member)).1

theorem not_aborted (builds : Builds agentIds operation outcome)
    (h : (system agentIds operation).Reachable s) : s.aborted = false := by
  refine h.invariant (I := fun s => s.aborted = false) (fun _ init => init ▸ rfl) ?_
  intro s a t reachable live step
  cases step with
  | create | poll | complete => exact live
  | @abort id before after _ block call =>
    have member : id ∈ agentIds := by
      apply mem_agentIds (inv_of_reachable reachable)
      simp [block]
    rw [builds id member] at call
    exact nomatch call

/-- The steps that are left. -/
def blockRank : Block τ → ℕ
  | .created => 2
  | .polled _ => 1

def State.rank (s : State τ) : ℕ :=
  3 * s.waiting.length + (s.running.map fun block => blockRank block.2).sum +
    (if s.aborted then 0 else 1)

/-- No run goes on for ever. -/
theorem rank_step (step : Step operation s a t) : t.rank < s.rank := by
  cases step with
  | create live next room =>
    simp [State.rank, next, blockRank]
    omega
  | poll live block call =>
    simp [State.rank, block, blockRank]
  | abort live block call =>
    simp [State.rank, live]
  | complete live block =>
    simp [State.rank, block, blockRank]

/-- A batch that has not finished can go on. -/
theorem exists_step (builds : Builds agentIds operation outcome)
    (h : (system agentIds operation).Reachable s) (busy : ¬s.finished) :
    ∃ t, Step operation s () t := by
  have live := not_aborted builds h
  rcases running : s.running with _ | ⟨⟨id, _ | outcome⟩, rest⟩
  · rcases next : s.waiting with _ | ⟨id, rest⟩
    · exact absurd ⟨next, running, live⟩ busy
    · exact ⟨_, .create live next (by simp [running, operationConcurrency])⟩
  · have member : id ∈ agentIds := by
      apply mem_agentIds (inv_of_reachable h)
      simp [running]
    have block : s.running = [] ++ (id, .created) :: rest := running
    exact ⟨_, .poll live block (builds id member)⟩
  · have block : s.running = [] ++ (id, .polled outcome) :: rest := running
    exact ⟨_, .complete live block⟩

def Leads (operation : Str → Call τ) : State τ → State τ → Prop :=
  Relation.ReflTransGen (Step operation · () ·)

theorem reachable_of_leads (h : (system agentIds operation).Reachable s)
    (leads : Leads operation s t) : (system agentIds operation).Reachable t := by
  induction leads with
  | refl => exact h
  | tail _ step ih => exact .step ih step

theorem exists_finished (builds : Builds agentIds operation outcome)
    (h : (system agentIds operation).Reachable s) : ∃ t, Leads operation s t ∧ t.finished := by
  induction rank : s.rank using Nat.strong_induction_on generalizing s with
  | _ n ih =>
    by_cases busy : s.finished
    · exact ⟨s, .refl, busy⟩
    · obtain ⟨t, step⟩ := exists_step builds h busy
      have smaller := rank_step step
      obtain ⟨u, leads, finished⟩ := ih t.rank (by omega) (.step h step) rfl
      exact ⟨u, .head step leads, finished⟩

theorem nodup_calls (inv : Inv agentIds operation s) (live : s.aborted = false) :
    s.calls.Nodup ∧ ∀ id ∈ s.calls, id ∈ agentIds := by
  have sub : (s.running.filterMap polledId).Sublist (s.running.map Prod.fst) := by
    generalize s.running = running
    induction running with
    | nil => exact .slnil
    | cons block running ih =>
      obtain ⟨id, created | outcome⟩ := block
      · exact ih.cons _
      · exact ih.cons_cons _
  have ids := inv.ids.nodup_iff.mpr (nodup_distinct [] agentIds)
  rw [List.append_assoc] at ids
  have called : (s.running.filterMap polledId ++ s.results.map Prod.fst).Nodup :=
    (List.nodup_append.mp ids).2.1.sublist (sub.append_right _)
  refine ⟨(inv.calls live).nodup_iff.mpr called, fun id member => mem_agentIds inv ?_⟩
  have member' := (sub.append_right _).subset ((inv.calls live).subset member)
  rw [List.append_assoc]
  exact List.mem_append_right _ member'

/-- What the run returns depends on no order of its steps. -/
theorem output_of_finished (builds : Builds agentIds operation outcome)
    (inv : Inv agentIds operation s) (finished : s.finished) :
    s.calls.Perm (distinct [] agentIds) ∧
      s.output agentIds =
        some ((distinct [] agentIds).map fun id => (id, catchUnwind id (outcome id))) := by
  obtain ⟨waiting, running, live⟩ := finished
  have ids := inv.ids
  have calls := inv.calls live
  rw [waiting, running] at ids
  rw [running] at calls
  simp only [List.map_nil, List.append_nil, List.nil_append, List.filterMap_nil] at ids calls
  have nodup := nodup_distinct [] agentIds
  refine ⟨calls.trans ids, regroup_eq nodup fun id member => ?_⟩
  obtain ⟨⟨_, result⟩, there, rfl⟩ := List.mem_map.mp (ids.mem_iff.mpr member)
  obtain ⟨outcome', call, rfl⟩ := inv.own _ _ there
  rw [builds _ (mem_distinct.mp member).1] at call
  rw [Call.future.inj call]
  exact resultsById_of_mem (ids.nodup_iff.mpr nodup) there

end Runs

/-! ### The report -/

section Report

variable {ids : List Str} {own : Str → Except Str τ} (action : Str) (render : τ → Str)

theorem report_success {value : Str → τ} (all : ∀ id ∈ ids, own id = .ok (value id)) :
    reportBatchOutcome (ids.map fun id => (id, own id)) action render =
      (ids.flatMap fun id => render (value id) ++ str "\n", .success) := by
  have lines : ids.flatMap (fun id => successLine render (id, own id)) =
      ids.flatMap fun id => render (value id) ++ str "\n" := by
    apply List.flatMap_congr
    intro id member
    rw [all id member]
    rfl
  rw [reportBatchOutcome, if_pos, List.flatMap_map, lines]
  rw [List.all_map, List.all_eq_true]
  intro id member
  rw [Function.comp_apply, all id member]
  rfl

theorem report_failure {id error} (member : id ∈ ids) (failed : own id = .error error) :
    reportBatchOutcome (ids.map fun id => (id, own id)) action render =
      (ids.flatMap fun id => failureLine action (id, own id), .code 1) := by
  rw [reportBatchOutcome, if_neg, List.flatMap_map]
  rw [List.all_map, List.all_eq_true]
  intro all
  have ok := all id member
  rw [Function.comp_apply, failed] at ok
  exact absurd ok (by simp [Except.isOk, Except.toBool])

end Report

/-- The results of a batch depend on no order of completion. -/
theorem batch_results {agentIds : List Str} {operation : Str → Call τ} {outcome : Str → Outcome τ}
    (builds : Builds agentIds operation outcome) {s : State τ}
    (h : (system agentIds operation).Reachable s) :
    -- Until the end: no id is called twice, and the run gets to its end.
    (s.calls.Nodup ∧ (∀ id ∈ s.calls, id ∈ agentIds) ∧ ∃ t, Leads operation s t ∧ t.finished) ∧
    (s.finished →
      s.calls.Perm (distinct [] agentIds) ∧
      s.output agentIds =
        some ((distinct [] agentIds).map fun id => (id, catchUnwind id (outcome id)))) ∧
    ((∀ id, id ∈ distinct [] agentIds ↔ id ∈ agentIds) ∧
      (distinct [] agentIds).Pairwise fun a b => agentIds.idxOf a < agentIds.idxOf b) ∧
    ∀ (action : Str) (render : τ → Str),
      (∀ value : Str → τ, (∀ id ∈ agentIds, catchUnwind id (outcome id) = .ok (value id)) →
        reportBatchOutcome
            ((distinct [] agentIds).map fun id => (id, catchUnwind id (outcome id))) action render =
          ((distinct [] agentIds).flatMap fun id => render (value id) ++ str "\n", .success)) ∧
      ((∃ id ∈ agentIds, ∃ error, catchUnwind id (outcome id) = .error error) →
        reportBatchOutcome
            ((distinct [] agentIds).map fun id => (id, catchUnwind id (outcome id))) action render =
          ((distinct [] agentIds).flatMap fun id =>
            failureLine action (id, catchUnwind id (outcome id)), .code 1)) := by
  have inv := inv_of_reachable h
  have member : ∀ id, id ∈ distinct [] agentIds ↔ id ∈ agentIds := by simp [mem_distinct]
  obtain ⟨nodup, known⟩ := nodup_calls inv (not_aborted builds h)
  refine ⟨⟨nodup, known, exists_finished builds h⟩, output_of_finished builds inv,
    ⟨member, pairwise_distinct [] agentIds⟩, fun action render => ⟨?_, ?_⟩⟩
  · intro value all
    exact report_success action render fun id here => all id ((member id).mp here)
  · rintro ⟨id, here, error, failed⟩
    exact @report_failure τ _ (fun id => catchUnwind id (outcome id)) action render id error
      ((member id).mpr here) failed

namespace Sample

def agentIds : List Str := [str "panics", str "ok", str "panics"]

def outcome (id : Str) : Outcome Str :=
  if id = str "panics" then .panic (.literal (str "boom")) else .ok id

end Sample

theorem batch_results_demo :
    ∃ s : State Str, s.finished ∧ s.output Sample.agentIds =
      some [(str "panics", .error (str "operation for agent \"panics\" panicked: boom")),
        (str "ok", .ok (str "ok"))] := by
  have builds : Builds Sample.agentIds (fun id => .future (Sample.outcome id)) Sample.outcome :=
    fun _ _ => rfl
  obtain ⟨s, leads, finished⟩ := (batch_results builds (.init rfl)).1.2.2
  have reachable := reachable_of_leads (.init rfl) leads
  exact ⟨s, finished, ((batch_results builds reachable).2.1 finished).2⟩

/-- A call that panics for one id before it has given a future. -/
def Sample.operation (id : Str) : Call Str := if id = str "panics" then .panics else .future (.ok id)

/-- Such a panic is not caught: it ends the batch while other operations run, and no run of the batch
returns the result of any id. -/
theorem call_panics_unreturned :
    (∃ s, (system Sample.agentIds Sample.operation).Reachable s ∧ s.aborted = true ∧
      s.running.map Prod.fst = [str "panics", str "ok"] ∧ s.results = []) ∧
    ∀ s, (system Sample.agentIds Sample.operation).Reachable s → ¬s.finished := by
  refine ⟨?_, fun s reachable finished => ?_⟩
  · have both : distinct [] Sample.agentIds = [str "panics", str "ok"] := by decide
    have first : Step Sample.operation (.start Sample.agentIds) () _ := .create rfl both (by decide)
    have second : Step Sample.operation ⟨[str "ok"], [(str "panics", .created)], [], [], false⟩ ()
        _ := .create rfl rfl (by decide)
    have block : [(str "panics", Block.created), (str "ok", .created)] =
        [] ++ (str "panics", (Block.created : Block Str)) :: [(str "ok", .created)] := rfl
    have third : Step Sample.operation
        ⟨[], [(str "panics", .created), (str "ok", .created)], [], [], false⟩ () _ :=
      .abort rfl block rfl
    exact ⟨_, .step (.step (.step (.init rfl) first) second) third, rfl, rfl, rfl⟩
  · have inv := inv_of_reachable reachable
    have ids := inv.ids
    rw [finished.1, finished.2.1] at ids
    have member : str "panics" ∈ s.results.map Prod.fst := by
      simpa using ids.mem_iff.mpr (show str "panics" ∈ distinct [] Sample.agentIds by decide)
    obtain ⟨⟨_, result⟩, there, rfl⟩ := List.mem_map.mp member
    obtain ⟨outcome, future, -⟩ := inv.own _ _ there
    simp [Sample.operation] at future

end AcpAgent.Installer.Batch
