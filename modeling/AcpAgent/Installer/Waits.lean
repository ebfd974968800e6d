import AcpAgent.Installer.Cache
import AcpAgent.Installer.Cancellation
import AcpAgent.Lib.Locks
import AcpAgent.Lib.Transition

/-! The waits for the locks of the binary cache: any number of installations, updates, removals and
sweeps over any keys, with the leases that installations leave to runners and routes. -/

namespace AcpAgent.Installer

/-! ### What an operation holds and waits for -/

/-- The lock that the future is waiting for. -/
def InstallPc.awaits : InstallPc → Option Hold
  | .publication => some .publication
  | .readLease | .lease _ => some .useRead
  | .writeLease _ _ => some .useWrite
  | _ => none

/-- A removal that skips entries in use waits for nothing. -/
def RemovePc.awaits (wait : Bool) : RemovePc → Option Hold
  | .publication => if wait then some .publication else none
  | .use => if wait then some .useWrite else none
  | _ => none

namespace Mode

def Holds (h : Hold) : Mode → Prop
  | .awaiting pc => pc.Holds h
  | .owned pc => pc.Holds h ∨ h = .publication
  | .unwinding _ => h = .publication
  | .late _ | .unlocked _ | .ended => False

/-- Guards and detached tasks wait for no lock. -/
def awaits : Mode → Option Hold
  | .awaiting pc => pc.awaits
  | _ => none

/-- One step of an installation, whatever is on disk; its future may be dropped. -/
inductive Step (c : Crates) (job : Job) (free : Hold → Prop) : Mode → Mode → Prop
  | await {d pc d' pc'} (h : InstallStep c (job.key c) job free d pc d' pc')
      (own : ¬pc.Guarded pc') : Step c job free (.awaiting pc) (.awaiting pc')
  | guard {d pc d' pc'} (h : InstallStep c (job.key c) job free d pc d' pc')
      (guarded : pc.Guarded pc') : Step c job free (.awaiting pc) (.owned pc')
  | own {d pc d' pc'} (h : InstallStep c (job.key c) job free d pc d' pc') :
      Step c job free (.owned pc) pc'.next
  | drop {pc mode} (h : pc.dropped = some mode) : Step c job free (.awaiting pc) mode
  | dropCreated {dir archive} :
      Step c job free (.awaiting (.creating dir archive)) (.owned (.cleaning dir false))
  | unwind {dir} : Step c job free (.unwinding dir) (.late dir)
  | unwindCreated {dir} : Step c job free (.unwinding dir) (.owned (.cleaning dir false))
  | create {dir} : Step c job free (.late dir) .ended
  | remove {dir} : Step c job free (.unlocked dir) .ended

end Mode

/-- These are the steps of an installation that is alone. -/
theorem CancelStep.mode {c : Crates} {job : Job} {s t : Disk × Mode} {a : CancelEvent}
    (h : CancelStep c job s a t) : t.2 = s.2 ∨ Mode.Step c job (fun _ => True) s.2 t.2 := by
  cases h with
  | await h own => exact .inr (.await h own)
  | awaitFault h bad => exact .inr (.await h fun guarded => bad (h.succeeds_of_guarded guarded))
  | guard h guarded => exact .inr (.guard h guarded)
  | own h | ownFault h => exact .inr (.own h)
  | drop h => exact .inr (.drop h)
  | dropCreated => exact .inr .dropCreated
  | unwindSome | removeSome => exact .inl rfl
  | unwind => exact .inr .unwind
  | unwindCreated => exact .inr .unwindCreated
  | create | createFails => exact .inr .create
  | remove | removeFails => exact .inr .remove

/-! ### Operations on many keys -/

/-- An operation, at the key that it is at; `κ` tells the lock files of keys apart. -/
inductive Operation (κ : Type*)
  | idle
  | install (k : κ) (job : Job) (update : Bool) (mode : Mode)
  /-- An update removes the other entries while it has the lease of the new one. -/
  | cleanup (lease k : κ) (pc : RemovePc) (rest : List κ)
  | uninstall (k : κ) (pc : RemovePc) (rest : List κ)
  | sweep (k : κ) (pc : SweepPc) (rest : List (κ × List Str))
  /-- A runner or a route that has a lease. -/
  | leased (k : κ)

namespace Operation

variable {κ : Type*}

def Holds (k : κ) (h : Hold) : Operation κ → Prop
  | .idle => False
  | .install k' _ _ mode => k = k' ∧ mode.Holds h
  | .cleanup lease k' pc _ => k = lease ∧ h = .useRead ∨ k = k' ∧ pc.Holds h
  | .uninstall k' pc _ => k = k' ∧ pc.Holds h
  | .sweep k' pc _ => k = k' ∧ pc.Holds h
  | .leased k' => k = k' ∧ h = .useRead

def awaits : Operation κ → Option (κ × Hold)
  | .install k _ _ mode => mode.awaits.map fun h => (k, h)
  | .cleanup _ k pc _ => (pc.awaits false).map fun h => (k, h)
  | .uninstall k pc _ => (pc.awaits true).map fun h => (k, h)
  | .idle | .sweep _ _ _ | .leased _ => none

/-- The operation is at work. -/
def Working (op : Operation κ) : Prop :=
  op.awaits = none ∧ op ≠ .idle ∧ ∀ k, op ≠ .leased k

/-- One step of an operation, while these holds are free. -/
inductive Step (c : Crates) (free : κ → Hold → Prop) : Operation κ → Operation κ → Prop
  | install {k job update mode mode'} (h : mode.Step c job (free k) mode') :
      Step c free (.install k job update mode) (.install k job update mode')
  | returned {k job update cached} :
      Step c free (.install k job update (.awaiting (.returned cached))) (.leased k)
  | clean {k job cached} (first : κ) (rest : List κ) :
      Step c free (.install k job true (.awaiting (.returned cached)))
        (.cleanup k first .publication rest)
  | cleanup {d d' lease k pc pc' rest} (h : RemoveStep false (free k) d pc d' pc') :
      Step c free (.cleanup lease k pc rest) (.cleanup lease k pc' rest)
  | cleanupNext {lease k next rest} :
      Step c free (.cleanup lease k .done (next :: rest)) (.cleanup lease next .publication rest)
  | cleaned {lease k} : Step c free (.cleanup lease k .done []) (.leased lease)
  | uninstall {d d' k pc pc' rest} (h : RemoveStep true (free k) d pc d' pc') :
      Step c free (.uninstall k pc rest) (.uninstall k pc' rest)
  | uninstallNext {k next rest} :
      Step c free (.uninstall k .done (next :: rest)) (.uninstall next .publication rest)
  | sweep {d d' k pc pc' rest} (h : SweepStep True (free k) d pc d' pc') :
      Step c free (.sweep k pc rest) (.sweep k pc' rest)
  | sweepNext {k next entries rest} :
      Step c free (.sweep k .done ((next, entries) :: rest)) (.sweep next (.scanned entries) rest)

end Operation

/-- The operations at work on a cache.  A lock is lingering from when its guard is dropped until it
is released; who gives up waiting for a lock leaves a stray worker, which may still take it. -/
structure LockTable (ι κ : Type*) where
  op : ι → Operation κ
  lingering : κ → Hold → Prop
  stray : κ → Hold → Prop

namespace LockTable

variable {ι κ : Type*} [DecidableEq ι]

/-- No hold of any operation conflicts, and no lingering one does. -/
def Free (w : LockTable ι κ) (k : κ) (h : Hold) : Prop :=
  (∀ i h', (w.op i).Holds k h' → ¬h.conflicts h') ∧
    ∀ h', w.lingering k h' → ¬h.conflicts h'

/-- Operation `i` goes on. -/
def move (w : LockTable ι κ) (i : ι) (op : Operation κ) : LockTable ι κ where
  op := Function.update w.op i op
  lingering k h := w.lingering k h ∨ (w.op i).Holds k h ∧ ¬op.Holds k h
  stray k h := w.stray k h ∨ (w.op i).awaits = some (k, h) ∧ ¬op.Holds k h

/-- What happens next to the locks. -/
inductive Event (ι : Type*)
  | start (i : ι)
  | run (i : ι)
  /-- The operation is dropped or has ended, or its process is killed. -/
  | leave (i : ι)
  | grab
  | release

/-- `place` tells where the entry of a job is. -/
inductive Step (c : Crates) (place : Job → κ) :
    LockTable ι κ → Event ι → LockTable ι κ → Prop
  | install {w i job d} (idle : w.op i = .idle) (digest : parseSha256 job.digest = .ok d)
      (update : Bool) :
      Step c place w (.start i)
        (w.move i (.install (place job) job update (.awaiting .publication)))
  | uninstall {w i} (idle : w.op i = .idle) (first : κ) (rest : List κ) :
      Step c place w (.start i) (w.move i (.uninstall first .publication rest))
  | sweep {w i} (idle : w.op i = .idle) (first : κ) (entries : List Str)
      (rest : List (κ × List Str)) :
      Step c place w (.start i) (w.move i (.sweep first (.scanned entries) rest))
  | run {w i op} (h : (w.op i).Step c w.Free op) : Step c place w (.run i) (w.move i op)
  | leave {w i} : Step c place w (.leave i) (w.move i .idle)
  | grab {w k h} (stray : w.stray k h) (free : w.Free k h) :
      Step c place w .grab
        { w with lingering := fun k' h' => w.lingering k' h' ∨ k' = k ∧ h' = h }
  | release {w} (k : κ) (h : Hold) :
      Step c place w .release
        { w with lingering := fun k' h' => w.lingering k' h' ∧ ¬(k' = k ∧ h' = h) }

def system (c : Crates) (place : Job → κ) : Transition.System (LockTable ι κ) (Event ι) where
  init w := (∀ i, w.op i = .idle) ∧ (∀ k h, ¬w.lingering k h) ∧ ∀ k h, ¬w.stray k h
  step := Step c place

/-- Operation `i` waits for a lock that `j` holds. -/
def Waits (w : LockTable ι κ) (i j : ι) : Prop :=
  ∃ k h h', (w.op i).awaits = some (k, h) ∧ (w.op j).Holds k h' ∧ h.conflicts h'

/-- Nothing goes on by itself: every operation that is at work waits for a lock that is not free,
and all guards that were dropped are released. -/
structure Settled (w : LockTable ι κ) : Prop where
  waiting : ∀ i, ¬(w.op i).Working
  released : ∀ k h, ¬w.lingering k h
  taken : ∀ i k h, (w.op i).awaits = some (k, h) → ¬w.Free k h

end LockTable

/-! ### What waiting operations hold -/

section Awaiting

variable {κ : Type*}

theorem InstallPc.holds_of_awaits {pc : InstallPc} {h : Hold} (waiting : pc.awaits = some h)
    (h' : Hold) : pc.Holds h' ↔ h ≠ .publication ∧ h' = .publication := by
  cases pc <;> simp_all [awaits, Holds, eq_comm]

theorem RemovePc.holds_of_awaits {wait : Bool} {pc : RemovePc} {h : Hold}
    (waiting : pc.awaits wait = some h) (h' : Hold) :
    pc.Holds h' ↔ h ≠ .publication ∧ h' = .publication := by
  cases pc <;> cases wait <;> simp_all [awaits, Holds, eq_comm]

/-- Who waits for a publication lock holds nothing, and who waits for a use lock holds just the
publication lock of the key. -/
theorem Operation.holds_of_awaits {op : Operation κ} {k : κ} {h : Hold}
    (waiting : op.awaits = some (k, h)) (k' : κ) (h' : Hold) :
    op.Holds k' h' ↔ k' = k ∧ h ≠ .publication ∧ h' = .publication := by
  cases op with
  | install k₀ job update mode =>
    cases mode with
    | awaiting pc =>
      obtain ⟨_, pcWaits, same⟩ := Option.map_eq_some_iff.mp waiting
      obtain ⟨rfl, rfl⟩ := Prod.mk.inj same
      exact and_congr_right' (InstallPc.holds_of_awaits pcWaits h')
    | _ => simp [awaits, Mode.awaits] at waiting
  | uninstall k₀ pc rest =>
    obtain ⟨_, pcWaits, same⟩ := Option.map_eq_some_iff.mp waiting
    obtain ⟨rfl, rfl⟩ := Prod.mk.inj same
    exact and_congr_right' (RemovePc.holds_of_awaits pcWaits h')
  | cleanup lease k₀ pc rest => cases pc <;> simp [awaits, RemovePc.awaits] at waiting
  | idle | sweep | leased => simp [awaits] at waiting

end Awaiting

/-! ### What a step takes -/

section Steps

variable {κ : Type*} {c : Crates}

/-- What goes on after a drop holds only what the future held. -/
theorem InstallPc.holds_of_dropped {pc : InstallPc} {mode : Mode} (h : pc.dropped = some mode)
    {k : Hold} (hk : mode.Holds k) : pc.Holds k := by
  cases pc with
  | staging | resolving | returned | failed => simp [dropped] at h
  | publication | readLease | validating | lease =>
    obtain rfl := Option.some.inj h
    exact hk.elim
  | downloading | extracting | finishing | writeLease =>
    obtain rfl := Option.some.inj h
    exact hk.elim id id
  | creating =>
    obtain rfl := Option.some.inj h
    exact hk
  | cleaning dir promotion =>
    cases promotion with
    | false =>
      obtain rfl := Option.some.inj h
      exact hk.elim
    | true =>
      obtain rfl := Option.some.inj h
      exact hk.elim id .inl
  -- A promotion, which owns both locks.
  | _ =>
    obtain rfl := Option.some.inj h
    exact hk.elim id .inl

theorem InstallPc.holds_next {pc : InstallPc} {k : Hold} (hk : pc.next.Holds k) :
    pc.Holds k ∨ k = .publication := by
  cases pc with
  | resolving | writeLease =>
    rcases hk with hk | hk
    · exact .inr hk
    · exact .inr hk
  | lease | failed => exact hk.elim
  | _ => exact hk

theorem Mode.Step.holds {job : Job} {free : Hold → Prop} {mode mode' : Mode}
    (h : mode.Step c job free mode') {k : Hold} (hk : mode'.Holds k) : mode.Holds k ∨ free k := by
  cases h with
  | await h => exact h.holds hk
  | @guard d pc d' pc' h guarded =>
    refine h.holds ?_
    rcases hk with hk | rfl
    · exact hk
    · unfold InstallPc.Guarded at guarded
      split at guarded
      · exact guarded.elim
      · exact guarded.elim
      · rfl
      · exact guarded.elim
  | own h =>
    rcases InstallPc.holds_next hk with hk | hk
    · exact (h.holds hk).imp_left .inl
    · exact .inl (.inr hk)
  | drop h => exact .inl (InstallPc.holds_of_dropped h hk)
  | dropCreated => exact .inl (hk.elim id id)
  | unwind | create | remove => exact hk.elim
  | unwindCreated => exact .inl (hk.elim id id)

theorem Operation.Step.holds {free : κ → Hold → Prop} {op op' : Operation κ}
    (h : op.Step c free op') {k : κ} {hold : Hold} (hk : op'.Holds k hold) :
    op.Holds k hold ∨ free k hold := by
  cases h with
  | install h =>
    obtain ⟨rfl, hk⟩ := hk
    exact (h.holds hk).imp_left fun had => ⟨rfl, had⟩
  | returned => exact .inl hk
  | clean first rest =>
    rcases hk with ⟨rfl, rfl⟩ | ⟨-, hk⟩
    · exact .inl ⟨rfl, rfl⟩
    · exact hk.elim
  | cleanup h =>
    rcases hk with own | ⟨rfl, hk⟩
    · exact .inl (.inl own)
    · exact (h.holds hk).imp_left fun had => .inr ⟨rfl, had⟩
  | cleanupNext =>
    rcases hk with own | ⟨-, hk⟩
    · exact .inl (.inl own)
    · exact hk.elim
  | cleaned => exact .inl (.inl hk)
  | uninstall h =>
    obtain ⟨rfl, hk⟩ := hk
    exact (h.holds hk).imp_left fun had => ⟨rfl, had⟩
  | sweep h =>
    obtain ⟨rfl, hk⟩ := hk
    exact (h.holds hk).imp_left fun had => ⟨rfl, had⟩
  | uninstallNext | sweepNext => exact hk.2.elim

end Steps

/-! ### Reachable states -/

namespace LockTable

variable {ι κ : Type*} {c : Crates} {place : Job → κ} {w : LockTable ι κ}

/-- No two operations have conflicting holds of one key. -/
def Exclusive (w : LockTable ι κ) : Prop :=
  Locks.Exclusive (fun r s : κ × Hold => r.1 = s.1 ∧ r.2.conflicts s.2) fun i r =>
    (w.op i).Holds r.1 r.2

def rank (w : LockTable ι κ) (i : ι) : ℕ :=
  match (w.op i).awaits with
  | some (_, .publication) => 0
  | some _ => 1
  | none => 2

theorem rank_le (w : LockTable ι κ) (i : ι) : w.rank i ≤ 2 := by
  unfold rank
  split <;> omega

/-- Whoever is waited for waits for a lock of a higher rank, or not at all. -/
theorem Waits.rank_lt {i j : ι} (h : w.Waits i j) : w.rank i < w.rank j := by
  obtain ⟨k, hold, hold', awaits, holds, conflict⟩ := h
  cases awaits' : (w.op j).awaits with
  | none =>
    have top : w.rank j = 2 := by rw [rank, awaits']
    rw [top, rank, awaits]
    cases hold <;> simp
  | some r =>
    obtain ⟨-, use, rfl⟩ := (Operation.holds_of_awaits awaits' _ _).mp holds
    have publication : hold = .publication := by
      cases hold with
      | publication => rfl
      | useRead | useWrite => exact conflict.elim
    have bottom : w.rank i = 0 := by rw [rank, awaits, publication]
    have middle : w.rank j = 1 := by
      rw [rank, awaits']
      obtain ⟨_, _ | _ | _⟩ := r
      · exact absurd rfl use
      · rfl
      · rfl
    omega

theorem no_cycle (w : LockTable ι κ) (i : ι) : ¬Relation.TransGen w.Waits i i :=
  Locks.acyclic_of_rank w.rank (fun _ _ => Waits.rank_lt) i

/-- In the end, only leases are waited for. -/
theorem Settled.leased (settled : w.Settled) {i : ι} {k : κ} {h : Hold}
    (awaits : (w.op i).awaits = some (k, h)) :
    ∃ j l, Relation.TransGen w.Waits i j ∧ w.op j = .leased l := by
  obtain ⟨j, path, last⟩ :=
    Locks.exists_end_of_rank w.rank (fun _ _ => Waits.rank_lt) w.rank_le i
  have still : (w.op j).awaits = none := by
    rw [Option.eq_none_iff_forall_ne_some]
    rintro ⟨k', h'⟩ awaits'
    refine settled.taken j k' h' awaits' ⟨fun m hold holds conflict => ?_, fun hold lingers => ?_⟩
    · exact last m ⟨k', h', hold, awaits', holds, conflict⟩
    · exact absurd lingers (settled.released k' hold)
  have other : j ≠ i := by
    rintro rfl
    simp [awaits] at still
  obtain ⟨m, front, step⟩ := path.cases_tail.resolve_left other
  have busy : w.op j ≠ .idle := by
    intro idle
    obtain ⟨k', h', hold, -, holds, -⟩ := step
    rw [idle] at holds
    exact holds
  by_contra unleased
  refine settled.waiting j ⟨still, busy, fun l leased => unleased ?_⟩
  exact ⟨j, l, .tail' front step, leased⟩

variable [DecidableEq ι]

theorem exclusive_move (h : w.Exclusive) {i : ι} {op : Operation κ}
    (taken : ∀ k hold, op.Holds k hold → (w.op i).Holds k hold ∨ w.Free k hold) :
    (w.move i op).Exclusive := by
  have symm : ∀ r s : κ × Hold, r.1 = s.1 ∧ r.2.conflicts s.2 → s.1 = r.1 ∧ s.2.conflicts r.2 :=
    fun r s both => ⟨both.1.symm, r.2.conflicts_symm s.2 both.2⟩
  apply Locks.Exclusive.update (fun (op : Operation κ) (r : κ × Hold) => op.Holds r.1 r.2) symm h
  rintro ⟨k, a⟩ next old j - ⟨l, b⟩ holds ⟨rfl, conflict⟩
  exact ((taken k a next).resolve_left old).1 j b holds conflict

theorem exclusive (h : (system c place).Reachable w) : w.Exclusive := by
  refine h.invariant (fun w h => ?_) fun w a w' _ hw step => ?_
  · exact .of_empty fun i r => by simp [h.1, Operation.Holds]
  · cases step with
    | install | uninstall | sweep =>
      exact exclusive_move hw fun k hold holds => holds.2.elim
    | leave => exact exclusive_move hw fun k hold => False.elim
    | run step => exact exclusive_move hw fun k hold => step.holds
    | grab | release => exact hw

/-- Operations on the cache do not deadlock: locks exclude each other, no operations wait for each
other in a cycle, each keeps at most the publication lock of the key while it waits for a use lock,
and nothing while it waits for a publication lock; when nothing goes on any more, every operation
that waits is waiting, in the end, for a lease. -/
theorem no_deadlock (h : (system c place).Reachable w) :
    w.Exclusive ∧ (∀ i, ¬Relation.TransGen w.Waits i i) ∧
      (∀ i k, (w.op i).awaits = some (k, .publication) → ∀ k' hold, ¬(w.op i).Holds k' hold) ∧
      (∀ i k use, (w.op i).awaits = some (k, use) → use ≠ .publication →
        ∀ k' hold, (w.op i).Holds k' hold ↔ k' = k ∧ hold = .publication) ∧
      (w.Settled → ∀ i k hold, (w.op i).awaits = some (k, hold) →
        ∃ j l, Relation.TransGen w.Waits i j ∧ w.op j = .leased l) := by
  refine ⟨exclusive h, w.no_cycle, fun i k awaits k' hold holds => ?_,
    fun i k use awaits other k' hold => ?_, fun settled i k hold => settled.leased⟩
  · exact ((Operation.holds_of_awaits awaits k' hold).mp holds).2.1 rfl
  · rw [Operation.holds_of_awaits awaits, and_iff_right other]

/-- An entry that is there already is leased, and its installer gives up the lock on the key. -/
theorem reachable_leased : ∃ w : LockTable Bool Unit,
    (system Sample.crates fun _ => ()).Reachable w ∧ w.op true = .leased () ∧
      w.op false = .idle ∧ ∀ k h, ¬w.lingering k h := by
  let disk : Disk := ⟨some Sample.entry, fun _ => none⟩
  let w0 : LockTable Bool Unit := ⟨fun _ => .idle, fun _ _ => False, fun _ _ => False⟩
  let w1 := w0.move true (.install () Sample.job false (.awaiting .publication))
  let w2 := w1.move true (.install () Sample.job false (.awaiting .readLease))
  let w3 := w2.move true (.install () Sample.job false (.awaiting (.validating disk.final)))
  let w4 := w3.move true (.install () Sample.job false (.awaiting (.returned Sample.entry)))
  let w5 := w4.move true (.leased ())
  let w6 : LockTable Bool Unit :=
    { w5 with lingering := fun k h => w5.lingering k h ∧ ¬(k = () ∧ h = .publication) }
  have free1 : w1.Free () .publication := by
    refine ⟨fun i h holds => ?_, fun h lingers => ?_⟩
    · cases i <;> simp [w1, w0, move, Operation.Holds, Mode.Holds, InstallPc.Holds] at holds
    · simp [w1, w0, move, Operation.Holds] at lingers
  have free2 : w2.Free () .useRead := by
    refine ⟨fun i h holds => ?_, fun h lingers => ?_⟩
    · cases i
      · simp [w2, w1, w0, move, Operation.Holds] at holds
      · simp only [w2, move, Function.update_self, Operation.Holds, Mode.Holds, InstallPc.Holds,
          true_and] at holds
        simp [holds, Hold.conflicts]
    · simp [w2, w1, w0, move, Operation.Holds, Mode.Holds, InstallPc.Holds] at lingers
  have h0 : (system Sample.crates fun _ => ()).Reachable w0 :=
    .init ⟨fun _ => rfl, fun _ _ => id, fun _ _ => id⟩
  have h1 : (system Sample.crates fun _ => ()).Reachable w1 :=
    h0.step (.install rfl Sample.parse_digest false)
  have h2 : (system Sample.crates fun _ => ()).Reachable w2 :=
    h1.step (.run (.install (.await (d := disk) (.lock free1) id)))
  have h3 : (system Sample.crates fun _ => ()).Reachable w3 :=
    h2.step (.run (.install (.await (d := disk) (.read free2) id)))
  have h4 : (system Sample.crates fun _ => ()).Reachable w4 :=
    h3.step (.run (.install (.await (d := disk) (.hit Sample.valid_entry) id)))
  have h5 : (system Sample.crates fun _ => ()).Reachable w5 := h4.step (.run .returned)
  refine ⟨w6, h5.step (.release () .publication), rfl, rfl, fun _ h => ?_⟩
  cases h <;> simp [w6, w5, w4, w3, w2, w1, w0, move, Operation.Holds, Mode.Holds,
    InstallPc.Holds]

/-- A runner has the lease of the entry that it installed, and a removal waits for it. -/
theorem reachable_waiting : ∃ w : LockTable Bool Unit,
    (system Sample.crates fun _ => ()).Reachable w ∧ w.op true = .leased () ∧
      w.op false = .uninstall () .use [] ∧ ∀ k h, ¬w.lingering k h := by
  obtain ⟨w, reached, lease, idle, released⟩ := reachable_leased
  let w₁ := w.move false (.uninstall () .publication [])
  have lease₁ : w₁.op true = .leased () := lease
  have nothing : ∀ k h, ¬(Operation.uninstall () .publication []).Holds k h := by
    simp [Operation.Holds, RemovePc.Holds]
  have released₁ : ∀ k h, ¬w₁.lingering k h := by
    rintro k h (lingers | ⟨holds, -⟩)
    · exact released k h lingers
    · rw [idle] at holds
      exact holds
  have free : w₁.Free () .publication := by
    refine ⟨fun i h holds => ?_, fun h lingers => absurd lingers (released₁ () h)⟩
    cases i
    · exact absurd holds (nothing () h)
    · rw [lease₁] at holds
      rw [holds.2]
      exact id
  refine ⟨w₁.move false (.uninstall () .use []),
    (reached.step (.uninstall idle () [])).step
      (.run (.uninstall (d := ⟨none, fun _ => none⟩) (.lock free))), lease, rfl, ?_⟩
  rintro k h (lingers | ⟨holds, -⟩)
  · exact released₁ k h lingers
  · exact nothing k h holds

/-- There, nothing goes on by itself, and the removal is waiting for the lease. -/
theorem no_deadlock_waiting : ∃ w : LockTable Bool Unit, w.Exclusive ∧
    (∀ i, ¬Relation.TransGen w.Waits i i) ∧ w.Settled ∧
    (w.op false).awaits = some ((), .useWrite) ∧
    ∃ j l, Relation.TransGen w.Waits false j ∧ w.op j = .leased l := by
  obtain ⟨w, reached, lease, removal, released⟩ := reachable_waiting
  have awaits : (w.op false).awaits = some ((), .useWrite) := by rw [removal]; rfl
  have settled : w.Settled := by
    refine ⟨fun i working => ?_, released, fun i k h waiting free => ?_⟩
    · cases i
      · simp [working.1] at awaits
      · exact working.2.2 () lease
    · cases i
      · obtain ⟨-, rfl⟩ := Prod.mk.inj (Option.some.inj (awaits.symm.trans waiting))
        refine free.1 true .useRead ?_ trivial
        rw [lease]
        exact ⟨rfl, rfl⟩
      · simp [lease, Operation.awaits] at waiting
  obtain ⟨exclusive, acyclic, -, -, leased⟩ := no_deadlock reached
  exact ⟨w, exclusive, acyclic, settled, awaits, leased settled false () .useWrite awaits⟩

end LockTable

end AcpAgent.Installer
