import AcpAgent.Installer.Install
import AcpAgent.Lib.Locks
import AcpAgent.Lib.Transition

/-! One key of the binary cache under any number of concurrent installations, removals and sweeps,
and the lease under which an installation returns the entry. -/

namespace AcpAgent.Installer

/-- What a process is doing with the key. -/
inductive Party
  | idle
  | install (job : Job) (pc : InstallPc)
  | remove (wait : Bool) (pc : RemovePc)
  | sweep (pc : SweepPc)

namespace Party

def Holds (h : Hold) : Party → Prop
  | .idle => False
  | .install _ pc => pc.Holds h
  | .remove _ pc => pc.Holds h
  | .sweep pc => pc.Holds h

/-- The process is between two operations, possibly with the lease that the last one returned. -/
def Resting : Party → Prop
  | .idle | .install _ (.returned _) => True
  | _ => False

/-- One operation of a process that is at work. -/
inductive Step (c : Crates) (key : Str) (free : Hold → Prop) : Disk → Party → Disk → Party → Prop
  | install {job d pc d' pc'} (h : InstallStep c key job free d pc d' pc') :
      Step c key free d (.install job pc) d' (.install job pc')
  | remove {wait d pc d' pc'} (h : RemoveStep wait free d pc d' pc') :
      Step c key free d (.remove wait pc) d' (.remove wait pc')
  | sweep {d pc d' pc'} (h : SweepStep True free d pc d' pc') :
      Step c key free d (.sweep pc) d' (.sweep pc')

end Party

variable {ι : Type*} [DecidableEq ι]

/-- A key of the cache, and the processes at work on it.  A lock is released some time after its
guard is dropped, and is lingering until then. -/
structure Cache (ι : Type*) where
  disk : Disk
  party : ι → Party
  lingering : Hold → Prop

namespace Cache

/-- Neither another process nor a guard that was dropped holds a lock that conflicts. -/
def Free (w : Cache ι) (i : ι) (h : Hold) : Prop :=
  (∀ j, j ≠ i → ∀ k, (w.party j).Holds k → ¬h.conflicts k) ∧
    ∀ k, w.lingering k → ¬h.conflicts k

/-- Process `i` goes on, and drops the guards that it no longer has. -/
def move (w : Cache ι) (i : ι) (disk : Disk) (p : Party) : Cache ι where
  disk := disk
  party := Function.update w.party i p
  lingering k := w.lingering k ∨ (w.party i).Holds k ∧ ¬p.Holds k

end Cache

/-- The payload below a directory is changed from outside, in any way. -/
inductive Node.Edits : Node → Node → Prop
  | edit {node old new} (h : node.child extractedName = some (.dir old)) :
      Node.Edits node (node.setChild extractedName (.dir new))

/-- What happens next to the key. -/
inductive Event (ι : Type*)
  | start (i : ι)
  | run (i : ι)
  /-- The process drops its lease, has ended its operation, or is killed. -/
  | leave (i : ι)
  | release
  | edit

inductive Cache.Step (c : Crates) (key : Str) (edits : Prop) : Cache ι → Event ι → Cache ι → Prop
  | install {w i job d} (idle : w.party i = .idle) (key_ : job.key c = key)
      (digest : parseSha256 job.digest = .ok d) :
      Step c key edits w (.start i) (w.move i w.disk (.install job .publication))
  | remove {w i} (idle : w.party i = .idle) (wait : Bool) :
      Step c key edits w (.start i) (w.move i w.disk (.remove wait .publication))
  | sweep {w i entries} (idle : w.party i = .idle)
      (entries_ : ∀ entry ∈ entries, workDirCacheKey entry = some key) :
      Step c key edits w (.start i) (w.move i w.disk (.sweep (.scanned entries)))
  | run {w i disk p} (h : (w.party i).Step c key (w.Free i) w.disk disk p) :
      Step c key edits w (.run i) (w.move i disk p)
  | leave {w i} : Step c key edits w (.leave i) (w.move i w.disk .idle)
  | release {w} (h : Hold) :
      Step c key edits w .release { w with lingering := fun k => w.lingering k ∧ k ≠ h }
  -- Someone from outside edits a payload, between operations.
  | editFinal {w node node'} (h : edits) (resting : ∀ i, (w.party i).Resting)
      (at_ : w.disk.final = some node) (edit : node.Edits node') :
      Step c key edits w .edit { w with disk := w.disk.setFinal (some node') }
  | editWork {w name node node'} (h : edits) (resting : ∀ i, (w.party i).Resting)
      (at_ : w.disk.work name = some node) (edit : node.Edits node') :
      Step c key edits w .edit { w with disk := w.disk.setWork name (some node') }

/-- The key in an empty cache, or in a cache that holds what the processes before left there. -/
def cacheSystem (c : Crates) (key : Str) (edits : Prop) (init : Disk → Prop) :
    Transition.System (Cache ι) (Event ι) where
  init w := init w.disk ∧ (∀ i, w.party i = .idle) ∧ ∀ k, ¬w.lingering k
  step := Cache.Step c key edits

/-! ### What a step can do -/

section Steps

variable {c : Crates} {key : Str} {free : Hold → Prop} {d d' : Disk}

/-- A step takes only free locks. -/
theorem InstallStep.holds {job : Job} {pc pc' : InstallPc}
    (h : InstallStep c key job free d pc d' pc') {k : Hold} (hk : pc'.Holds k) :
    pc.Holds k ∨ free k := by
  cases h <;> simp only [InstallPc.Holds] at hk ⊢ <;> grind [InstallPc.Holds]

/-- The final directory is changed only under both locks. -/
theorem InstallStep.final {job : Job} {pc pc' : InstallPc}
    (h : InstallStep c key job free d pc d' pc') :
    d'.final = d.final ∨ pc.Holds .publication ∧ pc.Holds .useWrite := by
  cases h <;> simp [InstallPc.Holds]

theorem RemoveStep.holds {wait : Bool} {pc pc' : RemovePc}
    (h : RemoveStep wait free d pc d' pc') {k : Hold} (hk : pc'.Holds k) :
    pc.Holds k ∨ free k := by
  cases h <;> simp only [RemovePc.Holds] at hk ⊢ <;> grind

theorem RemoveStep.final {wait : Bool} {pc pc' : RemovePc}
    (h : RemoveStep wait free d pc d' pc') :
    d'.final = d.final ∨ pc.Holds .publication ∧ pc.Holds .useWrite := by
  cases h <;> simp [RemovePc.Holds]

theorem SweepStep.holds {faults : Prop} {pc pc' : SweepPc} (h : SweepStep faults free d pc d' pc')
    {k : Hold} (hk : pc'.Holds k) : pc.Holds k ∨ free k := by
  cases h <;> simp only [SweepPc.Holds] at hk ⊢ <;> grind

/-- The sweep has only the publication lock, and brings back a final directory that is missing. -/
theorem SweepStep.final {faults : Prop} {pc pc' : SweepPc} (h : SweepStep faults free d pc d' pc') :
    d'.final = d.final ∨ pc.Holds .publication ∧ d.final = none := by
  cases h <;> simp_all [SweepPc.Holds]

theorem Party.Step.holds {p p' : Party} (h : p.Step c key free d d' p') {k : Hold}
    (hk : p'.Holds k) : p.Holds k ∨ free k := by
  cases h with
  | install h | remove h | sweep h => exact h.holds hk

/-- Who changes the final directory has the publication lock, and the exclusive lease unless there
is nothing to lease. -/
theorem Party.Step.final {p p' : Party} (h : p.Step c key free d d' p') :
    d'.final = d.final ∨ p.Holds .publication ∧ (p.Holds .useWrite ∨ d.final = none) := by
  cases h with
  | install h | remove h => exact h.final.imp_right fun ⟨hp, hw⟩ => ⟨hp, .inl hw⟩
  | sweep h => exact h.final.imp_right fun ⟨hp, hn⟩ => ⟨hp, .inr hn⟩

end Steps

/-! ### What an installation knows -/

/-- The final directory is this entry, which passes the validation. -/
def Published (c : Crates) (job : Job) (disk : Disk) (cached : Node) : Prop :=
  disk.final = some cached ∧ validateCachedBinary c job.expected (some cached) = .valid

/-- What an installation knows of the final directory while it has the publication lock. -/
def InstallPc.Knows (c : Crates) (job : Job) (disk : Disk) : InstallPc → Prop
  | .validating seen => disk.final = seen
  | .discarding _ cached | .committed cached _ | .lease cached => Published c job disk cached
  | _ => True

section Knowledge

variable {c : Crates} {key : Str} {free : Hold → Prop} {d d' : Disk} {job : Job}
  {pc pc' : InstallPc}

theorem InstallPc.Knows.of_final (h : pc.Knows c job d) (same : d'.final = d.final) :
    pc.Knows c job d' := by
  cases pc <;> simp_all [Knows, Published]

theorem InstallPc.knows_of_not_publication (h : ¬pc.Holds .publication) : pc.Knows c job d := by
  cases pc <;> simp_all [Knows, Holds]

theorem InstallStep.knows (h : InstallStep c key job free d pc d' pc') (known : pc.Knows c job d) :
    pc'.Knows c job d' := by
  cases h <;> simp_all [InstallPc.Knows, Published]

/-- An installation returns an entry that is there and that has passed validation. -/
theorem InstallStep.published {cached : Node}
    (h : InstallStep c key job free d pc d' (.returned cached)) (known : pc.Knows c job d) :
    Published c job d' cached := by
  cases h with
  | hit valid => exact ⟨known, valid⟩
  | lease => exact known

end Knowledge

/-! ### The invariant -/

section Invariant

variable {c : Crates} {key : Str} {edits : Prop} {init : Disk → Prop}

/-- Locks exclude each other, installations know what is there, and, unless there are edits from
outside, an entry under a returned lease is there. -/
structure Cache.Sound (c : Crates) (edits : Prop) (w : Cache ι) : Prop where
  exclusive : Locks.Exclusive Hold.conflicts fun i h => (w.party i).Holds h
  knows : ∀ i job pc, w.party i = .install job pc → pc.Knows c job w.disk
  leased : ¬edits → ∀ i job cached, w.party i = .install job (.returned cached) →
    Published c job w.disk cached

namespace Cache

omit [DecidableEq ι] in
theorem Sound.of_idle {w : Cache ι} (h : ∀ i, w.party i = .idle) : w.Sound c edits where
  exclusive := .of_empty fun i k => by simp [h, Party.Holds]
  knows i job pc hp := by simp [h] at hp
  leased _ i job cached hp := by simp [h] at hp

theorem exclusive_move {w : Cache ι} {i : ι} {d : Disk} {p : Party}
    (h : Locks.Exclusive Hold.conflicts fun i h => (w.party i).Holds h)
    (taken : ∀ k, p.Holds k → (w.party i).Holds k ∨ w.Free i k) :
    Locks.Exclusive Hold.conflicts fun j h => ((w.move i d p).party j).Holds h := by
  apply h.update (fun (p : Party) h => p.Holds h) Hold.conflicts_symm
  intro k hk hn j hj l hl
  exact ((taken k hk).resolve_left hn).1 j hj l hl

omit [DecidableEq ι] in
/-- While another process holds what a step needs to change the final directory, it does not. -/
theorem Sound.final_of_holds {w : Cache ι} (hw : w.Sound c edits) {i j : ι} (hij : i ≠ j)
    {d : Disk} {p : Party} (step : (w.party i).Step c key (w.Free i) w.disk d p)
    (hj : (w.party j).Holds .publication ∨
      (w.party j).Holds .useRead ∧ w.disk.final ≠ none) : d.final = w.disk.final := by
  rcases step.final with same | ⟨publication, write⟩
  · exact same
  · rcases hj with hj | ⟨hj, present⟩
    · exact absurd trivial (hw.exclusive i j hij _ _ publication hj)
    · exact absurd trivial (hw.exclusive i j hij _ _ (write.resolve_right present) hj)

/-- A process that goes on keeps the invariant. -/
theorem Sound.run {w : Cache ι} (hw : w.Sound c edits) {i : ι} {d : Disk} {p : Party}
    (step : (w.party i).Step c key (w.Free i) w.disk d p) : (w.move i d p).Sound c edits := by
  refine ⟨exclusive_move hw.exclusive fun _ => step.holds, fun j job pc hp => ?_,
    fun quiet j job cached hp => ?_⟩
  · by_cases hj : j = i
    · subst hj
      simp only [move, Function.update_self] at hp
      subst hp
      generalize hp : w.party j = q at step
      cases step with
      | install step => exact step.knows (hw.knows j _ _ hp)
    · simp only [move, Function.update_of_ne hj] at hp
      by_cases publication : pc.Holds .publication
      · refine (hw.knows j job pc hp).of_final ?_
        exact hw.final_of_holds (Ne.symm hj) step (.inl (by simpa [hp, Party.Holds]))
      · exact InstallPc.knows_of_not_publication publication
  · by_cases hj : j = i
    · subst hj
      simp only [move, Function.update_self] at hp
      subst hp
      generalize hp : w.party j = q at step
      cases step with
      | install step => exact step.published (hw.knows j _ _ hp)
    · simp only [move, Function.update_of_ne hj] at hp
      obtain ⟨final, valid⟩ := hw.leased quiet j job cached hp
      refine ⟨Eq.trans ?_ final, valid⟩
      exact hw.final_of_holds (Ne.symm hj) step
        (.inr ⟨by simp [hp, Party.Holds, InstallPc.Holds], by simp [final]⟩)

/-- A process that starts or ends an operation keeps the invariant. -/
theorem Sound.turn {w : Cache ι} (hw : w.Sound c edits) {i : ι} {p : Party}
    (holds : ∀ k, ¬p.Holds k) : (w.move i w.disk p).Sound c edits := by
  refine ⟨exclusive_move hw.exclusive fun k hk => absurd hk (holds k), fun j job pc hp => ?_,
    fun quiet j job cached hp => ?_⟩
  · by_cases hj : j = i
    · subst hj
      simp only [move, Function.update_self] at hp
      subst hp
      exact InstallPc.knows_of_not_publication (holds .publication)
    · simp only [move, Function.update_of_ne hj] at hp
      exact hw.knows j job pc hp
  · by_cases hj : j = i
    · subst hj
      simp only [move, Function.update_self] at hp
      subst hp
      exact absurd rfl (holds .useRead)
    · simp only [move, Function.update_of_ne hj] at hp
      exact hw.leased quiet j job cached hp

omit [DecidableEq ι] in
/-- An edit from outside finds no installation at work. -/
theorem Sound.edit {w : Cache ι} (hw : w.Sound c edits) (h : edits)
    (resting : ∀ i, (w.party i).Resting) (d : Disk) :
    Cache.Sound c edits { w with disk := d } where
  exclusive := hw.exclusive
  knows i job pc hp := by
    have rest := resting i
    rw [hp] at rest
    cases pc with
    | returned => trivial
    | _ => exact rest.elim
  leased quiet := absurd h quiet

theorem Sound.step {w w' : Cache ι} {a : Event ι} (hw : w.Sound c edits)
    (step : w.Step c key edits a w') : w'.Sound c edits := by
  cases step with
  | install | remove | sweep | leave => exact hw.turn fun _ => id
  | run step => exact hw.run step
  | release => exact ⟨hw.exclusive, hw.knows, hw.leased⟩
  | editFinal h resting | editWork h resting => exact hw.edit h resting _

theorem sound {w : Cache ι} (h : (cacheSystem c key edits init).Reachable w) :
    w.Sound c edits :=
  h.invariant (fun _ h => .of_idle h.2.1) fun _ _ _ _ hw step => hw.step step

/-- While an installation's lease is held, the final directory is the entry that it validated, and
no step of any process changes it. -/
theorem lease_safe {w : Cache ι} (h : (cacheSystem c key False init).Reachable w) {i : ι}
    {job : Job} {cached : Node} (returned : w.party i = .install job (.returned cached)) :
    w.disk.final = some cached ∧
      validateCachedBinary c job.expected (some cached) = .valid ∧
      ∀ (a : Event ι) (w' : Cache ι), w.Step c key False a w' →
        w'.disk.final = w.disk.final := by
  have hw := sound h
  obtain ⟨final, valid⟩ := hw.leased id i job cached returned
  refine ⟨final, valid, fun a w' step => ?_⟩
  cases step with
  | install | remove | sweep | leave | release => rfl
  | editFinal h | editWork h => exact h.elim
  | @run j d p step =>
    by_cases hj : j = i
    · subst hj
      rw [returned] at step
      cases step with
      | install step => cases step
    · exact hw.final_of_holds hj step
        (.inr ⟨by simp [returned, Party.Holds, InstallPc.Holds], by simp [final]⟩)

/-- Guards that are dropped are released. -/
theorem reachable_released {ok : Cache ι → Event ι → Prop} {d : Disk} {party : ι → Party}
    (ok_ : ∀ l a, ok ⟨d, party, l⟩ a) {l : Hold → Prop}
    (h : ((cacheSystem c key edits init).restrict ok).Reachable ⟨d, party, l⟩) :
    ((cacheSystem c key edits init).restrict ok).Reachable ⟨d, party, fun _ => False⟩ := by
  have h := h.step ⟨ok_ _ _, .release .publication⟩
  have h := h.step ⟨ok_ _ _, .release .useRead⟩
  have h := h.step ⟨ok_ _ _, .release .useWrite⟩
  have none_left : (fun k : Hold => ((l k ∧ k ≠ .publication) ∧ k ≠ .useRead) ∧ k ≠ .useWrite) =
      fun _ => False := by
    funext k
    cases k <;> simp
  dsimp only at h
  rwa [none_left] at h

/-! A process that is alone, and all of whose dropped guards are released. -/

def alone (disk : Disk) (p : Party) : Cache Unit := ⟨disk, fun _ => p, fun _ => False⟩

theorem free_alone (d : Disk) (p : Party) : (alone d p).Free () = fun _ => True := by
  funext h
  exact eq_true ⟨fun j hj => absurd rfl hj, fun k hk => hk.elim⟩

section Alone

variable {ok : Cache Unit → Event Unit → Prop} {d d' : Disk} {p p' : Party}

theorem reachable_alone
    (h : ((cacheSystem c key edits init).restrict ok).Reachable (alone d p))
    (hp : ∀ a, ok (alone d p) a) (hp' : ∀ l a, ok ⟨d', fun _ => p', l⟩ a)
    (step : p.Step c key (fun _ => True) d d' p') :
    ((cacheSystem c key edits init).restrict ok).Reachable (alone d' p') := by
  rw [← free_alone d p] at step
  exact reachable_released hp' (h.step ⟨hp _, .run (i := ()) step⟩)

theorem reachable_install {job : Job} {digest : Digest}
    (h : ((cacheSystem c key edits init).restrict ok).Reachable (alone d .idle))
    (hp : ∀ a, ok (alone d .idle) a)
    (hp' : ∀ l a, ok ⟨d, fun _ => .install job .publication, l⟩ a) (hkey : job.key c = key)
    (parses : parseSha256 job.digest = .ok digest) :
    ((cacheSystem c key edits init).restrict ok).Reachable
      (alone d (.install job .publication)) :=
  reachable_released hp' (h.step ⟨hp _, .install (i := ()) rfl hkey parses⟩)

end Alone

/-- An installation returns a valid entry that was there before. -/
theorem reachable_hit {c : Crates} {job : Job} {digest : Digest} {cached : Node}
    (work : Str → Option Node) (parses : parseSha256 job.digest = .ok digest)
    (valid : validateCachedBinary c job.expected (some cached) = .valid) :
    (cacheSystem c (job.key c) False fun _ => True).Reachable
      (alone ⟨some cached, work⟩ (.install job (.returned cached))) := by
  let disk : Disk := ⟨some cached, work⟩
  have h0 : ((cacheSystem c (job.key c) False fun _ => True).restrict
      fun _ _ => True).Reachable (alone disk .idle) :=
    .init ⟨trivial, fun _ => rfl, fun _ => id⟩
  have go : ∀ {p p' : Party}, ((cacheSystem c (job.key c) False fun _ => True).restrict
      fun _ _ => True).Reachable (alone disk p) →
      p.Step c (job.key c) (fun _ => True) disk disk p' → _ :=
    fun h step => reachable_alone h (fun _ => trivial) (fun _ _ => trivial) step
  have h1 := reachable_install h0 (fun _ => trivial) (fun _ _ => trivial) rfl parses
  have h2 := go h1 (.install (.lock trivial))
  have h3 := go h2 (.install (.read trivial))
  have h4 := go h3 (.install (.hit valid))
  exact h4.of_restrict

/-! Two processes, with what they are doing. -/

def pair (p q : Party) : Bool → Party
  | true => p
  | false => q

theorem update_pair (p q p' : Party) : Function.update (pair p q) true p' = pair p' q ∧
    Function.update (pair p q) false p' = pair p p' := by
  constructor <;> funext i <;> cases i <;> rfl

/-- A lock is free for one of them if it does not conflict with what the other one holds. -/
theorem free_pair {d : Disk} {p q : Party} {h : Hold} {i : Bool}
    (other : ∀ k, (pair p q !i).Holds k → ¬h.conflicts k) :
    Free ⟨d, pair p q, fun _ => False⟩ i h := by
  refine ⟨fun j different => ?_, fun k lingering => lingering.elim⟩
  obtain rfl : j = !i := by cases i <;> cases j <;> simp at different ⊢
  exact other

/-- A process has returned the sample entry, and another one waits for the lease to end, to remove
the entry. -/
theorem lease_safe_sample :
    ∃ w : Cache Bool, w.party true = .install Sample.job (.returned Sample.entry) ∧
      w.party false = .remove true .use ∧ w.disk.final = some Sample.entry ∧
      validateCachedBinary Sample.crates Sample.job.expected (some Sample.entry) = .valid ∧
      ∀ (a : Event Bool) (w' : Cache Bool), w.Step Sample.crates Sample.key False a w' →
        w'.disk.final = w.disk.final := by
  let disk : Disk := ⟨some Sample.entry, fun _ => none⟩
  let system := (cacheSystem (ι := Bool) Sample.crates Sample.key False fun _ => True).restrict
    fun _ _ => True
  have first : ∀ {p q p' : Party}, system.Reachable ⟨disk, pair p q, fun _ => False⟩ →
      p.Step Sample.crates Sample.key (Free ⟨disk, pair p q, fun _ => False⟩ true) disk disk p' →
      system.Reachable ⟨disk, pair p' q, fun _ => False⟩ := by
    intro p q p' h step
    have moved := reachable_released (fun _ _ => trivial) (h.step ⟨trivial, .run (i := true) step⟩)
    rwa [(update_pair p q p').1] at moved
  have second : ∀ {p q q' : Party}, system.Reachable ⟨disk, pair p q, fun _ => False⟩ →
      q.Step Sample.crates Sample.key (Free ⟨disk, pair p q, fun _ => False⟩ false) disk disk q' →
      system.Reachable ⟨disk, pair p q', fun _ => False⟩ := by
    intro p q q' h step
    have moved := reachable_released (fun _ _ => trivial) (h.step ⟨trivial, .run (i := false) step⟩)
    rwa [(update_pair p q q').2] at moved
  have idle : system.Reachable ⟨disk, pair .idle .idle, fun _ => False⟩ :=
    .init ⟨trivial, Bool.rec rfl rfl, fun _ => id⟩
  have installs := reachable_released (fun _ _ => trivial)
    (idle.step ⟨trivial, .install (i := true) rfl Sample.key_job Sample.parse_digest⟩)
  have both := reachable_released (fun _ _ => trivial)
    (installs.step ⟨trivial, .remove (i := false) rfl true⟩)
  rw [(update_pair ..).1, (update_pair ..).2] at both
  have h1 := first both (.install (.lock (free_pair fun k held => held.elim)))
  have h2 := first h1 (.install (.read (free_pair fun k held => held.elim)))
  have h3 := first h2 (.install (.hit Sample.valid_entry))
  have h4 := second h3 (.remove (.lock (free_pair fun k held => by
    obtain rfl : k = .useRead := held
    exact id)))
  exact ⟨_, rfl, rfl, lease_safe h4.of_restrict (i := true) rfl⟩

end Cache

end Invariant

end AcpAgent.Installer
