import AcpAgent.Lib.Transition
import AcpAgent.Lib.Locks
import Mathlib.Tactic.SplitIfs

/-! Ownership of the daemon's control socket: `bind_daemon_socket_at` and `remove_stale_socket` of
`server/protocol.rs`, and the cleanup at the end of `run_supervisor_loop` in `server/control.rs`,
for any number of daemons that start, stop, fail and are killed around one socket path. -/

namespace AcpAgent.Server.Socket

open Transition

/-- What is at the socket path: a socket file, by inode, or any other kind of entry. -/
inductive Entry
  | socket (inode : Nat)
  | other
  deriving DecidableEq

/-- The next system call of a daemon process, with the inode of the socket it has open. -/
inductive Daemon
  | absent
  | acquiring
  | binding
  | probing
  | inspecting
  | removing
  | rebinding
  | bound (inode : Nat)
  | listening (inode : Nat)
  | serving (inode : Nat)
  | unlinked (inode : Nat)
  deriving DecidableEq

/-- The daemon is between `acquire_socket_bind_lock` and the return of `bind_daemon_socket_at`,
which drops `_bind_lock`. -/
def Daemon.Locks : Daemon → Prop
  | .binding | .probing | .inspecting | .removing | .rebinding | .bound _ | .listening _ => True
  | _ => False

/-- The inode of the socket the daemon has open. -/
def Daemon.socket : Daemon → Option Nat
  | .bound i | .listening i | .serving i | .unlinked i => some i
  | _ => none

/-- The inode on which the daemon has a `UnixListener`. -/
def Daemon.listener : Daemon → Option Nat
  | .listening i | .serving i | .unlinked i => some i
  | _ => none

/-- The inode that the daemon has bound to the path and not unlinked yet. -/
def Daemon.served : Daemon → Option Nat
  | .bound i | .listening i | .serving i => some i
  | _ => none

/-- The entry at the socket path, the next unused inode, and every daemon process. -/
structure World (ι : Type*) where
  path : Option Entry
  next : Nat
  daemons : ι → Daemon

variable {ι : Type*} [DecidableEq ι]

def World.move (w : World ι) (p : ι) (d : Daemon) : World ι :=
  { w with daemons := Function.update w.daemons p d }

/-- `connect` to a socket file with this inode succeeds. -/
def World.Answers (w : World ι) (i : Nat) : Prop := ∃ q, (w.daemons q).listener = some i

/-- One system call of process `p`. -/
inductive Step : World ι → ι → World ι → Prop
  | start {w p} (h : w.daemons p = .absent) : Step w p (w.move p .acquiring)
  | acquire {w p} (h : w.daemons p = .acquiring) (free : ∀ q, q ≠ p → ¬(w.daemons q).Locks) :
      Step w p (w.move p .binding)
  | bind {w p} (h : w.daemons p = .binding ∨ w.daemons p = .rebinding) (free : w.path = none) :
      Step w p { w.move p (.bound w.next) with path := some (.socket w.next), next := w.next + 1 }
  | bindInUse {w p} (h : w.daemons p = .binding) (taken : w.path ≠ none) :
      Step w p (w.move p .probing)
  | probeRefused {w p i} (h : w.daemons p = .probing) (at_ : w.path = some (.socket i))
      (dead : ¬w.Answers i) : Step w p (w.move p .inspecting)
  | probeMissing {w p} (h : w.daemons p = .probing) (at_ : w.path = none) :
      Step w p (w.move p .inspecting)
  -- A connect to an entry that is no socket may be refused as well.
  | probeOther {w p} (h : w.daemons p = .probing) (at_ : w.path = some .other) :
      Step w p (w.move p .inspecting)
  | inspectMissing {w p} (h : w.daemons p = .inspecting) (at_ : w.path = none) :
      Step w p (w.move p .rebinding)
  | inspectSocket {w p i} (h : w.daemons p = .inspecting) (at_ : w.path = some (.socket i)) :
      Step w p (w.move p .removing)
  -- `remove_file` unlinks whatever is at the path by then, not what was inspected.
  | remove {w p} (h : w.daemons p = .removing) :
      Step w p { w.move p .rebinding with path := none }
  | listen {w p i} (h : w.daemons p = .bound i) : Step w p (w.move p (.listening i))
  | release {w p i} (h : w.daemons p = .listening i) : Step w p (w.move p (.serving i))
  | shutdown {w p i} (h : w.daemons p = .serving i) :
      Step w p { w.move p (.unlinked i) with path := none }
  -- The end of the process: after `shutdown`, on an error return (the probe connected, the entry
  -- is no socket, the second bind or any other call failed), or by a kill at any point.
  | exit {w p} : Step w p (w.move p .absent)

/-- Daemons around one socket path, none of them started, with anything left at the path. -/
def system (ι : Type*) [DecidableEq ι] : System (World ι) ι where
  init w := (∀ p, w.daemons p = .absent) ∧ ∀ i, w.path = some (.socket i) → i < w.next
  step := Step

/-- What holds of every reachable world. -/
structure Owned (w : World ι) : Prop where
  /-- One daemon at a time is inside `bind_daemon_socket_at`. -/
  lock : ∀ p q, (w.daemons p).Locks → (w.daemons q).Locks → p = q
  fresh : ∀ i, w.path = some (.socket i) → i < w.next
  freshOpen : ∀ p i, (w.daemons p).socket = some i → i < w.next
  unique : ∀ p q i, (w.daemons p).socket = some i → (w.daemons q).socket = some i → p = q
  /-- A daemon's socket file stays at the path until that daemon unlinks it. -/
  served : ∀ p i, (w.daemons p).served = some i → w.path = some (.socket i)
  gone : ∀ p i, w.daemons p = .unlinked i → w.path ≠ some (.socket i)
  /-- What the probe found refused stays without a listener until it is removed. -/
  stale : ∀ p, w.daemons p = .inspecting ∨ w.daemons p = .removing →
    ∀ i, w.path = some (.socket i) → ∀ q, (w.daemons q).socket ≠ some i
  kind : ∀ p, w.daemons p = .removing → w.path ≠ some .other

theorem owned_init {w : World ι} (h : (system ι).init w) : Owned w := by
  obtain ⟨idle, fresh⟩ := h
  constructor <;> simp_all [Daemon.Locks, Daemon.socket, Daemon.served]

/-- A step that leaves the path alone, opens no socket, and takes the bind lock only while it is
free. -/
theorem Owned.move {w : World ι} {p : ι} {d : Daemon} (h : Owned w)
    (hLock : d.Locks → (w.daemons p).Locks ∨ ∀ q, q ≠ p → ¬(w.daemons q).Locks)
    (hSocket : ∀ i, d.socket = some i → (w.daemons p).served = some i ∧ d.served = some i)
    (hStale : d = .inspecting ∨ d = .removing →
      ∀ i, w.path = some (.socket i) → ∀ q, (w.daemons q).socket ≠ some i)
    (hKind : d = .removing → w.path ≠ some .other) : Owned (w.move p d) := by
  have hOpen : ∀ i, d.socket = some i → (w.daemons p).socket = some i := by
    intro i hi
    have hs := (hSocket i hi).1
    cases hd : w.daemons p <;> simp_all [Daemon.served, Daemon.socket]
  have hServed : ∀ i, d.served = some i → d.socket = some i := by
    cases d <;> simp [Daemon.served, Daemon.socket]
  constructor <;> simp only [World.move, Function.update_apply]
  · intro a b ha hb
    have := h.lock
    split_ifs at ha hb <;> grind
  · exact h.fresh
  · intro a i ha
    split_ifs at ha
    · exact h.freshOpen p i (hOpen i ha)
    · exact h.freshOpen a i ha
  · intro a b i ha hb
    have := h.unique
    split_ifs at ha hb <;> grind
  · intro a i ha
    split_ifs at ha
    · exact h.served p i (hSocket i (hServed i ha)).1
    · exact h.served a i ha
  · intro a i ha
    split_ifs at ha
    · subst ha
      exact absurd (hSocket i rfl).2 (by simp [Daemon.served])
    · exact h.gone a i ha
  · intro a ha i hi b
    have hb : (w.daemons b).socket ≠ some i := by
      split_ifs at ha
      · exact hStale ha i hi b
      · exact h.stale a ha i hi b
    split_ifs with hbp
    · subst hbp
      exact fun hd => hb (hOpen i hd)
    · exact hb
  · intro a ha
    split_ifs at ha
    · exact hKind ha
    · exact h.kind a ha

/-- The bind of a new socket file, by a daemon that holds the bind lock. -/
theorem Owned.bind {w : World ι} {p : ι} (h : Owned w) (hLock : (w.daemons p).Locks)
    (free : w.path = none) :
    Owned { w.move p (.bound w.next) with
      path := some (.socket w.next), next := w.next + 1 } := by
  have unbound : ∀ q i, (w.daemons q).served ≠ some i := by
    intro q i hq
    simpa [free] using h.served q i hq
  have older : ∀ q, (w.daemons q).socket ≠ some w.next := fun q hq =>
    absurd (h.freshOpen q _ hq) (Nat.lt_irrefl _)
  constructor <;> simp only [World.move, Function.update_apply, Option.some.injEq,
    Entry.socket.injEq]
  · intro a b ha hb
    have := h.lock
    split_ifs at ha hb <;> grind
  · omega
  · intro a i ha
    split_ifs at ha
    · simp only [Daemon.socket, Option.some.injEq] at ha
      omega
    · exact Nat.lt_succ_of_lt (h.freshOpen a i ha)
  · intro a b i ha hb
    have := h.unique
    split_ifs at ha hb <;> grind [Daemon.socket]
  · intro a i ha
    split_ifs at ha
    · simpa [Daemon.served] using ha
    · exact absurd ha (unbound a i)
  · intro a i ha hi
    split_ifs at ha
    obtain rfl : w.next = i := by simpa using hi
    exact older a (by simp [ha, Daemon.socket])
  · intro a ha i hi b
    split_ifs at ha with hap
    · simp at ha
    · have held : (w.daemons a).Locks := by rcases ha with ha | ha <;> simp [ha, Daemon.Locks]
      exact absurd (h.lock a p held hLock) hap
  · simp

/-- The unlink of the file at the path, when no daemon but `p` has that socket open. -/
theorem Owned.unlink {w : World ι} {p : ι} {d : Daemon} (h : Owned w)
    (hLock : d.Locks → (w.daemons p).Locks)
    (hSocket : ∀ i, d.socket = some i → (w.daemons p).socket = some i) (hServed : d.served = none)
    (alone : ∀ i, w.path = some (.socket i) → ∀ q, q ≠ p → (w.daemons q).socket ≠ some i) :
    Owned { w.move p d with path := none } := by
  constructor <;> simp only [World.move, Function.update_apply, reduceCtorEq, false_implies,
    implies_true, ne_eq, not_false_eq_true]
  · intro a b ha hb
    have := h.lock
    split_ifs at ha hb <;> grind
  · intro a i ha
    split_ifs at ha
    · exact h.freshOpen p i (hSocket i ha)
    · exact h.freshOpen a i ha
  · intro a b i ha hb
    have := h.unique
    split_ifs at ha hb <;> grind
  · intro a i ha
    split_ifs at ha with hap
    · simp [hServed] at ha
    · have hs : (w.daemons a).socket = some i := by
        cases hd : w.daemons a <;> simp_all [Daemon.served, Daemon.socket]
      exact absurd hs (alone i (h.served a i ha) a hap)

omit [DecidableEq ι] in
/-- A refused probe means that nobody has the socket open: a daemon between bind and listen would
hold the bind lock. -/
theorem Owned.dead {w : World ι} {p : ι} {i : Nat} (h : Owned w) (hp : w.daemons p = .probing)
    (dead : ¬w.Answers i) (q : ι) :
    (w.daemons q).socket ≠ some i := by
  intro hq
  cases hd : w.daemons q with
  | bound j =>
    have : q = p := h.lock q p (by simp [hd, Daemon.Locks]) (by simp [hp, Daemon.Locks])
    simp [this, hp] at hd
  | listening j | serving j | unlinked j =>
    exact dead ⟨q, by simpa [hd, Daemon.socket, Daemon.listener] using hq⟩
  | _ => simp [hd, Daemon.socket] at hq

theorem owned_step {w w' : World ι} {p : ι} (h : Owned w) (step : Step w p w') : Owned w' := by
  cases step with
  | start hp | exit =>
    exact h.move (by simp [Daemon.Locks]) (by simp [Daemon.socket]) (by simp) (by simp)
  | acquire hp free =>
    exact h.move (fun _ => .inr free) (by simp [Daemon.socket]) (by simp) (by simp)
  | bind hp free =>
    exact h.bind (by rcases hp with hp | hp <;> simp [hp, Daemon.Locks]) free
  | bindInUse hp =>
    exact h.move (fun _ => .inl (by simp [hp, Daemon.Locks])) (by simp [Daemon.socket]) (by simp)
      (by simp)
  | probeRefused hp at_ dead =>
    refine h.move (fun _ => .inl (by simp [hp, Daemon.Locks])) (by simp [Daemon.socket]) ?_
      (by simp)
    intro _ i hi
    obtain rfl : _ = i := by simpa [at_] using hi
    exact h.dead hp dead
  | probeMissing hp at_ | probeOther hp at_ =>
    exact h.move (fun _ => .inl (by simp [hp, Daemon.Locks])) (by simp [Daemon.socket])
      (by simp [at_]) (by simp)
  | inspectMissing hp at_ =>
    exact h.move (fun _ => .inl (by simp [hp, Daemon.Locks])) (by simp [Daemon.socket]) (by simp)
      (by simp)
  | inspectSocket hp at_ =>
    exact h.move (fun _ => .inl (by simp [hp, Daemon.Locks])) (by simp [Daemon.socket])
      (fun _ => h.stale p (.inl hp)) (by simp [at_])
  | remove hp =>
    exact h.unlink (fun _ => by simp [hp, Daemon.Locks]) (by simp [Daemon.socket]) rfl
      fun i hi q _ => h.stale p (.inr hp) i hi q
  | listen hp | release hp =>
    exact h.move (fun _ => by simp [hp, Daemon.Locks])
      (by simp [hp, Daemon.socket, Daemon.served]) (by simp) (by simp)
  | @shutdown i hp =>
    refine h.unlink (by simp [Daemon.Locks]) (by simp [hp, Daemon.socket]) rfl ?_
    intro j hj q hq hopen
    have mine : w.path = some (.socket i) := h.served p i (by simp [hp, Daemon.served])
    obtain rfl : i = j := by simpa [hj] using mine.symm
    exact hq (h.unique q p i hopen (by simp [hp, Daemon.socket]))

theorem owned_reachable {w : World ι} (h : (system ι).Reachable w) : Owned w :=
  h.invariant (fun _ => owned_init) fun _ _ _ _ ih step => owned_step ih step

/-- A step that takes an entry away from the path unlinks a socket on which nobody else listens. -/
theorem Owned.unlinked_alone {w w' : World ι} {p : ι} {e : Entry} (h : Owned w)
    (step : Step w p w') (before : w.path = some e) (after : w'.path ≠ some e) :
    ∃ i, e = .socket i ∧ ∀ q, q ≠ p → (w.daemons q).socket ≠ some i := by
  cases step with
  | bind _ free => simp [free] at before
  | remove hp =>
    cases e with
    | other => exact absurd before (h.kind p hp)
    | socket i => exact ⟨i, rfl, fun q _ => h.stale p (.inr hp) i before q⟩
  | @shutdown i hp =>
    have mine : w.path = some (.socket i) := h.served p i (by simp [hp, Daemon.served])
    obtain rfl : .socket i = e := by simpa [before] using mine.symm
    exact ⟨i, rfl, fun q hq ho => hq (h.unique q p i ho (by simp [hp, Daemon.socket]))⟩
  | _ => exact absurd before after

theorem Daemon.socket_of_listener {d : Daemon} {i : Nat} (h : d.listener = some i) :
    d.socket = some i := by
  cases d <;> simp_all [Daemon.listener, Daemon.socket]

/-- At most one daemon listens on the socket file at the path, and no system call takes away a
socket file on which another daemon listens, or an entry that is no socket. -/
theorem single_ownership {w : World ι} (h : (system ι).Reachable w) :
    (∀ i, w.path = some (.socket i) → ∀ p q, (w.daemons p).listener = some i →
      (w.daemons q).listener = some i → p = q) ∧
    ∀ p w' e, (system ι).step w p w' → w.path = some e → w'.path ≠ some e →
      ∃ i, e = .socket i ∧ ∀ q, q ≠ p → (w.daemons q).listener ≠ some i := by
  have owned := owned_reachable h
  refine ⟨fun i _ p q hp hq => ?_, fun p w' e step before after => ?_⟩
  · exact owned.unique p q i (Daemon.socket_of_listener hp) (Daemon.socket_of_listener hq)
  · obtain ⟨i, he, alone⟩ := owned.unlinked_alone step before after
    exact ⟨i, he, fun q hq hl => alone q hq (Daemon.socket_of_listener hl)⟩

/-- A daemon that finds the socket file of a killed one recovers the path and owns it alone. -/
theorem single_ownership_recovered : ∃ w : World Bool, w.path = some (.socket 1) ∧
    w.daemons true = .serving 1 ∧ ∀ q, (w.daemons q).listener = some 1 → q = true := by
  have h0 : (system Bool).Reachable ⟨some (.socket 0), 1, fun _ => .absent⟩ :=
    .init ⟨fun _ => rfl, by simp⟩
  have h1 := h0.step (a := true) (.start rfl)
  have h2 := h1.step (a := true) (.acquire rfl (by simp [World.move, Daemon.Locks]))
  have h3 := h2.step (a := true) (.bindInUse rfl (by simp [World.move]))
  have h4 := h3.step (a := true) (.probeRefused (i := 0) rfl rfl
    (by simp [World.Answers, World.move, Daemon.listener]))
  have h5 := h4.step (a := true) (.inspectSocket rfl rfl)
  have h6 := h5.step (a := true) (.remove rfl)
  have h7 := h6.step (a := true) (.bind (.inr rfl) rfl)
  have h8 := h7.step (a := true) (.listen rfl)
  have h9 := h8.step (a := true) (.release rfl)
  exact ⟨_, rfl, rfl, fun q hq => (single_ownership h9).1 1 rfl q true hq rfl⟩

end AcpAgent.Server.Socket
