import Mathlib.Data.List.Infix

/-! Computations that perform operations one after another and may stop with an error, and what holds
after every one of their operations. -/

/-- The operations that a computation performs, and its value or what it stops with. -/
structure Logged (ω ε α : Type) where
  log : List ω
  result : Except ε α

namespace Logged

variable {ω ε α β : Type}

def pure (a : α) : Logged ω ε α := ⟨[], .ok a⟩

def bind (m : Logged ω ε α) (f : α → Logged ω ε β) : Logged ω ε β :=
  match m.result with
  | .ok a => ⟨m.log ++ (f a).log, (f a).result⟩
  | .error e => ⟨m.log, .error e⟩

instance : Monad (Logged ω ε) where
  pure := pure
  bind := bind

/-- Performs an operation. -/
def perform (op : ω) : Logged ω ε Unit := ⟨[op], .ok ()⟩

/-- Stops with an error. -/
def stop (e : ε) : Logged ω ε α := ⟨[], .error e⟩

/-- Stops with an error unless something holds. -/
def require (p : Prop) [Decidable p] (e : ε) : Logged ω ε Unit := if p then pure () else stop e

/-- The value of a computation that performs nothing. -/
def ofExcept (x : Except ε α) : Logged ω ε α := ⟨[], x⟩

@[simp] theorem require_bind (p : Prop) [Decidable p] (e : ε) (f : Unit → Logged ω ε β) :
    (require p e >>= f) = if p then f () else stop e := by
  change bind _ _ = _
  unfold require bind
  split_ifs <;> rfl

@[simp] theorem perform_bind_log (op : ω) (f : Unit → Logged ω ε β) :
    (perform op >>= f).log = op :: (f ()).log := rfl

@[simp] theorem stop_log (e : ε) : (stop e : Logged ω ε α).log = [] := rfl

theorem bind_result {m : Logged ω ε α} {a : α} (h : m.result = .ok a) (f : α → Logged ω ε β) :
    (m >>= f).result = (f a).result := by
  change (bind m f).result = _
  unfold bind
  rw [h]

theorem bind_log {m : Logged ω ε α} {a : α} (h : m.result = .ok a) (f : α → Logged ω ε β) :
    (m >>= f).log = m.log ++ (f a).log := by
  change (bind m f).log = _
  unfold bind
  rw [h]

theorem bind_of_ok {m : Logged ω ε α} {a : α} (h : m.result = .ok a) (f : α → Logged ω ε β) :
    m >>= f = ⟨m.log ++ (f a).log, (f a).result⟩ := by
  rw [← bind_log h, ← bind_result h]

theorem bind_of_error {m : Logged ω ε α} {e : ε} (h : m.result = .error e)
    (f : α → Logged ω ε β) : m >>= f = ⟨m.log, .error e⟩ := by
  change bind m f = _
  unfold bind
  rw [h]

/-- After the operations `done`, `always` holds after every operation of the computation, `post`
where it ends, and `wrong` where it stops with an error. -/
structure Meets (done : List ω) (m : Logged ω ε α) (always : List ω → Prop)
    (post : α → List ω → Prop) (wrong : ε → Prop) : Prop where
  always : ∀ p, p <+: m.log → always (done ++ p)
  ends : ∀ a, m.result = .ok a → post a (done ++ m.log)
  stops : ∀ e, m.result = .error e → wrong e

variable {done : List ω} {m : Logged ω ε α} {f : α → Logged ω ε β} {always : List ω → Prop}
  {post : α → List ω → Prop} {post' : β → List ω → Prop} {wrong : ε → Prop}

theorem Meets.pure {a : α} (now : always done) (h : post a done) :
    Meets done (pure a) always post wrong where
  always p hp := by
    rw [List.prefix_nil.mp hp, List.append_nil]
    exact now
  ends b hb := by
    obtain rfl := Except.ok.inj hb
    simpa [Logged.pure] using h
  stops e he := by simp [Logged.pure] at he

theorem Meets.stop {e : ε} (now : always done) (h : wrong e) :
    Meets done (stop e) always post wrong where
  always p hp := by
    rw [List.prefix_nil.mp hp, List.append_nil]
    exact now
  ends b hb := by simp [Logged.stop] at hb
  stops e' he := Except.error.inj he ▸ h

theorem Meets.perform {op : ω} {post : Unit → List ω → Prop} (now : always done)
    (next : always (done ++ [op])) (h : post () (done ++ [op])) :
    Meets done (perform op : Logged ω ε Unit) always post wrong where
  always p hp := by
    rcases List.prefix_cons_iff.mp hp with rfl | ⟨q, rfl, hq⟩
    · simpa using now
    · rw [List.prefix_nil.mp hq]
      exact next
  ends _ _ := h
  stops e he := by simp [Logged.perform] at he

theorem Meets.require {p : Prop} [Decidable p] {e : ε} {post : Unit → List ω → Prop}
    (now : always done) (h : p → post () done) (fails : ¬p → wrong e) :
    Meets done (require p e : Logged ω ε Unit) always post wrong := by
  unfold Logged.require
  split_ifs with hp
  · exact Meets.pure now (h hp)
  · exact Meets.stop now (fails hp)

theorem Meets.ofExcept {x : Except ε α} (now : always done) (h : ∀ a, x = .ok a → post a done)
    (fails : ∀ e, x = .error e → wrong e) : Meets done (ofExcept x) always post wrong where
  always p hp := by
    rw [List.prefix_nil.mp hp, List.append_nil]
    exact now
  ends a ha := by simpa [Logged.ofExcept] using h a ha
  stops e he := fails e he

theorem Meets.bind (hm : Meets done m always post wrong)
    (hf : ∀ a done', post a done' → Meets done' (f a) always post' wrong) :
    Meets done (m >>= f) always post' wrong := by
  have unfolded : m >>= f = Logged.bind m f := rfl
  rw [unfolded]
  unfold Logged.bind
  cases result : m.result with
  | error e =>
    exact ⟨hm.always, fun b hb => by simp at hb,
      fun e' he => Except.error.inj he ▸ hm.stops e result⟩
  | ok a =>
    have rest := hf a (done ++ m.log) (hm.ends a result)
    refine ⟨fun p hp => ?_, fun b hb => ?_, fun e he => rest.stops e he⟩
    · obtain ⟨t, ht⟩ := hp
      rcases List.append_eq_append_iff.mp ht with ⟨q, front, -⟩ | ⟨q, rfl, back⟩
      · exact hm.always p ⟨q, front.symm⟩
      · rw [← List.append_assoc]
        exact rest.always q ⟨t, back.symm⟩
    · rw [← List.append_assoc]
      exact rest.ends b hb

theorem Meets.require_quiet {p : Prop} [Decidable p] {e : ε} (now : always done) (fails : wrong e) :
    Meets done (Logged.require p e : Logged ω ε Unit) always (fun _ log => log = done ∧ p) wrong :=
  .require now (fun hp => ⟨rfl, hp⟩) fun _ => fails

theorem Meets.ofExcept_quiet {x : Except ε α} (now : always done)
    (fails : ∀ e, x = .error e → wrong e) :
    Meets done (Logged.ofExcept x) always (fun a log => log = done ∧ x = .ok a) wrong :=
  .ofExcept now (fun _ ok => ⟨rfl, ok⟩) fails

/-- After a computation that performs nothing. -/
theorem Meets.bind_quiet {good : α → Prop}
    (hm : Meets done m always (fun a log => log = done ∧ good a) wrong)
    (hf : ∀ a, good a → Meets done (f a) always post' wrong) :
    Meets done (m >>= f) always post' wrong :=
  hm.bind fun a _ ⟨same, ha⟩ => same ▸ hf a ha

theorem Meets.mono {always' : List ω → Prop} {post₂ : α → List ω → Prop} {wrong' : ε → Prop}
    (h : Meets done m always post wrong) (ha : ∀ log, always log → always' log)
    (hp : ∀ a log, post a log → post₂ a log) (hw : ∀ e, wrong e → wrong' e) :
    Meets done m always' post₂ wrong' :=
  ⟨fun p prefix_ => ha _ (h.always p prefix_), fun a result => hp _ _ (h.ends a result),
    fun e result => hw _ (h.stops e result)⟩

/-! ### Computations that differ in their errors only -/

/-- The computations perform the same operations, and end with the same value or both with an
error. -/
structure Agrees (m m' : Logged ω ε α) : Prop where
  log : m.log = m'.log
  result : m.result.toOption = m'.result.toOption

variable {m' : Logged ω ε α} {f' : α → Logged ω ε β}

theorem Agrees.refl (m : Logged ω ε α) : m.Agrees m := ⟨rfl, rfl⟩

theorem Agrees.ofExcept {x y : Except ε α} (h : x.toOption = y.toOption) :
    (ofExcept x : Logged ω ε α).Agrees (ofExcept y) :=
  ⟨rfl, h⟩

theorem Agrees.bind (hm : m.Agrees m') (hf : ∀ a, m.result = .ok a → (f a).Agrees (f' a)) :
    (m >>= f).Agrees (m' >>= f') := by
  obtain ⟨log, result⟩ := hm
  have unfolded : m >>= f = Logged.bind m f ∧ m' >>= f' = Logged.bind m' f' := ⟨rfl, rfl⟩
  rw [unfolded.1, unfolded.2]
  unfold Logged.bind
  cases h : m.result with
  | ok a =>
    cases h' : m'.result with
    | ok a' =>
      obtain rfl : a = a' := by simpa [h, h', Except.toOption] using result
      have next := hf a h
      exact ⟨congrArg₂ _ log next.log, next.result⟩
    | error e' => simp [h, h', Except.toOption] at result
  | error e =>
    cases h' : m'.result with
    | ok a' => simp [h, h', Except.toOption] at result
    | error e' => exact ⟨log, rfl⟩

end Logged
