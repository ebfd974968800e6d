import AcpAgent.Lib.FileSystem

/-! Paths below a directory on which there are only directories: where they lead, and what the
operations make at their ends. -/

namespace FileSystem

variable {ν : Type*}

/-- Strictly between a directory and the end of a path below it there are directories. -/
def Grown (fs : Fs ν) (base names : List ν) : Prop :=
  ∀ front, front <+: names → front ≠ [] → front ≠ names → fs (base ++ front) = some .dir

/-- There, nothing but directories is in the way. -/
def Passable (fs : Fs ν) (base names : List ν) : Prop :=
  ∀ front, front <+: names → front ≠ [] → front ≠ names →
    fs (base ++ front) = none ∨ fs (base ++ front) = some .dir

section Walk

variable {fs fs₀ : Fs ν} {follow : Bool} {base names : List ν} {links : ℕ}
  {jump : List ν → List (Component ν) → Except Errno (List ν)}

theorem Grown.cons {n : ν} (h : Grown fs base (n :: names)) : Grown fs (base ++ [n]) names := by
  intro front below some_ proper
  have inside := h (n :: front) (List.cons_prefix_cons.mpr ⟨rfl, below⟩) (by simp)
    (fun same => proper (List.cons.inj same).2)
  rwa [List.append_assoc, List.singleton_append]

theorem Passable.cons {n : ν} (h : Passable fs base (n :: names)) :
    Passable fs (base ++ [n]) names := by
  intro front below some_ proper
  have inside := h (n :: front) (List.cons_prefix_cons.mpr ⟨rfl, below⟩) (by simp)
    (fun same => proper (List.cons.inj same).2)
  rwa [List.append_assoc, List.singleton_append]

/-- A path through directories ends where it says, if it does not end at a link that is followed. -/
theorem walk_grown (some_ : names ≠ []) (h : Grown fs base names)
    (last : follow = true → ∀ target, fs (base ++ names) ≠ some (.link target)) :
    walk fs follow jump base (names.map .name) = .ok (base ++ names) := by
  induction names generalizing base with
  | nil => exact absurd rfl some_
  | cons n names ih =>
    rw [List.map_cons, walk]
    cases names with
    | nil =>
      rcases entry : fs (base ++ [n]) with _ | _ | _ | target
      · rfl
      · rfl
      · rfl
      · cases follow with
        | true => exact absurd entry (last rfl target)
        | false => rfl
    | cons m names =>
      have dir : fs (base ++ [n]) = some .dir :=
        h [n] (List.prefix_append [n] (m :: names)) (by simp) (by simp)
      rw [dir]
      have rest := ih (by simp) h.cons (by simpa using last)
      simpa using rest

/-- A path that nothing is in the way of is missing a directory, or passes through directories. -/
theorem grown_or_missing (h : Passable fs base names) : Grown fs base names ∨
    walk fs follow jump base (names.map .name) = .error .notFound := by
  induction names generalizing base with
  | nil =>
    refine .inl fun front below some_ => ?_
    exact absurd (List.prefix_nil.mp below) some_
  | cons n names ih =>
    cases names with
    | nil =>
      refine .inl fun front below some_ proper => ?_
      rcases List.prefix_cons_iff.mp below with rfl | ⟨rest, rfl, within⟩
      · exact absurd rfl some_
      · obtain rfl := List.prefix_nil.mp within
        exact absurd rfl proper
    | cons m names =>
      have first := h [n] (List.prefix_append [n] (m :: names)) (by simp) (by simp)
      rw [List.map_cons, walk]
      rcases first with missing | dir
      · refine .inr ?_
        rw [missing]
        rfl
      · rw [dir]
        rcases ih h.cons with grown | missing
        · refine .inl fun front below some_ proper => ?_
          rcases List.prefix_cons_iff.mp below with rfl | ⟨rest, rfl, within⟩
          · exact absurd rfl some_
          · rcases eq_or_ne rest [] with rfl | longer
            · exact dir
            · have inner := grown rest within longer fun same => proper (congrArg (n :: ·) same)
              rwa [List.append_assoc, List.singleton_append] at inner
        · exact .inr missing

theorem resolve_eq_walk (fs : Fs ν) (follow : Bool) (links : ℕ) : ∃ jump,
    resolve fs follow links = walk fs follow jump := by
  cases links with
  | zero => exact ⟨_, rfl⟩
  | succ links => exact ⟨_, rfl⟩

end Walk

/-! ### Below a directory that was empty -/

section Below

variable {fs fs₀ : Fs ν} {follow : Bool} {links : ℕ} {base names : List ν}
  {path : List (Component ν)}

/-- What is known of a directory that is being filled, and of the path that leads to it. -/
structure Filling (fs₀ fs : Fs ν) (links : ℕ) (path : List (Component ν)) (base : List ν) :
    Prop where
  empty : EmptyDir fs₀ base
  leads : resolve fs₀ true links [] path = .ok base
  filled : Filled fs₀ fs base

theorem Filling.resolve_grown (h : Filling fs₀ fs links path base) (some_ : names ≠ [])
    (grown : Grown fs base names)
    (last : follow = true → ∀ target, fs (base ++ names) ≠ some (.link target)) :
    resolve fs follow links [] (join path names) = .ok (base ++ names) := by
  obtain ⟨left, through⟩ := (resolve_reaches h.filled h.empty h.leads).through
  obtain ⟨jump, walks⟩ := resolve_eq_walk fs follow left
  rw [join, through follow _ (.inl (by simpa using some_)), walks]
  exact walk_grown some_ grown last

theorem Filling.grown_or_missing (h : Filling fs₀ fs links path base) (follow : Bool)
    (some_ : names ≠ []) (passable : Passable fs base names) : Grown fs base names ∨
      resolve fs follow links [] (join path names) = .error .notFound := by
  obtain ⟨left, through⟩ := (resolve_reaches h.filled h.empty h.leads).through
  obtain ⟨jump, walks⟩ := resolve_eq_walk fs follow left
  rw [join, through follow _ (.inl (by simpa using some_)), walks]
  exact FileSystem.grown_or_missing passable

end Below

/-! ### Operations at the end of a branch -/

section Operations

variable [DecidableEq ν] {refuses : Fs ν → List ν → Bool} {fs fs₀ fs' : Fs ν} {follow : Bool}
  {links : ℕ} {base names real : List ν} {path : List (Component ν)}

/-- An operation that succeeds has found directories above, and takes effect where its path says. -/
theorem Filling.operate_ok (h : Filling fs₀ fs links path base) (some_ : names ≠ [])
    (passable : Passable fs base names)
    (last : follow = true → ∀ target, fs (base ++ names) ≠ some (.link target))
    {change : Option (Entry ν) → Except Errno (Option (Entry ν))}
    (ok : operate refuses links follow change (join path names) fs = .ok (real, fs')) :
    Grown fs base names ∧ real = base ++ names ∧
      (change (fs (base ++ names)) = .ok none ∧ fs' = fs ∨
        ∃ entry, change (fs (base ++ names)) = .ok (some entry) ∧
          fs' = Function.update fs (base ++ names) (some entry)) := by
  have there : entryAt fs (base ++ names) = fs (base ++ names) := if_neg (by simp [some_])
  unfold operate at ok
  rcases h.grown_or_missing follow some_ passable with grown | missing
  · rw [h.resolve_grown some_ grown last] at ok
    dsimp only at ok
    split_ifs at ok
    rw [there] at ok
    cases changed : change (fs (base ++ names)) with
    | error e => simp [changed] at ok
    | ok made =>
      cases made with
      | none =>
        simp only [changed, Except.ok.injEq, Prod.mk.injEq] at ok
        exact ⟨grown, ok.1.symm, .inl ⟨rfl, ok.2.symm⟩⟩
      | some entry =>
        simp only [changed, Except.ok.injEq, Prod.mk.injEq] at ok
        exact ⟨grown, ok.1.symm, .inr ⟨entry, rfl, ok.2.symm⟩⟩
  · rw [missing] at ok
    cases ok

omit [DecidableEq ν] in
theorem create_eq_ok {entry : Entry ν} {before made : Option (Entry ν)}
    (h : create entry before = .ok made) : before = none ∧ made = some entry := by
  cases before with
  | none => exact ⟨rfl, (Except.ok.inj h).symm⟩
  | some _ => cases h

theorem Filling.create_ok (h : Filling fs₀ fs links path base) (some_ : names ≠ [])
    (passable : Passable fs base names) {entry : Entry ν}
    (ok : operate refuses links false (create entry) (join path names) fs = .ok (real, fs')) :
    Grown fs base names ∧ real = base ++ names ∧ fs (base ++ names) = none ∧
      fs' = Function.update fs (base ++ names) (some entry) := by
  obtain ⟨grown, at_, ⟨made, -⟩ | ⟨made, same, changed⟩⟩ :=
    h.operate_ok some_ passable (fun follows => absurd follows Bool.false_ne_true) ok
  · exact nomatch (create_eq_ok made).2
  · obtain ⟨fresh, rfl⟩ : fs (base ++ names) = none ∧ made = entry := by
      simpa using create_eq_ok same
    exact ⟨grown, at_, fresh, changed⟩

theorem Filling.createFile_ok (h : Filling fs₀ fs links path base) (some_ : names ≠ [])
    (passable : Passable fs base names) (fresh : fs (base ++ names) = none)
    (ok : createFile refuses links (join path names) fs = .ok (real, fs')) :
    real = base ++ names ∧ fs' = Function.update fs (base ++ names) (some .file) := by
  obtain ⟨-, at_, made⟩ := h.operate_ok some_ passable (by simp [fresh]) ok
  simp only [fresh, Except.ok.injEq, reduceCtorEq, false_and, Option.some.injEq, exists_eq_left',
    false_or] at made
  exact ⟨at_, made⟩

theorem Filling.setPermissions_ok (h : Filling fs₀ fs links path base) (some_ : names ≠ [])
    (passable : Passable fs base names)
    (last : ∀ target, fs (base ++ names) ≠ some (.link target))
    (ok : setPermissions refuses links (join path names) fs = .ok (real, fs')) :
    real = base ++ names ∧ fs' = fs := by
  obtain ⟨-, at_, made⟩ := h.operate_ok some_ passable (fun _ => last) ok
  refine ⟨at_, ?_⟩
  cases there : fs (base ++ names) with
  | none => simp [there] at made
  | some entry => simpa [there] using made

/-- Along a path there are directories now, and elsewhere is what there was. -/
structure Branched (fs fs' : Fs ν) (base names : List ν) : Prop where
  dirs : ∀ front, front <+: names → front ≠ [] → fs' (base ++ front) = some .dir
  rest : ∀ p, (∀ front, front <+: names → front ≠ [] → p ≠ base ++ front) → fs' p = fs p

omit [DecidableEq ν] in
theorem Branched.refl (fs : Fs ν)
    (dirs : ∀ front, front <+: names → front ≠ [] → fs (base ++ front) = some .dir) :
    Branched fs fs base names :=
  ⟨dirs, fun _ _ => rfl⟩

/-- Nothing but directories is on the path or at its end. -/
def Clear (fs : Fs ν) (base names : List ν) : Prop :=
  ∀ front, front <+: names → front ≠ [] → fs (base ++ front) = none ∨ fs (base ++ front) = some .dir

omit [DecidableEq ν] in
theorem Clear.passable (h : Clear fs base names) : Passable fs base names :=
  fun front below some_ _ => h front below some_

omit [DecidableEq ν] in
theorem Clear.not_link (h : Clear fs base names) (some_ : names ≠ []) (target : List (Component ν)) :
    fs (base ++ names) ≠ some (.link target) := by
  intro link
  rcases h names List.prefix_rfl some_ with missing | dir
  · simp [link] at missing
  · simp [link] at dir

omit [DecidableEq ν] in
theorem Grown.branched (h : Grown fs base names) (last : fs (base ++ names) = some .dir) :
    Branched fs fs base names := by
  refine .refl fs fun front below some_ => ?_
  by_cases whole : front = names
  · rw [whole]
    exact last
  · exact h front below some_ whole

theorem Filling.branched_of_isDir (h : Filling fs₀ fs links path base) (some_ : names ≠ [])
    (clear : Clear fs base names) (dir : isDir links (join path names) fs = true) :
    Branched fs fs base names := by
  unfold isDir at dir
  rcases h.grown_or_missing true some_ clear.passable with grown | missing
  · rw [h.resolve_grown some_ grown fun _ => clear.not_link some_] at dir
    have there : entryAt fs (base ++ names) = fs (base ++ names) := if_neg (by simp [some_])
    dsimp only at dir
    rw [there] at dir
    refine grown.branched ?_
    rcases clear names List.prefix_rfl some_ with missing | made
    · rw [missing] at dir
      cases dir
    · exact made
  · rw [missing] at dir
    cases dir

/-- A directory that is made, with those above it that were there. -/
theorem Grown.branched_update (h : Grown fs base names) (some_ : names ≠ []) :
    Branched fs (Function.update fs (base ++ names) (some .dir)) base names := by
  refine ⟨fun front below some_ => ?_, fun p other => ?_⟩
  · by_cases whole : front = names
    · rw [whole, Function.update_self]
    · have elsewhere : base ++ front ≠ base ++ names := fun same =>
        whole (List.append_cancel_left same)
      rw [Function.update_of_ne elsewhere]
      exact h front below some_ whole
  · rw [Function.update_of_ne (other names List.prefix_rfl some_)]

omit [DecidableEq ν] in
theorem Branched.trans_snoc {fs'' : Fs ν} {n : ν} (h : Branched fs fs' base names)
    (h' : Branched fs' fs'' base (names ++ [n])) : Branched fs fs'' base (names ++ [n]) := by
  refine ⟨h'.dirs, fun p other => ?_⟩
  rw [h'.rest p other]
  exact h.rest p fun front below some_ => other front (below.trans (List.prefix_append _ _)) some_

omit [DecidableEq ν] in
theorem Branched.clear {n : ν} (h : Branched fs fs' base names)
    (clear : Clear fs base (names ++ [n])) : Clear fs' base (names ++ [n]) := by
  intro front below some_
  by_cases made : front <+: names
  · exact .inr (h.dirs front made some_)
  · rw [h.rest]
    · exact clear front below some_
    · intro other within _ same
      exact made (List.append_cancel_left same ▸ within)

theorem Filling.createDirAll (h : Filling fs₀ fs links path base) (names : List ν) :
    Filling fs₀ (createDirAll refuses links (join path names).reverse fs).2.1 links path base :=
  ⟨h.empty, h.leads, (h.filled.createDirAll refuses h.empty h.leads names).2⟩

/-- `create_dir_all` makes the directories of its path that are missing, and nothing else. -/
theorem Filling.createDirAll_ok (h : Filling fs₀ fs links path base) (clear : Clear fs base names)
    (ok : (FileSystem.createDirAll refuses links (join path names).reverse fs).2.2 = .ok ()) :
    Branched fs (FileSystem.createDirAll refuses links (join path names).reverse fs).2.1 base
      names := by
  induction names using List.reverseRecOn generalizing fs with
  | nil =>
    have nothing : ∀ front : List ν, front <+: [] → front ≠ [] → fs (base ++ front) = some .dir :=
      fun front below some_ => absurd (List.prefix_nil.mp below) some_
    rw [join, List.map_nil, List.append_nil]
    cases rev : path.reverse with
    | nil => exact .refl fs nothing
    | cons c parent =>
      have path_eq : (c :: parent).reverse = path := by rw [← rev, List.reverse_reverse]
      obtain ⟨e, there, other⟩ := h.filled.mkdir_self refuses h.empty h.leads
      simp only [FileSystem.createDirAll, path_eq, there]
      cases e with
      | notFound => exact absurd rfl other
      | _ => exact .refl fs nothing
  | append_singleton names n ih =>
    have rev : (join path (names ++ [n])).reverse = .name n :: (join path names).reverse := by
      simp [join]
    have path_eq : (.name n :: (join path names).reverse).reverse = join path (names ++ [n]) := by
      rw [← rev, List.reverse_reverse]
    have some_ : names ++ [n] ≠ [] := by simp
    have clear' : Clear fs base names := fun front below =>
      clear front (below.trans (List.prefix_append _ _))
    rw [rev, FileSystem.createDirAll, path_eq] at ok ⊢
    split at ok
    · next real fs' made =>
      obtain ⟨grown, -, -, rfl⟩ := h.create_ok some_ clear.passable made
      exact grown.branched_update some_
    · have h' : Filling fs₀ (FileSystem.createDirAll refuses links (join path names).reverse fs).2.1
          links path base := h.createDirAll names
      have branched := ih h clear'
      split at ok
      · cases ok
      · next made fs' _ parents =>
        rw [parents] at h' branched
        have open_ := (branched rfl).clear clear
        split at ok
        · next real fs'' last =>
          obtain ⟨grown, -, -, rfl⟩ := h'.create_ok some_ open_.passable last
          exact (branched rfl).trans_snoc (grown.branched_update some_)
        · split_ifs at ok with dir
          exact (branched rfl).trans_snoc (h'.branched_of_isDir some_ open_ dir)
    · split_ifs at ok with dir
      exact h.branched_of_isDir some_ clear dir

theorem Branched.at_ (h : Branched fs fs' base names) {other : List ν} (some_ : other ≠ []) :
    fs' (base ++ other) = if other <+: names then some .dir else fs (base ++ other) := by
  split_ifs with below
  · exact h.dirs other below some_
  · refine h.rest _ fun front within _ same => below ?_
    rwa [List.append_cancel_left same]

theorem Filling.update (h : Filling fs₀ fs links path base) (some_ : names ≠ []) {entry : Entry ν}
    (inward : ∀ target, entry = .link target → Inward target) :
    Filling fs₀ (Function.update fs (base ++ names) (some entry)) links path base :=
  ⟨h.empty, h.leads, h.filled.update ⟨List.prefix_append _ _, by simpa using some_⟩ inward⟩

end Operations

end FileSystem
