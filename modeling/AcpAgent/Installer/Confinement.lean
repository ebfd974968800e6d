import AcpAgent.Installer.ZipPasses

/-! ZIP extraction stays in its destination: the actions performed on a file system, in which the
paths of later entries may pass through the links of earlier ones. -/

namespace AcpAgent.Installer

open FileSystem (Fs Component EmptyDir Filled Inside Inward Downward join)

/-! ### Performing the actions -/

section Performing

variable (refuses : Fs Str → List Str → Bool) (links : ℕ) (destination : List (Component Str))

/-- The file system, and where the file is that was opened last. -/
structure Unpacking where
  fs : Fs Str
  opened : Option (List Str)

/-- Where an action takes effect, what it leaves and whether it succeeds. -/
structure Effect where
  changed : List (List Str)
  after : Unpacking
  succeeds : Bool

/-- The effect of a call at one path. -/
def Effect.ofCall (u : Unpacking) : Except FileSystem.Errno (List Str × Fs Str) → Effect
  | .ok (real, fs) => ⟨[real], { u with fs }, true⟩
  | .error _ => ⟨[], u, false⟩

/-- ZIP extraction performs no `createOther`. -/
def Action.effect (u : Unpacking) : Action → Effect
  | .entry => ⟨[], u, true⟩
  | .createDirAll path =>
    let (made, fs, result) :=
      FileSystem.createDirAll refuses links (join destination path).reverse u.fs
    ⟨made, { u with fs }, result.isOk⟩
  | .createFile path =>
    match FileSystem.createFile refuses links (join destination path) u.fs with
    | .ok (real, fs) => ⟨[real], ⟨fs, some real⟩, true⟩
    | .error _ => ⟨[], u, false⟩
  | .write _ => ⟨u.opened.toList, u, true⟩
  | .symlink target path => .ofCall u
    (FileSystem.symlink refuses links (components target) (join destination path) u.fs)
  | .setPermissions path _ => .ofCall u
    (FileSystem.setPermissions refuses links (join destination path) u.fs)
  | .createOther _ => ⟨[], u, false⟩

/-- Performs actions up to the first that fails. -/
def performAll (u : Unpacking) : List Action → List (List Str) × Unpacking
  | [] => ([], u)
  | op :: ops =>
    let effect := op.effect refuses links destination u
    if effect.succeeds then
      let (changed, u) := performAll effect.after ops
      (effect.changed ++ changed, u)
    else (effect.changed, effect.after)

end Performing

/-! ### Actions that are validated -/

/-- What an action needs to stay in the destination. -/
def Action.Validated : Action → Prop
  | .createFile path | .setPermissions path _ => path ≠ []
  | .symlink target path => Inward (components target) ∧ path ≠ []
  | _ => True

abbrev AllValidated (log : List Action) : Prop := ∀ op ∈ log, op.Validated

section Validated

theorem AllValidated.append_one {log : List Action} {op : Action} (h : AllValidated log)
    (hop : op.Validated) : AllValidated (log ++ [op]) := by
  intro other hmem
  rcases List.mem_append.mp hmem with front | back
  · exact h other front
  · exact List.mem_singleton.mp back ▸ hop

variable {done : List Action}

theorem validated_perform (op : Action) (now : AllValidated done) (hop : op.Validated) :
    Logged.Meets done (.perform op : Extract Unit) AllValidated (fun _ log => AllValidated log)
      fun _ => True :=
  .perform now (now.append_one hop) (now.append_one hop)

theorem AllPlaced.validated {log : List Action} (h : AllPlaced log) : AllValidated log := by
  intro op hop
  have placed := h op hop
  cases op with
  | setPermissions => exact placed.elim
  | _ => exact placed

/-- The paths of the second pass have names too. -/
structure ZipValidated (s : ZipState) (log : List Action) : Prop where
  log : AllValidated log
  modes : ∀ mode ∈ s.unixModes, mode.1 ≠ []

theorem validated_zipEntries (limits : ArchiveLimits) (entries : List (Option ZipEntry)) :
    Logged.Meets [] (extractZipEntries limits 0 .empty entries) AllValidated ZipValidated
      fun _ => True := by
  have start : Placing [] .empty [] := ⟨List.forall_mem_nil _, rfl, List.forall_mem_nil _⟩
  refine (placed_zipEntries start entries).mono (fun _ h => h.validated) (fun s log h => ?_)
    fun _ h => h
  obtain ⟨placed, pushed, named⟩ := h
  exact ⟨placed.validated, pushed ▸ named⟩

theorem validated_setModes (modes : List (List Str × UInt32)) (named : ∀ mode ∈ modes, mode.1 ≠ [])
    (now : AllValidated done) :
    Logged.Meets done (setModes modes) AllValidated (fun _ log => AllValidated log)
      fun _ => True := by
  induction modes generalizing done with
  | nil => exact .pure now now
  | cons mode modes ih =>
    obtain ⟨path, bits⟩ := mode
    obtain ⟨first, rest⟩ := List.forall_mem_cons.mp named
    refine (validated_perform (.setPermissions path bits) now first).bind fun _ log next => ?_
    exact ih rest next

theorem validated_zip (limits : ArchiveLimits) (archive : ZipArchive) :
    AllValidated (extractZip limits archive).log := by
  have meets : Logged.Meets [] (extractZip limits archive) AllValidated
      (fun _ log => AllValidated log) fun _ => True := by
    refine (Logged.Meets.require_quiet (List.forall_mem_nil _) trivial).bind_quiet fun _ _ => ?_
    refine (validated_zipEntries limits archive.entries).bind fun s log now => ?_
    exact validated_setModes _ (fun mode hmode => now.modes mode (List.mem_reverse.mp hmode)) now.log
  exact meets.always _ List.prefix_rfl

end Validated

/-! ### Confinement -/

section Confinement

variable {refuses : Fs Str → List Str → Bool} {links : ℕ} {destination : List (Component Str)}
  {fs : Fs Str} {base : List Str} {u : Unpacking}

/-- The destination has been filled, and the open file is in it. -/
structure Sealed (fs : Fs Str) (base : List Str) (u : Unpacking) : Prop where
  filled : Filled fs u.fs base
  opened : ∀ real ∈ u.opened, Inside base real

theorem sealed_call (now : Sealed fs base u) {call : Except FileSystem.Errno (List Str × Fs Str)}
    (h : ∀ real fs', call = .ok (real, fs') → Inside base real ∧ Filled fs fs' base) :
    (∀ real ∈ (Effect.ofCall u call).changed, Inside base real) ∧
      Sealed fs base (Effect.ofCall u call).after := by
  cases call with
  | error e => exact ⟨List.forall_mem_nil _, now⟩
  | ok result =>
    obtain ⟨real, fs'⟩ := result
    obtain ⟨inside, filled⟩ := h real fs' rfl
    exact ⟨List.forall_mem_singleton.mpr inside, filled, now.opened⟩

variable (refuses) in
/-- One action changes something only inside the destination. -/
theorem sealed_effect (leads : FileSystem.resolve fs true links [] destination = .ok base)
    (empty : EmptyDir fs base) (now : Sealed fs base u) {op : Action} (valid : op.Validated) :
    (∀ real ∈ (op.effect refuses links destination u).changed, Inside base real) ∧
      Sealed fs base (op.effect refuses links destination u).after := by
  cases op with
  | entry => exact ⟨List.forall_mem_nil _, now⟩
  | createDirAll path =>
    obtain ⟨insides, filled⟩ := now.filled.createDirAll refuses empty leads path
    exact ⟨insides, filled, now.opened⟩
  | createFile path =>
    rw [Action.effect]
    cases made : FileSystem.createFile refuses links (join destination path) u.fs with
    | error e => exact ⟨List.forall_mem_nil _, now⟩
    | ok result =>
      obtain ⟨inside, filled⟩ :=
        now.filled.createFile empty leads (FileSystem.inward_names valid) made
      refine ⟨List.forall_mem_singleton.mpr inside, filled, fun path hpath => ?_⟩
      obtain rfl := Option.some.inj hpath
      exact inside
  | write bytes => exact ⟨fun real hreal => now.opened real (Option.mem_toList.mp hreal), now⟩
  | symlink target path =>
    exact sealed_call now fun real fs' made =>
      now.filled.symlink empty leads (FileSystem.inward_names valid.2) valid.1 made
  | setPermissions path mode =>
    exact sealed_call now fun real fs' set =>
      now.filled.setPermissions empty leads (FileSystem.inward_names valid) set
  | createOther path => exact ⟨List.forall_mem_nil _, now⟩

variable (refuses) in
theorem sealed_performAll (leads : FileSystem.resolve fs true links [] destination = .ok base)
    (empty : EmptyDir fs base) (now : Sealed fs base u) {ops : List Action}
    (valid : AllValidated ops) :
    (∀ real ∈ (performAll refuses links destination u ops).1, Inside base real) ∧
      Sealed fs base (performAll refuses links destination u ops).2 := by
  induction ops generalizing u with
  | nil => exact ⟨List.forall_mem_nil _, now⟩
  | cons op ops ih =>
    obtain ⟨first, others⟩ := List.forall_mem_cons.mp valid
    obtain ⟨insides, next⟩ := sealed_effect refuses leads empty now first
    unfold performAll
    dsimp only
    split_ifs
    · obtain ⟨later, last⟩ := ih next others
      exact ⟨List.forall_mem_append.mpr ⟨insides, later⟩, last⟩
    · exact ⟨insides, next⟩

/-- Whatever the archive holds and wherever its extraction ends, all that it changes is inside the
destination, where the paths of commands lead then. -/
theorem extractZip_confined (leads : FileSystem.resolve fs true links [] destination = .ok base)
    (empty : EmptyDir fs base) (limits : ArchiveLimits) (archive : ZipArchive) (done : List Action)
    (front : done <+: (extractZip limits archive).log) :
    let run := performAll refuses links destination ⟨fs, none⟩ done
    (∀ real ∈ run.1, Inside base real) ∧
      ∀ cmd names real, resolveCmdPath cmd = some names →
        FileSystem.resolve run.2.fs true links [] (join destination names) = .ok real →
        base <+: real := by
  have valid : AllValidated done := fun op hop => validated_zip limits archive op (front.subset hop)
  have start : Sealed fs base ⟨fs, none⟩ :=
    ⟨empty.filled, fun real no => absurd no (Option.not_mem_none real)⟩
  obtain ⟨insides, last⟩ := sealed_performAll refuses leads empty start valid
  refine ⟨insides, fun cmd names real _ found => ?_⟩
  exact (last.filled.resolve empty leads (FileSystem.downward_names names) (.inr rfl) found).below

end Confinement

/-- The directory `lib`, the link `current` to it and the file `current/agent`. -/
def linked : ZipArchive where
  entries := [
    some ⟨some (str "lib/"), 0, true, false, none, []⟩,
    some ⟨some (str "current"), 3, false, true, none, [[108, 105, 98]]⟩,
    some ⟨some (str "current/agent"), 1, false, false, some 0o755, [[127]]⟩]
  small := by decide

/-- Nothing but an empty directory `dest`. -/
def emptyDest : Fs Str := fun path : List Str => if path = [str "dest"] then some .dir else none

theorem emptyDest_empty : EmptyDir emptyDest [str "dest"] where
  isDir := rfl
  empty _ inside := if_neg fun same => inside.2 same.symm

theorem extractZip_confined_linked :
    let run := performAll (fun _ _ => false) 40 [.name (str "dest")] ⟨emptyDest, none⟩
      (extractZip ⟨1024, 10, 10⟩ linked).log
    run.1 = [[str "dest", str "lib"], [str "dest", str "current"],
        [str "dest", str "lib", str "agent"], [str "dest", str "lib", str "agent"],
        [str "dest", str "lib", str "agent"]] ∧
      ∀ real ∈ run.1, Inside [str "dest"] real :=
  ⟨by decide +kernel,
    (extractZip_confined rfl emptyDest_empty ⟨1024, 10, 10⟩ linked _ List.prefix_rfl).1⟩

end AcpAgent.Installer
