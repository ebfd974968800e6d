import AcpAgent.Installer.Archive

/-! The two passes of `extract_zip_with_limits`: the first makes the entries, the second sets their
modes, for the last entry first. -/

namespace AcpAgent.Installer

open FileSystem (Component Inside Inward Downward)

theorem downward_of_all {path : List (Component Str)}
    (h : ¬(path.any fun c => c = .up || c = .root)) : Downward path := by
  intro c hc
  have plain : ¬(c = .up ∨ c = .root) := by
    intro climbs
    exact h (List.any_eq_true.mpr ⟨c, hc, by simpa using climbs⟩)
  cases c with
  | root => exact absurd (.inr rfl) plain
  | here => exact .inl rfl
  | up => exact absurd (.inl rfl) plain
  | name n => exact .inr ⟨n, rfl⟩

theorem mem_normalNames {path : List (Component Str)} {n : Str} :
    n ∈ normalNames path ↔ .name n ∈ path := by
  unfold normalNames
  rw [List.mem_filterMap]
  constructor
  · rintro ⟨c, hc, named⟩
    cases c with
    | name m =>
      obtain rfl := Option.some.inj named
      exact hc
    | _ => simp at named
  · exact fun h => ⟨.name n, h, rfl⟩

theorem validate_ok {text : Str} (h : validateArchivePath (some text) = .ok ()) :
    Inward (components text) ∧ normalNames (components text) ≠ [] := by
  rw [validateArchivePath] at h
  split_ifs at h with chars climbs empty
  obtain ⟨n, hn⟩ := List.exists_mem_of_ne_nil _ empty
  exact ⟨⟨downward_of_all climbs, n, mem_normalNames.mp hn⟩, empty⟩

/-! ### The first pass -/

/-- What the first pass does: no modes, and only paths with a name. -/
def Action.Placed : Action → Prop
  | .createFile path => path ≠ []
  | .symlink target path => Inward (components target) ∧ path ≠ []
  | .setPermissions _ _ => False
  | _ => True

abbrev AllPlaced (log : List Action) : Prop := ∀ op ∈ log, op.Placed

/-- The path and the mode of an entry, unless it is a link. -/
def ZipEntry.mode (entry : ZipEntry) : Option (List Str × UInt32) :=
  if entry.isSymlink ∧ ¬entry.isDir then none
  else entry.enclosedName.bind fun enclosed =>
    entry.unixMode.map fun mode => (normalNames (components enclosed), mode)

/-- The modes that a first pass over these entries leaves to the second. -/
def modesOf (entries : List (Option ZipEntry)) : List (List Str × UInt32) :=
  entries.filterMap fun entry => entry.bind ZipEntry.mode

/-- The first pass has come to a state with these modes. -/
structure Placing (modes : List (List Str × UInt32)) (s : ZipState) (log : List Action) :
    Prop where
  log : AllPlaced log
  pushed : s.unixModes = modes
  named : ∀ mode ∈ modes, mode.1 ≠ []

section FirstPass

variable {done : List Action}

theorem AllPlaced.append_one {log : List Action} {op : Action} (h : AllPlaced log)
    (hop : op.Placed) : AllPlaced (log ++ [op]) := by
  intro other hmem
  rcases List.mem_append.mp hmem with front | back
  · exact h other front
  · exact List.mem_singleton.mp back ▸ hop

theorem placed_perform (op : Action) (now : AllPlaced done) (hop : op.Placed) :
    Logged.Meets done (.perform op : Extract Unit) AllPlaced (fun _ log => AllPlaced log)
      fun _ => True :=
  .perform now (now.append_one hop) (now.append_one hop)

theorem placed_validate {path : Option Str} (now : AllPlaced done) :
    Logged.Meets done (.ofExcept (validateArchivePath path) : Extract Unit) AllPlaced
      (fun _ log => log = done ∧ validateArchivePath path = .ok ()) fun _ => True :=
  .ofExcept_quiet now fun _ _ => trivial

theorem placed_copy {sink : Bytes → Extract Unit} (maxBytes : ℕ) (chunks : List Bytes)
    (sinks : ∀ done chunk, AllPlaced done → Logged.Meets done (sink chunk) AllPlaced
      (fun _ log => AllPlaced log) fun _ => True) (now : AllPlaced done) :
    Logged.Meets done (copyWithLimit sink maxBytes 0 chunks) AllPlaced
      (fun total log => AllPlaced log ∧ total ≤ maxBytes) fun _ => True :=
  meets_copyWithLimit (I := fun _ log => AllPlaced log) trivial trivial (fun _ _ _ h => h)
    (fun done _ chunk _ h => sinks done chunk h) chunks (Nat.zero_le maxBytes) now

theorem placed_zipSymlink {entry : ZipEntry} {outpath : List Str} (maxBytes : ℕ)
    (named : outpath ≠ []) (now : AllPlaced done) :
    Logged.Meets done (extractZipSymlink entry outpath maxBytes) AllPlaced
      (fun _ log => AllPlaced log) fun _ => True := by
  refine (placed_copy maxBytes entry.chunks (fun _ _ now => .pure now now) now).bind
    fun copied log copies => ?_
  obtain ⟨now, -⟩ := copies
  refine (Logged.Meets.require_quiet now trivial).bind_quiet fun _ _ => ?_
  cases Str.ofBytes (entry.chunks.takeWhile (· ≠ [])).flatten with
  | none => exact .stop now trivial
  | some target =>
    refine (placed_validate now).bind_quiet fun _ valid => ?_
    refine (placed_perform (.createDirAll outpath.dropLast) now trivial).bind fun _ log now => ?_
    exact placed_perform (.symlink target outpath) now ⟨(validate_ok valid).1, named⟩

theorem placed_zipEntry {limits : ArchiveLimits} {index : ℕ} {s : ZipState}
    {modes : List (List Str × UInt32)} (now : Placing modes s done) (entry : Option ZipEntry) :
    Logged.Meets done (extractZipEntry limits index s entry) AllPlaced
      (Placing (modes ++ (entry.bind ZipEntry.mode).toList)) fun _ => True := by
  obtain ⟨now, rfl, named⟩ := now
  cases entry with
  | none => exact .stop now trivial
  | some entry =>
    refine (placed_perform .entry now trivial).bind fun _ log now => ?_
    cases enclosedName : entry.enclosedName with
    | none => exact .stop now trivial
    | some enclosed =>
      refine (placed_validate now).bind_quiet fun _ valid => ?_
      obtain ⟨-, outpath_ne⟩ := validate_ok valid
      let outpath := normalNames (components enclosed)
      refine (meets_checked _ now trivial).bind_quiet fun expanded _ => ?_
      refine (Logged.Meets.require_quiet now trivial).bind_quiet fun _ _ => ?_
      let new := (entry.unixMode.map fun mode => (outpath, mode)).toList
      have named' : ∀ mode ∈ s.unixModes ++ new, mode.1 ≠ [] := by
        intro mode hmode
        rcases List.mem_append.mp hmode with before | new
        · exact named mode before
        · obtain ⟨_, -, rfl⟩ := Option.map_eq_some_iff.mp (Option.mem_toList.mp new)
          exact outpath_ne
      have pushed : ¬(entry.isSymlink ∧ ¬entry.isDir) →
          ((some entry).bind ZipEntry.mode).toList = new := by
        intro kind
        rw [Option.bind_some, ZipEntry.mode, if_neg kind, enclosedName, Option.bind_some]
      dsimp only
      split
      · next dir =>
        rw [pushed (by simp [dir])]
        refine (placed_perform (.createDirAll outpath) now trivial).bind fun _ log now => ?_
        exact .pure now ⟨now, rfl, named'⟩
      · next notDir =>
        refine (meets_checked _ now trivial).bind_quiet fun files _ => ?_
        refine (Logged.Meets.require_quiet now trivial).bind_quiet fun _ _ => ?_
        split
        · next link =>
          have none_ : ((some entry).bind ZipEntry.mode).toList = [] := by
            simp [ZipEntry.mode, link, notDir]
          rw [none_, List.append_nil]
          refine (meets_checked _ now trivial).bind_quiet fun budget _ => ?_
          refine (placed_zipSymlink budget outpath_ne now).bind fun _ log now => ?_
          exact .pure now ⟨now, rfl, named⟩
        · next notLink =>
          rw [pushed (by simp [notLink])]
          refine (placed_perform (.createDirAll outpath.dropLast) now trivial).bind
            fun _ log now => ?_
          refine (placed_perform (.createFile outpath) now outpath_ne).bind fun _ log now => ?_
          refine (meets_checked _ now trivial).bind_quiet fun budget _ => ?_
          refine (placed_copy budget entry.chunks
            (fun _ chunk now => placed_perform (.write chunk) now trivial) now).bind
            fun copied log copies => ?_
          obtain ⟨now, -⟩ := copies
          refine (Logged.Meets.require_quiet now trivial).bind_quiet fun _ _ => ?_
          exact .pure now ⟨now, rfl, named'⟩

theorem placed_zipEntries {limits : ArchiveLimits} {index : ℕ} {s : ZipState}
    {modes : List (List Str × UInt32)} (now : Placing modes s done)
    (entries : List (Option ZipEntry)) :
    Logged.Meets done (extractZipEntries limits index s entries) AllPlaced
      (Placing (modes ++ modesOf entries)) fun _ => True := by
  induction entries generalizing index s done modes with
  | nil => exact .pure now.log (by simpa [modesOf] using now)
  | cons entry entries ih =>
    refine (placed_zipEntry now entry).bind fun s log next => ?_
    have split : modes ++ modesOf (entry :: entries) =
        modes ++ (entry.bind ZipEntry.mode).toList ++ modesOf entries := by
      cases mode : entry.bind ZipEntry.mode <;> simp [modesOf, mode]
    rw [split]
    exact ih next

theorem firstPass {limits : ArchiveLimits} {archive : ZipArchive} {s : ZipState}
    (ends : (extractZipEntries limits 0 .empty archive.entries).result = .ok s) :
    Placing (modesOf archive.entries) s
      (extractZipEntries limits 0 .empty archive.entries).log := by
  have start : Placing [] .empty [] := ⟨List.forall_mem_nil _, rfl, List.forall_mem_nil _⟩
  exact (placed_zipEntries start archive.entries).ends s ends

end FirstPass

/-! ### The second pass -/

def modePaths (log : List Action) : List (List Str) :=
  log.filterMap fun
    | .setPermissions path _ => some path
    | _ => none

/-- No mode is set after that of a directory above; `real` says where paths lead. -/
def ChildrenFirst (real : List Str → List Str) (log : List Action) : Prop :=
  (modePaths log).Pairwise fun first later => ¬Inside (real first) (real later)

/-- No entry with a mode is listed before that of a directory above it. -/
def ZipArchive.ParentsFirst (real : List Str → List Str) (archive : ZipArchive) : Prop :=
  (modesOf archive.entries).Pairwise fun first later => ¬Inside (real later.1) (real first.1)

theorem setModes_log (modes : List (List Str × UInt32)) :
    (setModes modes).log = modes.map fun mode => .setPermissions mode.1 mode.2 := by
  induction modes with
  | nil => rfl
  | cons mode modes ih =>
    obtain ⟨path, bits⟩ := mode
    rw [setModes, Logged.perform_bind_log, ih, List.map_cons]

theorem modePaths_placed {log : List Action} (h : AllPlaced log) : modePaths log = [] := by
  rw [modePaths, List.filterMap_eq_nil_iff]
  intro op hop
  have placed := h op hop
  cases op with
  | setPermissions => exact placed.elim
  | _ => rfl

theorem modePaths_setModes (modes : List (List Str × UInt32)) :
    modePaths (setModes modes).log = modes.map Prod.fst := by
  rw [setModes_log, modePaths, List.filterMap_map]
  exact List.filterMap_eq_map_iff_forall_eq_some.mpr fun _ _ => rfl

/-- The modes are set in the order of the archive, backwards. -/
theorem modePaths_zip {limits : ArchiveLimits} {archive : ZipArchive}
    (few : archive.entries.length ≤ limits.maxEntries.toNat) {s : ZipState}
    (ends : (extractZipEntries limits 0 .empty archive.entries).result = .ok s) :
    modePaths (extractZip limits archive).log =
      ((modesOf archive.entries).map Prod.fst).reverse := by
  obtain ⟨placed, pushed, -⟩ := firstPass ends
  have log : (extractZip limits archive).log =
      (extractZipEntries limits 0 .empty archive.entries).log ++
        (setModes s.unixModes.reverse).log := by
    rw [extractZip, Logged.require_bind, if_pos few, Logged.bind_log ends]
  have front := modePaths_placed placed
  have back := modePaths_setModes s.unixModes.reverse
  rw [modePaths] at front back ⊢
  rw [log, List.filterMap_append, front, back, pushed, List.nil_append, List.map_reverse]

/-- If the second pass is reached, it sets modes of children first exactly if the archive lists them
last. -/
theorem children_first_iff (real : List Str → List Str) {limits : ArchiveLimits}
    {archive : ZipArchive} (few : archive.entries.length ≤ limits.maxEntries.toNat) {s : ZipState}
    (ends : (extractZipEntries limits 0 .empty archive.entries).result = .ok s) :
    (∀ done, done <+: (extractZip limits archive).log → ChildrenFirst real done) ↔
      archive.ParentsFirst real := by
  have whole : (∀ done, done <+: (extractZip limits archive).log → ChildrenFirst real done) ↔
      ChildrenFirst real (extractZip limits archive).log := by
    constructor
    · intro all
      exact all _ List.prefix_rfl
    · intro last done front
      exact List.Pairwise.sublist (front.sublist.filterMap _) last
  rw [whole, ChildrenFirst, modePaths_zip few ends, List.pairwise_reverse, List.pairwise_map]
  rfl

def binDir : ZipEntry := ⟨some (str "bin/"), 0, true, false, some 0, []⟩

def binAgent : ZipEntry := ⟨some (str "bin/agent"), 1, false, false, some 0o755, [[127]]⟩

def parentListed : ZipArchive := ⟨[some binDir, some binAgent], by decide⟩

def childListed : ZipArchive := ⟨[some binAgent, some binDir], by decide⟩

theorem children_first_iff_listed :
    (∀ done, done <+: (extractZip ⟨1024, 10, 10⟩ parentListed).log → ChildrenFirst id done) ↔
      parentListed.ParentsFirst id :=
  children_first_iff id (s := ⟨1, 1, [([str "bin"], 0), ([str "bin", str "agent"], 0o755)]⟩)
    (by decide) rfl

/-- The mode of the directory is set before that of the file in it. -/
theorem parent_set_first :
    ¬∀ done, done <+: (extractZip ⟨1024, 10, 10⟩ childListed).log → ChildrenFirst id done := by
  intro all
  have paths : modePaths (extractZip ⟨1024, 10, 10⟩ childListed).log =
      [[str "bin"], [str "bin", str "agent"]] := by decide +kernel
  have first := all _ List.prefix_rfl
  rw [ChildrenFirst, paths, List.pairwise_pair] at first
  exact first ⟨⟨[str "agent"], rfl⟩, by decide⟩

end AcpAgent.Installer
