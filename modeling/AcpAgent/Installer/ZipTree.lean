import AcpAgent.Installer.Confinement
import AcpAgent.Lib.Branches

/-! The tree that ZIP extraction makes of an archive in which no entry is in the way of another: it
has the archive's directories, files and links, with their bytes and modes, and nothing else. -/

namespace AcpAgent.Installer

open FileSystem (Fs Component EmptyDir Filled Filling Inward Inside Branched Clear Passable join)

/-! ### What an archive describes -/

/-- What is to be at the path of an entry. -/
inductive Placed
  | dir
  | file (content : Bytes)
  | link (target : Str)
  deriving DecidableEq

namespace ZipEntry

variable (entry : ZipEntry)

def outpath : List Str := normalNames (components (entry.enclosedName.getD []))

/-- The chunks up to the end of the file. -/
def body : List Bytes := entry.chunks.takeWhile (· ≠ [])

def placed : Placed :=
  if entry.isDir then .dir
  else if entry.isSymlink then .link ((Str.ofBytes entry.body.flatten).getD [])
  else .file entry.body.flatten

/-- What the first pass does for an entry that it does not refuse. -/
def actions : List Action :=
  .entry :: match entry.placed with
  | .dir => [.createDirAll entry.outpath]
  | .link target => [.createDirAll entry.outpath.dropLast, .symlink target entry.outpath]
  | .file _ =>
    .createDirAll entry.outpath.dropLast :: .createFile entry.outpath :: entry.body.map .write

theorem content_of_placed {entry : ZipEntry} {bytes : Bytes} (h : entry.placed = .file bytes) :
    bytes = entry.body.flatten := by
  unfold placed at h
  split_ifs at h
  exact (Placed.file.inj h).symm

/-- What the checks of an entry leave. -/
structure Checked : Prop where
  named : entry.outpath ≠ []
  inward : ∀ target, entry.placed = .link target → Inward (components target)

end ZipEntry

/-! ### The actions of the first pass -/

/-- A computation that ends with `post`, wherever it may stop. -/
abbrev Ending {α : Type} (done : List Action) (m : Extract α) (post : α → List Action → Prop) :
    Prop :=
  Logged.Meets done m (fun _ => True) post fun _ => True

section FirstPass

variable {done : List Action}

theorem ends_perform (op : Action) : Ending done (.perform op) fun _ log => log = done ++ [op] :=
  .perform trivial trivial rfl

theorem ends_copy (sink : Bytes → Extract Unit) (performs : Bytes → List Action)
    (sinks : ∀ done chunk, Ending done (sink chunk) fun _ log => log = done ++ performs chunk)
    (maxBytes copied : ℕ) (chunks : List Bytes) :
    Ending done (copyWithLimit sink maxBytes copied chunks) fun _ log =>
      log = done ++ (chunks.takeWhile (· ≠ [])).flatMap performs := by
  induction chunks generalizing done copied with
  | nil => exact .pure trivial (List.append_nil done).symm
  | cons chunk chunks ih =>
    unfold copyWithLimit
    split_ifs with empty
    · exact .pure trivial (by simp [empty])
    · refine (meets_checked _ trivial trivial).bind_quiet fun copied _ => ?_
      refine (Logged.Meets.require_quiet trivial trivial).bind_quiet fun _ _ => ?_
      refine (sinks done chunk).bind fun _ log same => ?_
      subst same
      refine (ih copied).mono (fun _ h => h) (fun _ log same => ?_) fun _ h => h
      simp [same, empty]

theorem ends_zipSymlink {entry : ZipEntry} (maxBytes : ℕ) (named : entry.outpath ≠ [])
    (notDir : ¬entry.isDir) (link : entry.isSymlink) :
    Ending done (extractZipSymlink entry entry.outpath maxBytes) fun _ log =>
      entry.Checked ∧ log = done ++ entry.actions.tail := by
  refine (ends_copy _ (fun _ => []) (fun done _ => .pure trivial (List.append_nil done).symm)
    maxBytes 0 entry.chunks).bind fun copied log same => ?_
  have silent : (entry.chunks.takeWhile (· ≠ [])).flatMap (fun _ => ([] : List Action)) = [] :=
    List.flatMap_eq_nil_iff.mpr fun _ _ => rfl
  rw [silent, List.append_nil] at same
  subst same
  refine (Logged.Meets.require_quiet trivial trivial).bind_quiet fun _ _ => ?_
  cases text : Str.ofBytes (entry.chunks.takeWhile (· ≠ [])).flatten with
  | none => exact .stop trivial trivial
  | some target =>
    have placed : entry.placed = .link target := by
      rw [ZipEntry.placed, if_neg notDir, if_pos link, ZipEntry.body, text]
      rfl
    refine (Logged.Meets.ofExcept_quiet trivial fun _ _ => trivial).bind_quiet fun _ valid => ?_
    refine (ends_perform (.createDirAll entry.outpath.dropLast)).bind fun _ log' made => ?_
    refine (ends_perform (.symlink target entry.outpath)).mono (fun _ h => h)
      (fun _ log'' last => ?_) fun _ h => h
    refine ⟨⟨named, fun other same => ?_⟩, ?_⟩
    · obtain rfl := Placed.link.inj (placed.symm.trans same)
      exact (validate_ok valid).1
    · simp [last, made, ZipEntry.actions, placed]

theorem ends_zipEntry (limits : ArchiveLimits) (index : ℕ) (s : ZipState)
    (entry : Option ZipEntry) : Ending done (extractZipEntry limits index s entry) fun _ log =>
      ∃ e, entry = some e ∧ e.Checked ∧ log = done ++ e.actions := by
  cases entry with
  | none => exact .stop trivial trivial
  | some entry =>
    refine (ends_perform .entry).bind fun _ log first => ?_
    subst first
    cases enclosedName : entry.enclosedName with
    | none => exact .stop trivial trivial
    | some enclosed =>
      have outpath : normalNames (components enclosed) = entry.outpath := by
        rw [ZipEntry.outpath, enclosedName]
        rfl
      refine (Logged.Meets.ofExcept_quiet trivial fun _ _ => trivial).bind_quiet fun _ valid => ?_
      have named : entry.outpath ≠ [] := outpath ▸ (validate_ok valid).2
      rw [outpath]
      refine (meets_checked _ trivial trivial).bind_quiet fun expanded _ => ?_
      refine (Logged.Meets.require_quiet trivial trivial).bind_quiet fun _ _ => ?_
      dsimp only
      split
      · next dir =>
        have placed : entry.placed = .dir := if_pos dir
        refine (ends_perform (.createDirAll entry.outpath)).bind fun _ log made => ?_
        refine .pure trivial ⟨entry, rfl, ⟨named, by simp [placed]⟩, ?_⟩
        simp [made, ZipEntry.actions, placed]
      · next notDir =>
        refine (meets_checked _ trivial trivial).bind_quiet fun files _ => ?_
        refine (Logged.Meets.require_quiet trivial trivial).bind_quiet fun _ _ => ?_
        split
        · next link =>
          refine (meets_checked _ trivial trivial).bind_quiet fun budget _ => ?_
          refine (ends_zipSymlink budget named notDir link).bind fun _ log made => ?_
          obtain ⟨checked, made⟩ := made
          exact .pure trivial ⟨entry, rfl, checked, by simp [made, ZipEntry.actions]⟩
        · next notLink =>
          have placed : entry.placed = .file entry.body.flatten := by
            simp [ZipEntry.placed, notDir, notLink]
          refine (ends_perform (.createDirAll entry.outpath.dropLast)).bind fun _ log made => ?_
          refine (ends_perform (.createFile entry.outpath)).bind fun _ log' opened => ?_
          refine (meets_checked _ trivial trivial).bind_quiet fun budget _ => ?_
          refine (ends_copy _ (fun chunk => [.write chunk]) (fun done chunk => ends_perform _) budget
            0 entry.chunks).bind fun copied log'' written => ?_
          refine (Logged.Meets.require_quiet trivial trivial).bind_quiet fun _ _ => ?_
          refine .pure trivial ⟨entry, rfl, ⟨named, by simp [placed]⟩, ?_⟩
          simp [written, opened, made, ZipEntry.actions, placed, ZipEntry.body,
            List.map_eq_flatMap]

theorem ends_zipEntries (limits : ArchiveLimits) (index : ℕ) (s : ZipState)
    (entries : List (Option ZipEntry)) :
    Ending done (extractZipEntries limits index s entries) fun _ log =>
      ∃ es : List ZipEntry, entries = es.map some ∧ (∀ e ∈ es, e.Checked) ∧
        log = done ++ es.flatMap ZipEntry.actions := by
  induction entries generalizing index s done with
  | nil => exact .pure trivial ⟨[], rfl, List.forall_mem_nil _, by simp⟩
  | cons entry entries ih =>
    refine (ends_zipEntry limits index s entry).bind fun s log first => ?_
    obtain ⟨e, rfl, checked, rfl⟩ := first
    refine (ih (index + 1) s).mono (fun _ h => h) (fun _ log rest => ?_) fun _ h => h
    obtain ⟨es, rfl, others, rfl⟩ := rest
    exact ⟨e :: es, rfl, List.forall_mem_cons.mpr ⟨checked, others⟩, by simp⟩

/-- An extraction that is not refused does what the entries say in their order, and sets the modes of
the last entries first. -/
theorem extractZip_log {limits : ArchiveLimits} {archive : ZipArchive}
    (ok : (extractZip limits archive).result = .ok ()) : ∃ es : List ZipEntry,
      archive.entries = es.map some ∧ (∀ e ∈ es, e.Checked) ∧
      (extractZip limits archive).log = es.flatMap ZipEntry.actions ++
        (modesOf archive.entries).reverse.map fun mode => .setPermissions mode.1 mode.2 := by
  have few : archive.entries.length ≤ limits.maxEntries.toNat := by
    by_contra many
    simp [extractZip, many, Logged.stop] at ok
  rw [extractZip, Logged.require_bind, if_pos few] at ok ⊢
  cases first : (extractZipEntries limits 0 .empty archive.entries).result with
  | error e =>
    change (Logged.bind _ _).result = _ at ok
    simp [Logged.bind, first] at ok
  | ok s =>
    have ends : Ending [] (extractZipEntries limits 0 .empty archive.entries) _ :=
      ends_zipEntries limits 0 .empty archive.entries
    obtain ⟨es, same, checked, log⟩ := ends.ends s first
    refine ⟨es, same, checked, ?_⟩
    rw [Logged.bind_log first, setModes_log, (firstPass first).pushed]
    simpa using log

end FirstPass

/-! ### What is on the volume -/

/-- A file system with what its files contain, and the modes that were set. -/
structure Volume where
  unpacking : Unpacking
  content : List Str → Bytes
  mode : List Str → Option UInt32

/-- What an action leaves of the contents, at a path that it changes. -/
def Action.store (content : List Str → Bytes) (real : List Str) : Action → List Str → Bytes
  | .createFile _ => Function.update content real []
  | .write bytes => Function.update content real (content real ++ bytes)
  | _ => content

def Action.chmod (mode : List Str → Option UInt32) (real : List Str) :
    Action → List Str → Option UInt32
  | .setPermissions _ bits => Function.update mode real (some bits)
  | _ => mode

section Volume

variable (refuses : Fs Str → List Str → Bool) (links : ℕ) (destination : List (Component Str))

/-- The volume after an action, unless it fails. -/
def Volume.perform (d : Volume) (op : Action) : Option Volume :=
  let effect := op.effect refuses links destination d.unpacking
  if effect.succeeds then some {
    unpacking := effect.after
    content := effect.changed.foldl (fun content real => op.store content real) d.content
    mode := effect.changed.foldl (fun mode real => op.chmod mode real) d.mode }
  else none

def Volume.performs (d : Volume) (ops : List Action) : Option Volume :=
  ops.foldlM (fun d op => d.perform refuses links destination op) d

end Volume

/-! ### Archives without obstructions -/

/-- What is to be at a path below the destination. -/
def planned (es : List ZipEntry) (names : List Str) : Option (FileSystem.Entry Str) :=
  match es.find? fun e => e.outpath = names ∧ e.placed ≠ .dir with
  | some e =>
    match e.placed with
    | .link target => some (.link (components target))
    | _ => some .file
  | none => if es.any fun e => names <+: e.outpath then some .dir else none

/-- No entry is listed twice, and nothing is listed below a file or a link. -/
structure Unobstructed (es : List ZipEntry) : Prop where
  distinct : (es.map ZipEntry.outpath).Nodup
  free : ∀ e ∈ es, e.placed ≠ .dir → ∀ e' ∈ es, e.outpath <+: e'.outpath → e' = e

section Unobstructed

variable {es : List ZipEntry} {e : ZipEntry} {names : List Str}

theorem Unobstructed.front {more : List ZipEntry} (h : Unobstructed (es ++ more)) :
    Unobstructed es where
  distinct := by
    have distinct := h.distinct
    rw [List.map_append] at distinct
    exact distinct.of_append_left
  free f hf file f' hf' := h.free f (List.mem_append_left _ hf) file f' (List.mem_append_left _ hf')

theorem Unobstructed.not_mem (h : Unobstructed (es ++ [e])) : ∀ f ∈ es, f.outpath ≠ e.outpath := by
  intro f hf same
  have distinct := h.distinct
  rw [List.map_append] at distinct
  exact List.disjoint_of_nodup_append distinct (List.mem_map_of_mem hf) (by simp [same])

/-- No file or link is on the way to the next entry, or at its path. -/
theorem Unobstructed.find_front (h : Unobstructed (es ++ [e])) (below : names <+: e.outpath) :
    (es.find? fun f => f.outpath = names ∧ f.placed ≠ .dir) = none := by
  refine List.find?_eq_none.mpr fun f hf => ?_
  simp only [decide_eq_true_eq]
  rintro ⟨rfl, file⟩
  have same := h.free f (List.mem_append_left _ hf) file e (by simp) below
  exact h.not_mem f hf (by rw [same])

theorem Unobstructed.clear (h : Unobstructed (es ++ [e])) (below : names <+: e.outpath) :
    planned es names = none ∨ planned es names = some .dir := by
  unfold planned
  rw [h.find_front below]
  dsimp only
  split_ifs
  · exact .inr rfl
  · exact .inl rfl

/-- Where a file or a link goes, there is nothing yet. -/
theorem Unobstructed.fresh (h : Unobstructed (es ++ [e])) (file : e.placed ≠ .dir) :
    planned es e.outpath = none := by
  unfold planned
  rw [h.find_front List.prefix_rfl]
  refine if_neg fun some_ => ?_
  obtain ⟨f, hf, below⟩ := List.any_eq_true.mp some_
  have same := h.free e (by simp) file f (List.mem_append_left _ hf) (by simpa using below)
  exact h.not_mem f hf (by rw [same])

def ZipEntry.entry (e : ZipEntry) : FileSystem.Entry Str :=
  match e.placed with
  | .dir => .dir
  | .file _ => .file
  | .link target => .link (components target)

theorem planned_append (h : Unobstructed (es ++ [e])) (names : List Str) :
    planned (es ++ [e]) names =
    if names = e.outpath then some e.entry
    else if names <+: e.outpath then some .dir
    else planned es names := by
  unfold planned
  rw [List.find?_append, List.any_append]
  by_cases below : names <+: e.outpath
  · rw [h.find_front below, Option.none_or]
    by_cases last : names = e.outpath
    · subst last
      cases placed : e.placed <;> simp [ZipEntry.entry, placed]
    · simp [below, last, Ne.symm last]
  · have other : names ≠ e.outpath := fun same => below (same ▸ List.prefix_rfl)
    simp [below, other, Ne.symm other]

end Unobstructed

/-! ### The first pass makes the plan -/

section Making

variable {refuses : Fs Str → List Str → Bool} {links : ℕ} {destination : List (Component Str)}
  {fs₀ : Fs Str} {base : List Str} {es : List ZipEntry} {e : ZipEntry} {d₀ d d' : Volume}

variable (links destination base) in
/-- The entries have been extracted to a directory that was empty on this volume. -/
structure Made (d₀ : Volume) (es : List ZipEntry) (d : Volume) : Prop where
  filling : Filling d₀.unpacking.fs d.unpacking.fs links destination base
  tree : ∀ names, names ≠ [] → d.unpacking.fs (base ++ names) = planned es names
  content : ∀ e ∈ es, ∀ bytes, e.placed = .file bytes → d.content (base ++ e.outpath) = bytes
  others : ∀ p, (∀ e ∈ es, ∀ bytes, e.placed = .file bytes → p ≠ base ++ e.outpath) →
    d.content p = d₀.content p
  mode : d.mode = d₀.mode

theorem perform_eq_some {op : Action} (h : d.perform refuses links destination op = some d') :
    let effect := op.effect refuses links destination d.unpacking
    effect.succeeds = true ∧ d' = {
      unpacking := effect.after
      content := effect.changed.foldl (fun content real => op.store content real) d.content
      mode := effect.changed.foldl (fun mode real => op.chmod mode real) d.mode } := by
  unfold Volume.perform at h
  dsimp only at h ⊢
  split_ifs at h with ok
  exact ⟨ok, (Option.some.inj h).symm⟩

theorem perform_entry (d : Volume) : d.perform refuses links destination .entry = some d := rfl

theorem perform_createDirAll {names : List Str}
    (h : Filling fs₀ d.unpacking.fs links destination base)
    (clear : Clear d.unpacking.fs base names)
    (done : d.perform refuses links destination (.createDirAll names) = some d') :
    Branched d.unpacking.fs d'.unpacking.fs base names ∧
      Filling fs₀ d'.unpacking.fs links destination base ∧
      d'.content = d.content ∧ d'.mode = d.mode := by
  obtain ⟨ok, rfl⟩ := perform_eq_some done
  have made : (FileSystem.createDirAll refuses links (join destination names).reverse
      d.unpacking.fs).2.2 = .ok () := by
    cases result : (FileSystem.createDirAll refuses links (join destination names).reverse
      d.unpacking.fs).2.2 with
    | ok => rfl
    | error e => simp [Action.effect, result, Except.isOk, Except.toBool] at ok
  exact ⟨h.createDirAll_ok clear made, h.createDirAll names, List.foldl_fixed _,
    List.foldl_fixed _⟩

theorem perform_createFile {names : List Str} (named : names ≠ [])
    (h : Filling fs₀ d.unpacking.fs links destination base)
    (passable : Passable d.unpacking.fs base names) (fresh : d.unpacking.fs (base ++ names) = none)
    (done : d.perform refuses links destination (.createFile names) = some d') :
    d' = ⟨⟨Function.update d.unpacking.fs (base ++ names) (some .file), some (base ++ names)⟩,
      Function.update d.content (base ++ names) [], d.mode⟩ := by
  obtain ⟨ok, rfl⟩ := perform_eq_some done
  simp only [Action.effect] at ok ⊢
  cases made : FileSystem.createFile refuses links (join destination names) d.unpacking.fs with
  | error e => simp [made] at ok
  | ok result =>
    obtain ⟨real, fs'⟩ := result
    obtain ⟨rfl, rfl⟩ := h.createFile_ok named passable fresh made
    rfl

theorem perform_symlink {names : List Str} {target : Str} (named : names ≠ [])
    (h : Filling fs₀ d.unpacking.fs links destination base)
    (passable : Passable d.unpacking.fs base names)
    (done : d.perform refuses links destination (.symlink target names) = some d') :
    d' = ⟨⟨Function.update d.unpacking.fs (base ++ names) (some (.link (components target))),
      d.unpacking.opened⟩, d.content, d.mode⟩ := by
  obtain ⟨ok, rfl⟩ := perform_eq_some done
  simp only [Action.effect] at ok ⊢
  cases made : FileSystem.symlink refuses links (components target) (join destination names)
    d.unpacking.fs with
  | error e => simp [made, Effect.ofCall] at ok
  | ok result =>
    obtain ⟨real, fs'⟩ := result
    obtain ⟨-, rfl, -, rfl⟩ := h.create_ok named passable made
    rfl

theorem perform_setPermissions {names : List Str} {bits : UInt32} (named : names ≠ [])
    (h : Filling fs₀ d.unpacking.fs links destination base)
    (passable : Passable d.unpacking.fs base names)
    (last : ∀ target, d.unpacking.fs (base ++ names) ≠ some (.link target))
    (done : d.perform refuses links destination (.setPermissions names bits) = some d') :
    d' = { d with mode := Function.update d.mode (base ++ names) (some bits) } := by
  obtain ⟨ok, rfl⟩ := perform_eq_some done
  simp only [Action.effect] at ok ⊢
  cases made : FileSystem.setPermissions refuses links (join destination names) d.unpacking.fs with
  | error e => simp [made, Effect.ofCall] at ok
  | ok result =>
    obtain ⟨real, fs'⟩ := result
    obtain ⟨rfl, rfl⟩ := h.setPermissions_ok named passable last made
    rfl

/-- All chunks go to the file that was opened last. -/
theorem performs_write {real : List Str} (chunks : List Bytes)
    (opened : d.unpacking.opened = some real) :
    d.performs refuses links destination (chunks.map .write) =
      some { d with
        content := Function.update d.content real (d.content real ++ chunks.flatten) } := by
  induction chunks generalizing d with
  | nil => simp [Volume.performs]
  | cons chunk chunks ih =>
    have first : d.perform refuses links destination (.write chunk) =
        some { d with content := Function.update d.content real (d.content real ++ chunk) } := by
      simp [Volume.perform, Action.effect, opened, Action.store, Action.chmod]
    rw [List.map_cons, Volume.performs, List.foldlM_cons, first]
    have rest := ih (d := { d with
      content := Function.update d.content real (d.content real ++ chunk) }) opened
    refine rest.trans ?_
    simp [List.append_assoc]

theorem prefix_dropLast {names outpath : List Str} (some_ : outpath ≠ []) :
    names <+: outpath.dropLast ↔ names <+: outpath ∧ names ≠ outpath := by
  constructor
  · intro below
    refine ⟨below.trans (List.dropLast_prefix _), ?_⟩
    rintro rfl
    have short := below.length_le
    have long := List.length_pos_iff.mpr some_
    rw [List.length_dropLast] at short
    omega
  · rintro ⟨⟨rest, rfl⟩, proper⟩
    have more : rest ≠ [] := by
      rintro rfl
      simp at proper
    rw [List.dropLast_append_of_ne_nil more]
    exact List.prefix_append _ _

theorem performs_cons {op : Action} {ops : List Action} :
    d.performs refuses links destination (op :: ops) =
      (d.perform refuses links destination op).bind fun d =>
        d.performs refuses links destination ops :=
  rfl

theorem performs_append {ops ops' : List Action} :
    d.performs refuses links destination (ops ++ ops') =
      (d.performs refuses links destination ops).bind fun d =>
        d.performs refuses links destination ops' :=
  List.foldlM_append

theorem Made.clear (made : Made links destination base d₀ es d) (plain : Unobstructed (es ++ [e]))
    {names : List Str} (below : names <+: e.outpath) : Clear d.unpacking.fs base names := by
  intro front within some_
  rw [made.tree front some_]
  exact plain.clear (within.trans below)

theorem Made.entry_dir (made : Made links destination base d₀ es d)
    (plain : Unobstructed (es ++ [e])) (dir : e.placed = .dir)
    (done : d.performs refuses links destination e.actions = some d') :
    Made links destination base d₀ (es ++ [e]) d' := by
  rw [ZipEntry.actions, dir, performs_cons, perform_entry, Option.bind_some, performs_cons] at done
  obtain ⟨d₁, first, rest⟩ := Option.bind_eq_some_iff.mp done
  obtain rfl := Option.some.inj rest
  obtain ⟨branched, filling, content, mode⟩ :=
    perform_createDirAll made.filling (made.clear plain List.prefix_rfl) first
  refine ⟨filling, fun names some_ => ?_, fun f hf bytes file => ?_, fun p other => ?_,
    mode.trans made.mode⟩
  · rw [branched.at_ some_, planned_append plain, made.tree names some_, ZipEntry.entry, dir]
    by_cases last : names = e.outpath
    · simp [last]
    · simp [last]
  · rw [content]
    rcases List.mem_append.mp hf with before | now
    · exact made.content f before bytes file
    · rw [List.mem_singleton.mp now, dir] at file
      cases file
  · rw [content]
    exact made.others p fun f hf => other f (List.mem_append_left _ hf)

/-- A file or a link, in the directory that was made for it. -/
theorem Made.tree_place (made : Made links destination base d₀ es d)
    (plain : Unobstructed (es ++ [e])) (named : e.outpath ≠ []) {fs₁ : Fs Str}
    (branched : Branched d.unpacking.fs fs₁ base e.outpath.dropLast) {names : List Str}
    (some_ : names ≠ []) :
    Function.update fs₁ (base ++ e.outpath) (some e.entry) (base ++ names) =
      planned (es ++ [e]) names := by
  rw [planned_append plain]
  by_cases last : names = e.outpath
  · rw [last, Function.update_self, if_pos rfl]
  · have elsewhere : base ++ names ≠ base ++ e.outpath := fun same =>
      last (List.append_cancel_left same)
    rw [Function.update_of_ne elsewhere, branched.at_ some_, if_neg last, made.tree names some_]
    simp [prefix_dropLast named, last]

/-- What is between the destination and the place of a file or a link. -/
theorem passable_of_branched (named : e.outpath ≠ []) {fs₁ : Fs Str}
    (branched : Branched d.unpacking.fs fs₁ base e.outpath.dropLast) :
    Passable fs₁ base e.outpath := by
  intro front below some_ proper
  exact .inr (branched.dirs front ((prefix_dropLast named).mpr ⟨below, proper⟩) some_)

theorem Made.fresh (made : Made links destination base d₀ es d)
    (plain : Unobstructed (es ++ [e])) (named : e.outpath ≠ []) (file : e.placed ≠ .dir)
    {fs₁ : Fs Str} (branched : Branched d.unpacking.fs fs₁ base e.outpath.dropLast) :
    fs₁ (base ++ e.outpath) = none := by
  have outside : ¬e.outpath <+: e.outpath.dropLast := fun below =>
    ((prefix_dropLast named).mp below).2 rfl
  rw [branched.at_ named, if_neg outside, made.tree e.outpath named, plain.fresh file]

theorem Made.entry_link (made : Made links destination base d₀ es d)
    (plain : Unobstructed (es ++ [e])) (checked : e.Checked) {target : Str}
    (link : e.placed = .link target)
    (done : d.performs refuses links destination e.actions = some d') :
    Made links destination base d₀ (es ++ [e]) d' := by
  have named := checked.named
  rw [ZipEntry.actions, link, performs_cons, perform_entry, Option.bind_some, performs_cons] at done
  obtain ⟨d₁, first, rest⟩ := Option.bind_eq_some_iff.mp done
  obtain ⟨branched, filling, content, mode⟩ :=
    perform_createDirAll made.filling (made.clear plain (List.dropLast_prefix _)) first
  obtain ⟨d₂, second, rest⟩ := Option.bind_eq_some_iff.mp (performs_cons ▸ rest)
  obtain rfl := Option.some.inj rest
  obtain rfl := perform_symlink named filling (passable_of_branched named branched) second
  have entry : e.entry = .link (components target) := by rw [ZipEntry.entry, link]
  refine ⟨?_, fun names some_ => ?_, fun f hf bytes file => ?_, fun p other => ?_,
    mode.trans made.mode⟩
  · exact filling.update named fun other same => by
      obtain rfl := FileSystem.Entry.link.inj same
      exact checked.inward target link
  · rw [← entry]
    exact made.tree_place plain named branched some_
  · rcases List.mem_append.mp hf with before | now
    · rw [← made.content f before bytes file, ← content]
    · rw [List.mem_singleton.mp now, link] at file
      cases file
  · rw [← made.others p fun f hf => other f (List.mem_append_left _ hf), ← content]

theorem Made.entry_file (made : Made links destination base d₀ es d)
    (plain : Unobstructed (es ++ [e])) (checked : e.Checked) {bytes : Bytes}
    (file : e.placed = .file bytes)
    (done : d.performs refuses links destination e.actions = some d') :
    Made links destination base d₀ (es ++ [e]) d' := by
  have named := checked.named
  rw [ZipEntry.actions, file, performs_cons, perform_entry, Option.bind_some, performs_cons] at done
  obtain ⟨d₁, first, rest⟩ := Option.bind_eq_some_iff.mp done
  obtain ⟨branched, filling, content, mode⟩ :=
    perform_createDirAll made.filling (made.clear plain (List.dropLast_prefix _)) first
  obtain ⟨d₂, second, rest⟩ := Option.bind_eq_some_iff.mp (performs_cons ▸ rest)
  obtain rfl := perform_createFile named filling (passable_of_branched named branched)
    (made.fresh plain named (by simp [file]) branched) second
  rw [performs_write e.body rfl] at rest
  obtain rfl := Option.some.inj rest
  have entry : e.entry = .file := by rw [ZipEntry.entry, file]
  refine ⟨filling.update named (fun _ same => nomatch same), fun names some_ => ?_,
    fun f hf contents file' => ?_, fun p other => ?_, mode.trans made.mode⟩
  · rw [← entry]
    exact made.tree_place plain named branched some_
  · rcases List.mem_append.mp hf with before | now
    · have elsewhere : base ++ f.outpath ≠ base ++ e.outpath := fun same =>
        plain.not_mem f before (List.append_cancel_left same)
      simp only [Function.update_of_ne elsewhere, content]
      exact made.content f before contents file'
    · obtain rfl := List.mem_singleton.mp now
      simp only [Function.update_self, List.nil_append]
      exact (ZipEntry.content_of_placed file').symm
  · have elsewhere : p ≠ base ++ e.outpath := other e (by simp) bytes file
    simp only [Function.update_of_ne elsewhere, content]
    exact made.others p fun f hf => other f (List.mem_append_left _ hf)

theorem Made.entry (made : Made links destination base d₀ es d) (plain : Unobstructed (es ++ [e]))
    (checked : e.Checked) (done : d.performs refuses links destination e.actions = some d') :
    Made links destination base d₀ (es ++ [e]) d' := by
  cases placed : e.placed with
  | dir => exact made.entry_dir plain placed done
  | file bytes => exact made.entry_file plain checked placed done
  | link target => exact made.entry_link plain checked placed done


theorem Made.entries (made : Made links destination base d₀ es d) {more : List ZipEntry}
    (plain : Unobstructed (es ++ more)) (checked : ∀ e ∈ more, e.Checked)
    (done : d.performs refuses links destination (more.flatMap ZipEntry.actions) = some d') :
    Made links destination base d₀ (es ++ more) d' := by
  induction more generalizing es d with
  | nil =>
    obtain rfl := Option.some.inj done
    simpa using made
  | cons e more ih =>
    obtain ⟨first, others⟩ := List.forall_mem_cons.mp checked
    rw [List.flatMap_cons, performs_append] at done
    obtain ⟨d₁, here, rest⟩ := Option.bind_eq_some_iff.mp done
    rw [List.append_cons] at plain ⊢
    exact ih (made.entry plain.front first here) plain others rest

end Making

/-! ### The second pass, and the whole archive -/

section Whole

variable {refuses : Fs Str → List Str → Bool} {links : ℕ} {destination : List (Component Str)}
  {base : List Str} {es : List ZipEntry} {e : ZipEntry} {d₀ d d' : Volume} {names : List Str}

/-- At the path of an entry is the entry, and above it are directories. -/
theorem planned_below (h : Unobstructed es) (he : e ∈ es) (below : names <+: e.outpath) :
    planned es names = if names = e.outpath then some e.entry else some .dir := by
  have listed : (es.any fun f => decide (names <+: f.outpath)) = true :=
    List.any_eq_true.mpr ⟨e, he, by simpa using below⟩
  unfold planned
  cases found : es.find? fun f => f.outpath = names ∧ f.placed ≠ .dir with
  | some f =>
    obtain ⟨rfl, file⟩ : f.outpath = names ∧ f.placed ≠ .dir := by
      simpa using List.find?_some found
    obtain rfl := h.free f (List.mem_of_find?_eq_some found) file e he below
    cases placed : e.placed <;> simp_all [ZipEntry.entry]
  | none =>
    rw [listed]
    by_cases last : names = e.outpath
    · have dir : e.placed = .dir := by
        have absent := List.find?_eq_none.mp found e he
        simpa [last] using absent
      simp [last, ZipEntry.entry, dir]
    · simp [last]

theorem planned_none (nowhere : ∀ e ∈ es, ¬names <+: e.outpath) : planned es names = none := by
  unfold planned
  have absent : (es.find? fun f => f.outpath = names ∧ f.placed ≠ .dir) = none := by
    refine List.find?_eq_none.mpr fun f hf => ?_
    simp only [decide_eq_true_eq]
    rintro ⟨rfl, -⟩
    exact nowhere f hf List.prefix_rfl
  rw [absent]
  refine if_neg fun listed => ?_
  obtain ⟨f, hf, below⟩ := List.any_eq_true.mp listed
  exact nowhere f hf (by simpa using below)

/-- The order of the entries plays no part. -/
theorem planned_perm {es' : List ZipEntry} (plain : Unobstructed es) (plain' : Unobstructed es')
    (perm : es.Perm es') (names : List Str) : planned es names = planned es' names := by
  by_cases listed : ∃ e ∈ es, names <+: e.outpath
  · obtain ⟨e, he, below⟩ := listed
    rw [planned_below plain he below, planned_below plain' (perm.subset he) below]
  · push Not at listed
    rw [planned_none listed, planned_none fun e he => listed e (perm.symm.subset he)]

/-- The second pass changes the modes of the entries that have one, and nothing else. -/
structure Chmodded (base : List Str) (modes : List (List Str × UInt32)) (d d' : Volume) : Prop where
  unpacking : d'.unpacking = d.unpacking
  content : d'.content = d.content
  set : ∀ mode ∈ modes, d'.mode (base ++ mode.1) = some mode.2
  others : ∀ p, (∀ mode ∈ modes, p ≠ base ++ mode.1) → d'.mode p = d.mode p

theorem performs_setPermissions {modes : List (List Str × UInt32)}
    (distinct : (modes.map Prod.fst).Nodup)
    (sets : ∀ d₁ d₂ : Volume, d₁.unpacking = d.unpacking → ∀ mode ∈ modes,
      d₁.perform refuses links destination (.setPermissions mode.1 mode.2) = some d₂ →
        d₂ = { d₁ with mode := Function.update d₁.mode (base ++ mode.1) (some mode.2) })
    (done : d.performs refuses links destination
      (modes.map fun mode => .setPermissions mode.1 mode.2) = some d') :
    Chmodded base modes d d' := by
  induction modes generalizing d with
  | nil =>
    obtain rfl := Option.some.inj done
    exact ⟨rfl, rfl, List.forall_mem_nil _, fun _ _ => rfl⟩
  | cons mode modes ih =>
    rw [List.map_cons, performs_cons] at done
    obtain ⟨d₁, first, rest⟩ := Option.bind_eq_some_iff.mp done
    obtain ⟨new, distinct⟩ := List.nodup_cons.mp distinct
    obtain rfl := sets d d₁ rfl mode List.mem_cons_self first
    obtain ⟨unpacking, content, set, others⟩ := ih
      (d := { d with mode := Function.update d.mode (base ++ mode.1) (some mode.2) }) distinct
      (fun d₁ d₂ same other hother => sets d₁ d₂ same other (List.mem_cons_of_mem _ hother)) rest
    refine ⟨unpacking, content, List.forall_mem_cons.mpr ⟨?_, set⟩, fun p other => ?_⟩
    · refine (others _ fun other hother same => ?_).trans (Function.update_self ..)
      rw [List.append_cancel_left same] at new
      exact new (List.mem_map_of_mem hother)
    · obtain ⟨here, later⟩ := List.forall_mem_cons.mp other
      exact (others p later).trans (Function.update_of_ne here _ _)

theorem ZipEntry.mode_eq_some {mode : List Str × UInt32} (h : e.mode = some mode) :
    mode.1 = e.outpath ∧ ∀ target, e.placed ≠ .link target := by
  unfold ZipEntry.mode at h
  split_ifs at h with link
  obtain ⟨enclosed, named, h⟩ := Option.bind_eq_some_iff.mp h
  obtain ⟨bits, -, rfl⟩ := Option.map_eq_some_iff.mp h
  refine ⟨by simp [ZipEntry.outpath, named], fun target placed => ?_⟩
  unfold ZipEntry.placed at placed
  split_ifs at placed with dir symlink
  exact link ⟨symlink, dir⟩

theorem modes_distinct (h : (es.map ZipEntry.outpath).Nodup) :
    ((es.filterMap ZipEntry.mode).map Prod.fst).Nodup := by
  refine h.sublist ?_
  clear h
  induction es with
  | nil => exact .slnil
  | cons e es ih =>
    cases mode : e.mode with
    | none => simpa [mode] using ih.cons _
    | some mode' =>
      simpa [mode, (ZipEntry.mode_eq_some mode).1] using ih

theorem modesOf_some (es : List ZipEntry) : modesOf (es.map some) = es.filterMap ZipEntry.mode := by
  rw [modesOf, List.filterMap_map]
  rfl

variable (links destination base) in
/-- The volume is as the entries say, in a directory that was empty. -/
structure Extracted (d₀ : Volume) (es : List ZipEntry) (d : Volume) : Prop where
  tree : ∀ names, names ≠ [] → d.unpacking.fs (base ++ names) = planned es names
  outside : ∀ p, ¬Inside base p → d.unpacking.fs p = d₀.unpacking.fs p
  content : ∀ e ∈ es, ∀ bytes, e.placed = .file bytes → d.content (base ++ e.outpath) = bytes
  contents : ∀ p, (∀ e ∈ es, ∀ bytes, e.placed = .file bytes → p ≠ base ++ e.outpath) →
    d.content p = d₀.content p
  mode : ∀ e ∈ es, ∀ mode, e.mode = some mode → d.mode (base ++ e.outpath) = some mode.2
  modes : ∀ p, (∀ e ∈ es, e.mode ≠ none → p ≠ base ++ e.outpath) → d.mode p = d₀.mode p

theorem extracted (leads : FileSystem.resolve d₀.unpacking.fs true links [] destination = .ok base)
    (empty : EmptyDir d₀.unpacking.fs base) {limits : ArchiveLimits} {archive : ZipArchive}
    (entries : archive.entries = es.map some) (plain : Unobstructed es)
    (ok : (extractZip limits archive).result = .ok ())
    (done : d₀.performs refuses links destination (extractZip limits archive).log = some d) :
    Extracted base d₀ es d := by
  obtain ⟨es', same, checked, log⟩ := extractZip_log ok
  obtain rfl : es = es' :=
    List.map_injective_iff.mpr (Option.some_injective _) (entries.symm.trans same)
  rw [log, performs_append] at done
  obtain ⟨d₁, first, second⟩ := Option.bind_eq_some_iff.mp done
  have start : Made links destination base d₀ [] d₀ := by
    refine ⟨⟨empty, leads, empty.filled⟩, fun names some_ => ?_, nofun, fun _ _ => rfl, rfl⟩
    exact empty.empty _ ⟨List.prefix_append _ _, by simpa using some_⟩
  have made := start.entries (by simpa using plain) checked first
  rw [List.nil_append] at made
  have chmodded : Chmodded base (es.filterMap ZipEntry.mode).reverse d₁ d := by
    rw [entries, modesOf_some] at second
    refine performs_setPermissions ?_ (fun d₂ d₃ same mode hmode set => ?_) second
    · rw [List.map_reverse, List.nodup_reverse]
      exact modes_distinct plain.distinct
    · obtain ⟨e, he, has⟩ := List.mem_filterMap.mp (List.mem_reverse.mp hmode)
      obtain ⟨at_, notLink⟩ := ZipEntry.mode_eq_some has
      have named := (checked e he).named
      rw [at_] at set ⊢
      refine perform_setPermissions named (same ▸ made.filling) (fun front below some_ proper => ?_)
        (fun target link => ?_) set
      · rw [same, made.tree front some_, planned_below plain he below, if_neg proper]
        exact .inr rfl
      · rw [same, made.tree _ named, planned_below plain he List.prefix_rfl, if_pos rfl] at link
        cases placed : e.placed with
        | link target => exact notLink target placed
        | dir | file => simp [ZipEntry.entry, placed] at link
  obtain ⟨unpacking, content, set, others⟩ := chmodded
  refine ⟨fun names some_ => ?_, fun p outside => ?_, fun e he bytes file => ?_, fun p other => ?_,
    fun e he mode has => ?_, fun p other => ?_⟩
  · rw [unpacking, made.tree names some_]
  · rw [unpacking, made.filling.filled.outside p outside]
  · rw [content, made.content e he bytes file]
  · rw [content, made.others p other]
  · have set := set mode (List.mem_reverse.mpr (List.mem_filterMap.mpr ⟨e, he, has⟩))
    rwa [(ZipEntry.mode_eq_some has).1] at set
  · rw [others, made.mode]
    intro mode hmode
    obtain ⟨e, he, has⟩ := List.mem_filterMap.mp (List.mem_reverse.mp hmode)
    rw [(ZipEntry.mode_eq_some has).1]
    exact other e he (by simp [has])

theorem Unobstructed.perm {es' : List ZipEntry} (h : Unobstructed es) (perm : es.Perm es') :
    Unobstructed es' where
  distinct := (perm.map _).nodup_iff.mp h.distinct
  free f hf file f' hf' := h.free f (perm.symm.subset hf) file f' (perm.symm.subset hf')

/-- A ZIP archive that is extracted becomes its tree: the entries at their paths, with the bytes of
the files and the modes, directories above them, and nothing else; and neither the entries outside,
nor the bytes of other files, nor the modes of other paths change. -/
theorem extractZip_tree
    (leads : FileSystem.resolve d₀.unpacking.fs true links [] destination = .ok base)
    (empty : EmptyDir d₀.unpacking.fs base) {limits : ArchiveLimits} {archive : ZipArchive}
    (entries : archive.entries = es.map some) (plain : Unobstructed es)
    (ok : (extractZip limits archive).result = .ok ())
    (done : d₀.performs refuses links destination (extractZip limits archive).log = some d) :
    (∀ e ∈ es, d.unpacking.fs (base ++ e.outpath) = some e.entry ∧
      (∀ bytes, e.placed = .file bytes → d.content (base ++ e.outpath) = bytes) ∧
      ∀ mode, e.mode = some mode → d.mode (base ++ e.outpath) = some mode.2) ∧
    (∀ e ∈ es, ∀ names, names <+: e.outpath → names ≠ [] → names ≠ e.outpath →
      d.unpacking.fs (base ++ names) = some .dir) ∧
    (∀ names, names ≠ [] → (∀ e ∈ es, ¬names <+: e.outpath) →
      d.unpacking.fs (base ++ names) = none) ∧
    (∀ p, ¬Inside base p → d.unpacking.fs p = d₀.unpacking.fs p) ∧
    (∀ p, (∀ e ∈ es, ∀ bytes, e.placed = .file bytes → p ≠ base ++ e.outpath) →
      d.content p = d₀.content p) ∧
    ∀ p, (∀ e ∈ es, e.mode ≠ none → p ≠ base ++ e.outpath) → d.mode p = d₀.mode p := by
  have hd := extracted leads empty entries plain ok done
  obtain ⟨es', same, checked, -⟩ := extractZip_log ok
  obtain rfl : es = es' :=
    List.map_injective_iff.mpr (Option.some_injective _) (entries.symm.trans same)
  refine ⟨fun e he => ⟨?_, hd.content e he, hd.mode e he⟩, fun e he names below some_ proper => ?_,
    fun names some_ nowhere => ?_, hd.outside, hd.contents, hd.modes⟩
  · rw [hd.tree _ (checked e he).named, planned_below plain he List.prefix_rfl, if_pos rfl]
  · rw [hd.tree _ some_, planned_below plain he below, if_neg proper]
  · rw [hd.tree _ some_, planned_none nowhere]

/-- The order in which an archive lists its tree plays no part. -/
theorem extractZip_perm
    (leads : FileSystem.resolve d₀.unpacking.fs true links [] destination = .ok base)
    (empty : EmptyDir d₀.unpacking.fs base) {limits limits' : ArchiveLimits}
    {archive archive' : ZipArchive} (entries : archive.entries = es.map some)
    (plain : Unobstructed es) (perm : archive.entries.Perm archive'.entries)
    (ok : (extractZip limits archive).result = .ok ())
    (ok' : (extractZip limits' archive').result = .ok ())
    (done : d₀.performs refuses links destination (extractZip limits archive).log = some d)
    (done' : d₀.performs refuses links destination (extractZip limits' archive').log = some d') :
    d.unpacking.fs = d'.unpacking.fs ∧ d.content = d'.content ∧ d.mode = d'.mode := by
  obtain ⟨es', entries', -⟩ := extractZip_log ok'
  have perm : es.Perm es' := by
    rw [entries, entries'] at perm
    simpa [List.filterMap_map] using perm.filterMap id
  have hd := extracted leads empty entries plain ok done
  have hd' := extracted leads empty entries' (plain.perm perm) ok' done'
  refine ⟨funext fun p => ?_, funext fun p => ?_, funext fun p => ?_⟩
  · by_cases inside : Inside base p
    · obtain ⟨⟨names, rfl⟩, proper⟩ := inside
      have some_ : names ≠ [] := by simpa using proper
      rw [hd.tree _ some_, hd'.tree _ some_, planned_perm plain (plain.perm perm) perm]
    · rw [hd.outside p inside, hd'.outside p inside]
  · by_cases file : ∃ e ∈ es, ∃ bytes, e.placed = .file bytes ∧ p = base ++ e.outpath
    · obtain ⟨e, he, bytes, placed, rfl⟩ := file
      rw [hd.content e he bytes placed, hd'.content e (perm.subset he) bytes placed]
    · push Not at file
      rw [hd.contents p file, hd'.contents p fun e he => file e (perm.symm.subset he)]
  · by_cases moded : ∃ e ∈ es, e.mode ≠ none ∧ p = base ++ e.outpath
    · obtain ⟨e, he, has, rfl⟩ := moded
      obtain ⟨mode, has⟩ := Option.ne_none_iff_exists'.mp has
      rw [hd.mode e he mode has, hd'.mode e (perm.subset he) mode has]
    · push Not at moded
      rw [hd.modes p moded, hd'.modes p fun e he => moded e (perm.symm.subset he)]

end Whole

/-! ### The directory `share` with a file, and a link to it -/

def shareDir : ZipEntry := ⟨some (str "share/"), 0, true, false, some 0o755, []⟩

def shareData : ZipEntry := ⟨some (str "share/data"), 2, false, false, some 0o644, [[7], [8]]⟩

def shareLink : ZipEntry :=
  ⟨some (str "current"), 5, false, true, none, [[115, 104, 97, 114, 101]]⟩

def shared : ZipArchive := ⟨[some shareDir, some shareData, some shareLink], by decide⟩

def sharedBackwards : ZipArchive := ⟨[some shareLink, some shareData, some shareDir], by decide⟩

def emptyVolume : Volume := ⟨⟨emptyDest, none⟩, fun _ => [], fun _ => none⟩

deriving instance DecidableEq for ZipEntry

theorem unobstructed_shared : Unobstructed [shareDir, shareData, shareLink] where
  distinct := by decide
  free := by decide

theorem extracts_shared : (extractZip ⟨1024, 10, 10⟩ shared).result = .ok () ∧
    (extractZip ⟨1024, 10, 10⟩ sharedBackwards).result = .ok () := ⟨rfl, rfl⟩

theorem performs_shared : (emptyVolume.performs (fun _ _ => false) 40 [.name (str "dest")]
      (extractZip ⟨1024, 10, 10⟩ shared).log).isSome = true ∧
    (emptyVolume.performs (fun _ _ => false) 40 [.name (str "dest")]
      (extractZip ⟨1024, 10, 10⟩ sharedBackwards).log).isSome = true := by
  decide +kernel

theorem leads_dest : FileSystem.resolve emptyVolume.unpacking.fs true 40 [] [.name (str "dest")] =
    .ok [str "dest"] := rfl

theorem extractZip_tree_shared : ∃ d : Volume,
    emptyVolume.performs (fun _ _ => false) 40 [.name (str "dest")]
      (extractZip ⟨1024, 10, 10⟩ sharedBackwards).log = some d ∧
    d.unpacking.fs [str "dest", str "share", str "data"] = some .file ∧
    d.content [str "dest", str "share", str "data"] = [7, 8] ∧
    d.mode [str "dest", str "share"] = some 0o755 := by
  obtain ⟨d, done⟩ := Option.isSome_iff_exists.mp performs_shared.2
  have plain : Unobstructed [shareLink, shareData, shareDir] := unobstructed_shared.perm (by decide)
  obtain ⟨placed, -⟩ :=
    extractZip_tree leads_dest emptyDest_empty rfl plain extracts_shared.2 done
  exact ⟨d, done, (placed shareData (by simp)).1, (placed shareData (by simp)).2.1 _ rfl,
    (placed shareDir (by simp)).2.2 _ rfl⟩

theorem extractZip_perm_shared : ∃ d d' : Volume,
    emptyVolume.performs (fun _ _ => false) 40 [.name (str "dest")]
      (extractZip ⟨1024, 10, 10⟩ shared).log = some d ∧
    emptyVolume.performs (fun _ _ => false) 40 [.name (str "dest")]
      (extractZip ⟨1024, 10, 10⟩ sharedBackwards).log = some d' ∧ d.content = d'.content := by
  obtain ⟨d, done⟩ := Option.isSome_iff_exists.mp performs_shared.1
  obtain ⟨d', done'⟩ := Option.isSome_iff_exists.mp performs_shared.2
  have perm : shared.entries.Perm sharedBackwards.entries := by decide
  exact ⟨d, d', done, done', (extractZip_perm leads_dest emptyDest_empty rfl unobstructed_shared perm
    extracts_shared.1 extracts_shared.2 done done').2.1⟩

end AcpAgent.Installer
