import AcpAgent.Installer.Archive

/-! Two layouts of the tar archive of one tree: with the paths of its entries, and as archiving `.`
makes it, with `./` first and in front of every path.  `extract_tar` of `installer/binary/archive.rs`
takes both, but for the entry of the root. -/

namespace AcpAgent.Installer

open FileSystem (Component)

/-- `tar::EntryType`; devices and pipes are one. -/
inductive EntryType
  | regular
  | link
  | symlink
  | directory
  | other
  deriving DecidableEq

structure TypedEntry extends TarEntry where
  type : EntryType

/-- The components that say where a path leads: a `.` does not. -/
def steps (path : List (Component Str)) : List (Component Str) := path.filter (· ≠ .here)

/-- Two paths that are UTF-8 and lead to the same place. -/
def SameSteps (path path' : Bytes) : Prop :=
  ∃ text text', Str.ofBytes path = some text ∧ Str.ofBytes path' = some text' ∧
    steps (components text) = steps (components text')

/-- Two entries of one type that lead to the same place.  The target of a hard link is a path in the
archive, that of a symbolic link is written as it is. -/
structure SameEntry (type : EntryType) (entry entry' : TarEntry) : Prop where
  path : SameSteps entry.path entry'.path
  linkName : if type = .link then ∃ target target', entry.linkName = some target ∧
    entry'.linkName = some target' ∧ SameSteps target target'
    else entry.linkName = entry'.linkName
  size : entry.size = entry'.size
  isDir : entry.isDir = entry'.isDir

/-- `unpack_in`, by what has been done before and the type of the entry.  It skips each `.` of a path,
and does nothing for an entry that is the destination itself. -/
structure Unpacker where
  unpackIn : List Action → EntryType → UnpackIn
  same : ∀ done type entry entry', SameEntry type entry entry' →
    (unpackIn done type).run entry = (unpackIn done type).run entry'
  root : ∀ done type entry text, Str.ofBytes entry.path = some text →
    steps (components text) = [] → (unpackIn done type).run entry = return ()

/-- The loop of `extract_tar`. -/
def extractTypedEntries (unpacker : Unpacker) (limits : ArchiveLimits) :
    List Action → TarState → List (Option TypedEntry) → Extract Unit
  | _, _, [] => return ()
  | _, _, none :: _ => .stop .crate
  | done, s, some entry :: entries =>
    let first := extractTarEntry (unpacker.unpackIn done entry.type) limits s entry.toTarEntry
    first >>= fun s => extractTypedEntries unpacker limits (done ++ first.log) s entries

/-- An `unpack_in` for which the past and the types play no part. -/
theorem extractTypedEntries_eq {unpacker : Unpacker} {unpackIn : UnpackIn}
    (always : ∀ done type, unpacker.unpackIn done type = unpackIn) (limits : ArchiveLimits)
    (done : List Action) (s : TarState) (entries : List (Option TypedEntry)) :
    extractTypedEntries unpacker limits done s entries =
      extractTarEntries unpackIn limits s (entries.map (Option.map TypedEntry.toTarEntry)) := by
  induction entries generalizing done s with
  | nil => rfl
  | cons entry entries ih =>
    cases entry with
    | none => rfl
    | some entry =>
      simp only [extractTypedEntries, always, ih]
      rfl

/-! ### The entries of a tree -/

/-- An entry of a tree; paths in an archive are relative. -/
structure TreeMember where
  path : Bytes
  type : EntryType
  target : Bytes
  size : UInt64
  relative : path.head? ≠ some 47
  relative_target : type = .link → target.head? ≠ some 47

def TreeMember.linkName (front : Bytes) (member : TreeMember) : Option Bytes :=
  match member.type with
  | .link => some (front ++ member.target)
  | .symlink => some member.target
  | _ => none

def TreeMember.entry (front : Bytes) (member : TreeMember) (position : UInt64) : TypedEntry :=
  ⟨⟨front ++ member.path, member.linkName front, member.size, member.type = .directory, position⟩,
    member.type⟩

@[simp] theorem TreeMember.entry_type (front : Bytes) (member : TreeMember) (position : UInt64) :
    (member.entry front position).type = member.type := rfl

/-- The entries are those of the members in their order, wherever their headers are. -/
def Lists (front : Bytes) : List TreeMember → List (Option TypedEntry) → Prop :=
  List.Forall₂ fun member entry => ∃ position, entry = some (member.entry front position)

def dotSlash : Bytes := (str "./").bytes

/-! ### Paths behind `./` -/

theorem split_slash (text : Str) : ∃ first rest, Str.split '/' text = first :: rest ∧
    (first = [] → rest ≠ [] → text.head? = some '/') := by
  cases text with
  | nil => exact ⟨[], [], rfl, by simp⟩
  | cons ch text =>
    rw [Str.split]
    split_ifs with slash
    · exact ⟨[], _, rfl, fun _ _ => by simp [slash]⟩
    · split <;> exact ⟨_, _, rfl, by simp⟩

theorem steps_dotSlash {text : Str} (relative : text.head? ≠ some '/') :
    steps (components (str "./" ++ text)) = steps (components text) := by
  obtain ⟨first, rest, parts, slash⟩ := split_slash text
  have dotted : Str.split '/' (str "./" ++ text) = str "." :: first :: rest := by
    change Str.split '/' ('.' :: '/' :: text) = _
    simp only [Str.split, parts, Char.reduceEq, if_false, if_true]
    rfl
  have nonroot : ¬(first = [] ∧ rest ≠ []) := by
    rintro ⟨empty, more⟩
    exact relative (slash empty more)
  simp only [components, dotted, parts, if_neg nonroot]
  by_cases dot : first = str "."
  · simp [steps, dot, componentOf]
  · simp [steps, dot]

theorem any_steps (path : List (Component Str)) :
    (path.any fun c => c = .up || c = .root) = (steps path).any fun c => c = .up || c = .root := by
  rw [Bool.eq_iff_iff]
  simp only [List.any_eq_true, steps, List.mem_filter]
  constructor
  · rintro ⟨c, hc, climbs⟩
    refine ⟨c, ⟨hc, ?_⟩, climbs⟩
    cases c <;> simp at climbs ⊢
  · rintro ⟨c, ⟨hc, -⟩, climbs⟩
    exact ⟨c, hc, climbs⟩

theorem normalNames_steps (path : List (Component Str)) :
    normalNames path = normalNames (steps path) := by
  induction path with
  | nil => rfl
  | cons c path ih =>
    cases c <;> simpa [normalNames, steps] using ih

theorem validateArchivePath_dotSlash {text : Str} (relative : text.head? ≠ some '/') :
    (validateArchivePath (some (str "./" ++ text))).toOption =
      (validateArchivePath (some text)).toOption := by
  have same := steps_dotSlash relative
  have chars : ((str "./" ++ text).any fun ch => ch = '\\' || ch = '\x00') =
      text.any fun ch => ch = '\\' || ch = '\x00' := by
    simp only [List.any_append]
    rfl
  have climbs : ((components (str "./" ++ text)).any fun c => c = .up || c = .root) =
      (components text).any fun c => c = .up || c = .root := by
    rw [any_steps, same, ← any_steps]
  have names : normalNames (components (str "./" ++ text)) = normalNames (components text) := by
    rw [normalNames_steps, same, ← normalNames_steps]
  simp only [validateArchivePath, chars, climbs, names]
  split_ifs <;> rfl

theorem relative_of_bytes {path : Bytes} {text : Str} (decoded : Str.ofBytes path = some text)
    (relative : path.head? ≠ some 47) : text.head? ≠ some '/' := by
  intro slash
  obtain ⟨rest, rfl⟩ : ∃ rest, text = '/' :: rest := by
    cases text with
    | nil => simp at slash
    | cons c rest => exact ⟨rest, by rw [Option.some.inj slash]⟩
  rw [Str.ofBytes_eq_some] at decoded
  exact relative (by rw [decoded]; rfl)

theorem ofBytes_dotSlash (path : Bytes) :
    Str.ofBytes (dotSlash ++ path) = (Str.ofBytes path).map (str "./" ++ ·) :=
  Str.ofBytes_bytes_append (str "./") path

theorem validate_dotSlash {path : Bytes} (relative : path.head? ≠ some 47) :
    (validateArchivePath (Str.ofBytes (dotSlash ++ path))).toOption =
      (validateArchivePath (Str.ofBytes path)).toOption := by
  rw [ofBytes_dotSlash]
  cases decoded : Str.ofBytes path with
  | none => rfl
  | some text => exact validateArchivePath_dotSlash (relative_of_bytes decoded relative)

theorem validate_utf8 {path : Bytes}
    (valid : (validateArchivePath (Str.ofBytes path)).toOption ≠ none) :
    ∃ text, Str.ofBytes path = some text := by
  cases decoded : Str.ofBytes path with
  | none => simp [decoded, validateArchivePath, Except.toOption] at valid
  | some text => exact ⟨text, rfl⟩

/-! ### The two archives -/

theorem sameSteps_dotSlash {path : Bytes} {text : Str} (decoded : Str.ofBytes path = some text)
    (relative : path.head? ≠ some 47) : SameSteps (dotSlash ++ path) path :=
  ⟨str "./" ++ text, text, by rw [ofBytes_dotSlash, decoded, Option.map_some], decoded,
    steps_dotSlash (relative_of_bytes decoded relative)⟩

theorem validateLinkName_dotSlash (member : TreeMember) :
    (validateLinkName (member.linkName dotSlash)).toOption =
      (validateLinkName (member.linkName [])).toOption := by
  unfold TreeMember.linkName
  cases type : member.type with
  | link => exact validate_dotSlash (member.relative_target type)
  | symlink | regular | directory | other => rfl

theorem sameEntry_dotSlash (member : TreeMember) (position position' : UInt64)
    (path : (validateArchivePath (Str.ofBytes member.path)).toOption ≠ none)
    (link : (validateLinkName (member.linkName [])).toOption ≠ none) :
    SameEntry member.type (member.entry dotSlash position).toTarEntry
      (member.entry [] position').toTarEntry := by
  obtain ⟨text, decoded⟩ := validate_utf8 path
  refine ⟨sameSteps_dotSlash decoded member.relative, ?_, rfl, rfl⟩
  unfold TreeMember.linkName at link
  split_ifs with hard
  · rw [hard] at link
    obtain ⟨target, read⟩ := validate_utf8 link
    refine ⟨dotSlash ++ member.target, member.target, ?_, ?_,
      sameSteps_dotSlash read (member.relative_target hard)⟩ <;>
    simp [TreeMember.entry, TreeMember.linkName, hard]
  · cases type : member.type with
    | link => exact absurd type hard
    | symlink | regular | directory | other => simp [TreeMember.entry, TreeMember.linkName, type]

theorem toOption_of_ofExcept {ε α : Type} {x : Except ε α} {a : α}
    (h : (Logged.ofExcept x : Logged Action ε α).result = .ok a) : x.toOption ≠ none := by
  simp [show x = .ok a from h, Except.toOption]

theorem agrees_entry (unpacker : Unpacker) (limits : ArchiveLimits) (done : List Action)
    (s : TarState) (member : TreeMember) (position position' : UInt64) :
    (extractTarEntry (unpacker.unpackIn done member.type) limits s
      (member.entry dotSlash position).toTarEntry).Agrees
    (extractTarEntry (unpacker.unpackIn done member.type) limits s
      (member.entry [] position').toTarEntry) := by
  refine .bind (.ofExcept (validate_dotSlash member.relative)) fun _ ok => ?_
  refine .bind (.ofExcept (validateLinkName_dotSlash member)) fun _ ok' => ?_
  have path : (validateArchivePath (Str.ofBytes (dotSlash ++ member.path))).toOption ≠ none :=
    toOption_of_ofExcept ok
  have link : (validateLinkName (member.linkName dotSlash)).toOption ≠ none :=
    toOption_of_ofExcept ok'
  rw [validate_dotSlash member.relative] at path
  rw [validateLinkName_dotSlash member] at link
  have same := unpacker.same done member.type _ _
    (sameEntry_dotSlash member position position' path link)
  rw [same]
  exact .refl _

theorem agrees_entries (unpacker : Unpacker) (limits : ArchiveLimits) (done : List Action)
    (s : TarState) {members : List TreeMember} {dotted plain : List (Option TypedEntry)}
    (hd : Lists dotSlash members dotted) (hp : Lists [] members plain) :
    (extractTypedEntries unpacker limits done s dotted).Agrees
      (extractTypedEntries unpacker limits done s plain) := by
  induction hd generalizing done s plain with
  | nil =>
    cases hp
    exact .refl _
  | @cons member _ _ _ first _ ih =>
    cases hp with
    | cons first' rest =>
      obtain ⟨position, rfl⟩ := first
      obtain ⟨position', rfl⟩ := first'
      have agrees := agrees_entry unpacker limits done s member position position'
      refine .bind agrees fun s' _ => ?_
      rw [TreeMember.entry_type, TreeMember.entry_type, agrees.log]
      exact ih _ s' rest

/-- Archiving `.` gives an archive that is rejected at its first entry, the root, before anything is
unpacked.  Without that entry it is accepted exactly if the plain archive is, and what is done is the
same for both. -/
theorem dotted_layout (unpacker : Unpacker) (limits : ArchiveLimits) {members : List TreeMember}
    {plain dotted : List (Option TypedEntry)} {root : TypedEntry} (hp : Lists [] members plain)
    (hd : Lists dotSlash members dotted) (hr : root.path = dotSlash) :
    extractTypedEntries unpacker limits [] .empty (some root :: dotted) =
      ⟨[], .error .emptyPath⟩ ∧
    (extractTypedEntries unpacker limits [] .empty dotted).Agrees
      (extractTypedEntries unpacker limits [] .empty plain) := by
  refine ⟨?_, agrees_entries unpacker limits [] .empty hd hp⟩
  have empty : validateArchivePath (Str.ofBytes root.path) = .error .emptyPath := by
    rw [hr, dotSlash, Str.ofBytes_bytes]
    decide
  rw [extractTypedEntries, extractTarEntry, empty]
  rfl

/-! ### A tree of one file -/

def pathNames (path : Bytes) : List Str :=
  ((Str.ofBytes path).map fun text => normalNames (components text)).getD []

theorem pathNames_eq {path path' : Bytes} (h : SameSteps path path') :
    pathNames path = pathNames path' := by
  obtain ⟨text, text', decoded, decoded', same⟩ := h
  simp only [pathNames, decoded, decoded', Option.map_some, Option.getD_some]
  rw [normalNames_steps, same, ← normalNames_steps]

def makeEmpty (entry : TarEntry) : List Action :=
  if pathNames entry.path = [] then []
  else if entry.isDir then [.createDirAll (pathNames entry.path)]
  else [.createFile (pathNames entry.path)]

def emptyUnpacker : Unpacker where
  unpackIn _ _ :=
    { actions := makeEmpty
      succeeds := fun _ => true
      bytes_le := fun entry => by
        unfold makeEmpty
        split_ifs <;> simp [Action.bytes]
      files_le := fun entry => by
        unfold makeEmpty
        split_ifs <;> simp_all [Action.files]
      entries_eq := fun entry => by
        unfold makeEmpty
        split_ifs <;> simp [Action.entries] }
  same _ _ entry entry' same := by
    simp only [UnpackIn.run, makeEmpty, pathNames_eq same.path, same.isDir]
  root _ _ entry text decoded none_ := by
    have names : pathNames entry.path = [] := by
      rw [pathNames, decoded, Option.map_some, Option.getD_some, normalNames_steps, none_]
      rfl
    simp only [UnpackIn.run, makeEmpty, names, if_true]
    rfl

def agentFile : TreeMember :=
  ⟨(str "agent").bytes, .regular, [], 0, by decide, by decide⟩

def rootEntry : TypedEntry := ⟨⟨dotSlash, none, 0, true, 0⟩, .directory⟩

theorem agentFile_listed : Lists [] [agentFile] [some (agentFile.entry [] 0)] :=
  .cons ⟨0, rfl⟩ .nil

theorem agentFile_dotted : Lists dotSlash [agentFile] [some (agentFile.entry dotSlash 512)] :=
  .cons ⟨512, rfl⟩ .nil

/-- The archive of the file is accepted, and that of `.` is not. -/
theorem root_entry_rejected : ∃ plain dotted : List (Option TypedEntry),
    Lists [] [agentFile] plain ∧ Lists dotSlash [agentFile] dotted ∧
    (extractTypedEntries emptyUnpacker ⟨1024, 10, 10⟩ [] .empty plain).result = .ok () ∧
    (extractTypedEntries emptyUnpacker ⟨1024, 10, 10⟩ [] .empty (some rootEntry :: dotted)).result =
      .error .emptyPath :=
  ⟨_, _, agentFile_listed, agentFile_dotted, by decide +kernel, by decide +kernel⟩

theorem dotted_layout_file :
    extractTypedEntries emptyUnpacker ⟨1024, 10, 10⟩ [] .empty
        [some rootEntry, some (agentFile.entry dotSlash 512)] = ⟨[], .error .emptyPath⟩ ∧
    (extractTypedEntries emptyUnpacker ⟨1024, 10, 10⟩ [] .empty
      [some (agentFile.entry dotSlash 512)]).Agrees
    (extractTypedEntries emptyUnpacker ⟨1024, 10, 10⟩ [] .empty [some (agentFile.entry [] 0)]) :=
  dotted_layout emptyUnpacker ⟨1024, 10, 10⟩ agentFile_listed agentFile_dotted rfl

end AcpAgent.Installer
