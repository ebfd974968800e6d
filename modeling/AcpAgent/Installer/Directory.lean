import AcpAgent.Installer.Tree

/-! What is at the paths of a tree, and how the removal of a subtree and the opening of a file
change it. -/

namespace AcpAgent.Installer

/-- An entry of the file system without what is in it, if it is a directory. -/
inductive Shape
  | file (content : Bytes)
  | link (target : Bytes)
  | dir
  | other (size : UInt64)
  deriving DecidableEq

namespace Node

def shape : Node → Shape
  | .file content => .file content
  | .link target => .link target
  | .dir _ => .dir
  | .other size => .other size

/-- What is at a path. -/
def look (node : Node) (path : List Bytes) : Option Shape := (node.at_ path).map shape

/-- The names that `read_dir` gives for a path; it fails for anything but a directory. -/
def readDir (node : Node) (path : List Bytes) : List Bytes :=
  match node.at_ path with
  | some (.dir children) => children.map Prod.fst
  | _ => []

/-- The directory without an entry. -/
def removeChild (name : Bytes) : Node → Node
  | .dir children => .dir (children.filter (·.1 ≠ name))
  | node => node

/-- The tree without what is at a path and below it, `remove_dir_all`. -/
def removeAt : List Bytes → Node → Node
  | [], node => node
  | [name], node => node.removeChild name
  | name :: next :: path, node =>
    match node.child name with
    | none => node
    | some sub => node.setChild name (sub.removeAt (next :: path))

/-- `remove_dir`, which removes an empty directory only; errors are ignored. -/
def removeDir (path : List Bytes) (node : Node) : Node :=
  if node.look path = some .dir ∧ node.readDir path = [] then node.removeAt path else node

/-- A new empty file in a directory. -/
def addFile : List Bytes → Node → Node
  | [], node => node
  | [name], node => node.setChild name (.file [])
  | name :: next :: path, node =>
    match node.child name with
    | none => node
    | some sub => node.setChild name (sub.addFile (next :: path))

theorem look_nil (node : Node) : node.look [] = some node.shape := rfl

theorem look_cons (node : Node) (name : Bytes) (path : List Bytes) :
    node.look (name :: path) = (node.child name).bind (·.look path) := by
  rw [look, at_]
  cases node.child name <;> rfl

theorem shape_setChild (node : Node) (name : Bytes) (entry : Node) :
    (node.setChild name entry).shape = node.shape := by
  cases node <;> rfl

theorem isDir_of_child {node : Node} {name : Bytes} {entry : Node}
    (h : node.child name = some entry) : node.isDir = true := by
  cases node with
  | dir => rfl
  | file | link | other => simp [child] at h

theorem shape_removeChild (node : Node) (name : Bytes) :
    (node.removeChild name).shape = node.shape := by
  cases node <;> rfl

theorem child_removeChild (node : Node) (name other : Bytes) :
    (node.removeChild name).child other = if other = name then none else node.child other := by
  cases node with
  | dir children =>
    have skip : (children.filter (·.1 ≠ name)).find? (·.1 = other) =
        if other = name then none else children.find? (·.1 = other) := by
      rw [List.find?_filter]
      split_ifs with same
      · rw [List.find?_eq_none]
        rintro e - both
        simp [same] at both
      · congr 1
        funext e
        by_cases he : e.1 = other <;> simp [he, same]
    simp only [removeChild, child, skip]
    split_ifs <;> rfl
  | file | link | other => simp [removeChild, child]

/-- A directory's entry that is replaced, seen from the directory. -/
theorem look_setChild {node : Node} (dir : node.isDir = true) (name : Bytes) (sub : Node)
    (first : Bytes) (rest : List Bytes) :
    (node.setChild name sub).look (first :: rest) =
      if first = name then sub.look rest else node.look (first :: rest) := by
  simp only [look_cons]
  split_ifs with same
  · rw [same, child_setChild dir, Option.bind_some]
  · rw [child_setChild_ne _ _ same]

/-- The removal leaves everything else as it was. -/
theorem look_removeAt {path : List Bytes} (nonempty : path ≠ []) (node : Node)
    (query : List Bytes) :
    (node.removeAt path).look query = if path <+: query then none else node.look query := by
  fun_induction removeAt path node generalizing query with
  | case1 node => exact absurd rfl nonempty
  | case2 name node =>
    cases query with
    | nil => simp [look_nil, shape_removeChild]
    | cons first rest =>
      simp only [look_cons, child_removeChild, List.cons_prefix_cons, List.nil_prefix, and_true]
      by_cases same : first = name
      · simp [same]
      · simp [same, Ne.symm same]
  | case3 name next path node missing =>
    split_ifs with below
    · obtain ⟨rest, rfl⟩ := below
      rw [List.cons_append, look_cons, missing, Option.bind_none]
    · rfl
  | case4 name next path node sub found ih =>
    cases query with
    | nil => simp [look_nil, shape_setChild]
    | cons first rest =>
      rw [look_setChild (isDir_of_child found), ih (by simp)]
      by_cases same : first = name
      · subst same
        simp [look_cons, found]
      · simp [same, Ne.symm same]

/-- A new file changes nothing else. -/
theorem look_addFile {path : List Bytes} (nonempty : path ≠ []) {node : Node}
    (parent : node.look path.dropLast = some .dir) (fresh : node.look path = none)
    (query : List Bytes) :
    (node.addFile path).look query =
      if query = path then some (.file []) else node.look query := by
  fun_induction addFile path node generalizing query with
  | case1 node => exact absurd rfl nonempty
  | case2 name node =>
    have dir : node.isDir = true := by
      cases node with
      | dir => rfl
      | file | link | other => simp [look, at_, shape] at parent
    cases query with
    | nil => simp [look_nil, shape_setChild]
    | cons first rest =>
      rw [look_setChild dir]
      by_cases same : first = name
      · subst same
        have absent : node.child first = none := by
          cases there : node.child first with
          | none => rfl
          | some sub => simp [look_cons, there, look_nil] at fresh
        cases rest with
        | nil => simp [look_nil, shape]
        | cons next rest =>
          have none_below : (Node.file []).child next = none := rfl
          simp [look_cons, absent, none_below]
      · simp [same]
  | case3 name next path node missing =>
    simp [look_cons, missing] at parent
  | case4 name next path node sub found ih =>
    have parent' : sub.look (next :: path).dropLast = some .dir := by
      simpa [look_cons, found] using parent
    have fresh' : sub.look (next :: path) = none := by
      simpa [look_cons, found] using fresh
    cases query with
    | nil => simp [look_nil, shape_setChild]
    | cons first rest =>
      rw [look_setChild (isDir_of_child found), ih (by simp) parent' fresh']
      by_cases same : first = name
      · subst same
        simp [look_cons, found]
      · simp [same]

theorem at_append (node : Node) (path rest : List Bytes) :
    node.at_ (path ++ rest) = (node.at_ path).bind (·.at_ rest) := by
  induction path generalizing node with
  | nil => rfl
  | cons name path ih =>
    rw [List.cons_append, at_, at_]
    cases node.child name with
    | none => rfl
    | some sub => simp [ih]

theorem look_append (node : Node) (path rest : List Bytes) :
    node.look (path ++ rest) = (node.at_ path).bind (·.look rest) := by
  rw [look, at_append]
  cases node.at_ path <;> rfl

/-- A directory lists what is in it. -/
theorem mem_readDir {node : Node} {path : List Bytes} {name : Bytes} :
    name ∈ node.readDir path ↔ node.look (path ++ [name]) ≠ none := by
  rw [look_append, readDir]
  cases node.at_ path with
  | none => simp
  | some sub =>
    cases sub with
    | dir children =>
      rw [Option.bind_some, look_cons, child]
      cases found : children.find? (·.1 = name) with
      | none =>
        rw [List.find?_eq_none] at found
        simp only [Option.map_none, Option.bind_none, ne_eq, not_true, iff_false, List.mem_map]
        rintro ⟨entry, member, same⟩
        exact found entry member (decide_eq_true same)
      | some entry =>
        have same : entry.1 = name := by simpa using List.find?_some found
        simp only [Option.map_some, Option.bind_some, look_nil]
        exact iff_of_true (List.mem_map.mpr ⟨entry, List.mem_of_find?_eq_some found, same⟩)
          (Option.some_ne_none _)
    | file | link | other => simp [look_cons, child]

/-- What is below a path is in directories. -/
theorem look_dir {node : Node} {path rest : List Bytes} (nonempty : rest ≠ [])
    (h : node.look (path ++ rest) ≠ none) : node.look path = some .dir := by
  rw [look_append] at h
  rw [look]
  cases there : node.at_ path with
  | none => simp [there] at h
  | some sub =>
    obtain ⟨name, rest, rfl⟩ := List.exists_cons_of_ne_nil nonempty
    rw [there, Option.bind_some, look_cons] at h
    cases sub with
    | dir => rfl
    | file | link | other => simp [child] at h

/-- The directories above anything that is there are not empty, and stay. -/
theorem removeDir_of_look {node : Node} {path : List Bytes} {name : Bytes}
    (h : node.look (path ++ [name]) ≠ none) : node.removeDir path = node := by
  rw [removeDir, if_neg]
  rintro ⟨-, empty⟩
  have member := mem_readDir.mpr h
  rw [empty] at member
  exact absurd member (by simp)

end Node

end AcpAgent.Installer
