import AcpAgent.Installer.Tree
import Mathlib.Data.List.Nodup
import Mathlib.Data.List.Perm.Basic

/-! What the payload digest of `installer/binary/validation.rs` tells of a tree: all of it but the
order in which its directories are listed. -/

namespace AcpAgent.Installer

/-- A name in a directory: some bytes without a slash. -/
def IsFileName (name : Bytes) : Prop := name ≠ [] ∧ 47 ∉ name ∧ name.length < 2 ^ 64

/-- A tree of directories, regular files and symbolic links.  The names in a directory are distinct,
and the sizes are those of the file system. -/
inductive Node.Tree : Node → Prop
  | file {content} (small : content.length < 2 ^ 64) : Tree (.file content)
  | link {target} (small : target.length < 2 ^ 64) : Tree (.link target)
  | dir {children} (few : children.length < 2 ^ 64) (distinct : (children.map Prod.fst).Nodup)
      (names : ∀ entry ∈ children, IsFileName entry.1)
      (entries : ∀ entry ∈ children, entry.2.Tree) : Tree (.dir children)

/-- What is at a path, apart from what is below it. -/
inductive Label
  | file (content : Bytes)
  | link (target : Bytes)
  | dir
  | other (size : UInt64)
  deriving DecidableEq

def Node.label : Node → Label
  | .file content => .file content
  | .link target => .link target
  | .dir _ => .dir
  | .other size => .other size

/-- The same names, kinds, contents and targets at every path. -/
def Node.Same (node other : Node) : Prop :=
  ∀ path, (node.at_ path).map Node.label = (other.at_ path).map Node.label

/-- `read_dir`: the order in which it lists a directory, by the path of the directory. -/
structure ReadDir where
  list : Bytes → List (Bytes × Node) → List (Bytes × Node)
  perm : ∀ relative children, (list relative children).Perm children

mutual

/-- The tree as `read_dir` lists it. -/
def Node.listed (readDir : ReadDir) (relative : Bytes) : Node → Node
  | .dir children => .dir (readDir.list relative (listedEntries readDir relative children))
  | .file content => .file content
  | .link target => .link target
  | .other size => .other size

def listedEntries (readDir : ReadDir) (relative : Bytes) :
    List (Bytes × Node) → List (Bytes × Node)
  | [] => []
  | (name, node) :: children =>
    (name, node.listed readDir (joinPath relative name)) :: listedEntries readDir relative children

end

/-! ### Directories -/

section Directory

variable {α β : Type} {entries others : List (Bytes × α)} {name : Bytes}

theorem find_name (distinct : (entries.map Prod.fst).Nodup) {entry : Bytes × α} :
    entries.find? (·.1 = name) = some entry ↔ entry ∈ entries ∧ entry.1 = name := by
  constructor
  · intro found
    exact ⟨List.mem_of_find?_eq_some found, by simpa using List.find?_some found⟩
  · rintro ⟨hmem, rfl⟩
    cases found : entries.find? (·.1 = entry.1) with
    | none => simpa using List.find?_eq_none.mp found entry hmem
    | some first =>
      have same : first.1 = entry.1 := by simpa using List.find?_some found
      rw [List.inj_on_of_nodup_map distinct (List.mem_of_find?_eq_some found) hmem same]

theorem find_perm (perm : entries.Perm others) (distinct : (entries.map Prod.fst).Nodup) :
    entries.find? (·.1 = name) = others.find? (·.1 = name) := by
  have distinct' : (others.map Prod.fst).Nodup := (perm.map Prod.fst).nodup_iff.mp distinct
  apply Option.ext
  intro entry
  rw [find_name distinct, find_name distinct', perm.mem_iff]

theorem mem_iff_child {entries : List (Bytes × Node)} (distinct : (entries.map Prod.fst).Nodup)
    {node : Node} : (name, node) ∈ entries ↔ (Node.dir entries).child name = some node := by
  rw [Node.child, Option.map_eq_some_iff]
  constructor
  · intro hmem
    exact ⟨(name, node), (find_name distinct).mpr ⟨hmem, rfl⟩, rfl⟩
  · rintro ⟨entry, found, rfl⟩
    obtain ⟨hmem, rfl⟩ := (find_name distinct).mp found
    exact hmem

theorem eq_of_ordered (perm : entries.Perm others) (distinct : (entries.map Prod.fst).Nodup)
    (ordered : entries.Pairwise fun a b => a.1 ≤ b.1)
    (ordered' : others.Pairwise fun a b => a.1 ≤ b.1) : entries = others := by
  refine perm.eq_of_pairwise (fun a b ha hb le ge => ?_) ordered ordered'
  exact List.inj_on_of_nodup_map distinct ha (perm.mem_iff.mpr hb) (List.le_antisymm le ge)

end Directory

/-! ### Sorted trees -/

theorem sortedEntries_eq (children : List (Bytes × Node)) :
    sortedEntries children = (children.map fun entry => (entry.1, entry.2.sorted)).insertionSort
      fun a b => a.1 ≤ b.1 := by
  induction children with
  | nil => rfl
  | cons entry children ih => rw [sortedEntries, ih, List.map_cons, List.insertionSort_cons]

theorem sortedEntries_perm (children : List (Bytes × Node)) :
    (sortedEntries children).Perm (children.map fun entry => (entry.1, entry.2.sorted)) := by
  rw [sortedEntries_eq]
  exact List.perm_insertionSort ..

theorem sortedEntries_ordered (children : List (Bytes × Node)) :
    (sortedEntries children).Pairwise fun a b => a.1 ≤ b.1 := by
  have total : Std.Total fun a b : Bytes × Node => a.1 ≤ b.1 := ⟨fun a b => List.le_total a.1 b.1⟩
  have trans : IsTrans (Bytes × Node) fun a b => a.1 ≤ b.1 := ⟨fun _ _ _ => List.le_trans⟩
  rw [sortedEntries_eq]
  exact List.pairwise_insertionSort ..

theorem names_sorted (children : List (Bytes × Node)) :
    (children.map fun entry => (entry.1, entry.2.sorted)).map Prod.fst = children.map Prod.fst := by
  rw [List.map_map]
  rfl

theorem sortedEntries_distinct {children : List (Bytes × Node)}
    (distinct : (children.map Prod.fst).Nodup) :
    ((sortedEntries children).map Prod.fst).Nodup := by
  rw [← names_sorted] at distinct
  exact ((sortedEntries_perm children).map Prod.fst).nodup_iff.mpr distinct

theorem child_sorted {children : List (Bytes × Node)} (distinct : (children.map Prod.fst).Nodup)
    (name : Bytes) : (Node.dir (sortedEntries children)).child name =
      ((Node.dir children).child name).map Node.sorted := by
  rw [Node.child, Node.child, find_perm (sortedEntries_perm children)
    (sortedEntries_distinct distinct), List.find?_map, Option.map_map, Option.map_map]
  rfl

theorem Node.Tree.same_sorted {node : Node} (h : node.Tree) : node.sorted.Same node := by
  induction h with
  | file | link => exact fun _ => rfl
  | @dir children _ distinct _ _ ih =>
    intro path
    cases path with
    | nil => rfl
    | cons name path =>
      rw [Node.sorted, Node.at_, Node.at_, child_sorted distinct]
      cases found : (Node.dir children).child name with
      | none => rfl
      | some node =>
        obtain ⟨entry, first, rfl⟩ := Option.map_eq_some_iff.mp found
        exact ih entry (List.mem_of_find?_eq_some first) path

theorem Node.Tree.sized_sorted {node : Node} (h : node.Tree) : node.sorted.Sized := by
  induction h with
  | file small => exact .file small
  | link small => exact .link small
  | @dir children few _ names _ ih =>
    have listed : ∀ entry ∈ sortedEntries children, ∃ old ∈ children,
        (old.1, old.2.sorted) = entry := fun entry hentry =>
      List.mem_map.mp ((sortedEntries_perm children).mem_iff.mp hentry)
    refine .dir ?_ (fun entry hentry => ?_) fun entry hentry => ?_
    · rwa [(sortedEntries_perm children).length_eq, List.length_map]
    · obtain ⟨old, hold, rfl⟩ := listed entry hentry
      exact (names old hold).2.2
    · obtain ⟨old, hold, rfl⟩ := listed entry hentry
      exact ih old hold

theorem Node.Tree.sorted_eq {node other : Node} (h : node.Tree) (h' : other.Tree)
    (same : node.Same other) : node.sorted = other.sorted := by
  induction h generalizing other with
  | file | link =>
    have root := same []
    cases h' <;> simp_all [Node.at_, Node.label, Node.sorted]
  | @dir children _ distinct _ _ ih =>
    have root := same []
    cases h' with
    | file | link => simp [Node.at_, Node.label] at root
    | @dir others _ distinct' _ entries' =>
      have child : ∀ name, ((Node.dir children).child name).map Node.sorted =
          ((Node.dir others).child name).map Node.sorted := by
        intro name
        have below : ∀ path, (((Node.dir children).child name).bind (·.at_ path)).map Node.label =
            (((Node.dir others).child name).bind (·.at_ path)).map Node.label :=
          fun path => same (name :: path)
        cases found : (Node.dir children).child name with
        | none =>
          cases found' : (Node.dir others).child name with
          | none => rfl
          | some node' => simpa [found, found', Node.at_] using below []
        | some node =>
          cases found' : (Node.dir others).child name with
          | none => simpa [found, found', Node.at_] using below []
          | some node' =>
            have hmem := (mem_iff_child distinct).mpr found
            have hmem' := (mem_iff_child distinct').mpr found'
            have here : node.Same node' := fun path => by simpa [found, found'] using below path
            rw [Option.map_some, Option.map_some, ih _ hmem (entries' _ hmem') here]
      have nodup : (sortedEntries children).Nodup := (sortedEntries_distinct distinct).of_map
      have nodup' : (sortedEntries others).Nodup := (sortedEntries_distinct distinct').of_map
      have perm : (sortedEntries children).Perm (sortedEntries others) := by
        refine (List.perm_ext_iff_of_nodup nodup nodup').mpr fun entry => ?_
        obtain ⟨name, node⟩ := entry
        rw [mem_iff_child (sortedEntries_distinct distinct),
          mem_iff_child (sortedEntries_distinct distinct'), child_sorted distinct,
          child_sorted distinct', child name]
      rw [Node.sorted, Node.sorted, eq_of_ordered perm (sortedEntries_distinct distinct)
        (sortedEntries_ordered children) (sortedEntries_ordered others)]

/-! ### The payload -/

theorem listedEntries_eq (readDir : ReadDir) (relative : Bytes) (children : List (Bytes × Node)) :
    listedEntries readDir relative children = children.map fun entry =>
      (entry.1, entry.2.listed readDir (joinPath relative entry.1)) := by
  induction children with
  | nil => rfl
  | cons entry children ih => rw [listedEntries, ih, List.map_cons]

theorem Node.Tree.sorted_listed {node : Node} (h : node.Tree) (readDir : ReadDir)
    (relative : Bytes) : (node.listed readDir relative).sorted = node.sorted := by
  induction h generalizing relative with
  | file | link => rfl
  | @dir children _ distinct _ _ ih =>
    have each : (listedEntries readDir relative children).map (fun entry =>
        (entry.1, entry.2.sorted)) = children.map fun entry => (entry.1, entry.2.sorted) := by
      rw [listedEntries_eq, List.map_map]
      refine List.map_congr_left fun entry hentry => ?_
      exact congrArg _ (ih entry hentry _)
    have perm : (sortedEntries children).Perm
        (sortedEntries (readDir.list relative (listedEntries readDir relative children))) := by
      have listed := (readDir.perm relative (listedEntries readDir relative children)).map
        fun entry : Bytes × Node => (entry.1, entry.2.sorted)
      rw [each] at listed
      exact (sortedEntries_perm children).trans (listed.symm.trans (sortedEntries_perm _).symm)
    rw [Node.listed, Node.sorted, Node.sorted, eq_of_ordered perm (sortedEntries_distinct distinct)
      (sortedEntries_ordered _) (sortedEntries_ordered _)]

abbrev PayloadTree := { node : Node // node.Tree }

/-- The hashed bytes of two trees are the same exactly if the trees are the same, and the order in
which directories are listed plays no part. -/
theorem payload_injective (t u : PayloadTree) :
    (t.1.payload = u.1.payload ↔ t.1.Same u.1) ∧
      ∀ readDir, (t.1.listed readDir []).payload = t.1.payload := by
  obtain ⟨node, tree⟩ := t
  obtain ⟨other, tree'⟩ := u
  refine ⟨⟨fun same path => ?_, fun same => ?_⟩, fun readDir => ?_⟩
  · have front := List.append_cancel_left same
    have sorted := (tree.sized_sorted.determined [] other.sorted [] [] tree'.sized_sorted
      (by simpa using front)).1
    rw [← tree.same_sorted path, sorted, tree'.same_sorted path]
  · rw [Node.payload, Node.payload, tree.sorted_eq tree' same]
  · rw [Node.payload, Node.payload, tree.sorted_listed]

end AcpAgent.Installer
