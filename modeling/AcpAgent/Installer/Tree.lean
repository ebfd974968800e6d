import AcpAgent.Installer.Digest
import Mathlib.Data.List.Sort

/-! Trees of directories, files and links, and the bytes that `hash_payload_sha256_blocking` of
`installer/binary/validation.rs` hashes for one. -/

namespace AcpAgent.Installer

/-- An entry of the file system. -/
inductive Node
  | file (content : Bytes)
  | link (target : Bytes)
  | dir (children : List (Bytes × Node))
  /-- A socket, a pipe or a device. -/
  | other (size : UInt64)

namespace Node

def isDir : Node → Bool
  | .dir _ => true
  | _ => false

/-- The entry of a directory with this name. -/
def child : Node → Bytes → Option Node
  | .dir children, name => (children.find? (·.1 = name)).map (·.2)
  | _, _ => none

/-- The directory with another entry under this name. -/
def setChild (node : Node) (name : Bytes) (entry : Node) : Node :=
  match node with
  | .dir children => .dir ((name, entry) :: children.filter (·.1 ≠ name))
  | node => node

/-- What is at a path below the node. -/
def at_ (node : Node) : List Bytes → Option Node
  | [] => some node
  | name :: path => (node.child name).bind (·.at_ path)

/-- What may be left while a recursive delete is under way, or after it has failed. -/
def Trims (node left : Node) : Prop :=
  ∀ path entry, left.at_ path = some entry →
    ∃ before, node.at_ path = some before ∧ before.isDir = entry.isDir ∧
      (entry.isDir = false → before = entry)

@[simp] theorem isDir_dir (children : List (Bytes × Node)) : (dir children).isDir = true := rfl

@[simp] theorem isDir_setChild (node : Node) (name : Bytes) (entry : Node) :
    (node.setChild name entry).isDir = node.isDir := by
  cases node <;> rfl

@[simp] theorem child_nil (name : Bytes) : (dir []).child name = none := rfl

@[simp] theorem child_setChild {node : Node} (h : node.isDir = true) (name : Bytes)
    (entry : Node) : (node.setChild name entry).child name = some entry := by
  cases node <;> simp_all [isDir, setChild, child]

theorem child_setChild_ne (node : Node) {name other : Bytes} (entry : Node) (h : other ≠ name) :
    (node.setChild name entry).child other = node.child other := by
  cases node with
  | dir children =>
    have skip : (children.filter (·.1 ≠ name)).find? (·.1 = other) =
        children.find? (·.1 = other) := by
      rw [List.find?_filter]
      congr 1
      funext e
      by_cases he : e.1 = other <;> simp [he, h]
    simp only [setChild, child, List.find?_cons, skip]
    simp [Ne.symm h]
  | _ => rfl

theorem Trims.refl (node : Node) : node.Trims node := fun _ entry h => ⟨entry, h, rfl, fun _ => rfl⟩

/-- A file that is left by a recursive delete was there before. -/
theorem Trims.file {node left : Node} {name content : Bytes} (h : node.Trims left)
    (hf : left.child name = some (.file content)) : node.child name = some (.file content) := by
  obtain ⟨before, hb, -, same⟩ := h [name] (.file content) (by simp [at_, hf])
  rw [same rfl] at hb
  simpa [at_] using hb

theorem Trims.none {node left : Node} {name : Bytes} (h : node.Trims left)
    (hn : node.child name = none) : left.child name = none := by
  cases hl : left.child name with
  | none => rfl
  | some entry =>
    obtain ⟨before, hb, -⟩ := h [name] entry (by simp [at_, hl])
    simp [at_, hn] at hb

end Node

/-! ### The payload digest -/

mutual

/-- The tree with the entries of every directory in the order of their names. -/
def Node.sorted : Node → Node
  | .dir children => .dir (sortedEntries children)
  | .file content => .file content
  | .link target => .link target
  | .other size => .other size

def sortedEntries : List (Bytes × Node) → List (Bytes × Node)
  | [] => []
  | (name, node) :: children =>
    (sortedEntries children).orderedInsert (fun a b => a.1 ≤ b.1) (name, node.sorted)

end

/-- The little-endian bytes of a `u64`. -/
def u64Bytes (n : ℕ) : Bytes := (List.range 8).map fun i => .ofNat (n / 256 ^ i)

/-- `hash_length_prefixed`. -/
def lengthPrefixed (bytes : Bytes) : Bytes := u64Bytes bytes.length ++ bytes

/-- `Path::join` of a relative path and a name. -/
def joinPath (relative name : Bytes) : Bytes :=
  if relative = [] then name else relative ++ (str "/").bytes ++ name

mutual

/-- What `hash_payload_entry` feeds to the hasher for a tree whose entries are in order. -/
def Node.preimage (relative : Bytes) : Node → Bytes
  | .dir children => lengthPrefixed relative ++ (str "d").bytes ++ u64Bytes children.length ++
      preimages relative children
  | .file content =>
    lengthPrefixed relative ++ (str "f").bytes ++ u64Bytes content.length ++ content
  | .link target => lengthPrefixed relative ++ (str "l").bytes ++ lengthPrefixed target
  | .other size => lengthPrefixed relative ++ (str "o").bytes ++ u64Bytes size.toNat

def preimages (relative : Bytes) : List (Bytes × Node) → Bytes
  | [] => []
  | (name, node) :: children =>
    node.preimage (joinPath relative name) ++ preimages relative children

end

/-- What `hash_payload_sha256_blocking` feeds to the hasher. -/
def Node.payload (node : Node) : Bytes :=
  (str "acp-agent-payload-tree-v2\x00").bytes ++ node.sorted.preimage []

/-! The hashed bytes tell where every part ends, so that they determine the tree.  The lengths and
counts that are written have to fit a `u64`; those of paths need not, since the path of an entry
continues that of its directory. -/

/-- All sizes fit a `u64`. -/
inductive Node.Sized : Node → Prop
  | file {content} (small : content.length < 2 ^ 64) : Sized (.file content)
  | link {target} (small : target.length < 2 ^ 64) : Sized (.link target)
  | other {size} : Sized (.other size)
  | dir {children} (few : children.length < 2 ^ 64)
      (names : ∀ entry ∈ children, entry.1.length < 2 ^ 64)
      (entries : ∀ entry ∈ children, entry.2.Sized) : Sized (.dir children)

@[simp] theorem length_u64Bytes (n : ℕ) : (u64Bytes n).length = 8 := by
  simp [u64Bytes]

theorem u64Bytes_mod {m n : ℕ} (h : u64Bytes m = u64Bytes n) : m % 2 ^ 64 = n % 2 ^ 64 := by
  have digit : ∀ i < 8, m / 256 ^ i % 256 = n / 256 ^ i % 256 := by
    intro i hi
    have := congrArg (fun l : Bytes => (l.getD i 0).toNat) h
    simpa [u64Bytes, hi] using this
  have h0 := digit 0 (by omega)
  have h1 := digit 1 (by omega)
  have h2 := digit 2 (by omega)
  have h3 := digit 3 (by omega)
  have h4 := digit 4 (by omega)
  have h5 := digit 5 (by omega)
  have h6 := digit 6 (by omega)
  have h7 := digit 7 (by omega)
  simp only [Nat.pow_zero, Nat.div_one] at h0
  omega

theorem u64Bytes_append_inj {m n : ℕ} {r s : Bytes} (hm : m < 2 ^ 64) (hn : n < 2 ^ 64)
    (h : u64Bytes m ++ r = u64Bytes n ++ s) : m = n ∧ r = s := by
  obtain ⟨front, rest⟩ := List.append_inj h (by simp)
  have same := u64Bytes_mod front
  exact ⟨by omega, rest⟩

theorem lengthPrefixed_append_inj {a b r s : Bytes} (ha : a.length < 2 ^ 64)
    (hb : b.length < 2 ^ 64) (h : lengthPrefixed a ++ r = lengthPrefixed b ++ s) :
    a = b ∧ r = s := by
  simp only [lengthPrefixed, List.append_assoc] at h
  obtain ⟨length, rest⟩ := u64Bytes_append_inj ha hb h
  exact List.append_inj rest length

theorem joinPath_eq (relative name : Bytes) :
    ∃ front, joinPath relative name = front ++ name ∧
      ∀ other, joinPath relative other = front ++ other := by
  unfold joinPath
  split_ifs
  · exact ⟨[], rfl, fun _ => rfl⟩
  · exact ⟨relative ++ (str "/").bytes, rfl, fun _ => rfl⟩

theorem joinPath_append_inj {relative a b r s : Bytes} (ha : a.length < 2 ^ 64)
    (hb : b.length < 2 ^ 64)
    (h : lengthPrefixed (joinPath relative a) ++ r = lengthPrefixed (joinPath relative b) ++ s) :
    a = b := by
  obtain ⟨front, atA, atB⟩ := joinPath_eq relative a
  rw [atA, atB b] at h
  simp only [lengthPrefixed, List.append_assoc] at h
  obtain ⟨lengths, rest⟩ := List.append_inj h (by simp)
  have length : a.length = b.length := by
    have same := u64Bytes_mod lengths
    simp only [List.length_append] at same
    omega
  exact (List.append_inj (List.append_cancel_left rest) length).1

/-- An entry begins with its path. -/
theorem Node.preimage_eq (relative : Bytes) (node : Node) :
    ∃ rest, node.preimage relative = lengthPrefixed relative ++ rest := by
  cases node <;> exact ⟨_, by simp only [Node.preimage, List.append_assoc]; rfl⟩

theorem Node.name_of_preimage {relative a b r s : Bytes} {node other : Node}
    (ha : a.length < 2 ^ 64) (hb : b.length < 2 ^ 64)
    (h : node.preimage (joinPath relative a) ++ r = other.preimage (joinPath relative b) ++ s) :
    a = b := by
  obtain ⟨t, ht⟩ := node.preimage_eq (joinPath relative a)
  obtain ⟨u, hu⟩ := other.preimage_eq (joinPath relative b)
  rw [ht, hu, List.append_assoc, List.append_assoc] at h
  exact joinPath_append_inj ha hb h

theorem kind_bytes : (str "d").bytes = [100] ∧ (str "f").bytes = [102] ∧ (str "l").bytes = [108] ∧
    (str "o").bytes = [111] := by
  decide

/-- What is written of the node determines it, whatever follows. -/
def Node.Determined (node : Node) : Prop :=
  ∀ relative other r s, other.Sized →
    node.preimage relative ++ r = other.preimage relative ++ s → node = other ∧ r = s

theorem preimages_append_inj {relative : Bytes} {children others : List (Bytes × Node)}
    {r s : Bytes} (count : children.length = others.length)
    (names : ∀ entry ∈ children, entry.1.length < 2 ^ 64)
    (entries : ∀ entry ∈ children, entry.2.Determined)
    (names' : ∀ entry ∈ others, entry.1.length < 2 ^ 64)
    (entries' : ∀ entry ∈ others, entry.2.Sized)
    (h : preimages relative children ++ r = preimages relative others ++ s) :
    children = others ∧ r = s := by
  induction children generalizing others with
  | nil =>
    obtain rfl := List.length_eq_zero_iff.mp count.symm
    exact ⟨rfl, h⟩
  | cons entry children ih =>
    cases others with
    | nil => simp at count
    | cons entry' others =>
      obtain ⟨name, node⟩ := entry
      obtain ⟨name', node'⟩ := entry'
      obtain ⟨nameHere, moreNames⟩ := List.forall_mem_cons.mp names
      obtain ⟨nameThere, moreNames'⟩ := List.forall_mem_cons.mp names'
      obtain ⟨nodeHere, more⟩ := List.forall_mem_cons.mp entries
      obtain ⟨nodeThere, more'⟩ := List.forall_mem_cons.mp entries'
      simp only [preimages, List.append_assoc] at h
      obtain rfl := Node.name_of_preimage nameHere nameThere h
      obtain ⟨rfl, rest⟩ := nodeHere _ _ _ _ nodeThere h
      obtain ⟨rfl, rfl⟩ := ih (by simpa using count) moreNames more moreNames' more' rest
      exact ⟨rfl, rfl⟩

theorem Node.Sized.determined {node : Node} (h : node.Sized) : node.Determined := by
  obtain ⟨hd, hf, hl, ho⟩ := kind_bytes
  induction h with
  | file small =>
    intro relative other r s sized same
    cases sized with
    | file small' =>
      simp only [Node.preimage, List.append_assoc, List.append_cancel_left_eq] at same
      obtain ⟨length, rest⟩ := u64Bytes_append_inj small small' same
      obtain ⟨rfl, rfl⟩ := List.append_inj rest length
      exact ⟨rfl, rfl⟩
    | link | other | dir => simp [Node.preimage, hd, hf, hl, ho] at same
  | link small =>
    intro relative other r s sized same
    cases sized with
    | link small' =>
      simp only [Node.preimage, List.append_assoc, List.append_cancel_left_eq] at same
      obtain ⟨rfl, rfl⟩ := lengthPrefixed_append_inj small small' same
      exact ⟨rfl, rfl⟩
    | file | other | dir => simp [Node.preimage, hd, hf, hl, ho] at same
  | other =>
    intro relative other r s sized same
    cases sized with
    | other =>
      simp only [Node.preimage, List.append_assoc, List.append_cancel_left_eq] at same
      obtain ⟨size, rfl⟩ := u64Bytes_append_inj (UInt64.toNat_lt _) (UInt64.toNat_lt _) same
      exact ⟨congrArg Node.other (UInt64.toNat_inj.mp size), rfl⟩
    | file | link | dir => simp [Node.preimage, hd, hf, hl, ho] at same
  | dir few names _ ih =>
    intro relative other r s sized same
    cases sized with
    | dir few' names' entries' =>
      simp only [Node.preimage, List.append_assoc, List.append_cancel_left_eq] at same
      obtain ⟨count, rest⟩ := u64Bytes_append_inj few few' same
      obtain ⟨rfl, rfl⟩ := preimages_append_inj count names ih names' entries' rest
      exact ⟨rfl, rfl⟩
    | file | link | other => simp [Node.preimage, hd, hf, hl, ho] at same

/-- The bytes of an entry contain its name and its own bytes. -/
theorem length_le_preimages (relative : Bytes) (children : List (Bytes × Node)) :
    children.length ≤ (preimages relative children).length ∧ ∀ entry ∈ children,
      entry.1.length ≤ (preimages relative children).length ∧
      (entry.2.preimage (joinPath relative entry.1)).length ≤
        (preimages relative children).length := by
  induction children with
  | nil => simp
  | cons entry children ih =>
    obtain ⟨name, node⟩ := entry
    obtain ⟨rest, path⟩ := node.preimage_eq (joinPath relative name)
    obtain ⟨front, join, -⟩ := joinPath_eq relative name
    have long := congrArg List.length path
    simp only [lengthPrefixed, join, List.length_append, length_u64Bytes] at long
    rw [← join] at long
    simp only [preimages, List.length_append, List.length_cons]
    refine ⟨by omega, fun entry hentry => ?_⟩
    rcases List.mem_cons.mp hentry with rfl | later
    · dsimp only
      omega
    · obtain ⟨short, own⟩ := ih.2 entry later
      omega

theorem Node.sized_of_length (node : Node) {relative : Bytes}
    (small : (node.preimage relative).length < 2 ^ 64) : node.Sized := by
  cases node with
  | file content =>
    refine .file ?_
    simp only [Node.preimage, List.length_append] at small
    omega
  | link target =>
    refine .link ?_
    simp only [Node.preimage, lengthPrefixed, List.length_append] at small
    omega
  | other => exact .other
  | dir children =>
    obtain ⟨count, each⟩ := length_le_preimages relative children
    simp only [Node.preimage, List.length_append] at small
    refine .dir (by omega) (fun entry hentry => ?_) fun entry hentry => ?_
    · have := (each entry hentry).1
      omega
    · have smaller : sizeOf entry.2 < sizeOf (Node.dir children) := by
        obtain ⟨name, node⟩ := entry
        have := List.sizeOf_lt_of_mem hentry
        simp only [Prod.mk.sizeOf_spec, Node.dir.sizeOf_spec] at this ⊢
        omega
      exact entry.2.sized_of_length ((each entry hentry).2.trans_lt (by omega))
termination_by sizeOf node

/-- Trees with one payload are the same but for the order of directory entries. -/
theorem Node.sorted_of_payload {node other : Node} (h : node.payload = other.payload)
    (small : node.payload.length < 2 ^ 64) : node.sorted = other.sorted := by
  have same := List.append_cancel_left h
  have bound : (node.sorted.preimage []).length < 2 ^ 64 := by
    simp only [Node.payload, List.length_append] at small
    omega
  have sized := node.sorted.sized_of_length bound
  have sized' := other.sorted.sized_of_length (same ▸ bound)
  exact (sized.determined [] other.sorted [] [] sized' (by simpa using same)).1

end AcpAgent.Installer
