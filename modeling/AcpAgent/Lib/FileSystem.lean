import Mathlib.Data.List.Infix
import Mathlib.Logic.Function.Basic

/-! File systems with symbolic links, the resolution of paths as operating systems do it, and the
rule that paths stay below a directory as long as all links in it lead downwards. -/

namespace FileSystem

/-- A component of a path. -/
inductive Component (ν : Type*)
  | root
  | here
  | up
  | name (n : ν)
  deriving DecidableEq

/-- What is at a path; a link holds the components of its target. -/
inductive Entry (ν : Type*)
  | dir
  | file
  | link (target : List (Component ν))
  deriving DecidableEq

/-- What is at every path from the root that passes no link. -/
abbrev Fs (ν : Type*) := List ν → Option (Entry ν)

/-- Why an operation fails. -/
inductive Errno
  | notFound
  | notDirectory
  | exists_
  | isDirectory
  | loop
  | refused
  deriving DecidableEq

/-- The path to names below a path. -/
def join {ν : Type*} (path : List (Component ν)) (names : List ν) : List (Component ν) :=
  path ++ names.map Component.name

section Resolution

variable {ν : Type*} (fs : Fs ν) (follow : Bool)

/-- Follows the components from a directory.  The last name need not exist, and is followed if it is
a link only if `follow` says so; `jump` goes on at a link's target. -/
def walk (jump : List ν → List (Component ν) → Except Errno (List ν)) :
    List ν → List (Component ν) → Except Errno (List ν)
  | cur, [] => .ok cur
  | _, .root :: rest => walk jump [] rest
  | cur, .here :: rest => walk jump cur rest
  | cur, .up :: rest => walk jump cur.dropLast rest
  | cur, .name n :: rest =>
    match fs (cur ++ [n]) with
    | none => if rest.isEmpty then .ok (cur ++ [n]) else .error .notFound
    | some .dir => walk jump (cur ++ [n]) rest
    | some .file => if rest.isEmpty then .ok (cur ++ [n]) else .error .notDirectory
    | some (.link target) =>
      if rest.isEmpty && !follow then .ok (cur ++ [n]) else jump cur (target ++ rest)

/-- The path that components lead to from a directory, over at most this many links. -/
def resolve : ℕ → List ν → List (Component ν) → Except Errno (List ν)
  | 0 => walk fs follow fun _ _ => .error .loop
  | links + 1 => walk fs follow (resolve links)

end Resolution

/-! ### Operations

Each returns the path at which it took effect.  The system may refuse any change. -/

section Operations

variable {ν : Type*} [DecidableEq ν] (refuses : Fs ν → List ν → Bool) (links : ℕ)

/-- The root is always there. -/
def entryAt (fs : Fs ν) (path : List ν) : Option (Entry ν) := if path = [] then some .dir else fs path

/-- An operation where a path leads; `change` says from what is there what it makes, if anything. -/
def operate (follow : Bool) (change : Option (Entry ν) → Except Errno (Option (Entry ν)))
    (path : List (Component ν)) (fs : Fs ν) : Except Errno (List ν × Fs ν) :=
  match resolve fs follow links [] path with
  | .error e => .error e
  | .ok real =>
    if refuses fs real then .error .refused
    else
      match change (entryAt fs real) with
      | .error e => .error e
      | .ok none => .ok (real, fs)
      | .ok (some entry) => .ok (real, Function.update fs real (some entry))

/-- Makes an entry where there is none. -/
def create (entry : Entry ν) : Option (Entry ν) → Except Errno (Option (Entry ν))
  | none => .ok (some entry)
  | some _ => .error .exists_

def mkdir : List (Component ν) → Fs ν → Except Errno (List ν × Fs ν) :=
  operate refuses links false (create .dir)

def symlink (target : List (Component ν)) :
    List (Component ν) → Fs ν → Except Errno (List ν × Fs ν) :=
  operate refuses links false (create (.link target))

/-- Opens a file for writing, and makes it if it is missing. -/
def createFile : List (Component ν) → Fs ν → Except Errno (List ν × Fs ν) :=
  operate refuses links true fun
    | none => .ok (some .file)
    | some .file => .ok none
    | some .dir => .error .isDirectory
    | some (.link _) => .error .loop

def setPermissions : List (Component ν) → Fs ν → Except Errno (List ν × Fs ν) :=
  operate refuses links true fun
    | none => .error .notFound
    | some _ => .ok none

def isDir (path : List (Component ν)) (fs : Fs ν) : Bool :=
  match resolve fs true links [] path with
  | .ok real => entryAt fs real == some .dir
  | .error _ => false

/-- Makes a directory and those above it that are missing, for the components of its path from the
last one on; what it makes stays if it fails. -/
def createDirAll : List (Component ν) → Fs ν → List (List ν) × Fs ν × Except Errno Unit
  | [], fs => ([], fs, .ok ())
  | c :: parent, fs =>
    let path := (c :: parent).reverse
    match mkdir refuses links path fs with
    | .ok (real, fs) => ([real], fs, .ok ())
    | .error .notFound =>
      match createDirAll parent fs with
      | (made, fs, .error e) => (made, fs, .error e)
      | (made, fs, .ok _) =>
        match mkdir refuses links path fs with
        | .ok (real, fs) => (made ++ [real], fs, .ok ())
        | .error e => (made, fs, if isDir links path fs then .ok () else .error e)
    | .error e => ([], fs, if isDir links path fs then .ok () else .error e)

end Operations

/-! ### Confinement -/

section Confinement

variable {ν : Type*} {fs : Fs ν} {follow : Bool} {base cur path : List ν}
  {todo : List (Component ν)}

/-- Components that lead no higher than where they start. -/
def Downward (todo : List (Component ν)) : Prop := ∀ c ∈ todo, c = .here ∨ ∃ n, c = .name n

/-- Components that lead below where they start. -/
def Inward (todo : List (Component ν)) : Prop := Downward todo ∧ ∃ n, .name n ∈ todo

/-- A path strictly below a directory. -/
def Inside (base path : List ν) : Prop := base <+: path ∧ base ≠ path

/-- All links in a directory lead downwards. -/
def Confined (fs : Fs ν) (base : List ν) : Prop :=
  ∀ path target, Inside base path → fs path = some (.link target) → Inward target

theorem Downward.tail {c : Component ν} (h : Downward (c :: todo)) : Downward todo :=
  fun d hd => h d (List.mem_cons_of_mem c hd)

theorem Inward.append {target : List (Component ν)} (h : Inward target) (rest : Downward todo) :
    Inward (target ++ todo) := by
  obtain ⟨down, n, hn⟩ := h
  refine ⟨fun c hc => ?_, n, List.mem_append_left todo hn⟩
  rcases List.mem_append.mp hc with front | back
  · exact down c front
  · exact rest c back

theorem downward_names (names : List ν) :
    Downward (names.map (Component.name : ν → Component ν)) := by
  intro c hc
  obtain ⟨n, -, rfl⟩ := List.mem_map.mp hc
  exact .inr ⟨n, rfl⟩

theorem inward_names {names : List ν} (h : names ≠ []) :
    Inward (names.map (Component.name : ν → Component ν)) := by
  obtain ⟨n, hn⟩ := List.exists_mem_of_ne_nil names h
  exact ⟨downward_names names, n, List.mem_map_of_mem hn⟩

theorem Inside.of_name {n : ν} (h : base <+: cur) (below : cur ++ [n] <+: path) :
    Inside base path := by
  obtain ⟨front, rfl⟩ := h
  obtain ⟨rest, rfl⟩ := below
  refine ⟨⟨front ++ n :: rest, by simp⟩, fun same => ?_⟩
  have := congrArg List.length same
  simp at this

/-- Where a walk ends: below its start, and strictly so if it has a name on its way. -/
structure Below (cur : List ν) (todo : List (Component ν)) (path : List ν) : Prop where
  below : cur <+: path
  strict : (∃ n, .name n ∈ todo) → cur ≠ path

theorem below_of_name {n : ν} (rest : List (Component ν)) (h : cur ++ [n] <+: path) :
    Below cur (.name n :: rest) path := by
  have inside : Inside cur path := .of_name List.prefix_rfl h
  exact ⟨inside.1, fun _ => inside.2⟩

theorem walk_below {jump : List ν → List (Component ν) → Except Errno (List ν)}
    (confined : Confined fs base)
    (hjump : ∀ cur todo path, base <+: cur → Downward todo → jump cur todo = .ok path →
      Below cur todo path)
    (inside : base <+: cur) (down : Downward todo) (h : walk fs follow jump cur todo = .ok path) :
    Below cur todo path := by
  induction todo generalizing cur with
  | nil =>
    obtain rfl := Except.ok.inj h
    exact ⟨List.prefix_rfl, by simp⟩
  | cons c rest ih =>
    rcases down c List.mem_cons_self with rfl | ⟨n, rfl⟩
    · obtain ⟨below, strict⟩ := ih inside down.tail h
      exact ⟨below, fun ⟨n, hn⟩ => strict ⟨n, by simpa using hn⟩⟩
    · rw [walk] at h
      split at h
      · split_ifs at h
        obtain rfl := Except.ok.inj h
        exact below_of_name rest List.prefix_rfl
      · have inside' : base <+: cur ++ [n] := inside.trans (List.prefix_append cur [n])
        exact below_of_name rest (ih inside' down.tail h).below
      · split_ifs at h
        obtain rfl := Except.ok.inj h
        exact below_of_name rest List.prefix_rfl
      · next target link =>
        split_ifs at h
        · obtain rfl := Except.ok.inj h
          exact below_of_name rest List.prefix_rfl
        · have inside' : Inside base (cur ++ [n]) := .of_name inside List.prefix_rfl
          have inward : Inward (target ++ rest) := (confined _ _ inside' link).append down.tail
          obtain ⟨below, strict⟩ := hjump cur _ path inside inward.1 h
          exact ⟨below, fun _ => strict inward.2⟩

/-- A downward path from inside a confined directory ends inside it. -/
theorem resolve_below (confined : Confined fs base) {links : ℕ} (inside : base <+: cur)
    (down : Downward todo) (h : resolve fs follow links cur todo = .ok path) :
    Below cur todo path := by
  induction links generalizing cur todo path with
  | zero => exact walk_below confined (fun _ _ _ _ _ h => by simp at h) inside down h
  | succ links ih =>
    exact walk_below confined (fun _ _ _ inside down h => ih inside down h) inside down h

end Confinement

/-! ### Directories that were empty -/

section Filling

variable {ν : Type*} {fs₀ fs : Fs ν} {links : ℕ} {base cur : List ν} {todo : List (Component ν)}

structure EmptyDir (fs : Fs ν) (base : List ν) : Prop where
  isDir : entryAt fs base = some .dir
  empty : ∀ path, Inside base path → fs path = none

/-- What may have changed since a directory was empty; the links in it lead downwards. -/
structure Filled (fs₀ fs : Fs ν) (base : List ν) : Prop where
  outside : ∀ path, ¬Inside base path → fs path = fs₀ path
  confined : Confined fs base

/-- A path leads to a directory with some links to spare, and there is something at its end also if
that is a link that is not followed. -/
structure Reaches (fs : Fs ν) (links : ℕ) (cur : List ν) (todo : List (Component ν))
    (base : List ν) : Prop where
  through : ∃ left, ∀ follow rest, rest ≠ [] ∨ follow = true →
    resolve fs follow links cur (todo ++ rest) = resolve fs follow left base rest
  taken : ∃ real, resolve fs false links cur todo = .ok real ∧ entryAt fs real ≠ none

theorem entryAt_append_name (fs : Fs ν) (cur : List ν) (n : ν) :
    entryAt fs (cur ++ [n]) = fs (cur ++ [n]) :=
  if_neg (by simp)

theorem EmptyDir.filled (h : EmptyDir fs base) : Filled fs fs base :=
  ⟨fun _ _ => rfl, fun path _ inside link => by simp [h.empty path inside] at link⟩

/-- What there was before the directory was filled is still there. -/
theorem Filled.kept (filled : Filled fs₀ fs base) (h : EmptyDir fs₀ base) {path : List ν}
    {entry : Entry ν} (there : fs₀ path = some entry) : fs path = some entry := by
  rw [← there]
  apply filled.outside path
  intro inside
  simp [h.empty path inside] at there

theorem Filled.isDir (filled : Filled fs₀ fs base) (h : EmptyDir fs₀ base) :
    entryAt fs base = some .dir := by
  rw [← h.isDir]
  unfold entryAt
  rw [filled.outside base fun inside => inside.2 rfl]

theorem Reaches.step {c : Component ν} {cur' : List ν} (h : Reaches fs links cur' todo base)
    (next : ∀ follow rest, resolve fs follow links cur (c :: (todo ++ rest)) =
      resolve fs follow links cur' (todo ++ rest)) :
    Reaches fs links cur (c :: todo) base := by
  obtain ⟨⟨left, through⟩, real, found, there⟩ := h
  refine ⟨⟨left, fun follow rest hrest => ?_⟩, real, ?_, there⟩
  · rw [List.cons_append, next, through follow rest hrest]
  · have last := next false []
    rw [List.append_nil] at last
    rw [last, found]

theorem walk_reaches (filled : Filled fs₀ fs base) (h : EmptyDir fs₀ base)
    {jump₀ : List ν → List (Component ν) → Except Errno (List ν)}
    {jump : Bool → List ν → List (Component ν) → Except Errno (List ν)}
    (unfolds : ∀ follow, resolve fs follow links = walk fs follow (jump follow))
    (hjump : ∀ cur todo, jump₀ cur todo = .ok base →
      ∃ n, (∀ follow, jump follow = resolve fs follow n) ∧ Reaches fs n cur todo base)
    (leads : walk fs₀ true jump₀ cur todo = .ok base) : Reaches fs links cur todo base := by
  induction todo generalizing cur with
  | nil =>
    obtain rfl := Except.ok.inj leads
    refine ⟨⟨links, fun _ _ _ => rfl⟩, cur, ?_, ?_⟩
    · rw [unfolds]
      rfl
    · simp [filled.isDir h]
  | cons c rest ih =>
    cases c with
    | root => exact (ih leads).step fun follow more => by rw [unfolds]; rfl
    | here => exact (ih leads).step fun follow more => by rw [unfolds]; rfl
    | up => exact (ih leads).step fun follow more => by rw [unfolds]; rfl
    | name n =>
      have ends : (.ok (cur ++ [n]) : Except Errno (List ν)) = .ok base →
          fs₀ (cur ++ [n]) = some .dir := by
        intro same
        obtain rfl := Except.ok.inj same
        rw [← entryAt_append_name fs₀ cur n, h.isDir]
      rw [walk] at leads
      split at leads
      · next missing =>
        split_ifs at leads
        simp [ends leads] at missing
      · next dir =>
        have dir' : fs (cur ++ [n]) = some .dir := filled.kept h dir
        exact (ih leads).step fun follow more => by rw [unfolds, walk, dir']
      · next file =>
        split_ifs at leads
        simp [ends leads] at file
      · next target link =>
        have link' : fs (cur ++ [n]) = some (.link target) := filled.kept h link
        simp only [Bool.not_true, Bool.and_false, Bool.false_eq_true, if_false] at leads
        obtain ⟨links', jumps, ⟨left, through⟩, real, found, there⟩ := hjump cur _ leads
        refine ⟨⟨left, fun follow more hmore => ?_⟩, ?_⟩
        · have onward : ((rest ++ more).isEmpty && !follow) = false := by
            rcases hmore with some_ | rfl
            · simp [some_]
            · simp
          rw [unfolds, List.cons_append, walk, link']
          simp only [onward, Bool.false_eq_true, if_false]
          rw [jumps, ← List.append_assoc, through follow more hmore]
        · rw [unfolds, walk, link']
          cases rest with
          | nil => exact ⟨cur ++ [n], rfl, by simp [entryAt_append_name, link']⟩
          | cons d rest =>
            rw [← jumps] at found
            exact ⟨real, found, there⟩

/-- A path that leads to an empty directory reaches it also when it has been filled. -/
theorem resolve_reaches (filled : Filled fs₀ fs base) (h : EmptyDir fs₀ base)
    (leads : resolve fs₀ true links cur todo = .ok base) : Reaches fs links cur todo base := by
  induction links generalizing cur todo with
  | zero => exact walk_reaches filled h (fun _ => rfl) (fun _ _ no => by simp at no) leads
  | succ links ih =>
    exact walk_reaches filled h (fun _ => rfl)
      (fun _ _ leads => ⟨links, fun _ => rfl, ih leads⟩) leads

/-- A downward path behind one that leads to the directory ends in it, and strictly below it if the
path has a name. -/
theorem Filled.resolve (filled : Filled fs₀ fs base) (h : EmptyDir fs₀ base)
    {follow : Bool} {path todo : List (Component ν)} {real : List ν}
    (leads : resolve fs₀ true links [] path = .ok base) (down : Downward todo)
    (followed : todo ≠ [] ∨ follow = true)
    (found : resolve fs follow links [] (path ++ todo) = .ok real) : Below base todo real := by
  obtain ⟨left, through⟩ := (resolve_reaches filled h leads).through
  rw [through follow todo followed] at found
  exact resolve_below filled.confined List.prefix_rfl down found

end Filling

/-! ### Operations below such a directory -/

section Confinement

variable {ν : Type*} [DecidableEq ν] {refuses : Fs ν → List ν → Bool} {fs₀ fs fs' : Fs ν}
  {links : ℕ} {base real : List ν} {path todo : List (Component ν)}

theorem Filled.update (filled : Filled fs₀ fs base) (inside : Inside base real) {entry : Entry ν}
    (inward : ∀ target, entry = .link target → Inward target) :
    Filled fs₀ (Function.update fs real (some entry)) base := by
  refine ⟨fun p hp => ?_, fun p target hp link => ?_⟩
  · have other : p ≠ real := by
      rintro rfl
      exact hp inside
    rw [Function.update_of_ne other, filled.outside p hp]
  · by_cases same : p = real
    · subst same
      rw [Function.update_self, Option.some.injEq] at link
      exact inward target link
    · rw [Function.update_of_ne same] at link
      exact filled.confined p target hp link

/-- What an operation makes keeps the links of the directory downward. -/
def Safe (change : Option (Entry ν) → Except Errno (Option (Entry ν))) : Prop :=
  ∀ before target, change before = .ok (some (.link target)) → Inward target

theorem Filled.operate (filled : Filled fs₀ fs base) (h : EmptyDir fs₀ base)
    (leads : FileSystem.resolve fs₀ true links [] path = .ok base) (inward : Inward todo)
    {follow : Bool} {change : Option (Entry ν) → Except Errno (Option (Entry ν))}
    (safe : Safe change)
    (ok : operate refuses links follow change (path ++ todo) fs = .ok (real, fs')) :
    Inside base real ∧ Filled fs₀ fs' base := by
  obtain ⟨down, n, hn⟩ := inward
  unfold FileSystem.operate at ok
  split at ok
  · simp at ok
  · next found =>
    obtain ⟨below, strict⟩ := filled.resolve h leads down (.inl (List.ne_nil_of_mem hn)) found
    have inside := And.intro below (strict ⟨n, hn⟩)
    split_ifs at ok
    split at ok
    · simp at ok
    · obtain ⟨rfl, rfl⟩ := Prod.mk.inj (Except.ok.inj ok)
      exact ⟨inside, filled⟩
    · next entry made =>
      obtain ⟨rfl, rfl⟩ := Prod.mk.inj (Except.ok.inj ok)
      exact ⟨inside, filled.update inside fun target same => safe _ target (same ▸ made)⟩

omit [DecidableEq ν] in
theorem safe_create {entry : Entry ν} (inward : ∀ target, entry = .link target → Inward target) :
    Safe (create entry) := by
  intro before target made
  cases before with
  | none => exact inward target (Option.some.inj (Except.ok.inj made))
  | some _ => simp [create] at made

theorem Filled.mkdir (filled : Filled fs₀ fs base) (h : EmptyDir fs₀ base)
    (leads : FileSystem.resolve fs₀ true links [] path = .ok base) (inward : Inward todo)
    (ok : mkdir refuses links (path ++ todo) fs = .ok (real, fs')) :
    Inside base real ∧ Filled fs₀ fs' base :=
  filled.operate h leads inward (safe_create (by simp)) ok

theorem Filled.symlink (filled : Filled fs₀ fs base) (h : EmptyDir fs₀ base)
    (leads : FileSystem.resolve fs₀ true links [] path = .ok base) (inward : Inward todo)
    {target : List (Component ν)} (downward : Inward target)
    (ok : symlink refuses links target (path ++ todo) fs = .ok (real, fs')) :
    Inside base real ∧ Filled fs₀ fs' base :=
  filled.operate h leads inward (safe_create fun _ same => Entry.link.inj same ▸ downward) ok

theorem Filled.createFile (filled : Filled fs₀ fs base) (h : EmptyDir fs₀ base)
    (leads : FileSystem.resolve fs₀ true links [] path = .ok base) (inward : Inward todo)
    (ok : createFile refuses links (path ++ todo) fs = .ok (real, fs')) :
    Inside base real ∧ Filled fs₀ fs' base := by
  refine filled.operate h leads inward (fun before target made => ?_) ok
  rcases before with _ | _ | _ | _ <;> simp at made

theorem Filled.setPermissions (filled : Filled fs₀ fs base) (h : EmptyDir fs₀ base)
    (leads : FileSystem.resolve fs₀ true links [] path = .ok base) (inward : Inward todo)
    (ok : setPermissions refuses links (path ++ todo) fs = .ok (real, fs')) :
    Inside base real ∧ Filled fs₀ fs' base := by
  refine filled.operate h leads inward (fun before target made => ?_) ok
  cases before <;> simp at made

variable (refuses) in
/-- The directory is there already. -/
theorem Filled.mkdir_self (filled : Filled fs₀ fs base) (h : EmptyDir fs₀ base)
    (leads : FileSystem.resolve fs₀ true links [] path = .ok base) :
    ∃ e, FileSystem.mkdir refuses links path fs = .error e ∧ e ≠ .notFound := by
  obtain ⟨real, found, there⟩ := (resolve_reaches filled h leads).taken
  unfold FileSystem.mkdir FileSystem.operate
  rw [found]
  obtain ⟨entry, taken⟩ := Option.ne_none_iff_exists'.mp there
  simp only [taken, create]
  split_ifs
  · exact ⟨.refused, rfl, Errno.noConfusion⟩
  · exact ⟨.exists_, rfl, Errno.noConfusion⟩

variable (refuses) in
theorem Filled.createDirAll (filled : Filled fs₀ fs base) (h : EmptyDir fs₀ base)
    (leads : FileSystem.resolve fs₀ true links [] path = .ok base) (names : List ν) :
    let made := FileSystem.createDirAll refuses links (join path names).reverse fs
    (∀ real ∈ made.1, Inside base real) ∧ Filled fs₀ made.2.1 base := by
  induction names using List.reverseRecOn generalizing fs with
  | nil =>
    dsimp only
    rw [join, List.map_nil, List.append_nil]
    cases rev : path.reverse with
    | nil => exact ⟨by simp [FileSystem.createDirAll], filled⟩
    | cons c parent =>
      have path_eq : (c :: parent).reverse = path := by rw [← rev, List.reverse_reverse]
      obtain ⟨e, there, other⟩ := filled.mkdir_self refuses h leads
      simp only [FileSystem.createDirAll, path_eq, there]
      cases e with
      | notFound => exact absurd rfl other
      | _ => exact ⟨by simp, filled⟩
  | append_singleton names n ih =>
    have rev : (join path (names ++ [n])).reverse = .name n :: (join path names).reverse := by
      simp [join]
    have path_eq : (.name n :: (join path names).reverse).reverse = join path (names ++ [n]) := by
      rw [← rev, List.reverse_reverse]
    have inward : Inward ((names ++ [n]).map (Component.name : ν → Component ν)) :=
      inward_names (by simp)
    dsimp only at ih ⊢
    rw [rev, FileSystem.createDirAll, path_eq]
    split
    · next real fs' made =>
      obtain ⟨inside, filled'⟩ := filled.mkdir h leads inward made
      exact ⟨by simpa using inside, filled'⟩
    · obtain ⟨insides, filled'⟩ := ih filled
      split
      · next parents =>
        rw [parents] at insides filled'
        exact ⟨insides, filled'⟩
      · next made fs' _ parents =>
        rw [parents] at insides filled'
        split
        · next real fs'' last =>
          obtain ⟨inside, filled''⟩ := filled'.mkdir h leads inward last
          refine ⟨fun p hp => ?_, filled''⟩
          rcases List.mem_append.mp hp with front | back
          · exact insides p front
          · exact List.mem_singleton.mp back ▸ inside
        · exact ⟨insides, filled'⟩
    · exact ⟨by simp, filled⟩

end Confinement

end FileSystem
