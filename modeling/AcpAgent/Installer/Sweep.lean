import AcpAgent.Installer.Paths
import AcpAgent.Installer.Recovery

/-! What `clean_stale_staging_entries_in` of `installer/binary/recovery.rs` does to one key, for any
outcome of each of its calls: which backup it restores, and what it leaves. -/

namespace AcpAgent.Installer

/-- How the calls of the sweep end: whether it gets the lock, whether `try_exists` has an answer,
whether a rename succeeds, and what a recursive delete leaves if it fails. -/
structure SweepCalls where
  lock : Bool
  probe : Bool
  rename : Str → Bool
  remove : Str → Except Node Unit

structure SweepResult where
  restored : Option Str
  removed : ℕ
  disk : Disk

namespace SweepCalls

variable (calls : SweepCalls)

/-- The first of these backups whose rename succeeds. -/
def restoreFirst : List Str → Disk → Option Str × Disk
  | [], d => (none, d)
  | backup :: backups, d =>
    match d.work backup with
    | some node =>
      if calls.rename backup then (some backup, (d.setFinal (some node)).setWork backup none)
      else restoreFirst backups d
    | none => restoreFirst backups d

def removeDirAll (entry : Str) (d : Disk) : ℕ × Disk :=
  match d.work entry, calls.remove entry with
  | none, _ => (0, d)
  | some _, .ok () => (1, d.setWork entry none)
  | some _, .error left => (0, d.setWork entry (some left))

def removeEntries (restored : Option Str) : List Str → Disk → ℕ × Disk
  | [], d => (0, d)
  | entry :: entries, d =>
    if restored = some entry then removeEntries restored entries d
    else
      let (removed, d) := calls.removeDirAll entry d
      let (more, d) := removeEntries restored entries d
      (removed + more, d)

/-- One iteration of the loop over the keys. -/
def sweepKey (live : Bytes → Bool) (entries : List Str) (d : Disk) : SweepResult :=
  if ¬calls.lock ∨ ¬calls.probe then ⟨none, 0, d⟩
  else
    let (restored, d) :=
      if d.finalExists live then (none, d) else calls.restoreFirst (sweepBackups entries) d
    let (removed, d) := calls.removeEntries restored entries d
    ⟨restored, removed, d⟩

/-- All calls succeed. -/
def Succeed : Prop :=
  calls.lock = true ∧ calls.probe = true ∧ (∀ name, calls.rename name = true) ∧
    ∀ name, calls.remove name = .ok ()

end SweepCalls

/-! ### What is restored and what is left -/

section Loops

variable {calls : SweepCalls} {restored : Option Str} {name : Str} {entries backups : List Str}
  {d : Disk}

theorem removeDirAll_final (entry : Str) (d : Disk) :
    (calls.removeDirAll entry d).2.final = d.final := by
  unfold SweepCalls.removeDirAll
  split <;> rfl

theorem removeDirAll_ne {entry : Str} (other : name ≠ entry) (d : Disk) :
    (calls.removeDirAll entry d).2.work name = d.work name := by
  unfold SweepCalls.removeDirAll
  split <;> simp [other]

theorem removeDirAll_self (entry : Str) (d : Disk) :
    (calls.removeDirAll entry d).2.work entry = none ↔
      d.work entry = none ∨ calls.remove entry = .ok () := by
  unfold SweepCalls.removeDirAll
  split <;> simp_all

theorem removeEntries_final (restored : Option Str) (entries : List Str) (d : Disk) :
    (calls.removeEntries restored entries d).2.final = d.final := by
  induction entries generalizing d with
  | nil => rfl
  | cons entry entries ih =>
    rw [SweepCalls.removeEntries]
    split_ifs
    · exact ih d
    · exact (ih _).trans (removeDirAll_final entry d)

theorem removeEntries_notMem (away : name ∉ entries) (d : Disk) :
    (calls.removeEntries restored entries d).2.work name = d.work name := by
  induction entries generalizing d with
  | nil => rfl
  | cons entry entries ih =>
    simp only [List.mem_cons, not_or] at away
    rw [SweepCalls.removeEntries]
    split_ifs
    · exact ih away.2 d
    · exact (ih away.2 _).trans (removeDirAll_ne away.1 d)

theorem removeEntries_restored (name : Str) (entries : List Str) (d : Disk) :
    (calls.removeEntries (some name) entries d).2.work name = d.work name := by
  induction entries generalizing d with
  | nil => rfl
  | cons entry entries ih =>
    rw [SweepCalls.removeEntries]
    split_ifs with same
    · exact ih d
    · refine (ih _).trans (removeDirAll_ne ?_ d)
      rintro rfl
      exact same rfl

/-- Of the entries that are to be removed, those are left whose removal fails. -/
theorem removeEntries_work (other : restored ≠ some name) (listed : name ∈ entries) (d : Disk) :
    (calls.removeEntries restored entries d).2.work name = none ↔
      d.work name = none ∨ calls.remove name = .ok () := by
  induction entries generalizing d with
  | nil => simp at listed
  | cons entry entries ih =>
    rw [SweepCalls.removeEntries]
    by_cases same : name = entry
    · subst same
      rw [if_neg other]
      by_cases again : name ∈ entries
      · rw [ih again, removeDirAll_self, or_assoc, or_self]
      · rw [removeEntries_notMem again, removeDirAll_self]
    · have later : name ∈ entries := (List.mem_cons.mp listed).resolve_left same
      split_ifs
      · exact ih later d
      · rw [ih later, removeDirAll_ne same]

/-- Either the first backup that can be renamed is restored, or nothing has changed. -/
theorem restoreFirst_cases (calls : SweepCalls) (backups : List Str) (d : Disk) :
    (∃ backup node, backup ∈ backups ∧ d.work backup = some node ∧ calls.rename backup = true ∧
      calls.restoreFirst backups d =
        (some backup, (d.setFinal (some node)).setWork backup none)) ∨
    (∀ backup ∈ backups, d.work backup = none ∨ calls.rename backup = false) ∧
      calls.restoreFirst backups d = (none, d) := by
  induction backups with
  | nil => exact .inr ⟨by simp, rfl⟩
  | cons backup backups ih =>
    have later : (d.work backup = none ∨ calls.rename backup = false) →
        calls.restoreFirst (backup :: backups) d = calls.restoreFirst backups d := by
      intro fails
      rw [SweepCalls.restoreFirst]
      split
      · next node at_ =>
        have refused : calls.rename backup = false := fails.resolve_left (by simp [at_])
        simp [refused]
      · rfl
    by_cases fails : d.work backup = none ∨ calls.rename backup = false
    · rw [later fails]
      rcases ih with ⟨found, node, member, at_, renamed, result⟩ | ⟨none_, result⟩
      · exact .inl ⟨found, node, List.mem_cons_of_mem _ member, at_, renamed, result⟩
      · exact .inr ⟨List.forall_mem_cons.mpr ⟨fails, none_⟩, result⟩
    · push Not at fails
      obtain ⟨node, at_⟩ := Option.ne_none_iff_exists'.mp fails.1
      have renamed : calls.rename backup = true := by simpa using fails.2
      refine .inl ⟨backup, node, List.mem_cons_self, at_, renamed, ?_⟩
      simp [SweepCalls.restoreFirst, at_, renamed]

theorem mem_sweepBackups :
    name ∈ sweepBackups entries ↔ name ∈ entries ∧ Str.contains name backupMarker = true := by
  simp [sweepBackups]

theorem removeEntries_succeed (ok : calls.Succeed) (restored : Option Str) (entries : List Str)
    (d : Disk) : (calls.removeEntries restored entries d).2 = removeWork restored entries d := by
  induction entries generalizing d with
  | nil => rfl
  | cons entry entries ih =>
    have removed : (calls.removeDirAll entry d).2 = d.setWork entry none := by
      have fine := ok.2.2.2 entry
      cases at_ : d.work entry with
      | none => simp [SweepCalls.removeDirAll, at_, Disk.setWork_eq_self at_]
      | some node => simp [SweepCalls.removeDirAll, at_, fine]
    rw [SweepCalls.removeEntries, removeWork]
    split_ifs
    · exact ih d
    · simp only [removed]
      exact ih _

theorem restoreFirst_succeed (ok : calls.Succeed) (entries backups : List Str) (d : Disk) :
    (calls.removeEntries (calls.restoreFirst backups d).1 entries
      (calls.restoreFirst backups d).2).2 = restoreBackup entries backups d := by
  induction backups with
  | nil => exact removeEntries_succeed ok none entries d
  | cons backup backups ih =>
    rw [SweepCalls.restoreFirst, restoreBackup]
    cases d.work backup with
    | none => exact ih
    | some node =>
      simp only [ok.2.2.1 backup, if_true]
      exact removeEntries_succeed ok _ entries _

/-- If all calls succeed and no dangling link is in the place of the entry, the loop body does what
the sweep does to the key. -/
theorem sweepKey_succeed {live : Bytes → Bool} (ok : calls.Succeed)
    (seen : d.finalExists live = d.final.isSome) (entries : List Str) :
    (calls.sweepKey live entries d).disk = cleanStaleStagingEntries entries d := by
  obtain ⟨lock, probe, -⟩ := id ok
  rw [cleanStaleStagingEntries, ← seen, SweepCalls.sweepKey, if_neg (by simp [lock, probe])]
  split_ifs with there
  · exact removeEntries_succeed ok none entries d
  · exact restoreFirst_succeed ok entries (sweepBackups entries) d

end Loops

/-! ### The last copy -/

/-- The name of a backup of this entry. -/
def IsBackup (sha256 : Bytes → Digest) (key name : Str) : Prop :=
  ∃ pid nanos, name = backupName sha256 key pid nanos

/-- The entry, or a backup of it, is on disk. -/
def HasCopy (sha256 : Bytes → Digest) (live : Bytes → Bool) (key : Str) (entries : List Str)
    (d : Disk) : Prop :=
  d.finalExists live = true ∨ ∃ name ∈ entries, IsBackup sha256 key name ∧ d.work name ≠ none

section LastCopy

variable {sha256 : Bytes → Digest} {live : Bytes → Bool} {key : Str} {entries : List Str} {d : Disk}
  {calls : SweepCalls}

theorem sweepKey_skipped (live : Bytes → Bool) (entries : List Str) (d : Disk)
    (skip : calls.lock = false ∨ calls.probe = false) :
    (calls.sweepKey live entries d).disk = d := by
  rw [SweepCalls.sweepKey, if_pos (by simpa using skip)]

theorem sweepKey_missing (missing : d.finalExists live = false) (lock : calls.lock = true)
    (probe : calls.probe = true) :
    (calls.sweepKey live entries d).restored =
        (calls.restoreFirst (sweepBackups entries) d).1 ∧
      (calls.sweepKey live entries d).disk =
        (calls.removeEntries (calls.restoreFirst (sweepBackups entries) d).1 entries
          (calls.restoreFirst (sweepBackups entries) d).2).2 := by
  simp [SweepCalls.sweepKey, missing, lock, probe]

/-- While the entry is missing, the sweep keeps a copy exactly if it leaves the key alone, restores
a backup, or fails to remove one. -/
theorem keeps_copy_iff (missing : d.finalExists live = false)
    (copy : ∃ name ∈ entries, IsBackup sha256 key name ∧ d.work name ≠ none)
    (dirs : ∀ name ∈ entries, ∀ node, d.work name = some node → node.isDir = true) :
    HasCopy sha256 live key entries (calls.sweepKey live entries d).disk ↔
      calls.lock = false ∨ calls.probe = false ∨
      (∃ name ∈ entries, Str.contains name backupMarker = true ∧ d.work name ≠ none ∧
        calls.rename name = true) ∨
      ∃ name ∈ entries, IsBackup sha256 key name ∧ d.work name ≠ none ∧
        calls.remove name ≠ .ok () := by
  by_cases lock : calls.lock = true
  · by_cases probe : calls.probe = true
    · rw [(sweepKey_missing missing lock probe).2]
      simp only [lock, probe, Bool.true_eq_false, false_or]
      rcases restoreFirst_cases calls (sweepBackups entries) d with
        ⟨backup, node, member, at_, renamed, result⟩ | ⟨refused, result⟩
      · obtain ⟨listed, marked⟩ := mem_sweepBackups.mp member
        rw [result]
        refine iff_of_true (.inl ?_) (.inl ⟨backup, listed, marked, by simp [at_], renamed⟩)
        refine Disk.finalExists_dir ?_ (dirs backup listed node at_)
        rw [removeEntries_final]
        rfl
      · rw [result]
        have gone : (calls.removeEntries none entries d).2.finalExists live = false :=
          (Disk.finalExists_congr (removeEntries_final none entries d)).trans missing
        have none_ : ¬∃ name ∈ entries, Str.contains name backupMarker = true ∧
            d.work name ≠ none ∧ calls.rename name = true := by
          rintro ⟨name, listed, marked, there, renamed⟩
          rcases refused name (mem_sweepBackups.mpr ⟨listed, marked⟩) with absent | fails
          · exact there absent
          · simp [renamed] at fails
        simp only [HasCopy, gone, Bool.false_eq_true, none_, false_or]
        have left : ∀ name ∈ entries, (calls.removeEntries none entries d).2.work name ≠ none ↔
            d.work name ≠ none ∧ calls.remove name ≠ .ok () := by
          intro name listed
          rw [ne_eq, removeEntries_work (by simp) listed, not_or]
        constructor
        · rintro ⟨name, listed, backup, there⟩
          exact ⟨name, listed, backup, (left name listed).mp there⟩
        · rintro ⟨name, listed, backup, there⟩
          exact ⟨name, listed, backup, (left name listed).mpr there⟩
    · have fails : calls.probe = false := by simpa using probe
      rw [sweepKey_skipped live entries d (.inr fails)]
      exact iff_of_true (.inr copy) (.inr (.inl fails))
  · have busy : calls.lock = false := by simpa using lock
    rw [sweepKey_skipped live entries d (.inl busy)]
    exact iff_of_true (.inr copy) (.inl busy)

end LastCopy

namespace Sample

def backup : Str := backupName sha256 key 7 1000

/-- A refresh was killed while the entry was in its backup. -/
def unpublished : Disk := ⟨none, Function.update (fun _ => none) backup (some entry)⟩

/-- A link that leads nowhere has taken the place of the entry. -/
def dangling : Disk := unpublished.setFinal (some (.link (str "gone").bytes))

def succeed : SweepCalls := ⟨true, true, fun _ => true, fun _ => .ok ()⟩

/-- A directory cannot be renamed to the name of a link. -/
def refused : SweepCalls := ⟨true, true, fun _ => false, fun _ => .ok ()⟩

theorem isBackup_backup : IsBackup sha256 key backup := ⟨7, 1000, rfl⟩

theorem unpublished_backup : unpublished.work backup = some entry := by simp [unpublished]

theorem isDir_unpublished : ∀ name ∈ [backup], ∀ node, unpublished.work name = some node →
    node.isDir = true := by
  rintro name listed node at_
  rw [List.mem_singleton.mp listed, unpublished_backup] at at_
  obtain rfl := Option.some.inj at_
  rfl

end Sample

open Sample in
theorem keeps_copy_iff_unpublished :
    HasCopy sha256 (fun _ => false) key [backup]
        (succeed.sweepKey (fun _ => false) [backup] unpublished).disk ↔
      succeed.lock = false ∨ succeed.probe = false ∨
      (∃ name ∈ [backup], Str.contains name backupMarker = true ∧ unpublished.work name ≠ none ∧
        succeed.rename name = true) ∨
      ∃ name ∈ [backup], IsBackup sha256 key name ∧ unpublished.work name ≠ none ∧
        succeed.remove name ≠ .ok () :=
  keeps_copy_iff rfl ⟨backup, by simp, isBackup_backup, by simp [unpublished_backup]⟩
    isDir_unpublished

open Sample in
/-- The only backup is removed after the rename has failed. -/
theorem dangling_link_loses_copy :
    ¬∀ (live : Bytes → Bool) (entries : List Str) (d : Disk) (calls : SweepCalls),
      d.finalExists live = false →
      (∃ name ∈ entries, IsBackup sha256 key name ∧ d.work name ≠ none) →
      (∀ name ∈ entries, ∀ node, d.work name = some node → node.isDir = true) →
      HasCopy sha256 live key entries (calls.sweepKey live entries d).disk := by
  intro keeps
  have there : ∃ name ∈ [backup], IsBackup sha256 key name ∧ dangling.work name ≠ none :=
    ⟨backup, by simp, isBackup_backup, by simp [dangling, unpublished_backup]⟩
  have missing : dangling.finalExists (fun _ => false) = false := rfl
  have at_ : dangling.work backup = some entry := unpublished_backup
  have lists : sweepBackups [backup] = [backup] := by
    simp [sweepBackups, show Str.contains backup backupMarker = true from contains_backupName 7 1000]
  have result : (refused.sweepKey (fun _ => false) [backup] dangling).disk =
      dangling.setWork backup none := by
    rw [(sweepKey_missing missing rfl rfl).2, lists]
    simp [SweepCalls.restoreFirst, at_, SweepCalls.removeEntries, SweepCalls.removeDirAll, refused]
  rcases keeps (fun _ => false) [backup] dangling refused missing there isDir_unpublished with
    final | ⟨name, listed, -, left⟩
  · rw [result] at final
    exact absurd final (by decide)
  · rw [result, List.mem_singleton.mp listed] at left
    simp at left

/-! ### The last backup -/

/-- The process and the time that made a backup. -/
structure Backup where
  pid : ℕ
  nanos : ℕ

namespace Backup

def name (sha256 : Bytes → Digest) (key : Str) (b : Backup) : Str :=
  backupName sha256 key b.pid b.nanos

/-- In a dictionary, the numbers of the first backup come behind those of the second. -/
def Behind (a b : Backup) : Prop :=
  Nat.toDigits 10 b.pid < Nat.toDigits 10 a.pid ∨
    a.pid = b.pid ∧ Nat.toDigits 10 b.nanos < Nat.toDigits 10 a.nanos

instance (a b : Backup) : Decidable (a.Behind b) := inferInstanceAs (Decidable (_ ∨ _))

def Latest (b : Backup) (backups : List Backup) : Prop := ∀ other ∈ backups, other.nanos ≤ b.nanos

theorem dash_lt {c : Char} (h : c.isDigit = true) : '-' < c := by
  have bounds : '0' ≤ c := by
    simp only [Char.isDigit, Bool.and_eq_true, decide_eq_true_eq] at h
    exact h.1
  exact lt_of_lt_of_le (by decide) bounds

theorem append_dash_lt {p q r s : Str} (hp : ∀ c ∈ p, c.isDigit = true)
    (hq : ∀ c ∈ q, c.isDigit = true) :
    p ++ '-' :: r < q ++ '-' :: s ↔ p < q ∨ p = q ∧ r < s := by
  induction p generalizing q with
  | nil =>
    cases q with
    | nil => simp
    | cons d q =>
      have first := dash_lt (hq d (by simp))
      simp [List.cons_lt_cons_iff, first]
  | cons c p ih =>
    have first := dash_lt (hp c (by simp))
    cases q with
    | nil => simp [List.cons_lt_cons_iff, first.not_gt, first.ne']
    | cons d q =>
      have rest := ih (fun c hc => hp c (by simp [hc])) (q := q) (fun c hc => hq c (by simp [hc]))
      simp only [List.cons_append, List.cons_lt_cons_iff, rest, List.cons.injEq]
      tauto

theorem append_left_lt_iff (p r s : Str) : p ++ r < p ++ s ↔ r < s := by
  induction p with
  | nil => rfl
  | cons c p ih => simpa [List.cons_lt_cons_iff] using ih

theorem name_lt_iff {sha256 : Bytes → Digest} {key : Str} (h : Plain key) (a b : Backup) :
    a.name sha256 key < b.name sha256 key ↔ b.Behind a := by
  rw [name, name, backupName_of_plain h, backupName_of_plain h, append_left_lt_iff,
    append_left_lt_iff, append_dash_lt (Str.isDigit_toDigits a.pid) (Str.isDigit_toDigits b.pid),
    Str.toDigits_inj, Behind]
  simp only [eq_comm (a := a.pid)]

end Backup

/-- The backup that was made last is at the final directory, and no work directory is left. -/
def RestoresLatest (sha256 : Bytes → Digest) (key : Str) (backups : List Backup)
    (entries : List Str) (d : Disk) (result : SweepResult) : Prop :=
  ∃ b ∈ backups, b.Latest backups ∧ result.restored = some (b.name sha256 key) ∧
    result.disk.final = d.work (b.name sha256 key) ∧
    ∀ name ∈ entries, result.disk.work name = none

section Latest

variable {sha256 : Bytes → Digest} {live : Bytes → Bool} {key : Str} {entries : List Str} {d : Disk}
  {calls : SweepCalls}

/-- If all calls succeed, the sweep restores the last backup by name. -/
theorem sweepKey_head {head : Str} {rest : List Str} (first : sweepBackups entries = head :: rest)
    (missing : d.finalExists live = false) (there : ∀ name ∈ entries, d.work name ≠ none)
    (ok : calls.Succeed) :
    (calls.sweepKey live entries d).restored = some head ∧
      (calls.sweepKey live entries d).disk.final = d.work head ∧
      ∀ name ∈ entries, (calls.sweepKey live entries d).disk.work name = none := by
  obtain ⟨lock, probe, rename, remove⟩ := ok
  have listed : head ∈ entries := (sweepBackups_head first).1
  obtain ⟨node, at_⟩ := Option.ne_none_iff_exists'.mp (there head listed)
  have restore : calls.restoreFirst (sweepBackups entries) d =
      (some head, (d.setFinal (some node)).setWork head none) := by
    simp [first, SweepCalls.restoreFirst, at_, rename]
  obtain ⟨restored, disk⟩ := sweepKey_missing missing lock probe
  rw [restored, disk, restore]
  refine ⟨rfl, ?_, fun name member => ?_⟩
  · rw [removeEntries_final, at_]
    rfl
  · by_cases same : name = head
    · rw [same, removeEntries_restored]
      simp
    · rw [removeEntries_work (fun eq => same (Option.some.inj eq).symm) member]
      exact .inr (remove name)

/-- The sweep restores the backup that was made last exactly if that backup's numbers come last in a
dictionary, and no staging directory is taken for a backup. -/
theorem restores_latest_iff {version digest : Str} {digest' : Digest}
    (parses : parseSha256 digest = .ok digest') {backups : List Backup}
    {stagings : List { s : Str // s.all Char.isAlphanum = true }} (nonempty : backups ≠ [])
    (listed : ∀ name, name ∈ entries ↔
      (∃ b ∈ backups, name = b.name sha256 (cacheKey sha256 version digest)) ∨
        ∃ random ∈ stagings, name = stagingName (cacheKey sha256 version digest) random)
    (missing : d.finalExists live = false) (there : ∀ name ∈ entries, d.work name ≠ none)
    (ok : calls.Succeed) :
    RestoresLatest sha256 (cacheKey sha256 version digest) backups entries d
        (calls.sweepKey live entries d) ↔
      (stagings = [] ∨ ¬backupMarker <:+: cacheKey sha256 version digest) ∧
        ∃ b ∈ backups, b.Latest backups ∧ ∀ other ∈ backups, ¬other.Behind b := by
  obtain ⟨hkey, front, c, hlast, hc⟩ : Key (cacheKey sha256 version digest) :=
    key_cacheKey version parses
  generalize cacheKey sha256 version digest = key at *
  have marked : ∀ random : { s : Str // s.all Char.isAlphanum = true },
      Str.contains (stagingName key random) backupMarker = true ↔ backupMarker <:+: key :=
    fun random => contains_stagingName hlast hc (notMem_alphanum random.2)
  have backup : ∀ b ∈ backups, b.name sha256 key ∈ entries ∧
      Str.contains (b.name sha256 key) backupMarker = true :=
    fun b hb => ⟨(listed _).mpr (.inl ⟨b, hb, rfl⟩), contains_backupName b.pid b.nanos⟩
  obtain ⟨some_, hsome⟩ := List.exists_mem_of_ne_nil backups nonempty
  have full : sweepBackups entries ≠ [] :=
    List.ne_nil_of_mem (mem_sweepBackups.mpr (backup some_ hsome))
  obtain ⟨head, rest, first⟩ := List.exists_cons_of_ne_nil full
  obtain ⟨hlisted, hmarked, last⟩ := sweepBackups_head first
  obtain ⟨restored, final, gone⟩ := sweepKey_head first missing there ok
  constructor
  · rintro ⟨b, hb, latest, named, -, -⟩
    rw [restored] at named
    obtain rfl := Option.some.inj named
    refine ⟨?_, b, hb, latest, fun other ho behind => ?_⟩
    · by_contra both
      push Not at both
      obtain ⟨random, hr⟩ := List.exists_mem_of_ne_nil stagings both.1
      have below := last _ ((listed _).mpr (.inr ⟨random, hr, rfl⟩)) ((marked random).mpr both.2)
      exact not_le_of_gt (backupName_lt_stagingName sha256 hkey b.pid b.nanos random) below
    · have above : b.name sha256 key < other.name sha256 key :=
        (Backup.name_lt_iff hkey b other).mpr behind
      exact not_le_of_gt above (last _ (backup other ho).1 (backup other ho).2)
  · rintro ⟨plain, b, hb, latest, front_⟩
    have same : head = b.name sha256 key := by
      rcases (listed head).mp hlisted with ⟨other, ho, rfl⟩ | ⟨random, hr, rfl⟩
      · refine le_antisymm (not_lt.mp fun above => ?_) (last _ (backup b hb).1 (backup b hb).2)
        exact front_ other ho ((Backup.name_lt_iff hkey b other).mp above)
      · rcases plain with empty | unmarked
        · simp [empty] at hr
        · exact absurd ((marked random).mp hmarked) unmarked
    subst same
    exact ⟨b, hb, latest, restored, final, gone⟩

end Latest

namespace Sample

/-- The last in a dictionary of the three. -/
def older : Backup := ⟨9, 1000⟩

def earliest : Backup := ⟨10, 500⟩

/-- A process with a longer number has made this backup later. -/
def newer : Backup := ⟨10, 2000⟩

/-- These backups are on disk, and the entry is missing. -/
def abandoned (backups : List Backup) : Disk where
  final := none
  work name := if ∃ b ∈ backups, name = b.name sha256 key then some entry else none

theorem plain_key_sample : Plain key := by
  rw [← key_job]
  exact plain_key crates job

theorem succeed_succeed : succeed.Succeed := ⟨rfl, rfl, fun _ => rfl, fun _ => rfl⟩

end Sample

open Sample in
theorem restores_latest_iff_older :
    RestoresLatest sha256 (cacheKey sha256 (str "1.0.0") digest) [earliest, older]
      ([earliest, older].map (Backup.name sha256 (cacheKey sha256 (str "1.0.0") digest)))
      (abandoned [earliest, older])
      (succeed.sweepKey (fun _ => false)
        ([earliest, older].map (Backup.name sha256 (cacheKey sha256 (str "1.0.0") digest)))
        (abandoned [earliest, older])) := by
  have same : cacheKey sha256 (str "1.0.0") digest = key := key_job
  have listed : ∀ name, name ∈ [earliest, older].map (Backup.name sha256 key) ↔
      (∃ b ∈ [earliest, older], name = b.name sha256 key) ∨
        ∃ random ∈ ([] : List { s : Str // s.all Char.isAlphanum = true }),
          name = stagingName key random := by
    intro name
    rw [List.mem_map]
    simp only [List.not_mem_nil, false_and, exists_false, or_false, eq_comm]
  rw [← same] at listed
  refine (restores_latest_iff parse_digest (by simp) listed rfl ?_ succeed_succeed).mpr
    ⟨.inl rfl, older, by simp, ?_, ?_⟩
  · rw [same]
    intro name listed
    obtain ⟨b, there, rfl⟩ := List.mem_map.mp listed
    simp only [abandoned]
    rw [if_pos ⟨b, there, rfl⟩]
    exact Option.some_ne_none entry
  · intro other there
    rcases List.mem_pair.mp there with rfl | rfl <;> decide
  · intro other there
    rcases List.mem_pair.mp there with rfl | rfl <;> decide

open Sample in
/-- The sweep restores the older of two backups and removes the newer one. -/
theorem longer_pid_loses :
    ¬∀ (backups : List Backup) (entries : List Str) (d : Disk), backups ≠ [] →
      (∀ name, name ∈ entries ↔ ∃ b ∈ backups, name = b.name sha256 key) →
      d.final = none → (∀ name ∈ entries, d.work name ≠ none) →
      RestoresLatest sha256 key backups entries d
        (succeed.sweepKey (fun _ => false) entries d) := by
  intro restores
  let entries := [older.name sha256 key, newer.name sha256 key]
  have there : ∀ name ∈ entries, (abandoned [older, newer]).work name ≠ none := by
    intro name listed
    have : name = older.name sha256 key ∨ name = newer.name sha256 key := by
      simpa [entries] using listed
    simp [abandoned, this]
  obtain ⟨b, hb, latest, restored, -, -⟩ := restores [older, newer] entries
    (abandoned [older, newer]) (by simp) (by simp [entries]) rfl there
  have last : b = newer := by
    rcases List.mem_pair.mp hb with rfl | rfl
    · exact absurd (latest newer (by simp)) (by decide)
    · rfl
  have marked : older.name sha256 key ∈ sweepBackups entries :=
    mem_sweepBackups.mpr ⟨by simp [entries], contains_backupName 9 1000⟩
  obtain ⟨head, rest, first⟩ := List.exists_cons_of_ne_nil (List.ne_nil_of_mem marked)
  have missing : (abandoned [older, newer]).finalExists (fun _ => false) = false := rfl
  have chosen := (sweepKey_head first missing there succeed_succeed).1
  have same : newer.name sha256 key = head := by
    rw [restored, last] at chosen
    exact Option.some.inj chosen
  have above : newer.name sha256 key < older.name sha256 key :=
    (Backup.name_lt_iff plain_key_sample newer older).mpr (.inl (by decide))
  have below := (sweepBackups_head first).2.2 _ (mem_sweepBackups.mp marked).1
    (mem_sweepBackups.mp marked).2
  rw [← same] at below
  exact not_le_of_gt above below

end AcpAgent.Installer
