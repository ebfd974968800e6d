import AcpAgent.Installer.Digest
import Mathlib.Data.List.DropRight

/-! Names in the binary cache: `safe_path_component` and the cache keys of `installer/cache.rs`, and
the names of staging and backup directories, which the startup sweep reads back
(`installer/binary/recovery.rs`). -/

namespace AcpAgent.Installer

/-- The characters that `safe_path_component` keeps. -/
def isSafe (c : Char) : Bool := c.isAlphanum || c = '.' || c = '-' || c = '_'

/-- `trim_matches('.')`. -/
def trimDots (s : Str) : Str := (s.dropWhile (· = '.')).rdropWhile (· = '.')

def sanitize (value : Str) : Str := value.map fun c => if isSafe c then c else '_'

/-- The sanitized value without dots at its ends, or `_`. -/
def trimmed (value : Str) : Str :=
  if trimDots (sanitize value) = [] then str "_" else trimDots (sanitize value)

/-- The parts of work directory names that tell their kind. -/
def stagingMarker : Str := str "-staging-"

def backupMarker : Str := str "-backup-"

section Paths

variable (sha256 : Bytes → Digest)

/-- `stable_path_digest`. -/
def stablePathDigest (value : Str) : Str := hexEncode ((sha256 value.bytes).1.take 6)

def safePathComponent (value : Str) : Str :=
  -- The conversion loses something if the value is empty, or has a character that is replaced.
  if value = [] ∨ (¬value.all isSafe) ∨ trimmed value ≠ value then
    trimmed value ++ '-' :: stablePathDigest sha256 value
  else trimmed value

/-- The name of the cache directory of a version and a digest, `binary_cache_paths_with_digest`. -/
def cacheKey (version digest : Str) : Str :=
  safePathComponent sha256 (version ++ str "-sha256-" ++ digest.lower)

/-- `unique_backup_dir_name`. -/
def backupName (key : Str) (pid nanos : ℕ) : Str :=
  '.' :: safePathComponent sha256 key ++ backupMarker ++ Nat.toDigits 10 pid ++
    '-' :: Nat.toDigits 10 nanos

end Paths

/-- The name of a staging directory, with the random characters that `tempfile` adds. -/
def stagingName (key random : Str) : Str := '.' :: key ++ stagingMarker ++ random

/-- `work_dir_cache_key`: the key is what stands before the last marker. -/
def workDirCacheKey (name : Str) : Option Str :=
  match name.stripPrefix (str ".") with
  | none => none
  | some name =>
    let key := match Str.rfind stagingMarker name, Str.rfind backupMarker name with
      | some s, some b => if s.length ≤ b.length then some b else some s
      | some s, none => some s
      | none, b => b
    key.filter (· ≠ [])

/-! ### Components -/

/-- A path component that `safe_path_component` leaves as it is. -/
structure Plain (s : Str) : Prop where
  nonempty : s ≠ []
  safe : s.all isSafe = true
  head : s.head? ≠ some '.'
  last : s.getLast? ≠ some '.'

theorem trimDots_prefixOf (s : Str) : trimDots s <+: s.dropWhile (· = '.') :=
  List.rdropWhile_prefix _ _

theorem trimDots_subset (s : Str) : trimDots s ⊆ s := fun _ h =>
  (List.dropWhile_sublist _).subset ((trimDots_prefixOf s).subset h)

theorem head_trimDots (s : Str) : (trimDots s).head? ≠ some '.' := by
  intro h
  have front : (s.dropWhile (· = '.')).head? = some '.' := by
    obtain ⟨t, ht⟩ := trimDots_prefixOf s
    rw [← ht, List.head?_append, h]
    rfl
  have := List.head?_dropWhile_not (fun c => decide (c = '.')) s
  simp [front] at this

theorem last_trimDots (s : Str) : (trimDots s).getLast? ≠ some '.' := by
  intro h
  have hne : trimDots s ≠ [] := by
    rintro he
    simp [he] at h
  have := List.rdropWhile_last_not (fun c => decide (c = '.')) (s.dropWhile (· = '.')) hne
  rw [List.getLast?_eq_some_getLast hne, Option.some.injEq] at h
  exact this (decide_eq_true h)

theorem trimDots_of_plain {s : Str} (h : Plain s) : trimDots s = s := by
  have front : s.dropWhile (· = '.') = s := by
    cases hs : s with
    | nil => rfl
    | cons c t =>
      have hc : c ≠ '.' := fun hc => h.head (by simp [hs, hc])
      simp [hc]
  rw [trimDots, front, List.rdropWhile_eq_self_iff]
  intro hne
  have := h.last
  rw [List.getLast?_eq_some_getLast hne] at this
  simpa using this

section Paths

variable {sha256 : Bytes → Digest}

variable (sha256) in
theorem length_stablePathDigest (value : Str) : (stablePathDigest sha256 value).length = 12 := by
  simp [stablePathDigest, (sha256 value.bytes).2]

theorem safePathComponent_of_plain {s : Str} (h : Plain s) : safePathComponent sha256 s = s := by
  have sanitized : sanitize s = s := by
    refine (List.map_congr_left fun c hc => ?_).trans (List.map_id s)
    simp [List.all_eq_true.mp h.safe c hc]
  simp [safePathComponent, trimmed, sanitized, trimDots_of_plain h, h.nonempty, h.safe]

theorem plain_trimmed (value : Str) : Plain (trimmed value) := by
  unfold trimmed
  split_ifs with h
  · constructor <;> decide
  · refine ⟨h, List.all_eq_true.mpr fun c hc => ?_, head_trimDots _, last_trimDots _⟩
    obtain ⟨d, -, rfl⟩ := List.mem_map.mp (trimDots_subset _ hc)
    split_ifs with hd
    · exact hd
    · decide

theorem safe_of_mem_hexDigits {c : Char} (h : c ∈ hexDigits) : isSafe c = true ∧ c ≠ '.' := by
  have all : hexDigits.all (fun c => isSafe c && c != '.') = true := by decide
  simpa using List.all_eq_true.mp all c h

theorem plain_safePathComponent (value : Str) : Plain (safePathComponent sha256 value) := by
  unfold safePathComponent
  split_ifs
  · have digest := length_stablePathDigest sha256 value
    have hex : ∀ c ∈ stablePathDigest sha256 value, c ∈ hexDigits := fun c hc =>
      mem_hexDigits_of_mem_hexEncode hc
    generalize stablePathDigest sha256 value = digest' at digest hex
    obtain ⟨nonempty, safe, head, last⟩ := plain_trimmed value
    refine ⟨by simp, ?_, ?_, ?_⟩
    · simp only [List.all_append, List.all_cons, safe, Bool.true_and, Bool.and_eq_true,
        List.all_eq_true]
      exact ⟨by decide, fun c hc => (safe_of_mem_hexDigits (hex c hc)).1⟩
    · rw [List.head?_append, List.head?_eq_some_head nonempty]
      rw [List.head?_eq_some_head nonempty] at head
      simpa using head
    · have hne : digest' ≠ [] := by
        rintro rfl
        simp at digest
      rw [List.getLast?_append_cons, List.getLast?_cons, List.getLast?_eq_some_getLast hne]
      simpa using (safe_of_mem_hexDigits (hex _ (List.getLast_mem hne))).2
  · exact plain_trimmed value

@[simp] theorem safePathComponent_safePathComponent (value : Str) :
    safePathComponent sha256 (safePathComponent sha256 value) = safePathComponent sha256 value :=
  safePathComponent_of_plain (plain_safePathComponent value)

theorem length_lower (s : Str) : s.lower.length = s.length := by
  simp [Str.lower]

/-- The text of a digest that `parse_sha256` accepts. -/
theorem digits_of_parse {digest : Str} {d : Digest} (h : parseSha256 digest = .ok d) :
    digest.length = 64 ∧ ∀ c ∈ digest.lower, c ∈ hexDigits := by
  unfold parseSha256 at h
  split_ifs at h with hd
  refine ⟨hd.1, fun c hc => ?_⟩
  obtain ⟨e, he, rfl⟩ := List.mem_map.mp hc
  simpa [isHexDigit] using List.all_eq_true.mp hd.2 e he

/-- Trimming dots does not reach what stands behind a dash. -/
theorem trimDots_append (front : Str) {rest : Str} (last : ('-' :: rest).getLast? ≠ some '.') :
    ∃ front', trimDots (front ++ '-' :: rest) = front' ++ '-' :: rest := by
  have start : (front ++ '-' :: rest).dropWhile (· = '.') =
      front.dropWhile (· = '.') ++ '-' :: rest := by
    induction front with
    | nil => simp
    | cons c front ih =>
      by_cases hc : c = '.'
      · simp [hc, ih]
      · simp [hc]
  refine ⟨front.dropWhile (· = '.'), ?_⟩
  rw [trimDots, start, List.rdropWhile_eq_self_iff]
  intro hne
  rw [List.getLast?_eq_some_getLast (List.cons_ne_nil _ _)] at last
  simpa using last

variable (sha256) in
/-- A cache key ends with the digest, or with it and the hash that tells lossy names apart. -/
theorem cacheKey_cases (version : Str) {digest : Str} {d : Digest}
    (h : parseSha256 digest = .ok d) :
    ∃ front, cacheKey sha256 version digest = front ++ digest.lower ∨
      ∃ hash : Str, hash.length = 12 ∧ (∀ c ∈ hash, c ∈ hexDigits) ∧
        cacheKey sha256 version digest = front ++ digest.lower ++ '-' :: hash := by
  obtain ⟨length, digits⟩ := digits_of_parse h
  let value := version ++ str "-sha256-" ++ digest.lower
  have sanitized : sanitize value =
      sanitize version ++ '-' :: (str "sha256-" ++ digest.lower) := by
    have same : sanitize digest.lower = digest.lower := by
      refine (List.map_congr_left fun c hc => ?_).trans (List.map_id _)
      simp [(safe_of_mem_hexDigits (digits c hc)).1]
    have marker : sanitize (str "-sha256-") = '-' :: str "sha256-" := by decide
    simp only [value, sanitize, List.map_append] at same marker ⊢
    rw [same, marker]
    simp
  have hne : digest.lower ≠ [] := by
    intro empty
    have := length_lower digest
    rw [empty, length] at this
    simp at this
  have last : ('-' :: (str "sha256-" ++ digest.lower)).getLast? ≠ some '.' := by
    rw [← List.cons_append, List.getLast?_append, List.getLast?_eq_some_getLast hne]
    simpa using (safe_of_mem_hexDigits (digits _ (List.getLast_mem hne))).2
  obtain ⟨front, trim⟩ := trimDots_append (sanitize version) last
  have trimmed_ : trimmed value = front ++ '-' :: str "sha256-" ++ digest.lower := by
    rw [trimmed, sanitized, trim, if_neg (by simp)]
    simp
  refine ⟨front ++ '-' :: str "sha256-", ?_⟩
  rw [cacheKey, safePathComponent, trimmed_]
  split_ifs
  · exact .inr ⟨_, length_stablePathDigest sha256 value,
      fun c hc => mem_hexDigits_of_mem_hexEncode hc, rfl⟩
  · exact .inl rfl

/-- A cache key ends with a hexadecimal digit. -/
theorem cacheKey_last {version digest : Str} {d : Digest} (h : parseSha256 digest = .ok d) :
    ∃ front c, cacheKey sha256 version digest = front ++ [c] ∧ c ∈ hexDigits := by
  obtain ⟨length, digits⟩ := digits_of_parse h
  have last : ∀ front s : Str, 0 < s.length → (∀ c ∈ s, c ∈ hexDigits) →
      ∃ front' c, front ++ s = front' ++ [c] ∧ c ∈ hexDigits := by
    intro front s hs hex
    have hne := List.length_pos_iff.mp hs
    exact ⟨front ++ s.dropLast, s.getLast hne, by
      rw [List.append_assoc, List.dropLast_append_getLast hne], hex _ (List.getLast_mem hne)⟩
  obtain ⟨front, key | ⟨hash, hl, hex, key⟩⟩ := cacheKey_cases sha256 version h
  · rw [key]
    exact last _ _ (by simp [length_lower, length]) digits
  · rw [key, List.append_cons]
    exact last _ _ (by omega) hex

/-- A key with a hash has a dash among its last 64 characters. -/
theorem append_digits_ne {front front' digest hash : Str} (length : digest.length = 64)
    (digits : ∀ c ∈ digest, c ∈ hexDigits) (short : hash.length = 12) :
    front ++ digest ≠ front' ++ '-' :: hash := by
  intro same
  have suffix : '-' :: hash <:+ digest := by
    refine List.suffix_of_suffix_length_le (List.suffix_append _ _)
      (same ▸ List.suffix_append front digest) ?_
    simp only [List.length_cons]
    omega
  have dash : '-' ∈ digest := suffix.subset List.mem_cons_self
  exact absurd (digits '-' dash) (by decide)

/-- A cache key belongs to one digest only. -/
theorem cacheKey_digest {version version' digest digest' : Str} {d d' : Digest}
    (h : parseSha256 digest = .ok d) (h' : parseSha256 digest' = .ok d')
    (same : cacheKey sha256 version digest = cacheKey sha256 version' digest') : d = d' := by
  obtain ⟨length, digits⟩ := digits_of_parse h
  obtain ⟨length', digits'⟩ := digits_of_parse h'
  have lower : digest.lower = digest'.lower := by
    have size : digest.lower.length = digest'.lower.length := by
      rw [length_lower, length_lower, length, length']
    obtain ⟨front, key | ⟨hash, hl, hex, key⟩⟩ := cacheKey_cases sha256 version h <;>
    obtain ⟨front', key' | ⟨hash', hl', hex', key'⟩⟩ := cacheKey_cases sha256 version' h' <;>
    rw [key, key'] at same
    · exact (List.append_inj' same size).2
    · exact absurd same (append_digits_ne (by rw [length_lower, length]) digits hl')
    · exact absurd same.symm (append_digits_ne (by rw [length_lower, length']) digits' hl)
    · have rest := (List.append_inj' same (by simp [hl, hl'])).1
      exact (List.append_inj' rest size).2
  rw [lower_of_parse h, lower_of_parse h'] at lower
  exact Subtype.ext (hexEncode_injective lower)

end Paths

/-! ### Work directories -/

theorem stagingMarker_eq : stagingMarker = ['-', 's', 't', 'a', 'g', 'i', 'n', 'g', '-'] := rfl

theorem backupMarker_eq : backupMarker = ['-', 'b', 'a', 'c', 'k', 'u', 'p', '-'] := rfl

theorem not_infix_of_notMem {pattern s : Str} {c : Char} (hp : c ∈ pattern) (hs : c ∉ s) :
    ¬pattern <:+: s := fun h => hs (h.subset hp)

theorem not_prefix_of_notMem {pattern s : Str} {c : Char} (hp : c ∈ pattern) (hs : c ∉ s) :
    ¬pattern <+: s := fun h => hs (h.subset hp)

/-- The sweep reads the key of a staging directory back from its name. -/
theorem workDirCacheKey_stagingName {key random : Str} (hkey : key ≠ []) (hr : '-' ∉ random) :
    workDirCacheKey (stagingName key random) = some key := by
  have staging : Str.rfind stagingMarker (key ++ stagingMarker ++ random) = some key := by
    rw [List.append_assoc, stagingMarker_eq]
    apply Str.rfind_append (List.prefix_append _ random)
    simp [List.infix_cons_iff, not_infix_of_notMem _ hr, not_prefix_of_notMem _ hr]
  have backup : ¬backupMarker <:+: stagingMarker ++ random := by
    simp [stagingMarker_eq, backupMarker_eq, List.infix_cons_iff, not_infix_of_notMem _ hr,
      not_prefix_of_notMem _ hr]
  have front : Str.stripPrefix (stagingName key random) (str ".") =
      some (key ++ stagingMarker ++ random) := Str.stripPrefix_append (str ".") _
  simp only [workDirCacheKey, front, staging]
  cases hb : Str.rfind backupMarker (key ++ stagingMarker ++ random) with
  | none => simp [hkey]
  | some before =>
    rw [List.append_assoc] at hb
    have := Str.length_of_rfind backup hb
    simp [hkey, this]

theorem backupName_of_plain {sha256 : Bytes → Digest} {key : Str} (h : Plain key) (pid nanos : ℕ) :
    backupName sha256 key pid nanos =
      ('.' :: key) ++ (backupMarker ++ (Nat.toDigits 10 pid ++ '-' :: Nat.toDigits 10 nanos)) := by
  simp [backupName, safePathComponent_of_plain h]

/-- The sweep reads the key of a backup directory back from its name. -/
theorem workDirCacheKey_backupName {sha256 : Bytes → Digest} {key : Str} (hkey : Plain key)
    (pid nanos : ℕ) : workDirCacheKey (backupName sha256 key pid nanos) = some key := by
  have front : Str.stripPrefix (backupName sha256 key pid nanos) (str ".") =
      some (key ++ (backupMarker ++ (Nat.toDigits 10 pid ++ '-' :: Nat.toDigits 10 nanos))) := by
    rw [backupName, safePathComponent_of_plain hkey]
    exact Str.stripPrefix_eq_some.mpr (by simp; rfl)
  have letter : ∀ c : Char, c.isDigit = false → c ≠ '-' →
      c ∉ Nat.toDigits 10 pid ++ '-' :: Nat.toDigits 10 nanos := by
    intro c hc hne
    simp [Str.notMem_toDigits hc, hne]
  have hb := letter 'b' (by decide) (by decide)
  have hs := letter 's' (by decide) (by decide)
  generalize Nat.toDigits 10 pid ++ '-' :: Nat.toDigits 10 nanos = numbers at front hb hs
  have backup : Str.rfind backupMarker (key ++ (backupMarker ++ numbers)) = some key := by
    rw [backupMarker_eq]
    apply Str.rfind_append (List.prefix_append _ numbers)
    simp [List.infix_cons_iff, not_infix_of_notMem _ hb, not_prefix_of_notMem _ hb]
  have staging : ¬stagingMarker <:+: backupMarker ++ numbers := by
    simp [stagingMarker_eq, backupMarker_eq, List.infix_cons_iff, not_infix_of_notMem _ hs,
      not_prefix_of_notMem _ hs]
  simp only [workDirCacheKey, front, backup]
  cases hf : Str.rfind stagingMarker (key ++ (backupMarker ++ numbers)) with
  | none => simp [hkey.nonempty]
  | some before =>
    have := Str.length_of_rfind staging hf
    simp [hkey.nonempty, this.le]

/-- Every backup directory's name has the marker that the sweep looks for. -/
theorem contains_backupName {sha256 : Bytes → Digest} {key : Str} (pid nanos : ℕ) :
    Str.contains (backupName sha256 key pid nanos) backupMarker = true := by
  rw [Str.contains_iff]
  exact ⟨'.' :: safePathComponent sha256 key, Nat.toDigits 10 pid ++ '-' :: Nat.toDigits 10 nanos,
    by simp [backupName]⟩

/-- A staging directory's name has the marker of backup directories exactly if its key does. -/
theorem contains_stagingName {key random front : Str} {c : Char} (hlast : key = front ++ [c])
    (hc : c ∈ hexDigits) (hr : '-' ∉ random) :
    Str.contains (stagingName key random) backupMarker = true ↔ backupMarker <:+: key := by
  rw [Str.contains_iff]
  have behind : ¬backupMarker <:+: stagingMarker ++ random := by
    simp [stagingMarker_eq, backupMarker_eq, List.infix_cons_iff, not_infix_of_notMem _ hr,
      not_prefix_of_notMem _ hr]
  have dot : ¬backupMarker <+: '.' :: (key ++ (stagingMarker ++ random)) := by
    simp [backupMarker_eq]
  have name : stagingName key random = '.' :: (key ++ (stagingMarker ++ random)) := by
    simp [stagingName]
  rw [name, List.infix_cons_iff, List.infix_append_iff_ne_nil]
  constructor
  · rintro (h | h | h | ⟨l, r, hl, hne, heq, hsuffix, hprefix⟩)
    · exact absurd h dot
    · exact h
    · exact absurd h behind
    · -- Across the end of the key, only the marker's last dash can belong to `-staging-`.
      obtain ⟨p, hp⟩ := hsuffix
      have split : l = ['-', 'b', 'a', 'c', 'k', 'u', 'p'] := by
        obtain ⟨d, r, rfl⟩ := List.exists_cons_of_ne_nil hne
        rw [stagingMarker_eq, List.cons_append, List.cons_prefix_cons] at hprefix
        have dash : backupMarker[l.length]? = some '-' := by simp [heq, hprefix.1]
        have dashes : ∀ n < 8, backupMarker[n]? = some '-' → n = 0 ∨ n = 7 := by decide
        have bound : backupMarker.length = l.length + (r.length + 1) := by simp [heq]
        have length : backupMarker.length = 8 := rfl
        have seven := (dashes l.length (by omega) dash).resolve_left (by simpa using hl)
        have front : backupMarker.take l.length = l := by simp [heq]
        rw [← front, seven]
        rfl
      rw [hlast, split] at hp
      have : c = 'p' := by simpa using (congrArg List.getLast? hp).symm
      rw [this] at hc
      exact absurd hc (by decide)
  · exact fun h => .inr (.inl h)

end AcpAgent.Installer
