import Mathlib.Data.List.ReduceOption
import AcpAgent.Installer.Archive

/-! The quotas of `ArchiveLimits` after every action of an extraction. -/

namespace AcpAgent.Installer

/-- The bytes written, the entries created other than directories and the entries taken. -/
structure Counted (bytes files entries : ℕ) (log : List Action) : Prop where
  bytes_le : (log.map Action.bytes).sum ≤ bytes
  files_le : (log.map Action.files).sum ≤ files
  entries_le : (log.map Action.entries).sum ≤ entries

abbrev Within (limits : ArchiveLimits) : List Action → Prop :=
  Counted limits.maxExpandedBytes.toNat limits.maxFiles.toNat limits.maxEntries.toNat

section Counting

variable {bytes files entries bytes' files' entries' : ℕ} {log ops : List Action}

theorem Counted.nil : Counted 0 0 0 [] := ⟨Nat.le_refl 0, Nat.le_refl 0, Nat.le_refl 0⟩

theorem Counted.mono (h : Counted bytes files entries log) (hb : bytes ≤ bytes')
    (hf : files ≤ files') (he : entries ≤ entries') : Counted bytes' files' entries' log :=
  ⟨h.bytes_le.trans hb, h.files_le.trans hf, h.entries_le.trans he⟩

theorem Counted.append (h : Counted bytes files entries log)
    (hops : Counted bytes' files' entries' ops) :
    Counted (bytes + bytes') (files + files') (entries + entries') (log ++ ops) := by
  obtain ⟨hb, hf, he⟩ := h
  obtain ⟨hb', hf', he'⟩ := hops
  constructor
  · rw [List.map_append, List.sum_append]
    omega
  · rw [List.map_append, List.sum_append]
    omega
  · rw [List.map_append, List.sum_append]
    omega

theorem Counted.front (h : Counted bytes files entries log) (front : ops <+: log) :
    Counted bytes files entries ops := by
  obtain ⟨rest, rfl⟩ := front
  obtain ⟨hb, hf, he⟩ := h
  rw [List.map_append, List.sum_append] at hb hf he
  constructor <;> omega

theorem counted_singleton (op : Action) : Counted op.bytes op.files op.entries [op] := by
  constructor <;> simp

end Counting

/-! ### Counters -/

section Counters

variable {limits : ArchiveLimits} {done : List Action} {wrong : ArchiveError → Prop}

/-- What ends an extraction is none of the plain sums and differences. -/
abbrev Sound (error : ArchiveError) : Prop := error ≠ .arithmetic

theorem validate_sound {path : Option Str} {error : ArchiveError}
    (h : validateArchivePath path = .error error) : Sound error := by
  cases path with
  | none => exact Except.error.inj h ▸ ArchiveError.noConfusion
  | some text =>
    rw [validateArchivePath] at h
    split_ifs at h <;> exact Except.error.inj h ▸ ArchiveError.noConfusion

theorem validateLink_sound {link : Option Bytes} {error : ArchiveError}
    (h : validateLinkName link = .error error) : Sound error := by
  cases link with
  | none => simp [validateLinkName] at h
  | some link => exact validate_sound h

theorem meets_fits {p : Prop} [Decidable p] (fits : p) (n : ℕ) (now : Within limits done) :
    Logged.Meets done (do .require p .arithmetic; return n : Extract ℕ) (Within limits)
      (fun value log => log = done ∧ value = n) Sound := by
  have required : Logged.Meets done (.require p .arithmetic : Extract Unit) (Within limits)
      (fun _ log => log = done ∧ p) Sound :=
    .require now (fun hp => ⟨rfl, hp⟩) fun no => absurd fits no
  exact required.bind_quiet fun _ _ => .pure now ⟨rfl, rfl⟩

/-- An action that the quotas leave room for. -/
theorem meets_perform (op : Action) {bytes files entries : ℕ}
    (now : Counted bytes files entries done)
    (hb : bytes + op.bytes ≤ limits.maxExpandedBytes.toNat)
    (hf : files + op.files ≤ limits.maxFiles.toNat)
    (he : entries + op.entries ≤ limits.maxEntries.toNat) :
    Logged.Meets done (.perform op : Extract Unit) (Within limits)
      (fun _ log => Counted (bytes + op.bytes) (files + op.files) (entries + op.entries) log)
      Sound := by
  have next : Counted (bytes + op.bytes) (files + op.files) (entries + op.entries) (done ++ [op]) :=
    now.append (counted_singleton op)
  exact .perform (now.mono (by omega) (by omega) (by omega)) (next.mono hb hf he) next

end Counters

/-! ### The copy loop -/

section Copying

variable {limits : ArchiveLimits} {bytes files entries maxBytes : ℕ}

/-- A sink that writes no more than it is given. -/
def Sinks (limits : ArchiveLimits) (sink : Bytes → Extract Unit) : Prop :=
  ∀ (done : List Action) (chunk : Bytes) (bytes files entries : ℕ),
    Counted bytes files entries done → bytes + chunk.length ≤ limits.maxExpandedBytes.toNat →
    files ≤ limits.maxFiles.toNat → entries ≤ limits.maxEntries.toNat →
    Logged.Meets done (sink chunk) (Within limits)
      (fun _ log => Counted (bytes + chunk.length) files entries log) Sound

theorem sinks_buffer (limits : ArchiveLimits) : Sinks limits fun _ => return () := by
  intro done chunk bytes files entries now room hf he
  have more : Counted (bytes + chunk.length) files entries done :=
    now.mono (Nat.le_add_right bytes chunk.length) le_rfl le_rfl
  exact .pure (more.mono room hf he) more

theorem sinks_write (limits : ArchiveLimits) : Sinks limits (.perform ∘ .write) := by
  intro done chunk bytes files entries now room hf he
  exact meets_perform (.write chunk) now room hf he

theorem meets_copy {sink : Bytes → Extract Unit} (sinks : Sinks limits sink) (chunks : List Bytes)
    {done : List Action} {copied : ℕ} (now : Counted (bytes + copied) files entries done)
    (hc : copied ≤ maxBytes) (room : bytes + maxBytes ≤ limits.maxExpandedBytes.toNat)
    (hf : files ≤ limits.maxFiles.toNat) (he : entries ≤ limits.maxEntries.toNat) :
    Logged.Meets done (copyWithLimit sink maxBytes copied chunks) (Within limits)
      (fun total log => Counted (bytes + total) files entries log ∧ total ≤ maxBytes) Sound := by
  refine meets_copyWithLimit (I := fun total log => Counted (bytes + total) files entries log)
    ArchiveError.noConfusion ArchiveError.noConfusion (fun total log small h => ?_)
    (fun done total chunk small h => ?_) chunks hc now
  · exact h.mono (by omega) hf he
  · have written := sinks done chunk (bytes + total) files entries h (by omega) hf he
    rwa [Nat.add_assoc] at written

end Copying

/-! ### ZIP archives -/

section Zip

variable {limits : ArchiveLimits}

/-- What holds after `index` entries. -/
structure ZipCounted (limits : ArchiveLimits) (index : ℕ) (s : ZipState) (log : List Action) :
    Prop where
  counted : Counted s.expanded s.files index log
  expanded_le : s.expanded ≤ limits.maxExpandedBytes.toNat
  files_le : s.files ≤ limits.maxFiles.toNat
  files_index : s.files ≤ index
  index_le : index ≤ limits.maxEntries.toNat

theorem ZipCounted.within {index : ℕ} {s : ZipState} {log : List Action}
    (h : ZipCounted limits index s log) : Within limits log :=
  h.counted.mono h.expanded_le h.files_le h.index_le

theorem meets_zipSymlink {entry : ZipEntry} {outpath : List Str} {done : List Action}
    {bytes files entries maxBytes : ℕ} (now : Counted bytes files entries done)
    (room : bytes + maxBytes ≤ limits.maxExpandedBytes.toNat)
    (hf : files + 1 ≤ limits.maxFiles.toNat) (he : entries ≤ limits.maxEntries.toNat) :
    Logged.Meets done (extractZipSymlink entry outpath maxBytes) (Within limits)
      (fun _ log => Counted (bytes + entry.size.toNat) (files + 1) entries log) Sound := by
  have now' : Counted (bytes + 0) files entries done := now
  refine (meets_copy (sinks_buffer limits) entry.chunks now' (Nat.zero_le maxBytes) room (by omega)
    he).bind fun copied log copies => ?_
  obtain ⟨h, fits⟩ := copies
  have within : Within limits log := h.mono (by omega) (by omega) he
  refine (Logged.Meets.require_quiet within ArchiveError.noConfusion).bind_quiet fun _ declared => ?_
  subst declared
  cases Str.ofBytes (entry.chunks.takeWhile (· ≠ [])).flatten with
  | none => exact .stop within ArchiveError.noConfusion
  | some target =>
    refine (Logged.Meets.ofExcept_quiet within fun _ => validate_sound).bind_quiet fun _ _ => ?_
    have hb : bytes + entry.size.toNat ≤ limits.maxExpandedBytes.toNat := by omega
    have hf' : files ≤ limits.maxFiles.toNat := by omega
    refine (meets_perform (.createDirAll outpath.dropLast) h hb hf' he).bind fun _ log' parents => ?_
    exact meets_perform (.symlink target outpath) parents hb hf he

/-- One entry keeps the counters above what it does. -/
theorem meets_zipEntry {index : ℕ} {s : ZipState} {done : List Action}
    (now : ZipCounted limits index s done) (taken : index + 1 ≤ limits.maxEntries.toNat)
    (entry : Option ZipEntry) :
    Logged.Meets done (extractZipEntry limits index s entry) (Within limits)
      (ZipCounted limits (index + 1)) Sound := by
  obtain ⟨counted, expanded_le, files_le, files_index, index_le⟩ := id now
  cases entry with
  | none => exact .stop now.within ArchiveError.noConfusion
  | some entry =>
    refine (meets_perform .entry counted expanded_le files_le taken).bind
      fun _ log (h : Counted s.expanded s.files (index + 1) log) => ?_
    have within : Within limits log := h.mono expanded_le files_le taken
    cases entry.enclosedName with
    | none => exact .stop within ArchiveError.noConfusion
    | some enclosed =>
      refine (Logged.Meets.ofExcept_quiet within fun _ => validate_sound).bind_quiet fun _ _ => ?_
      refine (meets_checked (s.expanded + entry.size.toNat) within
        ArchiveError.noConfusion).bind_quiet fun _ sum => ?_
      subst sum
      refine (Logged.Meets.require_quiet within ArchiveError.noConfusion).bind_quiet fun _ fits => ?_
      dsimp only
      split
      · have later : Counted (s.expanded + entry.size.toNat) s.files (index + 1) log :=
          h.mono (Nat.le_add_right s.expanded _) le_rfl le_rfl
        refine (meets_perform (.createDirAll (normalNames (components enclosed))) later fits files_le
          taken).bind fun _ log' h' => ?_
        have next := h'.mono fits files_le taken
        exact .pure next ⟨h', fits, files_le, files_index.trans (Nat.le_succ index), taken⟩
      · have few : s.files + 1 < 2 ^ 64 := by
          have := limits.maxEntries.toNat_lt
          omega
        refine (meets_fits few (s.files + 1) within).bind_quiet fun _ sum => ?_
        subst sum
        refine (Logged.Meets.require_quiet within ArchiveError.noConfusion).bind_quiet
          fun _ room => ?_
        split
        · refine (meets_fits expanded_le (limits.maxExpandedBytes.toNat - s.expanded)
            within).bind_quiet fun _ difference => ?_
          subst difference
          refine (meets_zipSymlink h (by omega) room taken).bind fun _ log' h' => ?_
          exact .pure (h'.mono fits room taken) ⟨h', fits, room, Nat.succ_le_succ files_index, taken⟩
        · have before : s.expanded ≤ limits.maxExpandedBytes.toNat := expanded_le
          refine (meets_perform (.createDirAll (normalNames (components enclosed)).dropLast) h before
            files_le taken).bind fun _ log parents => ?_
          refine (meets_perform (.createFile (normalNames (components enclosed))) parents before room
            taken).bind fun _ log
              (created : Counted (s.expanded + 0) (s.files + 1) (index + 1) log) => ?_
          have within := created.mono before room taken
          refine (meets_fits expanded_le (limits.maxExpandedBytes.toNat - s.expanded)
            within).bind_quiet fun _ difference => ?_
          subst difference
          refine (meets_copy (sinks_write limits) entry.chunks created (Nat.zero_le _) (by omega)
            room taken).bind fun copied log copies => ?_
          obtain ⟨h', small⟩ := copies
          have within : Within limits log := h'.mono (by omega) room taken
          refine (Logged.Meets.require_quiet within ArchiveError.noConfusion).bind_quiet
            fun _ declared => ?_
          subst declared
          exact .pure within ⟨h', fits, room, Nat.succ_le_succ files_index, taken⟩

theorem meets_zipEntries {index : ℕ} {s : ZipState} {done : List Action}
    (now : ZipCounted limits index s done) (entries : List (Option ZipEntry))
    (room : index + entries.length ≤ limits.maxEntries.toNat) :
    Logged.Meets done (extractZipEntries limits index s entries) (Within limits)
      (fun _ log => Within limits log) Sound := by
  induction entries generalizing index s done with
  | nil => exact .pure now.within now.within
  | cons entry entries ih =>
    rw [List.length_cons] at room
    refine (meets_zipEntry now (by omega) entry).bind fun s log next => ?_
    exact ih next (by omega)

theorem meets_setModes (modes : List (List Str × UInt32)) {done : List Action}
    (now : Within limits done) :
    Logged.Meets done (setModes modes) (Within limits) (fun _ log => Within limits log) Sound := by
  induction modes generalizing done with
  | nil => exact .pure now now
  | cons entry modes ih =>
    obtain ⟨path, mode⟩ := entry
    refine (meets_perform (.setPermissions path mode) now le_rfl le_rfl le_rfl).bind
      fun _ log next => ?_
    exact ih next

theorem within_nil (limits : ArchiveLimits) : Within limits [] :=
  Counted.nil.mono (Nat.zero_le _) (Nat.zero_le _) (Nat.zero_le _)

theorem meets_zip (limits : ArchiveLimits) (archive : ZipArchive) :
    Logged.Meets [] (extractZip limits archive) (Within limits) (fun _ log => Within limits log)
      Sound := by
  have start : ZipCounted limits 0 .empty [] :=
    ⟨Counted.nil, Nat.zero_le _, Nat.zero_le _, le_rfl, Nat.zero_le _⟩
  refine (Logged.Meets.require_quiet start.within ArchiveError.noConfusion).bind_quiet
    fun _ few => ?_
  refine (meets_zipEntries start archive.entries (by omega)).bind fun s log now => ?_
  exact meets_setModes s.unixModes.reverse now

end Zip

/-! ### Tar archives -/

section Tar

variable {limits : ArchiveLimits} (unpackIn : UnpackIn)

/-- What holds between two entries. -/
structure TarCounted (limits : ArchiveLimits) (s : TarState) (log : List Action) : Prop where
  counted : Counted s.expanded s.files s.entriesSeen log
  expanded_le : s.expanded ≤ limits.maxExpandedBytes.toNat
  files_le : s.files ≤ limits.maxFiles.toNat
  files_seen : s.files ≤ s.entriesSeen
  seen_le : s.entriesSeen ≤ limits.maxEntries.toNat

theorem TarCounted.within {s : TarState} {log : List Action} (h : TarCounted limits s log) :
    Within limits log :=
  h.counted.mono h.expanded_le h.files_le h.seen_le

theorem UnpackIn.counted (entry : TarEntry) :
    Counted entry.size.toNat (if entry.isDir then 0 else 1) 0 (unpackIn.actions entry) :=
  ⟨unpackIn.bytes_le entry, unpackIn.files_le entry, (unpackIn.entries_eq entry).le⟩

theorem meets_unpackIn (entry : TarEntry) {done : List Action} {bytes files entries : ℕ}
    (now : Counted bytes files entries done)
    (hb : bytes + entry.size.toNat ≤ limits.maxExpandedBytes.toNat)
    (hf : files + (if entry.isDir then 0 else 1) ≤ limits.maxFiles.toNat)
    (he : entries ≤ limits.maxEntries.toNat) :
    Logged.Meets done (unpackIn.run entry) (Within limits)
      (fun _ log => Counted (bytes + entry.size.toNat) (files + if entry.isDir then 0 else 1)
        entries log) Sound where
  always p front := ((now.append ((unpackIn.counted entry).front front)).mono hb hf he)
  ends _ _ := now.append (unpackIn.counted entry)
  stops error he := by
    unfold UnpackIn.run at he
    dsimp only at he
    split_ifs at he
    exact Except.error.inj he ▸ ArchiveError.noConfusion

theorem meets_tarEntry {s : TarState} {done : List Action} (now : TarCounted limits s done)
    (entry : TarEntry) (few : s.entriesSeen + 1 < 2 ^ 64) :
    Logged.Meets done (extractTarEntry unpackIn limits s (some entry)) (Within limits)
      (fun s' log => TarCounted limits s' log ∧ s'.entriesSeen = s.entriesSeen + 1) Sound := by
  obtain ⟨counted, expanded_le, files_le, files_seen, seen_le⟩ := id now
  refine (Logged.Meets.ofExcept_quiet now.within fun _ => validate_sound).bind_quiet fun _ _ => ?_
  refine (Logged.Meets.ofExcept_quiet now.within fun _ => validateLink_sound).bind_quiet
    fun _ _ => ?_
  refine (meets_fits few (s.entriesSeen + 1) now.within).bind_quiet fun _ sum => ?_
  subst sum
  refine (Logged.Meets.require_quiet now.within ArchiveError.noConfusion).bind_quiet
    fun _ taken => ?_
  refine (meets_perform .entry counted expanded_le files_le taken).bind
    fun _ log (h : Counted s.expanded s.files (s.entriesSeen + 1) log) => ?_
  have within : Within limits log := h.mono expanded_le files_le taken
  refine (meets_checked (s.expanded + entry.size.toNat) within
    ArchiveError.noConfusion).bind_quiet fun _ sum => ?_
  subst sum
  refine (Logged.Meets.require_quiet within ArchiveError.noConfusion).bind_quiet fun _ fits => ?_
  have unpacked := meets_unpackIn unpackIn entry h fits
  split
  · next dir =>
    rw [if_pos dir] at unpacked
    refine (unpacked files_le taken).bind fun _ log' h' => ?_
    exact .pure (h'.mono fits files_le taken)
      ⟨⟨h', fits, files_le, files_seen.trans (Nat.le_succ s.entriesSeen), taken⟩, rfl⟩
  · next dir =>
    rw [if_neg dir] at unpacked
    have fewer : s.files + 1 < 2 ^ 64 := by omega
    refine (meets_fits fewer (s.files + 1) within).bind_quiet fun _ sum => ?_
    subst sum
    refine (Logged.Meets.require_quiet within ArchiveError.noConfusion).bind_quiet fun _ room => ?_
    refine (unpacked room taken).bind fun _ log' h' => ?_
    exact .pure (h'.mono fits room taken)
      ⟨⟨h', fits, room, Nat.succ_le_succ files_seen, taken⟩, rfl⟩

/-- As each header takes a block, there are too few entries for their counter to overflow. -/
theorem meets_tarEntries {s : TarState} {done : List Action} (now : TarCounted limits s done)
    (entries : List (Option TarEntry))
    (spaced : entries.reduceOption.Pairwise fun a b => a.position.toNat + 512 ≤ b.position.toNat)
    (ahead : ∀ entry ∈ entries.reduceOption, s.entriesSeen * 512 ≤ entry.position.toNat) :
    Logged.Meets done (extractTarEntries unpackIn limits s entries) (Within limits)
      (fun _ log => Within limits log) Sound := by
  induction entries generalizing s done with
  | nil => exact .pure now.within now.within
  | cons entry entries ih =>
    cases entry with
    | none =>
      have stopped : Logged.Meets done (extractTarEntry unpackIn limits s none) (Within limits)
          (fun _ _ => False) Sound := .stop now.within ArchiveError.noConfusion
      exact stopped.bind fun _ _ no => no.elim
    | some entry =>
      rw [List.reduceOption_cons_of_some] at spaced ahead
      obtain ⟨after, spaced⟩ := List.pairwise_cons.mp spaced
      have here := ahead entry List.mem_cons_self
      have few : s.entriesSeen + 1 < 2 ^ 64 := by
        have := entry.position.toNat_lt
        omega
      refine (meets_tarEntry unpackIn now entry few).bind fun s' log next => ?_
      obtain ⟨now', seen⟩ := next
      apply ih now' spaced
      intro next hnext
      rw [seen, Nat.succ_mul]
      exact (Nat.add_le_add_right here 512).trans (after next hnext)

theorem meets_tar (limits : ArchiveLimits) (archive : TarArchive) :
    Logged.Meets [] (extractTar unpackIn limits archive) (Within limits)
      (fun _ log => Within limits log) Sound := by
  have start : TarCounted limits .empty [] :=
    ⟨Counted.nil, Nat.zero_le _, Nat.zero_le _, le_rfl, Nat.zero_le _⟩
  apply meets_tarEntries unpackIn start archive.entries archive.spaced
  intro entry _
  exact (Nat.zero_mul 512).trans_le (Nat.zero_le _)

end Tar

/-! ### Other files -/

section Raw

/-- A file that is no archive is refused before it is created. -/
def RawFile.Refused (limits : ArchiveLimits) (file : RawFile) : Prop :=
  limits.maxExpandedBytes < file.size ∨
    ∀ name, file.fileName.bind Str.ofBytes = some name → ¬Crates.validateArchiveComponent name

variable {limits : ArchiveLimits} {file : RawFile}

theorem meets_raw (hf : 0 < limits.maxFiles) (he : 0 < limits.maxEntries) (file : RawFile) :
    Logged.Meets [] (extractRaw limits file) (Within limits) (fun _ log => Within limits log)
      Sound := by
  have one_file : 0 + 1 ≤ limits.maxFiles.toNat := UInt64.lt_iff_toNat_lt.mp hf
  have one_entry : 0 + 1 ≤ limits.maxEntries.toNat := UInt64.lt_iff_toNat_lt.mp he
  have start : Counted 0 0 0 [] := Counted.nil
  have within := within_nil limits
  refine (Logged.Meets.require_quiet within ArchiveError.noConfusion).bind_quiet fun _ _ => ?_
  refine (Logged.Meets.require_quiet within ArchiveError.noConfusion).bind_quiet fun _ _ => ?_
  cases file.fileName.bind Str.ofBytes with
  | none => exact .stop within ArchiveError.noConfusion
  | some name =>
    refine (Logged.Meets.require_quiet within ArchiveError.noConfusion).bind_quiet fun _ _ => ?_
    refine (meets_perform .entry start (Nat.zero_le _) (Nat.zero_le _) one_entry).bind
      fun _ log taken => ?_
    refine (meets_perform (.createFile [name]) taken (Nat.zero_le _) one_file one_entry).bind
      fun _ log (created : Counted (0 + 0) 1 1 log) => ?_
    refine (meets_copy (sinks_write limits) file.chunks created (Nat.zero_le _) (Nat.zero_add _).le
      one_file one_entry).bind fun copied log written => ?_
    obtain ⟨copies, fits⟩ := written
    have within : Within limits log := copies.mono (by omega) one_file one_entry
    exact .pure within within

/-- The other limits are not read. -/
theorem extractRaw_sound (limits : ArchiveLimits) (file : RawFile) :
    ∀ error, (extractRaw limits file).result = .error error → Sound error :=
  have one : (0 : UInt64) < 1 := by decide
  have meets : Logged.Meets [] (extractRaw { limits with maxEntries := 1, maxFiles := 1 } file)
      (Within _) (fun _ log => Within _ log) Sound := meets_raw one one file
  meets.stops

theorem extractRaw_refused (h : file.Refused limits) : (extractRaw limits file).log = [] := by
  unfold extractRaw
  simp only [Logged.require_bind]
  split_ifs with named small
  · rcases h with large | bad
    · exact absurd small (UInt64.not_le.mpr large)
    · cases hname : file.fileName.bind Str.ofBytes with
      | none => rfl
      | some name =>
        simp only [if_neg (bad name hname), Logged.stop_log]
  · rfl
  · rfl

theorem extractRaw_created (h : ¬file.Refused limits) :
    ∃ name rest, (extractRaw limits file).log = .entry :: .createFile [name] :: rest := by
  obtain ⟨large, bad⟩ := not_or.mp h
  have small : file.size ≤ limits.maxExpandedBytes := UInt64.not_lt.mp large
  obtain ⟨name, hname, safe⟩ : ∃ name, file.fileName.bind Str.ofBytes = some name ∧
      Crates.validateArchiveComponent name := by
    simpa using bad
  have named : file.fileName ≠ none := by
    rintro none
    simp [none] at hname
  unfold extractRaw
  simp only [Logged.require_bind, if_pos named, if_pos small, hname, if_pos safe]
  exact ⟨name, _, rfl⟩

end Raw

/-! ### Archives -/

/-- A file that is created for itself needs room for one file and one entry. -/
def Archive.Fits (limits : ArchiveLimits) : Archive → Prop
  | .zip _ | .tar _ => True
  | .raw file => file.Refused limits ∨ (0 < limits.maxFiles ∧ 0 < limits.maxEntries)

theorem quotas_of_fits (unpackIn : UnpackIn) {limits : ArchiveLimits} {archive : Archive}
    (h : archive.Fits limits) :
    (∀ done, done <+: (extractArchive unpackIn limits archive).log → Within limits done) ∧
      (extractArchive unpackIn limits archive).result ≠ .error .arithmetic := by
  have of_meets : ∀ {m : Extract Unit}, Logged.Meets [] m (Within limits)
      (fun _ log => Within limits log) Sound →
      (∀ done, done <+: m.log → Within limits done) ∧ m.result ≠ .error .arithmetic :=
    fun meets => ⟨meets.always, fun panic => meets.stops _ panic rfl⟩
  cases archive with
  | zip archive => exact of_meets (meets_zip limits archive)
  | tar archive => exact of_meets (meets_tar unpackIn limits archive)
  | raw file =>
    rcases h with refused | ⟨hf, he⟩
    · refine ⟨fun done front => ?_, fun panic => extractRaw_sound limits file _ panic rfl⟩
      have nothing : (extractArchive unpackIn limits (.raw file)).log = [] :=
        extractRaw_refused refused
      rw [nothing] at front
      obtain rfl := List.prefix_nil.mp front
      exact within_nil limits
    · exact of_meets (meets_raw hf he file)

theorem fits_of_quotas (unpackIn : UnpackIn) {limits : ArchiveLimits} {archive : Archive}
    (h : ∀ done, done <+: (extractArchive unpackIn limits archive).log → Within limits done) :
    archive.Fits limits := by
  cases archive with
  | zip archive => trivial
  | tar archive => trivial
  | raw file =>
    apply or_iff_not_imp_left.mpr
    intro created
    obtain ⟨name, rest, log⟩ := extractRaw_created created
    have front : [.entry, .createFile [name]] <+: (extractRaw limits file).log := ⟨rest, log.symm⟩
    obtain ⟨-, files_le, entries_le⟩ := h _ front
    exact ⟨UInt64.lt_iff_toNat_lt.mpr files_le, UInt64.lt_iff_toNat_lt.mpr entries_le⟩

/-- The quotas hold after every action, and no plain sum or difference is out of range, exactly
unless a file that is no archive is created where no file or no entry may be. -/
theorem quotas_hold_iff (unpackIn : UnpackIn) (limits : ArchiveLimits) (archive : Archive) :
    ((∀ done, done <+: (extractArchive unpackIn limits archive).log → Within limits done) ∧
      (extractArchive unpackIn limits archive).result ≠ .error .arithmetic) ↔
      archive.Fits limits :=
  ⟨fun h => fits_of_quotas unpackIn h.1, quotas_of_fits unpackIn⟩

/-- An `unpack_in` that writes as many zeros as the entry declares. -/
def zeroed : UnpackIn where
  actions entry :=
    if entry.isDir then [.createDirAll [str "pkg"]]
    else [.createFile [str "file"], .write (List.replicate entry.size.toNat 0)]
  succeeds _ := true
  bytes_le entry := by split_ifs <;> simp [Action.bytes]
  files_le entry := by split_ifs <;> simp [Action.files]
  entries_eq entry := by split_ifs <;> simp [Action.entries]

/-- The default limits, but for `max_files`. -/
def noFiles : ArchiveLimits := ⟨512 * 1024 * 1024, 10000, 0⟩

/-- The file `agent`, of four bytes. -/
def bare : RawFile := ⟨some [97, 103, 101, 110, 116], 4, [[127, 69, 76, 70]]⟩

theorem bare_exceeds_max_files :
    ¬∀ (unpackIn : UnpackIn) (limits : ArchiveLimits) (archive : Archive),
      (∀ done, done <+: (extractArchive unpackIn limits archive).log → Within limits done) ∧
        (extractArchive unpackIn limits archive).result ≠ .error .arithmetic := by
  intro claim
  have created : ¬bare.Refused noFiles := by
    rintro (large | bad)
    · exact absurd large (by decide)
    · exact bad (str "agent") (by decide) (by decide)
  rcases fits_of_quotas zeroed (claim zeroed noFiles (.raw bare)).1 with refused | ⟨some_files, -⟩
  · exact created refused
  · exact absurd some_files (by decide)

end AcpAgent.Installer
