import AcpAgent.Installer.Install
import Mathlib.Logic.Relation

/-! The download of an archive, `download_archive_with_limits` of `installer/binary/download.rs`: a
response of any shape, written into a file chunk by chunk while its bytes are counted and hashed. -/

namespace AcpAgent.Installer.Download

/-- The largest size of a file, by the type of its offsets. -/
def maxFileSize : ℕ := 2 ^ 63 - 1

/-- An item of the response's stream.  The write of a chunk may fail after so many bytes. -/
inductive Item
  | chunk (bytes : Bytes) (fails : Option ℕ)
  | error

structure Response where
  /-- `error_for_status` lets it pass. -/
  success : Bool
  contentLength : Option UInt64
  body : List Item

/-- What the download gets from the network and the file system. -/
structure Exchange where
  client : Bool
  response : Option Response
  create : Bool
  /-- The error of `flush`. -/
  flush : Option Str
  /-- The path of the destination, as errors show it. -/
  destination : Str

/-- `write_all` at the end of a file. -/
structure Written where
  file : Bytes
  complete : Bool
  /-- What the file holds meanwhile. -/
  moments : List Bytes

def writeAll (file chunk : Bytes) (fails : Option ℕ) : Written :=
  let stop := min (min (fails.getD chunk.length) chunk.length) (maxFileSize - file.length)
  { file := file ++ chunk.take stop
    complete := fails = none && stop = chunk.length
    moments := (List.range (stop + 1)).map fun n => file ++ chunk.take n }

/-- `saturating_add`. -/
def saturatingAdd (total : UInt64) (n : ℕ) : UInt64 := .ofNat (min (total.toNat + n) (2 ^ 64 - 1))

/-- The result of the loop, the file that it leaves, and what the file held at any moment. -/
structure Received where
  result : Except Str Bytes
  file : Bytes
  moments : List Bytes

def exceedsLimit (max : UInt64) : Str :=
  str "archive exceeds download limit of " ++ Nat.toDigits 10 max.toNat ++ str " bytes"

section Loop

variable (archive : Str) (max : UInt64) (exchange : Exchange)

/-- The loop, with the bytes that it has hashed, which it returns. -/
def receive (total : UInt64) (hashed file : Bytes) : List Item → Received
  | [] =>
    match exchange.flush with
    | none => ⟨.ok hashed, file, []⟩
    | some error => ⟨.error error, file, []⟩
  | .error :: _ => ⟨.error (str "failed to read archive response from " ++ archive), file, []⟩
  | .chunk bytes fails :: items =>
    let total := saturatingAdd total bytes.length
    if total > max then ⟨.error (exceedsLimit max), file, []⟩
    else
      let written := writeAll file bytes fails
      if written.complete then
        let rest := receive total (hashed ++ bytes) written.file items
        { rest with moments := written.moments ++ rest.moments }
      else
        ⟨.error (str "failed to write downloaded archive to " ++ exchange.destination),
          written.file, written.moments⟩

end Loop

/-- What the download returns, what is then at the destination, and what was there before. -/
structure Downloaded where
  result : Except Str Bytes
  file : Option Bytes
  moments : List Bytes

/-- A download that ends before there is a file. -/
def early (error : Str) : Downloaded := ⟨.error error, none, []⟩

section Download

variable (c : Crates) (archive : Str) (max : UInt64) (exchange : Exchange)

/-- The file is created, filled and, if anything fails, removed. -/
def store (name : Bytes) (expected : Digest) (body : List Item) : Downloaded :=
  if !exchange.create then early (str "failed to create " ++ exchange.destination)
  else
    let received := receive archive max exchange 0 [] [] body
    let moments := [] :: received.moments
    match received.result with
    | .error error => ⟨.error error, none, moments⟩
    | .ok hashed =>
      if c.sha256 hashed = expected then ⟨.ok name, some received.file, moments⟩
      else ⟨.error (str "sha256 checksum mismatch: expected " ++ hexEncode expected.1 ++
        str ", got " ++ hexEncode (c.sha256 hashed).1), none, moments⟩

/-- The part of the download from the request on. -/
def fetch (name : Bytes) (expected : Digest) : Downloaded :=
  if !exchange.client then early (str "failed to build archive HTTP client")
  else
    match exchange.response with
    | none => early (str "failed to download archive from " ++ archive)
    | some response =>
      if !response.success then early (str "failed to download archive from " ++ archive)
      else if response.contentLength.any (max < ·) then early (exceedsLimit max)
      else store c archive max exchange name expected response.body

/-- `download_archive_with_limits` into a directory that has no such file. -/
def downloadArchiveWithLimits (sha256 : Option Str) : Downloaded :=
  match sha256 with
  | none => early (str "binary target is missing required sha256 checksum")
  | some digest =>
    match parseSha256 digest with
    | .error error => early error
    | .ok expected =>
      match c.lastSegment archive with
      | none => early (str "invalid archive URL: " ++ archive)
      | some segment =>
        let name := if segment = [] then str "download.bin" else segment
        if !Crates.validateArchiveComponent name then
          early (str "unsafe archive filename in URL: " ++ name)
        else fetch c archive max exchange name.bytes expected

end Download

/-- The chunks of a stream. -/
def chunks : List Item → List Bytes
  | [] => []
  | .chunk bytes _ :: items => bytes :: chunks items
  | .error :: items => chunks items

/-! ### The file and its size -/

theorem length_writeAll (file chunk : Bytes) (fails : Option ℕ) :
    (writeAll file chunk fails).file.length ≤ file.length + chunk.length ∧
      (file.length ≤ maxFileSize → (writeAll file chunk fails).file.length ≤ maxFileSize) := by
  simp only [writeAll, List.length_append, List.length_take]
  omega

theorem writeAll_complete {file chunk : Bytes} {fails : Option ℕ}
    (complete : (writeAll file chunk fails).complete = true) :
    (writeAll file chunk fails).file = file ++ chunk := by
  simp only [writeAll, Bool.and_eq_true, decide_eq_true_eq] at complete ⊢
  rw [complete.2, List.take_length]

/-- Meanwhile the file only grows. -/
theorem writeAll_moments {file chunk moment : Bytes} {fails : Option ℕ}
    (member : moment ∈ (writeAll file chunk fails).moments) :
    moment <+: (writeAll file chunk fails).file := by
  simp only [writeAll, List.mem_map, List.mem_range] at member ⊢
  obtain ⟨n, le, rfl⟩ := member
  rw [List.prefix_append_right_inj]
  exact List.take_prefix_take_left (by omega)

theorem toNat_saturatingAdd (total : UInt64) (n : ℕ) :
    (saturatingAdd total n).toNat = min (total.toNat + n) (2 ^ 64 - 1) := by
  rw [saturatingAdd, UInt64.toNat_ofNat_of_lt']
  simp only [UInt64.size]
  omega

/-- The counter and the hash keep step with the file. -/
structure InStep (max total : UInt64) (hashed file : Bytes) : Prop where
  total : total.toNat = file.length
  hashed : hashed = file
  size : file.length ≤ maxFileSize
  limit : file.length ≤ max.toNat

section Loop

variable {archive : Str} {max total : UInt64} {exchange : Exchange} {hashed file : Bytes}

/-- No write gets the file over the limit, were the counter to saturate or not. -/
theorem InStep.write_le (h : InStep max total hashed file) {bytes : Bytes} (fails : Option ℕ)
    (below : ¬saturatingAdd total bytes.length > max) :
    (writeAll file bytes fails).file.length ≤ max.toNat := by
  obtain ⟨grown, size⟩ := length_writeAll file bytes fails
  have counted : min (file.length + bytes.length) (2 ^ 64 - 1) ≤ max.toNat := by
    rw [← h.total, ← toNat_saturatingAdd]
    exact UInt64.le_iff_toNat_le.mp (UInt64.not_lt.mp below)
  have small := size h.size
  rw [maxFileSize] at small
  omega

theorem InStep.next (h : InStep max total hashed file) {bytes : Bytes} {fails : Option ℕ}
    (below : ¬saturatingAdd total bytes.length > max)
    (complete : (writeAll file bytes fails).complete = true) :
    InStep max (saturatingAdd total bytes.length) (hashed ++ bytes)
      (writeAll file bytes fails).file := by
  have limit := h.write_le fails below
  have size := (length_writeAll file bytes fails).2 h.size
  rw [writeAll_complete complete] at limit size ⊢
  refine ⟨?_, by rw [h.hashed], size, limit⟩
  rw [toNat_saturatingAdd, h.total]
  rw [maxFileSize] at size
  simp only [List.length_append] at size ⊢
  omega

theorem receive_moments (h : InStep max total hashed file) (items : List Item) :
    (∀ moment ∈ (receive archive max exchange total hashed file items).moments,
        moment.length ≤ max.toNat) := by
  fun_induction receive archive max exchange total hashed file items with
  | case1 | case2 | case3 | case4 => simp
  | case5 total hashed file bytes fails items total' below written complete rest ih =>
    intro moment member
    rcases List.mem_append.mp member with now | later
    · exact (writeAll_moments now).length_le.trans (h.write_le fails below)
    · exact ih (h.next below complete) moment later
  | case6 total hashed file bytes fails items total' below written =>
    intro moment member
    exact (writeAll_moments member).length_le.trans (h.write_le fails below)

theorem receive_ok (h : InStep max total hashed file) {items : List Item} {result : Bytes}
    (ok : (receive archive max exchange total hashed file items).result = .ok result) :
    result = file ++ (chunks items).flatten ∧ result.length ≤ max.toNat ∧
      (receive archive max exchange total hashed file items).file = result ∧ .error ∉ items := by
  fun_induction receive archive max exchange total hashed file items with
  | case1 total hashed file =>
    obtain rfl := Except.ok.inj ok
    rw [h.hashed]
    exact ⟨by simp [chunks], h.limit, rfl, by simp⟩
  | case2 | case3 | case4 | case6 => exact nomatch ok
  | case5 total hashed file bytes fails items total' below written complete rest ih =>
    obtain ⟨concat, limit, same, none⟩ := ih (h.next below complete) ok
    rw [show written.file = file ++ bytes from writeAll_complete complete] at concat
    exact ⟨by rw [concat, chunks, List.flatten_cons, List.append_assoc], limit, same,
      by simp [none]⟩

end Loop

theorem InStep.start (max : UInt64) : InStep max 0 [] [] :=
  ⟨rfl, rfl, Nat.zero_le _, Nat.zero_le _⟩

section Download

variable {c : Crates} {archive : Str} {max : UInt64} {exchange : Exchange} {sha256 : Option Str}

/-- What holds of a download at its end and at any moment before. -/
structure AllOrNothing (c : Crates) (max : UInt64) (exchange : Exchange) (sha256 : Option Str)
    (d : Downloaded) : Prop where
  ok : ∀ name, d.result = .ok name → ∃ digest expected response,
    sha256 = some digest ∧ parseSha256 digest = .ok expected ∧
    exchange.response = some response ∧ .error ∉ response.body ∧
    d.file = some (chunks response.body).flatten ∧
    (chunks response.body).flatten.length ≤ max.toNat ∧
    c.sha256 (chunks response.body).flatten = expected
  error : ∀ e, d.result = .error e → d.file = none
  moments : ∀ moment ∈ d.moments, moment.length ≤ max.toNat

theorem early_allOrNothing (error : Str) :
    AllOrNothing c max exchange sha256 (early error) where
  ok name ok := nomatch ok
  error _ _ := rfl
  moments := by simp [early]

theorem store_allOrNothing {digest : Str} {expected : Digest} {response : Response}
    (declared : sha256 = some digest) (parses : parseSha256 digest = .ok expected)
    (responds : exchange.response = some response) (name : Bytes) :
    AllOrNothing c max exchange sha256
      (store c archive max exchange name expected response.body) := by
  have moments : ∀ moment ∈ [] :: (receive archive max exchange 0 [] [] response.body).moments,
      moment.length ≤ max.toNat := by
    simpa using receive_moments (.start max) response.body
  unfold store
  split_ifs
  · exact early_allOrNothing _
  cases received : (receive archive max exchange 0 [] [] response.body).result with
  | error e =>
    simp only [received]
    exact ⟨fun _ ok => (nomatch ok), fun _ _ => rfl, moments⟩
  | ok hashed =>
    obtain ⟨rfl, limit, file, none⟩ := receive_ok (.start max) received
    simp only [received, List.nil_append] at limit file ⊢
    split_ifs with verified
    · refine ⟨fun _ _ => ⟨digest, expected, response, declared, parses, responds, none, ?_, limit,
        verified⟩, fun _ e => (nomatch e), moments⟩
      rw [file]
    · exact ⟨fun _ ok => (nomatch ok), fun _ _ => rfl, moments⟩

theorem fetch_allOrNothing {digest : Str} {expected : Digest} (declared : sha256 = some digest)
    (parses : parseSha256 digest = .ok expected) (name : Bytes) :
    AllOrNothing c max exchange sha256 (fetch c archive max exchange name expected) := by
  unfold fetch
  split_ifs
  · exact early_allOrNothing _
  cases responds : exchange.response with
  | none => exact early_allOrNothing _
  | some response =>
    simp only
    split_ifs
    · exact early_allOrNothing _
    · exact early_allOrNothing _
    · exact store_allOrNothing declared parses responds name

end Download

/-- A download leaves the verified archive or no file. -/
theorem download_all_or_nothing (c : Crates) (archive : Str) (sha256 : Option Str) (max : UInt64)
    (exchange : Exchange) :
    AllOrNothing c max exchange sha256
      (downloadArchiveWithLimits c archive max exchange sha256) := by
  unfold downloadArchiveWithLimits
  cases sha256 with
  | none => exact early_allOrNothing _
  | some digest =>
    simp only
    cases parses : parseSha256 digest with
    | error e => exact early_allOrNothing _
    | ok expected =>
      cases c.lastSegment archive with
      | none => exact early_allOrNothing _
      | some segment =>
        simp only
        split_ifs
        · exact early_allOrNothing _
        · exact fetch_allOrNothing rfl parses _
        · exact early_allOrNothing _
        · exact fetch_allOrNothing rfl parses _

/-! ### In the steps of an installation -/

section Steps

variable {c : Crates} {job : Job} {max : UInt64} {exchange : Exchange} {key : Str}
  {free : Hold → Prop} {name : Bytes}

theorem store_name {archive : Str} {expected : Digest} {name' : Bytes} {body : List Item}
    (ok : (store c archive max exchange name' expected body).result = .ok name) :
    name' = name := by
  unfold store at ok
  split_ifs at ok
  · exact nomatch ok
  cases received : (receive archive max exchange 0 [] [] body).result with
  | error e => simp [received] at ok
  | ok hashed =>
    simp only [received] at ok
    split_ifs at ok
    exact Except.ok.inj ok

theorem fetch_name {archive : Str} {expected : Digest} {name' : Bytes}
    (ok : (fetch c archive max exchange name' expected).result = .ok name) : name' = name := by
  unfold fetch at ok
  split_ifs at ok
  · exact nomatch ok
  cases responds : exchange.response with
  | none => simp [responds, early] at ok
  | some response =>
    simp only [responds] at ok
    split_ifs at ok
    · exact nomatch ok
    · exact nomatch ok
    · exact store_name ok

theorem archiveName_of_ok {archive : Str} {sha256 : Option Str}
    (ok : (downloadArchiveWithLimits c archive max exchange sha256).result = .ok name) :
    c.archiveName archive = some name := by
  unfold downloadArchiveWithLimits at ok
  cases sha256 with
  | none => exact nomatch ok
  | some digest =>
    cases parses : parseSha256 digest with
    | error e => simp [parses, early] at ok
    | ok expected =>
      cases found : c.lastSegment archive with
      | none => simp [parses, found, early] at ok
      | some segment =>
        simp only [parses, found] at ok
        by_cases valid : Crates.validateArchiveComponent
            (if segment = [] then str "download.bin" else segment) = true
        · simp only [valid, Bool.not_true, Bool.false_eq_true, if_false] at ok
          rw [Crates.archiveName, found, Option.bind_eq_bind, Option.bind_some, if_pos valid,
            fetch_name ok]
        · simp [valid, early] at ok

/-- A download that succeeds is one that the installation takes. -/
theorem download_leads (d : Disk) (dir : Str)
    (ok : (downloadArchiveWithLimits c job.archive max exchange (some job.digest)).result =
      .ok name) :
    ∃ archive, (downloadArchiveWithLimits c job.archive max exchange (some job.digest)).file =
        some archive ∧
      Relation.ReflTransGen
        (fun x y : Disk × InstallPc => InstallStep c key job free x.1 x.2 y.1 y.2)
        (d, .downloading dir none)
        (d.setWork dir (some (stagedArchive name archive)), .creating dir archive) := by
  obtain ⟨digest, expected, response, declared, parses, -, -, file, -, verified⟩ :=
    (download_all_or_nothing c job.archive (some job.digest) max exchange).ok name ok
  have archiveName := archiveName_of_ok ok
  obtain rfl : job.digest = digest := Option.some.inj declared
  refine ⟨_, file, ?_⟩
  generalize (chunks response.body).flatten = archive at verified
  let opened := d.setWork dir (some (stagedArchive name []))
  let filled := opened.setWork dir (some (stagedArchive name ([] ++ archive)))
  have opens : InstallStep c key job free d (.downloading dir none) opened
      (.downloading dir (some [])) := .open_ archiveName
  have fills : InstallStep c key job free opened (.downloading dir (some [])) filled
      (.downloading dir (some ([] ++ archive))) := .chunk archiveName archive
  have closes : InstallStep c key job free filled (.downloading dir (some ([] ++ archive))) filled
      (.creating dir ([] ++ archive)) := .downloaded (by rw [Verified, parses, ← verified]; rfl)
  have disk : d.setWork dir (some (stagedArchive name archive)) = filled := by
    simp [filled, opened, Disk.setWork]
  rw [disk]
  exact .head (b := (opened, _)) opens (.head (b := (filled, _)) fills (.single closes))

end Steps

end AcpAgent.Installer.Download
