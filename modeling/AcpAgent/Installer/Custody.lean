import AcpAgent.Installer.Cache
import Mathlib.Data.Set.Function

/-! The chain of custody from a declared digest to the tree that an installation returns, over all
keys of one cache root, with crashes and with edits of the payloads from outside. -/

namespace AcpAgent.Installer

variable (c : Crates)

/-- What the chain rests on, for the byte strings that a run hashes. -/
structure Crates.Secure (hashed : Set Bytes) : Prop where
  collisions : Set.InjOn c.sha256 hashed
  /-- A message has less than `2 ^ 64` bits. -/
  bounded : ∀ bytes ∈ hashed, 8 * bytes.length < 2 ^ 64
  /-- No metadata names the digest of its own text. -/
  fixed : ∀ bytes ∈ hashed, ∀ m, c.fromSlice bytes = some m → m.sha256 ≠ some (c.hash bytes)
  /-- The text of metadata has no other reading, and a proper part of it has none. -/
  parses : ∀ m part m', part <+: c.toVecPretty m → c.fromSlice part = some m' → m' = m

/-- The payload of an entry. -/
def PayloadOf (entry : Option Node) (bytes : Bytes) : Prop :=
  ∃ node tree, entry = some node ∧ node.child extractedName = some tree ∧ bytes = tree.payload

/-- The archives and payloads that are hashed where an installation is. -/
def InstallPc.Hashes (disk : Disk) (bytes : Bytes) : InstallPc → Prop
  | .creating _ archive => bytes = archive
  | .finishing _ _ tree _ => bytes = tree.payload
  | .validating seen => PayloadOf seen bytes
  | .revalidating _ _ | .checking _ _ _ => PayloadOf disk.final bytes
  | _ => False

/-- Nothing but these byte strings is hashed. -/
def Cache.HashedIn {ι : Type*} (hashed : Set Bytes) (w : Cache ι) : Prop :=
  ∀ i job pc, w.party i = .install job pc → ∀ bytes, pc.Hashes w.disk bytes → bytes ∈ hashed

/-! ### Authentic entries -/

section Authentic

variable (key : Str) (hashed : Set Bytes)

/-- The metadata names a digest and the payload of an archive that has it. -/
def Honest (m : BinaryCacheMetadata) : Prop :=
  ∃ name archive tree, c.extract name archive = some tree ∧ tree.payload ∈ hashed ∧
    m.sha256 = some (c.hash archive) ∧ m.payloadSha256 = some (c.hashPayload tree)

/-- What is at the place of the metadata is honest or describes no payload, or it is a downloaded
archive of that name. -/
def Node.Authentic (node : Node) : Prop :=
  ∀ bytes m, node.child metadataName = some (.file bytes) → c.fromSlice bytes = some m →
    Honest c hashed m ∨ node.child extractedName = none ∨
      bytes ∈ hashed ∧ ∃ job, job.key c = key ∧ Verified c job bytes

structure Disk.Authentic (disk : Disk) : Prop where
  final : ∀ node, disk.final = some node → node.Authentic c key hashed
  work : ∀ name node, disk.work name = some node → node.Authentic c key hashed

end Authentic

section Steps

variable {c : Crates} {key : Str} {hashed : Set Bytes}

namespace Disk.Authentic

variable {d : Disk}

theorem setFinal (h : d.Authentic c key hashed) {entry : Option Node}
    (he : ∀ node, entry = some node → node.Authentic c key hashed) :
    (d.setFinal entry).Authentic c key hashed :=
  ⟨he, h.work⟩

theorem setWork (h : d.Authentic c key hashed) {name : Str} {entry : Option Node}
    (he : ∀ node, entry = some node → node.Authentic c key hashed) :
    (d.setWork name entry).Authentic c key hashed := by
  refine ⟨h.final, fun other node hn => ?_⟩
  by_cases same : other = name
  · subst same
    exact he node (by simpa using hn)
  · exact h.work other node (by simpa [same] using hn)

theorem setFinal_none (h : d.Authentic c key hashed) : (d.setFinal none).Authentic c key hashed :=
  h.setFinal (by simp)

theorem setWork_none (h : d.Authentic c key hashed) {name : Str} :
    (d.setWork name none).Authentic c key hashed :=
  h.setWork (by simp)

theorem setWork_some (h : d.Authentic c key hashed) {name : Str} {node : Node}
    (hn : node.Authentic c key hashed) : (d.setWork name (some node)).Authentic c key hashed :=
  h.setWork fun _ he => Option.some.inj he ▸ hn

theorem setFinal_some (h : d.Authentic c key hashed) {node : Node}
    (hn : node.Authentic c key hashed) : (d.setFinal (some node)).Authentic c key hashed :=
  h.setFinal fun _ he => Option.some.inj he ▸ hn

end Disk.Authentic

namespace Node.Authentic

/-- A part of an authentic entry that a recursive delete leaves is authentic. -/
theorem trims {node left : Node} (h : node.Authentic c key hashed) (ht : node.Trims left) :
    left.Authentic c key hashed := by
  intro bytes m hm parsed
  rcases h bytes m (ht.file hm) parsed with honest | missing | archive
  · exact .inl honest
  · exact .inr (.inl (ht.none missing))
  · exact .inr (.inr archive)

/-- An edit of the payload does not touch the metadata. -/
theorem edits {node node' : Node} (h : node.Authentic c key hashed) (he : node.Edits node') :
    node'.Authentic c key hashed := by
  obtain ⟨present⟩ := he
  intro bytes m hm parsed
  rw [Node.child_setChild_ne _ _ metadataName_ne] at hm
  rcases h bytes m hm parsed with honest | missing | archive
  · exact .inl honest
  · simp [missing] at present
  · exact .inr (.inr archive)

end Node.Authentic

theorem child_stagedArchive_metadata (name archive : Bytes) :
    (stagedArchive name archive).child metadataName =
      if name = metadataName then some (.file archive) else none := by
  split_ifs with h
  · subst h
    exact Node.child_setChild rfl _ _
  · rw [stagedArchive, Node.child_setChild_ne _ _ (Ne.symm h), Node.child_nil]

theorem authentic_empty : (Node.dir []).Authentic c key hashed := by
  intro bytes m hm
  simp at hm

theorem authentic_stagedArchive (name archive : Bytes) :
    (stagedArchive name archive).Authentic c key hashed := by
  intro bytes m hm parsed
  rw [child_stagedArchive_metadata] at hm
  split_ifs at hm with h
  refine .inr (.inl ?_)
  rw [stagedArchive, h, Node.child_setChild_ne _ _ metadataName_ne.symm, Node.child_nil]

theorem authentic_stagedTree {job : Job} {name archive : Bytes} (tree : Node)
    (hkey : job.key c = key) (verified : Verified c job archive) (mem : archive ∈ hashed) :
    (stagedTree name archive tree).Authentic c key hashed := by
  intro bytes m hm parsed
  rw [stagedTree, Node.child_setChild_ne _ _ metadataName_ne, child_stagedArchive_metadata] at hm
  split_ifs at hm
  obtain rfl : archive = bytes := by simpa using hm
  exact .inr (.inr ⟨mem, job, hkey, verified⟩)

/-- The metadata that an installation writes is honest, even if it is written only in part. -/
theorem authentic_stagedEntry (secure : c.Secure hashed) {job : Job} {name archive part : Bytes}
    {tree : Node} {executable : Bytes} (verified : Verified c job archive)
    (done : c.extract name archive = some tree) (mem : tree.payload ∈ hashed)
    (part_ : part <+: c.toVecPretty (job.metadata c tree executable)) :
    (stagedEntry name archive tree part).Authentic c key hashed := by
  intro bytes m hm parsed
  rw [child_stagedEntry_metadata] at hm
  obtain rfl : part = bytes := by simpa using hm
  rw [secure.parses _ _ _ part_ parsed]
  refine .inl ⟨name, archive, tree, done, mem, ?_, rfl⟩
  simp [Job.metadata, Job.expected, BinaryCacheMetadata.new, Crates.hash, lower_of_parse verified]

/-- What an installation has hashed before. -/
def InstallPc.Hashed (hashed : Set Bytes) : InstallPc → Prop
  | .extracting _ archive => archive ∈ hashed
  | .discarding _ cached | .committed cached _ | .lease cached =>
    ∀ bytes, PayloadOf (some cached) bytes → bytes ∈ hashed
  | _ => True

theorem InstallStep.keepsHashed {job : Job} {free : Hold → Prop} {d d' : Disk} {pc pc' : InstallPc}
    (h : InstallStep c key job free d pc d' pc') (known : pc.Hashed hashed)
    (hashes : ∀ bytes, pc.Hashes d bytes → bytes ∈ hashed) : pc'.Hashed hashed := by
  cases h with
  | create => exact hashes _ rfl
  | extractSome | discardSome | discard | dropBackupSome | dropBackup | dropBackupFails =>
    exact known
  | revalid at_ | commit at_ | commitBackup at_ =>
    intro bytes payload
    exact hashes bytes (at_.symm ▸ payload : PayloadOf d.final bytes)
  | _ => trivial

theorem InstallStep.authentic (secure : c.Secure hashed) {job : Job} {free : Hold → Prop}
    {d d' : Disk} {pc pc' : InstallPc} (h : InstallStep c key job free d pc d' pc')
    (hkey : job.key c = key) (chain : pc.Chain c job) (known : pc.Hashed hashed)
    (hashes : ∀ bytes, pc.Hashes d bytes → bytes ∈ hashed) (hd : d.Authentic c key hashed) :
    d'.Authentic c key hashed := by
  cases h with
  | stage => exact hd.setWork_some authentic_empty
  | open_ | chunk => exact hd.setWork_some (authentic_stagedArchive _ _)
  | create => exact hd.setWork_some (authentic_stagedTree _ hkey chain (hashes _ rfl))
  | extractSome | extract => exact hd.setWork_some (authentic_stagedTree _ hkey chain.1 known)
  | writeSome name part_ =>
    obtain ⟨⟨verified, name', hname, -, done⟩, -⟩ := chain
    obtain rfl := Option.some.inj (name.symm.trans hname)
    exact hd.setWork_some (authentic_stagedEntry secure verified done (hashes _ rfl) part_)
  | write name complete =>
    obtain ⟨⟨verified, name', hname, -, done⟩, -⟩ := chain
    obtain rfl := Option.some.inj (name.symm.trans hname)
    subst complete
    exact hd.setWork_some
      (authentic_stagedEntry secure verified done (hashes _ rfl) List.prefix_rfl)
  | discardSome at_ ht | dropBackupSome at_ ht | cleanSome at_ ht =>
    exact hd.setWork_some ((hd.work _ _ at_).trims ht)
  | unpublishSome at_ ht => exact hd.setFinal_some ((hd.final _ at_).trims ht)
  | preserve => exact (hd.setWork hd.final).setFinal_none
  | publish | restore => exact (hd.setFinal (hd.work _)).setWork_none
  | unpublish => exact hd.setFinal_none
  | discard | dropBackup | clean => exact hd.setWork_none
  | _ => exact hd

theorem RemoveStep.authentic {wait : Bool} {free : Hold → Prop} {d d' : Disk} {pc pc' : RemovePc}
    (h : RemoveStep wait free d pc d' pc') (hd : d.Authentic c key hashed) :
    d'.Authentic c key hashed := by
  cases h with
  | removeSome at_ ht => exact hd.setFinal_some ((hd.final _ at_).trims ht)
  | remove => exact hd.setFinal_none
  | _ => exact hd

theorem SweepStep.authentic {faults : Prop} {free : Hold → Prop} {d d' : Disk} {pc pc' : SweepPc}
    (h : SweepStep faults free d pc d' pc') (hd : d.Authentic c key hashed) :
    d'.Authentic c key hashed := by
  cases h with
  | restore _ at_ => exact (hd.setFinal_some (hd.work _ _ at_)).setWork_none
  | removeSome _ at_ ht => exact hd.setWork_some ((hd.work _ _ at_).trims ht)
  | remove => exact hd.setWork_none
  | _ => exact hd

/-- An entry that passes the validation has the tree of an archive with the declared digest. -/
theorem custody_of_valid (secure : c.Secure hashed) {job : Job} {d : Digest} {cached : Node}
    (hkey : job.key c = key) (digest : parseSha256 job.digest = .ok d)
    (authentic : cached.Authentic c key hashed)
    (hashes : ∀ bytes, PayloadOf (some cached) bytes → bytes ∈ hashed)
    (valid : validateCachedBinary c job.expected (some cached) = .valid) :
    ∃ name archive tree payload, c.sha256 archive = d ∧ c.extract name archive = some tree ∧
      cached.child extractedName = some payload ∧ payload.sorted = tree.sorted := by
  obtain ⟨node, bytes, m, payload, hnode, hm, parsed, same, child, recorded⟩ := valid_entry valid
  obtain rfl := Option.some.inj hnode
  have declared : m.sha256 = some (hexEncode d.1) := by
    simp only [BinaryCacheMetadata.sameTarget, Bool.and_eq_true, decide_eq_true_eq] at same
    rw [same.2, Job.expected, BinaryCacheMetadata.new, Option.map_some, lower_of_parse digest]
  rcases authentic bytes m hm parsed with honest | missing | ⟨mem, other, hother, verified⟩
  · obtain ⟨name, archive, tree, done, mem, sha, payload_⟩ := honest
    rw [declared, Option.some.injEq] at sha
    have collision : c.sha256 tree.payload = c.sha256 payload.payload := by
      simp only [digestMatches, payload_, Crates.hashPayload, Crates.hash, lower_hexEncode,
        decide_eq_true_eq] at recorded
      exact Subtype.ext (hexEncode_injective recorded)
    have bytes_ := secure.collisions mem (hashes _ ⟨_, _, rfl, child, rfl⟩) collision
    have bounded := secure.bounded _ mem
    exact ⟨name, archive, tree, payload, Subtype.ext (hexEncode_injective sha.symm), done, child,
      Node.sorted_of_payload bytes_.symm (by rw [← bytes_]; omega)⟩
  · simp [missing] at child
  · obtain rfl : c.sha256 bytes = d := cacheKey_digest verified digest (hother.trans hkey.symm)
    exact absurd declared (secure.fixed bytes mem m parsed)

end Steps

/-! ### Runs -/

/-- The place of a key in the cache: the names of its agent and its platform, and the key. -/
abbrev Place := Str × Str × Str

/-- All keys of a cache root that was empty once.  SHA-256 is computed of these byte strings. -/
def custodySystem (ι : Type*) [DecidableEq ι] (hashed : Set Bytes) :
    Transition.System (Place → Cache ι) (Place × Event ι) :=
  .family fun place =>
    (cacheSystem c place.2.2 True fun d => d = ⟨none, fun _ => none⟩).restrict
      fun w _ => w.HashedIn hashed

section Runs

variable {c : Crates} {key : Str} {hashed : Set Bytes} {ι : Type*} [DecidableEq ι]

/-- An installation is one of this key, and knows its part of the chain. -/
def Party.Custody (c : Crates) (key : Str) (hashed : Set Bytes) : Party → Prop
  | .install job pc =>
    job.key c = key ∧ (∃ d, parseSha256 job.digest = .ok d) ∧ pc.Chain c job ∧ pc.Hashed hashed
  | _ => True

structure Cache.Custody (c : Crates) (key : Str) (hashed : Set Bytes) (w : Cache ι) : Prop where
  sound : w.Sound c True
  parties : ∀ i, (w.party i).Custody c key hashed
  authentic : w.disk.Authentic c key hashed

theorem Party.Step.custody (secure : c.Secure hashed) {free : Hold → Prop} {d d' : Disk}
    {p p' : Party} (h : p.Step c key free d d' p') (hp : p.Custody c key hashed)
    (hashes : ∀ job pc, p = .install job pc → ∀ bytes, pc.Hashes d bytes → bytes ∈ hashed)
    (hd : d.Authentic c key hashed) : p'.Custody c key hashed ∧ d'.Authentic c key hashed := by
  cases h with
  | install step =>
    obtain ⟨hkey, digest, chain, known⟩ := hp
    have hashes := hashes _ _ rfl
    exact ⟨⟨hkey, digest, step.chain chain, step.keepsHashed known hashes⟩,
      step.authentic secure hkey chain known hashes hd⟩
  | remove step => exact ⟨trivial, step.authentic hd⟩
  | sweep step => exact ⟨trivial, step.authentic hd⟩

namespace Cache.Custody

variable {w : Cache ι}

theorem move {i : ι} {d : Disk} {p : Party} (sound : (w.move i d p).Sound c True)
    (hw : w.Custody c key hashed) (hp : p.Custody c key hashed) (hd : d.Authentic c key hashed) :
    (w.move i d p).Custody c key hashed :=
  ⟨sound, (Function.forall_update_iff w.party fun _ p => p.Custody c key hashed).mpr
    ⟨hp, fun j _ => hw.parties j⟩, hd⟩

theorem step (secure : c.Secure hashed) (hw : w.Custody c key hashed) {w' : Cache ι} {a : Event ι}
    (step : w.Step c key True a w') (hashes : w.HashedIn hashed) : w'.Custody c key hashed := by
  have sound := hw.sound.step step
  cases step with
  | install _ hkey digest => exact hw.move sound ⟨hkey, ⟨_, digest⟩, trivial, trivial⟩ hw.authentic
  | remove | sweep | leave => exact hw.move sound trivial hw.authentic
  | run step =>
    obtain ⟨hp, hd⟩ := step.custody secure (hw.parties _) (hashes _) hw.authentic
    exact hw.move sound hp hd
  | release => exact ⟨sound, hw.parties, hw.authentic⟩
  | editFinal _ _ at_ edit =>
    exact ⟨sound, hw.parties, hw.authentic.setFinal_some ((hw.authentic.final _ at_).edits edit)⟩
  | editWork _ _ at_ edit =>
    exact ⟨sound, hw.parties, hw.authentic.setWork_some ((hw.authentic.work _ _ at_).edits edit)⟩

end Cache.Custody

theorem custody (secure : c.Secure hashed) {s : Place → Cache ι}
    (h : (custodySystem c ι hashed).Reachable s) (place : Place) :
    (s place).Custody c place.2.2 hashed := by
  refine (h.member place).invariant (fun w init => ?_) fun w a w' _ hw step =>
    hw.step secure step.2 step.1
  obtain ⟨empty, idle, -⟩ := init
  exact ⟨.of_idle idle, fun i => by simp [idle i, Party.Custody], by simp [empty], by simp [empty]⟩

/-- Whenever an installation returns an entry, that entry is there, and its tree is the one that
some archive with the declared digest has. -/
theorem chain_of_custody (secure : c.Secure hashed) {s t : Place → Cache ι} {place : Place} {i : ι}
    (h : (custodySystem c ι hashed).Reachable s)
    (step : (custodySystem c ι hashed).step s (place, .run i) t) {job : Job} {cached : Node}
    (returned : (t place).party i = .install job (.returned cached)) :
    ∃ d, parseSha256 job.digest = .ok d ∧
      ∃ name archive tree payload, c.sha256 archive = d ∧ c.extract name archive = some tree ∧
        (t place).disk.final = some cached ∧ cached.child extractedName = some payload ∧
        payload.sorted = tree.sorted := by
  have hs := custody secure h place
  obtain ⟨⟨hashes, step⟩, -⟩ := step
  generalize s place = w at hs hashes step
  generalize t place = w' at returned step
  cases step with
  | @run i disk p step =>
    obtain rfl : p = .install job (.returned cached) := by simpa [Cache.move] using returned
    generalize hq : w.party i = q at step
    cases step with
    | @install _ _ pc _ _ step =>
      obtain ⟨hkey, ⟨d, digest⟩, chain, known⟩ := hq ▸ hs.parties i
      obtain ⟨final, valid⟩ := step.published (hs.sound.knows i job pc hq)
      have payload : ∀ bytes, PayloadOf (some cached) bytes → bytes ∈ hashed := by
        cases step with
        | hit => exact hashes i _ _ hq
        | lease => exact known
      have authentic : cached.Authentic c place.2.2 hashed :=
        (step.authentic secure hkey chain known (hashes i _ _ hq) hs.authentic).final _ final
      obtain ⟨name, archive, tree, payload, sha, done, child, same⟩ :=
        custody_of_valid secure hkey digest authentic payload valid
      exact ⟨d, digest, name, archive, tree, payload, sha, done, final, child, same⟩

/-! The sample entry is installed in an empty cache. -/

def sampleHashed : Set Bytes := {Sample.archive, Sample.tree.payload}

theorem sample_secure : Sample.crates.Secure sampleHashed where
  collisions := by
    have ne : Sample.crates.sha256 Sample.archive ≠ Sample.crates.sha256 Sample.tree.payload := by
      rw [Sample.sha256_payload]
      decide
    rintro a (rfl | rfl) b (rfl | rfl) h
    · rfl
    · exact absurd h ne
    · exact absurd h ne.symm
    · rfl
  bounded := by
    rintro a (rfl | rfl) <;> decide
  fixed := by
    have other : ∀ a ∈ sampleHashed, a ≠ Sample.json := by
      rintro a (rfl | rfl) same <;>
      · have head := congrArg List.head? same
        rw [Sample.head_json] at head
        exact absurd head (by decide)
    intro a ha m hm
    simp [Sample.crates, other a ha] at hm
  parses m part m' hp hm := by
    simp only [Sample.crates] at hp hm
    split_ifs at hm with json
    split_ifs at hp with known
    · exact (Option.some.inj hm).symm.trans known.symm
    · have head := Sample.head_json
      rw [← json, List.prefix_nil.mp hp] at head
      simp at head

/-- A key of the cache that starts empty, of which only the sample's byte strings are hashed. -/
def sampleSystem : Transition.System (Cache Unit) (Event Unit) :=
  (cacheSystem Sample.crates Sample.key True fun d => d = ⟨none, fun _ => none⟩).restrict
    fun w _ => w.HashedIn sampleHashed

theorem sample_step {d d' : Disk} {pc pc' : InstallPc}
    (h : sampleSystem.Reachable (.alone d (.install Sample.job pc)))
    (step : InstallStep Sample.crates Sample.key Sample.job (fun _ => True) d pc d' pc')
    (hashes : ∀ bytes, pc.Hashes d bytes → bytes ∈ sampleHashed)
    (hashes' : ∀ bytes, pc'.Hashes d' bytes → bytes ∈ sampleHashed) :
    sampleSystem.Reachable (.alone d' (.install Sample.job pc')) := by
  refine Cache.reachable_alone h (fun _ => ?_) (fun _ _ => ?_) (.install step)
  · rintro _ _ _ ⟨⟩
    exact hashes
  · rintro _ _ _ ⟨⟩
    exact hashes'

theorem sample_lease : ∃ w, sampleSystem.Reachable
    (.alone w (.install Sample.job (.lease Sample.entry))) := by
  have idle : ∀ d l, Cache.HashedIn sampleHashed (⟨d, fun _ : Unit => .idle, l⟩) := by
    rintro _ _ _ _ _ ⟨⟩
  have waiting : ∀ d l, Cache.HashedIn sampleHashed
      (⟨d, fun _ : Unit => .install Sample.job .publication, l⟩) := by
    rintro _ _ _ _ _ ⟨⟩ _ ⟨⟩
  have quiet : ∀ bytes, False → bytes ∈ sampleHashed := fun _ => False.elim
  have archive : ∀ bytes, bytes = Sample.archive → bytes ∈ sampleHashed := fun _ => .inl
  have payload : ∀ bytes, bytes = Sample.tree.payload → bytes ∈ sampleHashed := fun _ => .inr
  have absent : ∀ bytes, PayloadOf none bytes → bytes ∈ sampleHashed := by
    rintro _ ⟨_, _, ⟨⟩, _⟩
  have published : ∀ bytes, PayloadOf (some Sample.entry) bytes → bytes ∈ sampleHashed := by
    rintro _ ⟨node, tree, ⟨⟩, child, rfl⟩
    rw [Sample.entry, child_stagedEntry_extracted] at child
    exact .inr (congrArg Node.payload (Option.some.inj child).symm)
  have h0 : sampleSystem.Reachable (.alone ⟨none, fun _ => none⟩ .idle) :=
    .init ⟨rfl, fun _ => rfl, fun _ => id⟩
  have h1 := Cache.reachable_install h0 (fun _ => idle _ _) (fun _ _ => waiting _ _)
    Sample.key_job Sample.parse_digest
  have h2 := sample_step h1 (.lock trivial) quiet quiet
  have h3 := sample_step h2 (.read trivial) quiet absent
  have h4 := sample_step h3 (.miss rfl) absent quiet
  have h5 := sample_step h4 (.stage (show '-' ∉ str "x" by decide) rfl) quiet quiet
  have h6 := sample_step h5 (.open_ Sample.archiveName_job) quiet quiet
  have h7 := sample_step h6 (.chunk Sample.archiveName_job Sample.archive) quiet quiet
  have h8 := sample_step h7 (.downloaded Sample.parse_digest) quiet archive
  have h9 := sample_step h8 (.create Sample.archiveName_job (by decide)) archive quiet
  have h10 := sample_step h9 (.extract Sample.archiveName_job Sample.extract_archive) quiet quiet
  have h11 := sample_step h10 (.resolve Sample.executable_tree) quiet payload
  have h12 := sample_step h11 (.write Sample.archiveName_job Sample.entry_eq) payload quiet
  have h13 := sample_step h12 (.writeLease trivial) quiet quiet
  have h14 := sample_step h13 (.probeMissing rfl) quiet quiet
  obtain ⟨d, final, h15⟩ : ∃ d, d.final = some Sample.entry ∧ sampleSystem.Reachable
      (.alone d (.install Sample.job (.checking _ Sample.entry none))) :=
    ⟨_, by simp, sample_step h14 (.publish rfl) quiet fun bytes hb =>
      published bytes (by simpa [InstallPc.Hashes] using hb)⟩
  have h16 := sample_step h15 (.commit final (final ▸ Sample.valid_entry))
    (fun bytes hb => published bytes (by simpa [InstallPc.Hashes, final] using hb)) quiet
  exact ⟨d, h16⟩

/-- The installation returns what was downloaded. -/
theorem chain_of_custody_sample :
    ∃ (t : Place → Cache Unit) (place : Place), ∃ d, parseSha256 Sample.digest = .ok d ∧
      ∃ name archive tree payload, Sample.crates.sha256 archive = d ∧
        Sample.crates.extract name archive = some tree ∧
        (t place).disk.final = some Sample.entry ∧
        Sample.entry.child extractedName = some payload ∧ payload.sorted = tree.sorted := by
  obtain ⟨d, h⟩ := sample_lease
  let place : Place := (str "demo", str "linux-x86_64", Sample.key)
  let empty : Place → Cache Unit := fun _ => .alone ⟨none, fun _ => none⟩ .idle
  let s := Function.update empty place (.alone d (.install Sample.job (.lease Sample.entry)))
  have init : (custodySystem Sample.crates Unit sampleHashed).init empty :=
    fun _ => ⟨rfl, fun _ => rfl, fun _ => id⟩
  have reach : (custodySystem Sample.crates Unit sampleHashed).Reachable s :=
    Transition.System.Reachable.family init (k := place) h
  let w := (Cache.alone d (.install Sample.job (.lease Sample.entry))).move () d
    (.install Sample.job (.returned Sample.entry))
  have quiet : (s place).HashedIn sampleHashed := by
    rw [show s place = .alone d _ from Function.update_self ..]
    rintro _ _ _ ⟨⟩ _ ⟨⟩
  have lease : Cache.Step Sample.crates Sample.key True (s place) (.run ()) w := by
    rw [show s place = .alone d _ from Function.update_self ..]
    exact .run (.install (.lease (Cache.free_alone d _ ▸ trivial)))
  have returned : w.party () = .install Sample.job (.returned Sample.entry) := rfl
  have step : (custodySystem Sample.crates Unit sampleHashed).step s (place, .run ())
      (Function.update s place w) := by
    refine ⟨⟨quiet, ?_⟩, fun k hk => Function.update_of_ne hk ..⟩
    rwa [Function.update_self]
  exact ⟨_, place, chain_of_custody sample_secure reach step
    (by rw [Function.update_self]; exact returned)⟩

end Runs

end AcpAgent.Installer
