import AcpAgent.Catalog.Registry
import AcpAgent.Lib.Runs

/-! The startup arguments of `--yolo`, `yolo.rs`: the catalog that has them, its copy in the
release, and the catalog that the calls of one process share. -/

namespace AcpAgent.Catalog.Yolo

open Serde Transition

structure YoloMode where
  args : List Str
  deriving DecidableEq

structure YoloModes where
  version : UInt64
  agents : List (Str × YoloMode)
  deriving DecidableEq

/-! ### The catalog -/

/-- Fields of any other name are refused. -/
def yoloModeOf : Json → Option YoloMode :=
  asStruct [str "args"] 1 fun members =>
    if members.all fun member => member.1 = str "args" then do
      some { args := ← required (str "args") (asArray asString) members }
    else none

def yoloModesOf : Json → Option YoloModes :=
  asStruct [str "version", str "agents"] 2 fun members => do
    some {
      version := ← required (str "version") asUInt64 members
      agents := ← required (str "agents") (asMap yoloModeOf) members }

namespace YoloModes

/-- `from_json`, with what `serde_json` says of a text that is no catalog. -/
def fromJson (reason : Str → Str) (input : Str) : Except Str YoloModes :=
  match (Json.parse input).bind yoloModesOf with
  | some modes => .ok modes
  | none => .error (str "failed to decode yolo-modes.json: " ++ reason input)

/-- The arguments of each agent. -/
def arguments (modes : YoloModes) : List (Str × List Str) :=
  modes.agents.map fun entry => (entry.1, entry.2.args)

end YoloModes

/-- `EMBEDDED_YOLO_MODES`, `data/yolo-modes.json`. -/
def embeddedText : Str :=
  [str "\x7b",
    str "  \"version\": 2,",
    str "  \"agents\": \x7b",
    str "    \"claude-acp\": \x7b",
    str "      \"args\": [\"--dangerously-skip-permissions\"]",
    str "    \x7d,",
    str "    \"codex-acp\": \x7b",
    str "      \"args\": [\"--dangerously-skip-sandbox-and-permissions\"]",
    str "    \x7d,",
    str "    \"cursor\": \x7b",
    str "      \"args\": [\"--yolo\"]",
    str "    \x7d,",
    str "    \"gemini\": \x7b",
    str "      \"args\": [\"--yolo\"]",
    str "    \x7d,",
    str "    \"qwen-code\": \x7b",
    str "      \"args\": [\"--yolo\"]",
    str "    \x7d,",
    str "    \"devin\": \x7b",
    str "      \"args\": [\"--permission-mode\", \"bypass\"]",
    str "    \x7d,",
    str "    \"dirac\": \x7b",
    str "      \"args\": [\"--yolo\"]",
    str "    \x7d,",
    str "    \"github-copilot-cli\": \x7b",
    str "      \"args\": [\"--yolo\"]",
    str "    \x7d,",
    str "    \"grok-build\": \x7b",
    str "      \"args\": [\"--always-approve\"]",
    str "    \x7d",
    str "  \x7d",
    str "\x7d"].flatMap (· ++ ['\n'])

/-- How the request for the published catalog ends. -/
inductive Fetched
  | unbuilt (error : Str)
  | failed (error : Str)
  | text (text : Str)

section Fetching

variable (reason : Str → Str)

/-- `embedded_yolo_modes`, which panics if the copy in the release does not decode. -/
def embeddedYoloModes : Option YoloModes := (YoloModes.fromJson reason embeddedText).toOption

def fetchRemoteYoloModes : Fetched → Except Str YoloModes
  | .unbuilt error => .error (str "failed to build HTTP client for yolo-mode catalog: " ++ error)
  | .failed error => .error (str "failed to fetch yolo-mode catalog: " ++ error)
  | .text text => YoloModes.fromJson reason text

end Fetching

/-- `resolve_args`, with the catalog that it fetches if it is enabled. -/
def resolveArgs (catalog : YoloModes) : Str → Bool → List Str → Except Str (List Str) :=
  Runner.Host.resolveArgsFrom catalog.arguments

/-- They are the arguments that the commands take from what the host finds. -/
theorem resolveArgs_host {host : Runner.Host} {catalog : YoloModes}
    (found : host.yoloModes = catalog.arguments) (agentId : Str) (enabled : Bool)
    (args : List Str) : host.resolveArgs agentId enabled args =
      resolveArgs catalog agentId enabled args := by
  rw [Runner.Host.resolveArgs, found, resolveArgs]

/-! ### The calls of a process -/

/-- A call of `fetch_yolo_modes`. -/
inductive Call
  | waiting
  /-- Awaits the published catalog. -/
  | fetching
  | returned (catalog : YoloModes)
  | panicked
  /-- The future was dropped. -/
  | dropped

/-- `CACHE`, and the calls. -/
structure Process where
  cache : Option YoloModes
  calls : ℕ → Call

def Process.set (p : Process) (n : ℕ) (call : Call) : Process :=
  { p with calls := Function.update p.calls n call }

/-- The call returns a catalog, which is kept if it is the first. -/
def Process.answer (p : Process) (n : ℕ) (catalog : YoloModes) : Process :=
  { p.set n (.returned catalog) with cache := p.cache.or (some catalog) }

inductive Event
  | begin (n : ℕ)
  | fetched (n : ℕ) (outcome : Fetched)
  | drop (n : ℕ)

inductive Step (reason : Str → Str) (p : Process) : Event → Process → Prop
  | hit {n : ℕ} {catalog : YoloModes} (waiting : p.calls n = .waiting)
      (cached : p.cache = some catalog) : Step reason p (.begin n) (p.set n (.returned catalog))
  | miss {n : ℕ} (waiting : p.calls n = .waiting) (empty : p.cache = none) :
      Step reason p (.begin n) (p.set n .fetching)
  | remote {n : ℕ} {outcome : Fetched} {catalog : YoloModes} (fetching : p.calls n = .fetching)
      (decoded : fetchRemoteYoloModes reason outcome = .ok catalog) :
      Step reason p (.fetched n outcome) (p.answer n catalog)
  | embedded {n : ℕ} {outcome : Fetched} {error : Str} {catalog : YoloModes}
      (fetching : p.calls n = .fetching)
      (failed : fetchRemoteYoloModes reason outcome = .error error)
      (bundled : embeddedYoloModes reason = some catalog) :
      Step reason p (.fetched n outcome) (p.answer n catalog)
  | panic {n : ℕ} {outcome : Fetched} {error : Str} (fetching : p.calls n = .fetching)
      (failed : fetchRemoteYoloModes reason outcome = .error error)
      (bundled : embeddedYoloModes reason = none) :
      Step reason p (.fetched n outcome) (p.set n .panicked)
  | drop {n : ℕ} (fetching : p.calls n = .fetching) : Step reason p (.drop n) (p.set n .dropped)

def system (reason : Str → Str) : System Process Event where
  init p := p.cache = none ∧ ∀ n, p.calls n = .waiting
  step := Step reason

theorem embedded_decodes (reason : Str → Str) :
    ∃ catalog, embeddedYoloModes reason = some catalog := by
  have decodes : ((Json.parse embeddedText).bind yoloModesOf).isSome = true := by decide +kernel
  obtain ⟨catalog, decoded⟩ := Option.isSome_iff_exists.1 decodes
  exact ⟨catalog, by rw [embeddedYoloModes, YoloModes.fromJson, decoded]; rfl⟩

/-! ### One catalog -/

section Shared

variable {reason : Str → Str} {p q : Process} {event : Event} {n : ℕ}

@[simp] theorem Process.set_cache (call : Call) : (p.set n call).cache = p.cache := rfl

@[simp] theorem Process.answer_cache (catalog : YoloModes) :
    (p.answer n catalog).cache = p.cache.or (some catalog) := rfl

theorem Process.set_calls (call : Call) (m : ℕ) :
    (p.set n call).calls m = if m = n then call else p.calls m := Function.update_apply ..

theorem Process.answer_calls (catalog : YoloModes) (m : ℕ) :
    (p.answer n catalog).calls m = if m = n then .returned catalog else p.calls m :=
  Function.update_apply ..

/-- No call panics, and a catalog is kept once a call has returned. -/
structure Process.Sound (p : Process) : Prop where
  runs : ∀ n, p.calls n ≠ .panicked
  kept : ∀ n catalog, p.calls n = .returned catalog → p.cache ≠ none

theorem Process.Sound.set (sound : p.Sound) {call : Call} (runs : call ≠ .panicked)
    (kept : ∀ catalog, call = .returned catalog → p.cache ≠ none) : (p.set n call).Sound := by
  constructor
  · intro m
    rw [set_calls]
    split_ifs
    · exact runs
    · exact sound.runs m
  · intro m catalog returned
    rw [set_calls] at returned
    split_ifs at returned
    · exact kept catalog returned
    · exact sound.kept m catalog returned

theorem Process.Sound.answer (sound : p.Sound) (catalog : YoloModes) :
    (p.answer n catalog).Sound := by
  constructor
  · intro m
    rw [answer_calls]
    split_ifs
    · exact nofun
    · exact sound.runs m
  · intro m _ _
    cases cache : p.cache <;> simp [cache]

theorem Process.Sound.step (sound : p.Sound) (step : Step reason p event q) : q.Sound := by
  cases step with
  | hit waiting cached => exact sound.set nofun fun _ _ => by simp [cached]
  | miss waiting empty => exact sound.set nofun nofun
  | remote fetching decoded => exact sound.answer _
  | embedded fetching failed bundled => exact sound.answer _
  | panic fetching failed bundled =>
    obtain ⟨catalog, decoded⟩ := embedded_decodes reason
    rw [bundled] at decoded
    cases decoded
  | drop fetching => exact sound.set nofun nofun

/-- The catalog is kept, and the calls that are late return it without asking for another. -/
structure Process.Settled (catalog : YoloModes) (late : ℕ → Prop) (p : Process) : Prop where
  kept : p.cache = some catalog
  returns : ∀ n, late n → p.calls n = .waiting ∨ p.calls n = .returned catalog

section Settled

variable {catalog : YoloModes} {late : ℕ → Prop}

theorem Process.Settled.set (settled : p.Settled catalog late) {call : Call}
    (returns : late n → call = .returned catalog) : (p.set n call).Settled catalog late := by
  refine ⟨settled.kept, fun m isLate => ?_⟩
  rw [set_calls]
  split_ifs with same
  · exact .inr (returns (same ▸ isLate))
  · exact settled.returns m isLate

theorem Process.Settled.answer (settled : p.Settled catalog late) (early : ¬ late n)
    (other : YoloModes) : (p.answer n other).Settled catalog late := by
  refine ⟨by simp [settled.kept], fun m isLate => ?_⟩
  rw [answer_calls, if_neg fun same : m = n => early (same ▸ isLate)]
  exact settled.returns m isLate

theorem Process.Settled.not_late (settled : p.Settled catalog late)
    (fetching : p.calls n = .fetching) : ¬ late n := by
  intro isLate
  rcases settled.returns n isLate with waiting | returned
  · rw [fetching] at waiting
    cases waiting
  · rw [fetching] at returned
    cases returned

theorem Process.Settled.step (settled : p.Settled catalog late)
    (step : Step reason p event q) : q.Settled catalog late := by
  cases step with
  | hit waiting cached =>
    obtain rfl := Option.some.inj (settled.kept.symm.trans cached)
    exact settled.set fun _ => rfl
  | miss waiting empty =>
    rw [settled.kept] at empty
    cases empty
  | remote fetching decoded => exact settled.answer (settled.not_late fetching) _
  | embedded fetching failed bundled => exact settled.answer (settled.not_late fetching) _
  | panic fetching failed bundled =>
    exact settled.set fun isLate => absurd isLate (settled.not_late fetching)
  | drop fetching => exact settled.set fun isLate => absurd isLate (settled.not_late fetching)

end Settled

def Process.Holds (p : Process) (catalog : YoloModes) : Prop :=
  p.cache = some catalog ∨ ∃ n, p.calls n = .returned catalog

theorem Process.Holds.of_set {call : Call} {catalog : YoloModes}
    (holds : (p.set n call).Holds catalog) (old : call = .returned catalog → p.Holds catalog) :
    p.Holds catalog := by
  rcases holds with cached | ⟨m, returned⟩
  · exact .inl cached
  · rw [set_calls] at returned
    split_ifs at returned
    · exact old returned
    · exact .inr ⟨m, returned⟩

theorem Process.Holds.of_answer {catalog other : YoloModes}
    (holds : (p.answer n other).Holds catalog) : p.Holds catalog ∨ catalog = other := by
  rcases holds with cached | ⟨m, returned⟩
  · rw [answer_cache, Option.or_eq_some_iff] at cached
    rcases cached with cached | ⟨-, same⟩
    · exact .inl (.inl cached)
    · exact .inr (Option.some.inj same).symm
  · rw [answer_calls] at returned
    split_ifs at returned
    · cases returned
      exact .inr rfl
    · exact .inl (.inr ⟨m, returned⟩)

/-- Where the catalogs come from: the release, or the texts that were fetched. -/
theorem Process.Holds.source {catalog : YoloModes} (holds : q.Holds catalog)
    (step : Step reason p event q) :
    p.Holds catalog ∨ embeddedYoloModes reason = some catalog ∨
      ∃ n text, event = .fetched n (.text text) ∧ YoloModes.fromJson reason text = .ok catalog := by
  cases step with
  | hit waiting cached =>
    refine .inl (holds.of_set fun same => ?_)
    cases same
    exact .inl cached
  | miss waiting empty => exact .inl (holds.of_set nofun)
  | @remote n outcome found fetching decoded =>
    rcases holds.of_answer with old | rfl
    · exact .inl old
    · cases outcome with
      | unbuilt error => cases decoded
      | failed error => cases decoded
      | text text => exact .inr (.inr ⟨n, text, rfl, decoded⟩)
  | embedded fetching failed bundled =>
    rcases holds.of_answer with old | rfl
    · exact .inl old
    · exact .inr (.inl bundled)
  | panic fetching failed bundled => exact .inl (holds.of_set nofun)
  | drop fetching => exact .inl (holds.of_set nofun)

section Runs

variable {last : ℕ} {state : ℕ → Process} {label : ℕ → Event}

/-- The catalog of the release, or one that was fetched before a moment of a run. -/
def Known (reason : Str → Str) (label : ℕ → Event) (i : ℕ) (catalog : YoloModes) : Prop :=
  embeddedYoloModes reason = some catalog ∨
    ∃ j < i, ∃ n text, label j = .fetched n (.text text) ∧
      YoloModes.fromJson reason text = .ok catalog

theorem sound_of_run (run : (system reason).Run last state label) {i : ℕ} (h : i ≤ last) :
    (state i).Sound :=
  (run.reachable h).invariant
    (fun p init => ⟨fun n => by simp [init.2 n], fun n catalog => by simp [init.2 n]⟩)
    fun _ _ _ _ sound step => sound.step step

theorem known_of_run (run : (system reason).Run last state label) {i : ℕ} (h : i ≤ last)
    {catalog : YoloModes} (holds : (state i).Holds catalog) : Known reason label i catalog := by
  induction i with
  | zero =>
    rcases holds with cached | ⟨n, returned⟩
    · simp [run.init.1] at cached
    · simp [run.init.2 n] at returned
  | succ i ih =>
    rcases holds.source (run.step i h) with old | bundled | ⟨n, text, fetched, decoded⟩
    · rcases ih (by omega) old with bundled | ⟨j, earlier, fetched⟩
      · exact .inl bundled
      · exact .inr ⟨j, by omega, fetched⟩
    · exact .inl bundled
    · exact .inr ⟨i, by omega, n, text, fetched, decoded⟩

theorem settled_of_run (run : (system reason).Run last state label) {i j : ℕ} (after : i ≤ j)
    (h : j ≤ last) {catalog : YoloModes} {late : ℕ → Prop}
    (settled : (state i).Settled catalog late) : (state j).Settled catalog late := by
  induction j, after using Nat.le_induction with
  | base => exact settled
  | succ j _ ih => exact (ih (by omega)).step (run.step j h)

/-- No call panics, and what a call returns is the catalog of the release or one that was fetched.
Once a call has returned, a catalog is settled: all calls that begin later return it, and none of
them asks for another. -/
theorem catalog_settled (run : (system reason).Run last state label) {i : ℕ} (h : i ≤ last) :
    (∀ n, (state i).calls n ≠ .panicked) ∧
    (∀ n catalog, (state i).calls n = .returned catalog → Known reason label i catalog) ∧
    ∀ n catalog, (state i).calls n = .returned catalog →
      ∃ settled, Known reason label i settled ∧ ∀ j, i ≤ j → j ≤ last →
        (state j).Settled settled fun later => (state i).calls later = .waiting := by
  have sound := sound_of_run run h
  refine ⟨sound.runs, fun n catalog returned => known_of_run run h (.inr ⟨n, returned⟩), ?_⟩
  intro n catalog returned
  obtain ⟨settled, kept⟩ := Option.ne_none_iff_exists'.1 (sound.kept n catalog returned)
  exact ⟨settled, known_of_run run h (.inl kept), fun j after end_ =>
    settled_of_run run after end_ ⟨kept, fun later waiting => .inl waiting⟩⟩

end Runs

end Shared

/-! ### Offline -/

section Offline

def unused : Process := ⟨none, fun _ => .waiting⟩

/-- A call that cannot fetch the published catalog, and then a second call. -/
def offline (catalog : YoloModes) : ℕ → Process
  | 0 => unused
  | 1 => unused.set 0 .fetching
  | 2 => (unused.set 0 .fetching).answer 0 catalog
  | _ => ((unused.set 0 .fetching).answer 0 catalog).set 1 (.returned catalog)

def offlineEvents : ℕ → Event
  | 0 => .begin 0
  | 1 => .fetched 0 (.failed (str "dns error"))
  | _ => .begin 1

theorem offline_run {reason : Str → Str} {catalog : YoloModes}
    (bundled : embeddedYoloModes reason = some catalog) :
    (system reason).Run 3 (offline catalog) offlineEvents := by
  refine ⟨⟨rfl, fun _ => rfl⟩, fun i small => ?_⟩
  match i, small with
  | 0, _ => exact .miss rfl rfl
  | 1, _ => exact .embedded rfl rfl bundled
  | 2, _ => exact .hit rfl rfl

theorem catalog_settled_offline :
    ∃ catalog, embeddedYoloModes (fun _ => []) = some catalog ∧
      ∃ settled, Known (fun _ => []) offlineEvents 2 settled ∧ ∀ j, 2 ≤ j → j ≤ 3 →
        (offline catalog j).Settled settled fun later =>
          (offline catalog 2).calls later = .waiting := by
  obtain ⟨catalog, bundled⟩ := embedded_decodes fun _ => []
  exact ⟨catalog, bundled,
    (catalog_settled (offline_run bundled) (by decide : 2 ≤ 3)).2.2 0 catalog rfl⟩

end Offline

end AcpAgent.Catalog.Yolo
