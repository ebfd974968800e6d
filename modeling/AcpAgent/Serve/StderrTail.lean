import AcpAgent.Lib.Suffix
import AcpAgent.Serve.Launch

/-! The last bytes of an agent's standard error, which `LaunchState::push_stderr` of
`serve/runtime.rs` keeps for the report of a failure. -/

namespace AcpAgent.Serve.StderrTail

open Launch Suffix

/-- The largest `usize`. -/
def usizeMax : ℕ := 2 ^ 64 - 1

def saturatingAdd (a b : ℕ) : ℕ := min (a + b) usizeMax

/-- A difference, unless it underflows. -/
def checkedSub (a b : ℕ) : Option ℕ := if b ≤ a then some (a - b) else none

/-- `bytes[start..]`, which panics if there is no such place. -/
def sliceFrom (bytes : List UInt8) (start : ℕ) : Option (List UInt8) :=
  if start ≤ bytes.length then some (bytes.drop start) else none

/-- The `while` loop, whose guard is evaluated `fuel` times at most.  `pop_front` leaves an empty
deque as it is. -/
def evict (required : ℕ) : ℕ → List UInt8 → Option (List UInt8)
  | 0, _ => none
  | fuel + 1, tail =>
    if saturatingAdd tail.length required > stderrTailBytes then evict required fuel (tail.drop 1)
    else some tail

/-- `push_stderr`; nothing comes of a panic, or of a loop that does not end. -/
def pushStderr (fuel : ℕ) (tail line : List UInt8) : Option (List UInt8) :=
  let required := saturatingAdd line.length 1
  if required ≥ stderrTailBytes then do
    let start ← checkedSub line.length (stderrTailBytes - 1)
    let suffix ← sliceFrom line start
    return suffix ++ [10]
  else do
    let tail ← evict required fuel tail
    return tail ++ line ++ [10]

/-- The deque after these lines. -/
def pushLines (fuel : ℕ) (lines : List (List UInt8)) : Option (List UInt8) :=
  lines.foldlM (pushStderr fuel) []

/-- All lines, each followed by a newline. -/
def stream (lines : List (List UInt8)) : List UInt8 := lines.flatMap (· ++ [10])

section Push

variable {required : ℕ} {tail : List UInt8}

/-- Everything fits, or the first byte is one that has to go. -/
theorem rtake_cons_room (byte : UInt8) (room : ℕ) :
    (byte :: tail).rtake room = if tail.length + 1 > room then tail.rtake room
      else byte :: tail := by
  split_ifs with full
  · have enough : room ≤ tail.length := by omega
    rw [← List.singleton_append, rtake_append_right enough]
  · exact rtake_of_length_le (by simpa using full)

/-- The loop leaves what fits beside the line, after no more turns than there are bytes. -/
theorem evict_eq (room : required ≤ stderrTailBytes) {fuel : ℕ} (enough : tail.length < fuel) :
    evict required fuel tail = some (tail.rtake (stderrTailBytes - required)) := by
  induction tail generalizing fuel with
  | nil =>
    obtain ⟨fuel, rfl⟩ := Nat.exists_eq_add_one_of_ne_zero (Nat.ne_of_gt enough)
    have fits : ¬saturatingAdd 0 required > stderrTailBytes := by
      unfold saturatingAdd
      omega
    rw [evict, List.length_nil, if_neg fits, List.rtake_nil]
  | cons byte tail ih =>
    obtain ⟨fuel, rfl⟩ := Nat.exists_eq_add_one_of_ne_zero (Nat.ne_of_gt (Nat.zero_lt_of_lt enough))
    have guard_ : saturatingAdd (byte :: tail).length required > stderrTailBytes ↔
        tail.length + 1 > stderrTailBytes - required := by
      simp only [saturatingAdd, usizeMax, List.length_cons, stderrTailBytes] at room ⊢
      omega
    rw [evict, rtake_cons_room, apply_ite some]
    refine if_congr guard_ ?_ rfl
    exact ih (by simpa using enough)

/-- Either way, the deque ends up with the last bytes of what it had and the line. -/
theorem pushStderr_eq (line : List UInt8) {fuel : ℕ} (enough : tail.length < fuel) :
    pushStderr fuel tail line = some ((tail ++ (line ++ [10])).rtake stderrTailBytes) := by
  have terminated : (line ++ [10]).length = line.length + 1 := by simp
  unfold pushStderr
  dsimp only
  by_cases long : saturatingAdd line.length 1 ≥ stderrTailBytes
  · have wide : stderrTailBytes - 1 ≤ line.length := by
      unfold saturatingAdd at long
      omega
    have inside : line.length - (stderrTailBytes - 1) ≤ line.length := Nat.sub_le _ _
    have last : (line ++ [10]).rtake stderrTailBytes =
        line.drop (line.length - (stderrTailBytes - 1)) ++ [10] :=
      List.rtake_concat_succ line (stderrTailBytes - 1) 10
    rw [if_pos long, checkedSub, if_pos wide, Option.bind_eq_bind, Option.bind_some, sliceFrom,
      if_pos inside, rtake_append_right (by omega), last]
    rfl
  · have short : line.length + 1 < stderrTailBytes := by
      simp only [saturatingAdd, usizeMax, stderrTailBytes] at long ⊢
      omega
    have required : saturatingAdd line.length 1 = line.length + 1 := by
      simp only [saturatingAdd, usizeMax, stderrTailBytes] at short ⊢
      omega
    rw [if_neg long, required, evict_eq short.le enough, rtake_append_left (by omega), terminated]
    simp

end Push

/-- Of a stream that comes in lines, the deque always has the last bytes. -/
theorem foldlM_pushStderr (extra : ℕ) (lines : List (List UInt8)) (before : List UInt8) :
    lines.foldlM (pushStderr (stderrTailBytes + 1 + extra)) (before.rtake stderrTailBytes) =
      some ((before ++ stream lines).rtake stderrTailBytes) := by
  induction lines generalizing before with
  | nil => simp [stream]
  | cons line lines ih =>
    have enough : (before.rtake stderrTailBytes).length < stderrTailBytes + 1 + extra := by
      rw [length_rtake]
      omega
    have first : stream (line :: lines) = (line ++ [10]) ++ stream lines := List.flatMap_cons
    rw [List.foldlM_cons, pushStderr_eq line enough, rtake_rtake_append, Option.bind_eq_bind,
      Option.bind_some, ih, first, List.append_assoc]

/-- For any lines, the deque has the last 16 KiB of the stream at the end: no subtraction
underflows, no slice is out of bounds, and no loop takes more turns than the deque has bytes. -/
theorem pushLines_last (lines : List (List UInt8)) (extra : ℕ) :
    pushLines (stderrTailBytes + 1 + extra) lines =
        some ((stream lines).rtake stderrTailBytes) ∧
      ((stream lines).rtake stderrTailBytes).length =
        min (stream lines).length stderrTailBytes := by
  refine ⟨?_, by rw [length_rtake, min_comm]⟩
  have run := foldlM_pushStderr extra lines []
  rwa [List.rtake_nil, List.nil_append] at run

/-! ### The state of a launch -/

section Launches

variable {κ : Type*} (s : LaunchState κ)

theorem makeRoom_eq (required : ℕ) (tail : List UInt8) :
    makeRoom required tail = tail.rtake (stderrTailBytes - required) := by
  induction tail with
  | nil => rw [makeRoom, List.rtake_nil]
  | cons byte tail ih =>
    rw [makeRoom, ih, rtake_cons_room]
    refine if_congr ?_ rfl rfl
    rw [List.length_cons]
    omega

/-- A launch keeps what the deque does. -/
theorem pushStderr_stderrTail (line : List UInt8) {fuel : ℕ}
    (enough : s.stderrTail.length < fuel) :
    pushStderr fuel s.stderrTail line = some (s.pushStderr line).stderrTail := by
  have terminated : (line ++ [10]).length = line.length + 1 := by simp
  rw [pushStderr_eq line enough, LaunchState.pushStderr]
  by_cases long : line.length + 1 ≥ stderrTailBytes
  · rw [if_pos long, rtake_append_right (by omega)]
    exact congrArg some (List.rtake_concat_succ line (stderrTailBytes - 1) 10)
  · rw [if_neg long, rtake_append_left (by omega), makeRoom_eq, terminated, List.append_assoc]

theorem stderrTail_length (line : List UInt8) :
    (s.pushStderr line).stderrTail.length ≤ stderrTailBytes := by
  have pushed := pushStderr_stderrTail s line (Nat.lt_succ_self _)
  rw [pushStderr_eq line (Nat.lt_succ_self _)] at pushed
  rw [← Option.some.inj pushed, length_rtake]
  exact Nat.min_le_left ..

theorem foldlM_stderrTail (extra : ℕ) (lines : List (List UInt8))
    (bounded : s.stderrTail.length ≤ stderrTailBytes) :
    lines.foldlM (pushStderr (stderrTailBytes + 1 + extra)) s.stderrTail =
      some (lines.foldl LaunchState.pushStderr s).stderrTail := by
  induction lines generalizing s with
  | nil => rfl
  | cons line lines ih =>
    rw [List.foldlM_cons, pushStderr_stderrTail s line (by omega), Option.bind_eq_bind,
      Option.bind_some, ih _ (stderrTail_length s line), List.foldl_cons]

theorem pushLines_launch (generation : UInt64) (positive : 0 < generation) (extra : ℕ)
    (lines : List (List UInt8)) :
    pushLines (stderrTailBytes + 1 + extra) lines =
      some (lines.foldl LaunchState.pushStderr
        (LaunchState.new generation positive : LaunchState κ)).stderrTail :=
  foldlM_stderrTail (LaunchState.new generation positive) extra lines (Nat.zero_le _)

end Launches

end AcpAgent.Serve.StderrTail
