import Mathlib.Data.List.Nodup
import Mathlib.Order.Lattice

/-! A register that keeps, of all values written to it, the one with the highest stamp. -/

/-- What is kept, with its stamp. -/
structure Register (ι α : Type*) where
  stamp : ι
  value : α

namespace Register

variable {ι α : Type*} [LinearOrder ι] (r : Register ι α)

def write (w : ι × α) : Register ι α := if r.stamp < w.1 then ⟨w.1, w.2⟩ else r

def writes (ws : List (ι × α)) : Register ι α := ws.foldl write r

theorem write_newer {w : ι × α} (newer : r.stamp < w.1) : r.write w = ⟨w.1, w.2⟩ := if_pos newer

theorem write_older {w : ι × α} (older : w.1 ≤ r.stamp) : r.write w = r :=
  if_neg (not_lt.mpr older)

theorem write_comm {v w : ι × α} (distinct : v.1 ≠ w.1) :
    (r.write v).write w = (r.write w).write v := by
  rcases lt_or_ge r.stamp v.1 with hv | hv
  · rw [write_newer r hv]
    rcases lt_or_gt_of_ne distinct with less | more
    · rw [write_newer r (hv.trans less), write_newer ⟨v.1, v.2⟩ less,
        write_older ⟨w.1, w.2⟩ less.le]
    · rw [write_older ⟨v.1, v.2⟩ more.le]
      rcases lt_or_ge r.stamp w.1 with hw | hw
      · rw [write_newer r hw, write_newer ⟨w.1, w.2⟩ more]
      · rw [write_older r hw, write_newer r hv]
  · rw [write_older r hv]
    rcases lt_or_ge r.stamp w.1 with hw | hw
    · rw [write_newer r hw, write_older ⟨w.1, w.2⟩ (hv.trans hw.le)]
    · rw [write_older r hw, write_older r hv]

/-- The order of writes with distinct stamps plays no part. -/
theorem writes_perm {ws ws' : List (ι × α)} (same : ws.Perm ws')
    (distinct : (ws.map Prod.fst).Nodup) : r.writes ws = r.writes ws' := by
  apply same.foldl_eq'
  intro v hv w hw r
  by_cases eq : v = w
  · rw [eq]
  · apply write_comm
    intro stamp
    exact eq (List.inj_on_of_nodup_map distinct hv hw stamp)

theorem writes_older {ws : List (ι × α)} (older : ∀ w ∈ ws, w.1 ≤ r.stamp) : r.writes ws = r := by
  induction ws with
  | nil => rfl
  | cons w ws ih =>
    obtain ⟨first, rest⟩ := List.forall_mem_cons.mp older
    rw [writes, List.foldl_cons, write_older r first]
    exact ih rest

/-- The write with the highest stamp decides. -/
theorem writes_highest {ws : List (ι × α)} (distinct : (ws.map Prod.fst).Nodup) {stamp : ι}
    {value : α} (hw : (stamp, value) ∈ ws) (newer : r.stamp < stamp)
    (highest : ∀ v ∈ ws, v.1 ≤ stamp) : r.writes ws = ⟨stamp, value⟩ := by
  obtain ⟨before, after, rfl⟩ := List.append_of_mem hw
  rw [writes_perm r List.perm_middle distinct, writes, List.foldl_cons, write_newer r newer]
  apply writes_older
  intro v hv
  apply highest
  rcases List.mem_append.mp hv with early | late
  · exact List.mem_append_left _ early
  · exact List.mem_append_right _ (List.mem_cons_of_mem _ late)

end Register
