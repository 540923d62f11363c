import Mathlib.Data.List.Basic
import Mathlib.Data.List.Nodup
import Mathlib.Tactic.Common

/-!
# How far a list has been worked off

A loop goes through a list from the front, and what it comes to is put down as done. The entries before its position are done, and the
ones from there on are not.
-/

namespace Progress

variable {ι : Type*}

/-- The entries before `k` are done, and no others. -/
def DoneTo (done v : List ι) (k : Nat) : Prop := ∀ j i, v[j]? = some i → (i ∈ done ↔ j < k)

variable {done v : List ι} {i : ι} {k : Nat}

theorem doneTo_nil (done : List ι) (k : Nat) : DoneTo done [] k := nofun

theorem doneTo_zero_iff : DoneTo done v 0 ↔ ∀ i ∈ v, i ∉ done := by
  constructor
  · intro h i hi hdone
    obtain ⟨j, hj⟩ := List.mem_iff_getElem?.mp hi
    exact Nat.not_lt_zero j ((h j i hj).mp hdone)
  · intro h j i hj
    refine ⟨fun hdone => absurd hdone (h i (List.mem_of_getElem? hj)), fun hlt => absurd hlt (Nat.not_lt_zero j)⟩

/-- Something that has not been done comes to the end of the list. -/
theorem DoneTo.concat (h : DoneTo done v k) (hk : k ≤ v.length) (hi : i ∉ done) : DoneTo done (v ++ [i]) k := by
  intro j i' hj
  by_cases hlt : j < v.length
  · rw [List.getElem?_append_left hlt] at hj
    exact h j i' hj
  · have hge := Nat.not_lt.mp hlt
    rw [List.getElem?_append_right hge] at hj
    obtain rfl := List.mem_singleton.mp (List.mem_of_getElem? hj)
    exact ⟨fun hdone => absurd hdone hi, fun hjk => absurd (Nat.lt_of_lt_of_le hjk hk) hlt⟩

/-- The entry at the position is done. -/
theorem DoneTo.next (h : DoneTo done v k) (hnodup : v.Nodup) (hi : v[k]? = some i) : DoneTo (done ++ [i]) v (k + 1) := by
  intro j i' hj
  rw [List.mem_append, List.mem_singleton, h j i' hj, Nat.lt_succ_iff_lt_or_eq]
  refine or_congr_right ⟨?_, ?_⟩
  · rintro rfl
    exact (List.getElem?_inj (List.getElem?_eq_some_iff.mp hj).1 hnodup).mp (hj.trans hi.symm)
  · rintro rfl
    exact Option.some.inj (hj.symm.trans hi)

/-- Something that is not in the list is done. -/
theorem DoneTo.other (h : DoneTo done v k) (hi : i ∉ v) : DoneTo (done ++ [i]) v k := by
  intro j i' hj
  rw [List.mem_append, List.mem_singleton, h j i' hj]
  refine ⟨fun hor => hor.resolve_right ?_, Or.inl⟩
  rintro rfl
  exact hi (List.mem_of_getElem? hj)

/-- The entry at the position has not been done. -/
theorem DoneTo.not_mem (h : DoneTo done v k) (hi : v[k]? = some i) : i ∉ done :=
  fun hdone => Nat.lt_irrefl k ((h k i hi).mp hdone)

/-- Where anything in the list has been done, its first entry has. -/
theorem DoneTo.head_mem (h : DoneTo done v k) (hi : i ∈ v) (hdone : i ∈ done) : ∃ first rest, v = first :: rest ∧ first ∈ done := by
  obtain ⟨j, hj⟩ := List.mem_iff_getElem?.mp hi
  have hk : 0 < k := Nat.zero_lt_of_lt ((h j i hj).mp hdone)
  cases v with
  | nil => cases hi
  | cons first rest => exact ⟨first, rest, rfl, (h 0 first rfl).mpr hk⟩

/-- A list that has been worked off to its end. -/
theorem DoneTo.mem_of_le (h : DoneTo done v k) (hk : v.length ≤ k) (hi : i ∈ v) : i ∈ done := by
  obtain ⟨j, hj⟩ := List.mem_iff_getElem?.mp hi
  exact (h j i hj).mpr (Nat.lt_of_lt_of_le (List.getElem?_eq_some_iff.mp hj).1 hk)

end Progress
