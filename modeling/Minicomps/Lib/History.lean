import Mathlib.Data.List.Basic
import Mathlib.Data.List.Nodup
import Mathlib.Tactic.Common

/-!
# Histories of a system with queues

A history is the list of what has happened, in order. Two kinds of facts about it are kept along a run: every entry is justified
by the entries before it; and, for items that wait in queues between two kinds of entries, what has left the queues and what is
still in them is exactly what has entered, in order on each queue.
-/

namespace History

variable {ε ρ π : Type*}

/-! ## Entries justified by what came before -/

/-- Each entry of the history is justified by the entries before it. -/
def AllJustified (J : List ε → ε → Prop) (h : List ε) : Prop := ∀ pre e post, h = pre ++ e :: post → J pre e

section AllJustified

variable {J : List ε → ε → Prop} {h : List ε} {e : ε}

theorem allJustified_nil : AllJustified J [] := by
  intro pre e post hh
  cases pre <;> cases hh

/-- A history goes on with an entry that it justifies. -/
theorem AllJustified.snoc (hh : AllJustified J h) (he : J h e) : AllJustified J (h ++ [e]) := by
  intro pre e' post heq
  rcases List.eq_nil_or_concat post with rfl | ⟨post, last, rfl⟩
  · obtain ⟨rfl, hlast⟩ := List.append_inj' heq rfl
    exact List.cons.inj hlast |>.1 ▸ he
  · have hsplit : h ++ [e] = (pre ++ e' :: post) ++ [last] := by rw [heq]; simp
    obtain ⟨hpre, -⟩ := List.append_inj' hsplit rfl
    exact hh pre e' post hpre

/-- A history goes on with entries that need no justification. -/
theorem AllJustified.append (hh : AllJustified J h) {added : List ε} (hadded : ∀ e ∈ added, ∀ pre, J pre e) :
    AllJustified J (h ++ added) := by
  induction added generalizing h with
  | nil => rwa [List.append_nil]
  | cons e added ih =>
    rw [List.append_cons]
    exact ih (hh.snoc (hadded e List.mem_cons_self h)) fun e' he' => hadded e' (List.mem_cons_of_mem e he')

end AllJustified

/-! ## What enters and leaves queues -/

/-- Items enter the queue their `path` names, and leave it at the front: on each path, what has left, followed by what is in the
queue, is what has entered. -/
def Balanced [DecidableEq π] (path : ρ → π) (queue : π → List ρ) (entered left : List ρ) : Prop :=
  ∀ p, left.filter (fun r => decide (path r = p)) ++ queue p = entered.filter (fun r => decide (path r = p))

section Balanced

variable [DecidableEq π] {path : ρ → π} {queue queue' : π → List ρ} {entered left : List ρ} {r : ρ}

theorem balanced_nil (h : ∀ p, queue p = []) : Balanced path queue [] [] := by
  intro p
  rw [h p]
  rfl

/-- An item enters at the end of its queue. -/
theorem Balanced.enter (h : Balanced path queue entered left) (hself : queue' (path r) = queue (path r) ++ [r])
    (hother : ∀ p, p ≠ path r → queue' p = queue p) : Balanced path queue' (entered ++ [r]) left := by
  intro p
  by_cases hp : path r = p
  · subst hp
    rw [hself, ← List.append_assoc, h, List.filter_append, List.filter_cons_of_pos (by simp), List.filter_nil]
  · rw [hother p (Ne.symm hp), h, List.filter_append, List.filter_cons_of_neg (by simp [hp]), List.filter_nil, List.append_nil]

/-- An item leaves at the front of its queue. -/
theorem Balanced.leave (h : Balanced path queue entered left) (hself : queue (path r) = r :: queue' (path r))
    (hother : ∀ p, p ≠ path r → queue' p = queue p) : Balanced path queue' entered (left ++ [r]) := by
  intro p
  rw [← h p, List.filter_append]
  by_cases hp : path r = p
  · subst hp
    rw [hself, List.filter_cons_of_pos (by simp), List.filter_nil, List.append_assoc]
    rfl
  · rw [hother p (Ne.symm hp), List.filter_cons_of_neg (by simp [hp]), List.filter_nil, List.append_nil]

theorem Balanced.congr (h : Balanced path queue entered left) (hq : ∀ p, queue' p = queue p) :
    Balanced path queue' entered left := by
  intro p
  rw [hq p, h p]

/-- What has left had entered. -/
theorem Balanced.entered_of_left (h : Balanced path queue entered left) (hr : r ∈ left) : r ∈ entered := by
  have hmem : r ∈ entered.filter fun r' => decide (path r' = path r) := by
    rw [← h (path r)]
    exact List.mem_append_left _ (List.mem_filter.mpr ⟨hr, by simp⟩)
  exact List.mem_of_mem_filter hmem

/-- What has entered has left, or is still in its queue. -/
theorem Balanced.left_or_queued (h : Balanced path queue entered left) (hr : r ∈ entered) :
    r ∈ left ∨ r ∈ queue (path r) := by
  have hmem : r ∈ left.filter (fun r' => decide (path r' = path r)) ++ queue (path r) := by
    rw [h (path r)]
    exact List.mem_filter.mpr ⟨hr, by simp⟩
  rcases List.mem_append.mp hmem with hleft | hqueue
  · exact Or.inl (List.mem_of_mem_filter hleft)
  · exact Or.inr hqueue

/-- On each path, items leave in the order in which they entered. -/
theorem Balanced.isPrefix (h : Balanced path queue entered left) (p : π) :
    left.filter (fun r => decide (path r = p)) <+: entered.filter (fun r => decide (path r = p)) :=
  ⟨queue p, h p⟩

/-- What entered once leaves once. -/
theorem Balanced.nodup_left (h : Balanced path queue entered left) (hnodup : entered.Nodup) : left.Nodup := by
  classical
  rw [List.nodup_iff_count_le_one] at hnodup ⊢
  intro r
  have hcount : (left.filter fun r' => decide (path r' = path r)).count r ≤
      (entered.filter fun r' => decide (path r' = path r)).count r := (h.isPrefix (path r)).sublist.count_le r
  rw [List.count_filter (by simp), List.count_filter (by simp)] at hcount
  exact Nat.le_trans hcount (hnodup r)

/-- Items that entered with different keys have left with different keys. -/
theorem Balanced.nodup_map_left {κ : Type*} {key : ρ → κ} (h : Balanced path queue entered left)
    (hnodup : (entered.map key).Nodup) : (left.map key).Nodup := by
  refine List.Nodup.map_on ?_ (h.nodup_left hnodup.of_map)
  intro r hr r' hr' heq
  exact List.inj_on_of_nodup_map hnodup (h.entered_of_left hr) (h.entered_of_left hr') heq

end Balanced

end History
