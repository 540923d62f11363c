import Minicomps.Lib.Progress
import Minicomps.Lib.Transition
import Minicomps.NestedExecution

/-!
# When nested calls of `execute` start every item once

An `execute()` called by an item leaves the outer batch in `work_items_`, started items and all, since it is the other vector that is
cleared. This does no harm until the vectors are exchanged again.
-/

namespace Minicomps

open Transition Progress

namespace NestedExecutionAux

open NestedExecutor

/-- The loops there can be while no started item is swapped in: one goes through the back buffer, and one, below it, through `work_items_`. -/
inductive Shape (e : Executor Nat) (started : List Nat) : List ItemLoop → Prop
  | idle (k : Nat) (hk : k ≤ e.workItems.length) (hwork : DoneTo started e.workItems k) (hback : e.workItemsBackBuffer = []) :
    Shape e started []
  | batch (p : Nat) (hp : p < e.workItemsBackBuffer.length) (hwork : DoneTo started e.workItems 0)
    (hback : DoneTo started e.workItemsBackBuffer (p + 1)) :
    Shape e started [{ inBack := true, position := p, size := e.workItemsBackBuffer.length }]
  | nested (p p' n : Nat) (hp : p < e.workItemsBackBuffer.length) (hp' : p' < n) (hn : n ≤ e.workItems.length)
    (hwork : DoneTo started e.workItems (p' + 1)) (hback : DoneTo started e.workItemsBackBuffer (p + 1)) :
    Shape e started
      [{ inBack := true, position := p, size := e.workItemsBackBuffer.length }, { inBack := false, position := p', size := n }]
  | resumed (p' n : Nat) (hp' : p' < n) (hn : n ≤ e.workItems.length) (hwork : DoneTo started e.workItems (p' + 1))
    (hback : e.workItemsBackBuffer = []) : Shape e started [{ inBack := false, position := p', size := n }]

structure Inv (s : NestedExecutor) : Prop where
  tracked : s.executor.Tracked s.started s.enqueued
  shape : Shape s.executor s.started s.loops
  defined : s.dangling = false

variable {s s' : NestedExecutor}

theorem inv_init : Inv init :=
  ⟨Executor.tracked_empty, .idle 0 (Nat.zero_le _) (doneTo_nil [] 0) rfl, rfl⟩

/-- What has not been started is ahead of the loop through the back buffer, or in `work_items_`. -/
theorem itemsOnce (h : Inv s) : s.ItemsOnce := by
  refine ⟨h.tracked.once, fun i hi => ?_, h.defined⟩
  by_cases hdone : i ∈ s.started
  · exact Or.inl hdone
  refine Or.inr (List.mem_append.mpr ?_)
  rcases List.mem_append.mp ((h.tracked.kept i hi).resolve_left hdone) with hwork | hback
  · exact Or.inr hwork
  -- an item of the back buffer is ahead of the loop that goes through it
  have hahead : ∀ p, DoneTo s.started s.executor.workItemsBackBuffer (p + 1) →
      i ∈ s.ahead { inBack := true, position := p, size := s.executor.workItemsBackBuffer.length } := by
    intro p hp
    obtain ⟨j, hj⟩ := List.mem_iff_getElem?.mp hback
    have hge : p + 1 ≤ j := Nat.not_lt.mp fun hlt => hdone ((hp j i hj).mpr hlt)
    refine List.mem_of_getElem? (i := j - (p + 1)) ?_
    simp only [ahead, ItemLoop.items, if_true, List.take_length]
    rw [List.getElem?_drop, Nat.add_sub_cancel' hge]
    exact hj
  have hshape := h.shape
  generalize hloops : s.loops = loops at hshape
  cases hshape with
  | idle k hk hwork hnil | resumed p' n hp' hn hwork hnil =>
    rw [hnil] at hback
    cases hback
  | batch p hp hwork hdoneBack => exact Or.inl (List.mem_flatMap.mpr ⟨_, List.mem_cons_self, hahead p hdoneBack⟩)
  | nested p p' n hp hp' hn hwork hdoneBack => exact Or.inl (List.mem_flatMap.mpr ⟨_, List.mem_cons_self, hahead p hdoneBack⟩)

/-! ## Steps -/

theorem inv_enqueueWork (h : Inv s) {grow : Bool} (hgrow : s.LeavesStarted (.enqueueWork grow)) : Inv (s.enqueueWork grow) := by
  have hnew := h.tracked.not_started
  refine ⟨h.tracked.enqueueWork, ?_, ?_⟩
  · have hshape := h.shape
    have hlength : s.executor.workItems.length ≤ (s.executor.workItems ++ [s.enqueued]).length := by simp
    show Shape (s.executor.enqueueWork s.enqueued) s.started s.loops
    generalize s.loops = loops at hshape
    cases hshape with
    | idle k hk hwork hback => exact .idle k (Nat.le_trans hk hlength) (hwork.concat hk hnew) hback
    | batch p hp hwork hback => exact .batch p hp (hwork.concat (Nat.zero_le _) hnew) hback
    | nested p p' n hp hp' hn hwork hback =>
      exact .nested p p' n hp hp' (Nat.le_trans hn hlength) (hwork.concat (Nat.le_trans hp' hn) hnew) hback
    | resumed p' n hp' hn hwork hback =>
      exact .resumed p' n hp' (Nat.le_trans hn hlength) (hwork.concat (Nat.le_trans hp' hn) hnew) hback
  · show (grow && s.loops.any fun l => !l.inBack) = false
    cases grow with
    | false => rfl
    | true =>
      refine List.any_eq_false.mpr fun l hl => ?_
      rw [hgrow rfl l hl]
      exact Bool.false_ne_true

/-- `execute()` starts the first item of a vector that has not been started from. -/
theorem inv_execute (h : Inv s) (hfresh : s.LeavesStarted .execute) : Inv s.execute := by
  have hzero : DoneTo s.started s.executor.workItems 0 := doneTo_zero_iff.mpr hfresh
  have hnot : ∀ p' n, p' < n → n ≤ s.executor.workItems.length → ¬DoneTo s.started s.executor.workItems (p' + 1) := by
    intro p' n hp' hn hdone
    have hpos : 0 < s.executor.workItems.length := Nat.lt_of_lt_of_le (Nat.zero_lt_of_lt hp') hn
    have hfirst := List.getElem?_eq_getElem hpos
    exact hzero.not_mem hfirst ((hdone 0 _ hfirst).mpr (Nat.succ_pos p'))
  have hswap := h.tracked.swap
  have hshape := h.shape
  unfold NestedExecutor.execute
  cases hitems : s.executor.workItems with
  | nil =>
    have hback : s.executor.swap.workItemsBackBuffer = [] := hitems
    simp only [hback]
    refine ⟨hswap.clear (by rw [hback]; nofun), ?_, h.defined⟩
    show Shape s.executor.swap.clear s.started (s.loops.map ItemLoop.exchanged)
    generalize s.loops = loops at hshape
    cases hshape with
    | idle k hk hwork hnil =>
      have hdone : DoneTo s.started s.executor.swap.clear.workItems 0 := by
        rw [Executor.workItems_clear, Executor.workItems_swap, hnil]
        exact doneTo_nil _ 0
      exact .idle 0 (Nat.zero_le _) hdone rfl
    | batch p hp hwork hdone => exact .resumed p _ hp (Nat.le_refl _) hdone rfl
    | nested p p' n hp hp' hn hwork | resumed p' n hp' hn hwork => exact absurd hwork (hnot p' n hp' hn)
  | cons item rest =>
    have hback : s.executor.swap.workItemsBackBuffer = item :: rest := hitems
    have hmem : item ∈ s.executor.workItems := hitems ▸ List.mem_cons_self
    simp only [hback]
    refine ⟨hswap.start (List.mem_append_right _ (hback ▸ List.mem_cons_self)) (hfresh item hmem), ?_, h.defined⟩
    show Shape s.executor.swap (s.started ++ [item])
      ({ inBack := true, position := 0, size := (item :: rest).length } :: s.loops.map ItemLoop.exchanged)
    have hother := h.tracked.not_mem_back hmem
    have hfirst : DoneTo (s.started ++ [item]) s.executor.swap.workItemsBackBuffer (0 + 1) :=
      hzero.next h.tracked.distinct.of_append_left (by rw [hitems]; rfl)
    rw [← hback]
    have hpos : 0 < s.executor.swap.workItemsBackBuffer.length := by rw [hback]; exact Nat.succ_pos _
    generalize s.loops = loops at hshape
    cases hshape with
    | idle k hk hwork hnil =>
      refine .batch 0 hpos ?_ hfirst
      rw [Executor.workItems_swap, hnil]
      exact doneTo_nil _ 0
    | batch p hp hwork hdone => exact .nested 0 p _ hpos hp (Nat.le_refl _) (hdone.other hother) hfirst
    | nested p p' n hp hp' hn hwork | resumed p' n hp' hn hwork => exact absurd hwork (hnot p' n hp' hn)

/-- A loop through the back buffer goes on, or ends with the clearing of what it has worked off. -/
theorem inv_advance_back (h : Inv s) {p : Nat} {loops : List ItemLoop}
    (hback : DoneTo s.started s.executor.workItemsBackBuffer (p + 1))
    (hnext : ∀ i, s.executor.workItemsBackBuffer[p + 1]? = some i →
      Shape s.executor (s.started ++ [i]) ({ inBack := true, position := p + 1, size := s.executor.workItemsBackBuffer.length } :: loops))
    (hend : Shape s.executor.clear s.started loops) :
    Inv (s.advance { inBack := true, position := p, size := s.executor.workItemsBackBuffer.length } loops) := by
  unfold advance
  by_cases hlt : p + 1 < s.executor.workItemsBackBuffer.length
  · have hi := List.getElem?_eq_getElem hlt
    simp only [if_pos hlt, ItemLoop.items, if_true, hi]
    exact ⟨h.tracked.start (List.mem_append_right _ (List.getElem_mem hlt)) (hback.not_mem hi), hnext _ hi, h.defined⟩
  · simp only [if_neg hlt]
    exact ⟨h.tracked.clear fun i hi => hback.mem_of_le (Nat.not_lt.mp hlt) hi, hend, h.defined⟩

theorem inv_advance (h : Inv s) {l : ItemLoop} {loops : List ItemLoop} (hloops : s.loops = l :: loops) : Inv (s.advance l loops) := by
  have hshape := h.shape
  rw [hloops] at hshape
  have hwork : s.executor.workItems.Nodup := h.tracked.distinct.of_append_left
  have hbackNodup : s.executor.workItemsBackBuffer.Nodup := h.tracked.distinct.of_append_right
  have hother : ∀ {j i}, s.executor.workItemsBackBuffer[j]? = some i → i ∉ s.executor.workItems :=
    fun hj hi => h.tracked.not_mem_back hi (List.mem_of_getElem? hj)
  cases hshape with
  | batch p hp hzero hback =>
    refine inv_advance_back h hback (fun i hi => ?_) (.idle 0 (Nat.zero_le _) hzero rfl)
    exact .batch (p + 1) (List.getElem?_eq_some_iff.mp hi).1 (hzero.other (hother hi)) (hback.next hbackNodup hi)
  | nested p p' n hp hp' hn hdone hback =>
    refine inv_advance_back h hback (fun i hi => ?_) (.resumed p' n hp' hn hdone rfl)
    exact .nested (p + 1) p' n (List.getElem?_eq_some_iff.mp hi).1 hp' hn (hdone.other (hother hi)) (hback.next hbackNodup hi)
  | resumed p' n hp' hn hdone hnil =>
    unfold advance
    by_cases hlt : p' + 1 < n
    · have hi := List.getElem?_eq_getElem (Nat.lt_of_lt_of_le hlt hn)
      simp only [if_pos hlt, ItemLoop.items, Bool.false_eq_true, if_false, hi]
      refine ⟨h.tracked.start (List.mem_append_left _ (List.mem_of_getElem? hi)) (hdone.not_mem hi), ?_, h.defined⟩
      exact .resumed (p' + 1) n hlt hn (hdone.next hwork hi) hnil
    · simp only [if_neg hlt]
      refine ⟨h.tracked.clear (by rw [hnil]; nofun), .idle (p' + 1) (Nat.le_trans hp' hn) hdone rfl, h.defined⟩

theorem inv_step (h : Inv s) {a : NestedAction} (ha : s.LeavesStarted a) (hs : s.step a = some s') : Inv s' := by
  simp only [step, h.defined, Bool.false_eq_true, if_false] at hs
  cases a with
  | enqueueWork grow =>
    obtain rfl := Option.some.inj hs
    exact inv_enqueueWork h ha
  | execute =>
    obtain rfl := Option.some.inj hs
    exact inv_execute h ha
  | finish =>
    cases hloops : s.loops with
    | nil =>
      rw [hloops] at hs
      cases hs
    | cons l loops =>
      rw [hloops] at hs
      obtain rfl := Option.some.inj hs
      exact inv_advance h hloops

/-- How far `work_items_` has been worked off. -/
theorem work_doneTo (h : Inv s) : ∃ k, DoneTo s.started s.executor.workItems k := by
  have hshape := h.shape
  generalize s.loops = loops at hshape
  cases hshape with
  | idle k hk hwork | batch k hp hwork | nested k p' n hp hp' hn hwork | resumed p' n hp' hn hwork => exact ⟨_, hwork⟩

/-- Any other step starts an item again, or leaves a loop without its elements. -/
theorem not_itemsOnce (h : Inv s) {a : NestedAction} (ha : ¬s.LeavesStarted a) : ∃ s', s.step a = some s' ∧ ¬s'.ItemsOnce := by
  simp only [step, h.defined, Bool.false_eq_true, if_false]
  cases a with
  | enqueueWork grow =>
    refine ⟨_, rfl, fun honce => ha ?_⟩
    rintro rfl l hl
    have hdangling := honce.defined
    simp only [enqueueWork, Bool.true_and, List.any_eq_false, Bool.not_eq_true', Bool.not_eq_false] at hdangling
    exact hdangling l hl
  | execute =>
    refine ⟨_, rfl, fun honce => ha fun i hi hdone => ?_⟩
    obtain ⟨k, hk⟩ := work_doneTo h
    obtain ⟨item, rest, hitems, hstarted⟩ := hk.head_mem hi hdone
    have hback : s.executor.swap.workItemsBackBuffer = item :: rest := hitems
    have hnodup := honce.once
    simp only [NestedExecutor.execute, hback] at hnodup
    exact (List.nodup_append.mp hnodup).2.2 item hstarted item (List.mem_singleton_self item) rfl
  | finish => exact absurd trivial ha

end NestedExecutionAux

namespace NestedExecutor

open NestedExecutionAux

/-- No item is started twice and none is dropped, in a run, exactly as long as `execute()` is called while `work_items_` has nothing in it
that was started before, and the vector does not grow under a loop. -/
theorem itemsOnce_iff (acts : List NestedAction) :
    (∀ pre t, pre <+: acts → run step init pre = some t → t.ItemsOnce) ↔ AllSteps step LeavesStarted init acts :=
  (allSteps_iff_safe (fun _ h => itemsOnce h) (fun _ _ _ h ha hs => inv_step h ha hs) (fun _ _ h ha => not_itemsOnce h ha) inv_init).symm

/-- An item calls `execute()`, and runs again in the next one. -/
theorem item_startedAgain : ¬∀ acts pre t, pre <+: acts → run step init pre = some t → t.ItemsOnce := by
  intro h
  have honce := h [.enqueueWork true, .execute, .execute, .finish, .execute] _ _ (List.prefix_refl _) rfl
  exact absurd honce.once (by decide)

end NestedExecutor

end Minicomps
