import Minicomps.ExecutorFailures
import Minicomps.Lib.Progress
import Minicomps.Lib.Transition

/-!
# When the work queue survives exceptions

A batch that an exception has cut off stays in the back buffer, started items and all. The next `execute()` brings it to `work_items_`,
and the one after that would run it again. An enqueueing that fails is never repaired: the mutex stays locked.
-/

namespace Minicomps

open Transition Progress

namespace ExecutorFailuresAux

open FailingExecutor

/-- Both vectors have been worked off up to some item, the back buffer up to where the running loop is. -/
structure Inv (s : FailingExecutor) : Prop where
  tracked : s.executor.Tracked s.started s.enqueued
  mutexFree : s.mutexFree = true
  work : ∃ k ≤ s.executor.workItems.length, DoneTo s.started s.executor.workItems k
  back : ∃ k ≤ s.executor.workItemsBackBuffer.length, DoneTo s.started s.executor.workItemsBackBuffer k ∧
    (s.running = true → k = s.executor.position)

variable {s s' : FailingExecutor}

theorem inv_init : Inv init :=
  ⟨Executor.tracked_empty, rfl, ⟨0, Nat.le_refl 0, doneTo_nil [] 0⟩, ⟨0, Nat.le_refl 0, doneTo_nil [] 0, nofun⟩⟩

theorem itemsKept (h : Inv s) : s.ItemsKept := ⟨h.tracked.once, h.tracked.kept⟩

/-! ## Steps -/

theorem inv_enqueueWork (h : Inv s) : Inv { s with executor := s.executor.enqueueWork s.enqueued, enqueued := s.enqueued + 1 } := by
  obtain ⟨k, hk, hwork⟩ := h.work
  refine ⟨h.tracked.enqueueWork, h.mutexFree, ⟨k, ?_, hwork.concat hk h.tracked.not_started⟩, h.back⟩
  rw [Executor.workItems_enqueueWork, List.length_append]
  exact Nat.le_add_right_of_le hk

/-- A loop whose vector has been worked off to its position goes on, or clears what it has worked off. -/
theorem inv_advance (h : Inv s) (hback : DoneTo s.started s.executor.workItemsBackBuffer s.executor.position) : Inv s.advance := by
  obtain ⟨k, hk, hwork⟩ := h.work
  unfold advance
  rcases s.executor.next_cases with ⟨item, hi, hnext⟩ | ⟨hend, hnext⟩
  · have htracked := h.tracked.next hnext (hback.not_mem hi)
    have hother : item ∉ s.executor.workItems := fun hw => h.tracked.not_mem_back hw (List.mem_of_getElem? hi)
    simp only [hnext]
    refine ⟨htracked, h.mutexFree, ⟨k, hk, hwork.other hother⟩, ?_⟩
    refine ⟨s.executor.position + 1, (List.getElem?_eq_some_iff.mp hi).1, ?_, fun _ => rfl⟩
    exact hback.next h.tracked.distinct.of_append_right hi
  · simp only [hnext]
    refine ⟨h.tracked.clear fun i hi => hback.mem_of_le hend hi, h.mutexFree, ⟨k, hk, hwork⟩, ?_⟩
    exact ⟨0, Nat.le_refl 0, doneTo_nil _ 0, nofun⟩

/-- `execute()` with a vector that has not been started from. -/
theorem inv_execute (h : Inv s) (hfresh : ∀ item ∈ s.executor.workItems, item ∉ s.started) :
    Inv { s with executor := s.executor.swap }.advance := by
  have hzero : DoneTo s.started s.executor.workItems 0 := doneTo_zero_iff.mpr hfresh
  obtain ⟨k, hk, hback, -⟩ := h.back
  refine inv_advance ⟨h.tracked.swap, h.mutexFree, ⟨k, hk, hback⟩, ⟨0, Nat.zero_le _, hzero, fun _ => rfl⟩⟩ hzero

/-- `execute()` with a vector that has been started from starts its first item once more. -/
theorem not_itemsKept_execute (h : Inv s) {item : Nat} (hitem : item ∈ s.executor.workItems) (hstarted : item ∈ s.started) :
    ¬{ s with executor := s.executor.swap }.advance.ItemsKept := by
  obtain ⟨k, -, hwork⟩ := h.work
  obtain ⟨first, rest, hitems, hfirst⟩ := hwork.head_mem hitem hstarted
  have hnext : s.executor.swap.next = some (first, { s.executor.swap with position := 1 }) := by
    simp [Executor.next, Executor.swap, hitems]
  intro hkept
  have honce := hkept.once
  simp only [advance, hnext] at honce
  exact (List.nodup_append.mp honce).2.2 first hfirst first (List.mem_singleton_self first) rfl

theorem inv_step (h : Inv s) {a : FailingAction} (ha : s.Unfailing a) (hs : s.step a = some s') : Inv s' := by
  cases a with
  | enqueueWork =>
    simp only [step, Option.ite_none_right_eq_some] at hs
    obtain ⟨-, hs⟩ := hs
    obtain rfl := Option.some.inj hs
    exact inv_enqueueWork h
  | enqueueFails f => exact absurd ha id
  | execute =>
    simp only [step, Option.ite_none_right_eq_some] at hs
    obtain ⟨⟨-, hidle⟩, hs⟩ := hs
    obtain rfl := Option.some.inj hs
    exact inv_execute h (ha hidle)
  | finish =>
    simp only [step, Option.ite_none_right_eq_some] at hs
    obtain ⟨hrunning, hs⟩ := hs
    obtain rfl := Option.some.inj hs
    obtain ⟨k, -, hback, hk⟩ := h.back
    exact inv_advance h (hk hrunning ▸ hback)
  | throw =>
    simp only [step, Option.ite_none_right_eq_some] at hs
    obtain ⟨-, hs⟩ := hs
    obtain rfl := Option.some.inj hs
    obtain ⟨k, hk, hback, -⟩ := h.back
    exact ⟨h.tracked, h.mutexFree, h.work, ⟨k, hk, hback, nofun⟩⟩

/-- A step is safe exactly when it meets the condition. -/
theorem failsSafely_iff_unfailing (h : Inv s) (a : FailingAction) : s.FailsSafely a ↔ s.Unfailing a := by
  constructor
  · intro hsafe
    cases a with
    | enqueueWork | finish | throw => trivial
    | enqueueFails f =>
      have hstep : s.step (.enqueueFails f) = some { s with executor := s.failedEnqueue f, mutexFree := false } := if_pos h.mutexFree
      exact absurd ((hsafe _ hstep).2 f rfl).2 Bool.false_ne_true
    | execute =>
      intro hidle item hitem hstarted
      have hstep : s.step .execute = some { s with executor := s.executor.swap }.advance := if_pos ⟨h.mutexFree, hidle⟩
      exact not_itemsKept_execute h hitem hstarted (hsafe _ hstep).1
  · intro ha s' hs
    refine ⟨itemsKept (inv_step h ha hs), ?_⟩
    rintro f rfl
    exact absurd ha id

end ExecutorFailuresAux

namespace FailingExecutor

open ExecutorFailuresAux

/-- Items are started once and kept, and a failed enqueueing is undone, exactly as long as none fails and no `execute()` comes to a batch that
an exception has cut off. -/
theorem failsSafely_iff (acts : List FailingAction) : AllSteps step FailsSafely init acts ↔ AllSteps step Unfailing init acts :=
  allSteps_congr_of (fun _ _ _ h ha hs => inv_step h ha hs) (fun _ a h => failsSafely_iff_unfailing h a) inv_init

/-- An item throws, and the second `execute()` after that starts it again. -/
theorem throw_startsAgain : ¬∀ acts, AllSteps step FailsSafely init acts := by
  intro h
  have hlast := allSteps_iff.mp (h [.enqueueWork, .execute, .throw, .execute, .execute])
    [.enqueueWork, .execute, .throw, .execute] .execute [] _ rfl rfl
  exact absurd (hlast _ rfl).1.once (by decide)

end FailingExecutor

end Minicomps
