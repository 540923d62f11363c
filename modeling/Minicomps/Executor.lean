import Mathlib.Data.List.Basic
import Mathlib.Data.List.Nodup
import Mathlib.Logic.Function.Basic

/-!
# The work queue

`executor` owns two vectors: producers append to one while the items of the other are run. They are exchanged at the start of
each batch. Here are the pieces of `enqueue_work` and `execute` that touch the vectors, one function each.
-/

namespace Minicomps

/-- The identity of a thread. -/
abbrev ThreadId := Nat

/-- The vectors of an `executor`, and how many items of the back buffer the loop of `execute` has started. -/
structure Executor (τ : Type*) where
  workItems : List τ := []
  workItemsBackBuffer : List τ := []
  position : Nat := 0
  deriving DecidableEq, Repr

namespace Executor

variable {τ : Type*}

/-- What `enqueue_work` does while it holds the mutex. -/
def enqueueWork (e : Executor τ) (item : τ) : Executor τ := { e with workItems := e.workItems ++ [item] }

/-- What `execute` does while it holds the mutex. The loop then starts at the front. -/
def swap (e : Executor τ) : Executor τ :=
  { workItems := e.workItemsBackBuffer, workItemsBackBuffer := e.workItems, position := 0 }

/-- The next item of the loop, if there is one. -/
def next (e : Executor τ) : Option (τ × Executor τ) :=
  match e.workItemsBackBuffer[e.position]? with
  | some item => some (item, { e with position := e.position + 1 })
  | none => none

/-- What `execute` does after the loop. -/
def clear (e : Executor τ) : Executor τ := { e with workItemsBackBuffer := [], position := 0 }

/-- The items of the running batch that have not been started. -/
def rest (e : Executor τ) : List τ := e.workItemsBackBuffer.drop e.position

/-- All items that have not been started, in the order they will be. -/
def pending (e : Executor τ) : List τ := e.rest ++ e.workItems

/-! ## What each piece does to the items -/

@[simp] theorem rest_enqueueWork (e : Executor τ) (item : τ) : (e.enqueueWork item).rest = e.rest := rfl

@[simp] theorem workItems_enqueueWork (e : Executor τ) (item : τ) :
    (e.enqueueWork item).workItems = e.workItems ++ [item] := rfl

@[simp] theorem rest_swap (e : Executor τ) : e.swap.rest = e.workItems := rfl

@[simp] theorem workItems_swap (e : Executor τ) : e.swap.workItems = e.workItemsBackBuffer := rfl

@[simp] theorem rest_clear (e : Executor τ) : e.clear.rest = [] := rfl

@[simp] theorem workItems_clear (e : Executor τ) : e.clear.workItems = e.workItems := rfl

@[simp] theorem workItemsBackBuffer_clear (e : Executor τ) : e.clear.workItemsBackBuffer = [] := rfl

/-- The loop comes to an item, or has come to the end. -/
theorem next_cases (e : Executor τ) :
    (∃ item, e.workItemsBackBuffer[e.position]? = some item ∧ e.next = some (item, { e with position := e.position + 1 })) ∨
      (e.workItemsBackBuffer.length ≤ e.position ∧ e.next = none) := by
  unfold next
  cases hi : e.workItemsBackBuffer[e.position]? with
  | some item => exact Or.inl ⟨item, rfl, rfl⟩
  | none => exact Or.inr ⟨List.getElem?_eq_none_iff.mp hi, rfl⟩

/-- The loop takes the first of the items that are left. -/
theorem next_eq_some {e e' : Executor τ} {item : τ} (h : e.next = some (item, e')) :
    e.rest = item :: e'.rest ∧ e'.workItems = e.workItems := by
  unfold next at h
  split at h
  · rename_i i hi
    obtain ⟨rfl, rfl⟩ := Prod.mk.inj (Option.some.inj h)
    obtain ⟨hlt, rfl⟩ := List.getElem?_eq_some_iff.mp hi
    exact ⟨List.drop_eq_getElem_cons hlt, rfl⟩
  · cases h

/-- Taking an item leaves the vectors as they are. -/
theorem vectors_next {e e' : Executor τ} {item : τ} (h : e.next = some (item, e')) :
    e'.workItems = e.workItems ∧ e'.workItemsBackBuffer = e.workItemsBackBuffer := by
  unfold next at h
  split at h
  · obtain ⟨-, rfl⟩ := Prod.mk.inj (Option.some.inj h)
    exact ⟨rfl, rfl⟩
  · cases h

/-- The loop ends when no item is left. -/
theorem next_eq_none {e : Executor τ} (h : e.next = none) : e.rest = [] := by
  unfold next at h
  split at h
  · cases h
  · rename_i hnone
    exact List.drop_eq_nil_of_le (List.getElem?_eq_none_iff.mp hnone)

theorem pending_enqueueWork (e : Executor τ) (item : τ) : (e.enqueueWork item).pending = e.pending ++ [item] := by
  simp [pending]

/-- An exchange of the vectors between two batches keeps what is pending. -/
theorem pending_swap {e : Executor τ} (h : e.workItemsBackBuffer = []) : e.swap.pending = e.pending := by
  simp [pending, rest, swap, h]

theorem pending_next {e e' : Executor τ} {item : τ} (h : e.next = some (item, e')) : e.pending = item :: e'.pending := by
  obtain ⟨hrest, hwork⟩ := next_eq_some h
  rw [pending, pending, hrest, hwork]
  rfl

theorem pending_clear {e : Executor τ} (h : e.next = none) : e.clear.pending = e.pending := by
  rw [pending, pending, next_eq_none h]
  rfl

/-! ## What all items have in common -/

/-- The items of both vectors satisfy `P`. -/
def All (P : τ → Prop) (e : Executor τ) : Prop := ∀ item ∈ e.workItems ++ e.workItemsBackBuffer, P item

theorem All.imp {P Q : τ → Prop} {e : Executor τ} (h : e.All P) (hPQ : ∀ item, P item → Q item) : e.All Q :=
  fun item hitem => hPQ item (h item hitem)

theorem All.enqueueWork {P : τ → Prop} {e : Executor τ} (h : e.All P) {item : τ} (hitem : P item) : (e.enqueueWork item).All P := by
  intro other hother
  rw [workItems_enqueueWork, List.append_assoc, List.mem_append, List.mem_append, List.mem_singleton] at hother
  rcases hother with hwork | rfl | hback
  · exact h other (List.mem_append_left _ hwork)
  · exact hitem
  · exact h other (List.mem_append_right _ hback)

theorem All.swap {P : τ → Prop} {e : Executor τ} (h : e.All P) : e.swap.All P := by
  intro item hitem
  exact h item (List.perm_append_comm.mem_iff.mp hitem)

theorem All.clear {P : τ → Prop} {e : Executor τ} (h : e.All P) : e.clear.All P := by
  intro item hitem
  rw [workItems_clear, workItemsBackBuffer_clear, List.append_nil] at hitem
  exact h item (List.mem_append_left _ hitem)

/-- The loop starts an item that satisfies `P`, and the items stay. -/
theorem All.next {P : τ → Prop} {e e' : Executor τ} {item : τ} (h : e.All P) (hnext : e.next = some (item, e')) :
    P item ∧ e'.All P := by
  obtain ⟨hwork, hback⟩ := vectors_next hnext
  have hrest : item ∈ e.rest := by
    rw [(next_eq_some hnext).1]
    exact List.mem_cons_self
  refine ⟨h item (List.mem_append_right _ (List.mem_of_mem_drop hrest)), fun other hother => h other ?_⟩
  rwa [hwork, hback] at hother

/-- Of many executors, one changes. -/
theorem all_update {ι : Type*} [DecidableEq ι] {P : ι → τ → Prop} {executors : ι → Executor τ} (h : ∀ x, (executors x).All (P x))
    {x : ι} {e : Executor τ} (he : e.All (P x)) : ∀ y, (Function.update executors x e y).All (P y) :=
  (Function.forall_update_iff executors fun y e => e.All (P y)).mpr ⟨he, fun y _ => h y⟩

/-! ## Items by number -/

/-- Items are numbered by their enqueueing. None has been started twice, and none has gone without having been started. -/
structure Tracked (e : Executor Nat) (started : List Nat) (enqueued : Nat) : Prop where
  once : started.Nodup
  distinct : (e.workItems ++ e.workItemsBackBuffer).Nodup
  started_lt : ∀ i ∈ started, i < enqueued
  items_lt : ∀ i ∈ e.workItems ++ e.workItemsBackBuffer, i < enqueued
  kept : ∀ i < enqueued, i ∈ started ∨ i ∈ e.workItems ++ e.workItemsBackBuffer

section Tracked

variable {e : Executor Nat} {started : List Nat} {enqueued i : Nat}

theorem tracked_empty : Tracked {} [] 0 := ⟨List.nodup_nil, List.nodup_nil, nofun, nofun, nofun⟩

theorem Tracked.not_started (h : e.Tracked started enqueued) : enqueued ∉ started :=
  fun hmem => Nat.lt_irrefl _ (h.started_lt enqueued hmem)

theorem Tracked.enqueueWork (h : e.Tracked started enqueued) : (e.enqueueWork enqueued).Tracked started (enqueued + 1) := by
  have hperm : ((e.enqueueWork enqueued).workItems ++ (e.enqueueWork enqueued).workItemsBackBuffer).Perm
      (enqueued :: (e.workItems ++ e.workItemsBackBuffer)) := by
    rw [workItems_enqueueWork, List.append_assoc]
    exact List.perm_middle
  refine ⟨h.once, hperm.nodup_iff.mpr (List.nodup_cons.mpr ⟨fun hmem => ?_, h.distinct⟩), fun i hi => ?_, fun i hi => ?_, fun i hi => ?_⟩
  · exact Nat.lt_irrefl _ (h.items_lt enqueued hmem)
  · exact Nat.lt_succ_of_lt (h.started_lt i hi)
  · rcases List.mem_cons.mp (hperm.mem_iff.mp hi) with rfl | hold
    · exact Nat.lt_succ_self i
    · exact Nat.lt_succ_of_lt (h.items_lt i hold)
  · rw [hperm.mem_iff, List.mem_cons]
    rcases Nat.lt_succ_iff_lt_or_eq.mp hi with hold | rfl
    · exact (h.kept i hold).imp_right Or.inr
    · exact Or.inr (Or.inl rfl)

/-- An exchange of the vectors leaves all items where they can be found. -/
theorem Tracked.swap (h : e.Tracked started enqueued) : e.swap.Tracked started enqueued := by
  have hperm : (e.swap.workItems ++ e.swap.workItemsBackBuffer).Perm (e.workItems ++ e.workItemsBackBuffer) := List.perm_append_comm
  refine ⟨h.once, hperm.nodup_iff.mpr h.distinct, h.started_lt, fun i hi => h.items_lt i (hperm.mem_iff.mp hi), fun i hi => ?_⟩
  exact (h.kept i hi).imp_right hperm.mem_iff.mpr

/-- An item is started. -/
theorem Tracked.start (h : e.Tracked started enqueued) (hi : i ∈ e.workItems ++ e.workItemsBackBuffer) (hnew : i ∉ started) :
    e.Tracked (started ++ [i]) enqueued := by
  refine ⟨List.Nodup.append h.once (List.nodup_singleton i) ?_, h.distinct, fun j hj => ?_, h.items_lt, fun j hj => ?_⟩
  · exact List.disjoint_singleton.mpr hnew
  · rcases List.mem_append.mp hj with hold | hlast
    · exact h.started_lt j hold
    · exact List.mem_singleton.mp hlast ▸ h.items_lt i hi
  · exact (h.kept j hj).imp_left (List.mem_append_left _)

/-- The loop starts an item. -/
theorem Tracked.next {e' : Executor Nat} (h : e.Tracked started enqueued) (hnext : e.next = some (i, e')) (hnew : i ∉ started) :
    e'.Tracked (started ++ [i]) enqueued := by
  obtain ⟨hwork, hback⟩ := vectors_next hnext
  have hi : i ∈ e.workItemsBackBuffer := by
    refine List.mem_of_mem_drop (i := e.position) ?_
    show i ∈ e.rest
    rw [(next_eq_some hnext).1]
    exact List.mem_cons_self
  obtain ⟨honce, hdistinct, hstarted, hitems, hkept⟩ := h.start (List.mem_append_right _ hi) hnew
  rw [← hwork, ← hback] at hdistinct hitems hkept
  exact ⟨honce, hdistinct, hstarted, hitems, hkept⟩

/-- The back buffer is cleared when all of its items have been started. -/
theorem Tracked.clear (h : e.Tracked started enqueued) (hback : ∀ i ∈ e.workItemsBackBuffer, i ∈ started) :
    e.clear.Tracked started enqueued := by
  rw [show e.clear = { e with workItemsBackBuffer := [], position := 0 } from rfl]
  refine ⟨h.once, ?_, h.started_lt, fun i hi => ?_, fun i hi => ?_⟩
  · rw [List.append_nil]
    exact h.distinct.of_append_left
  · rw [List.append_nil] at hi
    exact h.items_lt i (List.mem_append_left _ hi)
  · rw [List.append_nil]
    rcases h.kept i hi with hdone | hmem
    · exact Or.inl hdone
    · exact (List.mem_append.mp hmem).symm.imp (hback i) id

/-- The two vectors have no item in common. -/
theorem Tracked.not_mem_back (h : e.Tracked started enqueued) (hi : i ∈ e.workItems) : i ∉ e.workItemsBackBuffer :=
  fun hback => (List.nodup_append.mp h.distinct).2.2 i hi i hback rfl

end Tracked

/-! ## The same work in other items -/

section Map

variable {υ : Type*} (f : τ → υ)

/-- Each item replaced by its image. -/
def map (e : Executor τ) : Executor υ :=
  { workItems := e.workItems.map f, workItemsBackBuffer := e.workItemsBackBuffer.map f, position := e.position }

theorem map_enqueueWork (e : Executor τ) (item : τ) : (e.enqueueWork item).map f = (e.map f).enqueueWork (f item) := by
  simp [map, enqueueWork]

theorem map_swap (e : Executor τ) : e.swap.map f = (e.map f).swap := rfl

theorem next_map (e : Executor τ) : (e.map f).next = e.next.map fun (item, e') => (f item, e'.map f) := by
  simp only [next, map, List.getElem?_map]
  cases e.workItemsBackBuffer[e.position]? <;> rfl

end Map

end Executor

end Minicomps
