import Mathlib.Data.List.Perm.Basic
import Minicomps.ExecutorOwners
import Minicomps.Lib.Acyclic
import Minicomps.Lib.Transition

/-!
# Pending calls keep executors

The pointers that travel with the requests see to it that every answer has an executor to go to. They also keep executors that nobody else
has, for as long as the tasks are pending; and once the last pointer outside of the queues is gone, what is left keeps each other in a
circle.
-/

namespace Minicomps

namespace ExecutorOwners

open Transition Acyclic Minicomps.ExecutorOwners.System

namespace OwnersAux

variable {s s' : System} {x y z : ExecutorId} {i : Nat} {task : Task} {captured : List CallbackResult}

/-! ## Steps -/

/-- What a step does. -/
inductive StepCase (s : System) : Action → System → Prop
  | construct (x : ExecutorId) (hnew : x ∉ s.constructed) :
    StepCase s (.construct x) { s with constructed := x :: s.constructed, held := Function.update s.held x 1 }
  | copy (x : ExecutorId) (hheld : s.held x ≠ 0) :
    StepCase s (.copy x) { s with held := Function.update s.held x (s.held x + 1) }
  | drop (x : ExecutorId) (hheld : s.held x ≠ 0) :
    StepCase s (.drop x) { s with held := Function.update s.held x (s.held x - 1), dropping := x :: s.dropping }
  | call (here x y : ExecutorId) (arguments captured : List Nat) {t : System} (hheld : s.held x ≠ 0)
    (ht : s.enqueueWork y (.request (s.copies here arguments) x (s.copies here captured)) = some t) :
    StepCase s (.call here x y arguments captured) t
  | callDirectly (here : ExecutorId) (captured : List Nat) :
    StepCase s (.callDirectly here captured) { s with results := s.results ++ [(here, .mk none (s.copies here captured))] }
  | handOver (i : Nat) (x y : ExecutorId) (result : CallbackResult) (hi : s.results[i]? = some (x, result)) :
    StepCase s (.handOver i y) { s with results := s.results ++ [(y, result)] }
  | answer (i : Nat) (x z : ExecutorId) (captured : List CallbackResult) {t : System}
    (hi : s.results[i]? = some (x, .mk (some z) captured))
    (ht : { s with results := s.results.set i (x, .mk (some z) []) }.enqueueWork z (.response captured) = some t) :
    StepCase s (.respond i) t
  | callBack (i : Nat) (x : ExecutorId) (captured : List CallbackResult) (hi : s.results[i]? = some (x, .mk none captured)) :
    StepCase s (.respond i) { s with results := s.results.set i (x, .mk none []) ++ captured.map fun result => (x, result) }
  | discard (i : Nat) (x : ExecutorId) (result : CallbackResult) (hi : s.results[i]? = some (x, result)) :
    StepCase s (.discard i) { s with results := s.results.eraseIdx i, dropping := result.pointers ++ s.dropping }
  | enqueueOther (y : ExecutorId) {t : System} (ht : s.enqueueWork y .other = some t) : StepCase s (.enqueueOther y) t
  | startBatch (y : ExecutorId) (hback : (s.executors y).workItemsBackBuffer = []) :
    StepCase s (.startBatch y) { s with executors := Function.update s.executors y (s.executors y).swap }
  | runNext (y : ExecutorId) (task : Task) (e : Executor Task) (hnext : (s.executors y).next = some (task, e)) :
    StepCase s (.runNext y) ({ s with executors := Function.update s.executors y e }.runTask y task)
  | finishBatch (y : ExecutorId) (hnext : (s.executors y).next = none) :
    StepCase s (.finishBatch y) { s with executors := Function.update s.executors y (s.executors y).clear }
  | destroy (x : ExecutorId) (rest : List ExecutorId) (hdropping : s.dropping = x :: rest)
    (hlast : { s with dropping := rest }.useCount x = 0) : StepCase s .release ({ s with dropping := rest }.destruct x)
  | letGo (x : ExecutorId) (rest : List ExecutorId) (hdropping : s.dropping = x :: rest)
    (hother : { s with dropping := rest }.useCount x ≠ 0) : StepCase s .release { s with dropping := rest }

theorem step_case {a : Action} (h : s.step a = some s') : StepCase s a s' := by
  cases a with
  | construct x =>
    simp only [step] at h
    split at h
    · cases h
    · exact Option.some.inj h ▸ .construct x ‹_›
  | copy x =>
    simp only [step] at h
    split at h
    · cases h
    · exact Option.some.inj h ▸ .copy x ‹_›
  | drop x =>
    simp only [step] at h
    split at h
    · cases h
    · rename_i hheld
      exact Option.some.inj h ▸ .drop x fun hzero => hheld (Or.inl hzero)
  | call here x y arguments captured =>
    simp only [step] at h
    split at h
    · cases h
    · exact .call here x y arguments captured ‹_› h
  | callDirectly here captured => exact Option.some.inj h ▸ .callDirectly here captured
  | handOver i y =>
    obtain ⟨⟨x, result⟩, hi, rfl⟩ := Option.map_eq_some_iff.mp h
    exact .handOver i x y result hi
  | respond i =>
    obtain ⟨⟨x, ⟨receivingExecutor, captured⟩⟩, hi, hs'⟩ := Option.bind_eq_some_iff.mp h
    cases receivingExecutor with
    | some z => exact .answer i x z captured hi hs'
    | none => exact Option.some.inj hs' ▸ .callBack i x captured hi
  | discard i =>
    obtain ⟨⟨x, result⟩, hi, rfl⟩ := Option.map_eq_some_iff.mp h
    exact .discard i x result hi
  | enqueueOther y => exact .enqueueOther y h
  | startBatch y =>
    simp only [step] at h
    split at h
    · rename_i hready
      exact Option.some.inj h ▸ .startBatch y (List.isEmpty_iff.mp (Bool.not_eq_false' _ ▸ hready.2))
    · cases h
  | runNext y =>
    obtain ⟨⟨task, e⟩, hnext, rfl⟩ := Option.map_eq_some_iff.mp h
    exact .runNext y task e hnext
  | finishBatch y =>
    simp only [step] at h
    split at h
    · exact Option.some.inj h ▸ .finishBatch y (Option.isNone_iff_eq_none.mp ‹_›)
    · cases h
  | release =>
    simp only [step] at h
    split at h
    · cases h
    · rename_i x rest hdropping
      split at h
      · exact Option.some.inj h ▸ .destroy x rest hdropping ‹_›
      · exact Option.some.inj h ▸ .letGo x rest hdropping ‹_›

theorem enqueueWork_eq_some (h : s.enqueueWork y task = some s') :
    y ∈ s.constructed ∧ s' = { s with executors := Function.update s.executors y ((s.executors y).enqueueWork task) } := by
  unfold enqueueWork at h
  split at h
  · exact ⟨‹_›, (Option.some.inj h).symm⟩
  · cases h

/-! ## Counting the pointers -/

theorem mem_pointersOf {results : List CallbackResult} {p : ExecutorId} : p ∈ pointersOf results ↔ ∃ r ∈ results, p ∈ r.pointers := by
  induction results with
  | nil => simp [pointersOf]
  | cons r results ih => simp [pointersOf, ih]

theorem pointersOf_append (results results' : List CallbackResult) :
    pointersOf (results ++ results') = pointersOf results ++ pointersOf results' := by
  induction results with
  | nil => rfl
  | cons r results ih => rw [List.cons_append, pointersOf, pointersOf, ih, List.append_assoc]

/-- How often the executor is in the results of handlers and callbacks. -/
def inResults (results : List (ExecutorId × CallbackResult)) (z : ExecutorId) : Nat :=
  (results.flatMap fun entry => entry.2.pointers).count z

/-- How often it is in the tasks that wait. -/
def inQueues (s : System) (z : ExecutorId) : Nat := (s.constructed.flatMap s.queuedOn).count z

theorem useCount_eq (s : System) (z : ExecutorId) :
    s.useCount z = s.held z + s.dropping.count z + inResults s.results z + inQueues s z := by
  simp only [useCount, pointers, inResults, inQueues, List.count_append]
  omega

theorem inResults_append (results results' : List (ExecutorId × CallbackResult)) (z : ExecutorId) :
    inResults (results ++ results') z = inResults results z + inResults results' z := by
  rw [inResults, List.flatMap_append, List.count_append]
  rfl

theorem inResults_singleton (x : ExecutorId) (r : CallbackResult) (z : ExecutorId) : inResults [(x, r)] z = r.pointers.count z := by
  simp [inResults]

theorem inResults_map (x : ExecutorId) (results : List CallbackResult) (z : ExecutorId) :
    inResults (results.map fun r => (x, r)) z = (pointersOf results).count z := by
  induction results with
  | nil => rfl
  | cons r results ih =>
    rw [List.map_cons, ← List.singleton_append, inResults_append, inResults_singleton, ih, pointersOf, List.count_append]

theorem inResults_perm {results results' : List (ExecutorId × CallbackResult)} (h : results.Perm results') (z : ExecutorId) :
    inResults results z = inResults results' z :=
  (h.flatMap_right _).count_eq z

theorem inResults_eraseIdx {results : List (ExecutorId × CallbackResult)} {r : CallbackResult} (h : results[i]? = some (x, r))
    (z : ExecutorId) : inResults results z = r.pointers.count z + inResults (results.eraseIdx i) z := by
  obtain ⟨hi, hr⟩ := List.getElem?_eq_some_iff.mp h
  rw [inResults_perm (List.getElem_cons_eraseIdx_perm hi).symm, hr, ← List.singleton_append, inResults_append, inResults_singleton]

theorem inResults_set {results : List (ExecutorId × CallbackResult)} {r : CallbackResult} (h : results[i]? = some (x, r))
    (y : ExecutorId) (r' : CallbackResult) (z : ExecutorId) :
    inResults (results.set i (y, r')) z + r.pointers.count z = inResults results z + r'.pointers.count z := by
  obtain ⟨hi, -⟩ := List.getElem?_eq_some_iff.mp h
  rw [inResults_perm (List.set_perm_cons_eraseIdx hi (y, r')), ← List.singleton_append, inResults_append, inResults_singleton,
    inResults_eraseIdx h]
  omega

/-- The queue of one executor and those of the others. -/
theorem inQueues_split (hy : y ∈ s.constructed) (z : ExecutorId) :
    inQueues s z = (s.queuedOn y).count z + ((s.constructed.erase y).flatMap s.queuedOn).count z := by
  rw [inQueues, ((List.perm_cons_erase hy).flatMap_right s.queuedOn).count_eq, List.flatMap_cons, List.count_append]

theorem queuedOn_update_of_ne {e : Executor Task} (h : x ≠ y) :
    { s with executors := Function.update s.executors y e }.queuedOn x = s.queuedOn x := by
  simp only [queuedOn, Function.update_of_ne h]

/-- One executor that exists is changed. -/
theorem inQueues_update (hnodup : s.constructed.Nodup) (hy : y ∈ s.constructed) (e : Executor Task) (z : ExecutorId) :
    inQueues { s with executors := Function.update s.executors y e } z + (s.queuedOn y).count z =
      inQueues s z + (e.pending.flatMap Task.pointers).count z := by
  have hself : { s with executors := Function.update s.executors y e }.queuedOn y = e.pending.flatMap Task.pointers := by
    simp only [queuedOn, Function.update_self]
  have hothers : (s.constructed.erase y).flatMap { s with executors := Function.update s.executors y e }.queuedOn =
      (s.constructed.erase y).flatMap s.queuedOn :=
    List.flatMap_congr fun x hx => queuedOn_update_of_ne (hnodup.mem_erase_iff.mp hx).1
  have hsplit := @inQueues_split { s with executors := Function.update s.executors y e } y hy z
  rw [hself] at hsplit
  rw [hsplit, inQueues_split hy z]
  change _ + ((s.constructed.erase y).flatMap _).count z + _ = _
  rw [hothers]
  omega

/-! ## Whoever is pointed at exists -/

/-- An executor exists as long as there is a pointer to it. -/
structure OwnersInv (s : System) : Prop where
  nodup : s.constructed.Nodup
  empty : ∀ y, y ∉ s.constructed → s.executors y = {}
  owned : ∀ x, x ∈ s.constructed ↔ s.useCount x ≠ 0

theorem inv_init : OwnersInv init := ⟨List.nodup_nil, fun _ _ => rfl, fun _ => ⟨nofun, fun h => absurd rfl h⟩⟩

/-- A step that constructs and destroys nothing, and leaves a pointer to each executor that had one. -/
theorem inv_of_useCount (h : OwnersInv s) (hconstructed : s'.constructed = s.constructed)
    (hempty : ∀ y, y ∉ s.constructed → s'.executors y = s.executors y) (hcount : ∀ x, s'.useCount x = 0 ↔ s.useCount x = 0) :
    OwnersInv s' where
  nodup := hconstructed ▸ h.nodup
  empty y hy := by
    rw [hconstructed] at hy
    exact (hempty y hy).trans (h.empty y hy)
  owned x := by
    rw [hconstructed, h.owned, Ne, Ne, hcount]

/-- An executor that is changed exists. -/
theorem empty_update (hy : y ∈ s.constructed) (e : Executor Task) :
    ∀ z, z ∉ s.constructed → Function.update s.executors y e z = s.executors z := by
  intro z hz
  have hzy : z ≠ y := fun heq => hz (heq ▸ hy)
  exact Function.update_of_ne hzy ..

/-- Copies of results point to nothing new. -/
theorem useCount_of_mem_copies {indices : List Nat} {r : CallbackResult} (hr : r ∈ s.copies x indices) {p : ExecutorId}
    (hp : p ∈ r.pointers) : s.useCount p ≠ 0 := by
  obtain ⟨i, -, hi⟩ := List.mem_filterMap.mp hr
  obtain ⟨entry, hentry, hif⟩ := Option.bind_eq_some_iff.mp hi
  split at hif
  · obtain rfl := Option.some.inj hif
    have hmem : p ∈ s.results.flatMap fun entry => entry.2.pointers :=
      List.mem_flatMap.mpr ⟨entry, List.mem_of_getElem? hentry, hp⟩
    have hpos := List.count_pos_iff.mpr hmem
    rw [useCount_eq, inResults]
    omega
  · cases hif

theorem count_of_useCount {l : List ExecutorId} (h : ∀ p ∈ l, s.useCount p ≠ 0) (hz : s.useCount z = 0) : l.count z = 0 :=
  List.count_eq_zero.mpr fun hmem => h z hmem hz

theorem useCount_enqueueWork (hnodup : s.constructed.Nodup) (h : s.enqueueWork y task = some s') (z : ExecutorId) :
    s'.useCount z = s.useCount z + task.pointers.count z := by
  obtain ⟨hy, rfl⟩ := enqueueWork_eq_some h
  have hqueues := inQueues_update hnodup hy ((s.executors y).enqueueWork task) z
  rw [Executor.pending_enqueueWork, List.flatMap_append, List.count_append, List.flatMap_singleton] at hqueues
  rw [useCount_eq, useCount_eq s]
  unfold queuedOn at hqueues
  simp only
  omega

/-- An executor has the same tasks ahead as before. -/
theorem useCount_same_pending {e : Executor Task} (h : e.pending = (s.executors y).pending) (z : ExecutorId) :
    { s with executors := Function.update s.executors y e }.useCount z = s.useCount z := by
  have hqueues : { s with executors := Function.update s.executors y e }.queuedOn = s.queuedOn := by
    funext x
    by_cases hxy : x = y
    · subst hxy
      simp only [queuedOn, Function.update_self, h]
    · exact queuedOn_update_of_ne hxy
  simp only [useCount, pointers, hqueues]

/-- The loop comes to a task: its pointers go to the code that it runs. -/
theorem useCount_runTask (hnodup : s.constructed.Nodup) (hy : y ∈ s.constructed) {e : Executor Task}
    (hnext : (s.executors y).next = some (task, e)) (z : ExecutorId) :
    ({ s with executors := Function.update s.executors y e }.runTask y task).useCount z = s.useCount z := by
  have hqueues := inQueues_update hnodup hy e z
  rw [queuedOn, Executor.pending_next hnext, List.flatMap_cons, List.count_append] at hqueues
  have hresults : inResults ({ s with executors := Function.update s.executors y e }.runTask y task).results z =
      inResults s.results z + task.pointers.count z := by
    cases task with
    | request arguments receiverExecutor captured =>
      simp only [runTask, inResults_append, inResults_map, pointersOf_append, Task.pointers, pointersOf, CallbackResult.pointers,
        Option.toList_some, List.append_nil, List.singleton_append]
    | response captured => rw [runTask, inResults_append, inResults_map, Task.pointers]
    | other => rfl
  have hrest : ∀ t : Task, ({ s with executors := Function.update s.executors y e }.runTask y t).held = s.held ∧
      ({ s with executors := Function.update s.executors y e }.runTask y t).dropping = s.dropping ∧
      inQueues ({ s with executors := Function.update s.executors y e }.runTask y t) z =
        inQueues { s with executors := Function.update s.executors y e } z := by
    intro t
    cases t <;> exact ⟨rfl, rfl, rfl⟩
  obtain ⟨hheld, hdropping, hqueues'⟩ := hrest task
  rw [useCount_eq, useCount_eq s, hheld, hdropping, hresults, hqueues']
  omega

/-- An answer takes the pointers of the callback along. -/
theorem useCount_answer (hnodup : s.constructed.Nodup) (hi : s.results[i]? = some (x, .mk (some y) captured))
    (h : { s with results := s.results.set i (x, .mk (some y) []) }.enqueueWork y (.response captured) = some s') (z : ExecutorId) :
    s'.useCount z = s.useCount z := by
  have hset := inResults_set hi x (.mk (some y) []) z
  simp only [CallbackResult.pointers, pointersOf, List.append_nil, List.count_append] at hset
  rw [@useCount_enqueueWork { s with results := s.results.set i (x, .mk (some y) []) } s' y _ hnodup h, useCount_eq, useCount_eq s,
    Task.pointers]
  change _ + _ + _ + inQueues s z + _ = _
  simp only
  omega

theorem useCount_callBack (hi : s.results[i]? = some (x, .mk none captured)) (z : ExecutorId) :
    { s with results := s.results.set i (x, .mk none []) ++ captured.map fun result => (x, result) }.useCount z = s.useCount z := by
  have hset := inResults_set hi x (.mk none []) z
  simp only [CallbackResult.pointers, pointersOf, List.append_nil, List.count_append] at hset
  rw [useCount_eq, useCount_eq s]
  change _ + _ + _ + inQueues s z = _
  simp only [inResults_append, inResults_map]
  simp only [Option.toList_none, List.count_nil] at hset
  omega

theorem useCount_discard {r : CallbackResult} (hi : s.results[i]? = some (x, r)) (z : ExecutorId) :
    { s with results := s.results.eraseIdx i, dropping := r.pointers ++ s.dropping }.useCount z = s.useCount z := by
  rw [useCount_eq, useCount_eq s, inResults_eraseIdx hi]
  change _ + _ + _ + inQueues s z = _
  simp only [List.count_append]
  omega

/-- A result is added that points to nothing new. -/
theorem inv_append (h : OwnersInv s) {r : CallbackResult} (hr : ∀ p ∈ r.pointers, s.useCount p ≠ 0) :
    OwnersInv { s with results := s.results ++ [(x, r)] } := by
  refine inv_of_useCount h rfl (fun _ _ => rfl) fun z => ?_
  have hnone := count_of_useCount hr (z := z)
  rw [useCount_eq, useCount_eq s] at *
  change _ + _ + _ + inQueues s z = 0 ↔ _
  simp only [inResults_append, inResults_singleton]
  omega

theorem inv_enqueueWork (h : OwnersInv s) (hs' : s.enqueueWork y task = some s') (htask : ∀ p ∈ task.pointers, s.useCount p ≠ 0) :
    OwnersInv s' := by
  have hcount := useCount_enqueueWork h.nodup hs'
  obtain ⟨hy, rfl⟩ := enqueueWork_eq_some hs'
  refine inv_of_useCount h rfl (empty_update hy _) fun z => ?_
  have hnone := count_of_useCount htask (z := z)
  rw [hcount]
  omega

/-- An executor has the same tasks ahead as before, and none if it does not exist. -/
theorem inv_same_pending (h : OwnersInv s) {e : Executor Task} (hpending : e.pending = (s.executors y).pending)
    (hempty : s.executors y = {} → e = {}) : OwnersInv { s with executors := Function.update s.executors y e } := by
  refine inv_of_useCount h rfl (fun z hz => ?_) fun z => by rw [useCount_same_pending hpending]
  change Function.update s.executors y e z = _
  by_cases hzy : z = y
  · subst hzy
    rw [Function.update_self, hempty (h.empty z hz), h.empty z hz]
  · rw [Function.update_of_ne hzy]

/-- A pointer ends. -/
theorem useCount_letGo {rest : List ExecutorId} (h : s.dropping = x :: rest) (z : ExecutorId) :
    s.useCount z = { s with dropping := rest }.useCount z + if z = x then 1 else 0 := by
  rw [useCount_eq, useCount_eq { s with dropping := rest }, h, List.count_cons]
  change _ = _ + _ + _ + inQueues s z + _
  simp only [beq_iff_eq, eq_comm (a := x)]
  omega

/-- The last pointer to an executor ends. -/
theorem inv_destroy (h : OwnersInv s) {rest : List ExecutorId} (hdropping : s.dropping = x :: rest)
    (hlast : { s with dropping := rest }.useCount x = 0) : OwnersInv ({ s with dropping := rest }.destruct x) := by
  have hcount := useCount_letGo hdropping
  have hx : x ∈ s.constructed := (h.owned x).mpr (by rw [hcount, if_pos rfl]; exact Nat.succ_ne_zero _)
  have hmoved : ∀ z, ({ s with dropping := rest }.destruct x).useCount z = { s with dropping := rest }.useCount z := by
    intro z
    have hsplit := @inQueues_split { s with dropping := rest } x hx z
    have hothers : (s.constructed.erase x).flatMap ({ s with dropping := rest }.destruct x).queuedOn =
        (s.constructed.erase x).flatMap s.queuedOn :=
      List.flatMap_congr fun y hy => queuedOn_update_of_ne (h.nodup.mem_erase_iff.mp hy).1
    rw [useCount_eq, useCount_eq { s with dropping := rest }, hsplit]
    change _ + (s.queuedOn x ++ rest).count z + _ + ((s.constructed.erase x).flatMap _).count z =
      _ + rest.count z + _ + ((s.queuedOn x).count z + ((s.constructed.erase x).flatMap s.queuedOn).count z)
    rw [hothers, List.count_append]
    change s.held z + _ + inResults s.results z + _ = s.held z + _ + inResults s.results z + _
    omega
  refine ⟨h.nodup.erase x, fun y hy => ?_, fun y => ?_⟩
  · change Function.update s.executors x {} y = {}
    by_cases hyx : y = x
    · rw [hyx, Function.update_self]
    · rw [Function.update_of_ne hyx]
      exact h.empty y fun hmem => hy (h.nodup.mem_erase_iff.mpr ⟨hyx, hmem⟩)
  · change y ∈ s.constructed.erase x ↔ _
    rw [h.nodup.mem_erase_iff, hmoved, h.owned, hcount]
    by_cases hyx : y = x
    · rw [hyx, hlast]
      exact ⟨fun hand => absurd rfl hand.1, fun hne => absurd rfl hne⟩
    · rw [if_neg hyx, Nat.add_zero]
      exact and_iff_right hyx

theorem inv_step {a : Action} (h : OwnersInv s) (hs : s.step a = some s') : OwnersInv s' := by
  cases step_case hs with
  | construct x hnew =>
    have hzero : s.useCount x = 0 := not_not.mp fun hne => hnew ((h.owned x).mpr hne)
    refine ⟨List.nodup_cons.mpr ⟨hnew, h.nodup⟩, fun y hy => h.empty y fun hmem => hy (List.mem_cons_of_mem x hmem), fun y => ?_⟩
    have hqueues : inQueues { s with constructed := x :: s.constructed, held := Function.update s.held x 1 } y = inQueues s y := by
      have hempty : s.queuedOn x = [] := by rw [queuedOn, h.empty x hnew]; rfl
      change ((x :: s.constructed).flatMap s.queuedOn).count y = _
      rw [List.flatMap_cons, hempty, List.nil_append]
      rfl
    rw [useCount_eq, hqueues]
    have howned := h.owned y
    rw [useCount_eq] at howned hzero
    by_cases hyx : y = x
    · simp [hyx]
    · simp only [List.mem_cons, hyx, false_or, Function.update_of_ne hyx]
      exact howned
  | copy x hheld =>
    refine inv_of_useCount h rfl (fun _ _ => rfl) fun z => ?_
    rw [useCount_eq, useCount_eq s]
    change _ + _ + _ + inQueues s z = 0 ↔ _
    simp only [Function.update_apply]
    split
    · subst z
      omega
    · rfl
  | drop x hheld =>
    refine inv_of_useCount h rfl (fun _ _ => rfl) fun z => ?_
    rw [useCount_eq, useCount_eq s]
    change _ + _ + _ + inQueues s z = 0 ↔ _
    simp only [Function.update_apply, List.count_cons]
    split
    · subst z
      simp only [beq_self_eq_true, if_true]
      omega
    · rename_i hne
      simp [Ne.symm hne]
  | call here x y arguments captured hheld ht =>
    refine inv_enqueueWork h ht fun p hp => ?_
    rcases List.mem_append.mp hp with harg | hrest
    · obtain ⟨r, hr, hpr⟩ := mem_pointersOf.mp harg
      exact useCount_of_mem_copies hr hpr
    · rcases List.mem_cons.mp hrest with rfl | hcap
      · rw [useCount_eq]
        omega
      · obtain ⟨r, hr, hpr⟩ := mem_pointersOf.mp hcap
        exact useCount_of_mem_copies hr hpr
  | callDirectly here captured =>
    refine inv_append h fun p hp => ?_
    obtain ⟨r, hr, hpr⟩ := mem_pointersOf.mp hp
    exact useCount_of_mem_copies hr hpr
  | handOver i x y result hi =>
    refine inv_append h fun p hp => ?_
    have hpos := List.count_pos_iff.mpr hp
    rw [useCount_eq, inResults_eraseIdx hi]
    omega
  | answer i x z captured hi ht =>
    have hcount := useCount_answer h.nodup hi ht
    obtain ⟨hz, rfl⟩ := enqueueWork_eq_some ht
    exact inv_of_useCount h rfl (empty_update hz _) fun p => by rw [hcount]
  | callBack i x captured hi => exact inv_of_useCount h rfl (fun _ _ => rfl) fun p => by rw [useCount_callBack hi]
  | discard i x result hi => exact inv_of_useCount h rfl (fun _ _ => rfl) fun p => by rw [useCount_discard hi]
  | enqueueOther y ht => exact inv_enqueueWork h ht nofun
  | startBatch y hback => exact inv_same_pending h (Executor.pending_swap hback) fun hempty => by rw [hempty]; rfl
  | runNext y task e hnext =>
    have hy : y ∈ s.constructed := by
      by_contra hy
      rw [h.empty y hy] at hnext
      cases hnext
    have hruns : ({ s with executors := Function.update s.executors y e }.runTask y task).constructed = s.constructed ∧
        ({ s with executors := Function.update s.executors y e }.runTask y task).executors = Function.update s.executors y e := by
      cases task <;> exact ⟨rfl, rfl⟩
    exact inv_of_useCount h hruns.1 (fun z hz => by rw [hruns.2]; exact empty_update hy e z hz) fun z => by
      rw [useCount_runTask h.nodup hy hnext]
  | finishBatch y hnext => exact inv_same_pending h (Executor.pending_clear hnext) fun hempty => by rw [hempty]; rfl
  | destroy x rest hdropping hlast => exact inv_destroy h hdropping hlast
  | letGo x rest hdropping hother =>
    refine inv_of_useCount h rfl (fun _ _ => rfl) fun z => ?_
    rw [useCount_letGo hdropping]
    split
    · subst z
      omega
    · rfl

/-- Once everything outside of the queues has been let go of, some executor has no pointer to it, unless they keep each other in a circle. -/
theorem constructed_eq_nil (h : OwnersInv s) (hrel : s.Released) (hcycle : NoCycle s.Holds) : s.constructed = [] := by
  by_contra hne
  obtain ⟨x, hx, hfree⟩ := hcycle.exists_source hne
  refine (h.owned x).mp hx ?_
  rw [useCount_eq, hrel.held, hrel.dropping, hrel.results]
  refine (Nat.zero_add _).trans (List.count_eq_zero.mpr fun hmem => ?_)
  obtain ⟨y, hy, hyx⟩ := List.mem_flatMap.mp hmem
  exact hfree y hy hyx

/-! ## Calls that go down in rank -/

/-- Code on `y` can have this result: the calls that it answers came from above, one after the other. -/
inductive Above (rank : ExecutorId → Nat) : ExecutorId → CallbackResult → Prop
  | mk {y : ExecutorId} {receivingExecutor : Option ExecutorId} {captured : List CallbackResult}
    (hreceiving : ∀ x, receivingExecutor = some x → rank y < rank x)
    (hcaptured : ∀ r ∈ captured, Above rank (receivingExecutor.getD y) r) : Above rank y (.mk receivingExecutor captured)

variable {rank : ExecutorId → Nat} {r : CallbackResult}

theorem Above.mono (h : Above rank y r) : ∀ {z}, rank z ≤ rank y → Above rank z r := by
  induction h with
  | @mk y receivingExecutor captured hreceiving hcaptured ih =>
    intro z hz
    refine .mk (fun x hx => Nat.lt_of_le_of_lt hz (hreceiving x hx)) fun r hr => ?_
    cases receivingExecutor with
    | some x => exact hcaptured r hr
    | none => exact ih r hr hz

/-- All executors that the result keeps rank above. -/
theorem Above.lt_pointers (h : Above rank y r) : ∀ p ∈ r.pointers, rank y < rank p := by
  induction h with
  | @mk y receivingExecutor captured hreceiving hcaptured ih =>
    intro p hp
    rw [CallbackResult.pointers, List.mem_append, Option.mem_toList] at hp
    rcases hp with hself | hcap
    · exact hreceiving p hself
    · obtain ⟨r, hr, hpr⟩ := mem_pointersOf.mp hcap
      have hlt := ih r hr p hpr
      cases receivingExecutor with
      | some x => exact Nat.lt_trans (hreceiving x rfl) hlt
      | none => exact hlt

/-- The results of a task that waits for `y`, in the same way. -/
def TaskAbove (rank : ExecutorId → Nat) (y : ExecutorId) : Task → Prop
  | .request arguments receiverExecutor captured =>
    rank y < rank receiverExecutor ∧ (∀ r ∈ arguments, Above rank y r) ∧ ∀ r ∈ captured, Above rank receiverExecutor r
  | .response captured => ∀ r ∈ captured, Above rank y r
  | .other => True

theorem lt_of_taskAbove (h : TaskAbove rank y task) : ∀ p ∈ task.pointers, rank y < rank p := by
  intro p hp
  cases task with
  | request arguments receiverExecutor captured =>
    obtain ⟨hlt, hargs, hcap⟩ := h
    rcases List.mem_append.mp hp with harg | hrest
    · obtain ⟨r, hr, hpr⟩ := mem_pointersOf.mp harg
      exact (hargs r hr).lt_pointers p hpr
    · rcases List.mem_cons.mp hrest with rfl | hmem
      · exact hlt
      · obtain ⟨r, hr, hpr⟩ := mem_pointersOf.mp hmem
        exact Nat.lt_trans hlt ((hcap r hr).lt_pointers p hpr)
  | response captured =>
    obtain ⟨r, hr, hpr⟩ := mem_pointersOf.mp hp
    exact (h r hr).lt_pointers p hpr
  | other => cases hp

/-- Every result is where code can have it. -/
structure Layered (rank : ExecutorId → Nat) (s : System) : Prop where
  results : ∀ entry ∈ s.results, Above rank entry.1 entry.2
  tasks : ∀ y, (s.executors y).All (TaskAbove rank y)

theorem Layered.lt_of_holds (h : Layered rank s) (hx : s.Holds y x) : rank y < rank x := by
  obtain ⟨task, htask, hmem⟩ := List.mem_flatMap.mp hx
  refine lt_of_taskAbove (h.tasks y task ?_) x hmem
  exact (List.mem_append.mp htask).elim (fun hrest => List.mem_append_right _ (List.mem_of_mem_drop hrest)) (List.mem_append_left _)

theorem layered_init : Layered rank init := ⟨nofun, fun _ => nofun⟩

theorem Layered.of_getElem (h : Layered rank s) (hi : s.results[i]? = some (x, r)) : Above rank x r :=
  h.results (x, r) (List.mem_of_getElem? hi)

theorem Layered.copies (h : Layered rank s) {indices : List Nat} : ∀ r ∈ s.copies x indices, Above rank x r := by
  intro r hr
  obtain ⟨i, -, hi⟩ := List.mem_filterMap.mp hr
  obtain ⟨⟨x', r'⟩, hentry, hif⟩ := Option.bind_eq_some_iff.mp hi
  split at hif
  · rename_i hx
    obtain rfl := Option.some.inj hif
    subst hx
    exact h.of_getElem hentry
  · cases hif

theorem Layered.append (h : Layered rank s) {added : List (ExecutorId × CallbackResult)}
    (hadded : ∀ entry ∈ added, Above rank entry.1 entry.2) : Layered rank { s with results := s.results ++ added } :=
  ⟨fun entry hentry => (List.mem_append.mp hentry).elim (h.results entry) (hadded entry), h.tasks⟩

/-- The callback of a result is gone. -/
theorem Layered.set (h : Layered rank s) {receivingExecutor : Option ExecutorId}
    (hi : s.results[i]? = some (x, .mk receivingExecutor captured)) :
    Layered rank { s with results := s.results.set i (x, .mk receivingExecutor []) } := by
  refine ⟨fun entry hentry => ?_, h.tasks⟩
  rcases List.mem_or_eq_of_mem_set hentry with hold | rfl
  · exact h.results entry hold
  · cases h.of_getElem hi with
    | mk hreceiving _ => exact .mk hreceiving nofun

theorem Layered.enqueueWork (h : Layered rank s) (hs' : s.enqueueWork y task = some s') (htask : TaskAbove rank y task) :
    Layered rank s' := by
  obtain ⟨-, rfl⟩ := enqueueWork_eq_some hs'
  exact ⟨h.results, Executor.all_update h.tasks ((h.tasks y).enqueueWork htask)⟩

theorem layered_step {a : Action} (h : Layered rank s) (ha : Downward rank s a) (hs : s.step a = some s') : Layered rank s' := by
  cases step_case hs with
  | construct | copy | drop => exact ⟨h.results, h.tasks⟩
  | call here x y arguments captured hheld ht =>
    obtain ⟨hlt, hle⟩ := ha
    refine h.enqueueWork ht ⟨hlt, fun r hr => ?_, fun r hr => (h.copies r hr).mono hle⟩
    exact (h.copies r hr).mono (Nat.le_trans (Nat.le_of_lt hlt) hle)
  | callDirectly here captured =>
    refine h.append fun entry hentry => ?_
    obtain rfl := List.mem_singleton.mp hentry
    exact .mk nofun h.copies
  | handOver i x y result hi =>
    refine h.append fun entry hentry => ?_
    obtain rfl := List.mem_singleton.mp hentry
    exact (h.of_getElem hi).mono (ha x result hi)
  | answer i x z captured hi ht =>
    cases h.of_getElem hi with
    | mk _ hcaptured => exact (h.set hi).enqueueWork ht hcaptured
  | callBack i x captured hi =>
    cases h.of_getElem hi with
    | mk _ hcaptured =>
      refine (h.set hi).append fun entry hentry => ?_
      obtain ⟨r, hr, rfl⟩ := List.mem_map.mp hentry
      exact hcaptured r hr
  | discard i x result hi => exact ⟨fun entry hentry => h.results entry (List.mem_of_mem_eraseIdx hentry), h.tasks⟩
  | enqueueOther y ht => exact h.enqueueWork ht trivial
  | startBatch y hback => exact ⟨h.results, Executor.all_update h.tasks (h.tasks y).swap⟩
  | runNext y task e hnext =>
    obtain ⟨htask, he⟩ := (h.tasks y).next hnext
    have hupdate : Layered rank { s with executors := Function.update s.executors y e } := ⟨h.results, Executor.all_update h.tasks he⟩
    cases task with
    | request arguments receiverExecutor captured =>
      obtain ⟨hlt, hargs, hcap⟩ := htask
      refine hupdate.append fun entry hentry => ?_
      obtain ⟨r, hr, rfl⟩ := List.mem_map.mp hentry
      rcases List.mem_append.mp hr with harg | hlast
      · exact hargs r harg
      · obtain rfl := List.mem_singleton.mp hlast
        exact .mk (fun x hx => Option.some.inj hx ▸ hlt) hcap
    | response captured =>
      refine hupdate.append fun entry hentry => ?_
      obtain ⟨r, hr, rfl⟩ := List.mem_map.mp hentry
      exact htask r hr
    | other => exact hupdate
  | finishBatch y hnext => exact ⟨h.results, Executor.all_update h.tasks (h.tasks y).clear⟩
  | destroy x rest hdropping hlast => exact ⟨h.results, Executor.all_update h.tasks nofun⟩
  | letGo => exact ⟨h.results, h.tasks⟩

end OwnersAux

open OwnersAux

section Pending

variable {s : System} {acts : List Action}

/-- Whatever pointers are dropped in the meantime, the executor that an answer goes to exists when the answer comes. -/
theorem respond_isSome (hrun : run step init acts = some s) {i : Nat} (hi : i < s.results.length) : (s.step (.respond i)).isSome := by
  have h : OwnersInv s := run_invariant (fun _ _ _ => inv_step) inv_init hrun
  obtain ⟨⟨x, ⟨receivingExecutor, captured⟩⟩, hentry⟩ : ∃ entry, s.results[i]? = some entry := ⟨_, List.getElem?_eq_getElem hi⟩
  simp only [step, hentry, Option.bind_some]
  cases receivingExecutor with
  | none => rfl
  | some z =>
    have hz : z ∈ s.constructed := (h.owned z).mpr <| by
      have hcount := inResults_eraseIdx hentry z
      rw [CallbackResult.pointers, Option.toList_some, List.singleton_append, List.count_cons_self] at hcount
      rw [useCount_eq]
      omega
    simp only [operatorCall, AnswerPorts.operatorCall, Option.bind_some, System.enqueueWork, if_pos hz, Option.isSome_some]

/-- Executor 0 is let go of while the request is on its way to executor 1. -/
def callerLeaves : List Action := [.construct 0, .construct 1, .call 0 0 1 [] [], .drop 0, .release, .startBatch 1, .runNext 1]

theorem respond_isSome_callerLeaves : ∃ s, run step init callerLeaves = some s ∧ s.held 0 = 0 ∧ (s.step (.respond 0)).isSome := by
  obtain ⟨s, hs⟩ : ∃ s, run step init callerLeaves = some s := ⟨_, rfl⟩
  refine ⟨s, hs, ?_, respond_isSome hs ?_⟩ <;> cases hs
  · rfl
  · exact Nat.zero_lt_one

/-- Once everything outside of the queues has been let go of, all executors have been destroyed exactly if the tasks that are pending do
not keep executors in a circle. -/
theorem destroyed_iff_noCycle (hrun : run step init acts = some s) (hrel : s.Released) : s.constructed = [] ↔ NoCycle s.Holds := by
  have h : OwnersInv s := run_invariant (fun _ _ _ => inv_step) inv_init hrun
  have hnone : ∀ y x, y ∉ s.constructed → ¬s.Holds y x := by
    intro y x hy hx
    rw [Holds, queuedOn, h.empty y hy] at hx
    cases hx
  exact ⟨fun hempty => noCycle_of_empty fun y x => hnone y x (hempty ▸ List.not_mem_nil), constructed_eq_nil h hrel⟩

/-- Components on two executors call each other, and both executors are let go of before either gets to its request. -/
def callEachOther : List Action :=
  [.construct 0, .construct 1, .call 0 0 1 [] [], .call 1 1 0 [] [], .drop 0, .release, .drop 1, .release]

theorem destroyed_iff_noCycle_callEachOther :
    ∃ s, run step init callEachOther = some s ∧ s.Released ∧ s.constructed = [1, 0] ∧ ¬NoCycle s.Holds := by
  obtain ⟨s, hs⟩ : ∃ s, run step init callEachOther = some s := ⟨_, rfl⟩
  have hrel : s.Released := by
    cases hs
    refine ⟨fun x => ?_, rfl, rfl⟩
    rcases x with _ | _ | x <;> rfl
  have hleft : s.constructed = [1, 0] := by
    cases hs
    rfl
  refine ⟨s, hs, hrel, hleft, fun hcycle => ?_⟩
  exact List.cons_ne_nil 1 [0] (hleft.symm.trans ((destroyed_iff_noCycle hs hrel).mpr hcycle))

/-- Where the calls that are queued go down in some rank of the executors, letting go of everything outside of the queues destroys all
executors, whatever calls and answers are pending. -/
theorem destroyed_of_downward (rank : ExecutorId → Nat) (hrun : run step init acts = some s)
    (hdown : AllSteps step (Downward rank) init acts) (hrel : s.Released) : s.constructed = [] := by
  have h : OwnersInv s := run_invariant (fun _ _ _ => inv_step) inv_init hrun
  have hlayered : Layered rank s := hdown.run_invariant (fun _ _ _ => layered_step) layered_init hrun
  exact constructed_eq_nil h hrel (noCycle_of_lt rank fun y x => hlayered.lt_of_holds)

/-- A component on executor 2 calls one on executor 1, which calls one on executor 0 and has its callback answer the first call. The
executors are let go of before the second request is run. -/
def passedOn : List Action :=
  [.construct 0, .construct 1, .construct 2, .call 2 2 1 [] [], .startBatch 1, .runNext 1, .call 1 1 0 [] [0], .discard 0, .release,
    .finishBatch 1, .drop 2, .release, .drop 1, .release, .drop 0, .release, .release, .release]

theorem destroyed_of_downward_passedOn : ∃ s, run step init passedOn = some s ∧ s.constructed = [] := by
  obtain ⟨s, hs⟩ : ∃ s, run step init passedOn = some s := ⟨_, rfl⟩
  refine ⟨s, hs, destroyed_of_downward id hs ?_ ?_⟩
  · simp [AllSteps, passedOn, Downward]
  · cases hs
    refine ⟨fun x => ?_, rfl, rfl⟩
    rcases x with _ | _ | _ | x <;> rfl

end Pending

end ExecutorOwners

end Minicomps
