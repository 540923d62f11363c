import Minicomps.Cancellation
import Minicomps.Lib.Transition

/-!
# When a late result leaves its client alone

No callback is started once the lifetime of its call has expired, whatever path the result takes. But only a result that is handed
over directly looks at the lifetime before it reads the client: one that is enqueued tells the client's listener in any case.
-/

namespace Minicomps

open Transition

namespace LateState

variable {β : Type*}

/-! ## What belongs to which call -/

/-- Whoever has a callback has the lifetime of its call too. -/
def Bound (calls : List LifetimeWeakPtr) (callback : Option CallbackId) (lifetime : Option LifetimeWeakPtr) : Prop :=
  ∀ k, callback = some k → ∃ p, lifetime = some p ∧ calls[k]? = some p

/-- An object has the callback and the lifetime of its call, or has lost them. -/
structure Fits (calls : List LifetimeWeakPtr) (o : ResultHandle) : Prop where
  lifetime : ∀ p, o.lifetime = some p → calls[o.call]? = some p
  callback : Bound calls o.callback o.lifetime

/-- The same of a work item. -/
def TaskFits (calls : List LifetimeWeakPtr) : LateTask β → Prop
  | .request _ result => Fits calls result
  | .response _ callback lifetime => Bound calls callback lifetime

/-- All objects and all work items fit the calls. -/
structure Inv (s : LateState β) : Prop where
  objects : ∀ o ∈ s.objects, Fits s.calls o
  tasks : ∀ x, (s.executors x).All (TaskFits s.calls)

end LateState

namespace CancellationAux

open LateState

variable {β : Type*} {s s' : LateState β} {calls : List LifetimeWeakPtr}

theorem bound_append {callback : Option CallbackId} {lifetime : Option LifetimeWeakPtr} (h : Bound calls callback lifetime)
    (more : List LifetimeWeakPtr) : Bound (calls ++ more) callback lifetime := by
  intro k hk
  obtain ⟨p, hp, hcall⟩ := h k hk
  refine ⟨p, hp, ?_⟩
  rw [List.getElem?_append_left (List.getElem?_eq_some_iff.mp hcall).1]
  exact hcall

theorem fits_append {o : ResultHandle} (h : Fits calls o) (more : List LifetimeWeakPtr) : Fits (calls ++ more) o := by
  refine ⟨?_, bound_append h.callback more⟩
  intro p hp
  have hcall := h.lifetime p hp
  rw [List.getElem?_append_left (List.getElem?_eq_some_iff.mp hcall).1]
  exact hcall

theorem taskFits_append {task : LateTask β} (h : TaskFits calls task) (more : List LifetimeWeakPtr) : TaskFits (calls ++ more) task := by
  cases task with
  | request handler result => exact fits_append h more
  | response value callback lifetime => exact bound_append h more

/-- An object that has lost everything fits. -/
theorem fits_emptied (calls : List LifetimeWeakPtr) {o : ResultHandle} (hlifetime : o.lifetime = none) (hcallback : o.callback = none) :
    Fits calls o := by
  refine ⟨?_, ?_⟩
  · intro p hp
    rw [hlifetime] at hp
    cases hp
  · intro k hk
    rw [hcallback] at hk
    cases hk

/-- The object of a call that is being made. -/
theorem fits_new (calls : List LifetimeWeakPtr) (lifetime : LifetimeWeakPtr) {o : ResultHandle} (hlifetime : o.lifetime = some lifetime)
    (hcallback : o.callback = some calls.length) (hcall : o.call = calls.length) : Fits (calls ++ [lifetime]) o := by
  have hlast : (calls ++ [lifetime])[calls.length]? = some lifetime := List.getElem?_concat_length
  refine ⟨?_, ?_⟩
  · intro p hp
    rw [hcall, hlast, ← hlifetime, hp]
  · intro k hk
    obtain rfl := Option.some.inj (hcallback.symm.trans hk)
    exact ⟨lifetime, hlifetime, hlast⟩

/-! ## What a step does -/

/-- One executor changes. -/
theorem inv_executor (h : Inv s) {x : ExecutorId} {e : Executor (LateTask β)} (he : e.All (TaskFits s.calls))
    (hcalls : s'.calls = s.calls) (hobjects : s'.objects = s.objects) (hexecutors : s'.executors = Function.update s.executors x e) :
    Inv s' := by
  refine ⟨?_, ?_⟩
  · rw [hcalls, hobjects]
    exact h.objects
  · rw [hcalls, hexecutors]
    exact Executor.all_update h.tasks he

/-- Neither the calls nor the executors change, and every object fits. -/
theorem inv_objects (h : Inv s) (hcalls : s'.calls = s.calls) (hexecutors : s'.executors = s.executors)
    (hobjects : ∀ o ∈ s'.objects, Fits s.calls o) : Inv s' := by
  refine ⟨?_, ?_⟩
  · rw [hcalls]
    exact hobjects
  · intro x
    rw [hcalls, hexecutors]
    exact h.tasks x

/-- Nothing changes that the invariant is about. -/
theorem inv_same (h : Inv s) (hcalls : s'.calls = s.calls) (hexecutors : s'.executors = s.executors) (hobjects : s'.objects = s.objects) :
    Inv s' :=
  inv_objects h hcalls hexecutors (hobjects ▸ h.objects)

theorem inv_callCallback (h : Inv s) {callback : Option CallbackId} {value : β} (hs : s.callCallback callback value = some s') :
    Inv s' := by
  obtain ⟨k, -, rfl⟩ := Option.map_eq_some_iff.mp hs
  exact inv_same h rfl rfl rfl

theorem inv_addObject (h : Inv s) {o : ResultHandle} (ho : Fits s.calls o) : Inv { s with objects := s.objects ++ [o] } := by
  refine inv_objects h rfl rfl ?_
  intro o' ho'
  rcases List.mem_append.mp ho' with ho' | ho'
  · exact h.objects o' ho'
  · exact List.mem_singleton.mp ho' ▸ ho

theorem inv_setObject (h : Inv s) {o : ResultHandle} (ho : Fits s.calls o) (i : Nat) : Inv { s with objects := s.objects.set i o } := by
  refine inv_objects h rfl rfl ?_
  intro o' ho'
  rcases List.mem_or_eq_of_mem_set ho' with ho' | rfl
  · exact h.objects o' ho'
  · exact ho

theorem inv_calls (h : Inv s) (lifetime : LifetimeWeakPtr) : Inv { s with calls := s.calls ++ [lifetime] } := by
  refine ⟨?_, ?_⟩
  · exact fun o ho => fits_append (h.objects o ho) _
  · exact fun x task htask => taskFits_append (h.tasks x task htask) _

theorem inv_execute (h : Inv s) (sender : ComponentId) (found : Resolution) (msgInfo : MessageId) (lifetime : LifetimeWeakPtr) :
    Inv (s.execute sender found msgInfo lifetime) := by
  have hcalls := inv_calls h lifetime
  simp only [execute, RequestPorts.execute]
  split
  · refine inv_objects hcalls rfl rfl ?_
    intro o ho
    rcases List.mem_append.mp ho with ho | ho
    · exact hcalls.objects o ho
    · obtain rfl := List.mem_singleton.mp ho
      exact fits_new s.calls lifetime rfl rfl rfl
  · refine inv_executor hcalls ?_ rfl rfl rfl
    exact (hcalls.tasks found.executor).enqueueWork (fits_new s.calls lifetime rfl rfl rfl)

theorem inv_operatorCall (h : Inv s) {i : Nat} {o : ResultHandle} {value : β} (ho : s.objects[i]? = some o)
    (hs : s.operatorCall i o value = some s') : Inv s' := by
  have hfits := h.objects o (List.mem_of_getElem? ho)
  simp only [operatorCall, AnswerPorts.operatorCall] at hs
  split at hs
  · rename_i x hx
    obtain rfl := Option.some.inj hs
    have hset := inv_setObject h (fits_emptied s.calls (o := { o with lifetime := none, callback := none }) rfl rfl) i
    refine inv_executor hset ?_ rfl rfl rfl
    exact (hset.tasks x).enqueueWork hfits.callback
  · split at hs
    · exact Option.some.inj hs ▸ h
    · refine inv_callCallback ?_ hs
      exact inv_same h rfl rfl rfl

theorem inv_step (h : Inv s) {a : LateAction β} (hs : s.step a = some s') : Inv s' := by
  cases a with
  | call sender found msgInfo lifetime =>
    simp only [step] at hs
    split at hs
    · exact Option.some.inj hs ▸ inv_execute h sender found msgInfo lifetime
    · cases hs
  | startBatch x =>
    simp only [step] at hs
    split at hs
    · exact Option.some.inj hs ▸ inv_executor h (h.tasks x).swap rfl rfl rfl
    · cases hs
  | runNext x =>
    simp only [step] at hs
    split at hs
    · rename_i task e hnext
      obtain ⟨htask, hrest⟩ := (h.tasks x).next hnext
      have hpopped : Inv { s with executors := Function.update s.executors x e } := inv_executor h hrest rfl rfl rfl
      cases task with
      | request handler result => exact Option.some.inj hs ▸ inv_addObject hpopped htask
      | response value callback lifetime =>
        simp only [runTask] at hs
        split at hs
        · exact Option.some.inj hs ▸ hpopped
        · exact inv_callCallback hpopped hs
    · cases hs
  | finishBatch x =>
    simp only [step] at hs
    split at hs
    · cases hs
    · exact Option.some.inj hs ▸ inv_executor h (h.tasks x).clear rfl rfl rfl
  | invoke i value =>
    obtain ⟨o, ho, hs⟩ := Option.bind_eq_some_iff.mp hs
    exact inv_operatorCall h ho hs
  | copy i =>
    obtain ⟨o, ho, rfl⟩ := Option.map_eq_some_iff.mp hs
    exact inv_addObject h (h.objects o (List.mem_of_getElem? ho))
  | move i =>
    obtain ⟨o, ho, rfl⟩ := Option.map_eq_some_iff.mp hs
    have hset := inv_setObject h (fits_emptied s.calls (o := o.movedFrom) rfl rfl) i
    exact inv_addObject hset (h.objects o (List.mem_of_getElem? ho))
  | reset l =>
    obtain rfl := Option.some.inj hs
    exact inv_same h rfl rfl rfl
  | destroy c =>
    simp only [step] at hs
    split at hs
    · cases hs
    · exact Option.some.inj hs ▸ inv_same h rfl rfl rfl

theorem inv_init (component : ComponentId → Component) (owner : LifetimeId → Option ComponentId) :
    Inv (init component owner : LateState β) := by
  refine ⟨?_, ?_⟩
  · intro o ho
    exact absurd ho List.not_mem_nil
  · intro x task htask
    exact absurd htask List.not_mem_nil

/-! ## Callbacks -/

/-- Where the lifetime that goes with it has not expired, a callback is that of another call than one that has expired. -/
theorem starts_callCallback {callback : Option CallbackId} {lifetime : Option LifetimeWeakPtr} {value : β}
    (hs : s.callCallback callback value = some s') (hbound : Bound s.calls callback lifetime)
    (hlive : s.lifetimes.expiredOrEmpty lifetime = false) {call : CallbackId} (hcall : s.Expired call) : s'.starts call = s.starts call := by
  obtain ⟨k, hk, rfl⟩ := Option.map_eq_some_iff.mp hs
  obtain ⟨p, hp, hkp⟩ := hbound k hk
  have hne : k ≠ call := by
    rintro rfl
    obtain ⟨q, hq, hexpired⟩ := hcall
    obtain rfl := Option.some.inj (hkp.symm.trans hq)
    rw [hp] at hlive
    rw [show s.lifetimes.expired p = false from hlive] at hexpired
    cases hexpired
  simp [starts, List.countP_append, hne]

/-- No step starts a callback whose call has expired. -/
theorem starts_step (h : Inv s) {a : LateAction β} (hs : s.step a = some s') {call : CallbackId} (hcall : s.Expired call) :
    s'.starts call = s.starts call := by
  cases a with
  | call sender found msgInfo lifetime =>
    simp only [step] at hs
    split at hs
    · obtain rfl := Option.some.inj hs
      simp only [execute, RequestPorts.execute]
      split <;> rfl
    · cases hs
  | startBatch x =>
    simp only [step] at hs
    split at hs
    · exact Option.some.inj hs ▸ rfl
    · cases hs
  | runNext x =>
    simp only [step] at hs
    split at hs
    · rename_i task e hnext
      cases task with
      | request handler result => exact Option.some.inj hs ▸ rfl
      | response value callback lifetime =>
        have hbound : Bound s.calls callback lifetime := ((h.tasks x).next hnext).1
        simp only [runTask] at hs
        split at hs
        · exact Option.some.inj hs ▸ rfl
        · rename_i hlive
          exact starts_callCallback hs hbound (Bool.not_eq_true _ ▸ hlive) hcall
    · cases hs
  | finishBatch x =>
    simp only [step] at hs
    split at hs
    · cases hs
    · exact Option.some.inj hs ▸ rfl
  | invoke i value =>
    obtain ⟨o, ho, hs⟩ := Option.bind_eq_some_iff.mp hs
    have hbound := (h.objects o (List.mem_of_getElem? ho)).callback
    simp only [operatorCall, AnswerPorts.operatorCall] at hs
    split at hs
    · exact Option.some.inj hs ▸ rfl
    · split at hs
      · exact Option.some.inj hs ▸ rfl
      · rename_i hlive
        exact starts_callCallback hs hbound (Bool.not_eq_true _ ▸ hlive) hcall
  | copy i =>
    obtain ⟨o, -, rfl⟩ := Option.map_eq_some_iff.mp hs
    rfl
  | move i =>
    obtain ⟨o, -, rfl⟩ := Option.map_eq_some_iff.mp hs
    rfl
  | reset l => exact Option.some.inj hs ▸ rfl
  | destroy c =>
    simp only [step] at hs
    split at hs
    · cases hs
    · exact Option.some.inj hs ▸ rfl

/-! ## Reads of the client -/

/-- An object whose call has expired has an expired lifetime, or none. -/
theorem expiredOrEmpty_of_fits {o : ResultHandle} (h : Fits s.calls o) (hcall : s.Expired o.call) :
    s.lifetimes.expiredOrEmpty o.lifetime = true := by
  cases hp : o.lifetime with
  | none => rfl
  | some p =>
    obtain ⟨q, hq, hexpired⟩ := hcall
    obtain rfl := Option.some.inj ((h.lifetime p hp).symm.trans hq)
    exact hexpired

/-- A direct result looks at the lifetime first, and does nothing when that has expired. -/
theorem operatorCall_direct {i : Nat} {o : ResultHandle} {value : β} (hdirect : o.receivingExecutor = none)
    (hexpired : s.lifetimes.expiredOrEmpty o.lifetime = true) : s.operatorCall i o value = some s := by
  simp [operatorCall, AnswerPorts.operatorCall, hdirect, hexpired]

/-- A result that is enqueued reads the client, whether or not the lifetime has expired. -/
theorem operatorCall_enqueued (i : Nat) (value : β) {o : ResultHandle} {x : ExecutorId} (henqueued : o.receivingExecutor = some x) :
    ∃ s', s.operatorCall i o value = some s' ∧ s'.read = s.read ++ [o.targetComponent] := by
  simp only [operatorCall, AnswerPorts.operatorCall, henqueued]
  exact ⟨_, rfl, rfl⟩

theorem leavesClientAlone_iff (h : Inv s) (a : LateAction β) : s.LeavesClientAlone a ↔ s.InvokedInTime a := by
  constructor
  · intro hleaves
    cases a with
    | invoke i value =>
      intro o ho hcall
      have hi : s.objects[i]? = some o := ho
      cases hx : o.receivingExecutor with
      | none => rfl
      | some x =>
        obtain ⟨s', hs', hread⟩ := operatorCall_enqueued (s := s) i value hx
        have hstep : s.step (.invoke i value) = some s' := Option.bind_eq_some_iff.mpr ⟨o, hi, hs'⟩
        have hsame := ((hleaves s' hstep).1 i value rfl o ho hcall).1
        rw [hread] at hsame
        exact absurd hsame (by simp)
    | call | startBatch | runNext | finishBatch | copy | move | reset | destroy => trivial
  · intro hin s' hs
    refine ⟨?_, fun call hcall => starts_step h hs hcall⟩
    rintro i value rfl o ho hcall
    have hfits := h.objects o (List.mem_of_getElem? ho)
    obtain ⟨o', ho', hs⟩ := Option.bind_eq_some_iff.mp hs
    obtain rfl := Option.some.inj (ho.symm.trans ho')
    rw [operatorCall_direct (hin o ho hcall) (expiredOrEmpty_of_fits hfits hcall)] at hs
    obtain rfl := Option.some.inj hs
    exact ⟨rfl, rfl⟩

end CancellationAux

namespace LateState

open CancellationAux

variable {β : Type*}

/-- In a run, every step leaves alone the clients whose calls have expired, if and only if no result that still has a client's executor
is invoked after its call has expired. -/
theorem client_leftAlone_iff (component : ComponentId → Component) (owner : LifetimeId → Option ComponentId)
    (acts : List (LateAction β)) :
    AllSteps step LeavesClientAlone (init component owner) acts ↔ AllSteps step InvokedInTime (init component owner) acts :=
  allSteps_congr (fun _ _ _ h hs => inv_step h hs) (fun _ a h => leavesClientAlone_iff h a) (inv_init component owner)

/-- A client on executor 1 calls a receiver on executor 2, whose handler keeps the result; the client is destroyed, and then the result
is invoked. -/
def lateRun : List (LateAction Nat) :=
  [.call 1 { receiver := 2, handler := 20, executor := 2, mutualExecutor := false } 7 ⟨0, 0⟩, .startBatch 2, .runNext 2, .destroy 1,
    .invoke 0 5]

/-- The client is read after it has been destroyed, although the lifetime of the call was its own. -/
theorem destroyed_client_read :
    ¬∀ acts : List (LateAction Nat),
      AllSteps step LeavesClientAlone (init (fun c => { defaultExecutor := c }) fun l => if l = 0 then some 1 else none) acts := by
  intro h
  have hlast := allSteps_iff.mp (h lateRun) (lateRun.take 4) (.invoke 0 5) [] _ rfl rfl _ rfl
  have hread := (hlast.1 0 5 rfl _ rfl ⟨⟨0, 0⟩, rfl, rfl⟩).1
  exact absurd hread (by decide)

end LateState

end Minicomps
