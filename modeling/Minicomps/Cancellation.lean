import Minicomps.AsyncQuery

/-!
# Results that are invoked late

The lifetime of a call may expire at any time after the call: it is reset, or the component it is a member of is destroyed. The
`callback_result` objects of the call stay with whoever holds them, and may be copied, moved and invoked whenever. The state here
remembers which components an invocation has read from, since a client that has been destroyed must not be read any more.
-/

namespace Minicomps

/-- A `callback_result` object. A move leaves the raw pointers in place, and nothing else. -/
structure ResultHandle where
  receivingExecutor : Option ExecutorId
  lifetime : Option LifetimeWeakPtr
  senderComponent : ComponentId
  targetComponent : ComponentId
  msgInfo : MessageId
  callback : Option CallbackId
  /-- History: the call it is a result of. -/
  call : CallbackId
  deriving DecidableEq, Repr

/-- What a move leaves behind. -/
def ResultHandle.movedFrom (o : ResultHandle) : ResultHandle := { o with receivingExecutor := none, lifetime := none, callback := none }

/-- The work items: a `request_task`, by the `callback_result` it makes, and a `response_task`. -/
inductive LateTask (β : Type*) where
  | request (handler : HandlerId) (result : ResultHandle)
  | response (value : β) (callback : Option CallbackId) (lifetime : Option LifetimeWeakPtr)
  deriving DecidableEq, Repr

/-- Clients, their calls, and the objects that were made of the results. -/
structure LateState (β : Type*) where
  component : ComponentId → Component
  destroyed : ComponentId → Bool := fun _ => false
  /-- The component that has the lifetime as a member, if any. -/
  owner : LifetimeId → Option ComponentId
  lifetimes : Lifetimes := fun _ => 0
  executors : ExecutorId → Executor (LateTask β) := fun _ => {}
  objects : List ResultHandle := []
  notified : List Notification := []
  /-- History: the lifetime each call was made with. -/
  calls : List LifetimeWeakPtr := []
  /-- History: the target components that invocations of results have read. -/
  read : List ComponentId := []
  /-- History: the callbacks that were started, and what they were called with. -/
  started : List (CallbackId × β) := []

/-- What happens next. -/
inductive LateAction (β : Type*) where
  /-- An async query with a callback, through a reference whose lookup gave `found`. -/
  | call (sender : ComponentId) (found : Resolution) (msgInfo : MessageId) (lifetime : LifetimeWeakPtr)
  | startBatch (x : ExecutorId)
  | runNext (x : ExecutorId)
  | finishBatch (x : ExecutorId)
  /-- Somebody who holds the object invokes it. -/
  | invoke (i : Nat) (value : β)
  | copy (i : Nat)
  /-- A new object is made by a move from the object. -/
  | move (i : Nat)
  | reset (l : LifetimeId)
  /-- The component is destroyed, and with it the lifetimes that are its members. -/
  | destroy (c : ComponentId)
  deriving DecidableEq, Repr

namespace LateState

variable {β : Type*}

/-- `executor->enqueue_work(task, data)`. -/
def enqueueWork (s : LateState β) (x : ExecutorId) (task : LateTask β) : LateState β :=
  { s with executors := Function.update s.executors x ((s.executors x).enqueueWork task) }

/-- `if (receiving_component->listener) ...`, for a request. -/
def notifyRequest (s : LateState β) (callback : ListenerCallback) (sender receiver : ComponentId) (msgInfo : MessageId) : LateState β :=
  { s with notified := s.notified ++ notify (s.component receiver).listener callback sender receiver msgInfo .request }

/-- `if (target_component_->listener) ...`, which reads the target component. -/
def notifyResponse (s : LateState β) (callback : ListenerCallback) (o : ResultHandle) : LateState β :=
  { s with
    read := s.read ++ [o.targetComponent]
    notified := s.notified ++
      notify (s.component o.targetComponent).listener callback o.senderComponent o.targetComponent o.msgInfo .response }

/-- `callback(result)`; it throws if there is no callback. -/
def callCallback (s : LateState β) (callback : Option CallbackId) (value : β) : Option (LateState β) :=
  callback.map fun k => { s with started := s.started ++ [(k, value)] }

/-- `async_query::execute` with a callback of its own. -/
def execute (s : LateState β) (sender : ComponentId) (found : Resolution) (msgInfo : MessageId) (lifetime : LifetimeWeakPtr) :
    LateState β :=
  let call := s.calls.length
  let s := { s with calls := s.calls ++ [lifetime] }
  let result : ResultHandle :=
    { receivingExecutor := none, lifetime := some lifetime, senderComponent := found.receiver, targetComponent := sender, msgInfo,
      callback := some call, call }
  let queued := { result with receivingExecutor := some (s.component sender).defaultExecutor }
  let ports : RequestPorts (LateState β) (LateState β) :=
    { onInvoke := fun s => s.notifyRequest .onInvoke sender found.receiver msgInfo
      callHandler := fun s => { s with objects := s.objects ++ [result] }
      enqueueWork := fun s => s.enqueueWork found.executor (.request found.handler queued)
      onEnqueue := fun s => s.notifyRequest .onEnqueue sender found.receiver msgInfo }
  ports.execute found.mutualExecutor s

/-- `callback_result::operator()` on the object `o`, which is at `i`. -/
def operatorCall (s : LateState β) (i : Nat) (o : ResultHandle) (value : β) : Option (LateState β) :=
  let ports : AnswerPorts ExecutorId (LateState β) (Option (LateState β)) :=
    { enqueueWork := fun x s =>
        { s with objects := s.objects.set i { o with lifetime := none, callback := none } }.enqueueWork x
          (.response value o.callback o.lifetime)
      onEnqueue := fun s => some (s.notifyResponse .onEnqueue o)
      expired := fun s => s.lifetimes.expiredOrEmpty o.lifetime
      drop := some
      onInvoke := fun s => s.notifyResponse .onInvoke o
      callback := fun s => s.callCallback o.callback value }
  ports.operatorCall o.receivingExecutor s

/-- Run a work item. -/
def runTask (s : LateState β) : LateTask β → Option (LateState β)
  | .request _ result => some { s with objects := s.objects ++ [result] }
  | .response value callback lifetime =>
    if s.lifetimes.expiredOrEmpty lifetime then some s else s.callCallback callback value

/-- The lifetimes after the component has been destroyed. -/
def destroyLifetimes (s : LateState β) (c : ComponentId) : Lifetimes :=
  fun l => if s.owner l = some c then s.lifetimes l + 1 else s.lifetimes l

/-- One step; `none` where it cannot be taken, or ends the program. -/
def step (s : LateState β) : LateAction β → Option (LateState β)
  | .call sender found msgInfo lifetime =>
    if !s.destroyed sender && decide (lifetime.epoch ≤ s.lifetimes lifetime.lifetime) then
      some (s.execute sender found msgInfo lifetime)
    else none
  | .startBatch x =>
    if (s.executors x).workItemsBackBuffer.isEmpty then
      some { s with executors := Function.update s.executors x (s.executors x).swap }
    else none
  | .runNext x =>
    match (s.executors x).next with
    | some (task, e) => { s with executors := Function.update s.executors x e }.runTask task
    | none => none
  | .finishBatch x =>
    match (s.executors x).next with
    | some _ => none
    | none => some { s with executors := Function.update s.executors x (s.executors x).clear }
  | .invoke i value => (s.objects[i]?).bind fun o => s.operatorCall i o value
  | .copy i => (s.objects[i]?).map fun o => { s with objects := s.objects ++ [o] }
  | .move i => (s.objects[i]?).map fun o => { s with objects := s.objects.set i o.movedFrom ++ [o] }
  | .reset l => some { s with lifetimes := s.lifetimes.reset l }
  | .destroy c =>
    if s.destroyed c then none
    else some { s with destroyed := Function.update s.destroyed c true, lifetimes := s.destroyLifetimes c }

/-- No calls yet. -/
def init (component : ComponentId → Component) (owner : LifetimeId → Option ComponentId) : LateState β := { component, owner }

/-! ## What should become of calls that are given up -/

/-- The lifetime of the call has expired. -/
def Expired (s : LateState β) (call : CallbackId) : Prop := ∃ p ∈ s.calls[call]?, s.lifetimes.expired p = true

/-- How often the callback of the call has been started. -/
def starts (s : LateState β) (call : CallbackId) : Nat := s.started.countP fun e => e.1 == call

/-- An invocation of a result whose call has expired leaves the client alone: it is not read, and no listener is told anything. And
whatever the step is, it starts no callback of a call that has expired. -/
def LeavesClientAlone (s : LateState β) (a : LateAction β) : Prop :=
  ∀ s', s.step a = some s' →
    (∀ i value, a = .invoke i value → ∀ o ∈ s.objects[i]?, s.Expired o.call → s'.read = s.read ∧ s'.notified = s.notified) ∧
      ∀ call, s.Expired call → s'.starts call = s.starts call

/-- A result that still has the client's executor is not invoked once its call has expired. -/
def InvokedInTime (s : LateState β) : LateAction β → Prop
  | .invoke i _ => ∀ o ∈ s.objects[i]?, s.Expired o.call → o.receivingExecutor = none
  | _ => True

end LateState

end Minicomps
