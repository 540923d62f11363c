import Minicomps.Executor
import Minicomps.Lifetime
import Minicomps.Listener
import Minicomps.MonoRef
import Minicomps.RequestProtocol

/-!
# Asynchronous queries

`async_query::execute` calls the handler directly when the caller is on the executor the handler is to be run on, and otherwise
enqueues the request there. The handler gets a `callback_result`, which it may invoke at once or keep; invoking it starts the
caller's callback, directly or through a response that is enqueued on the caller's executor, unless the lifetime of the call has
expired by then.

A call's arguments are here the tuple that the call keeps of them, whatever it has copied and whatever it only refers to. Reading them is
left to `QueryArguments`.
-/

namespace Minicomps

/-- The callback given to a call; every call has one of its own. -/
abbrev CallbackId := Nat

/-- `callback_result`. -/
structure CallbackResult where
  /-- A null pointer for a call that was made directly. -/
  receivingExecutor : Option ExecutorId
  lifetime : LifetimeWeakPtr
  targetComponent : ComponentId
  senderComponent : ComponentId
  msgInfo : MessageId
  callback : CallbackId
  deriving DecidableEq, Repr

/-- `callback_result::canceled`. -/
def CallbackResult.canceled (r : CallbackResult) (lifetimes : Lifetimes) : Bool := lifetimes.expired r.lifetime

/-- `request_data`. The caller is its `receiver`, since it receives the response. -/
structure RequestData (α : Type*) where
  /-- The tuple, as the call has made it. -/
  arguments : α
  callback : CallbackId
  receiverExecutor : ExecutorId
  lifetime : LifetimeWeakPtr
  receiver : ComponentId
  sender : ComponentId
  deriving DecidableEq, Repr

/-- `response_data`. -/
structure ResponseData (β : Type*) where
  result : β
  callback : CallbackId
  lifetime : LifetimeWeakPtr
  deriving DecidableEq, Repr

/-- The work items of async queries: `request_task` with what it captured, and `response_task`. -/
inductive Task (α β : Type*) where
  | request (handler : HandlerId) (msgInfo : MessageId) (data : RequestData α)
  | response (data : ResponseData β)
  deriving DecidableEq, Repr

/-- A call: who makes it, what its reference resolved to, and what it was given. -/
structure Call (α : Type*) where
  sender : ComponentId
  senderExecutor : ExecutorId
  found : Resolution
  msgInfo : MessageId
  arguments : α
  lifetime : LifetimeWeakPtr
  callback : CallbackId
  deriving DecidableEq, Repr

/-- An invocation of a handler, and the executor whose loop makes it; none if it is made inside the call. -/
structure Invocation (α : Type*) where
  executor : Option ExecutorId
  handler : HandlerId
  arguments : α
  result : CallbackResult
  deriving DecidableEq, Repr

/-- A value on its way to a callback, and the executor it is enqueued on; none if it is handed over directly. -/
structure Response (β : Type*) where
  executor : Option ExecutorId
  result : β
  callback : CallbackId
  lifetime : LifetimeWeakPtr
  deriving DecidableEq, Repr

/-- What has happened. -/
inductive HistoryEntry (α β : Type*) where
  | issued (call : Call α)
  | handlerStarted (invocation : Invocation α)
  /-- A `callback_result` was invoked. -/
  | resolved (response : Response β)
  /-- The value got to where the callback is started, unless the lifetime has expired. -/
  | delivered (response : Response β) (callbackStarted : Bool)
  | reset (lifetime : LifetimeId)
  deriving DecidableEq, Repr

/-- Components on their executors, and what is going on between them. -/
structure AsyncSystem (α β : Type*) where
  component : ComponentId → Component
  executors : ExecutorId → Executor (Task α β) := fun _ => {}
  lifetimes : Lifetimes := fun _ => 0
  /-- The results handed to handlers and not invoked yet. -/
  outstanding : List CallbackResult := []
  notified : List Notification := []
  /-- How many callbacks have been given to calls. -/
  callbacks : Nat := 0
  history : List (HistoryEntry α β) := []

/-- One step of the system. -/
inductive AsyncAction (α β : Type*) where
  /-- An async query with a callback, through a reference whose lookup gave `found`. -/
  | call (sender : ComponentId) (found : Option Resolution) (msgInfo : MessageId) (arguments : α) (lifetime : LifetimeWeakPtr)
  /-- `execute()` exchanges the vectors of the executor. -/
  | startBatch (x : ExecutorId)
  /-- The loop of `execute()` runs its next task. -/
  | runNext (x : ExecutorId)
  /-- The loop of `execute()` ends. -/
  | finishBatch (x : ExecutorId)
  /-- Somebody who holds it invokes an outstanding result, and gives it up. -/
  | resolve (i : Nat) (value : β)
  | reset (lifetime : LifetimeId)
  | setListener (c : ComponentId) (listener : Option ListenerId)
  deriving DecidableEq, Repr

namespace AsyncSystem

variable {α β : Type*}

/-- Add an entry to the history. -/
def record (s : AsyncSystem α β) (e : HistoryEntry α β) : AsyncSystem α β := { s with history := s.history ++ [e] }

/-- `executor->enqueue_work(task, data)`. -/
def enqueueWork (s : AsyncSystem α β) (x : ExecutorId) (task : Task α β) : AsyncSystem α β :=
  { s with executors := Function.update s.executors x ((s.executors x).enqueueWork task) }

/-- `if (c->listener) c->listener->...`. -/
def notifyListener (s : AsyncSystem α β) (c : ComponentId) (callback : ListenerCallback) (sender receiver : ComponentId)
    (msgInfo : MessageId) (type : MessageType) : AsyncSystem α β :=
  { s with notified := s.notified ++ notify (s.component c).listener callback sender receiver msgInfo type }

/-- A handler starts. From now on the `callback_result` is its own. -/
def startHandler (s : AsyncSystem α β) (i : Invocation α) : AsyncSystem α β :=
  { s.record (.handlerStarted i) with outstanding := s.outstanding ++ [i.result] }

/-- The end of a response: the callback is started, if the lifetime has not expired. -/
def deliver (s : AsyncSystem α β) (r : Response β) : AsyncSystem α β :=
  s.record (.delivered r (!s.lifetimes.expired r.lifetime))

/-- `async_query::execute`; it aborts when the lookup found no handler. -/
def execute (s : AsyncSystem α β) (sender : ComponentId) (found : Option Resolution) (msgInfo : MessageId) (arguments : α)
    (lifetime : LifetimeWeakPtr) : Option (AsyncSystem α β) :=
  match found with
  | none => none
  | some found =>
    let callback := s.callbacks
    let senderExecutor := (s.component sender).defaultExecutor
    let s := { s with callbacks := s.callbacks + 1 }
    let s := s.record (.issued { sender, senderExecutor, found, msgInfo, arguments, lifetime, callback })
    let result : CallbackResult :=
      { receivingExecutor := none, lifetime, targetComponent := sender, senderComponent := found.receiver, msgInfo, callback }
    let request : RequestData α :=
      { arguments, callback, receiverExecutor := senderExecutor, lifetime, receiver := sender, sender := found.receiver }
    let ports : RequestPorts (AsyncSystem α β) (AsyncSystem α β) :=
      { onInvoke := fun s => s.notifyListener found.receiver .onInvoke sender found.receiver msgInfo .request
        callHandler := fun s => s.startHandler { executor := none, handler := found.handler, arguments, result }
        enqueueWork := fun s => s.enqueueWork found.executor (.request found.handler msgInfo request)
        onEnqueue := fun s => s.notifyListener found.receiver .onEnqueue sender found.receiver msgInfo .request }
    some (ports.execute found.mutualExecutor s)

/-- Run a work item on an executor: `request_task` or `response_task`. -/
def runTask (s : AsyncSystem α β) (x : ExecutorId) : Task α β → AsyncSystem α β
  | .request handler msgInfo request =>
    s.startHandler
      { executor := some x
        handler
        arguments := request.arguments
        result := { receivingExecutor := some request.receiverExecutor, lifetime := request.lifetime,
                    targetComponent := request.receiver, senderComponent := request.sender, msgInfo,
                    callback := request.callback } }
  | .response response =>
    s.deliver { executor := some x, result := response.result, callback := response.callback, lifetime := response.lifetime }

/-- `callback_result::operator()`. -/
def operatorCall (s : AsyncSystem α β) (r : CallbackResult) (value : β) : AsyncSystem α β :=
  let response : Response β :=
    { executor := r.receivingExecutor, result := value, callback := r.callback, lifetime := r.lifetime }
  let data : ResponseData β := { result := value, callback := r.callback, lifetime := r.lifetime }
  let ports : AnswerPorts ExecutorId (AsyncSystem α β) (AsyncSystem α β) :=
    { enqueueWork := fun x s => s.enqueueWork x (.response data)
      onEnqueue := fun s => s.notifyListener r.targetComponent .onEnqueue r.senderComponent r.targetComponent r.msgInfo .response
      expired := fun s => s.lifetimes.expired r.lifetime
      drop := fun s => s.deliver response
      onInvoke := fun s => s.notifyListener r.targetComponent .onInvoke r.senderComponent r.targetComponent r.msgInfo .response
      callback := fun s => s.deliver response }
  ports.operatorCall r.receivingExecutor (s.record (.resolved response))

/-- One step; `none` where it cannot be taken, or aborts. A call is given a weak pointer that was made from a lifetime, now or
earlier. `execute()` is not called while it runs. -/
def step (s : AsyncSystem α β) : AsyncAction α β → Option (AsyncSystem α β)
  | .call sender found msgInfo arguments lifetime =>
    if lifetime.epoch ≤ s.lifetimes lifetime.lifetime then s.execute sender found msgInfo arguments lifetime else none
  | .startBatch x =>
    if (s.executors x).workItemsBackBuffer.isEmpty then
      some { s with executors := Function.update s.executors x (s.executors x).swap }
    else none
  | .runNext x =>
    match (s.executors x).next with
    | some (task, e) => some ({ s with executors := Function.update s.executors x e }.runTask x task)
    | none => none
  | .finishBatch x =>
    match (s.executors x).next with
    | some _ => none
    | none => some { s with executors := Function.update s.executors x (s.executors x).clear }
  | .resolve i value =>
    match s.outstanding[i]? with
    | some r => some ({ s with outstanding := s.outstanding.eraseIdx i }.operatorCall r value)
    | none => none
  | .reset l => some ({ s with lifetimes := s.lifetimes.reset l }.record (.reset l))
  | .setListener c listener =>
    some { s with component := Function.update s.component c { s.component c with listener } }

/-- Nothing has happened yet. -/
def init (component : ComponentId → Component) : AsyncSystem α β := { component }

end AsyncSystem

end Minicomps
