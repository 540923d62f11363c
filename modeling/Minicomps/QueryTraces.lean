import Minicomps.Arguments
import Minicomps.Dependencies
import Minicomps.AsyncQuery

/-!
# One handler behind a message query and behind an interface query

`async_query` and `if_async_query` are two copies of one request protocol. The one resolves its message at each call, keeps the
arguments as the call deduced them, and has the task call the handler it found; the other is linked to the published query when a
proxy is made, keeps the arguments as the signature declares them, and has the task call whatever handler the query has by then.
Both are given the same handler, the same calls and the same answers.
-/

namespace Minicomps

/-- One handler, how it is published, and the components around it. -/
structure QueryDeployment where
  defaultExecutor : ComponentId → ExecutorId
  listener : ComponentId → Option ListenerId
  allowDirectCallAsync : ComponentId → Bool
  /-- How often the lifetimes of the components had been reset before. -/
  lifetimes : Lifetimes
  receiver : ComponentId
  handler : HandlerId
  executorOverride : Option ExecutorId
  /-- The parameter at the position is declared as a reference. -/
  isReference : Nat → Bool
  messageType : MessageId
  interfaceType : MessageId
  /-- The interface whose query is given the handler. -/
  impl : InterfaceId
  /-- `msg_info_` of that query. -/
  queryInfo : MessageId

/-! ## What both have in common -/

/-- A work item: a `request_task` with what it captured, or a `response_task`. -/
inductive QueuedTask (ρ β : Type*) where
  | request (r : ρ)
  | response (data : ResponseData β)
  deriving DecidableEq, Repr

/-- What can be seen of a run. -/
inductive TraceEvent (α β : Type*) where
  | invoked (handler : HandlerId) (arguments : List α)
  | calledBack (callback : CallbackId) (value : β)
  | notified (listener : ListenerId) (callback : ListenerCallback) (sender receiver : ComponentId) (type : MessageType)
  deriving DecidableEq, Repr

/-- Requests and responses under way. -/
structure Calls (ρ α β : Type*) where
  memory : VariableId → α
  executors : ExecutorId → Executor (QueuedTask ρ β) := fun _ => {}
  /-- The results that the handler has been given and has not invoked yet. -/
  outstanding : List CallbackResult := []
  /-- How many callbacks have been given to calls. -/
  callbacks : Nat := 0
  trace : List (TraceEvent α β) := []

namespace Calls

variable {ρ α β : Type*}

/-- Add to the trace. -/
def record (s : Calls ρ α β) (e : TraceEvent α β) : Calls ρ α β := { s with trace := s.trace ++ [e] }

/-- `enqueue_work`. -/
def enqueueWork (s : Calls ρ α β) (x : ExecutorId) (task : QueuedTask ρ β) : Calls ρ α β :=
  { s with executors := Function.update s.executors x ((s.executors x).enqueueWork task) }

/-- `if (listener) listener->...`. -/
def notifyListener (s : Calls ρ α β) (listener : Option ListenerId) (callback : ListenerCallback) (sender receiver : ComponentId)
    (type : MessageType) : Calls ρ α β :=
  match listener with
  | some l => s.record (.notified l callback sender receiver type)
  | none => s

/-- A handler starts. From now on the `callback_result` is its own. -/
def startHandler (s : Calls ρ α β) (handler : HandlerId) (arguments : List (StoredArgument α)) (result : CallbackResult) :
    Calls ρ α β :=
  { s.record (.invoked handler (arguments.map (StoredArgument.read s.memory))) with outstanding := s.outstanding ++ [result] }

/-- The callback is started, unless the lifetime has expired. -/
def deliver (lifetimes : Lifetimes) (s : Calls ρ α β) (data : ResponseData β) : Calls ρ α β :=
  if lifetimes.expired data.lifetime then s else s.record (.calledBack data.callback data.result)

/-- `callback_result::operator()`. -/
def operatorCall (lifetimes : Lifetimes) (listener : ComponentId → Option ListenerId) (s : Calls ρ α β) (r : CallbackResult) (value : β) :
    Calls ρ α β :=
  let data : ResponseData β := { result := value, callback := r.callback, lifetime := r.lifetime }
  let ports : AnswerPorts ExecutorId (Calls ρ α β) (Calls ρ α β) :=
    { enqueueWork := fun x s => s.enqueueWork x (.response data)
      onEnqueue := fun s => s.notifyListener (listener r.targetComponent) .onEnqueue r.senderComponent r.targetComponent .response
      expired := fun _ => lifetimes.expired r.lifetime
      drop := fun s => s
      onInvoke := fun s => s.notifyListener (listener r.targetComponent) .onInvoke r.senderComponent r.targetComponent .response
      callback := fun s => s.deliver lifetimes data }
  ports.operatorCall r.receivingExecutor s

/-- The handler, or whoever it has given the result to, invokes it, and gives it up. -/
def respond (lifetimes : Lifetimes) (listener : ComponentId → Option ListenerId) (s : Calls ρ α β) (i : Nat) (value : β) :
    Option (Calls ρ α β) :=
  (s.outstanding[i]?).map fun r => { s with outstanding := s.outstanding.eraseIdx i }.operatorCall lifetimes listener r value

/-- `execute()` exchanges the vectors. It is not called while it runs. -/
def startBatch (s : Calls ρ α β) (x : ExecutorId) : Option (Calls ρ α β) :=
  if (s.executors x).workItemsBackBuffer.isEmpty then
    some { s with executors := Function.update s.executors x (s.executors x).swap }
  else none

/-- The loop of `execute()` takes its next task. -/
def takeNext (s : Calls ρ α β) (x : ExecutorId) : Option (QueuedTask ρ β × Calls ρ α β) :=
  (s.executors x).next.map fun (task, e) => (task, { s with executors := Function.update s.executors x e })

/-- The loop of `execute()` ends. -/
def finishBatch (s : Calls ρ α β) (x : ExecutorId) : Option (Calls ρ α β) :=
  match (s.executors x).next with
  | some _ => none
  | none => some { s with executors := Function.update s.executors x (s.executors x).clear }

end Calls

/-- What happens next. -/
inductive QueryAction (α β : Type*) where
  | publish
  /-- Somebody writes to a variable. -/
  | assign (x : VariableId) (value : α)
  /-- A component calls the query, with a callback. -/
  | call (sender : ComponentId) (arguments : List Argument)
  | respond (i : Nat) (value : β)
  | startBatch (x : ExecutorId)
  | runNext (x : ExecutorId)
  | finishBatch (x : ExecutorId)
  deriving DecidableEq, Repr

namespace QueryDeployment

/-- The components before anything is published. -/
def component (d : QueryDeployment) (c : ComponentId) : Component := { defaultExecutor := d.defaultExecutor c, listener := d.listener c }

/-- The executor the handler is run on. -/
def handlerExecutor (d : QueryDeployment) : ExecutorId := d.executorOverride.getD (d.defaultExecutor d.receiver)

/-- The caller's own executor runs the handler. -/
def mutualExecutor (d : QueryDeployment) (sender : ComponentId) : Bool := decide (d.defaultExecutor sender = d.handlerExecutor)

end QueryDeployment

section

variable {α β : Type*}

/-! ## The message query -/

/-- What `request_task` of `async_query` captures, and its data. -/
structure MessageTask (α : Type*) where
  handler : HandlerId
  data : RequestData (List (StoredArgument α))
  /-- History: what was passed. -/
  passed : List (PassedArgument α)

/-- A world with an `async_query` of each component. -/
structure MessageSystem (α β : Type*) where
  calls : Calls (MessageTask α) α β
  world : World
  refs : ComponentId → MonoRef := fun _ => {}
  published : Bool := false

namespace MessageSystem

/-- `publish_async_query<M>`, in a `publish_dependencies`. -/
def publish (d : QueryDeployment) (s : MessageSystem α β) : Option (MessageSystem α β) :=
  if s.published then none
  else
    ((s.world.publishAsyncQuery d.receiver d.messageType d.handler d.executorOverride).bind fun w => w.publishDependencies d.receiver).map
      fun w => { s with world := w, published := true }

/-- `async_query::execute` after its lookup. -/
def execute (d : QueryDeployment) (s : MessageSystem α β) (sender : ComponentId) (handler : Option HandlerId) (ref : MonoRef)
    (arguments : List Argument) : Option (MessageSystem α β) :=
  let passed := passArguments s.calls.memory arguments
  let callback := s.calls.callbacks
  let lifetime := d.lifetimes.createWeakPtr sender
  let calls := { s.calls with callbacks := s.calls.callbacks + 1 }
  match handler, ref.receiver with
  | some handler, some receivingComponent =>
    let listener := (s.world.component receivingComponent).listener
    let result : CallbackResult :=
      { receivingExecutor := none, lifetime, targetComponent := sender, senderComponent := receivingComponent,
        msgInfo := d.messageType, callback }
    let request : MessageTask α :=
      { handler
        data := { arguments := passed.map storeArgument, callback, receiverExecutor := (s.world.component sender).defaultExecutor,
                  lifetime, receiver := sender, sender := receivingComponent }
        passed }
    let ports : RequestPorts (Calls (MessageTask α) α β) (Option (Calls (MessageTask α) α β)) :=
      { onInvoke := fun calls => calls.notifyListener listener .onInvoke sender receivingComponent .request
        callHandler := fun calls => some (calls.startHandler handler (passed.map storeArgument) result)
        enqueueWork := fun calls => ref.receiverExecutor.map fun x => calls.enqueueWork x (.request request)
        onEnqueue := Option.map fun calls => calls.notifyListener listener .onEnqueue sender receivingComponent .request }
    (ports.execute ref.mutualExecutor calls).map fun calls => { s with calls }
  -- It aborts.
  | _, _ => none

/-- `async_query::execute`. -/
def call (d : QueryDeployment) (s : MessageSystem α β) (sender : ComponentId) (arguments : List Argument) : Option (MessageSystem α β) :=
  let (handler, ref, w) :=
    (s.refs sender).lookup .async d.messageType sender (fun _ => []) (s.world.seenBy (s.refs sender).receiver.toList)
  { s with refs := Function.update s.refs sender ref, world := { w with cached := s.world.cached } }.execute d sender handler ref arguments

/-- `request_task` or `response_task`. -/
def runTask (d : QueryDeployment) (s : MessageSystem α β) : QueuedTask (MessageTask α) β → MessageSystem α β
  | .request r =>
    let result : CallbackResult :=
      { receivingExecutor := some r.data.receiverExecutor, lifetime := r.data.lifetime, targetComponent := r.data.receiver,
        senderComponent := r.data.sender, msgInfo := d.messageType, callback := r.data.callback }
    { s with calls := s.calls.startHandler r.handler r.data.arguments result }
  | .response data => { s with calls := s.calls.deliver d.lifetimes data }

/-- One step; `none` where it cannot be taken, or aborts. -/
def step (d : QueryDeployment) (s : MessageSystem α β) : QueryAction α β → Option (MessageSystem α β)
  | .publish => s.publish d
  | .assign x value => some { s with calls := { s.calls with memory := Function.update s.calls.memory x value } }
  | .call sender arguments => s.call d sender arguments
  | .respond i value =>
    (s.calls.respond d.lifetimes (fun c => (s.world.component c).listener) i value).map fun calls => { s with calls }
  | .startBatch x => (s.calls.startBatch x).map fun calls => { s with calls }
  | .runNext x => (s.calls.takeNext x).map fun (task, calls) => { s with calls }.runTask d task
  | .finishBatch x => (s.calls.finishBatch x).map fun calls => { s with calls }

/-- Nothing has been published or called. -/
def init (d : QueryDeployment) (memory : VariableId → α) : MessageSystem α β :=
  { calls := { memory }, world := World.new d.component (fun _ => 1) }

end MessageSystem

/-! ## The interface query -/

/-- `if_async_query` on the handling side. -/
structure HandlingQuery where
  handler : Option HandlerId := none
  handlingComponent : Option ComponentId := none
  handlingExecutor : Option ExecutorId := none
  deriving DecidableEq, Repr

/-- `if_async_query` in a proxy. It is linked to the query of an interface. -/
structure LinkedQuery where
  linkedQuery : InterfaceId
  linkedHandlingComponent : ComponentId
  linkedExecutor : ExecutorId
  sendingComponent : ComponentId
  sendingLifetime : LifetimeWeakPtr
  callDirectly : Bool
  deriving DecidableEq, Repr

/-- What `request_task` of `if_async_query` captures, and its data. -/
structure InterfaceTask (α : Type*) where
  linkedQuery : InterfaceId
  data : RequestData (List (StoredArgument α))

/-- A world with a reference of each component to the interface. -/
structure InterfaceSystem (α β : Type*) where
  calls : Calls (InterfaceTask α) α β
  world : World
  refs : ComponentId → InterfaceRef := fun _ => {}
  /-- The query of each interface. -/
  queries : InterfaceId → HandlingQuery := fun _ => {}
  /-- The query in each component's proxy. -/
  proxies : ComponentId → Option LinkedQuery := fun _ => none
  published : Bool := false

namespace InterfaceSystem

/-- `if_async_query::call`: an argument is stored as its parameter is declared. -/
def storeArgument (d : QueryDeployment) (i : Nat) (p : PassedArgument α) : StoredArgument α :=
  storeParameter d.isReference i p

/-- `publish_async_query` of the query, which calls `if_async_query::publish`, and `publish_interface`, in a `publish_dependencies`. -/
def publish (d : QueryDeployment) (s : InterfaceSystem α β) : Option (InterfaceSystem α β) :=
  if s.published then none
  else
    let chosenExecutor := match d.executorOverride with
      | some x => x
      | none => (s.world.component d.receiver).defaultExecutor
    let query : HandlingQuery :=
      { handler := some d.handler, handlingComponent := some d.receiver, handlingExecutor := some chosenExecutor }
    let w := { s.world with implemented := Function.update s.world.implemented d.impl true }
    ((w.publishInterface d.receiver d.interfaceType d.impl).bind fun w => w.publishDependencies d.receiver).map fun w =>
      { s with world := w, queries := Function.update s.queries d.impl query, published := true }

/-- The copy constructor of `if_async_query`. -/
def copyQuery (d : QueryDeployment) (w : World) (impl : InterfaceId) (other : HandlingQuery) (sender : ComponentId)
    (lifetime : LifetimeWeakPtr) : Option LinkedQuery :=
  match other.handler, other.handlingComponent, other.handlingExecutor with
  | some _, some component, some executor => some
      { linkedQuery := impl
        linkedHandlingComponent := component
        linkedExecutor := executor
        sendingComponent := sender
        sendingLifetime := lifetime
        callDirectly :=
          if d.allowDirectCallAsync component then decide (executor = (w.component sender).defaultExecutor) else false }
  -- It aborts.
  | _, _, _ => none

/-- `if_async_query::execute`. -/
def execute (d : QueryDeployment) (s : InterfaceSystem α β) (q : LinkedQuery) (arguments : List Argument) :
    Option (InterfaceSystem α β) :=
  let passed := passArguments s.calls.memory arguments
  let stored := passed.mapIdx (storeArgument d)
  let callback := s.calls.callbacks
  let listener := (s.world.component q.linkedHandlingComponent).listener
  let calls := { s.calls with callbacks := s.calls.callbacks + 1 }
  -- Without a handler, it aborts.
  (s.queries q.linkedQuery).handler.map fun handler =>
    let result : CallbackResult :=
      { receivingExecutor := none, lifetime := q.sendingLifetime, targetComponent := q.sendingComponent,
        senderComponent := q.linkedHandlingComponent, msgInfo := d.queryInfo, callback }
    let request : InterfaceTask α :=
      { linkedQuery := q.linkedQuery
        data := { arguments := stored, callback, receiverExecutor := (s.world.component q.sendingComponent).defaultExecutor,
                  lifetime := q.sendingLifetime, receiver := q.sendingComponent, sender := q.linkedHandlingComponent } }
    let ports : RequestPorts (Calls (InterfaceTask α) α β) (Calls (InterfaceTask α) α β) :=
      { onInvoke := fun calls => calls.notifyListener listener .onInvoke q.sendingComponent q.linkedHandlingComponent .request
        callHandler := fun calls => calls.startHandler handler stored result
        enqueueWork := fun calls => calls.enqueueWork q.linkedExecutor (.request request)
        onEnqueue := fun calls => calls.notifyListener listener .onEnqueue q.sendingComponent q.linkedHandlingComponent .request }
    { s with calls := ports.execute q.callDirectly calls }

/-- `interface->query.call(...)`. A lookup that finds its cache unusable makes a new proxy, and with it a copy of the query; one that finds
no interface gives a null pointer. -/
def call (d : QueryDeployment) (s : InterfaceSystem α β) (sender : ComponentId) (arguments : List Argument) :
    Option (InterfaceSystem α β) :=
  let old := s.refs sender
  let lifetime := d.lifetimes.createWeakPtr sender
  (old.lookup d.interfaceType sender lifetime (fun _ => []) (s.world.seenBy old.receiver.toList)).bind fun (answer, ref, w) =>
    answer.bind fun proxy =>
      (if old.localInterfaceProxy.isSome && !s.world.expired old.resolvedReceivers then s.proxies sender
        else copyQuery d s.world proxy.linkedInterface (s.queries proxy.linkedInterface) sender proxy.sendingLifetime).bind fun q =>
        { s with
          refs := Function.update s.refs sender ref
          world := { w with cached := s.world.cached }
          proxies := Function.update s.proxies sender (some q) }.execute d q arguments

/-- `request_task` or `response_task`. A `std::function` without a target throws. -/
def runTask (d : QueryDeployment) (s : InterfaceSystem α β) : QueuedTask (InterfaceTask α) β → Option (InterfaceSystem α β)
  | .request r =>
    let result : CallbackResult :=
      { receivingExecutor := some r.data.receiverExecutor, lifetime := r.data.lifetime, targetComponent := r.data.receiver,
        senderComponent := r.data.sender, msgInfo := d.queryInfo, callback := r.data.callback }
    (s.queries r.linkedQuery).handler.map fun handler => { s with calls := s.calls.startHandler handler r.data.arguments result }
  | .response data => some { s with calls := s.calls.deliver d.lifetimes data }

/-- One step; `none` where it cannot be taken, or aborts. -/
def step (d : QueryDeployment) (s : InterfaceSystem α β) : QueryAction α β → Option (InterfaceSystem α β)
  | .publish => s.publish d
  | .assign x value => some { s with calls := { s.calls with memory := Function.update s.calls.memory x value } }
  | .call sender arguments => s.call d sender arguments
  | .respond i value =>
    (s.calls.respond d.lifetimes (fun c => (s.world.component c).listener) i value).map fun calls => { s with calls }
  | .startBatch x => (s.calls.startBatch x).map fun calls => { s with calls }
  | .runNext x => (s.calls.takeNext x).bind fun (task, calls) => { s with calls }.runTask d task
  | .finishBatch x => (s.calls.finishBatch x).map fun calls => { s with calls }

/-- Nothing has been published or called. -/
def init (d : QueryDeployment) (memory : VariableId → α) : InterfaceSystem α β :=
  { calls := { memory }, world := World.new d.component (fun _ => 1) }

end InterfaceSystem

/-! ## What the two should agree on -/

/-- A direct call is made only where the handler's component allows it; and when a request is run, an argument that was passed as an lvalue
to a parameter that is no reference, or as an rvalue to one that is, still has the value it had at the call. -/
def MessageSystem.KeepsPace (d : QueryDeployment) (s : MessageSystem α β) : QueryAction α β → Prop
  | .call sender _ => s.published = true → d.mutualExecutor sender = true → d.allowDirectCallAsync d.receiver = true
  | .runNext x => ∀ r calls, s.calls.takeNext x = some (.request r, calls) → ∀ i p, r.passed[i]? = some p →
      p.lvalue ≠ d.isReference i → s.calls.memory p.storage = p.value
  | _ => True

end

end Minicomps
