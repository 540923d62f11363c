import Minicomps.Executor
import Minicomps.Lifetime
import Minicomps.RequestProtocol
import Minicomps.Threads
import Mathlib.Logic.Function.Basic

/-!
# Whose code runs in which context

Threads that run the code of components: their handlers, event handlers and response callbacks, and whatever else is entered from
outside. A direct call keeps the caller's context, and so does a direct response, at any depth; what is enqueued runs in the loop
of `execute`. A component keeps the `callback_result`s that are handed to its handlers, and may invoke them later, any number of
times. The first answer that is enqueued through such an object moves its callback and its lifetime out; since the object may be
copied before, the steps say of each answer whether it goes through an object that is spent like this.
-/

namespace Minicomps

namespace Context

/-- Which of the `callback_result`s that have been made. -/
abbrev ResultId := Nat

/-- The callback of a call, by code of `component`. One that `with_successful_callback` made hands a failure on to `outerResult`. -/
structure Callback where
  component : ComponentId
  outerResult : Option ResultId
  deriving DecidableEq, Repr

/-- `callback_result`. -/
structure CallbackResult where
  /-- A null pointer for a call that was made directly. -/
  receivingExecutor : Option ExecutorId
  lifetime : LifetimeWeakPtr
  targetComponent : ComponentId
  /-- The component whose handler it was handed to. -/
  senderComponent : ComponentId
  callback : Callback
  deriving DecidableEq, Repr

/-- `request_data`. The caller is its `receiver`, since it receives the response. -/
structure RequestData where
  callback : Callback
  receiverExecutor : ExecutorId
  lifetime : LifetimeWeakPtr
  receiver : ComponentId
  sender : ComponentId
  deriving DecidableEq, Repr

/-- `response_data`, with nothing of the result but whether it is a success. -/
structure ResponseData where
  success : Bool
  callback : Callback
  /-- Empty if it had been moved out; an empty pointer is expired. -/
  lifetime : Option LifetimeWeakPtr
  deriving DecidableEq, Repr

/-- The work items of an executor. -/
inductive WorkItem where
  /-- Somebody's own work item, which enters code of the component. -/
  | entry (c : ComponentId)
  | request (data : RequestData)
  | event (subscriber : ComponentId)
  | response (data : ResponseData)
  deriving DecidableEq, Repr

/-- What is on a thread's call stack. -/
inductive Frame where
  /-- The loop of `execute`. -/
  | execute (x : ExecutorId)
  /-- Code of the component: a handler, an event handler, a callback, or what was entered from outside. -/
  | code (c : ComponentId)
  /-- The callback that `with_successful_callback` made, about to hand a failure on. -/
  | handOn (c : ComponentId) (outerResult : ResultId)
  deriving DecidableEq, Repr

/-- The component whose code runs in the frame. -/
def Frame.component : Frame → Option ComponentId
  | .execute _ => none
  | .code c | .handOn c _ => some c

/-- The executor whose `execute` the frames above run in: that of the innermost one. -/
def context : List Frame → Option ExecutorId
  | [] => none
  | .execute x :: _ => some x
  | _ :: rest => context rest

/-- Threads, executors, and the `callback_result`s that components hold. -/
structure System where
  executors : ExecutorId → Executor WorkItem := fun _ => {}
  /-- Some thread is in `execute`. -/
  executing : ExecutorId → Bool := fun _ => false
  stack : ThreadId → List Frame := fun _ => []
  lifetimes : Lifetimes := fun _ => 0
  results : List CallbackResult := []

/-- What a thread does next. -/
inductive Action where
  | execute (t : ThreadId) (x : ExecutorId)
  /-- The loop of `execute` starts its next work item. -/
  | runNext (t : ThreadId)
  /-- The loop ends, and `execute` returns. -/
  | finishBatch (t : ThreadId)
  /-- Code of the component is entered other than by a message. -/
  | enter (t : ThreadId) (c : ComponentId)
  /-- Whatever runs on the thread enqueues a work item of its own, which is to enter code of the component. -/
  | post (t : ThreadId) (x : ExecutorId) (c : ComponentId)
  /-- The running component makes a call of an `async_query` or an `if_async_query`, `with_callback` or with an outer result. -/
  | call (t : ThreadId) (h : Handler) (allowDirectCall : Bool) (lifetime : LifetimeWeakPtr) (outerResult : Option ResultId)
  /-- The running component sends an event, and this is the round for one of its subscribers. -/
  | event (t : ThreadId) (subscriber : ComponentId)
  /-- The running code invokes a `callback_result`. -/
  | resolve (t : ThreadId) (i : ResultId) (success spent : Bool)
  /-- The callback that `with_successful_callback` made hands its failure on. -/
  | handOn (t : ThreadId) (spent : Bool)
  /-- The running code returns. -/
  | ret (t : ThreadId)
  | reset (lifetime : LifetimeId)
  deriving DecidableEq, Repr

namespace System

/-- Push a frame on a thread's stack. -/
def push (s : System) (t : ThreadId) (f : Frame) : System := { s with stack := Function.update s.stack t (f :: s.stack t) }

/-- Drop the top frame of a thread's stack. -/
def pop (s : System) (t : ThreadId) : System := { s with stack := Function.update s.stack t (s.stack t).tail }

/-- Change an executor. -/
def setExecutor (s : System) (x : ExecutorId) (e : Executor WorkItem) : System :=
  { s with executors := Function.update s.executors x e }

/-- `executor->enqueue_work`. -/
def enqueueWork (s : System) (x : ExecutorId) (item : WorkItem) : System := s.setExecutor x ((s.executors x).enqueueWork item)

/-- The component whose code runs on the thread. -/
def running (s : System) (t : ThreadId) : Option ComponentId :=
  match s.stack t with
  | .code c :: _ => some c
  | _ => none

/-- The thread is in the loop of an `execute`, between two work items. -/
def inLoop (s : System) (t : ThreadId) : Option ExecutorId :=
  match s.stack t with
  | .execute x :: _ => some x
  | _ => none

/-- The callback of which component is about to hand a failure on, and to which result. -/
def handingOn (s : System) (t : ThreadId) : Option (ComponentId × ResultId) :=
  match s.stack t with
  | .handOn c outer :: _ => some (c, outer)
  | _ => none

/-- A callback is called. The one that `with_successful_callback` made looks at the result first. -/
def startCallback (s : System) (t : ThreadId) (callback : Callback) (success : Bool) : System :=
  match callback.outerResult with
  | some outer => s.push t (if success then .code callback.component else .handOn callback.component outer)
  | none => s.push t (.code callback.component)

/-- A handler is called with a `callback_result`, which its component holds from now on. -/
def startHandler (s : System) (t : ThreadId) (c : ComponentId) (r : CallbackResult) : System :=
  { s with results := s.results ++ [r] }.push t (.code c)

/-- `callback_result::operator()`. -/
def operatorCall (s : System) (t : ThreadId) (r : CallbackResult) (success spent : Bool) : System :=
  let data : ResponseData := { success, callback := r.callback, lifetime := if spent then none else some r.lifetime }
  let ports : AnswerPorts ExecutorId System System :=
    { enqueueWork := fun x s => s.enqueueWork x (.response data)
      onEnqueue := fun s => s
      expired := fun s => s.lifetimes.expired r.lifetime
      drop := fun s => s
      callback := fun s => s.startCallback t r.callback success }
  ports.operatorCall r.receivingExecutor s

/-- The loop of `execute` runs a work item. -/
def runItem (s : System) (t : ThreadId) : WorkItem → System
  | .entry c => s.push t (.code c)
  | .request data =>
    s.startHandler t data.sender
      { receivingExecutor := some data.receiverExecutor, lifetime := data.lifetime, targetComponent := data.receiver,
        senderComponent := data.sender, callback := data.callback }
  | .event subscriber => s.push t (.code subscriber)
  | .response data => if s.lifetimes.expiredOrEmpty data.lifetime then s else s.startCallback t data.callback data.success

/-- The executor a handler is to be run on. -/
def executor (defaultExecutor : ComponentId → ExecutorId) (h : Handler) : ExecutorId :=
  h.executorOverride.getD (defaultExecutor h.component)

/-- `async_query::execute`, and that of `if_async_query`, by code of the sender. -/
def call (defaultExecutor : ComponentId → ExecutorId) (s : System) (t : ThreadId) (sender : ComponentId) (h : Handler)
    (allowDirectCall : Bool) (lifetime : LifetimeWeakPtr) (outerResult : Option ResultId) : System :=
  let callback : Callback := { component := sender, outerResult }
  let result : CallbackResult :=
    { receivingExecutor := none, lifetime, targetComponent := sender, senderComponent := h.component, callback }
  let request : RequestData :=
    { callback, receiverExecutor := defaultExecutor sender, lifetime, receiver := sender, sender := h.component }
  let ports : RequestPorts System System :=
    { callHandler := fun s => s.startHandler t h.component result
      enqueueWork := fun s => s.enqueueWork (executor defaultExecutor h) (.request request) }
  ports.execute (allowDirectCall && decide (defaultExecutor sender = executor defaultExecutor h)) s

/-- One round of the loop of `event::operator()`. -/
def sendTo (defaultExecutor : ComponentId → ExecutorId) (s : System) (t : ThreadId) (sender subscriber : ComponentId) : System :=
  if defaultExecutor subscriber = defaultExecutor sender then s.push t (.code subscriber)
  else s.enqueueWork (defaultExecutor subscriber) (.event subscriber)

/-- One step of one thread; `none` where it cannot be taken. The loop of an `execute` does nothing else. The `execute` of an executor is not
called while it runs, neither by another thread nor from one of its own work items: the swap would take the vector from under the loop. -/
def step (defaultExecutor : ComponentId → ExecutorId) (s : System) : Action → Option System
  | .execute t x =>
    if s.executing x || (s.inLoop t).isSome then none
    else some ({ s with executing := Function.update s.executing x true }.setExecutor x (s.executors x).swap |>.push t (.execute x))
  | .runNext t =>
    match s.inLoop t with
    | none => none
    | some x =>
      match (s.executors x).next with
      | some (item, e) => some ((s.setExecutor x e).runItem t item)
      | none => none
  | .finishBatch t =>
    match s.inLoop t with
    | none => none
    | some x =>
      match (s.executors x).next with
      | some _ => none
      | none => some ({ s with executing := Function.update s.executing x false }.setExecutor x (s.executors x).clear |>.pop t)
  | .enter t c => if (s.inLoop t).isSome then none else some (s.push t (.code c))
  | .post t x c => if (s.inLoop t).isSome then none else some (s.enqueueWork x (.entry c))
  | .call t h allowDirectCall lifetime outerResult =>
    if outerResult.all (fun outer => decide (outer < s.results.length)) then
      (s.running t).map fun sender => s.call defaultExecutor t sender h allowDirectCall lifetime outerResult
    else none
  | .event t subscriber => (s.running t).map fun sender => s.sendTo defaultExecutor t sender subscriber
  | .resolve t i success spent =>
    if (s.inLoop t).isSome then none else (s.results[i]?).map fun r => s.operatorCall t r success spent
  | .handOn t spent =>
    match s.handingOn t with
    | some (c, outer) => (s.results[outer]?).map fun r => ((s.pop t).push t (.code c)).operatorCall t r false spent
    | none => none
  | .ret t => (s.running t).map fun _ => s.pop t
  | .reset l => some { s with lifetimes := s.lifetimes.reset l }

/-- No thread has done anything yet. -/
def init : System := {}

/-! ## What contexts are for -/

/-- The code of every component runs in an `execute` of the component's default executor. -/
def AtHome (defaultExecutor : ComponentId → ExecutorId) (s : System) : Prop :=
  ∀ t above f below c, s.stack t = above ++ f :: below → f.component = some c → context below = some (defaultExecutor c)

/-- A message has no executor override, a component is entered from outside in an `execute` of its default executor, and a
`callback_result` is invoked by code of the component it was handed to. -/
def Disciplined (defaultExecutor : ComponentId → ExecutorId) (s : System) : Action → Prop
  | .enter t c => context (s.stack t) = some (defaultExecutor c)
  | .post _ x c => x = defaultExecutor c
  | .call _ h _ _ _ => h.executorOverride = none
  | .resolve t i _ _ => s.running t = (s.results[i]?).map CallbackResult.senderComponent
  | .handOn t _ => ∀ p ∈ s.handingOn t, some p.1 = (s.results[p.2]?).map CallbackResult.senderComponent
  | _ => True

instance (defaultExecutor : ComponentId → ExecutorId) (s : System) : ∀ a, Decidable (s.Disciplined defaultExecutor a)
  | .enter _ _ | .post .. | .call .. | .resolve .. => inferInstanceAs (Decidable (_ = _))
  | .handOn _ _ => inferInstanceAs (Decidable (∀ _ ∈ (_ : Option _), _ = _))
  | .execute .. | .runNext _ | .finishBatch _ | .event .. | .ret _ | .reset _ => isTrue trivial

end System

end Context

end Minicomps
