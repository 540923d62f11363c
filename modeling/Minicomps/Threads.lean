import Minicomps.Executor
import Minicomps.Lib.RecursiveMutex
import Minicomps.Listener
import Minicomps.MonoRef
import Minicomps.PolyRef

/-!
# Threads inside components

Which thread runs which handlers. A message is delivered in one of three ways: its handler is called directly when the sender's
default executor is the one the handler is to be run on; otherwise a synchronous query is called with the receiver's lock held,
and an asynchronous query or an event is enqueued. None of them looks at the thread that runs the call.
-/

namespace Minicomps

/-- A handler, as far as its delivery goes: whose it is, and the executor it was published with, if any. -/
structure Handler where
  component : ComponentId
  executorOverride : Option ExecutorId := none
  deriving DecidableEq, Repr

/-- What is fixed when the components are created: their default executors, and which thread calls `execute` on an executor. -/
structure Deployment where
  defaultExecutor : ComponentId → ExecutorId
  pump : ExecutorId → ThreadId

/-- A message, with the handler its sender's reference resolved to. -/
inductive Message where
  /-- A `sync_query` or an `if_sync_query`, or `call_locking` on an `if_volatile_sync_query`. -/
  | syncQuery (handler : Handler)
  /-- `call_same_thread` on an `if_volatile_sync_query`. -/
  | callSameThread (handler : Handler)
  /-- An `async_query`, or an `if_async_query` with what `allow_direct_call_async` was when it was copied. -/
  | asyncQuery (handler : Handler) (allowDirectCall : Bool)
  /-- An event, for one of its subscribers. A subscription has no executor of its own. -/
  | event (subscriber : ComponentId)
  deriving DecidableEq, Repr

/-- The handler a message is for. -/
def Message.handler : Message → Handler
  | .syncQuery h => h
  | .callSameThread h => h
  | .asyncQuery h _ => h
  | .event c => { component := c }

/-- How a message gets to its handler. -/
inductive Delivery where
  | direct | locked | enqueued
  deriving DecidableEq, Repr

namespace Deployment

/-- The executor a handler is to be run on. -/
def executor (d : Deployment) (h : Handler) : ExecutorId := h.executorOverride.getD (d.defaultExecutor h.component)

/-- The thread that the component's default executor is pumped by. -/
def homeThread (d : Deployment) (c : ComponentId) : ThreadId := d.pump (d.defaultExecutor c)

/-- `mutual_executor()` of a reference of the sender. -/
def mutualExecutor (d : Deployment) (sender : ComponentId) (h : Handler) : Bool :=
  decide (d.defaultExecutor sender = d.executor h)

/-- The decision of `sync_query::operator()`, `call_same_thread`, `async_query::execute` and `event::operator()`; `none` for the
`call_same_thread` that aborts. -/
def delivery (d : Deployment) (sender : ComponentId) : Message → Option Delivery
  | .syncQuery h => some (if d.mutualExecutor sender h then .direct else .locked)
  | .callSameThread h => if d.mutualExecutor sender h then some .direct else none
  | .asyncQuery h allowDirectCall => some (if allowDirectCall && d.mutualExecutor sender h then .direct else .enqueued)
  | .event c => some (if d.mutualExecutor sender { component := c } then .direct else .enqueued)

end Deployment

/-- A handler that is running. -/
structure Activation where
  handler : Handler
  /-- It was called with the component's lock, which is unlocked when it returns. -/
  locked : Bool
  deriving DecidableEq, Repr

/-- What is on a thread's call stack. -/
inductive Frame where
  /-- The loop of `execute`. -/
  | execute (x : ExecutorId)
  | handler (a : Activation)
  deriving DecidableEq, Repr

/-- The handler that runs in the frame. -/
def Frame.activation : Frame → Option Activation
  | .execute _ => none
  | .handler a => some a

/-- Threads, executors and the components' locks. -/
structure ThreadSystem where
  executors : ExecutorId → Executor Handler := fun _ => {}
  stack : ThreadId → List Frame := fun _ => []
  lock : ComponentId → RecursiveMutex ThreadId := fun _ => {}

/-- What a thread does next. -/
inductive ThreadAction where
  /-- The executor's thread calls `execute`, which exchanges the vectors. -/
  | execute (x : ExecutorId)
  /-- The loop of `execute` starts its next work item. -/
  | runNext (x : ExecutorId)
  /-- The loop ends, and `execute` returns. -/
  | finishBatch (x : ExecutorId)
  /-- The sender's code sends a message. -/
  | send (t : ThreadId) (sender : ComponentId) (m : Message)
  /-- The running handler returns. -/
  | ret (t : ThreadId)
  deriving DecidableEq, Repr

namespace ThreadSystem

/-- The handlers that run on a thread, the innermost first. -/
def activations (s : ThreadSystem) (t : ThreadId) : List Activation := (s.stack t).filterMap Frame.activation

/-- Push a frame on a thread's stack. -/
def push (s : ThreadSystem) (t : ThreadId) (f : Frame) : ThreadSystem :=
  { s with stack := Function.update s.stack t (f :: s.stack t) }

/-- Drop the top frame of a thread's stack. -/
def pop (s : ThreadSystem) (t : ThreadId) : ThreadSystem :=
  { s with stack := Function.update s.stack t (s.stack t).tail }

/-- Change a component's lock. -/
def setLock (s : ThreadSystem) (c : ComponentId) (m : RecursiveMutex ThreadId) : ThreadSystem :=
  { s with lock := Function.update s.lock c m }

/-- Change an executor. -/
def setExecutor (s : ThreadSystem) (x : ExecutorId) (e : Executor Handler) : ThreadSystem :=
  { s with executors := Function.update s.executors x e }

/-- Code of the component runs on the thread: its innermost frame is a handler of the component, or the thread is outside of all
handlers and of `execute`, where it may call on behalf of any component. -/
def runsCodeOf (s : ThreadSystem) (t : ThreadId) (c : ComponentId) : Bool :=
  match s.stack t with
  | [] => true
  | .handler a :: _ => decide (a.handler.component = c)
  | .execute _ :: _ => false

/-- The next work item of the executor, where its thread is in the loop of `execute`. -/
def nextItem (d : Deployment) (s : ThreadSystem) (x : ExecutorId) : Option (Handler × Executor Handler) :=
  if (s.stack (d.pump x)).head? = some (.execute x) then (s.executors x).next else none

/-- A message whose handler is called with its component's lock; `none` while the thread has to wait for the lock. -/
def callLocked (s : ThreadSystem) (t : ThreadId) (h : Handler) : Option ThreadSystem :=
  ((s.lock h.component).lock t).map fun m => (s.setLock h.component m).push t (.handler ⟨h, true⟩)

/-- A message is delivered to its handler. -/
def deliver (d : Deployment) (s : ThreadSystem) (t : ThreadId) (h : Handler) : Delivery → Option ThreadSystem
  | .direct => some (s.push t (.handler ⟨h, false⟩))
  | .locked => s.callLocked t h
  | .enqueued => some (s.setExecutor (d.executor h) ((s.executors (d.executor h)).enqueueWork h))

/-- One step of one thread; `none` where it cannot be taken, has to wait or aborts. `execute` is not called by the loop of an
`execute`, nor while it runs. -/
def step (d : Deployment) (s : ThreadSystem) : ThreadAction → Option ThreadSystem
  | .execute x =>
    match s.stack (d.pump x) with
    | .execute _ :: _ => none
    | stack =>
      if .execute x ∈ stack then none
      else some ((s.setExecutor x (s.executors x).swap).push (d.pump x) (.execute x))
  | .runNext x =>
    match s.nextItem d x with
    | some (h, e) => some ((s.setExecutor x e).push (d.pump x) (.handler ⟨h, false⟩))
    | none => none
  | .finishBatch x =>
    if (s.stack (d.pump x)).head? = some (.execute x) ∧ (s.executors x).next.isNone then
      some ((s.setExecutor x (s.executors x).clear).pop (d.pump x))
    else none
  | .send t sender m =>
    if s.runsCodeOf t sender then (d.delivery sender m).bind (s.deliver d t m.handler) else none
  | .ret t =>
    match s.stack t with
    | .handler a :: _ =>
      some (if a.locked then (s.setLock a.handler.component (s.lock a.handler.component).unlock).pop t else s.pop t)
    | _ => none

/-- No thread has done anything yet. -/
def init : ThreadSystem := {}

/-- The thread is inside a handler of the component. -/
def Inside (s : ThreadSystem) (t : ThreadId) (c : ComponentId) : Prop :=
  ∃ a ∈ s.activations t, a.handler.component = c

/-- The thread holds the component's lock. -/
def Holds (s : ThreadSystem) (t : ThreadId) (c : ComponentId) : Prop := 0 < (s.lock c).depth t

instance (s : ThreadSystem) (t : ThreadId) (c : ComponentId) : Decidable (s.Holds t c) := inferInstanceAs (Decidable (0 < _))

/-- The handler an action starts, and on which thread: a work item, a direct call, or a call with the lock as soon as the thread
gets it. -/
def starts (d : Deployment) (s : ThreadSystem) : ThreadAction → Option (ThreadId × Activation)
  | .runNext x => (s.nextItem d x).map fun (h, _) => (d.pump x, ⟨h, false⟩)
  | .send t sender m =>
    if s.runsCodeOf t sender then
      match d.delivery sender m with
      | some .direct => some (t, ⟨m.handler, false⟩)
      | some .locked => some (t, ⟨m.handler, true⟩)
      | _ => none
    else none
  | _ => none

/-! ## What the locks are for -/

/-- Every handler runs on the thread of the executor it is to be run on, or on a thread that holds the lock of its component. -/
def Guarded (d : Deployment) (s : ThreadSystem) : Prop :=
  ∀ t, ∀ a ∈ s.activations t, t = d.pump (d.executor a.handler) ∨ s.Holds t a.handler.component

/-- No two threads are inside handlers of one component. -/
def Exclusive (s : ThreadSystem) : Prop := ∀ t u c, s.Inside t c → s.Inside u c → t = u

/-- A handler is called directly only on the thread of the sender's default executor, or on a thread that holds the receiver's
lock. -/
def DirectAtHome (d : Deployment) (s : ThreadSystem) : ThreadAction → Prop
  | .send t sender m =>
    s.runsCodeOf t sender = true → d.delivery sender m = some .direct →
      t = d.pump (d.defaultExecutor sender) ∨ s.Holds t m.handler.component
  | _ => True

/-- Where another thread is inside the component of a handler that is started, the handler needs the lock, and the other thread
holds it. -/
def OthersHoldLock (d : Deployment) (s : ThreadSystem) (a : ThreadAction) : Prop :=
  ∀ t e, s.starts d a = some (t, e) → ∀ u, u ≠ t → s.Inside u e.handler.component →
    e.locked = true ∧ s.Holds u e.handler.component

/-- Each component is called in one way only. A component that `locked` says so of is called with its lock, or directly by a thread that
holds it; any other is called on its home thread, directly or from a queue that this thread runs. -/
def OneWay (d : Deployment) (locked : ComponentId → Bool) (s : ThreadSystem) : ThreadAction → Prop
  | .send t sender m =>
    s.runsCodeOf t sender = true → ∀ delivery, d.delivery sender m = some delivery →
      match delivery, locked m.handler.component with
      | .locked, l => l = true
      | .direct, true => s.Holds t m.handler.component
      | .direct, false => t = d.homeThread m.handler.component
      | .enqueued, l => l = false ∧ d.pump (d.executor m.handler) = d.homeThread m.handler.component
  | _ => True

end ThreadSystem

end Minicomps
