import Minicomps.Executor
import Minicomps.Lib.History
import Mathlib.Logic.Function.Basic

/-!
# What a listener is told of enqueued calls

A request is put on the receiver's executor first, and the listener is told of it then. So it is with a response, on the other side. Here
are a client thread and a receiver thread, with one listener for both components. The calls are numbered.
-/

namespace Minicomps

/-- A notification of the listener. -/
inductive QueueNotification where
  | request (call : Nat)
  | response (call : Nat)
  deriving DecidableEq, Repr

/-- The thread that runs an executor. -/
inductive QueueThread where
  | client | receiver
  deriving DecidableEq, Repr

/-- Both executors, and where the threads are. -/
structure ListenedQueues where
  /-- The requests wait at the receiver, and the responses at the client. -/
  executors : QueueThread → Executor Nat := fun _ => {}
  calls : Nat := 0
  /-- The client has enqueued the request of this call and is about to tell the listener. -/
  calling : Option Nat := none
  /-- The results that handlers have and have not invoked yet. -/
  outstanding : List Nat := []
  /-- The receiver has enqueued the response to this call and is about to tell the listener. -/
  responding : Option Nat := none
  /-- What the listener has been told. -/
  notified : List QueueNotification := []

inductive QueueAction where
  /-- `async_query::execute` or `if_async_query::execute`, up to `enqueue_work`. -/
  | call
  /-- `listener->on_enqueue(..., REQUEST)` there. -/
  | notifyRequest
  /-- `callback_result::operator()`, up to `enqueue_work`, for a result that a handler has. -/
  | respond (i : Nat)
  /-- `listener->on_enqueue(..., RESPONSE)` there. -/
  | notifyResponse
  | startBatch (t : QueueThread)
  | runNext (t : QueueThread)
  | finishBatch (t : QueueThread)
  deriving DecidableEq, Repr

namespace ListenedQueues

/-- The thread is between an `enqueue_work` and the notification. -/
def busy (s : ListenedQueues) : QueueThread → Bool
  | .client => s.calling.isSome
  | .receiver => s.responding.isSome

/-- Replace the executor of a thread. -/
def setExecutor (s : ListenedQueues) (t : QueueThread) (e : Executor Nat) : ListenedQueues :=
  { s with executors := Function.update s.executors t e }

/-- A `request_task`, which starts the handler, or a `response_task`. -/
def runTask (s : ListenedQueues) : QueueThread → Nat → ListenedQueues
  | .receiver, call => { s with outstanding := s.outstanding ++ [call] }
  | .client, _ => s

/-- One step of one thread; `none` where it cannot be taken. -/
def step (s : ListenedQueues) : QueueAction → Option ListenedQueues
  | .call =>
    if s.busy .client then none
    else
      some { s with
        executors := Function.update s.executors .receiver ((s.executors .receiver).enqueueWork s.calls)
        calls := s.calls + 1
        calling := some s.calls }
  | .notifyRequest => s.calling.map fun call => { s with notified := s.notified ++ [.request call], calling := none }
  | .respond i =>
    if s.busy .receiver then none
    else
      s.outstanding[i]?.map fun call =>
        { s with
          executors := Function.update s.executors .client ((s.executors .client).enqueueWork call)
          outstanding := s.outstanding.eraseIdx i
          responding := some call }
  | .notifyResponse => s.responding.map fun call => { s with notified := s.notified ++ [.response call], responding := none }
  | .startBatch t =>
    if s.busy t = false ∧ (s.executors t).workItemsBackBuffer = [] then some (s.setExecutor t (s.executors t).swap) else none
  | .runNext t => if s.busy t then none else (s.executors t).next.map fun (call, e) => (s.setExecutor t e).runTask t call
  | .finishBatch t =>
    if s.busy t = false ∧ (s.executors t).next.isNone then some (s.setExecutor t (s.executors t).clear) else none

/-- Nothing has been called. -/
def init : ListenedQueues := {}

/-- The listener has been told of the request when it is told of the response. -/
def Announced (pre : List QueueNotification) : QueueNotification → Prop
  | .request _ => True
  | .response call => .request call ∈ pre

/-- The listener is told of each request before it is told of the response. -/
def RequestFirst (s : ListenedQueues) : Prop := History.AllJustified Announced s.notified

/-- The receiver does not get to the notification of a response while the client is between the `enqueue_work` of the same call and the
notification. -/
def ClientAhead (s : ListenedQueues) : QueueAction → Prop
  | .notifyResponse => s.responding.isSome → s.calling ≠ s.responding
  | _ => True

/-- The receiver does not exchange its vectors while the client is between an `enqueue_work` and the notification. -/
def BatchesApart (s : ListenedQueues) : QueueAction → Prop
  | .startBatch .receiver => s.calling = none
  | _ => True

end ListenedQueues

end Minicomps
