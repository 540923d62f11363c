import Minicomps.Component
import Minicomps.Executor
import Minicomps.Lifetime
import Minicomps.RequestProtocol

/-!
# Calls in a row

A handler may pass its own `callback_result` on: it calls another query `with_successful_callback`, whose callback gets the result back
together with the value and calls the next query with it, and so on. Each call is made directly or through the executors, by
`async_query` or by `if_async_query`, and its handler answers at any time. The listeners are left out.
-/

namespace Minicomps

namespace ChainedCalls

/-- `mc::concrete_result`. -/
inductive ConcreteResult (β φ : Type*) where
  | value (v : β)
  | failure (f : φ)
  deriving DecidableEq, Repr

/-- The query that is called, as far as `execute` looks at it. -/
inductive Query where
  /-- An `async_query`, and what its lookup gave. -/
  | asyncQuery (mutualExecutor : Bool) (receiverExecutor : ExecutorId)
  /-- An `if_async_query` in a proxy. -/
  | ifAsyncQuery (callDirectly : Bool) (linkedExecutor : ExecutorId)
  deriving DecidableEq, Repr

/-- A call of a query. -/
structure Call (α : Type*) where
  query : Query
  arguments : α
  /-- The `default_executor` of the component that calls. -/
  senderExecutor : ExecutorId
  lifetime : LifetimeWeakPtr
  deriving DecidableEq, Repr

/-- What one link of the chain calls, given the values that the links before it got. -/
abbrev Stage (α β : Type*) := List β → Call α

/-- The `callback_result` that is passed on. Its callback is the business of whoever made the call that the chain is to answer. -/
structure OuterResult where
  /-- A null pointer for a call that was made directly. -/
  receivingExecutor : Option ExecutorId
  lifetime : LifetimeWeakPtr
  deriving DecidableEq, Repr

/-- A callback. -/
inductive Callback (α β : Type*) where
  /-- The one that comes with the outer result. -/
  | outer
  /-- The closure that `with_successful_callback` makes: the outer result and the callback of a stage, which has captured the values so far
  and knows which stages are left. -/
  | successful (outerResult : OuterResult) (rest : List (Stage α β)) (values : List β)

/-- The `callback_result` of a stage, which its handler is given. -/
structure InnerResult (α β : Type*) where
  receivingExecutor : Option ExecutorId
  lifetime : LifetimeWeakPtr
  callback : Callback α β

/-- The work items: `request_task` and `response_task` with their data, and work of others. -/
inductive Task (α β φ : Type*) where
  | request (arguments : α) (result : InnerResult α β)
  | response (result : ConcreteResult β φ) (callback : Callback α β) (lifetime : LifetimeWeakPtr)
  | other

def Task.isOther {α β φ : Type*} : Task α β φ → Bool
  | .other => true
  | _ => false

/-- A chain of calls: the result that it answers, its stages, and the value that the callback of the last one answers with. -/
structure Chain (α β : Type*) where
  outerResult : OuterResult
  stages : List (Stage α β)
  answer : List β → β

/-- The executors, and how far the chain is. -/
structure System (α β φ : Type*) where
  /-- They stay as they are while the chain is under way. -/
  lifetimes : Lifetimes
  executors : ExecutorId → Executor (Task α β φ) := fun _ => {}
  started : Bool := false
  /-- The results that handlers have and have not answered yet. -/
  outstanding : List (InnerResult α β) := []
  /-- History: the calls that the stages made. -/
  calls : List (Call α) := []
  /-- History: what their handlers answered. -/
  results : List (ConcreteResult β φ) := []
  /-- History: what the outer result was called with. -/
  answers : List (ConcreteResult β φ) := []
  /-- History: what the outer callback was called with. -/
  calledBack : List (ConcreteResult β φ) := []

inductive Action (β φ : Type*) where
  /-- The handler that has the outer result makes the first call. -/
  | start
  /-- A handler answers, and gives its result up. -/
  | respond (i : Nat) (result : ConcreteResult β φ)
  /-- Something else is enqueued on an executor. -/
  | enqueueOther (x : ExecutorId)
  | startBatch (x : ExecutorId)
  | runNext (x : ExecutorId)
  | finishBatch (x : ExecutorId)

section

variable {α β φ : Type*}

namespace System

/-- `enqueue_work`. -/
def enqueueWork (s : System α β φ) (x : ExecutorId) (task : Task α β φ) : System α β φ :=
  { s with executors := Function.update s.executors x ((s.executors x).enqueueWork task) }

/-- `callback_result::operator()`, of an object with these fields and a callback that does `callback`. -/
def operatorCall (s : System α β φ) (receivingExecutor : Option ExecutorId) (lifetime : LifetimeWeakPtr) (response : Task α β φ)
    (callback : System α β φ → System α β φ) : System α β φ :=
  let ports : AnswerPorts ExecutorId (System α β φ) (System α β φ) :=
    { enqueueWork := fun x s => s.enqueueWork x response
      onEnqueue := fun s => s
      expired := fun s => s.lifetimes.expired lifetime
      drop := fun s => s
      callback }
  ports.operatorCall receivingExecutor s

/-- The outer callback. -/
def callBack (s : System α β φ) (result : ConcreteResult β φ) : System α β φ := { s with calledBack := s.calledBack ++ [result] }

/-- `outer_result(result)`. -/
def answerOuter (s : System α β φ) (outerResult : OuterResult) (result : ConcreteResult β φ) : System α β φ :=
  { s with answers := s.answers ++ [result] }.operatorCall outerResult.receivingExecutor outerResult.lifetime
    (.response result .outer outerResult.lifetime) fun s => s.callBack result

/-- Both `execute`s: the handler is called, or a task that will call it is enqueued. -/
def executeOn (s : System α β φ) (direct : Bool) (x : ExecutorId) (call : Call α) (callback : Callback α β) : System α β φ :=
  let result : InnerResult α β := { receivingExecutor := none, lifetime := call.lifetime, callback }
  let queued := { result with receivingExecutor := some call.senderExecutor }
  let ports : RequestPorts (System α β φ) (System α β φ) :=
    { callHandler := fun s => { s with outstanding := s.outstanding ++ [result] }
      enqueueWork := fun s => s.enqueueWork x (.request call.arguments queued) }
  ports.execute direct { s with calls := s.calls ++ [call] }

/-- `async_query::execute` or `if_async_query::execute`. -/
def execute (s : System α β φ) (call : Call α) (callback : Callback α β) : System α β φ :=
  match call.query with
  | .asyncQuery mutualExecutor receiverExecutor => s.executeOn mutualExecutor receiverExecutor call callback
  | .ifAsyncQuery callDirectly linkedExecutor => s.executeOn callDirectly linkedExecutor call callback

/-- What the callback of a stage does: it calls the next one with the outer result, or answers it. -/
def proceed (answer : List β → β) (s : System α β φ) (outerResult : OuterResult) (rest : List (Stage α β)) (values : List β) :
    System α β φ :=
  match rest with
  | stage :: rest => s.execute (stage values) (.successful outerResult rest values)
  | [] => s.answerOuter outerResult (.value (answer values))

/-- A callback is called; the closure of `with_successful_callback` passes a failure on, or calls the callback of its stage. -/
def invoke (answer : List β → β) (s : System α β φ) (callback : Callback α β) (result : ConcreteResult β φ) : System α β φ :=
  match callback, result with
  | .outer, result => s.callBack result
  | .successful outerResult _ _, .failure f => s.answerOuter outerResult (.failure f)
  | .successful outerResult rest values, .value v => s.proceed answer outerResult rest (values ++ [v])

/-- `request_task` or `response_task`. -/
def runTask (answer : List β → β) (s : System α β φ) : Task α β φ → System α β φ
  | .request _ result => { s with outstanding := s.outstanding ++ [result] }
  | .response result callback lifetime => if s.lifetimes.expired lifetime then s else s.invoke answer callback result
  | .other => s

end System

namespace Chain

/-- One step; `none` where it cannot be taken. `execute()` is not called while it runs. -/
def step (c : Chain α β) (s : System α β φ) : Action β φ → Option (System α β φ)
  | .start => if s.started then none else some ({ s with started := true }.proceed c.answer c.outerResult c.stages [])
  | .respond i result =>
    s.outstanding[i]?.map fun r =>
      { s with outstanding := s.outstanding.eraseIdx i, results := s.results ++ [result] }.operatorCall r.receivingExecutor r.lifetime
        (.response result r.callback r.lifetime) fun s => s.invoke c.answer r.callback result
  | .enqueueOther x => some (s.enqueueWork x .other)
  | .startBatch x =>
    if (s.executors x).workItemsBackBuffer.isEmpty then
      some { s with executors := Function.update s.executors x (s.executors x).swap }
    else none
  | .runNext x =>
    (s.executors x).next.map fun (task, e) => { s with executors := Function.update s.executors x e }.runTask c.answer task
  | .finishBatch x =>
    if (s.executors x).next.isNone then
      some { s with executors := Function.update s.executors x (s.executors x).clear }
    else none

/-- Nothing has been called. -/
def init (lifetimes : Lifetimes) : System α β φ := { lifetimes }

/-- The lifetimes of the calls and of the outer result are alive. -/
def Alive (c : Chain α β) (lifetimes : Lifetimes) : Prop :=
  lifetimes.expired c.outerResult.lifetime = false ∧ ∀ stage ∈ c.stages, ∀ values, lifetimes.expired (stage values).lifetime = false

/-- The calls of the stages, when these are the values they get. -/
def callsFor (c : Chain α β) (values : List β) : List (Call α) := c.stages.mapIdx fun i stage => stage (values.take i)

/-- How the chain ends: a stage has failed, and it was the last that was called, or all of them have succeeded. -/
inductive Ended (c : Chain α β) (s : System α β φ) : ConcreteResult β φ → Prop
  | failed (values : List β) (f : φ) (hresults : s.results = values.map .value ++ [.failure f])
    (hlength : values.length < c.stages.length) (hcalls : s.calls = (c.callsFor values).take (values.length + 1)) : Ended c s (.failure f)
  | succeeded (values : List β) (hresults : s.results = values.map .value) (hlength : values.length = c.stages.length)
    (hcalls : s.calls = c.callsFor values) : Ended c s (.value (c.answer values))

/-- No result of the chain is held by a handler, and no task of it waits. -/
def Quiet (s : System α β φ) : Prop := s.outstanding = [] ∧ ∀ x, ∀ task ∈ (s.executors x).pending, task.isOther

/-- The outer result has not been answered, or once, with the first failure or with what the last stage made of its value; and it has been
answered where nothing of the chain is left to do. -/
structure AnsweredOnce (c : Chain α β) (s : System α β φ) : Prop where
  /-- There is an end to it: a stage is called once, and its handler answers once. -/
  bounded : s.results.length ≤ s.calls.length ∧ s.calls.length ≤ c.stages.length
  atMostOnce : s.answers = [] ∨ ∃ r, s.answers = [r] ∧ c.Ended s r
  answered : s.started → Quiet s → s.answers ≠ []

end Chain

end

end ChainedCalls

end Minicomps
