import Mathlib.Tactic.TypeStar

/-!
# Requests and answers

The two halves of an async query: `async_query::execute`, of which `if_async_query` has a copy, and `callback_result::operator()`. A model
keeps of a call what it is about. What it does at the places where the code tells a listener, calls a function or enqueues a task are its
ports; which of these places are come to, and in which order, is said here once.
-/

namespace Minicomps

/-- What is done at the places of `execute`, where `σ` is the state of a model. A model where a call may come to nothing has an option for
`τ`. -/
structure RequestPorts (σ τ : Type*) where
  /-- `listener->on_invoke(..., REQUEST)`. -/
  onInvoke : σ → σ := fun s => s
  /-- The handler is called with a `callback_result` that has no executor. -/
  callHandler : σ → τ
  /-- `enqueue_work(request_task, request)`, on the executor of the handler. -/
  enqueueWork : σ → τ
  /-- `listener->on_enqueue(..., REQUEST)`. -/
  onEnqueue : τ → τ := fun s => s

/-- `execute`, once the handler is known: `direct` is `mutual_executor()` in `async_query`, and `call_directly_` in `if_async_query`. -/
def RequestPorts.execute {σ τ : Type*} (p : RequestPorts σ τ) (direct : Bool) (s : σ) : τ :=
  if direct then p.callHandler (p.onInvoke s) else p.onEnqueue (p.enqueueWork s)

/-- What is done at the places of `callback_result::operator()`. A model where it may end the program, for want of a callback, has an option
for `τ` here. -/
structure AnswerPorts (ε σ τ : Type*) where
  /-- `receiving_executor_->enqueue_work(response_task, response)`. -/
  enqueueWork : ε → σ → σ
  /-- `listener->on_enqueue(..., RESPONSE)`. -/
  onEnqueue : σ → τ
  /-- `lifetime_ptr_.expired()`. -/
  expired : σ → Bool
  /-- The answer is let go. -/
  drop : σ → τ
  /-- `listener->on_invoke(..., RESPONSE)`. -/
  onInvoke : σ → σ := fun s => s
  /-- `callback_(result)`. -/
  callback : σ → τ

/-- `callback_result::operator()`. -/
def AnswerPorts.operatorCall {ε σ τ : Type*} (p : AnswerPorts ε σ τ) (receivingExecutor : Option ε) (s : σ) : τ :=
  match receivingExecutor with
  | some x => p.onEnqueue (p.enqueueWork x s)
  | none => if p.expired s then p.drop s else p.callback (p.onInvoke s)

end Minicomps
