import Minicomps.Executor

/-!
# Exceptions in the work queue

Neither `enqueue_work` nor `execute` has a guard for what it does in between. An item that throws leaves `execute()` before
`work_items_back_buffer_.clear()`, and a failure in `enqueue_work` leaves it before `mutex_.unlock()`.
-/

namespace Minicomps

/-- Where `enqueue_work` can throw, while it holds the mutex. -/
inductive EnqueueFailure where
  /-- `emplace_back` finds no memory for a larger vector. -/
  | grow
  /-- An element throws as it is moved to the larger vector. A `task` cannot be copied, and what the vector holds then is not specified. -/
  | relocate (left : List Nat)
  /-- There is no memory for `work_item.fun`, or the callable throws as it is moved. -/
  | function
  /-- There is no memory for `work_item.data`, or the payload throws as it is moved. -/
  | payload
  deriving DecidableEq, Repr

/-- An executor whose items may throw, and which may fail to take an item. The items are numbered by their enqueueing. They do not call
`execute()` themselves. -/
structure FailingExecutor where
  executor : Executor Nat := {}
  /-- An `execute()` goes through the back buffer. -/
  running : Bool := false
  /-- `mutex_`, between two calls. -/
  mutexFree : Bool := true
  enqueued : Nat := 0
  /-- History: the items that have been started. -/
  started : List Nat := []
  deriving DecidableEq, Repr

inductive FailingAction where
  /-- `enqueue_work`, by any thread. -/
  | enqueueWork
  | enqueueFails (f : EnqueueFailure)
  | execute
  /-- The running item returns. -/
  | finish
  /-- The running item throws, as the response to a call without a callback does, and `execute()` is left. -/
  | throw
  deriving DecidableEq, Repr

namespace FailingExecutor

/-- What `enqueue_work` has done to the vectors where it fails. Once the element is there it stays, without a function or without data. -/
def failedEnqueue (s : FailingExecutor) : EnqueueFailure → Executor Nat
  | .grow => s.executor
  | .relocate left => { s.executor with workItems := left }
  | .function | .payload => s.executor.enqueueWork s.enqueued

/-- The next round of the loop in `execute()`, or its end. -/
def advance (s : FailingExecutor) : FailingExecutor :=
  match s.executor.next with
  | some (item, executor) => { s with executor := executor, running := true, started := s.started ++ [item] }
  | none => { s with executor := s.executor.clear, running := false }

/-- One step; `none` where it cannot be taken. Nobody gets past a mutex that is not free. -/
def step (s : FailingExecutor) : FailingAction → Option FailingExecutor
  | .enqueueWork =>
    if s.mutexFree then some { s with executor := s.executor.enqueueWork s.enqueued, enqueued := s.enqueued + 1 } else none
  | .enqueueFails f => if s.mutexFree then some { s with executor := s.failedEnqueue f, mutexFree := false } else none
  | .execute => if s.mutexFree ∧ s.running = false then some { s with executor := s.executor.swap }.advance else none
  | .finish => if s.running then some s.advance else none
  | .throw => if s.running then some { s with running := false } else none

/-- Nothing has been enqueued. -/
def init : FailingExecutor := {}

/-- No item has been started twice, and each one that has not been started is in a vector. -/
structure ItemsKept (s : FailingExecutor) : Prop where
  once : s.started.Nodup
  kept : ∀ item < s.enqueued, item ∈ s.started ∨ item ∈ s.executor.workItems ++ s.executor.workItemsBackBuffer

/-- What the step leads to: items as they should be and, where it is an enqueueing that fails, the queue as before and the mutex free. -/
def FailsSafely (s : FailingExecutor) (a : FailingAction) : Prop :=
  ∀ s', s.step a = some s' → s'.ItemsKept ∧ ∀ f, a = .enqueueFails f → s'.executor = s.executor ∧ s'.mutexFree = true

/-- No enqueueing fails, and `execute()` is called while `work_items_` has no item in it that has been started. -/
def Unfailing (s : FailingExecutor) : FailingAction → Prop
  | .enqueueFails _ => False
  | .execute => s.running = false → ∀ item ∈ s.executor.workItems, item ∉ s.started
  | _ => True

end FailingExecutor

end Minicomps
