import Minicomps.Executor
import Mathlib.Logic.Function.Basic

/-!
# An executor used by many threads

One thread, the consumer, calls `execute` over and over; any thread calls `enqueue_work`, the consumer too while one of its work
items runs. Each call is cut at the points where another thread can come between: trying the mutex, waiting for it, the update
it guards, and releasing it.
-/

namespace Minicomps

/-- Where a thread is in `enqueue_work`. -/
inductive EnqueuePc (τ : Type*) where
  | idle
  | tryLock (item : τ)
  /-- The `lock` after a failed `try_lock`. -/
  | lock (item : τ)
  /-- The thread has the mutex and is about to append. -/
  | emplace (item : τ)
  | unlock
  deriving DecidableEq, Repr

/-- The thread is not in `enqueue_work`. -/
def EnqueuePc.isIdle {τ : Type*} : EnqueuePc τ → Bool
  | .idle => true
  | _ => false

/-- The thread has the mutex. -/
def EnqueuePc.holdsMutex {τ : Type*} : EnqueuePc τ → Bool
  | .emplace _ | .unlock => true
  | _ => false

/-- Where the consumer is in `execute`. -/
inductive ExecutePc where
  | idle
  | tryLock
  | lock
  /-- The consumer has the mutex and is about to exchange the vectors. -/
  | swap
  | unlock
  /-- At the head of the loop over the back buffer. -/
  | loop
  /-- Inside a work item. -/
  | item
  deriving DecidableEq, Repr

/-- The consumer has the mutex. -/
def ExecutePc.holdsMutex : ExecutePc → Bool
  | .swap | .unlock => true
  | _ => false

/-- `execute` is past its exchange of the vectors. -/
def ExecutePc.swapped : ExecutePc → Bool
  | .unlock | .loop | .item => true
  | _ => false

/-- `execute` has the mutex for its exchange of the vectors, or is past it. -/
def ExecutePc.inBatch (pc : ExecutePc) : Bool := decide (pc = .swap) || pc.swapped

/-- An executor and its threads. -/
structure ExecutorThreads (τ : Type*) where
  executor : Executor τ := {}
  mutex : Option ThreadId := none
  numLockFailures : Nat := 0
  enqueuing : ThreadId → EnqueuePc τ := fun _ => .idle
  executing : ExecutePc := .idle
  /-- History: the items, in the order their `enqueue_work` took the mutex. -/
  order : List τ := []
  /-- History: the items that have been started, in that order. -/
  started : List τ := []
  /-- History: `order` at the last exchange of the vectors. -/
  swapped : List τ := []

/-- What a thread does next. `fails` says that a `try_lock` fails although the mutex is free, as it may. -/
inductive ExecutorAction (τ : Type*) where
  /-- The thread calls `enqueue_work`. -/
  | enqueueWork (t : ThreadId) (item : τ)
  /-- It takes the next step of that call. -/
  | enqueue (t : ThreadId) (fails : Bool)
  /-- The consumer calls `execute`. -/
  | execute
  /-- It takes the next step of that call, or returns from the work item it runs. -/
  | advance (fails : Bool)
  deriving DecidableEq, Repr

/-- A step of `execute` itself. -/
def ExecutorAction.isAdvance {τ : Type*} : ExecutorAction τ → Bool
  | .advance _ => true
  | _ => false

namespace ExecutorThreads

variable {τ : Type*}

/-- Move a thread on in its `enqueue_work`. -/
def setEnqueuing (s : ExecutorThreads τ) (t : ThreadId) (pc : EnqueuePc τ) : ExecutorThreads τ :=
  { s with enqueuing := Function.update s.enqueuing t pc }

/-- `t` takes the mutex in `enqueue_work`. -/
def takeEnqueue (s : ExecutorThreads τ) (t : ThreadId) (item : τ) : ExecutorThreads τ :=
  { s with mutex := some t, order := s.order ++ [item] }.setEnqueuing t (.emplace item)

/-- The next step of `enqueue_work` in thread `t`; `none` while it has to wait. -/
def enqueue (s : ExecutorThreads τ) (t : ThreadId) (fails : Bool) : Option (ExecutorThreads τ) :=
  match s.enqueuing t with
  | .idle => none
  | .tryLock item =>
    if s.mutex.isSome || fails then
      some ({ s with numLockFailures := s.numLockFailures + 1 }.setEnqueuing t (.lock item))
    else some (s.takeEnqueue t item)
  | .lock item => if s.mutex.isSome then none else some (s.takeEnqueue t item)
  | .emplace item => some ({ s with executor := s.executor.enqueueWork item }.setEnqueuing t .unlock)
  | .unlock => some ({ s with mutex := none }.setEnqueuing t .idle)

/-- The next step of `execute`; `none` while it has to wait. -/
def advance (consumer : ThreadId) (s : ExecutorThreads τ) (fails : Bool) : Option (ExecutorThreads τ) :=
  match s.executing with
  | .idle => none
  | .tryLock =>
    if s.mutex.isSome || fails then some { s with executing := .lock, numLockFailures := s.numLockFailures + 1 }
    else some { s with executing := .swap, mutex := some consumer }
  | .lock => if s.mutex.isSome then none else some { s with executing := .swap, mutex := some consumer }
  | .swap => some { s with executing := .unlock, executor := s.executor.swap, swapped := s.order }
  | .unlock => some { s with executing := .loop, mutex := none }
  | .loop =>
    match s.executor.next with
    | some (item, executor) => some { s with executing := .item, executor := executor, started := s.started ++ [item] }
    | none => some { s with executing := .idle, executor := s.executor.clear }
  | .item => some { s with executing := .loop }

/-- One step of one thread. The consumer calls `execute` outside of work items only, and while it is inside `execute` it calls
`enqueue_work` from work items only. -/
def step (consumer : ThreadId) (s : ExecutorThreads τ) : ExecutorAction τ → Option (ExecutorThreads τ)
  | .enqueueWork t item =>
    if (s.enqueuing t).isIdle ∧ (t = consumer → s.executing = .idle ∨ s.executing = .item) then
      some (s.setEnqueuing t (.tryLock item))
    else none
  | .enqueue t fails => s.enqueue t fails
  | .execute =>
    if (s.enqueuing consumer).isIdle ∧ s.executing = .idle then some { s with executing := .tryLock } else none
  | .advance fails => if (s.enqueuing consumer).isIdle then s.advance consumer fails else none

/-- The item a thread has the mutex for, but has not appended yet. -/
def inHand (s : ExecutorThreads τ) : List τ :=
  match s.mutex with
  | none => []
  | some t =>
    match s.enqueuing t with
    | .emplace item => [item]
    | _ => []

/-- How many more steps of its own `execute` takes from its exchange of the vectors on. -/
def stepsLeft (s : ExecutorThreads τ) : Nat :=
  match s.executing with
  | .swap => 2 * s.executor.workItems.length + 3
  | .unlock | .item => 2 * s.executor.rest.length + 2
  | .loop => 2 * s.executor.rest.length + 1
  | _ => 0

/-- What will have been started when the running `execute` returns. -/
def batchEnd (s : ExecutorThreads τ) : List τ :=
  match s.executing with
  | .swap => s.order
  | _ => s.swapped

end ExecutorThreads

end Minicomps
