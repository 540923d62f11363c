import Minicomps.Lib.WaitFor
import Minicomps.Threads

/-!
# Threads that wait for locks

The threads of `ThreadSystem`, with those that have to wait for a component's lock. A synchronous call from another executor holds the
lock as long as its handler runs. The lookups of references, which also come before asynchronous queries and events, and
`prepend_filter` take it for a few statements that call nothing, and wait for it all the same. The mutexes of the broker and of the
executors are left out. Under an executor's nothing runs but moves of work items. Under the broker's, which is recursive, `disassociate` may
drop the last pointer to a component; what its destructor runs there is taken to wait for no component's lock.
-/

namespace Minicomps

/-- What a thread waits for. -/
inductive LockWait where
  /-- The lock that a synchronous call takes for its handler. -/
  | call (h : Handler)
  /-- The lock of a component whose tables are asked, or on whose query a filter is put. -/
  | guard (c : ComponentId)
  deriving DecidableEq, Repr

/-- The component whose lock it is. -/
def LockWait.component : LockWait → ComponentId
  | .call h => h.component
  | .guard c => c

/-- The thread that takes the action. -/
def ThreadAction.thread (d : Deployment) : ThreadAction → ThreadId
  | .execute x | .runNext x | .finishBatch x => d.pump x
  | .send t .. | .ret t => t

/-- Threads, and what each of them waits for. -/
structure WaitingThreads where
  system : ThreadSystem := {}
  waiting : ThreadId → Option LockWait := fun _ => none

/-- What a thread does next. -/
inductive WaitingAction where
  | thread (a : ThreadAction)
  /-- `lookup_sync_handler`, `lookup_async_handler`, `lookup_executor_override` or `lookup_interface` of the component, or a
  `prepend_filter` of one of its queries. -/
  | guard (t : ThreadId) (c : ComponentId)
  /-- A `callback_result` of a direct call is invoked, and runs the callback of the component. -/
  | callback (t : ThreadId) (c : ComponentId)
  /-- A thread that waits gets the lock. -/
  | wake (t : ThreadId)
  deriving DecidableEq, Repr

namespace WaitingThreads

/-- The thread waits for this from now on, or for nothing. -/
def setWaiting (s : WaitingThreads) (t : ThreadId) (w : Option LockWait) : WaitingThreads :=
  { s with waiting := Function.update s.waiting t w }

/-- The thread can go on with code of its own: it does not wait, and is not in the loop of `execute`. -/
def runsCode (s : WaitingThreads) (t : ThreadId) : Bool :=
  match s.waiting t, s.system.stack t with
  | some _, _ => false
  | none, .execute _ :: _ => false
  | none, _ => true

/-- A step of the thread. A call that cannot have the lock yet waits for it. -/
def act (d : Deployment) (s : WaitingThreads) (a : ThreadAction) : Option WaitingThreads :=
  match s.system.step d a with
  | some system => some { s with system }
  | none => (s.system.starts d a).map fun (t, e) => s.setWaiting t (some (.call e.handler))

/-- `lock.lock()`, with the `unlock()` that follows it. -/
def guard (s : WaitingThreads) (t : ThreadId) (c : ComponentId) : WaitingThreads :=
  match (s.system.lock c).lock t with
  | some _ => s
  | none => s.setWaiting t (some (.guard c))

/-- The thread that waits has the lock. -/
def wake (s : WaitingThreads) (t : ThreadId) : LockWait → Option WaitingThreads
  | .call h => (s.system.callLocked t h).map fun system => { s with system }.setWaiting t none
  | .guard c => ((s.system.lock c).lock t).map fun _ => s.setWaiting t none

/-- One step of one thread; `none` where it cannot be taken. -/
def step (d : Deployment) (s : WaitingThreads) : WaitingAction → Option WaitingThreads
  | .thread a => if (s.waiting (a.thread d)).isSome then none else s.act d a
  | .guard t c => if s.runsCode t then some (s.guard t c) else none
  | .callback t c =>
    if s.runsCode t then some { s with system := s.system.push t (.handler ⟨{ component := c }, false⟩) } else none
  | .wake t => (s.waiting t).bind (s.wake t)

/-- No thread has done anything yet. -/
def init : WaitingThreads := {}

/-! ## Who waits for whom -/

/-- The thread waits for a lock that the other one holds. -/
def WaitsFor (s : WaitingThreads) (t u : ThreadId) : Prop := ∃ w, s.waiting t = some w ∧ u ≠ t ∧ s.system.Holds u w.component

instance (s : WaitingThreads) (t u : ThreadId) : Decidable (s.WaitsFor t u) :=
  decidable_of_iff (∃ w ∈ s.waiting t, u ≠ t ∧ s.system.Holds u w.component) (by simp [WaitsFor])

/-- Every call on the thread has returned. -/
def AtRest (s : WaitingThreads) (t : ThreadId) : Prop := s.system.stack t = [] ∧ s.waiting t = none

/-- The thread holds the component's lock already, or only locks of lower rank. -/
def Upward {ρ : Type*} [LT ρ] (rank : ComponentId → ρ) (s : WaitingThreads) (t : ThreadId) (c : ComponentId) : Prop :=
  s.system.Holds t c ∨ ∀ b, s.system.Holds t b → rank b < rank c

/-- Locks are taken in the order of the components' ranks. -/
def LocksUpward {ρ : Type*} [LT ρ] (rank : ComponentId → ρ) (d : Deployment) (s : WaitingThreads) : WaitingAction → Prop
  | .thread a => ∀ t e, s.system.starts d a = some (t, e) → e.locked = true → s.Upward rank t e.handler.component
  | .guard t c => s.Upward rank t c
  | .callback .. | .wake _ => True

end WaitingThreads

end Minicomps
