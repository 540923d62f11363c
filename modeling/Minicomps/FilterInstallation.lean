import Minicomps.Executor
import Minicomps.Lib.RecursiveMutex

/-!
# Installing filters while others call

`prepend_filter` of a sync interface query moves the handler out, and then stores a new one that starts with the filter and has the
old one inside; for that it takes the component's lock. A call through a proxy from another executor takes the lock too, but it tests
the handler before that. Here are any number of threads that install filters and make calls, one step at a time.
-/

namespace Minicomps

/-- The identity of a function that was published or installed as a filter. -/
abbrev FunctionId := Nat

/-- What a `std::function` of the query holds: a function, and the `previous_handler`s inside it, one in the other. It is empty if
there is none. -/
abbrev SyncHandler := List FunctionId

/-- Where a thread is in `prepend_filter`. -/
inductive InstallStage where
  | lock (f : FunctionId)
  /-- `auto previous_handler = std::move(handler_)`. -/
  | moveOut (f : FunctionId)
  /-- `handler_ = ...`. -/
  | store (f : FunctionId) (previousHandler : SyncHandler)
  | unlock
  deriving DecidableEq, Repr

/-- Where a call is. -/
inductive CallStage where
  /-- `if (!linked_query_->handler_)`. -/
  | check
  | lock
  /-- `linked_query_->handler_(...)`. -/
  | invoke
  /-- Functions are running, each with its `next_handler`, the innermost first. -/
  | running (nextHandlers : List SyncHandler)
  /-- The result handler of `call_locking` is running. -/
  | result
  | unlock
  deriving DecidableEq, Repr

/-- A call through a proxy whose client is on another executor: `if_sync_query::operator()`, or `call_locking`. -/
structure ProxyCall where
  locking : Bool
  stage : CallStage := .check
  /-- History: how many handlers the query had had when the call started. -/
  since : Nat
  /-- History: what was called, each with what was inside it. -/
  visits : List SyncHandler := []
  deriving DecidableEq, Repr

/-- A call that has returned, and how many handlers the query had had at its start and at its end. -/
structure HandledCall where
  visits : List SyncHandler
  since : Nat
  till : Nat
  deriving DecidableEq, Repr

/-- A query, and the threads. -/
structure FilterInstallation where
  /-- `handler_` of the query that the proxies are linked to. -/
  handler : SyncHandler
  lock : RecursiveMutex ThreadId := {}
  installing : ThreadId → Option InstallStage := fun _ => none
  /-- A thread's calls, the innermost first. -/
  calls : ThreadId → List ProxyCall := fun _ => []
  /-- A call has found no handler. -/
  aborted : Bool := false
  /-- History: the handlers the query has had. -/
  handlers : List SyncHandler
  handled : List HandledCall := []

/-- What happens next. -/
inductive InstallationAction where
  /-- A thread that is in no call calls `prepend_filter`, on the query or a proxy. -/
  | prependFilter (t : ThreadId) (f : FunctionId)
  | install (t : ThreadId)
  /-- A thread that is in no call, or a function that a call has called, makes a call. -/
  | call (t : ThreadId) (locking : Bool)
  | advance (t : ThreadId)
  /-- The innermost function calls its `next_handler`. -/
  | callNext (t : ThreadId)
  /-- The innermost function returns. -/
  | finish (t : ThreadId)
  deriving DecidableEq, Repr

/-- User code is running. -/
def CallStage.inCode : CallStage → Bool
  | .running _ | .result => true
  | _ => false

namespace FilterInstallation

/-- Set where the thread is in `prepend_filter`. -/
def setInstalling (s : FilterInstallation) (t : ThreadId) (stage : Option InstallStage) : FilterInstallation :=
  { s with installing := Function.update s.installing t stage }

/-- Set the thread's calls. -/
def setCalls (s : FilterInstallation) (t : ThreadId) (calls : List ProxyCall) : FilterInstallation :=
  { s with calls := Function.update s.calls t calls }

/-- The next step of `prepend_filter`; `none` while the thread has to wait. -/
def install (s : FilterInstallation) (t : ThreadId) : InstallStage → Option FilterInstallation
  | .lock f => (s.lock.lock t).map fun lock => { s with lock }.setInstalling t (some (.moveOut f))
  | .moveOut f => some ({ s with handler := [] }.setInstalling t (some (.store f s.handler)))
  | .store f previousHandler =>
    some ({ s with
      handler := f :: previousHandler
      handlers := s.handlers ++ [f :: previousHandler] }.setInstalling t (some .unlock))
  | .unlock => some ({ s with lock := s.lock.unlock }.setInstalling t none)

/-- The next step of a thread's innermost call, where it is not up to a function it has called; `none` while the thread has to wait. -/
def advance (s : FilterInstallation) (t : ThreadId) (c : ProxyCall) (calls : List ProxyCall) : Option FilterInstallation :=
  match c.stage with
  | .check => some (if s.handler.isEmpty then { s with aborted := true } else s.setCalls t ({ c with stage := .lock } :: calls))
  | .lock => (s.lock.lock t).map fun lock => { s with lock }.setCalls t ({ c with stage := .invoke } :: calls)
  | .invoke =>
    match s.handler with
    -- `std::bad_function_call`
    | [] => some { s with aborted := true }
    | f :: next => some (s.setCalls t ({ c with stage := .running [next], visits := c.visits ++ [f :: next] } :: calls))
  | .running _ => none
  | .result => some (s.setCalls t ({ c with stage := .unlock } :: calls))
  | .unlock =>
    let handled : HandledCall := { visits := c.visits, since := c.since, till := s.handlers.length }
    some ({ s with lock := s.lock.unlock, handled := s.handled ++ [handled] }.setCalls t calls)

/-- The innermost function calls its `next_handler`; a published function has none. -/
def callNext (s : FilterInstallation) (t : ThreadId) (c : ProxyCall) (calls : List ProxyCall) : Option FilterInstallation :=
  match c.stage with
  | .running ((f :: next) :: nextHandlers) =>
    some (s.setCalls t
      ({ c with stage := .running (next :: (f :: next) :: nextHandlers), visits := c.visits ++ [f :: next] } :: calls))
  | _ => none

/-- The innermost function returns, to the function that has called it or to the call. -/
def finish (s : FilterInstallation) (t : ThreadId) (c : ProxyCall) (calls : List ProxyCall) : Option FilterInstallation :=
  match c.stage with
  | .running [_] => some (s.setCalls t ({ c with stage := if c.locking then .result else .unlock } :: calls))
  | .running (_ :: nextHandlers) => some (s.setCalls t ({ c with stage := .running nextHandlers } :: calls))
  | _ => none

/-- A step of the innermost call of the thread. -/
def innermost (s : FilterInstallation) (t : ThreadId) (f : ProxyCall → List ProxyCall → Option FilterInstallation) :
    Option FilterInstallation :=
  match s.calls t with
  | [] => none
  | c :: calls => f c calls

/-- One step of one thread; `none` where it cannot be taken. -/
def step (s : FilterInstallation) (a : InstallationAction) : Option FilterInstallation :=
  if s.aborted then none
  else match a with
  | .prependFilter t f =>
    if (s.installing t).isNone && (s.calls t).isEmpty then some (s.setInstalling t (some (.lock f))) else none
  | .install t => (s.installing t).bind (s.install t)
  | .call t locking =>
    if (s.installing t).isNone && (s.calls t).head?.all fun c => c.stage.inCode then
      some (s.setCalls t ({ locking, since := s.handlers.length } :: s.calls t))
    else none
  | .advance t => s.innermost t (s.advance t)
  | .callNext t => s.innermost t (s.callNext t)
  | .finish t => s.innermost t (s.finish t)

/-- A query with a handler that was published. -/
def init (f : FunctionId) : FilterInstallation := { handler := [f], handlers := [[f]] }

/-! ## What callers expect -/

/-- Each call that has returned was handled by one handler: it called this one first, and then nothing but what was inside it. It is
one that the query had at some time from the start of the call to its end. -/
def EachByOne (s : FilterInstallation) : Prop :=
  ∀ c ∈ s.handled, ∃ v handler, s.handlers[v]? = some handler ∧ c.since ≤ v + 1 ∧ v < c.till ∧ c.visits.head? = some handler ∧
    ∀ visit ∈ c.visits, visit ≠ [] ∧ visit <:+ handler

/-- A call does not test the handler while a thread is between moving it out and storing the new one. -/
def ChecksOutside (s : FilterInstallation) (a : InstallationAction) : Prop :=
  ∀ t c, a = .advance t → (s.calls t).head? = some c → c.stage = .check →
    ∀ u f previousHandler, s.installing u ≠ some (.store f previousHandler)

end FilterInstallation

end Minicomps
