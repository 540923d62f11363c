import Minicomps.Listener
import Mathlib.Logic.Function.Basic

/-!
# What the listeners are told of synchronous calls

`sync_query`, `if_sync_query` and `call_locking` tell the receiver's listener when a call begins and when it ends. The end is told by the
destructor of a local object, which keeps the listener that was told of the beginning. Here is what one thread does: handlers that call
other handlers, replace listeners, return or throw.
-/

namespace Minicomps

namespace ListenedCalls

/-- How a piece of code ends. -/
inductive Outcome (ε ρ : Type*) where
  | returned (result : ρ)
  | threw (exception : ε)
  /-- `std::abort`. -/
  | aborted
  deriving DecidableEq, Repr

/-- The listeners of the components, and what they have been told. -/
structure State where
  listener : ComponentId → Option ListenerId
  notified : List Notification := []

/-- What a piece of code does. -/
abbrev Behaviour (ε ρ : Type*) := State → State × Outcome ε ρ

section

variable {ε ρ : Type*}

/-- `if (listener) listener->on_invoke(...)`. -/
def State.onInvoke (s : State) (listener : Option ListenerId) (sender receiver : ComponentId) (msgInfo : MessageId) (type : MessageType) :
    State :=
  { s with notified := s.notified ++ notify listener .onInvoke sender receiver msgInfo type }

/-- Code in the scope of a `listener_invoker`, whose destructor runs as the code returns or throws, and does not if it aborts. -/
def listenerInvoker (listener : Option ListenerId) (sender receiver : ComponentId) (msgInfo : MessageId) (type : MessageType)
    (body : Behaviour ε ρ) : Behaviour ε ρ := fun s =>
  match body s with
  | (s, .aborted) => (s, .aborted)
  | (s, outcome) => (s.onInvoke listener sender receiver msgInfo type, outcome)

/-- One piece of code after another that returned. -/
def andThen (first : Behaviour ε ρ) (next : ρ → Behaviour ε ρ) : Behaviour ε ρ := fun s =>
  match first s with
  | (s, .returned result) => next result s
  | (s, .threw exception) => (s, .threw exception)
  | (s, .aborted) => (s, .aborted)

/-- What the three calls have in common: a call of the handler, directly or with the receiver's lock. -/
def invoke (mutualExecutor : Bool) (sender receiver : ComponentId) (msgInfo : MessageId) (body : Behaviour ε ρ) : Behaviour ε ρ := fun s =>
  let listener := s.listener receiver
  if mutualExecutor then
    listenerInvoker listener receiver sender msgInfo .response body (s.onInvoke listener sender receiver msgInfo .request)
  else
    listenerInvoker listener receiver sender msgInfo .lockedResponse body (s.onInvoke listener sender receiver msgInfo .lockedRequest)

/-- A `sync_query`, and what its lookup gives. -/
structure SyncQuery where
  owningComponent : ComponentId
  msgInfo : MessageId
  /-- The receiver, and `mutual_executor()`. -/
  found : Option (ComponentId × Bool)
  /-- `fallback_handler_` is set. -/
  hasFallback : Bool
  deriving DecidableEq, Repr

/-- An `if_sync_query` or an `if_volatile_sync_query` in a proxy. -/
structure LinkedQuery where
  sendingComponent : ComponentId
  msgInfo : MessageId
  /-- There is a `linked_query_`, and it has a handler. -/
  implemented : Bool
  linkedHandlingComponent : ComponentId
  mutualExecutor : Bool
  deriving DecidableEq, Repr

/-- `sync_query::operator()`. -/
def syncQuery (q : SyncQuery) (handler fallbackHandler : Behaviour ε ρ) : Behaviour ε ρ := fun s =>
  match q.found with
  | none => if q.hasFallback then fallbackHandler s else (s, .aborted)
  | some (receiver, mutualExecutor) => invoke mutualExecutor q.owningComponent receiver q.msgInfo handler s

/-- `if_sync_query::operator()`. -/
def ifSyncQuery (q : LinkedQuery) (handler : Behaviour ε ρ) : Behaviour ε ρ := fun s =>
  if q.implemented then invoke q.mutualExecutor q.sendingComponent q.linkedHandlingComponent q.msgInfo handler s else (s, .aborted)

/-- `if_volatile_sync_query::call_locking`. -/
def callLocking (q : LinkedQuery) (handler : Behaviour ε ρ) (resultHandler : ρ → Behaviour ε ρ) : Behaviour ε ρ := fun s =>
  if q.implemented then
    invoke q.mutualExecutor q.sendingComponent q.linkedHandlingComponent q.msgInfo (andThen handler resultHandler) s
  else (s, .aborted)

/-- The code of handlers and of their callers: a tree of calls. What comes after a call depends on what it returned or threw. -/
inductive Code (ε ρ : Type*) where
  | ret (result : ρ)
  | throw (exception : ε)
  | setListener (c : ComponentId) (listener : Option ListenerId) (next : Code ε ρ)
  | syncQuery (q : SyncQuery) (handler fallbackHandler : Code ε ρ) (next : Except ε ρ → Code ε ρ)
  | ifSyncQuery (q : LinkedQuery) (handler : Code ε ρ) (next : Except ε ρ → Code ε ρ)
  | callLocking (q : LinkedQuery) (handler : Code ε ρ) (resultHandler : ρ → Code ε ρ) (next : Except ε ρ → Code ε ρ)

/-- The code goes on after a call that has returned or thrown. -/
def goOn (call : Behaviour ε ρ) (next : Except ε ρ → Behaviour ε ρ) : Behaviour ε ρ := fun s =>
  match call s with
  | (s, .returned result) => next (.ok result) s
  | (s, .threw exception) => next (.error exception) s
  | (s, .aborted) => (s, .aborted)

/-- Run the code on one thread. -/
def Code.run : Code ε ρ → Behaviour ε ρ
  | .ret result => fun s => (s, .returned result)
  | .throw exception => fun s => (s, .threw exception)
  | .setListener c listener next => fun s => next.run { s with listener := Function.update s.listener c listener }
  | .syncQuery q handler fallbackHandler next => goOn (ListenedCalls.syncQuery q handler.run fallbackHandler.run) fun r => (next r).run
  | .ifSyncQuery q handler next => goOn (ListenedCalls.ifSyncQuery q handler.run) fun r => (next r).run
  | .callLocking q handler resultHandler next =>
    goOn (ListenedCalls.callLocking q handler.run fun result => (resultHandler result).run) fun r => (next r).run

/-- The types of notifications that belong together. -/
def ClosesType : MessageType → MessageType → Prop
  | .request, .response | .lockedRequest, .lockedResponse => True
  | _, _ => False

/-- A notification of an end belongs to one of a beginning: the same listener and message, from the receiver to the sender. -/
def Closes (o c : Notification) : Prop :=
  ClosesType o.type c.type ∧ c.listener = o.listener ∧ o.callback = .onInvoke ∧ c.callback = .onInvoke ∧ c.sender = o.receiver ∧
    c.receiver = o.sender ∧ c.info = o.info

/-- What one listener has been told. -/
def State.notifiedTo (s : State) (l : ListenerId) : List Notification := s.notified.filter fun n => decide (n.listener = l)

end

end ListenedCalls

end Minicomps
