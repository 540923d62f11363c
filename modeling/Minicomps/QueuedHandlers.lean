import Minicomps.Executor
import Minicomps.Ownership
import Minicomps.RequestProtocol

/-!
# The handlers of queued tasks

A request or an event for another executor is queued with the bare address of its handler. The handler lives in its component's table: a
publication replaces what is there, a filter keeps it inside the new handler, and the table goes with the component. The reference that
the handler was found through holds the component until it is resolved again. What happens to components and references is as in
`Ownership`, on one stack, so that a lookup is over before the next operation; sends go on and executors run in between.
-/

namespace Minicomps

/-- There is one thread. -/
def onlyThread : Fin 1 := ⟨0, Nat.one_pos⟩

namespace OwnershipAction

def storedHandler {n : Nat} : OwnershipAction n → Option StoredHandler
  | .world op => op.storedHandler
  | _ => none

/-- It is a lookup, or a step of one. -/
def isLookup {n : Nat} : OwnershipAction n → Bool
  | .lookup .. => true
  | .advance _ => true
  | _ => false

end OwnershipAction

/-- A send whose lookup has returned. -/
inductive GoingSend where
  /-- `async_query::execute` is to enqueue its request. -/
  | request (handler : HandlerId) (executor : ExecutorId)
  /-- The loop of `event::operator()`, through the vector of the owner's reference of that number as it was last filled. -/
  | event (owner : ComponentId) (i : Nat) (filling : Nat) (position : Nat)
  deriving DecidableEq, Repr

/-- Components and references, sends, and executors. A queued task is a request or an event with the handler it has captured, or other
work. -/
structure HandlerSystem where
  ownership : OwnershipState 1 := OwnershipState.init
  /-- History: which component has made a handler, and for which message. -/
  publisher : HandlerId → Option (ComponentId × MessageId) := fun _ => none
  /-- The handlers that the entry of a table keeps: its own, and those inside it. -/
  entries : ComponentId → MessageId → List HandlerId := fun _ _ => []
  /-- The reference that a send is looking up. -/
  calling : Option (ComponentId × Nat) := none
  /-- What `lookup()` of a query returns. -/
  returned : Option HandlerId := none
  /-- How many times the vector of an event's reference has been cleared and filled. -/
  fillings : ComponentId → Nat → Nat := fun _ _ => 0
  sends : List GoingSend := []
  executors : ExecutorId → Executor (Option HandlerId) := fun _ => {}

/-- What happens next. -/
inductive HandlerAction where
  /-- An operation on components and references that is no lookup. -/
  | operate (a : OwnershipAction 1)
  /-- A lookup through the owner's reference of that number that is no send of ours, as by `force_resolve`. -/
  | resolve (owner : ComponentId) (i : Nat)
  /-- An async query is called through the owner's reference of that number, or an event is sent. -/
  | send (owner : ComponentId) (i : Nat)
  /-- The lookup goes on, or a strong pointer goes. -/
  | advance
  /-- The lookup of the send has returned. -/
  | lookedUp
  /-- A send goes on. -/
  | proceed (k : Nat)
  /-- Other work is enqueued: a response, for example. -/
  | enqueueOther (x : ExecutorId)
  | startBatch (x : ExecutorId)
  | runNext (x : ExecutorId)
  | finishBatch (x : ExecutorId)

/-- `handler_` of a reference to a query. -/
def OwnershipState.handlerOf (s : OwnershipState 1) (owner : ComponentId) (i : Nat) : Option HandlerId :=
  match (s.references owner)[i]? with
  | some (.mono _ _ r) => r.handler
  | _ => none

/-- The entries of a reference to an event. -/
def OwnershipState.receiverHandlersOf (s : OwnershipState 1) (owner : ComponentId) (i : Nat) : List ReceiverHandler :=
  match (s.references owner)[i]? with
  | some (.poly _ r) => r.receiverHandlers
  | _ => []

namespace HandlerSystem

/-- No lookup is going on. -/
def idle (s : HandlerSystem) : Bool := (s.ownership.stack onlyThread).isEmpty && s.calling.isNone

/-- Nobody has made the handler yet. -/
def isNew (s : HandlerSystem) : Option StoredHandler → Bool
  | some new => (s.publisher new.handler).isNone
  | none => true

/-- Put a handler into its entry. -/
def store (s : HandlerSystem) : Option StoredHandler → HandlerSystem
  | some new =>
    let entry := new.handler :: if new.filter then s.entries new.component new.id else []
    { s with
      publisher := Function.update s.publisher new.handler (some (new.component, new.id))
      entries := Function.update s.entries new.component (Function.update (s.entries new.component) new.id entry) }
  | none => s

def operate (s : HandlerSystem) (a : OwnershipAction 1) : Option HandlerSystem :=
  if s.idle && !a.isLookup && s.isNew a.storedHandler then
    (s.ownership.step a).map fun o => { s with ownership := o }.store a.storedHandler
  else none

/-- The reference answers from its cache. -/
def hit (s : HandlerSystem) (owner : ComponentId) (i : Nat) : Bool :=
  match (s.ownership.references owner)[i]? with
  | some ref => ref.cached && !s.ownership.world.expired ref.receivers
  | none => false

/-- `lookup()`, up to the first pointer it locks or drops. -/
def resolve (s : HandlerSystem) (owner : ComponentId) (i : Nat) : Option HandlerSystem :=
  if s.idle then
    (s.ownership.lookup onlyThread owner i).map fun o =>
      { s with
        ownership := o
        returned := if s.hit owner i then s.ownership.handlerOf owner i else none
        fillings := if s.hit owner i then s.fillings
          else Function.update s.fillings owner (Function.update (s.fillings owner) i (s.fillings owner i + 1)) }
  else none

/-- The next step of the lookup, or of what its dropped pointers take down. -/
def advance (s : HandlerSystem) : Option HandlerSystem :=
  (s.ownership.advance onlyThread).map fun o =>
    { s with
      ownership := o
      returned := match s.ownership.stack onlyThread with
        | .lookup owner i (.askReceiver _) :: _ => o.handlerOf owner i
        | _ => s.returned }

/-- `execute` and `operator()` after their lookup. A direct request runs its handler now. -/
def lookedUp (s : HandlerSystem) : Option HandlerSystem :=
  if (s.ownership.stack onlyThread).isEmpty then
    s.calling.bind fun (owner, i) =>
      match (s.ownership.references owner)[i]? with
      | some (.mono .async _ r) =>
        match s.returned, r.receiver with
        | some handler, some _ =>
          let ports : RequestPorts HandlerSystem (Option HandlerSystem) :=
            { callHandler := fun s => some { s with calling := none }
              enqueueWork := fun s =>
                r.receiverExecutor.map fun x => { s with calling := none, sends := s.sends ++ [.request handler x] } }
          ports.execute r.sameExecutor s
        -- It aborts.
        | _, _ => none
      | some (.poly _ _) => some { s with calling := none, sends := s.sends ++ [.event owner i (s.fillings owner i) 0] }
      | _ => none
  else none

def enqueueWork (s : HandlerSystem) (x : ExecutorId) (task : Option HandlerId) : HandlerSystem :=
  { s with executors := Function.update s.executors x ((s.executors x).enqueueWork task) }

/-- A request is enqueued, or an event's loop goes on to its next entry or ends. The loop is undefined where the vector has been cleared
since it started. -/
def proceed (s : HandlerSystem) (k : Nat) : Option HandlerSystem :=
  match s.sends[k]? with
  | none => none
  | some (.request handler x) => some ({ s with sends := s.sends.eraseIdx k }.enqueueWork x (some handler))
  | some (.event owner i filling position) =>
    if filling = s.fillings owner i then
      match (s.ownership.receiverHandlersOf owner i)[position]? with
      | none => some { s with sends := s.sends.eraseIdx k }
      | some r =>
        let s := { s with sends := s.sends.set k (.event owner i filling (position + 1)) }
        -- A subscriber on the sender's executor handles the event now.
        if r.sameExecutor then some s
        else some (s.enqueueWork (s.ownership.component r.receivingComponent).defaultExecutor (some r.handler))
    else none

def startBatch (s : HandlerSystem) (x : ExecutorId) : Option HandlerSystem :=
  if (s.executors x).workItemsBackBuffer.isEmpty then
    some { s with executors := Function.update s.executors x (s.executors x).swap }
  else none

/-- The next task starts. What its handler does are actions of their own. -/
def runNext (s : HandlerSystem) (x : ExecutorId) : Option HandlerSystem :=
  (s.executors x).next.map fun (_, e) => { s with executors := Function.update s.executors x e }

def finishBatch (s : HandlerSystem) (x : ExecutorId) : Option HandlerSystem :=
  match (s.executors x).next with
  | some _ => none
  | none => some { s with executors := Function.update s.executors x (s.executors x).clear }

/-- One step; `none` where it cannot be taken, aborts, or is undefined. -/
def step (s : HandlerSystem) : HandlerAction → Option HandlerSystem
  | .operate a => s.operate a
  | .resolve owner i => s.resolve owner i
  | .send owner i => (s.resolve owner i).map fun s => { s with calling := some (owner, i) }
  | .advance => s.advance
  | .lookedUp => s.lookedUp
  | .proceed k => s.proceed k
  | .enqueueOther x => some (s.enqueueWork x none)
  | .startBatch x => s.startBatch x
  | .runNext x => s.runNext x
  | .finishBatch x => s.finishBatch x

/-- Nothing has been constructed. -/
def init : HandlerSystem := {}

/-! ## What a task relies on -/

/-- The component that published the handler has not been destroyed, and keeps it. -/
def handlerExists (s : HandlerSystem) (h : HandlerId) : Bool :=
  match s.publisher h with
  | some (c, id) => !s.ownership.destroyed c && decide (h ∈ s.entries c id)
  | none => false

/-- The task that is to run next is none of a handler that is gone. -/
def RunsExisting (s : HandlerSystem) : HandlerAction → Prop
  | .runNext x => ∀ h e, (s.executors x).next = some (some h, e) → s.handlerExists h = true
  | _ => True

/-- The handlers that a send is still to enqueue a task for. -/
def toEnqueue (s : HandlerSystem) : GoingSend → List HandlerId
  | .request handler _ => [handler]
  | .event owner i filling position =>
    if filling = s.fillings owner i then
      (((s.ownership.receiverHandlersOf owner i).drop position).filter fun r => !r.sameExecutor).map ReceiverHandler.handler
    else []

/-- A task that has not started refers to the handler, or will. -/
def Awaited (s : HandlerSystem) (h : HandlerId) : Prop :=
  (∃ x, some h ∈ (s.executors x).pending) ∨ ∃ send ∈ s.sends, h ∈ s.toEnqueue send

/-- The component whose last strong pointer goes next. -/
def losesLast (s : HandlerSystem) : Option ComponentId :=
  match s.ownership.stack onlyThread with
  | .drop c :: rest => if (s.ownership.setStack onlyThread rest).world.alive c then none else some c
  | _ => none

/-- No publication replaces a handler that is awaited; no component goes while a handler of it is; and a request that its reference
answers from the cache while the message has no single receiver finds a handler that the receiver still keeps. -/
def SparesAwaited (s : HandlerSystem) : HandlerAction → Prop
  | .operate a => ∀ new, a.storedHandler = some new → new.filter = false → ∀ h ∈ s.entries new.component new.id, ¬s.Awaited h
  | .advance => ∀ c, s.losesLast = some c → ∀ h id, s.publisher h = some (c, id) → ¬s.Awaited h
  | .send owner i => ∀ id r, (s.ownership.references owner)[i]? = some (.mono .async id r) → s.hit owner i = true →
      (s.ownership.broker.receivers id).length ≠ 1 → r.sameExecutor = false →
      ∀ c h, r.receiver = some c → r.handler = some h → h ∈ s.entries c id
  | _ => True

end HandlerSystem

end Minicomps
