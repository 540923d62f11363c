import Minicomps.Executor
import Minicomps.Listener
import Minicomps.PolyRef

/-!
# Sending an event

`event::operator()` goes through the subscribers: those on the sender's executor are called directly, for the others a task is
enqueued with the event as its data. `enqueue_work` takes the event by a forwarding reference, but always moves from it.
-/

namespace Minicomps

/-- A task enqueued for a subscriber: the handler it captured, and the event that was moved into its data. -/
structure EventTask (α : Type*) where
  handler : HandlerId
  event : α
  deriving DecidableEq, Repr

/-- What a send reads and changes. -/
structure EventState (α : Type*) where
  /-- The object the sender passed. -/
  event : α
  /-- The handlers that were called directly, and the event each was called with. -/
  invoked : List (HandlerId × α)
  notified : List Notification
  executors : ExecutorId → Executor (EventTask α)

namespace Event

variable {α : Type*}

/-- `receiver_handler.invoke(event)`; the handler takes the event by a const reference. -/
def invoke (s : EventState α) (h : ReceiverHandler) : EventState α :=
  { s with invoked := s.invoked ++ [(h.handler, s.event)] }

/-- `enqueue_work(std::move(task), event)` on an executor. The event is an lvalue there, and `enqueue_work` moves it into the
task's data; `movedFrom` is what a move leaves behind. -/
def enqueueWork (movedFrom : α → α) (s : EventState α) (x : ExecutorId) (h : ReceiverHandler) : EventState α :=
  { s with
    event := movedFrom s.event
    executors := Function.update s.executors x ((s.executors x).enqueueWork ⟨h.handler, s.event⟩) }

/-- One round of the loop of `event::operator()`. -/
def sendTo (movedFrom : α → α) (id : MessageId) (owner : ComponentId) (w : World) (s : EventState α) (h : ReceiverHandler) :
    EventState α :=
  let listener := (w.component owner).listener
  if h.sameExecutor then
    invoke { s with notified := s.notified ++ notify listener .onInvoke owner h.receivingComponent id .event } h
  else
    enqueueWork movedFrom
      { s with notified := s.notified ++ notify listener .onEnqueue owner h.receivingComponent id .event }
      (w.component h.receivingComponent).defaultExecutor h

/-- The loop of `event::operator()`, over the entries the reference gave. -/
def send (movedFrom : α → α) (id : MessageId) (owner : ComponentId) (w : World) (s : EventState α)
    (handlers : List ReceiverHandler) : EventState α :=
  handlers.foldl (sendTo movedFrom id owner w) s

/-- `event::operator()`, through a reference of `owner`. -/
def operatorCall (movedFrom : α → α) (id : MessageId) (owner : ComponentId) (lost : ComponentId → List ComponentId) (w : World)
    (r : PolyRef) (s : EventState α) : EventState α × PolyRef × World :=
  let (handlers, r, w) := PolyRef.lookup id owner lost w r
  (send movedFrom id owner w s handlers, r, w)

/-! ## What a send should do -/

end Event

end Minicomps
