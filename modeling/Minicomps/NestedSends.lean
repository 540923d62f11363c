import Minicomps.Lib.Transition
import Minicomps.PolyRef

/-!
# Sends inside sends

The loop of `event::operator()` goes through the reference's own vector, and a handler on the sender's executor runs inside the loop.
It may change anything, and send through the same reference again; where that makes the reference resolve again, the vector is
cleared and filled anew under the loops that go through it. And where a component publishes the message again, the `message_handler` that an
entry of the vector points to is destroyed. That may be the one whose function is running: what the function makes of it is left out, since
the loop does not come back to that entry.
-/

namespace Minicomps

/-- A send whose loop has not ended. -/
structure SendLoop where
  /-- The filling of the vector that the loop's iterators are of. -/
  filling : Nat
  /-- How many entries there were, which is where the end iterator stands. -/
  size : Nat
  position : Nat := 0
  /-- The handler of the entry before the position is running. -/
  inHandler : Bool := false
  /-- History: the subscribers when the loop started. -/
  subscribers : List ReceiverHandler
  /-- History: the entries whose handler existed when it was called or a task for it was enqueued. -/
  reached : List ReceiverHandler := []
  deriving DecidableEq, Repr

/-- A send that has ended. -/
structure EndedSend where
  subscribers : List ReceiverHandler
  reached : List ReceiverHandler
  deriving DecidableEq, Repr

/-- A world, a reference to the event, and the sends through it. -/
structure NestedSends where
  world : World
  /-- History: the handlers that have been put into some `async_handlers_`. -/
  made : HandlerId → Bool := fun _ => false
  /-- The handlers that the entry of a table keeps: its own, and those inside it. -/
  entries : ComponentId → MessageId → List HandlerId := fun _ _ => []
  ref : PolyRef := {}
  /-- How many times `receiver_handlers_` has been cleared and filled. -/
  filling : Nat := 0
  /-- The innermost first. -/
  loops : List SendLoop := []
  ended : List EndedSend := []

/-- What happens next. -/
inductive NestedSendAction where
  | world (op : WorldOp)
  /-- `event::operator()`, from outside or from a handler that is running. -/
  | send (lost : ComponentId → List ComponentId)
  /-- `force_resolve()`, from outside or from a handler that is running. -/
  | forceResolve (lost : ComponentId → List ComponentId)
  /-- The innermost loop goes on to its next entry, or ends. -/
  | next
  /-- The handler that the innermost loop has called returns. -/
  | handlerReturns

namespace NestedSends

/-- Nobody has made the handler yet. -/
def isNew (s : NestedSends) : Option StoredHandler → Bool
  | some new => !s.made new.handler
  | none => true

/-- Put a handler into its entry. -/
def store (s : NestedSends) : Option StoredHandler → NestedSends
  | some new =>
    let entry := new.handler :: if new.filter then s.entries new.component new.id else []
    { s with
      made := Function.update s.made new.handler true
      entries := Function.update s.entries new.component (Function.update (s.entries new.component) new.id entry) }
  | none => s

/-- The handler that an entry of the vector points to has not been destroyed. -/
def handlerExists (id : MessageId) (s : NestedSends) (r : ReceiverHandler) : Bool :=
  s.world.alive r.receivingComponent && decide (r.handler ∈ s.entries r.receivingComponent id)

/-- The reference does not resolve again. -/
def usable (s : NestedSends) : Bool := !s.ref.receiverHandlers.isEmpty && !s.world.expired s.ref.receivers

/-- Code runs that may use the reference: no loop has started, or the innermost has called a handler. -/
def inCode (s : NestedSends) : Bool := s.loops.head?.all SendLoop.inHandler

/-- `handler_->lookup()`. -/
def lookup (id : MessageId) (owner : ComponentId) (lost : ComponentId → List ComponentId) (s : NestedSends) :
    List ReceiverHandler × NestedSends :=
  let (handlers, ref, world) := PolyRef.lookup id owner lost s.world s.ref
  (handlers, { s with world, ref, filling := if s.usable then s.filling else s.filling + 1 })

/-- The start of the loop. -/
def startLoop (id : MessageId) (owner : ComponentId) (handlers : List ReceiverHandler) (s : NestedSends) : NestedSends :=
  let loop : SendLoop := { filling := s.filling, size := handlers.length, subscribers := s.world.subscribers id owner }
  { s with loops := loop :: s.loops }

/-- The next round of a loop, which reads the vector through its iterator; `none` where the iterator is not valid any more, or the handler
that is to be called is gone. -/
def round (id : MessageId) (s : NestedSends) (l : SendLoop) (loops : List SendLoop) : Option NestedSends :=
  if l.position = l.size then
    let done : EndedSend := { subscribers := l.subscribers, reached := l.reached }
    some { s with loops, ended := s.ended ++ [done] }
  else if l.filling = s.filling then
    (s.ref.receiverHandlers[l.position]?).bind fun r =>
      -- For a subscriber on another executor a task is enqueued, which only copies the pointer; otherwise its handler runs now.
      if r.sameExecutor && !s.handlerExists id r then none
      else
        let reached := if s.handlerExists id r then l.reached ++ [r] else l.reached
        some { s with loops := { l with position := l.position + 1, inHandler := r.sameExecutor, reached } :: loops }
  else none

/-- One step; `none` where it cannot be taken, or is undefined. -/
def step (id : MessageId) (owner : ComponentId) (s : NestedSends) : NestedSendAction → Option NestedSends
  | .world op =>
    if s.isNew op.storedHandler then (s.world.step op).map fun world => { s with world }.store op.storedHandler else none
  | .send lost =>
    if s.inCode then
      let (handlers, s) := s.lookup id owner lost
      some (s.startLoop id owner handlers)
    else none
  | .forceResolve lost => if s.inCode then some (s.lookup id owner lost).2 else none
  | .next =>
    match s.loops with
    | [] => none
    | l :: loops => if l.inHandler then none else s.round id l loops
  | .handlerReturns =>
    match s.loops with
    | [] => none
    | l :: loops => if l.inHandler then some { s with loops := { l with inHandler := false } :: loops } else none

/-- New components on these executors, and a new reference. -/
def init (defaultExecutor : ComponentId → ExecutorId) (others : ComponentId → Nat) : NestedSends :=
  { world := World.new (fun c => { defaultExecutor := defaultExecutor c }) others }

/-! ## What a sender expects -/

/-- A handler does not use the reference when the receiver list it was resolved from has been replaced since; and no component publishes the
message again, other than by a filter, while a loop has yet to come to it. -/
def KeepsList (id : MessageId) (s : NestedSends) : NestedSendAction → Prop
  | .send _ | .forceResolve _ => s.inCode = true → s.loops ≠ [] → s.world.expired s.ref.receivers = false
  | .world op => s.isNew op.storedHandler = true → ∀ new, op.storedHandler = some new → new.id = id → new.filter = false →
      ∀ l ∈ s.loops, ∀ r ∈ s.ref.receiverHandlers.drop l.position, r.receivingComponent ≠ new.component
  | _ => True

end NestedSends

end Minicomps
