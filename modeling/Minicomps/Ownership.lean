import Mathlib.Logic.Relation
import Minicomps.InterfaceRef
import Minicomps.MonoRef
import Minicomps.PolyRef

/-!
# Who owns whom

All references of all components, and every strong pointer to a component: those that user code holds, those that references hold,
and those on their way out. A lookup is taken apart where it locks or drops a pointer, so that lookups on several threads interleave.
When the last pointer to a component goes its destructor runs, its references go with it, and the pointers these held are dropped in
turn. `unpublish_dependencies` leaves the references as they are: nobody calls their `reset()`.
-/

namespace Minicomps

/-! ## References -/

/-- A reference as its component keeps it: in `mono_refs_`, `poly_refs_` or `interface_refs_`. -/
inductive OwnedRef where
  | mono (kind : QueryKind) (id : MessageId) (ref : MonoRef)
  | poly (id : MessageId) (ref : PolyRef)
  | interface (id : MessageId) (life : LifetimeWeakPtr) (ref : InterfaceRef)
  deriving DecidableEq, Repr

/-- What is left of a lookup. -/
inductive LookupRest where
  /-- `receiver_ = (*receivers)[0].lock()`. -/
  | lockReceiver (c : ComponentId)
  /-- From `lookup_handler` or `lookup_interface` on. -/
  | askReceiver (c : ComponentId)
  /-- The loop over the receivers of an event. -/
  | collect (receivers : MessageReceivers)
  deriving DecidableEq, Repr

/-- The component that the lookup locks next, if it can. -/
def LookupRest.next : LookupRest → Option ComponentId
  | .lockReceiver c => some c
  | .askReceiver _ => none
  | .collect receivers => receivers.head?

/-- What a thread is doing. -/
inductive StackFrame where
  /-- A strong pointer to the component is about to go. -/
  | drop (c : ComponentId)
  /-- A lookup through the owner's reference of that number. -/
  | lookup (owner : ComponentId) (i : Nat) (rest : LookupRest)
  deriving DecidableEq, Repr

/-- The strong pointers that what the thread is doing still has. -/
def StackFrame.pointers : StackFrame → List ComponentId
  | .drop c => [c]
  | .lookup .. => []

namespace OwnedRef

/-- The message it was looked up for. -/
def messageId : OwnedRef → MessageId
  | .mono _ id _ => id
  | .poly id _ => id
  | .interface id .. => id

/-- The weak pointer to the receiver list. -/
def receivers : OwnedRef → Option ListId
  | .mono _ _ r => r.receivers
  | .poly _ r => r.receivers
  | .interface _ _ r => r.resolvedReceivers

/-- It has something to return while its receiver list has not expired. -/
def cached : OwnedRef → Bool
  | .mono _ _ r => r.handler.isSome
  | .poly _ r => !r.receiverHandlers.isEmpty
  | .interface _ _ r => r.localInterfaceProxy.isSome

/-- The strong pointers it holds. -/
def held : OwnedRef → List ComponentId
  | .mono _ _ r => r.receiver.toList
  | .poly _ r => r.receiverHandlers.map (·.receivingComponent)
  | .interface _ _ r => r.receiver.toList

/-- `lookup()` from where the broker has returned its list, up to the first pointer it locks or drops: the reference, and what is left
to do. -/
def fetch (owner : ComponentId) (i : Nat) (l : ListId) (receivers : MessageReceivers) : OwnedRef → OwnedRef × List StackFrame
  | .mono kind id r => (.mono kind id { r with receivers := some l }, lockOnly)
  | .poly id r => (.poly id { receivers := some l, receiverHandlers := [] },
      -- `receiver_handlers_.clear()`
      (r.receiverHandlers.map fun h => StackFrame.drop h.receivingComponent) ++ [StackFrame.lookup owner i (.collect receivers)])
  | .interface id life r => (.interface id life { r with resolvedReceivers := some l }, lockOnly)
where
  /-- No receiver, or too many, and it returns: one is expected. -/
  lockOnly : List StackFrame :=
    match receivers with
    | [c] => [StackFrame.lookup owner i (.lockReceiver c)]
    | _ => []

/-- One step of what is left of a lookup: the reference after it, and what is left then. It is `none` if the lookup aborts. -/
def resume (owner : ComponentId) (i : Nat) (w : World) : OwnedRef → LookupRest → Option (OwnedRef × List StackFrame)
  | .mono kind id r, .lockReceiver c =>
    let receiver := w.lock c
    some (.mono kind id { r with receiver := receiver }, relock r.receiver receiver)
  | .mono kind id r, .askReceiver c =>
    let handler := kind.lookupHandler (w.component c) id
    let r := { r with handler := handler }
    match handler with
    -- Receiver possibly out of sync with the broker.
    | none => some (.mono kind id r, [])
    | some _ =>
      let executor := w.handlerExecutor c id
      some (.mono kind id { r with
        receiverExecutor := some executor
        sameExecutor := decide ((w.component owner).defaultExecutor = executor) }, [])
  | .interface id life r, .lockReceiver c =>
    let receiver := w.lock c
    some (.interface id life { r with receiver := receiver }, relock r.receiver receiver)
  | .interface id life r, .askReceiver c =>
    match (w.component c).lookupInterface id with
    | none => some (.interface id life r, [])
    | some impl => do
      let proxy ← InterfaceRef.copyInterface owner life w impl
      some (.interface id life { r with localInterfaceProxy := some proxy }, [])
  | .poly id r, .collect [] => some (.poly id r, [])
  | .poly id r, .collect (c :: receivers) =>
    let rest := [StackFrame.lookup owner i (.collect receivers)]
    match w.lock c with
    -- Failed to lock.
    | none => some (.poly id r, rest)
    | some receiver =>
      match (w.component receiver).lookupAsyncHandler id with
      -- The pointer that was locked goes again, which leaves the world as it was.
      | none => some (.poly id r, rest)
      | some handler =>
        let sameExecutor := decide ((w.component receiver).defaultExecutor = (w.component owner).defaultExecutor)
        some (.poly id { r with receiverHandlers := r.receiverHandlers ++ [ReceiverHandler.mk receiver handler sameExecutor] }, rest)
  | _, _ => none
where
  /-- After `receiver_` has been assigned: the old pointer goes, then the new one is asked if there is one. -/
  relock (old new : Option ComponentId) : List StackFrame :=
    old.toList.map StackFrame.drop ++ new.toList.map fun c => StackFrame.lookup owner i (.askReceiver c)

end OwnedRef

/-! ## All components -/

/-- Components, everything that holds strong pointers to them, and `n` threads. -/
structure OwnershipState (n : Nat) where
  broker : Broker := Broker.empty
  component : ComponentId → Component := fun _ => { defaultExecutor := 0 }
  implemented : InterfaceId → Bool := fun _ => false
  /-- Those that have been constructed, whether or not they still exist. -/
  components : List ComponentId := []
  destroyed : ComponentId → Bool := fun _ => false
  /-- How many strong pointers to a component user code holds. -/
  users : ComponentId → Nat := fun _ => 0
  /-- The references a component keeps. -/
  references : ComponentId → List OwnedRef := fun _ => []
  /-- What each thread is doing, the innermost first. -/
  stack : Fin n → List StackFrame := fun _ => []

/-- What happens to them. -/
inductive OwnershipAction (n : Nat) where
  /-- `std::make_shared` of a component. -/
  | construct (c : ComponentId) (executor : ExecutorId) (listener : Option ListenerId)
  /-- Anything done to the broker or to a component's tables. -/
  | world (op : WorldOp)
  /-- `lookup_sync_query` or `lookup_async_query`. -/
  | lookupQuery (kind : QueryKind) (owner : ComponentId) (id : MessageId)
  | lookupEvent (owner : ComponentId) (id : MessageId)
  | lookupInterface (owner : ComponentId) (id : MessageId) (life : LifetimeWeakPtr)
  /-- User code copies a strong pointer to a component. -/
  | acquire (c : ComponentId)
  /-- User code lets a strong pointer to a component go. -/
  | release (t : Fin n) (c : ComponentId)
  /-- A lookup starts. -/
  | lookup (t : Fin n) (owner : ComponentId) (i : Nat)
  /-- The thread goes on with what it is doing. -/
  | advance (t : Fin n)

/-- The operation is about strong pointers only. -/
def WorldOp.isPointer : WorldOp → Bool
  | .acquire _ => true
  | .release _ => true
  | _ => false

namespace OwnershipState

variable {n : Nat}

/-- The strong pointers that the references of a component hold. -/
def heldBy (s : OwnershipState n) (c : ComponentId) : List ComponentId := (s.references c).flatMap OwnedRef.held

/-- The strong pointers that are on their way out on a thread. -/
def pending (s : OwnershipState n) (t : Fin n) : List ComponentId := (s.stack t).flatMap StackFrame.pointers

/-- All strong pointers that user code does not hold. -/
def strongPointers (s : OwnershipState n) : List ComponentId :=
  s.components.flatMap s.heldBy ++ (List.finRange n).flatMap s.pending

/-- What the broker and the components look like, with the count of the strong pointers to each. -/
def world (s : OwnershipState n) : World :=
  { broker := s.broker
    component := s.component
    others := s.users
    cached := fun c => s.strongPointers.count c
    implemented := s.implemented }

/-- The broker and the components as the world has them. -/
def setWorld (s : OwnershipState n) (w : World) : OwnershipState n :=
  { s with broker := w.broker, component := w.component, implemented := w.implemented }

def setReference (s : OwnershipState n) (owner : ComponentId) (i : Nat) (ref : OwnedRef) : OwnershipState n :=
  { s with references := Function.update s.references owner ((s.references owner).set i ref) }

def setStack (s : OwnershipState n) (t : Fin n) (stack : List StackFrame) : OwnershipState n :=
  { s with stack := Function.update s.stack t stack }

/-- The thread has these things to do first. -/
def push (s : OwnershipState n) (t : Fin n) (frames : List StackFrame) : OwnershipState n := s.setStack t (frames ++ s.stack t)

/-- The component has been constructed and still exists. -/
def present (s : OwnershipState n) (c : ComponentId) : Bool := decide (c ∈ s.components) && !s.destroyed c

/-- Component construction; the only strong pointer is returned. -/
def construct (s : OwnershipState n) (c : ComponentId) (executor : ExecutorId) (listener : Option ListenerId) :
    Option (OwnershipState n) :=
  if c ∈ s.components then none
  else some { s with
    components := s.components ++ [c]
    component := Function.update s.component c { defaultExecutor := executor, listener := listener }
    users := Function.update s.users c 1 }

/-- `mono_refs_.push_back`, `poly_refs_.push_back` or `interface_refs_.push_back`. -/
def pushReference (s : OwnershipState n) (owner : ComponentId) (ref : OwnedRef) : Option (OwnershipState n) :=
  if s.present owner then
    some { s with references := Function.update s.references owner (s.references owner ++ [ref]) }
  else none

/-- A copy of a strong pointer to a component, from wherever one is held. -/
def acquire (s : OwnershipState n) (c : ComponentId) : Option (OwnershipState n) :=
  if s.world.alive c then some { s with users := Function.update s.users c (s.users c + 1) } else none

/-- User code lets one go. -/
def release (s : OwnershipState n) (t : Fin n) (c : ComponentId) : Option (OwnershipState n) :=
  if s.users c = 0 then none
  else some ({ s with users := Function.update s.users c (s.users c - 1) }.push t [StackFrame.drop c])

/-- `lookup()` of a reference up to the first pointer it locks or drops. -/
def lookup (s : OwnershipState n) (t : Fin n) (owner : ComponentId) (i : Nat) : Option (OwnershipState n) :=
  match (s.references owner)[i]? with
  | none => none
  | some ref =>
    if ref.cached && !s.world.expired ref.receivers then some s
    else
      let (b, l) := s.broker.lookup ref.messageId
      let (ref, frames) := ref.fetch owner i l (b.activeLookups.heap l)
      some (({ s with broker := b }.setReference owner i ref).push t frames)

/-- `component_base::~component_base`, and the end of the members: the pointers that the component's references held are dropped one
after another. -/
def destruct (s : OwnershipState n) (t : Fin n) (c : ComponentId) : OwnershipState n :=
  { s.setWorld (s.world.destruct c) with
    destroyed := Function.update s.destroyed c true
    references := Function.update s.references c [] }.push t ((s.heldBy c).map StackFrame.drop)

/-- What follows when a strong pointer to the component has gone: nothing, or the destructor if it was the last one. -/
def dropped (s : OwnershipState n) (t : Fin n) (c : ComponentId) : OwnershipState n :=
  if s.world.alive c then s else s.destruct t c

/-- The thread takes its next step. A lookup through a reference that is gone has no meaning. -/
def advance (s : OwnershipState n) (t : Fin n) : Option (OwnershipState n) :=
  match s.stack t with
  | [] => none
  | .drop c :: rest => some ((s.setStack t rest).dropped t c)
  | .lookup owner i task :: rest =>
    match (s.references owner)[i]? with
    | none => none
    | some ref => (ref.resume owner i s.world task).map fun (ref, frames) =>
        ((s.setReference owner i ref).setStack t rest).push t frames

/-- A step. -/
def step (s : OwnershipState n) : OwnershipAction n → Option (OwnershipState n)
  | .construct c executor listener => s.construct c executor listener
  | .world op => if op.isPointer then none else (s.world.step op).map s.setWorld
  | .lookupQuery kind owner id => s.pushReference owner (.mono kind id {})
  | .lookupEvent owner id => s.pushReference owner (.poly id {})
  | .lookupInterface owner id life => s.pushReference owner (.interface id life {})
  | .acquire c => s.acquire c
  | .release t c => s.release t c
  | .lookup t owner i => s.lookup t owner i
  | .advance t => s.advance t

/-- Nothing has been constructed. -/
def init : OwnershipState n := {}

/-! ## What should become of components nobody uses -/

/-- A reference of the one component holds a strong pointer to the other. -/
def Holds (s : OwnershipState n) (owner c : ComponentId) : Prop := c ∈ s.heldBy owner

/-- Every component has been unpublished, user code holds no strong pointer to any, and no thread is in the middle of a lookup, or of
dropping a pointer. -/
structure Released (s : OwnershipState n) : Prop where
  unpublished : ∀ c ∈ s.components, (s.component c).published = false
  unused : ∀ c ∈ s.components, s.users c = 0
  idle : ∀ t, s.stack t = []

/-- Every component that was constructed has been destroyed. -/
def AllDestroyed (s : OwnershipState n) : Prop := ∀ c ∈ s.components, s.destroyed c = true

/-- A lookup that goes on locks no component from which its own can be reached along the strong pointers that references hold. -/
def ClosesNoCycle (s : OwnershipState n) : OwnershipAction n → Prop
  | .advance t => ∀ owner i task rest, s.stack t = .lookup owner i task :: rest →
      ∀ c ∈ task.next, s.world.alive c = true → ¬Relation.ReflTransGen s.Holds c owner
  | _ => True

end OwnershipState

end Minicomps
