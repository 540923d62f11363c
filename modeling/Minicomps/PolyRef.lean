import Minicomps.Component

/-!
# A reference to all handlers of an event

`poly_ref_base` keeps one entry for each subscriber, with a strong pointer to it, next to a weak pointer to the receiver list it
was made from. Clearing the old entries may destroy components, and thereby change the broker, while the list is being read.
-/

namespace Minicomps

/-- `poly_ref_base::receiver_handler`. -/
structure ReceiverHandler where
  receivingComponent : ComponentId
  handler : HandlerId
  sameExecutor : Bool
  deriving DecidableEq, Repr

/-- The fields of `poly_ref_base`. -/
structure PolyRef where
  receivers : Option ListId := none
  receiverHandlers : List ReceiverHandler := []
  deriving DecidableEq, Repr

namespace PolyRef

/-- `receiver_handlers_.clear()`: the strong pointers go one after another. -/
def clear (lost : ComponentId → List ComponentId) (w : World) (handlers : List ReceiverHandler) : World :=
  handlers.foldl (fun w h => w.unpin lost h.receivingComponent) w

/-- The loop over the receivers. The pointer to one without a handler is dropped again, which leaves the world as it was. -/
def collect (id : MessageId) (owner : ComponentId) : List ComponentId → World → List ReceiverHandler × World
  | [], w => ([], w)
  | c :: receivers, w =>
    match w.lock c with
    -- Failed to lock.
    | none => collect id owner receivers w
    | some receiver =>
      match (w.component receiver).lookupAsyncHandler id with
      -- The receiver may be out of sync with the broker.
      | none => collect id owner receivers w
      | some handler =>
        let sameExecutor := decide ((w.component receiver).defaultExecutor = (w.component owner).defaultExecutor)
        let (handlers, w) := collect id owner receivers (w.pin receiver)
        (⟨receiver, handler, sameExecutor⟩ :: handlers, w)

/-- `lookup()` from where the cached state was found unusable. The list is held by a strong pointer until the loop ends, so what
the cleared entries take down does not change it. -/
def refetch (id : MessageId) (owner : ComponentId) (lost : ComponentId → List ComponentId) (w : World) (r : PolyRef) :
    List ReceiverHandler × PolyRef × World :=
  let (b, l) := w.broker.lookup id
  let w := { w with broker := b }
  let receivers := b.activeLookups.heap l
  let w := clear lost w r.receiverHandlers
  let (handlers, w) := collect id owner receivers w
  (handlers, { receivers := some l, receiverHandlers := handlers }, w)

/-- `poly_ref_base::lookup`, on a reference to the event that `owner` looked up. -/
def lookup (id : MessageId) (owner : ComponentId) (lost : ComponentId → List ComponentId) (w : World) (r : PolyRef) :
    List ReceiverHandler × PolyRef × World :=
  if !r.receiverHandlers.isEmpty && !w.expired r.receivers then (r.receiverHandlers, r, w) else refetch id owner lost w r

end PolyRef

/-! ## What a lookup should find -/

/-- A component as an entry of the sender's list, if it has a handler for the event. -/
def World.receiverHandler (id : MessageId) (owner : ComponentId) (w : World) (c : ComponentId) : Option ReceiverHandler :=
  ((w.component c).lookupAsyncHandler id).map fun handler =>
    { receivingComponent := c
      handler := handler
      sameExecutor := decide ((w.component c).defaultExecutor = (w.component owner).defaultExecutor) }

/-- The live entries of the broker's list for the event that have a handler, in association order. -/
def World.subscribers (id : MessageId) (owner : ComponentId) (w : World) : List ReceiverHandler :=
  ((w.broker.receivers id).filter w.alive).filterMap (w.receiverHandler id owner)

/-- An entry is that of a live component. -/
theorem World.of_mem_subscribers {id : MessageId} {owner : ComponentId} {w : World} {h : ReceiverHandler} (hh : h ∈ w.subscribers id owner) :
    w.alive h.receivingComponent = true ∧ w.receiverHandler id owner h.receivingComponent = some h := by
  obtain ⟨c, hc, heq⟩ := List.mem_filterMap.mp hh
  obtain ⟨handler, -, rfl⟩ := Option.map_eq_some_iff.mp heq
  exact ⟨(List.mem_filter.mp hc).2, heq⟩

end Minicomps
