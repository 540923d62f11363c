import Minicomps.PolyRef

/-!
# Subscribing while an event is looked up

`subscribe_event` associates the component first and stores its handler after that; a lookup reads the list first and then asks the
components in it, one after another. Here both are taken apart into these steps: one thread looks an event up through its reference,
again and again, while others subscribe, and do whatever else can be done to a world.
-/

namespace Minicomps

/-- Where a lookup is that has not returned yet. -/
inductive PolyStage where
  /-- The broker has given a weak pointer to its list. -/
  | fetched (receivers : ListId)
  /-- The list is held, or could not be locked any more and counts as empty; the entries are still the old ones. -/
  | clearing (receivers : List ComponentId)
  /-- In the loop, before the receivers that are left. A lookup that answers from its cache has none. -/
  | looping (receivers : List ComponentId)
  /-- In the loop, the receiver locked and not asked yet. -/
  | locked (receiver : ComponentId) (receivers : List ComponentId)
  deriving DecidableEq, Repr

/-- A call of `subscribe_event` that has associated its component, and not stored the handler. -/
structure Subscription where
  component : ComponentId
  msgId : MessageId
  handler : HandlerId
  deriving DecidableEq, Repr

/-- A world, a reference to an event, and what is under way. -/
structure SubscribeState where
  world : World
  ref : PolyRef
  /-- The reference's thread is in `lookup()`. -/
  lookup : Option PolyStage := none
  subscribing : List Subscription := []
  /-- History: the receivers that the last lookup to read the list has been through. -/
  passed : List ComponentId := []
  /-- History: those of them that have stored a handler since they were asked. -/
  missed : List ComponentId := []
  /-- History: the subscribers that have been such ever since the lookup under way started. -/
  due : List ReceiverHandler := []

/-- What happens to them. -/
inductive SubscribeAction where
  /-- Anything that is done to the world at once, by whatever thread. -/
  | world (op : WorldOp)
  /-- `subscribe_event` up to the end of `associate`. -/
  | associate (subscription : Subscription)
  /-- The rest of it. -/
  | store (subscription : Subscription)
  /-- `lookup()` looks at its cache, and asks the broker if that is no use. -/
  | startLookup
  | hold
  | clear (lost : ComponentId → List ComponentId)
  | lockNext
  | ask (lost : ComponentId → List ComponentId)
  | returnHandlers

namespace SubscribeState

/-- `lookup()` takes its cache for valid. -/
def hit (s : SubscribeState) : Bool := !s.ref.receiverHandlers.isEmpty && !s.world.expired s.ref.receivers

/-- What is due stays due while it is a subscriber. -/
def settle (id : MessageId) (owner : ComponentId) (s : SubscribeState) : SubscribeState :=
  { s with due := s.due.filter fun h => decide (h ∈ s.world.subscribers id owner) }

/-- The handler of the subscription is stored. -/
def storeHandler (subscription : Subscription) (w : World) : World :=
  w.update subscription.component fun comp =>
    { comp with
      asyncHandlers := Function.update comp.asyncHandlers subscription.msgId (some subscription.handler) }.pushDependency
        .imported .asyncPoly subscription.msgId

/-- `subscribe_event` up to the end of `associate`: `shared_from_this()` takes a component that somebody holds. -/
def associate (s : SubscribeState) (subscription : Subscription) : Option SubscribeState :=
  if s.world.alive subscription.component then
    some { s with
      world := { s.world with broker := s.world.broker.associate subscription.msgId subscription.component }
      subscribing := s.subscribing ++ [subscription] }
  else none

/-- The rest of `subscribe_event`, on a component that is still held. -/
def store (id : MessageId) (s : SubscribeState) (subscription : Subscription) : Option SubscribeState :=
  if subscription ∈ s.subscribing ∧ s.world.alive subscription.component = true then
    some { s with
      world := storeHandler subscription s.world
      subscribing := s.subscribing.erase subscription
      missed :=
        if subscription.msgId = id ∧ subscription.component ∈ s.passed then subscription.component :: s.missed else s.missed }
  else none

/-- `lookup()` up to the end of `broker_.lookup`. -/
def startLookup (id : MessageId) (owner : ComponentId) (s : SubscribeState) : Option SubscribeState :=
  if s.lookup.isSome then none
  else if s.hit then some { s with lookup := some (.looping []), due := s.world.subscribers id owner }
  else
    let (b, l) := s.world.broker.lookup id
    some { s with
      world := { s.world with broker := b }
      ref := { s.ref with receivers := some l }
      lookup := some (.fetched l)
      passed := []
      missed := []
      due := s.world.subscribers id owner }

/-- `receivers_.lock()`; the list is held from here on, unless it is gone. -/
def hold (s : SubscribeState) : Option SubscribeState :=
  match s.lookup with
  | some (.fetched l) =>
    let receivers := if s.world.expired (some l) then [] else s.world.broker.activeLookups.heap l
    some { s with lookup := some (.clearing receivers) }
  | _ => none

/-- `receiver_handlers_.clear()`. -/
def clear (lost : ComponentId → List ComponentId) (s : SubscribeState) : Option SubscribeState :=
  match s.lookup with
  | some (.clearing receivers) =>
    some { s with
      world := PolyRef.clear lost s.world s.ref.receiverHandlers
      ref := { s.ref with receiverHandlers := [] }
      lookup := some (.looping receivers) }
  | _ => none

/-- `r.lock()` on the next receiver. -/
def lockNext (s : SubscribeState) : Option SubscribeState :=
  match s.lookup with
  | some (.looping (c :: receivers)) =>
    match s.world.lock c with
    -- Failed to lock.
    | none => some { s with lookup := some (.looping receivers), passed := s.passed ++ [c] }
    | some receiver => some { s with world := s.world.pin receiver, lookup := some (.locked receiver receivers) }
  | _ => none

/-- `receiver->lookup_async_handler(msgId)`, and an entry for it. The pointer to a receiver without a handler is dropped. -/
def ask (id : MessageId) (owner : ComponentId) (lost : ComponentId → List ComponentId) (s : SubscribeState) : Option SubscribeState :=
  match s.lookup with
  | some (.locked receiver receivers) =>
    let s := { s with
      lookup := some (.looping receivers)
      passed := s.passed ++ [receiver]
      missed := s.missed.filter (· != receiver) }
    match (s.world.component receiver).lookupAsyncHandler id with
    -- Receiver possibly out of sync with the broker.
    | none => some { s with world := s.world.unpin lost receiver }
    | some handler =>
      let sameExecutor := decide ((s.world.component receiver).defaultExecutor = (s.world.component owner).defaultExecutor)
      some { s with
        ref := { s.ref with receiverHandlers := s.ref.receiverHandlers ++ [⟨receiver, handler, sameExecutor⟩] } }
  | _ => none

/-- `lookup()` returns its entries, and lets go of the list. -/
def returnHandlers (s : SubscribeState) : Option SubscribeState :=
  match s.lookup with
  | some (.looping []) => some { s with lookup := none }
  | _ => none

/-- A step. -/
def step (id : MessageId) (owner : ComponentId) (s : SubscribeState) (a : SubscribeAction) : Option SubscribeState :=
  (match a with
    | .world op => (s.world.step op).map ({ s with world := · })
    | .associate subscription => s.associate subscription
    | .store subscription => s.store id subscription
    | .startLookup => s.startLookup id owner
    | .hold => s.hold
    | .clear lost => s.clear lost
    | .lockNext => s.lockNext
    | .ask lost => s.ask id owner lost
    | .returnHandlers => s.returnHandlers).map (settle id owner)

/-- A new reference in a new world. -/
def init (component : ComponentId → Component) (others : ComponentId → Nat) : SubscribeState :=
  { world := World.new component others, ref := {} }

/-! ## What a lookup should find -/

/-- What a lookup returns has every component that was a subscriber when it started, and has been one with the same handler ever
since. -/
def Reaches (s : SubscribeState) : SubscribeAction → Prop
  | .returnHandlers => s.lookup = some (.looping []) → ∀ h ∈ s.due, h ∈ s.ref.receiverHandlers
  | _ => True

/-- When a lookup is answered from the cache, no subscriber has stored its handler after the lookup that filled the cache had asked
it; and when the list is gone before a lookup could lock it, there has been no subscriber since the lookup started. -/
def NotMissed (id : MessageId) (owner : ComponentId) (s : SubscribeState) : SubscribeAction → Prop
  | .startLookup => s.hit = true → ∀ h ∈ s.world.subscribers id owner, h.receivingComponent ∉ s.missed
  | .hold => ∀ l ∈ s.ref.receivers, s.world.expired (some l) = true → s.due = []
  | _ => True

end SubscribeState

end Minicomps
