import Minicomps.Broker

/-!
# Components, and who holds them

A component's tables of handlers, as `component_base` fills them, and a world of components around one broker. A component
lives as long as somebody holds a strong pointer to it; here the pointers are counted in two parts, the ones held by the one
reference a theorem looks at (`cached`) and all others (`others`). When the last one goes the destructor runs, and a published
component takes itself out of every receiver list.
-/

namespace Minicomps

/-- The identity of an executor. -/
abbrev ExecutorId := Nat

/-- The address of the callable inside a `message_handler`: what `get_handler_ptr` returns. -/
abbrev HandlerId := Nat

/-- The address of a published interface. -/
abbrev InterfaceId := Nat

/-- The address of a `component_listener`. -/
abbrev ListenerId := Nat

/-- `dependency_info::direction`. -/
inductive Direction where
  | exported | imported
  deriving DecidableEq, Repr

/-- `dependency_info::type`. -/
inductive DependencyType where
  | asyncMono | syncMono | asyncPoly | interface | group
  deriving DecidableEq, Repr

/-- `dependency_info`. A message's info is as good as its id; a resolved target may be a null pointer. -/
structure DependencyInfo where
  direction : Direction
  type : DependencyType
  msgInfo : MessageId
  resolvedTargets : List (Option ComponentId)
  deriving DecidableEq, Repr

/-- The parts of `component` and `component_base` that references read and the publishing functions write. -/
structure Component where
  defaultExecutor : ExecutorId
  listener : Option ListenerId := none
  /-- `published_`: set by `publish_dependencies`, cleared by `unpublish_dependencies`. -/
  published : Bool := false
  syncHandlers : MessageId → Option HandlerId := fun _ => none
  asyncHandlers : MessageId → Option HandlerId := fun _ => none
  interfaces : MessageId → Option InterfaceId := fun _ => none
  /-- A missing entry and a null pointer read the same. -/
  asyncExecutorOverrides : MessageId → Option ExecutorId := fun _ => none
  /-- `post_publish_checks_`: the interfaces whose queries must all be implemented once everything is published. -/
  postPublishChecks : List InterfaceId := []
  publishedDependencies : List DependencyInfo := []

namespace Component

/-- `component_base::lookup_sync_handler`. -/
def lookupSyncHandler (c : Component) (id : MessageId) : Option HandlerId := c.syncHandlers id

/-- `component_base::lookup_async_handler`. -/
def lookupAsyncHandler (c : Component) (id : MessageId) : Option HandlerId := c.asyncHandlers id

/-- `component_base::lookup_interface`, the one a reference asks a receiver. -/
def lookupInterface (c : Component) (id : MessageId) : Option InterfaceId := c.interfaces id

/-- `component_base::lookup_executor_override`. -/
def lookupExecutorOverride (c : Component) (id : MessageId) : Option ExecutorId := c.asyncExecutorOverrides id

/-- `published_dependencies_.push_back` of an export or import without targets. -/
def pushDependency (c : Component) (d : Direction) (t : DependencyType) (id : MessageId) : Component :=
  { c with publishedDependencies := c.publishedDependencies ++ [⟨d, t, id, []⟩] }

end Component

/-- Components around a broker. -/
structure World where
  broker : Broker
  component : ComponentId → Component
  /-- How many strong pointers to a component are held by anybody but the reference. -/
  others : ComponentId → Nat
  /-- How many strong pointers to a component the reference holds. -/
  cached : ComponentId → Nat
  /-- Every query of the interface has been given a handler. -/
  implemented : InterfaceId → Bool

namespace World

/-- A weak pointer to the component can be locked: some strong pointer to it is left. -/
def alive (w : World) (c : ComponentId) : Bool := decide (0 < w.others c + w.cached c)

/-- `std::weak_ptr<component>::lock`. -/
def lock (w : World) (c : ComponentId) : Option ComponentId := if w.alive c then some c else none

/-- Change one component. -/
def update (w : World) (c : ComponentId) (f : Component → Component) : World :=
  { w with component := Function.update w.component c (f (w.component c)) }

/-- `broker_.disassociate_everything(this)`; it never aborts (`Broker.disassociateEverything_spec`). -/
def disassociateEverything (w : World) (c : ComponentId) : World :=
  { w with broker := (w.broker.disassociateEverything w.alive c).getD w.broker }

/-- `component_base::unpublish_dependencies`. The handlers stay, since references elsewhere may still point to them. -/
def unpublishDependencies (w : World) (c : ComponentId) : World :=
  (w.disassociateEverything c).update c (fun comp => { comp with published := false })

/-- `component_base::~component_base`. -/
def destruct (w : World) (c : ComponentId) : World :=
  if (w.component c).published then w.unpublishDependencies c else w

/-- What follows when a strong pointer to the component has gone: nothing, or the destructor if it was the last one. -/
def dropped (w : World) (c : ComponentId) : World := if w.alive c then w else w.destruct c

/-- Somebody other than the reference drops a strong pointer to the component. -/
def release (w : World) (c : ComponentId) : World :=
  if w.others c = 0 then w
  else { w with others := Function.update w.others c (w.others c - 1) }.dropped c

/-- The reference takes a strong pointer to the component. -/
def pin (w : World) (c : ComponentId) : World :=
  { w with cached := Function.update w.cached c (w.cached c + 1) }

/-- The reference drops a strong pointer to the component. If that destroys the component, its own members go with it, and
with them the strong pointers they held: `lost c` lists those. -/
def unpin (lost : ComponentId → List ComponentId) (w : World) (c : ComponentId) : World :=
  let w' := { w with cached := Function.update w.cached c (w.cached c - 1) }
  if w'.alive c then w' else (lost c).foldl release (w'.destruct c)

/-- `pin` for a strong pointer that may be null. -/
def pinSome (w : World) : Option ComponentId → World
  | some c => w.pin c
  | none => w

/-- `unpin` for a strong pointer that may be null. -/
def unpinSome (lost : ComponentId → List ComponentId) (w : World) : Option ComponentId → World
  | some c => w.unpin lost c
  | none => w

/-- Assign a weak pointer's `lock()` to the strong pointer a reference keeps: the new pointer is taken before the old one is
dropped. -/
def repin (lost : ComponentId → List ComponentId) (w : World) (old new : Option ComponentId) : World :=
  (w.pinSome new).unpinSome lost old

/-- What `fetchReceiver` found. -/
structure Fetched where
  /-- The broker's list for the message. -/
  receivers : ListId
  /-- Its only entry, locked. -/
  found : Option ComponentId
  /-- The strong pointer the reference keeps to its receiver. -/
  receiver : Option ComponentId
  world : World

/-- How the references to one receiver start to resolve: they ask the broker for the list, and lock its entry into the strong
pointer they keep if there is exactly one. `receiver` is that pointer before; an early return leaves it as it was. This may
drop the last pointer to the old receiver. -/
def fetchReceiver (id : MessageId) (lost : ComponentId → List ComponentId) (w : World) (receiver : Option ComponentId) : Fetched :=
  let (b, l) := w.broker.lookup id
  let w := { w with broker := b }
  match b.activeLookups.heap l with
  | [c] => { receivers := l, found := w.lock c, receiver := w.lock c, world := w.repin lost receiver (w.lock c) }
  -- No receiver, or too many: one is expected.
  | _ => { receivers := l, found := none, receiver := receiver, world := w }

/-- `expired()` of a weak pointer to a receiver list, where nobody but the broker holds lists. A default-constructed
weak pointer is expired. -/
def expired (w : World) : Option ListId → Bool
  | none => true
  | some l => !w.broker.owns l

/-- The executor a handler of the component is run on: the override of its message, or the component's own. -/
def handlerExecutor (w : World) (c : ComponentId) (id : MessageId) : ExecutorId :=
  ((w.component c).lookupExecutorOverride id).getD (w.component c).defaultExecutor

end World

/-! ## What happens to a world besides the lookups of the reference -/

/-- The operations on a broker and its components. The publishing functions hand out `shared_from_this()`, so only a live
component can call them. -/
inductive WorldOp where
  | associate (id : MessageId) (c : ComponentId)
  | disassociate (id : MessageId) (c : ComponentId)
  | disassociateEverything (c : ComponentId)
  | invalidate (id : MessageId)
  /-- A lookup by another reference, or by anybody. -/
  | brokerLookup (id : MessageId)
  | publishSyncQuery (c : ComponentId) (id : MessageId) (handler : HandlerId)
  | publishAsyncQuery (c : ComponentId) (id : MessageId) (handler : HandlerId) (executorOverride : Option ExecutorId)
  | subscribeEvent (c : ComponentId) (id : MessageId) (handler : HandlerId)
  /-- The last of an interface's queries is given its handler. -/
  | implement (impl : InterfaceId)
  | publishInterface (c : ComponentId) (id : MessageId) (impl : InterfaceId)
  /-- `handler` is the new head of the chain, which holds the handler it replaces. -/
  | prependAsyncQueryFilter (c : ComponentId) (id : MessageId) (handler : HandlerId)
  /-- The end of `publish_dependencies`, after `publish()` has called the functions above. -/
  | publishDependencies (c : ComponentId)
  | unpublishDependencies (c : ComponentId)
  /-- Somebody copies a strong pointer to a live component. -/
  | acquire (c : ComponentId)
  | release (c : ComponentId)

/-- A handler that is put into `async_handlers_`. It is known by its making: another one that gets its address is not the same. -/
structure StoredHandler where
  component : ComponentId
  id : MessageId
  handler : HandlerId
  /-- It is a filter, and keeps the handler that was there. -/
  filter : Bool
  deriving DecidableEq, Repr

/-- What an operation puts there. -/
def WorldOp.storedHandler : WorldOp → Option StoredHandler
  | .publishAsyncQuery c id handler _ => some { component := c, id, handler, filter := false }
  | .subscribeEvent c id handler => some { component := c, id, handler, filter := false }
  | .prependAsyncQueryFilter c id handler => some { component := c, id, handler, filter := true }
  | _ => none

namespace World

/-- `broker_.associate(msg_id, shared_from_this())`, then a change of the component's own tables. -/
def publish (w : World) (c : ComponentId) (id : MessageId) (f : Component → Component) : Option World :=
  if w.alive c then some ({ w with broker := w.broker.associate id c }.update c f) else none

/-- `component_base::publish_sync_query`. -/
def publishSyncQuery (w : World) (c : ComponentId) (id : MessageId) (handler : HandlerId) : Option World :=
  w.publish c id fun comp =>
    { comp with syncHandlers := Function.update comp.syncHandlers id (some handler) }.pushDependency .exported .syncMono id

/-- `component_base::publish_async_query`. -/
def publishAsyncQuery (w : World) (c : ComponentId) (id : MessageId) (handler : HandlerId)
    (executorOverride : Option ExecutorId) : Option World :=
  w.publish c id fun comp =>
    { comp with
      asyncHandlers := Function.update comp.asyncHandlers id (some handler)
      asyncExecutorOverrides := Function.update comp.asyncExecutorOverrides id executorOverride }.pushDependency
        .exported .asyncMono id

/-- `component_base::subscribe_event`. -/
def subscribeEvent (w : World) (c : ComponentId) (id : MessageId) (handler : HandlerId) : Option World :=
  w.publish c id fun comp =>
    { comp with asyncHandlers := Function.update comp.asyncHandlers id (some handler) }.pushDependency
      .imported .asyncPoly id

/-- `component_base::publish_interface`. It leaves a check for the end of `publish_dependencies`. -/
def publishInterface (w : World) (c : ComponentId) (id : MessageId) (impl : InterfaceId) : Option World :=
  w.publish c id fun comp =>
    { comp with
      interfaces := Function.update comp.interfaces id (some impl)
      postPublishChecks := comp.postPublishChecks ++ [impl] }.pushDependency .exported .interface id

/-- `component_base::prepend_async_query_filter` on a message query. It aborts when there is no handler to put a filter on. -/
def prependAsyncQueryFilter (w : World) (c : ComponentId) (id : MessageId) (handler : HandlerId) : Option World :=
  if ((w.component c).asyncHandlers id).isNone then none
  else
    let w := w.update c fun comp => { comp with asyncHandlers := Function.update comp.asyncHandlers id (some handler) }
    some { w with broker := w.broker.invalidate id }

/-- `component_base::publish_dependencies`, after `publish()`. A check copies an interface, which aborts unless each of its
queries has been implemented. -/
def publishDependencies (w : World) (c : ComponentId) : Option World :=
  if (w.component c).postPublishChecks.all w.implemented then
    some (w.update c fun comp => { comp with published := true })
  else none

/-- What an operation does; `none` where it cannot be called or aborts. -/
def step (w : World) : WorldOp → Option World
  | .associate id c => some { w with broker := w.broker.associate id c }
  | .disassociate id c => (w.broker.disassociate w.alive id c).map ({ w with broker := · })
  | .disassociateEverything c => some (w.disassociateEverything c)
  | .invalidate id => some { w with broker := w.broker.invalidate id }
  | .brokerLookup id => some { w with broker := (w.broker.lookup id).1 }
  | .publishSyncQuery c id handler => w.publishSyncQuery c id handler
  | .publishAsyncQuery c id handler executorOverride => w.publishAsyncQuery c id handler executorOverride
  | .subscribeEvent c id handler => w.subscribeEvent c id handler
  | .implement impl => some { w with implemented := Function.update w.implemented impl true }
  | .publishInterface c id impl => w.publishInterface c id impl
  | .prependAsyncQueryFilter c id handler => w.prependAsyncQueryFilter c id handler
  | .publishDependencies c => w.publishDependencies c
  | .unpublishDependencies c => some (w.unpublishDependencies c)
  | .acquire c => some (if w.alive c then { w with others := Function.update w.others c (w.others c + 1) } else w)
  | .release c => some (w.release c)

/-- Components around a new broker, with no reference of ours yet. -/
def new (component : ComponentId → Component) (others : ComponentId → Nat) : World :=
  { broker := Broker.empty, component, others, cached := fun _ => 0, implemented := fun _ => false }

end World

/-! ## Who a message should reach -/

/-- The broker's list for the message has exactly one entry, and that component is alive. -/
def World.SoleLive (w : World) (id : MessageId) : Prop := ∃ c, w.broker.receivers id = [c] ∧ w.alive c = true

/-- A fresh resolution against the broker's current list: the only listed component and what it has for the message, if the
list has exactly one entry and that component is alive and has something (`ask`). -/
def World.sole {β : Type*} (ask : Component → MessageId → Option β) (id : MessageId) (w : World) :
    Option (ComponentId × β) :=
  match w.broker.receivers id with
  | [c] => if w.alive c then (ask (w.component c) id).map (fun x => (c, x)) else none
  | _ => none

/-! ## A world and one reference -/

/-- The world and the reference a theorem looks at. -/
structure RefState (ρ : Type*) where
  world : World
  ref : ρ

/-- What happens to them: an operation of the world, or a lookup through the reference. -/
inductive RefAction where
  | world (op : WorldOp)
  | lookup (lost : ComponentId → List ComponentId)

/-- A step, for a reference that is looked up by `look`: its answer, the reference and the world after it, or `none` if the
lookup aborts. -/
def RefState.step {ρ α : Type*} (look : (ComponentId → List ComponentId) → World → ρ → Option (α × ρ × World)) (s : RefState ρ) :
    RefAction → Option (RefState ρ)
  | .world op => (s.world.step op).map ({ s with world := · })
  | .lookup lost => (look lost s.world s.ref).map fun (_, r, w) => ⟨w, r⟩

end Minicomps
