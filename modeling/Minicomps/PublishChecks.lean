import Minicomps.InterfaceRef

/-!
# The checks after publishing

A lookup copies the interface that it finds, and so does the check that `publish_interface` leaves for the end of `publish_dependencies`.
`InterfaceRef` knows of an interface only whether all of its queries have handlers. Here the queries are kept one by one: the copy constructor of
a query also asserts that the component that has implemented it still exists, and an asynchronous one that its executor does.
-/

namespace Minicomps

/-- What `publish` of a query keeps besides the handler, by weak pointers. -/
structure QueryHandling where
  handlingComponent : ComponentId
  /-- `none` for the `default_executor` of the component, which that has a pointer to itself. -/
  executorOverride : Option ExecutorId
  deriving DecidableEq, Repr

/-- A query of an interface. -/
structure InterfaceQuery where
  kind : InterfaceQueryKind
  /-- `none` as long as there is no handler. -/
  handling : Option QueryHandling := none
  deriving DecidableEq, Repr

namespace InterfaceQuery

/-- The query has a handler. -/
def implemented (q : InterfaceQuery) : Bool := q.handling.isSome

/-- Whether the copy constructor gets through. -/
def copies (w : World) (destroyed : ExecutorId → Bool) (q : InterfaceQuery) : Bool :=
  match q.handling with
  | none => false
  | some h =>
    match q.kind with
    | .async => w.alive h.handlingComponent && h.executorOverride.all fun x => !destroyed x
    | .sync | .volatileSync => w.alive h.handlingComponent

/-- `publish`, which only an asynchronous query is given an executor override. -/
def publish (c : ComponentId) (executorOverride : Option ExecutorId) (q : InterfaceQuery) : InterfaceQuery :=
  match q.kind with
  | .async => { q with handling := some { handlingComponent := c, executorOverride } }
  | .sync | .volatileSync => { q with handling := some { handlingComponent := c, executorOverride := none } }

end InterfaceQuery

/-- A world with an interface reference, where interfaces have queries. -/
structure CheckedInterfaces where
  world : World
  ref : InterfaceRef := {}
  queries : InterfaceId → List InterfaceQuery
  /-- The executors that have been destroyed. -/
  destroyed : ExecutorId → Bool := fun _ => false

/-- What happens next. -/
inductive CheckedAction where
  /-- An operation other than `implement`. -/
  | world (op : WorldOp)
  /-- A component publishes the query at this place of the interface. -/
  | implement (impl : InterfaceId) (place : Nat) (c : ComponentId) (executorOverride : Option ExecutorId)
  /-- The last pointer to an executor goes, which was not the default executor of a component. -/
  | dropExecutor (x : ExecutorId)
  | lookup (lost : ComponentId → List ComponentId)

namespace CheckedInterfaces

/-- All queries of the interface have handlers. -/
def implemented (s : CheckedInterfaces) (impl : InterfaceId) : Bool := (s.queries impl).all InterfaceQuery.implemented

/-- Whether a copy of the interface gets through. -/
def copies (s : CheckedInterfaces) (w : World) (impl : InterfaceId) : Bool := (s.queries impl).all (InterfaceQuery.copies w s.destroyed)

/-- The copy constructor of an interface. -/
def copyInterface (owner : ComponentId) (life : LifetimeWeakPtr) (s : CheckedInterfaces) (w : World) (impl : InterfaceId) :
    Option InterfaceProxy :=
  if s.copies w impl then some { linkedInterface := impl, sendingComponent := owner, sendingLifetime := life } else none

/-- `InterfaceRef.refetch`, with this copy constructor. -/
def refetch (id : MessageId) (owner : ComponentId) (life : LifetimeWeakPtr) (lost : ComponentId → List ComponentId) (s : CheckedInterfaces) :
    Option CheckedInterfaces :=
  let f := s.world.fetchReceiver id lost s.ref.receiver
  let r := { s.ref with resolvedReceivers := some f.receivers, receiver := f.receiver }
  match f.found with
  | none => some { s with world := f.world, ref := r }
  | some c =>
    match (f.world.component c).lookupInterface id with
    | none => some { s with world := f.world, ref := r }
    | some impl => do
      let proxy ← s.copyInterface owner life f.world impl
      some { s with world := f.world, ref := { r with localInterfaceProxy := some proxy } }

/-- `interface_ref_base::lookup`; `none` if it aborts. -/
def lookup (id : MessageId) (owner : ComponentId) (life : LifetimeWeakPtr) (lost : ComponentId → List ComponentId) (s : CheckedInterfaces) :
    Option CheckedInterfaces :=
  if s.ref.localInterfaceProxy.isSome && !s.world.expired s.ref.resolvedReceivers then some s
  else s.refetch id owner life lost

/-- `publish_async_query`, `publish_sync_query` or `publish_volatile_sync_query` of a query of an interface. -/
def implement (s : CheckedInterfaces) (impl : InterfaceId) (place : Nat) (c : ComponentId) (executorOverride : Option ExecutorId) :
    CheckedInterfaces :=
  let queries := (s.queries impl).modify place (InterfaceQuery.publish c executorOverride)
  let implemented := queries.all InterfaceQuery.implemented
  { s with
    world := { s.world with implemented := Function.update s.world.implemented impl implemented }
    queries := Function.update s.queries impl queries }

/-- The checks of a component get through. The other operations have none. -/
def passes (s : CheckedInterfaces) : WorldOp → Bool
  | .publishDependencies c => (s.world.component c).postPublishChecks.all (s.copies s.world)
  | .implement _ => false
  | _ => true

/-- One step; `none` where it cannot be taken or aborts. -/
def step (id : MessageId) (owner : ComponentId) (life : LifetimeWeakPtr) (s : CheckedInterfaces) : CheckedAction → Option CheckedInterfaces
  | .world op => if s.passes op then (s.world.step op).map ({ s with world := · }) else none
  | .implement impl place c executorOverride => if s.world.alive c then some (s.implement impl place c executorOverride) else none
  | .dropExecutor x => some { s with destroyed := Function.update s.destroyed x true }
  | .lookup lost => s.lookup id owner life lost

/-- New components, and interfaces with these queries. -/
def init (kinds : InterfaceId → List InterfaceQueryKind) (component : ComponentId → Component) (others : ComponentId → Nat) :
    CheckedInterfaces :=
  let queries := fun impl => (kinds impl).map fun kind => ({ kind } : InterfaceQuery)
  { world := { World.new component others with implemented := fun impl => (queries impl).all InterfaceQuery.implemented }, queries }

/-- The component has published the interface, and has not got through `publish_dependencies` since. -/
def Unchecked (acts : List CheckedAction) (c : ComponentId) (id : MessageId) (impl : InterfaceId) : Prop :=
  ∃ pre post, acts = pre ++ .world (.publishInterface c id impl) :: post ∧ .world (.publishDependencies c) ∉ post

end CheckedInterfaces

end Minicomps
