import Minicomps.MonoRef
import Minicomps.PolyRef

/-!
# What components publish

Components publish queries and subscribe to events, again and again, and are unpublished in between. Beside the world and a
reference, the state here remembers as what each component has published each message since it was last unpublished. All kinds of
publications of a message share one receiver list, and each of them adds to it.
-/

namespace Minicomps

/-- As what a component publishes a message. -/
inductive PublicationKind where
  | sync | async | event
  deriving DecidableEq, Repr

/-- As what a query is published that a reference of this kind looks up. -/
def QueryKind.publication : QueryKind → PublicationKind
  | .sync => .sync
  | .async => .async

/-- A world, a reference, and what has been published. -/
structure PublicationState (ρ : Type*) where
  state : RefState ρ
  /-- History: the publications of the component under the message since it was last unpublished. -/
  publications : ComponentId → MessageId → List PublicationKind := fun _ _ => []

/-- What happens to them. -/
inductive PublicationAction where
  | publishSyncQuery (c : ComponentId) (id : MessageId) (handler : HandlerId)
  | publishAsyncQuery (c : ComponentId) (id : MessageId) (handler : HandlerId) (executorOverride : Option ExecutorId)
  | subscribeEvent (c : ComponentId) (id : MessageId) (handler : HandlerId)
  /-- The end of `publish_dependencies`, after `publish()` has called the functions above. -/
  | publishDependencies (c : ComponentId)
  | unpublishDependencies (c : ComponentId)
  /-- Somebody copies, or drops, a strong pointer to the component. -/
  | acquire (c : ComponentId)
  | release (c : ComponentId)
  /-- A lookup by another reference. -/
  | brokerLookup (id : MessageId)
  /-- A lookup by the reference. -/
  | lookup (lost : ComponentId → List ComponentId)

namespace PublicationState

/-- What an action does to the world and the reference. -/
def refAction : PublicationAction → RefAction
  | .publishSyncQuery c id handler => .world (.publishSyncQuery c id handler)
  | .publishAsyncQuery c id handler executorOverride => .world (.publishAsyncQuery c id handler executorOverride)
  | .subscribeEvent c id handler => .world (.subscribeEvent c id handler)
  | .publishDependencies c => .world (.publishDependencies c)
  | .unpublishDependencies c => .world (.unpublishDependencies c)
  | .acquire c => .world (.acquire c)
  | .release c => .world (.release c)
  | .brokerLookup id => .world (.brokerLookup id)
  | .lookup lost => .lookup lost

/-- One more publication. -/
def add (publications : ComponentId → MessageId → List PublicationKind) (c : ComponentId) (id : MessageId) (kind : PublicationKind) :
    ComponentId → MessageId → List PublicationKind :=
  Function.update publications c (Function.update (publications c) id (publications c id ++ [kind]))

/-- What an action does to the publications. -/
def publish (publications : ComponentId → MessageId → List PublicationKind) :
    PublicationAction → ComponentId → MessageId → List PublicationKind
  | .publishSyncQuery c id _ => add publications c id .sync
  | .publishAsyncQuery c id _ _ => add publications c id .async
  | .subscribeEvent c id _ => add publications c id .event
  | .unpublishDependencies c => Function.update publications c fun _ => []
  | _ => publications

/-- A step, for a reference whose state changes by `step`. -/
def step {ρ : Type*} (step : RefState ρ → RefAction → Option (RefState ρ)) (s : PublicationState ρ) (a : PublicationAction) :
    Option (PublicationState ρ) :=
  (step s.state (refAction a)).map fun state => { state, publications := publish s.publications a }

variable {ρ : Type*}

/-! ## Who publishes a message -/

/-- The component has published the message once only, as whatever, and no component that was destroyed without having been
unpublished is left in its list. -/
structure PublishedOnce (s : PublicationState ρ) (id : MessageId) (c : ComponentId) : Prop where
  once : (s.publications c id).length = 1
  alive : ∀ d ∈ s.state.world.broker.receivers id, s.state.world.alive d = true

end PublicationState

end Minicomps
