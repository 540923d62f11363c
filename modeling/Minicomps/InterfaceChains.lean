import Minicomps.InterfaceRef

/-!
# Interfaces made from interfaces

`interface(other, life)` asks the reference of the other interface to clone itself, for calls that are bound to another lifetime. Each
interface of a chain is made from the one before it, and all of them resolve on their own.
-/

namespace Minicomps

/-- An `interface`, and the `interface_ref_base` behind it. -/
structure ChainLink where
  ref : InterfaceRef := {}
  /-- `lifetime_`. -/
  lifetime : LifetimeWeakPtr
  /-- There is a function in `clone`. -/
  canClone : Bool
  deriving DecidableEq, Repr

/-- A component's chain of interfaces, in a world whose pointers to receivers are counted for all of them. -/
structure InterfaceChain where
  world : World
  lifetimes : Lifetimes
  links : List ChainLink
  /-- History: the interface that a call was made through, and the weak pointer that its callback is bound to. -/
  calls : List (Nat × LifetimeWeakPtr) := []

inductive ChainAction where
  /-- A change of the broker, or of the components around it. -/
  | world (op : WorldOp)
  | reset (l : LifetimeId)
  /-- `interface(last, life)`. -/
  | construct (life : LifetimeId)
  /-- `operator->` of an interface, or the `force_resolve` of its reference. -/
  | lookup (k : Nat) (lost : ComponentId → List ComponentId)
  /-- A call of an async query through `operator->`, with a callback. -/
  | call (k : Nat) (lost : ComponentId → List ComponentId)

namespace InterfaceChain

variable (id : MessageId) (owner : ComponentId)

/-- `interface_ref_base::clone`; `none` if there is no function in it, which throws. -/
def clone (s : InterfaceChain) (link : ChainLink) (life : LifetimeId) : Option ChainLink :=
  if link.canClone then some { lifetime := s.lifetimes.createWeakPtr life, canClone := false } else none

/-- `interface(other, life)` for the last interface of the chain. -/
def construct (s : InterfaceChain) (life : LifetimeId) : Option InterfaceChain :=
  s.links.getLast?.bind fun last => (s.clone last life).map fun link => { s with links := s.links ++ [link] }

/-- `lookup()` of an interface's reference; `none` if it aborts. -/
def lookup (s : InterfaceChain) (k : Nat) (lost : ComponentId → List ComponentId) : Option (Option InterfaceProxy × InterfaceChain) :=
  s.links[k]?.bind fun link =>
    (link.ref.lookup id owner link.lifetime lost s.world).map fun (answer, ref, w) =>
      (answer, { s with world := w, links := s.links.set k { link with ref } })

/-- `(*i)->query.call(...).with_callback(...)`; `none` too if the lookup gives a null pointer. `if_async_query::call` passes its own
`sending_lifetime_`. -/
def call (s : InterfaceChain) (k : Nat) (lost : ComponentId → List ComponentId) : Option InterfaceChain :=
  (s.lookup id owner k lost).bind fun (answer, s) => answer.map fun proxy => { s with calls := s.calls ++ [(k, proxy.sendingLifetime)] }

/-- One step; `none` where it cannot be taken, or aborts. A constructor that throws leaves everything as it was. -/
def step (s : InterfaceChain) : ChainAction → Option InterfaceChain
  | .world op => (s.world.step op).map fun world => { s with world }
  | .reset l => some { s with lifetimes := s.lifetimes.reset l }
  | .construct life => some ((s.construct life).getD s)
  | .lookup k lost => (s.lookup id owner k lost).map Prod.snd
  | .call k lost => s.call id owner k lost

/-- `lookup_interface` by a component with that default lifetime, in a new world. -/
def init (component : ComponentId → Component) (others : ComponentId → Nat) (lifetimes : Lifetimes) (defaultLifetime : LifetimeId) :
    InterfaceChain :=
  { world := World.new component others
    lifetimes
    links := [{ lifetime := lifetimes.createWeakPtr defaultLifetime, canClone := true }] }

/-! ## What is asked of a step -/

/-- What the lookup of an interface resolves to, if it does not abort. -/
def target (s : InterfaceChain) (k : Nat) (lost : ComponentId → List ComponentId) : Option (Option InterfaceId) :=
  (s.lookup id owner k lost).map fun (answer, _) => answer.map InterfaceProxy.linkedInterface

/-- An interface can be made from the last one, for its own lifetime; an interface of the chain resolves to what the first one would
resolve to; and a callback of a call through it is bound to the lifetime it was made for. -/
def Correct (s : InterfaceChain) : ChainAction → Prop
  | .construct life => ∃ s' link, s.construct life = some s' ∧ s'.links = s.links ++ [link] ∧
      link.lifetime = s.lifetimes.createWeakPtr life
  | .lookup k lost => ∀ link, s.links[k]? = some link → s.target id owner k lost = s.target id owner 0 lost
  | .call k lost => ∀ link, s.links[k]? = some link → s.target id owner k lost = s.target id owner 0 lost ∧
      ∀ s', s.call id owner k lost = some s' → s'.calls = s.calls ++ [(k, link.lifetime)]
  | _ => True

/-- What the reference resolves to in spite of the world: its proxy is taken for valid, but the interface has no sole live component that has
published it. -/
def stale (w : World) (link : ChainLink) : Option InterfaceId :=
  if !w.expired link.ref.resolvedReceivers && (w.sole Component.lookupInterface id).isNone then
    link.ref.localInterfaceProxy.map InterfaceProxy.linkedInterface
  else none

/-- No interface is made from one that has been made from another; and an interface is looked up where it has the same stale proxy as the
first one, or neither of them has one. -/
def Fine (s : InterfaceChain) : ChainAction → Prop
  | .construct _ => s.links.length = 1
  | .lookup k _ | .call k _ => ∀ link first, s.links[k]? = some link → s.links[0]? = some first →
      stale id s.world link = stale id s.world first
  | _ => True

end InterfaceChain

end Minicomps
