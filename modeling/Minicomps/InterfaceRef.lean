import Minicomps.Component
import Minicomps.Lifetime

/-!
# A reference to an interface

`interface_ref_base` keeps a proxy of the interface it last resolved to, next to a weak pointer to the receiver list. The proxy is
a copy of the interface: each of its queries is linked to the same query of the original.
-/

namespace Minicomps

/-- Whether a query of an interface is an `if_async_query`, an `if_sync_query` or an `if_volatile_sync_query`. -/
inductive InterfaceQueryKind where
  | async | sync | volatileSync
  deriving DecidableEq, Repr

/-- A proxy: the interface its queries are linked to, and what they took from the thread's current component and lifetime when
they were copied. -/
structure InterfaceProxy where
  linkedInterface : InterfaceId
  sendingComponent : ComponentId
  sendingLifetime : LifetimeWeakPtr
  deriving DecidableEq, Repr

/-- The fields of `interface_ref_base` that change. -/
structure InterfaceRef where
  resolvedReceivers : Option ListId := none
  localInterfaceProxy : Option InterfaceProxy := none
  receiver : Option ComponentId := none
  deriving DecidableEq, Repr

namespace InterfaceRef

/-- The copy constructor of an interface, with `owner` and `life` as the current component and lifetime. It aborts when a query has
not been implemented. What it asserts of whoever has implemented it is in `CheckedInterfaces`. -/
def copyInterface (owner : ComponentId) (life : LifetimeWeakPtr) (w : World) (impl : InterfaceId) : Option InterfaceProxy :=
  if w.implemented impl then
    some { linkedInterface := impl, sendingComponent := owner, sendingLifetime := life }
  else none

/-- `lookup()` from where the cached state was found unusable. Every early return leaves the fields after it as they were. -/
def refetch (id : MessageId) (owner : ComponentId) (life : LifetimeWeakPtr) (lost : ComponentId → List ComponentId) (w : World)
    (r : InterfaceRef) : Option (Option InterfaceProxy × InterfaceRef × World) :=
  let f := w.fetchReceiver id lost r.receiver
  let w := f.world
  let r := { r with resolvedReceivers := some f.receivers, receiver := f.receiver }
  match f.found with
  | none => some (none, r, w)
  | some c =>
    match (w.component c).lookupInterface id with
    | none => some (none, r, w)
    | some impl => do
      let proxy ← copyInterface owner life w impl
      some (some proxy, { r with localInterfaceProxy := some proxy }, w)

/-- `interface_ref_base::lookup`, on a reference of `owner` to the interface with the lifetime `life`; `none` if it aborts. -/
def lookup (id : MessageId) (owner : ComponentId) (life : LifetimeWeakPtr) (lost : ComponentId → List ComponentId) (w : World)
    (r : InterfaceRef) : Option (Option InterfaceProxy × InterfaceRef × World) :=
  if r.localInterfaceProxy.isSome && !w.expired r.resolvedReceivers then some (r.localInterfaceProxy, r, w)
  else refetch id owner life lost w r

end InterfaceRef

/-! ## What a lookup should find -/

/-- A proxy linked to the interface of the only listed component, if that is alive and has published the interface. -/
def World.resolveInterface (id : MessageId) (owner : ComponentId) (life : LifetimeWeakPtr) (w : World) :
    Option InterfaceProxy :=
  (w.sole Component.lookupInterface id).map fun (_, impl) =>
    { linkedInterface := impl, sendingComponent := owner, sendingLifetime := life }

end Minicomps
