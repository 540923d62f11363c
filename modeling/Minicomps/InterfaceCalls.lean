import Minicomps.AsyncQuery

/-!
# Calls through queries and through interfaces

An `async_query` makes a weak pointer to its lifetime at each call. An `if_async_query`, the member of an interface proxy, took its
weak pointer from the thread's current lifetime when it was copied; the reference it was made for has kept that pointer since it
was looked up, or cloned with a session's lifetime.
-/

namespace Minicomps

/-- `if_async_query` on the client's side: what it is linked to, and what it took when it was copied. -/
structure IfAsyncQuery where
  /-- The linked query, whose `handler_` it calls, with its component, its executor, and `call_directly_`. -/
  linked : Resolution
  msgInfo : MessageId
  sendingComponent : ComponentId
  sendingLifetime : LifetimeWeakPtr
  deriving DecidableEq, Repr

/-- `interface_ref_base`, as far as its calls go. -/
structure ClientRef where
  owningComponent : ComponentId
  lifetime : LifetimeWeakPtr
  /-- The reference has a `clone` function: it comes from `lookup_interface`, not from a clone. -/
  canClone : Bool
  localInterfaceProxy : Option IfAsyncQuery := none
  deriving DecidableEq, Repr

/-- The copy of a query in a new proxy. The reference makes its lifetime the thread's current one for it. -/
def ClientRef.copyQuery (r : ClientRef) (linked : Resolution) (msgInfo : MessageId) : IfAsyncQuery :=
  { linked, msgInfo, sendingComponent := r.owningComponent, sendingLifetime := r.lifetime }

/-- A system, and the interface references of its components. -/
structure ClientSystem (α β : Type*) where
  system : AsyncSystem α β
  interfaceRefs : List ClientRef := []

/-- One step of the clients or of the system under them. -/
inductive ClientAction (α β : Type*) where
  /-- `component_base::lookup_interface`, by a component with that default lifetime. -/
  | lookupInterface (owner : ComponentId) (defaultLifetime : LifetimeId)
  /-- `interface(other, life)`. -/
  | clone (i : Nat) (life : LifetimeId)
  /-- A lookup of the reference makes a new proxy. -/
  | resolve (i : Nat) (linked : Resolution) (msgInfo : MessageId)
  /-- A call through an `async_query` that was made for the component's own lifetime, or for a session's. -/
  | callQuery (sender : ComponentId) (found : Option Resolution) (msgInfo : MessageId) (arguments : α) (life : LifetimeId)
  /-- A call through a proxy, or the same `with_lifetime`. -/
  | callProxy (i : Nat) (arguments : α) (withLifetime : Option LifetimeId)
  | startBatch (x : ExecutorId)
  | runNext (x : ExecutorId)
  | finishBatch (x : ExecutorId)
  | resolveResult (i : Nat) (value : β)
  | reset (l : LifetimeId)
  deriving DecidableEq, Repr

namespace ClientSystem

variable {α β : Type*}

/-- The weak pointer a call through a proxy is bound to. -/
def callLifetime (lifetimes : Lifetimes) (q : IfAsyncQuery) : Option LifetimeId → LifetimeWeakPtr
  | none => q.sendingLifetime
  | some life => lifetimes.createWeakPtr life

/-- One step; `none` where it cannot be taken, or aborts. -/
def step (s : ClientSystem α β) : ClientAction α β → Option (ClientSystem α β)
  | .lookupInterface owner defaultLifetime =>
    some { s with interfaceRefs := s.interfaceRefs ++
      [{ owningComponent := owner, lifetime := s.system.lifetimes.createWeakPtr defaultLifetime, canClone := true }] }
  | .clone i life =>
    match s.interfaceRefs[i]? with
    | some r =>
      if r.canClone then
        some { s with interfaceRefs := s.interfaceRefs ++
          [{ owningComponent := r.owningComponent, lifetime := s.system.lifetimes.createWeakPtr life, canClone := false }] }
      else none
    | none => none
  | .resolve i linked msgInfo =>
    match s.interfaceRefs[i]? with
    | some r =>
      some { s with interfaceRefs := s.interfaceRefs.set i { r with localInterfaceProxy := some (r.copyQuery linked msgInfo) } }
    | none => none
  | .callQuery sender found msgInfo arguments life =>
    (s.system.execute sender found msgInfo arguments (s.system.lifetimes.createWeakPtr life)).map ({ s with system := · })
  | .callProxy i arguments withLifetime =>
    match s.interfaceRefs[i]? with
    | some r =>
      match r.localInterfaceProxy with
      | some q =>
        (s.system.execute q.sendingComponent (some q.linked) q.msgInfo arguments
          (callLifetime s.system.lifetimes q withLifetime)).map ({ s with system := · })
      | none => none
    | none => none
  | .startBatch x => (s.system.step (.startBatch x)).map ({ s with system := · })
  | .runNext x => (s.system.step (.runNext x)).map ({ s with system := · })
  | .finishBatch x => (s.system.step (.finishBatch x)).map ({ s with system := · })
  | .resolveResult i value => (s.system.step (.resolve i value)).map ({ s with system := · })
  | .reset l => (s.system.step (.reset l)).map ({ s with system := · })

/-- No calls yet, and no references. -/
def init (component : ComponentId → Component) : ClientSystem α β := { system := AsyncSystem.init component }

end ClientSystem

end Minicomps
