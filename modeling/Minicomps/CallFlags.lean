import Minicomps.Threads

/-!
# What a component allows its callers

A component says through two flags whether async queries to it may be called directly and whether sync queries to it may take its lock.
Here are the call paths with what each of them reads: `async_query` and the sync queries read neither flag, and an interface's async
query reads the first one when it is copied into a client's proxy. A query through a reference first looks up its handler, and where the
reference has none that is still good it takes the receiver's lock to read the receiver's tables, whatever the executors.
-/

namespace Minicomps

/-- The flags of a `component`. -/
structure CallFlags where
  allowDirectCallAsync : Bool := true
  allowLockingCallsSync : Bool := true
  deriving DecidableEq, Repr

/-- What a lookup comes to when it goes to the broker. -/
inductive Found where
  /-- The list has no receiver, or several. -/
  | nobody
  /-- Its one receiver is gone. -/
  | gone
  /-- Its one receiver has no handler. -/
  | unpublished (c : ComponentId)
  | handler (h : Handler)
  deriving DecidableEq, Repr

/-- The receiver whose tables the lookup reads. -/
def Found.receiver : Found → Option ComponentId
  | .nobody | .gone => none
  | .unpublished c => some c
  | .handler h => some h.component

/-- A `mono_ref`, as one of those a component has. -/
abbrev HandlerRefId := Nat

/-- What a `mono_ref` keeps. The executor it keeps is that of the handler. -/
structure HandlerRef where
  handler : Option Handler := none
  receiver : Option ComponentId := none
  /-- `receivers_.expired()`. -/
  expired : Bool := true
  deriving DecidableEq, Repr

namespace HandlerRef

/-- The handler it keeps is still good. -/
def cached (r : HandlerRef) : Bool := r.handler.isSome && !r.expired

/-- `mono_ref_base::lookup` from where the cached state was found unusable. -/
def refetch (r : HandlerRef) : Found → Option Handler × HandlerRef
  | .nobody => (none, { r with expired := false })
  | .gone => (none, { r with receiver := none, expired := false })
  | .unpublished c => (none, { handler := none, receiver := some c, expired := false })
  | .handler h => (some h, { handler := some h, receiver := some h.component, expired := false })

/-- `mono_ref_base::lookup`. -/
def lookup (r : HandlerRef) (found : Found) : Option Handler × HandlerRef :=
  if r.cached then (r.handler, r) else r.refetch found

end HandlerRef

/-- An `if_async_query` in a client's proxy. -/
structure AsyncProxy where
  sendingComponent : ComponentId
  handler : Handler
  callDirectly : Bool
  /-- History: the flag when it was copied. -/
  allowed : Bool
  deriving DecidableEq, Repr

/-- An `if_sync_query` or `if_volatile_sync_query` in a client's proxy. -/
structure SyncProxy where
  sendingComponent : ComponentId
  handler : Handler
  mutualExecutor : Bool
  deriving DecidableEq, Repr

/-- Threads, the flags of the components, and the references and proxies of the clients. -/
structure FlagSystem where
  threads : ThreadSystem := {}
  flags : ComponentId → CallFlags := fun _ => {}
  refs : ComponentId → HandlerRefId → HandlerRef := fun _ _ => {}
  /-- Whether the `sync_query` of a reference has a fallback handler. -/
  fallback : ComponentId → HandlerRefId → Bool := fun _ _ => false
  asyncProxies : List AsyncProxy := []
  syncProxies : List SyncProxy := []
  /-- History: how often a call or a lookup has taken the component's lock. -/
  lockings : ComponentId → Nat := fun _ => 0

/-- What happens next. Where a lookup goes to the broker, `found` is what it comes to. -/
inductive FlagAction where
  | setAllowDirectCallAsync (c : ComponentId) (allow : Bool)
  | setAllowLockingCallsSync (c : ComponentId) (allow : Bool)
  | setFallbackHandler (owner : ComponentId) (r : HandlerRefId)
  /-- The broker replaces the list that the reference was resolved from. -/
  | expire (owner : ComponentId) (r : HandlerRefId)
  /-- A lookup that is not followed by a query: `reachable()` or `force_resolve()`. -/
  | lookup (t : ThreadId) (owner : ComponentId) (r : HandlerRefId) (found : Found)
  /-- A lookup of an interface of `c`, which copies its queries. -/
  | lookupInterface (t : ThreadId) (sender c : ComponentId) (async sync : List Handler)
  | asyncQuery (t : ThreadId) (sender : ComponentId) (r : HandlerRefId) (found : Found)
  | callAsyncProxy (t : ThreadId) (i : Nat)
  | syncQuery (t : ThreadId) (sender : ComponentId) (r : HandlerRefId) (found : Found)
  /-- `if_sync_query::operator()` or `if_volatile_sync_query::call_locking`. -/
  | callSyncProxy (t : ThreadId) (i : Nat)
  | event (t : ThreadId) (sender : ComponentId) (subscriber : ComponentId)
  | execute (x : ExecutorId)
  | runNext (x : ExecutorId)
  | finishBatch (x : ExecutorId)
  | ret (t : ThreadId)
  deriving DecidableEq, Repr

namespace FlagSystem

/-- Change the flags of one component. -/
def setFlags (s : FlagSystem) (c : ComponentId) (f : CallFlags → CallFlags) : FlagSystem :=
  { s with flags := Function.update s.flags c (f (s.flags c)) }

/-- Change a reference of a component. -/
def setRef (s : FlagSystem) (owner : ComponentId) (r : HandlerRefId) (ref : HandlerRef) : FlagSystem :=
  { s with refs := Function.update s.refs owner (Function.update (s.refs owner) r ref) }

/-- The component's lock is taken. -/
def recordLocking (s : FlagSystem) (c : ComponentId) : FlagSystem :=
  { s with lockings := Function.update s.lockings c (s.lockings c + 1) }

/-- A step of the threads. -/
def thread (d : Deployment) (s : FlagSystem) (a : ThreadAction) : Option FlagSystem :=
  (s.threads.step d a).map fun threads => { s with threads }

/-- One of the lookup functions of the component: it takes the lock, and unlocks it when it returns. -/
def lookupTable (s : FlagSystem) (t : ThreadId) (c : ComponentId) : Option FlagSystem :=
  if ((s.threads.lock c).lock t).isSome then some (s.recordLocking c) else none

/-- `lookup_sync_handler` or `lookup_async_handler`, and `lookup_executor_override` where that has found a handler. -/
def readTables (s : FlagSystem) (t : ThreadId) : Found → Option FlagSystem
  | .nobody | .gone => some s
  | .unpublished c => s.lookupTable t c
  | .handler h => (s.lookupTable t h.component).bind fun s => s.lookupTable t h.component

/-- `handler_->lookup()`. -/
def lookup (s : FlagSystem) (t : ThreadId) (owner : ComponentId) (r : HandlerRefId) (found : Found) : Option FlagSystem :=
  let ref := s.refs owner r
  if ref.cached then some s else (s.readTables t found).map fun s => s.setRef owner r (ref.lookup found).2

/-- The sender's code calls the handler in the given way. -/
def call (d : Deployment) (s : FlagSystem) (t : ThreadId) (sender : ComponentId) (h : Handler) (how : Delivery) : Option FlagSystem :=
  if s.threads.runsCodeOf t sender then
    (s.threads.deliver d t h how).map fun threads =>
      let s := if how = .locked then s.recordLocking h.component else s
      { s with threads }
  else none

/-- The copy constructor of `if_async_query`. -/
def copyAsyncQuery (d : Deployment) (s : FlagSystem) (sender : ComponentId) (h : Handler) : AsyncProxy where
  sendingComponent := sender
  handler := h
  callDirectly := if (s.flags h.component).allowDirectCallAsync then d.mutualExecutor sender h else false
  allowed := (s.flags h.component).allowDirectCallAsync

/-- The copy constructors of `if_sync_query` and `if_volatile_sync_query`. -/
def copySyncQuery (d : Deployment) (sender : ComponentId) (h : Handler) : SyncProxy where
  sendingComponent := sender
  handler := h
  mutualExecutor := d.mutualExecutor sender h

/-- `interface_ref_base::lookup` from where the cached proxy was found unusable: `lookup_interface`, and the copying. -/
def lookupInterface (d : Deployment) (s : FlagSystem) (t : ThreadId) (sender c : ComponentId) (async sync : List Handler) :
    Option FlagSystem :=
  (s.lookupTable t c).map fun s =>
    { s with
      asyncProxies := s.asyncProxies ++ async.map (s.copyAsyncQuery d sender)
      syncProxies := s.syncProxies ++ sync.map (copySyncQuery d sender) }

/-- What a query does with the handler that its lookup gave. A reference that has kept its handler may have lost the receiver, and nothing is
called then. -/
def callFound (d : Deployment) (s : FlagSystem) (t : ThreadId) (sender : ComponentId) (r : HandlerRefId) (h : Handler) (how : Delivery) :
    Option FlagSystem :=
  match (s.refs sender r).receiver with
  | none => none
  | some _ => s.call d t sender h how

/-- `async_query::execute`; it aborts when the lookup finds no handler. -/
def asyncQuery (d : Deployment) (s : FlagSystem) (t : ThreadId) (sender : ComponentId) (r : HandlerRefId) (found : Found) :
    Option FlagSystem :=
  (s.lookup t sender r found).bind fun s' =>
    match ((s.refs sender r).lookup found).1 with
    | none => none
    | some h => s'.callFound d t sender r h (if d.mutualExecutor sender h then .direct else .enqueued)

/-- `if_async_query::execute`. -/
def callAsyncProxy (d : Deployment) (s : FlagSystem) (t : ThreadId) (q : AsyncProxy) : Option FlagSystem :=
  s.call d t q.sendingComponent q.handler (if q.callDirectly then .direct else .enqueued)

/-- `sync_query::operator()`; when the lookup finds no handler it calls the fallback handler, or aborts where there is none. -/
def syncQuery (d : Deployment) (s : FlagSystem) (t : ThreadId) (sender : ComponentId) (r : HandlerRefId) (found : Found) :
    Option FlagSystem :=
  (s.lookup t sender r found).bind fun s' =>
    match ((s.refs sender r).lookup found).1 with
    | none => if s.threads.runsCodeOf t sender && s.fallback sender r then some s' else none
    | some h => s'.callFound d t sender r h (if d.mutualExecutor sender h then .direct else .locked)

/-- `if_sync_query::operator()` and `if_volatile_sync_query::call_locking`. -/
def callSyncProxy (d : Deployment) (s : FlagSystem) (t : ThreadId) (q : SyncProxy) : Option FlagSystem :=
  s.call d t q.sendingComponent q.handler (if q.mutualExecutor then .direct else .locked)

/-- One step; `none` where it cannot be taken, has to wait, or aborts. -/
def step (d : Deployment) (s : FlagSystem) : FlagAction → Option FlagSystem
  | .setAllowDirectCallAsync c allow => some (s.setFlags c fun f => { f with allowDirectCallAsync := allow })
  | .setAllowLockingCallsSync c allow => some (s.setFlags c fun f => { f with allowLockingCallsSync := allow })
  | .setFallbackHandler owner r => some { s with fallback := Function.update s.fallback owner (Function.update (s.fallback owner) r true) }
  | .expire owner r => some (s.setRef owner r { s.refs owner r with expired := true })
  | .lookup t owner r found => s.lookup t owner r found
  | .lookupInterface t sender c async sync => s.lookupInterface d t sender c async sync
  | .asyncQuery t sender r found => s.asyncQuery d t sender r found
  | .callAsyncProxy t i => (s.asyncProxies[i]?).bind (s.callAsyncProxy d t)
  | .syncQuery t sender r found => s.syncQuery d t sender r found
  | .callSyncProxy t i => (s.syncProxies[i]?).bind (s.callSyncProxy d t)
  | .event t sender subscriber => s.thread d (.send t sender (.event subscriber))
  | .execute x => s.thread d (.execute x)
  | .runNext x => s.thread d (.runNext x)
  | .finishBatch x => s.thread d (.finishBatch x)
  | .ret t => s.thread d (.ret t)

/-- Every flag is at its default, and nobody has done anything yet. -/
def init : FlagSystem := {}

/-! ## What the flags promise -/

/-- The component that an async query is made to, by whichever path. -/
def asyncCallTo (s : FlagSystem) : FlagAction → Option ComponentId
  | .asyncQuery _ sender r found => ((s.refs sender r).lookup found).1.map Handler.component
  | .callAsyncProxy _ i => (s.asyncProxies[i]?).map fun q => q.handler.component
  | _ => none

/-- Whether an action is a sync query, by whichever path. -/
def isSyncCall : FlagAction → Bool
  | .syncQuery .. | .callSyncProxy .. => true
  | _ => false

/-- An async query to a component that does not allow direct calls runs nothing inside the call, and a sync query takes the lock of no
component that does not allow locking calls. -/
def FlagsHonoured (d : Deployment) (s : FlagSystem) (a : FlagAction) : Prop :=
  ∀ s', s.step d a = some s' →
    (∀ c ∈ s.asyncCallTo a, (s.flags c).allowDirectCallAsync = false → s'.threads.stack = s.threads.stack) ∧
      (isSyncCall a = true → ∀ c, (s.flags c).allowLockingCallsSync = false → s'.lockings c = s.lockings c)

/-- Whoever makes an async query from the handler's own executor finds the flag set, unless he makes it through a proxy that was copied
when the flag was not set; whoever makes a sync query from another executor finds the flag set; and so does whoever makes one through a
reference that has no good handler, from whichever executor. -/
def CallsPermitted (d : Deployment) (s : FlagSystem) (a : FlagAction) : Prop :=
  (s.step d a).isSome = true →
    match a with
    | .asyncQuery _ sender r found => ∀ h ∈ ((s.refs sender r).lookup found).1, d.mutualExecutor sender h = true →
        (s.flags h.component).allowDirectCallAsync = true
    | .callAsyncProxy _ i => ∀ q ∈ s.asyncProxies[i]?, d.mutualExecutor q.sendingComponent q.handler = true → q.allowed = true →
        (s.flags q.handler.component).allowDirectCallAsync = true
    | .syncQuery _ sender r found =>
      (∀ h ∈ ((s.refs sender r).lookup found).1, d.mutualExecutor sender h = false → (s.flags h.component).allowLockingCallsSync = true) ∧
        ((s.refs sender r).cached = false → ∀ c ∈ found.receiver, (s.flags c).allowLockingCallsSync = true)
    | .callSyncProxy _ i => ∀ q ∈ s.syncProxies[i]?, d.mutualExecutor q.sendingComponent q.handler = false →
        (s.flags q.handler.component).allowLockingCallsSync = true
    | _ => True

end FlagSystem

end Minicomps
