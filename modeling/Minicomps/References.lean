import Minicomps.MonoRef

/-!
# References on many threads

Lookups of one message through any number of references, taken apart into their steps. A lookup locks the weak pointer the broker has
given it, and holds the list until it returns; as long as it does, the list has not expired for anybody. Meanwhile other threads
publish an async query, which stores the handler and the executor override one after the other, and do whatever else can be done to
the world.
-/

namespace Minicomps

/-- The identity of a reference. -/
abbrev RefId := Nat

/-- The class of a reference: `mono_ref_base` with one of its subclasses, or `interface_ref_base`. -/
inductive ReferenceKind where
  | query (kind : QueryKind)
  | interface
  deriving DecidableEq, Repr

/-- What does not change of a reference. -/
structure Reference where
  kind : ReferenceKind
  owner : ComponentId
  deriving DecidableEq, Repr

/-- Where a lookup is that has not returned yet. -/
inductive LookupStage where
  /-- The broker has given a weak pointer to its list. -/
  | fetched (receivers : ListId)
  /-- The list is held and has one entry. -/
  | locking (receivers : ListId) (receiver : ComponentId)
  /-- The entry is locked. -/
  | asking (receivers : ListId) (receiver : ComponentId)
  /-- It has a handler. -/
  | overriding (receivers : ListId) (receiver : ComponentId) (handler : HandlerId)
  /-- About to return; the list that is held, if any. -/
  | returning (held : Option ListId) (answer : Option HandlerId)
  deriving DecidableEq, Repr

/-- What a reference was told by the only entry of a list. -/
structure Ask where
  receivers : ListId
  receiver : ComponentId
  answer : Option HandlerId
  deriving DecidableEq, Repr

/-- A reference and its lookup under way. Of an interface reference, `handler` is the interface its proxy is linked to, and the
executor is not used. -/
structure Slot where
  ref : MonoRef := {}
  stage : Option LookupStage := none
  /-- History: what the reference was told. -/
  asks : List Ask := []
  /-- History: the broker's list for the message when the last lookup started. -/
  current : Option ListId := none
  /-- History: the last lookup to read the list has found a handler, and has asked for the executor. -/
  found : Bool := false
  overrideRead : Bool := false
  /-- History: the receiver has stored a handler, or an override, since it was asked for it. -/
  missed : Bool := false
  /-- History: what the message resolved to when the lookup under way started, if it has resolved to that ever since. -/
  due : Option Resolution := none
  deriving DecidableEq, Repr

/-- What a step of a lookup reads and changes. -/
structure LookupState where
  world : World
  /-- How many lookups hold a list. -/
  holders : ListId → Nat
  slot : Slot

/-- A step of a lookup. -/
inductive LookupAction where
  /-- It looks at its cache, and asks the broker if that is no use. -/
  | start
  | hold
  | lock (lost : ComponentId → List ComponentId)
  | askHandler
  | askOverride
  | returnHandler

namespace LookupState

/-- `expired()` of a weak pointer to a receiver list. -/
def expired (s : LookupState) : Option ListId → Bool
  | none => true
  | some l => !s.world.broker.owns l && s.holders l == 0

/-- No lookup holds a list that the reference has cached and the broker has replaced. -/
def Unheld (s : LookupState) : Prop := ∀ l ∈ s.slot.ref.receivers, s.world.broker.owns l = false → s.holders l = 0

instance (s : LookupState) : Decidable s.Unheld :=
  inferInstanceAs (Decidable (∀ l ∈ s.slot.ref.receivers, s.world.broker.owns l = false → s.holders l = 0))

/-- The cache is taken for valid. -/
def hit (s : LookupState) : Bool := s.slot.ref.handler.isSome && !s.expired s.slot.ref.receivers

/-- `lookup()` up to the end of `broker_.lookup`. -/
def start (id : MessageId) (owner : ComponentId) (s : LookupState) : Option LookupState :=
  let due := s.world.resolve .async id owner
  if s.slot.stage.isSome then none
  else if s.hit then
    some { s with slot := { s.slot with
      stage := some (.returning none s.slot.ref.handler)
      current := s.world.broker.activeLookups.find id
      due := due } }
  else
    let (b, l) := s.world.broker.lookup id
    some { s with
      world := { s.world with broker := b }
      slot := { s.slot with
        ref := { s.slot.ref with receivers := some l }
        stage := some (.fetched l)
        current := some l
        found := false
        overrideRead := false
        missed := false
        due := due } }

/-- `receivers_.lock()`, and the test of the list's length. -/
def hold (s : LookupState) : Option LookupState :=
  match s.slot.stage with
  | some (.fetched l) =>
    if s.expired (some l) then some { s with slot := { s.slot with stage := some (.returning none none) } }
    else
      let s := { s with holders := Function.update s.holders l (s.holders l + 1) }
      match s.world.broker.activeLookups.heap l with
      | [c] => some { s with slot := { s.slot with stage := some (.locking l c) } }
      -- No receiver, or too many: one is expected.
      | _ => some { s with slot := { s.slot with stage := some (.returning (some l) none) } }
  | _ => none

/-- `receiver_ = (*receivers)[0].lock()`. -/
def lock (lost : ComponentId → List ComponentId) (s : LookupState) : Option LookupState :=
  match s.slot.stage with
  | some (.locking l c) =>
    let receiver := s.world.lock c
    let s := { s with
      world := s.world.repin lost s.slot.ref.receiver receiver
      slot := { s.slot with ref := { s.slot.ref with receiver := receiver } } }
    match receiver with
    -- Failed to lock.
    | none => some { s with slot := { s.slot with stage := some (.returning (some l) none) } }
    | some c => some { s with slot := { s.slot with stage := some (.asking l c) } }
  | _ => none

/-- `lookup_handler`, or `lookup_interface` and the copy of the interface, which aborts when a query has not been implemented. -/
def askHandler (id : MessageId) (kind : ReferenceKind) (s : LookupState) : Option LookupState :=
  match s.slot.stage with
  | some (.asking l c) =>
    match kind with
    | .query kind =>
      let handler := kind.lookupHandler (s.world.component c) id
      let slot := { s.slot with ref := { s.slot.ref with handler := handler }, asks := s.slot.asks ++ [Ask.mk l c handler] }
      match handler with
      -- Receiver possibly out of sync with the broker.
      | none => some { s with slot := { slot with stage := some (.returning (some l) none) } }
      | some h => some { s with slot := { slot with stage := some (.overriding l c h), found := true } }
    | .interface =>
      let impl := (s.world.component c).lookupInterface id
      let slot := { s.slot with asks := s.slot.asks ++ [Ask.mk l c impl] }
      match impl with
      | none => some { s with slot := { slot with stage := some (.returning (some l) none) } }
      | some impl =>
        if s.world.implemented impl then
          some { s with slot := { slot with
            ref := { slot.ref with handler := some impl }
            stage := some (.returning (some l) (some impl))
            found := true } }
        else none
  | _ => none

/-- `lookup_executor_override`, and whether that is the sender's own executor. -/
def askOverride (id : MessageId) (owner : ComponentId) (s : LookupState) : Option LookupState :=
  match s.slot.stage with
  | some (.overriding l c h) =>
    let executor := s.world.handlerExecutor c id
    some { s with slot := { s.slot with
      ref := { s.slot.ref with
        receiverExecutor := some executor
        sameExecutor := decide ((s.world.component owner).defaultExecutor = executor) }
      stage := some (.returning (some l) (some h))
      overrideRead := true } }
  | _ => none

/-- `lookup()` returns, and lets go of the list. -/
def returnHandler (s : LookupState) : Option LookupState :=
  match s.slot.stage with
  | some (.returning held _) =>
    let holders := match held with
      | some l => Function.update s.holders l (s.holders l - 1)
      | none => s.holders
    some { s with holders := holders, slot := { s.slot with stage := none } }
  | _ => none

/-- A step of a lookup through the reference. -/
def step (id : MessageId) (reference : Reference) (s : LookupState) : LookupAction → Option LookupState
  | .start => s.start id reference.owner
  | .hold => s.hold
  | .lock lost => s.lock lost
  | .askHandler => s.askHandler id reference.kind
  | .askOverride => s.askOverride id reference.owner
  | .returnHandler => s.returnHandler

end LookupState

/-! ## All references, and those who publish -/

/-- A call of `publish_async_query` for the message. -/
structure AsyncPublication where
  component : ComponentId
  handler : HandlerId
  executorOverride : Option ExecutorId
  deriving DecidableEq, Repr

/-- A world, its references to the message, and what is under way. -/
structure ReferencesState where
  world : World
  holders : ListId → Nat := fun _ => 0
  slots : RefId → Slot := fun _ => {}
  /-- The calls of `publish_async_query` that have associated their component, and not stored the handler. -/
  associated : List AsyncPublication := []
  /-- Those that have stored the handler, and not the override. -/
  handlerStored : List AsyncPublication := []

/-- What happens to them. -/
inductive ReferencesAction where
  /-- Anything that is done to the world at once, by whatever thread. -/
  | world (op : WorldOp)
  /-- `publish_async_query` up to the end of `associate`. -/
  | associate (publication : AsyncPublication)
  /-- Up to the handler. -/
  | storeHandler (publication : AsyncPublication)
  /-- The rest of it. -/
  | storeOverride (publication : AsyncPublication)
  /-- A step of a lookup through the reference. -/
  | lookup (r : RefId) (a : LookupAction)

namespace Slot

/-- What is due stays due while the message resolves to it. -/
def settle (now : Option Resolution) (slot : Slot) : Slot := { slot with due := if slot.due = now then slot.due else none }

/-- The component has stored a handler. -/
def handlerStored (c : ComponentId) (slot : Slot) : Slot :=
  { slot with missed := slot.missed || (slot.found && decide (slot.ref.receiver = some c)) }

/-- The component has stored an override. -/
def overrideStored (c : ComponentId) (slot : Slot) : Slot :=
  { slot with missed := slot.missed || (slot.overrideRead && decide (slot.ref.receiver = some c)) }

end Slot

namespace ReferencesState

/-- `async_handlers_[msg_id] = ...`. -/
def storeAsyncHandler (id : MessageId) (p : AsyncPublication) (w : World) : World :=
  w.update p.component fun comp => { comp with asyncHandlers := Function.update comp.asyncHandlers id (some p.handler) }

/-- `async_executor_overrides_[msg_id] = ...`, and the dependency. -/
def storeExecutorOverride (id : MessageId) (p : AsyncPublication) (w : World) : World :=
  w.update p.component fun comp =>
    { comp with
      asyncExecutorOverrides := Function.update comp.asyncExecutorOverrides id p.executorOverride }.pushDependency
        .exported .asyncMono id

/-- `publish_async_query` up to the end of `associate`: `shared_from_this()` takes a component that somebody holds. -/
def associate (id : MessageId) (s : ReferencesState) (p : AsyncPublication) : Option ReferencesState :=
  if s.world.alive p.component then
    some { s with
      world := { s.world with broker := s.world.broker.associate id p.component }
      associated := s.associated ++ [p] }
  else none

/-- Up to the handler, on a component that is still held. -/
def storeHandler (id : MessageId) (s : ReferencesState) (p : AsyncPublication) : Option ReferencesState :=
  if p ∈ s.associated ∧ s.world.alive p.component = true then
    some { s with
      world := storeAsyncHandler id p s.world
      slots := fun r => (s.slots r).handlerStored p.component
      associated := s.associated.erase p
      handlerStored := s.handlerStored ++ [p] }
  else none

/-- The rest of `publish_async_query`. -/
def storeOverride (id : MessageId) (s : ReferencesState) (p : AsyncPublication) : Option ReferencesState :=
  if p ∈ s.handlerStored ∧ s.world.alive p.component = true then
    some { s with
      world := storeExecutorOverride id p s.world
      slots := fun r => (s.slots r).overrideStored p.component
      handlerStored := s.handlerStored.erase p }
  else none

/-- What a lookup through the reference reads and changes. -/
def view (s : ReferencesState) (r : RefId) : LookupState := { world := s.world, holders := s.holders, slot := s.slots r }

/-- A step of a lookup through the reference. -/
def lookup (id : MessageId) (refs : RefId → Reference) (s : ReferencesState) (r : RefId) (a : LookupAction) : Option ReferencesState :=
  ((s.view r).step id (refs r) a).map fun t =>
    { s with world := t.world, holders := t.holders, slots := Function.update s.slots r t.slot }

/-- What is due stays due while the message resolves to it. -/
def settle (id : MessageId) (refs : RefId → Reference) (s : ReferencesState) : ReferencesState :=
  { s with slots := fun r => (s.slots r).settle (s.world.resolve .async id (refs r).owner) }

/-- A step, for references `refs` to the message. -/
def step (id : MessageId) (refs : RefId → Reference) (s : ReferencesState) (a : ReferencesAction) : Option ReferencesState :=
  (match a with
    | .world op => (s.world.step op).map ({ s with world := · })
    | .associate p => s.associate id p
    | .storeHandler p => s.storeHandler id p
    | .storeOverride p => s.storeOverride id p
    | .lookup r a => s.lookup id refs r a).map (settle id refs)

/-- New references in a new world. -/
def init (component : ComponentId → Component) (others : ComponentId → Nat) : ReferencesState :=
  { world := World.new component others }

end ReferencesState

/-! ## What a lookup should find -/

/-- The answer comes from the list: it is what the list's only entry told the reference, and there is none if the list has not one
entry, if that is dead, or if it has told the reference that it has none. -/
def Slot.Against (w : World) (slot : Slot) (l : ListId) : Option HandlerId → Prop
  | some h => ∃ c, w.broker.activeLookups.heap l = [c] ∧ ⟨l, c, some h⟩ ∈ slot.asks
  | none => ∀ c, w.broker.activeLookups.heap l = [c] → w.alive c = false ∨ ⟨l, c, none⟩ ∈ slot.asks

namespace ReferencesState

/-- A lookup returns what the list gives that was the broker's when the lookup started. -/
def ResolvesCurrent (s : ReferencesState) : ReferencesAction → Prop
  | .lookup r .returnHandler => ∀ held answer, (s.slots r).stage = some (.returning held answer) →
      ∃ l, (s.slots r).current = some l ∧ (s.slots r).Against s.world l answer
  | _ => True

/-- When a lookup is answered from the cache, no other lookup holds a replaced list that the reference has cached, and the last lookup
through it that read a list found a handler; and a lookup whose list is gone before it could lock it would not have found a live component
in it. -/
def CacheCurrent (s : ReferencesState) : ReferencesAction → Prop
  | .lookup r .start => (s.view r).hit = true → (s.view r).Unheld ∧ (s.slots r).found = true
  | .lookup r .hold => ∀ l ∈ (s.slots r).ref.receivers, (s.view r).expired (some l) = true →
      ∀ c ∈ s.world.broker.activeLookups.heap l, s.world.broker.activeLookups.heap l = [c] → s.world.alive c = false
  | _ => True

/-- A lookup of an async query returns what the message has resolved to ever since the lookup started, and describes it: the executor
is the override, and the call is a direct one only where that is the sender's own executor. -/
def ResolvesPublished (refs : RefId → Reference) (s : ReferencesState) : ReferencesAction → Prop
  | .lookup r .returnHandler => (refs r).kind = .query .async → ∀ held answer, (s.slots r).stage = some (.returning held answer) →
      ∀ res, (s.slots r).due = some res → answer = some res.handler ∧ (s.slots r).ref.Describes res
  | _ => True

/-- When a lookup of an async query that resolves is answered from the cache, no other lookup holds a replaced list that the reference has
cached, and the receiver has stored nothing since it was asked; and when a list is gone before a lookup could lock it, nothing is due. -/
def CachePublished (id : MessageId) (refs : RefId → Reference) (s : ReferencesState) : ReferencesAction → Prop
  | .lookup r .start => (refs r).kind = .query .async → (s.view r).hit = true →
      (s.world.resolve .async id (refs r).owner).isSome = true → (s.view r).Unheld ∧ (s.slots r).missed = false
  | .lookup r .hold => (refs r).kind = .query .async → ∀ l ∈ (s.slots r).ref.receivers, (s.view r).expired (some l) = true →
      (s.slots r).due = none
  | _ => True

end ReferencesState

end Minicomps
