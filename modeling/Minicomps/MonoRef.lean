import Minicomps.Component

/-!
# A reference to the one handler of a message

`mono_ref_base` keeps what its last resolution found, next to a weak pointer to the receiver list it found it in, and relies on
the broker to expire that list when the message's handler has changed.
-/

namespace Minicomps

/-- Which handler a reference asks a receiver for: the subclass of `mono_ref_base`. -/
inductive QueryKind where
  | sync | async
  deriving DecidableEq, Repr

/-- `sync_mono_ref::lookup_handler` and `async_mono_ref::lookup_handler`. -/
def QueryKind.lookupHandler : QueryKind → Component → MessageId → Option HandlerId
  | .sync => Component.lookupSyncHandler
  | .async => Component.lookupAsyncHandler

/-- The fields of `mono_ref_base`. -/
structure MonoRef where
  handler : Option HandlerId := none
  receivers : Option ListId := none
  sameExecutor : Bool := false
  receiver : Option ComponentId := none
  receiverExecutor : Option ExecutorId := none
  deriving DecidableEq, Repr

namespace MonoRef

/-- `mutual_executor()`. -/
def mutualExecutor (r : MonoRef) : Bool := r.sameExecutor

/-- `lookup()` from where the cached state was found unusable. Every early return leaves the fields after it as they were. -/
def refetch (kind : QueryKind) (id : MessageId) (owner : ComponentId) (lost : ComponentId → List ComponentId) (w : World) (r : MonoRef) :
    Option HandlerId × MonoRef × World :=
  let f := w.fetchReceiver id lost r.receiver
  let w := f.world
  let r := { r with receivers := some f.receivers, receiver := f.receiver }
  match f.found with
  | none => (none, r, w)
  | some c =>
    let handler := kind.lookupHandler (w.component c) id
    let r := { r with handler := handler }
    match handler with
    | none => (none, r, w)
    | some h =>
      let executor := w.handlerExecutor c id
      (some h, { r with
        receiverExecutor := some executor
        sameExecutor := decide ((w.component owner).defaultExecutor = executor) }, w)

/-- `mono_ref_base::lookup`, on a reference to the message that `owner` looked up. -/
def lookup (kind : QueryKind) (id : MessageId) (owner : ComponentId) (lost : ComponentId → List ComponentId) (w : World) (r : MonoRef) :
    Option HandlerId × MonoRef × World :=
  if r.handler.isSome && !w.expired r.receivers then (r.handler, r, w) else refetch kind id owner lost w r

end MonoRef

/-! ## What a lookup should find -/

/-- The receiver of a message, its handler, the executor to run it on, and whether that is the sender's own. -/
structure Resolution where
  receiver : ComponentId
  handler : HandlerId
  executor : ExecutorId
  mutualExecutor : Bool
  deriving DecidableEq, Repr

/-- A fresh resolution against the broker's current list. -/
def World.resolve (kind : QueryKind) (id : MessageId) (owner : ComponentId) (w : World) : Option Resolution :=
  (w.sole kind.lookupHandler id).map fun (c, h) =>
    { receiver := c
      handler := h
      executor := w.handlerExecutor c id
      mutualExecutor := decide ((w.component owner).defaultExecutor = w.handlerExecutor c id) }

/-- The reference's accessors describe the resolution. -/
structure MonoRef.Describes (r : MonoRef) (res : Resolution) : Prop where
  handler : r.handler = some res.handler
  receiver : r.receiver = some res.receiver
  receiverExecutor : r.receiverExecutor = some res.executor
  mutualExecutor : r.mutualExecutor = res.mutualExecutor

end Minicomps
