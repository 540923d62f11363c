import Minicomps.Broker
import Minicomps.ExecutorThreads
import Minicomps.Lib.RecursiveMutex

/-!
# The broker, and threads that drop components

`disassociate` walks a copy of a list: it locks each entry, which takes a strong pointer, drops the pointer again, and writes the copy
back in the end. The component's destructor runs on the thread that has dropped the last strong pointer, and calls
`disassociate_everything` under the same recursive mutex. So a thread has a stack of frames here: a destructor can start wherever a
pointer is dropped, also in the middle of a walk.
-/

namespace Minicomps

/-- The loop of `disassociate` over its copy of a list. -/
structure ReceiverLoop where
  msgId : MessageId
  /-- The entries that have been passed and not erased. -/
  kept : List ComponentId := []
  rest : List ComponentId
  /-- `recv_sp`, between the test of an entry and the end of its round. -/
  locked : Option ComponentId := none
  deriving DecidableEq, Repr

/-- `disassociate`, or `disassociate_everything` with the messages that are left. -/
structure Sweep where
  comp : ComponentId
  remaining : List MessageId := []
  current : Option ReceiverLoop := none
  deriving DecidableEq, Repr

/-- Who called it. -/
inductive SweepCaller where
  | other
  /-- `unpublish_dependencies`, called by whoever. -/
  | unpublish
  /-- `unpublish_dependencies`, called by the destructor. -/
  | destructor
  deriving DecidableEq, Repr

/-- What is on a thread's call stack. -/
inductive BrokerFrame where
  /-- It holds the broker's mutex. -/
  | sweep (caller : SweepCaller) (sweep : Sweep)
  /-- The destructors of the subclasses, before `~component_base`. -/
  | entering (c : ComponentId)
  /-- After `~component_base`: the members are destroyed. -/
  | leaving (c : ComponentId) (wasPublished : Bool)
  deriving DecidableEq, Repr

namespace BrokerFrame

/-- The entries that will be written back. -/
def kept : BrokerFrame → List ComponentId
  | .sweep _ { current := some loop, .. } => loop.kept
  | _ => []

/-- The frame holds the broker's mutex. -/
def holdsMutex : BrokerFrame → Bool
  | .sweep _ _ => true
  | _ => false

end BrokerFrame

/-- The broker, the components and the threads. -/
structure BrokerSystem where
  broker : Broker := Broker.empty
  mutex : RecursiveMutex ThreadId := {}
  /-- How many strong pointers to a component are held by anybody but the loops of `disassociate`. -/
  held : ComponentId → Nat
  /-- How many those hold. -/
  temporary : ComponentId → Nat := fun _ => 0
  published : ComponentId → Bool := fun _ => false
  stack : ThreadId → List BrokerFrame := fun _ => []
  /-- History: the component was published, and its destructor has finished. -/
  destroyed : ComponentId → Bool := fun _ => false

/-- What a thread does next. -/
inductive BrokerAction where
  /-- The publishing functions: they hand out `shared_from_this()`. -/
  | associate (t : ThreadId) (id : MessageId) (c : ComponentId)
  | invalidate (t : ThreadId) (id : MessageId)
  | lookup (t : ThreadId) (id : MessageId)
  | disassociate (t : ThreadId) (id : MessageId) (c : ComponentId)
  | disassociateEverything (t : ThreadId) (c : ComponentId)
  | unpublishDependencies (t : ThreadId) (c : ComponentId)
  /-- The end of `publish_dependencies`. -/
  | publishDependencies (t : ThreadId) (c : ComponentId)
  /-- A strong pointer is copied, or a weak one locked. -/
  | acquire (t : ThreadId) (c : ComponentId)
  | release (t : ThreadId) (c : ComponentId)
  /-- `disassociate_everything` calls `disassociate` for its next message. -/
  | nextMessage (t : ThreadId)
  /-- The loop of `disassociate` locks its next entry, and keeps or erases it. -/
  | lockEntry (t : ThreadId)
  /-- The strong pointer to the entry goes at the end of the round. -/
  | dropEntry (t : ThreadId)
  /-- `disassociate` writes its copy back. -/
  | writeBack (t : ThreadId)
  /-- `disassociate`, or `disassociate_everything`, returns to its caller. -/
  | finishSweep (t : ThreadId)
  /-- `~component_base`. -/
  | destruct (t : ThreadId)
  /-- The destructor returns. -/
  | finishDestructor (t : ThreadId)
  deriving DecidableEq, Repr

namespace BrokerSystem

/-- A weak pointer to the component can be locked. -/
def alive (s : BrokerSystem) (c : ComponentId) : Bool := decide (0 < s.held c + s.temporary c)

/-- Code outside of the broker runs on the thread, which may do anything. -/
def runsUserCode (s : BrokerSystem) (t : ThreadId) : Bool :=
  match s.stack t with
  | .sweep _ _ :: _ => false
  | _ => true

/-- Put frames in the place of a thread's stack. -/
def setStack (s : BrokerSystem) (t : ThreadId) (frames : List BrokerFrame) : BrokerSystem :=
  { s with stack := Function.update s.stack t frames }

/-- A function of the broker that locks the mutex, does something at once, and unlocks it; `none` while the thread has to wait. -/
def locked (s : BrokerSystem) (t : ThreadId) (b : Broker) : Option BrokerSystem :=
  if s.runsUserCode t then (s.mutex.lock t).map fun _ => { s with broker := b } else none

/-- A function of the broker that locks the mutex until it returns. -/
def startSweep (s : BrokerSystem) (t : ThreadId) (caller : SweepCaller) (sweep : Sweep) : Option BrokerSystem :=
  if s.runsUserCode t then
    (s.mutex.lock t).map fun m => { s with mutex := m }.setStack t (.sweep caller sweep :: s.stack t)
  else none

/-- The loop over the copy of the message's list. -/
def startLoop (s : BrokerSystem) (id : MessageId) : ReceiverLoop := { msgId := id, rest := s.broker.receivers id }

/-- What follows on the thread when a strong pointer to the component has gone: its destructor, if it was the last one. -/
def dropped (s : BrokerSystem) (t : ThreadId) (c : ComponentId) : BrokerSystem :=
  if s.alive c then s else s.setStack t (.entering c :: s.stack t)

/-- One step of one thread; `none` where it cannot be taken, has to wait or aborts. -/
def step (s : BrokerSystem) : BrokerAction → Option BrokerSystem
  | .associate t id c => if s.alive c then s.locked t (s.broker.associate id c) else none
  | .invalidate t id => s.locked t (s.broker.invalidate id)
  | .lookup t id => s.locked t (s.broker.lookup id).1
  | .disassociate t id c =>
    if (s.broker.activeLookups.find id).isSome then s.startSweep t .other { comp := c, current := some (s.startLoop id) } else none
  | .disassociateEverything t c => s.startSweep t .other { comp := c, remaining := s.broker.activeLookups.keys }
  | .unpublishDependencies t c => s.startSweep t .unpublish { comp := c, remaining := s.broker.activeLookups.keys }
  | .publishDependencies t c =>
    if s.runsUserCode t && s.alive c then some { s with published := Function.update s.published c true } else none
  | .acquire t c =>
    if s.runsUserCode t && s.alive c then some { s with held := Function.update s.held c (s.held c + 1) } else none
  | .release t c =>
    if s.runsUserCode t && decide (0 < s.held c) then
      some ({ s with held := Function.update s.held c (s.held c - 1) }.dropped t c)
    else none
  | .nextMessage t =>
    match s.stack t with
    | .sweep caller { comp, remaining := id :: ids, current := none } :: frames =>
      some (s.setStack t (.sweep caller { comp, remaining := ids, current := some (s.startLoop id) } :: frames))
    | _ => none
  | .lockEntry t =>
    match s.stack t with
    | .sweep caller { comp, remaining, current := some { msgId, kept, rest := c :: rest, locked := none } } :: frames =>
      if s.alive c then
        let kept := if c = comp then kept else kept ++ [c]
        some ({ s with temporary := Function.update s.temporary c (s.temporary c + 1) }.setStack t
          (.sweep caller { comp, remaining, current := some { msgId, kept, rest, locked := some c } } :: frames))
      else
        some (s.setStack t (.sweep caller { comp, remaining, current := some { msgId, kept, rest, locked := none } } :: frames))
    | _ => none
  | .dropEntry t =>
    match s.stack t with
    | .sweep caller { comp, remaining, current := some { msgId, kept, rest, locked := some c } } :: frames =>
      some (({ s with temporary := Function.update s.temporary c (s.temporary c - 1) }.setStack t
        (.sweep caller { comp, remaining, current := some { msgId, kept, rest, locked := none } } :: frames)).dropped t c)
    | _ => none
  | .writeBack t =>
    match s.stack t with
    | .sweep caller { comp, remaining, current := some { msgId, kept, rest := [], locked := none } } :: frames =>
      some ({ s with broker := ⟨s.broker.activeLookups.store msgId kept⟩ }.setStack t
        (.sweep caller { comp, remaining, current := none } :: frames))
    | _ => none
  | .finishSweep t =>
    match s.stack t with
    | .sweep caller { comp, remaining := [], current := none } :: frames =>
      let s := { s with mutex := s.mutex.unlock }
      match caller with
      | .other => some (s.setStack t frames)
      | .unpublish => some ({ s with published := Function.update s.published comp false }.setStack t frames)
      | .destructor =>
        some ({ s with published := Function.update s.published comp false }.setStack t (.leaving comp true :: frames))
    | _ => none
  | .destruct t =>
    match s.stack t with
    | .entering c :: frames =>
      if s.published c then
        (s.mutex.lock t).map fun m =>
          { s with mutex := m }.setStack t
            (.sweep .destructor { comp := c, remaining := s.broker.activeLookups.keys } :: frames)
      else some (s.setStack t (.leaving c false :: frames))
    | _ => none
  | .finishDestructor t =>
    match s.stack t with
    | .leaving c wasPublished :: frames =>
      some ({ s with destroyed := Function.update s.destroyed c (s.destroyed c || wasPublished) }.setStack t frames)
    | _ => none

/-- Components that somebody holds, a new broker, and threads that have not done anything yet. -/
def init (held : ComponentId → Nat) : BrokerSystem := { held }

/-! ## What the destructor is for -/

/-- The component whose strong pointer an action drops, and the thread that drops it. -/
def drops (s : BrokerSystem) : BrokerAction → Option (ThreadId × ComponentId)
  | .release t c => some (t, c)
  | .dropEntry t =>
    match s.stack t with
    | .sweep _ { current := some { locked := some c, .. }, .. } :: _ => some (t, c)
    | _ => none
  | _ => none

/-- When the last strong pointer to a published component goes, the thread that drops it is in no walk that has kept the component. -/
def NoKeptDies (s : BrokerSystem) (a : BrokerAction) : Prop :=
  ∀ t c, s.drops a = some (t, c) → s.held c + s.temporary c ≤ 1 → s.published c = true → ∀ f ∈ s.stack t, c ∉ f.kept

/-- No list has an entry for a published component whose destructor has finished. -/
def NoDeadEntries (s : BrokerSystem) : Prop := ∀ c, s.destroyed c = true → ∀ id, c ∉ s.broker.receivers id

end BrokerSystem

end Minicomps
