import Minicomps.Arguments
import Minicomps.FilterInstallation
import Minicomps.InterfaceRef
import Minicomps.Lib.Transition
import Minicomps.MonoRef
import Minicomps.RequestProtocol

/-!
# Chains of filters

A filter is put before a published query in one of two ways. On a message query, a new handler object takes the place of the old one
in the component's table, and the broker's list is replaced so that references notice; on an interface query, the handler inside the
published query is replaced, and all proxies are linked to that query. The filters also pass a call on in two ways. Here is one query
of each kind, with a reference to it that may have been resolved before, and with the memory that the callers' arguments are in.
-/

namespace Minicomps

/-- What a filter does with a call: it lets it pass, or answers it. -/
inductive Decision (β : Type*) where
  | passOn
  | answer (value : β)
  deriving DecidableEq, Repr

/-- A call, and what each filter will do with it if it comes to it. -/
structure FilterCall (β : Type*) where
  arguments : List Argument
  decisions : FunctionId → Decision β

/-- A call that has been made. -/
structure PassedCall (α β : Type*) where
  arguments : List (PassedArgument α)
  decisions : FunctionId → Decision β
  /-- History: the filters that had been installed by then, the last one first. -/
  installedBefore : List FunctionId

/-- The values of its arguments. -/
def PassedCall.values {α β : Type*} (call : PassedCall α β) : List α := call.arguments.map PassedArgument.value

/-- What was called with which arguments, and the answers that were given. -/
structure Handling (α β : Type*) where
  visits : List (FunctionId × α) := []
  answers : List β := []

/-- A call that has been handled. -/
structure FilteredHandling (α β : Type*) where
  call : PassedCall α β
  /-- History: the filters that its handling found. -/
  installed : List FunctionId
  handling : Handling (List α) β

section

variable {α β : Type*}

/-- A filter of a message query: what it leaves in `proceed`, which is true before, and the answers it gives. -/
def Decision.messageFilter : Decision β → Bool × List β
  | .passOn => (true, [])
  | .answer value => (false, [value])

/-- A filter of an interface query, which is given its `next_handler`. -/
def Decision.interfaceFilter (arguments : α) (nextHandler : α → Handling α β) : Decision β → Handling α β
  | .passOn => nextHandler arguments
  | .answer value => { answers := [value] }

/-- The functions that `component_base::prepend_async_query_filter` makes, around the function that was published. -/
def invokeMessageHandler (base : α → β) (decisions : FunctionId → Decision β) : SyncHandler → α → Handling α β
  | [], _ => {}
  | [h], arguments => { visits := [(h, arguments)], answers := [base arguments] }
  | f :: previous, arguments =>
    let (proceed, answers) := (decisions f).messageFilter
    let rest := if proceed then invokeMessageHandler base decisions previous arguments else {}
    { visits := (f, arguments) :: rest.visits, answers := answers ++ rest.answers }

/-- The functions that `prepend_filter` makes, around the function that was published. -/
def invokeInterfaceHandler (base : α → β) (decisions : FunctionId → Decision β) : SyncHandler → α → Handling α β
  | [], _ => {}
  | [h], arguments => { visits := [(h, arguments)], answers := [base arguments] }
  | f :: previous, arguments =>
    let rest := (decisions f).interfaceFilter arguments (invokeInterfaceHandler base decisions previous)
    { visits := (f, arguments) :: rest.visits, answers := rest.answers }

end

/-! ## A message query -/

/-- A request that was enqueued: the pointer it has captured, and the tuple. -/
structure MessageRequest (α β : Type*) where
  handler : HandlerId
  arguments : List (StoredArgument α)
  /-- History: the call it is of. -/
  call : PassedCall α β

/-- A published query, a reference to it, and the calls through the reference. -/
structure MessageFilters (α β : Type*) where
  state : RefState MonoRef
  /-- The handler objects. A filter's object keeps the one before it, so that none is destroyed. -/
  handlers : HandlerId → SyncHandler
  memory : VariableId → α
  /-- History: the filters, the last one first. -/
  installed : List FunctionId := []
  /-- History: the calls. -/
  calls : List (PassedCall α β) := []
  requests : List (MessageRequest α β) := []
  handled : List (FilteredHandling α β) := []

/-- What happens next. -/
inductive MessageFilterAction (α β : Type*) where
  /-- Somebody writes to a variable. -/
  | assign (x : VariableId) (value : α)
  /-- Whatever else happens, while the component stays the one that publishes the query. -/
  | world (op : WorldOp)
  /-- `prepend_async_query_filter`, which makes a handler object at the address. -/
  | prepend (f : FunctionId) (address : HandlerId)
  /-- `force_resolve()`. -/
  | resolve (lost : ComponentId → List ComponentId)
  | call (lost : ComponentId → List ComponentId) (call : FilterCall β)
  /-- The receiver's executor comes to the request. -/
  | run (i : Nat)

namespace MessageFilters

variable {α β : Type*}

/-- The caller passes its arguments. -/
def pass (s : MessageFilters α β) (call : FilterCall β) : PassedCall α β where
  arguments := passArguments s.memory call.arguments
  decisions := call.decisions
  installedBefore := s.installed

/-- The function of a handler object is called. -/
def handle (base : List α → β) (s : MessageFilters α β) (handler : HandlerId) (arguments : List (StoredArgument α)) (call : PassedCall α β) :
    MessageFilters α β :=
  let handled : FilteredHandling α β :=
    { call, installed := call.installedBefore
      handling := invokeMessageHandler base call.decisions (s.handlers handler) (arguments.map (StoredArgument.read s.memory)) }
  { s with handled := s.handled ++ [handled] }

/-- `async_query::execute`, after `lookup()`. -/
def execute (base : List α → β) (s : MessageFilters α β) (handler : HandlerId) (call : PassedCall α β) : MessageFilters α β :=
  let arguments := call.arguments.map storeArgument
  let request : MessageRequest α β := { handler, arguments, call }
  let ports : RequestPorts (MessageFilters α β) (MessageFilters α β) :=
    { callHandler := fun s => s.handle base handler arguments call
      enqueueWork := fun s => { s with requests := s.requests ++ [request] } }
  ports.execute s.state.ref.mutualExecutor s

/-- One step; `none` where it cannot be taken, or aborts. -/
def step (base : List α → β) (id : MessageId) (owner c : ComponentId) (s : MessageFilters α β) :
    MessageFilterAction α β → Option (MessageFilters α β)
  | .assign x value => some { s with memory := Function.update s.memory x value }
  | .world op =>
    (s.state.world.step op).bind fun w =>
      if w.sole Component.lookupAsyncHandler id = s.state.world.sole Component.lookupAsyncHandler id then
        some { s with state := { s.state with world := w } }
      else none
  | .prepend f address =>
    ((s.state.world.component c).asyncHandlers id).bind fun previous =>
      (s.state.world.prependAsyncQueryFilter c id address).bind fun w =>
        if s.handlers address = [] then
          some { s with
            state := { s.state with world := w }
            handlers := Function.update s.handlers address (f :: s.handlers previous)
            installed := f :: s.installed }
        else none
  | .resolve lost =>
    let (_, ref, world) := MonoRef.lookup .async id owner lost s.state.world s.state.ref
    some { s with state := ⟨world, ref⟩ }
  | .call lost call =>
    let (handler, ref, world) := MonoRef.lookup .async id owner lost s.state.world s.state.ref
    match handler, ref.receiver with
    | some handler, some _ =>
      some ({ s with state := ⟨world, ref⟩, calls := s.calls ++ [s.pass call] }.execute base handler (s.pass call))
    | _, _ => none
  | .run i => (s.requests[i]?).map fun r => { s with requests := s.requests.eraseIdx i }.handle base r.handler r.arguments r.call

/-- A query that the component publishes: `h` is the function, and the handler object with it is at `address`. -/
def published (state : RefState MonoRef) (address : HandlerId) (h : FunctionId) (memory : VariableId → α) : MessageFilters α β :=
  { state, handlers := Function.update (fun _ => []) address [h], memory }

/-- When a request is run, every variable among its arguments still has the value it had at the call. -/
def KeepsArguments (s : MessageFilters α β) : MessageFilterAction α β → Prop
  | .run i => ∀ r ∈ s.requests[i]?, ArgumentsKept s.memory r.call.arguments
  | _ => True

instance [DecidableEq α] (s : MessageFilters α β) : ∀ a, Decidable (s.KeepsArguments a)
  | .run i => inferInstanceAs (Decidable (∀ r ∈ s.requests[i]?, ArgumentsKept s.memory r.call.arguments))
  | .assign .. | .world .. | .prepend .. | .resolve .. | .call .. => isTrue trivial

end MessageFilters

/-! ## An interface query -/

/-- A request that was enqueued, which is linked to the published query: the tuple. -/
structure LinkedRequest (α β : Type*) where
  arguments : List (StoredArgument α)
  /-- History: the call it is of. -/
  call : PassedCall α β

/-- A query of a published interface, a reference to the interface, and the calls through its proxies. -/
structure InterfaceFilters (α β : Type*) where
  state : RefState InterfaceRef
  /-- `handler_` of the published query. -/
  handler : SyncHandler
  handlingExecutor : ExecutorId
  allowDirectCallAsync : Bool
  /-- Which of the parameters of the query are references. -/
  isReference : Nat → Bool
  memory : VariableId → α
  installed : List FunctionId := []
  calls : List (PassedCall α β) := []
  requests : List (LinkedRequest α β) := []
  handled : List (FilteredHandling α β) := []

/-- How a filter is installed. -/
inductive Installer where
  /-- `component_base::prepend_async_query_filter` of the component. -/
  | component (c : ComponentId)
  /-- `prepend_filter` of the published query, or of some other proxy that is linked to it. -/
  | query
  /-- `prepend_filter` of the reference's proxy. -/
  | proxy (lost : ComponentId → List ComponentId)

/-- What happens next. -/
inductive InterfaceFilterAction (α β : Type*) where
  /-- Somebody writes to a variable. -/
  | assign (x : VariableId) (value : α)
  /-- Whatever else happens, while the component stays the one that publishes the interface. -/
  | world (op : WorldOp)
  | prepend (installer : Installer) (f : FunctionId)
  | resolve (lost : ComponentId → List ComponentId)
  | call (lost : ComponentId → List ComponentId) (call : FilterCall β)
  /-- The handling executor comes to the request. -/
  | run (i : Nat)

/-- `broker_.invalidate` for each of the component's interfaces. -/
def World.invalidateInterfaces (w : World) (c : ComponentId) : World :=
  { w with
    broker := (w.broker.activeLookups.keys.filter fun id => ((w.component c).interfaces id).isSome).foldl Broker.invalidate w.broker }

namespace InterfaceFilters

variable {α β : Type*}

/-- The caller passes its arguments. -/
def pass (s : InterfaceFilters α β) (call : FilterCall β) : PassedCall α β where
  arguments := passArguments s.memory call.arguments
  decisions := call.decisions
  installedBefore := s.installed

/-- `linked_query_->handler_` is called. -/
def handle (base : List α → β) (s : InterfaceFilters α β) (arguments : List (StoredArgument α)) (call : PassedCall α β) :
    InterfaceFilters α β :=
  let handled : FilteredHandling α β :=
    { call, installed := s.installed
      handling := invokeInterfaceHandler base call.decisions s.handler (arguments.map (StoredArgument.read s.memory)) }
  { s with handled := s.handled ++ [handled] }

/-- `prepend_filter` of the published query. -/
def prependFilter (s : InterfaceFilters α β) (f : FunctionId) : InterfaceFilters α β :=
  { s with handler := f :: s.handler, installed := f :: s.installed }

/-- The proxies of the reference, and where they are linked to the query, what is done with them. -/
def withProxy (id : MessageId) (owner : ComponentId) (life : LifetimeWeakPtr) (impl : InterfaceId)
    (lost : ComponentId → List ComponentId) (s : InterfaceFilters α β) (f : InterfaceFilters α β → InterfaceFilters α β) :
    Option (InterfaceFilters α β) :=
  (InterfaceRef.lookup id owner life lost s.state.world s.state.ref).bind fun (proxy, ref, world) =>
    proxy.bind fun p => if p.linkedInterface = impl then some (f { s with state := ⟨world, ref⟩ }) else none

/-- `if_async_query::execute`, `if_sync_query::operator()`, or one of `if_volatile_sync_query::operator()` and `call_locking`: only
an async query enqueues a request. -/
def execute (base : List α → β) (kind : InterfaceQueryKind) (owner : ComponentId) (call : PassedCall α β) (s : InterfaceFilters α β) :
    InterfaceFilters α β :=
  let sameExecutor := decide (s.handlingExecutor = (s.state.world.component owner).defaultExecutor)
  let arguments := call.arguments.mapIdx (storeParameter s.isReference)
  let request : LinkedRequest α β := { arguments, call }
  let ports : RequestPorts (InterfaceFilters α β) (InterfaceFilters α β) :=
    { callHandler := fun s => s.handle base arguments call
      enqueueWork := fun s => { s with requests := s.requests ++ [request] } }
  match kind with
  | .async => ports.execute (s.allowDirectCallAsync && sameExecutor) s
  | .sync | .volatileSync => s.handle base arguments call

/-- One step; `none` where it cannot be taken, or aborts. -/
def step (base : List α → β) (kind : InterfaceQueryKind) (id : MessageId) (owner : ComponentId) (life : LifetimeWeakPtr) (impl : InterfaceId)
    (s : InterfaceFilters α β) : InterfaceFilterAction α β → Option (InterfaceFilters α β)
  | .assign x value => some { s with memory := Function.update s.memory x value }
  | .world op =>
    (s.state.world.step op).bind fun w =>
      if w.sole Component.lookupInterface id = s.state.world.sole Component.lookupInterface id then
        some { s with state := { s.state with world := w } }
      else none
  | .prepend (.component c) f =>
    some ({ s with state := { s.state with world := s.state.world.invalidateInterfaces c } }.prependFilter f)
  | .prepend .query f => some (s.prependFilter f)
  | .prepend (.proxy lost) f => s.withProxy id owner life impl lost fun s => s.prependFilter f
  | .resolve lost => s.withProxy id owner life impl lost fun s => s
  | .call lost call =>
    s.withProxy id owner life impl lost fun s => execute base kind owner (s.pass call) { s with calls := s.calls ++ [s.pass call] }
  | .run i => (s.requests[i]?).map fun r => { s with requests := s.requests.eraseIdx i }.handle base r.arguments r.call

/-- A query that has been published with the function `h`. -/
def published (state : RefState InterfaceRef) (h : FunctionId) (handlingExecutor : ExecutorId) (allowDirectCallAsync : Bool)
    (isReference : Nat → Bool) (memory : VariableId → α) : InterfaceFilters α β :=
  { state, handler := [h], handlingExecutor, allowDirectCallAsync, isReference, memory }

/-- When a request is run, every variable that a parameter refers to still has the value it had at the call. -/
def KeepsArguments (s : InterfaceFilters α β) : InterfaceFilterAction α β → Prop
  | .run i => ∀ r ∈ s.requests[i]?, ParametersKept s.isReference s.memory r.call.arguments
  | _ => True

instance [DecidableEq α] (s : InterfaceFilters α β) : ∀ a, Decidable (s.KeepsArguments a)
  | .run i => inferInstanceAs (Decidable (∀ r ∈ s.requests[i]?, ParametersKept s.isReference s.memory r.call.arguments))
  | .assign .. | .world .. | .prepend .. | .resolve .. | .call .. => isTrue trivial

end InterfaceFilters

/-! ## What should become of a call -/

/-- The answer of the composed chain. -/
def composedAnswer {β : Type*} (decisions : FunctionId → Decision β) (answer : β) : List FunctionId → β
  | [] => answer
  | f :: filters =>
    match decisions f with
    | .passOn => composedAnswer decisions answer filters
    | .answer value => value

/-- A call with these arguments visits the filters from the last one that was installed to the first, and then the function that was
published, as far as they let it pass, all with its arguments; and it is answered once, by the composed chain. -/
structure HandledBy {α β : Type*} (base : α → β) (h : FunctionId) (installed : List FunctionId) (decisions : FunctionId → Decision β)
    (args : α) (x : Handling α β) : Prop where
  order : x.visits.map Prod.fst <+: installed ++ [h]
  started : x.visits ≠ []
  goesOn : ∀ i f, installed[i]? = some f → i < x.visits.length → (i + 1 < x.visits.length ↔ decisions f = .passOn)
  handled : x.visits.length = installed.length + 1 ↔ ∀ f ∈ installed, decisions f = .passOn
  arguments : ∀ v ∈ x.visits, v.2 = args
  answers : x.answers = [composedAnswer decisions (base args) installed]

/-- Every call that has been handled went through the filters that it found, with the values that its caller had passed, and no filter is
missing among these that had been installed when it was made; and the calls that were made are those that were handled and those that are
queued. -/
structure CallsFiltered {α β : Type*} (base : List α → β) (h : FunctionId) (calls queued : List (PassedCall α β))
    (handled : List (FilteredHandling α β)) : Prop where
  filtered : ∀ x ∈ handled, HandledBy base h x.installed x.call.decisions x.call.values x.handling
  installed : ∀ x ∈ handled, x.call.installedBefore <:+ x.installed
  accounted : (handled.map FilteredHandling.call ++ queued).Perm calls

/-- What is asked of a state of a message query. No call aborts, and every request can be run. -/
structure MessageFilters.Filtered {α β : Type*} (base : List α → β) (h : FunctionId) (id : MessageId) (owner c : ComponentId)
    (s : MessageFilters α β) : Prop where
  calls : CallsFiltered base h s.calls (s.requests.map MessageRequest.call) s.handled
  answers : ∀ lost call, (s.step base id owner c (.call lost call)).isSome = true
  runs : ∀ i, i < s.requests.length → (s.step base id owner c (.run i)).isSome = true

/-- What is asked of a state of an interface query. -/
structure InterfaceFilters.Filtered {α β : Type*} (base : List α → β) (h : FunctionId) (kind : InterfaceQueryKind) (id : MessageId)
    (owner : ComponentId) (life : LifetimeWeakPtr) (impl : InterfaceId) (s : InterfaceFilters α β) : Prop where
  calls : CallsFiltered base h s.calls (s.requests.map LinkedRequest.call) s.handled
  answers : ∀ lost call, (s.step base kind id owner life impl (.call lost call)).isSome = true
  runs : ∀ i, i < s.requests.length → (s.step base kind id owner life impl (.run i)).isSome = true

end Minicomps
