import Mathlib.Data.List.InsertIdx
import Minicomps.Theorems.Dependencies
import Minicomps.QueryTraces

/-!
# When a message query and an interface query stay in step

The state of the interface query's calls is a function of the message query's: each queued request stands for one with the same
callback, and with the arguments kept as the parameters are declared. Every step but two commutes with that function. A call does
unless it is direct and not allowed to be, and a request does if the arguments that only one side keeps by reference have not changed.
-/

namespace Minicomps

open Transition

namespace QueryTracesAux

open World DependenciesAux

variable {α β : Type*} {d : QueryDeployment}

/-! ## The calls of the one as calls of the other -/

/-- The request that the interface query would have made. -/
def linkRequest (d : QueryDeployment) (r : MessageTask α) : InterfaceTask α :=
  { linkedQuery := d.impl, data := { r.data with arguments := r.passed.mapIdx (InterfaceSystem.storeArgument d) } }

def linkTask (d : QueryDeployment) : QueuedTask (MessageTask α) β → QueuedTask (InterfaceTask α) β
  | .request r => .request (linkRequest d r)
  | .response data => .response data

def linkResult (d : QueryDeployment) (r : CallbackResult) : CallbackResult := { r with msgInfo := d.queryInfo }

def linkCalls (d : QueryDeployment) (s : Calls (MessageTask α) α β) : Calls (InterfaceTask α) α β :=
  { memory := s.memory
    executors := fun x => (s.executors x).map (linkTask d)
    outstanding := s.outstanding.map (linkResult d)
    callbacks := s.callbacks
    trace := s.trace }

theorem link_update (s : Calls (MessageTask α) α β) (x : ExecutorId) (e : Executor (QueuedTask (MessageTask α) β)) :
    linkCalls d { s with executors := Function.update s.executors x e } =
      { linkCalls d s with executors := Function.update (linkCalls d s).executors x (e.map (linkTask d)) } := by
  simp only [linkCalls, Calls.mk.injEq, true_and, and_true]
  funext y
  by_cases hy : y = x
  · subst hy
    rw [Function.update_self, Function.update_self]
  · rw [Function.update_of_ne hy, Function.update_of_ne hy]

theorem link_enqueueWork (s : Calls (MessageTask α) α β) (x : ExecutorId) (task : QueuedTask (MessageTask α) β) :
    linkCalls d (s.enqueueWork x task) = (linkCalls d s).enqueueWork x (linkTask d task) := by
  unfold Calls.enqueueWork
  rw [link_update, Executor.map_enqueueWork]
  rfl

theorem link_notifyListener (s : Calls (MessageTask α) α β) (listener : Option ListenerId) (callback : ListenerCallback)
    (sender receiver : ComponentId) (type : MessageType) :
    linkCalls d (s.notifyListener listener callback sender receiver type) =
      (linkCalls d s).notifyListener listener callback sender receiver type := by
  cases listener <;> rfl

theorem memory_notifyListener {ρ : Type*} (s : Calls ρ α β) (listener : Option ListenerId) (callback : ListenerCallback)
    (sender receiver : ComponentId) (type : MessageType) : (s.notifyListener listener callback sender receiver type).memory = s.memory := by
  cases listener <;> rfl

theorem link_deliver (lifetimes : Lifetimes) (s : Calls (MessageTask α) α β) (data : ResponseData β) :
    linkCalls d (s.deliver lifetimes data) = (linkCalls d s).deliver lifetimes data := by
  unfold Calls.deliver
  split <;> rfl

theorem link_operatorCall (lifetimes : Lifetimes) (listener : ComponentId → Option ListenerId) (s : Calls (MessageTask α) α β)
    (r : CallbackResult) (value : β) :
    linkCalls d (s.operatorCall lifetimes listener r value) = (linkCalls d s).operatorCall lifetimes listener (linkResult d r) value := by
  simp only [Calls.operatorCall, AnswerPorts.operatorCall]
  cases hx : r.receivingExecutor with
  | some x =>
    simp only [linkResult, hx, link_notifyListener, link_enqueueWork]
    rfl
  | none =>
    simp only [linkResult, hx]
    split
    · rfl
    · rw [link_deliver, link_notifyListener]

theorem link_respond (lifetimes : Lifetimes) (listener : ComponentId → Option ListenerId) (s : Calls (MessageTask α) α β) (i : Nat)
    (value : β) :
    (linkCalls d s).respond lifetimes listener i value = (s.respond lifetimes listener i value).map (linkCalls d) := by
  unfold Calls.respond
  rw [show (linkCalls d s).outstanding = s.outstanding.map (linkResult d) from rfl, List.getElem?_map, Option.map_map, Option.map_map]
  refine congrArg (fun f => (s.outstanding[i]?).map f) (funext fun r => ?_)
  simp only [Function.comp_apply, link_operatorCall]
  rw [List.eraseIdx_map]
  rfl

theorem link_startBatch (s : Calls (MessageTask α) α β) (x : ExecutorId) :
    (linkCalls d s).startBatch x = (s.startBatch x).map (linkCalls d) := by
  unfold Calls.startBatch
  rw [show ((linkCalls d s).executors x).workItemsBackBuffer.isEmpty = (s.executors x).workItemsBackBuffer.isEmpty from List.isEmpty_map]
  split
  · rw [Option.map_some, link_update, Executor.map_swap]
    rfl
  · rfl

theorem link_takeNext (s : Calls (MessageTask α) α β) (x : ExecutorId) :
    (linkCalls d s).takeNext x = (s.takeNext x).map fun (task, calls) => (linkTask d task, linkCalls d calls) := by
  unfold Calls.takeNext
  rw [show (linkCalls d s).executors x = (s.executors x).map (linkTask d) from rfl, Executor.next_map, Option.map_map, Option.map_map]
  refine congrArg (fun f => ((s.executors x).next).map f) (funext fun p => ?_)
  simp only [Function.comp_apply, link_update]

theorem link_finishBatch (s : Calls (MessageTask α) α β) (x : ExecutorId) :
    (linkCalls d s).finishBatch x = (s.finishBatch x).map (linkCalls d) := by
  unfold Calls.finishBatch
  rw [show (linkCalls d s).executors x = (s.executors x).map (linkTask d) from rfl, Executor.next_map]
  cases (s.executors x).next with
  | some p => rfl
  | none =>
    simp only [Option.map_none, Option.map_some, link_update]
    rfl

/-- A handler starts on both sides, if both read the same arguments. -/
theorem link_startHandler (s : Calls (MessageTask α) α β) (handler : HandlerId) {stored stored' : List (StoredArgument α)}
    (h : stored'.map (StoredArgument.read s.memory) = stored.map (StoredArgument.read s.memory)) (r : CallbackResult) :
    linkCalls d (s.startHandler handler stored r) = (linkCalls d s).startHandler handler stored' (linkResult d r) := by
  simp only [Calls.startHandler, linkCalls, Calls.record, List.map_append, h]
  rfl

/-! ## What the arguments read as -/

/-- Both sides read the same of an argument unless only one of them keeps a reference, and the value has changed. -/
theorem read_eq_iff (memory : VariableId → α) (i : Nat) (p : PassedArgument α) :
    (InterfaceSystem.storeArgument d i p).read memory = (storeArgument p).read memory ↔
      (p.lvalue ≠ d.isReference i → memory p.storage = p.value) := by
  rw [read_storeArgument, InterfaceSystem.storeArgument, read_storeParameter]
  cases p.lvalue <;> cases d.isReference i <;> simp [eq_comm]

theorem read_all_eq_iff (memory : VariableId → α) (passed : List (PassedArgument α)) :
    (passed.mapIdx (InterfaceSystem.storeArgument d)).map (StoredArgument.read memory) =
        (passed.map storeArgument).map (StoredArgument.read memory) ↔
      ∀ i p, passed[i]? = some p → p.lvalue ≠ d.isReference i → memory p.storage = p.value := by
  simp only [List.ext_getElem?_iff, List.getElem?_map, List.getElem?_mapIdx, Option.map_map]
  refine forall_congr' fun i => ?_
  cases passed[i]? with
  | none => simp
  | some p =>
    simp only [Option.map_some, Option.some.injEq, Function.comp_apply, forall_eq']
    exact read_eq_iff memory i p

/-- At the call, both read the same. -/
theorem read_passed (memory : VariableId → α) (arguments : List Argument) :
    ((passArguments memory arguments).mapIdx (InterfaceSystem.storeArgument d)).map (StoredArgument.read memory) =
      ((passArguments memory arguments).map storeArgument).map (StoredArgument.read memory) := by
  refine (read_all_eq_iff memory _).mpr fun i p hp _ => ?_
  obtain ⟨a, -, rfl⟩ := List.mem_map.mp (List.mem_of_getElem? hp)
  rfl

/-! ## Calls -/

/-- What a call through the message query does to the calls. -/
def messageCall (d : QueryDeployment) (s : Calls (MessageTask α) α β) (sender : ComponentId) (arguments : List Argument) :
    Calls (MessageTask α) α β :=
  let passed := passArguments s.memory arguments
  let calls := { s with callbacks := s.callbacks + 1 }
  let lifetime := d.lifetimes.createWeakPtr sender
  if d.mutualExecutor sender then
    (calls.notifyListener (d.listener d.receiver) .onInvoke sender d.receiver .request).startHandler d.handler
      (passed.map storeArgument)
      { receivingExecutor := none, lifetime, targetComponent := sender, senderComponent := d.receiver, msgInfo := d.messageType,
        callback := s.callbacks }
  else
    (calls.enqueueWork d.handlerExecutor (.request
      { handler := d.handler
        data := { arguments := passed.map storeArgument, callback := s.callbacks, receiverExecutor := d.defaultExecutor sender,
                  lifetime, receiver := sender, sender := d.receiver }
        passed })).notifyListener (d.listener d.receiver) .onEnqueue sender d.receiver .request

/-- What a call through the interface query does to the calls. -/
def interfaceCall (d : QueryDeployment) (s : Calls (InterfaceTask α) α β) (sender : ComponentId) (arguments : List Argument) :
    Calls (InterfaceTask α) α β :=
  let stored := (passArguments s.memory arguments).mapIdx (InterfaceSystem.storeArgument d)
  let calls := { s with callbacks := s.callbacks + 1 }
  let lifetime := d.lifetimes.createWeakPtr sender
  if d.allowDirectCallAsync d.receiver && d.mutualExecutor sender then
    (calls.notifyListener (d.listener d.receiver) .onInvoke sender d.receiver .request).startHandler d.handler stored
      { receivingExecutor := none, lifetime, targetComponent := sender, senderComponent := d.receiver, msgInfo := d.queryInfo,
        callback := s.callbacks }
  else
    (calls.enqueueWork d.handlerExecutor (.request
      { linkedQuery := d.impl
        data := { arguments := stored, callback := s.callbacks, receiverExecutor := d.defaultExecutor sender, lifetime,
                  receiver := sender, sender := d.receiver } })).notifyListener (d.listener d.receiver) .onEnqueue sender d.receiver .request

/-- A call that is direct only where that is allowed does the same on both sides. -/
theorem link_call (s : Calls (MessageTask α) α β) {sender : ComponentId} (arguments : List Argument)
    (h : d.mutualExecutor sender = true → d.allowDirectCallAsync d.receiver = true) :
    interfaceCall d (linkCalls d s) sender arguments = linkCalls d (messageCall d s sender arguments) := by
  unfold interfaceCall messageCall
  by_cases hmutual : d.mutualExecutor sender = true
  · simp only [hmutual, h hmutual, Bool.and_self, if_true]
    have hread : ∀ memory, memory = s.memory →
        ((passArguments s.memory arguments).mapIdx (InterfaceSystem.storeArgument d)).map (StoredArgument.read memory) =
          ((passArguments s.memory arguments).map storeArgument).map (StoredArgument.read memory) := by
      rintro _ rfl
      exact read_passed s.memory arguments
    have hmemory := memory_notifyListener { s with callbacks := s.callbacks + 1 } (d.listener d.receiver) .onInvoke sender d.receiver .request
    rw [link_startHandler _ d.handler (hread _ hmemory), link_notifyListener]
    rfl
  · simp only [hmutual, Bool.and_false, if_false, Bool.false_eq_true]
    rw [link_notifyListener, link_enqueueWork]
    rfl

/-- A direct call that is not allowed is seen on one side only. -/
theorem trace_call_ne (s : Calls (MessageTask α) α β) {sender : ComponentId} (arguments : List Argument)
    (hmutual : d.mutualExecutor sender = true) (hallow : d.allowDirectCallAsync d.receiver = false) :
    (messageCall d s sender arguments).trace ≠ (interfaceCall d (linkCalls d s) sender arguments).trace := by
  intro heq
  have hlength := congrArg List.length heq
  unfold interfaceCall messageCall at hlength
  simp only [hmutual, hallow, Bool.false_eq_true, Bool.false_and, if_true, if_false] at hlength
  cases hl : d.listener d.receiver with
  | none => simp [hl, Calls.notifyListener, Calls.startHandler, Calls.record, Calls.enqueueWork, linkCalls] at hlength
  | some l => simp [hl, Calls.notifyListener, Calls.startHandler, Calls.record, Calls.enqueueWork, linkCalls] at hlength

/-! ## The worlds -/

/-- The components are as they were deployed, as far as calls go. -/
structure Deployed (d : QueryDeployment) (w : World) : Prop where
  atRest : AtRest w
  defaultExecutor : ∀ c, (w.component c).defaultExecutor = d.defaultExecutor c
  listener : ∀ c, (w.component c).listener = d.listener c

theorem deployed_new : Deployed d (World.new d.component fun _ => 1) := ⟨fun _ => rfl, fun _ => rfl, fun _ => rfl⟩

theorem Deployed.unharmed {w w' : World} (h : Deployed d w) (hu : Unharmed w w') (hcached : w'.cached = w.cached) : Deployed d w' where
  atRest c := hcached ▸ h.atRest c
  defaultExecutor c := hu.component ▸ h.defaultExecutor c
  listener c := hu.component ▸ h.listener c

/-- What holds of the world of the message query, and of its references. -/
structure MessageWorld (d : QueryDeployment) (published : Bool) (w : World) (refs : ComponentId → MonoRef) : Prop where
  deployed : Deployed d w
  held : ∀ c, 0 < w.others c
  sound : ∀ c, QuerySound c w { kind := .async, id := d.messageType, ref := refs c }
  resolve : published = true → ∀ c, w.resolve .async d.messageType c = some
    { receiver := d.receiver, handler := d.handler, executor := d.handlerExecutor, mutualExecutor := d.mutualExecutor c }
  unpublished : published = false → w = World.new d.component (fun _ => 1) ∧ ∀ c, refs c = {}

theorem messageWorld_of_lookup {published : Bool} {w w' : World} {refs : ComponentId → MonoRef} (h : MessageWorld d published w refs)
    (hp : published = true) {sender : ComponentId} {ref : MonoRef} (hu : Unharmed w w') (hcached : w'.cached = w.cached)
    (hsound : QuerySound sender w' { kind := .async, id := d.messageType, ref := ref }) :
    MessageWorld d published w' (Function.update refs sender ref) where
  deployed := h.deployed.unharmed hu hcached
  held c := hu.others ▸ h.held c
  sound c := by
    by_cases hc : c = sender
    · subst hc
      rwa [Function.update_self]
    · rw [Function.update_of_ne hc]
      exact querySound_of_grows (h.sound c) h.deployed.atRest (h.held c) (hu.grows hcached)
  resolve _ c := ((hu.alike hcached).resolve ..).trans (h.resolve hp c)
  unpublished hunpublished := absurd (hp.symm.trans hunpublished) Bool.noConfusion

/-- A call through the message query, once the handler is published. -/
theorem message_call {s : MessageSystem α β} (h : MessageWorld d s.published s.world s.refs) (hp : s.published = true)
    (sender : ComponentId) (arguments : List Argument) :
    ∃ w refs, s.call d sender arguments = some { s with world := w, refs := refs, calls := messageCall d s.calls sender arguments } ∧
      MessageWorld d s.published w refs := by
  have hlookup := query_lookedUp (h.sound sender) h.deployed.atRest
  obtain ⟨hanswer, hdescribes⟩ := hlookup.describes _ (h.resolve hp sender)
  have hworld := messageWorld_of_lookup h hp hlookup.unharmed rfl hlookup.sound
  refine ⟨_, _, ?_, hworld⟩
  have hlistener := hworld.deployed.listener d.receiver
  have hexecutor := hworld.deployed.defaultExecutor sender
  obtain ⟨⟨answer, ref, w'⟩, hout⟩ : ∃ out, (s.refs sender).lookup .async d.messageType sender (fun _ => [])
      (s.world.seenBy (s.refs sender).receiver.toList) = out := ⟨_, rfl⟩
  simp only [hout] at hanswer hdescribes hlistener hexecutor ⊢
  simp only [MessageSystem.call, hout, MessageSystem.execute, RequestPorts.execute, hanswer, hdescribes.receiver, MonoRef.mutualExecutor,
    hdescribes.receiverExecutor, messageCall]
  rw [show ref.sameExecutor = d.mutualExecutor sender from hdescribes.mutualExecutor]
  split
  · simp only [hlistener, Option.map_some]
  · simp only [hlistener, hexecutor, Option.map_some]

/-- A call before the handler is published aborts. -/
theorem message_call_unpublished {s : MessageSystem α β} (h : MessageWorld d s.published s.world s.refs) (hp : s.published = false)
    (sender : ComponentId) (arguments : List Argument) : s.call d sender arguments = none := by
  have hlookup := query_lookedUp (h.sound sender) h.deployed.atRest
  obtain ⟨hworld, hrefs⟩ := h.unpublished hp
  have hnone : s.world.resolve .async d.messageType sender = none := by
    rw [hworld]
    rfl
  have hanswer := hlookup.answer_of_new (by rw [hrefs sender])
  rw [hnone] at hanswer
  obtain ⟨⟨answer, ref, w'⟩, hout⟩ : ∃ out, (s.refs sender).lookup .async d.messageType sender (fun _ => [])
      (s.world.seenBy (s.refs sender).receiver.toList) = out := ⟨_, rfl⟩
  simp only [hout] at hanswer
  simp only [MessageSystem.call, hout, MessageSystem.execute, hanswer, Option.map_none]

/-- The query in a proxy. -/
def link (d : QueryDeployment) (c : ComponentId) : LinkedQuery :=
  { linkedQuery := d.impl
    linkedHandlingComponent := d.receiver
    linkedExecutor := d.handlerExecutor
    sendingComponent := c
    sendingLifetime := d.lifetimes.createWeakPtr c
    callDirectly := d.allowDirectCallAsync d.receiver && d.mutualExecutor c }

/-- What holds of the world of the interface query, of its references and of the proxies. -/
structure InterfaceWorld (d : QueryDeployment) (s : InterfaceSystem α β) : Prop where
  deployed : Deployed d s.world
  held : ∀ c, 0 < s.world.others c
  sound : ∀ c, InterfaceSound c s.world { id := d.interfaceType, life := d.lifetimes.createWeakPtr c, ref := s.refs c }
  resolve : s.published = true → s.world.sole Component.lookupInterface d.interfaceType = some (d.receiver, d.impl) ∧
    s.world.implemented d.impl = true ∧
    s.queries d.impl = { handler := some d.handler, handlingComponent := some d.receiver, handlingExecutor := some d.handlerExecutor }
  proxies : s.published = true → ∀ c, (s.refs c).localInterfaceProxy.isSome = true → s.proxies c = some (link d c)
  unpublished : s.published = false → s.world = World.new d.component (fun _ => 1) ∧ ∀ c, s.refs c = {}

theorem interfaceWorld_of_lookup {s : InterfaceSystem α β} (h : InterfaceWorld d s) (hp : s.published = true) {w' : World}
    {sender : ComponentId} {ref : InterfaceRef} (hu : Unharmed s.world w') (hcached : w'.cached = s.world.cached)
    (hsound : InterfaceSound sender w' { id := d.interfaceType, life := d.lifetimes.createWeakPtr sender, ref := ref })
    (calls : Calls (InterfaceTask α) α β) :
    InterfaceWorld d { s with
      world := w', refs := Function.update s.refs sender ref, proxies := Function.update s.proxies sender (some (link d sender)),
      calls := calls } where
  deployed := h.deployed.unharmed hu hcached
  held c := hu.others ▸ h.held c
  sound c := by
    by_cases hc : c = sender
    · subst hc
      simp only [Function.update_self]
      exact hsound
    · simp only [Function.update_of_ne hc]
      exact interfaceSound_of_grows (h.sound c) (hu.grows hcached)
  resolve _ := by
    obtain ⟨hsole, himpl, hquery⟩ := h.resolve hp
    exact ⟨((hu.alike hcached).sole ..).trans hsole, hu.implemented ▸ himpl, hquery⟩
  proxies _ c hproxy := by
    by_cases hc : c = sender
    · subst hc
      exact Function.update_self ..
    · simp only [Function.update_of_ne hc] at hproxy ⊢
      exact h.proxies hp c hproxy
  unpublished hunpublished := absurd (hp.symm.trans hunpublished) Bool.noConfusion

/-- What a lookup answers when the interface is published. -/
theorem answer_interfaceRef {owner : ComponentId} {w w' : World} {r : LifetimeInterfaceRef} (h : InterfaceSound owner w r) (hrest : AtRest w)
    {c : ComponentId} {impl : InterfaceId} (hsole : w.sole Component.lookupInterface r.id = some (c, impl)) {answer : Option InterfaceProxy}
    {ref : InterfaceRef}
    (hout : r.ref.lookup r.id owner r.life (fun _ => []) (w.seenBy r.ref.receiver.toList) = some (answer, ref, w')) :
    answer = some ⟨impl, owner, r.life⟩ := by
  unfold InterfaceRef.lookup at hout
  split at hout
  · rename_i hhit
    simp only [Bool.and_eq_true, Bool.not_eq_true'] at hhit
    exact (Prod.mk.inj (Option.some.inj hout)).1 ▸ (h.coherent hhit.1 hhit.2 c impl hsole).2
  · rcases InterfaceRefAux.refetched r.id owner r.life (fun _ => []) (w := w.seenBy r.ref.receiver.toList) (r := r.ref)
      (fun _ => count_toList ..) with ⟨answer', ref', w'', hout', hre⟩ | ⟨hnone, -⟩
    · obtain ⟨rfl, -⟩ := Prod.mk.inj (Option.some.inj (hout'.symm.trans hout))
      rw [hre.answer]
      exact InterfaceRefAux.resolveInterface_of_sole owner r.life (((alike_seenBy hrest (held_toList h.held)).sole ..).trans hsole)
    · rw [hnone] at hout
      cases hout

theorem execute_link (s : InterfaceSystem α β) (h : Deployed d s.world) (hquery : s.queries d.impl =
      { handler := some d.handler, handlingComponent := some d.receiver, handlingExecutor := some d.handlerExecutor })
    (sender : ComponentId) (arguments : List Argument) :
    s.execute d (link d sender) arguments = some { s with calls := interfaceCall d s.calls sender arguments } := by
  simp only [InterfaceSystem.execute, RequestPorts.execute, link, hquery, Option.map_some, h.listener, h.defaultExecutor, interfaceCall]

/-- A call through the interface query, once the handler is published. -/
theorem interface_call {s : InterfaceSystem α β} (h : InterfaceWorld d s) (hp : s.published = true) (sender : ComponentId)
    (arguments : List Argument) :
    ∃ s', s.call d sender arguments = some s' ∧ s'.calls = interfaceCall d s.calls sender arguments ∧ s'.published = s.published ∧
      InterfaceWorld d s' := by
  obtain ⟨hsole, himpl, hquery⟩ := h.resolve hp
  rcases interface_resolves (h.sound sender) h.deployed.atRest with ⟨r', w', hresolve, hu, hcached, hsound, -⟩ | ⟨-, hnot⟩
  swap
  · exact absurd ⟨_, _, hsole, himpl⟩ hnot
  obtain ⟨⟨answer, ref, w''⟩, hout, heq⟩ := Option.map_eq_some_iff.mp hresolve
  obtain ⟨rfl, rfl⟩ := Prod.mk.inj heq
  obtain rfl := answer_interfaceRef (h.sound sender) h.deployed.atRest hsole hout
  have hworld := interfaceWorld_of_lookup h hp hu hcached hsound (interfaceCall d s.calls sender arguments)
  refine ⟨{ s with
    world := { w'' with cached := s.world.cached }
    refs := Function.update s.refs sender ref
    proxies := Function.update s.proxies sender (some (link d sender))
    calls := interfaceCall d s.calls sender arguments }, ?_, rfl, rfl, hworld⟩
  have hcopy : InterfaceSystem.copyQuery d s.world d.impl (s.queries d.impl) sender (d.lifetimes.createWeakPtr sender) =
      some (link d sender) := by
    simp only [InterfaceSystem.copyQuery, hquery, h.deployed.defaultExecutor, link, QueryDeployment.mutualExecutor]
    cases d.allowDirectCallAsync d.receiver <;> simp [eq_comm]
  have hproxy : (if (s.refs sender).localInterfaceProxy.isSome && !s.world.expired (s.refs sender).resolvedReceivers then s.proxies sender
      else InterfaceSystem.copyQuery d s.world d.impl (s.queries d.impl) sender (d.lifetimes.createWeakPtr sender)) =
        some (link d sender) := by
    split
    · rename_i hhit
      exact h.proxies hp sender (Bool.and_eq_true _ _ ▸ hhit).1
    · exact hcopy
  simp only [InterfaceSystem.call, hout, Option.bind_some, hproxy]
  exact execute_link { s with
    world := { w'' with cached := s.world.cached }
    refs := Function.update s.refs sender ref
    proxies := Function.update s.proxies sender (some (link d sender)) } hworld.deployed hquery sender arguments

/-- A call before the handler is published goes through a null pointer. -/
theorem interface_call_unpublished {s : InterfaceSystem α β} (h : InterfaceWorld d s) (hp : s.published = false) (sender : ComponentId)
    (arguments : List Argument) : s.call d sender arguments = none := by
  obtain ⟨hworld, hrefs⟩ := h.unpublished hp
  have hnone : ∀ life, (s.world.seenBy []).resolveInterface d.interfaceType sender life = none := by
    intro life
    rw [hworld]
    rfl
  simp only [InterfaceSystem.call, hrefs sender, InterfaceRef.lookup, Option.isSome_none, Bool.false_and, Bool.false_eq_true, if_false,
    Option.toList_none]
  rcases InterfaceRefAux.refetched d.interfaceType sender (d.lifetimes.createWeakPtr sender) (fun _ => []) (w := s.world.seenBy [])
    (r := {}) (fun _ => rfl) with ⟨answer, ref, w', hout, hre⟩ | ⟨hout, -⟩
  · rw [hout, Option.bind_some, hre.answer, hnone, Option.bind_none]
  · rw [hout, Option.bind_none]

/-! ## Publishing -/

/-- What a `publish` and the end of its `publish_dependencies` make of the handler's component, in a world without other publications. -/
structure PublishedAs (d : QueryDeployment) (w : World) (id : MessageId) (comp : Component) (w' : World) : Prop where
  deployed : Deployed d w'
  receivers : w'.broker.receivers id = [d.receiver]
  component : w'.component d.receiver = comp
  others : w'.others = w.others
  implemented : w'.implemented = w.implemented

theorem publish_publishDependencies {w : World} (h : Deployed d w) (halive : w.alive d.receiver = true) (hbroker : w.broker = Broker.empty)
    (id : MessageId) {f : Component → Component} (hdefault : ∀ comp, (f comp).defaultExecutor = comp.defaultExecutor)
    (hlistener : ∀ comp, (f comp).listener = comp.listener)
    (hchecks : (f (w.component d.receiver)).postPublishChecks.all w.implemented = true) :
    ∃ w', ((w.publish d.receiver id f).bind fun w => w.publishDependencies d.receiver) = some w' ∧
      PublishedAs d w id { f (w.component d.receiver) with published := true } w' := by
  refine ⟨{ w with
    broker := w.broker.associate id d.receiver
    component := Function.update w.component d.receiver { f (w.component d.receiver) with published := true } }, ?_, ?_, ?_, ?_, rfl, rfl⟩
  · rw [World.publish, if_pos halive, Option.bind_some, World.publishDependencies, if_pos]
    · simp only [World.update, Function.update_idem, Function.update_self]
    · simp only [World.update, Function.update_self, hchecks]
  · refine ⟨h.atRest, fun c => ?_, fun c => ?_⟩
    · by_cases hc : c = d.receiver
      · subst hc
        simp only [Function.update_self, hdefault, h.defaultExecutor]
      · simp only [Function.update_of_ne hc, h.defaultExecutor]
    · by_cases hc : c = d.receiver
      · subst hc
        simp only [Function.update_self, hlistener, h.listener]
      · simp only [Function.update_of_ne hc, h.listener]
  · rw [hbroker]
    exact Broker.receivers_store_self ..
  · exact Function.update_self ..

theorem PublishedAs.sole {w w' : World} {id : MessageId} {comp : Component} (h : PublishedAs d w id comp w') (hheld : 0 < w.others d.receiver)
    {γ : Type*} (ask : Component → MessageId → Option γ) : w'.sole ask id = (ask comp id).map fun x => (d.receiver, x) := by
  rw [World.sole, h.receivers]
  simp only [(alive_of_atRest h.deployed.atRest).mpr (h.others ▸ hheld), if_true, h.component]

theorem message_publish {s : MessageSystem α β} (h : MessageWorld d s.published s.world s.refs) (hp : s.published = false) :
    ∃ w, s.publish d = some { s with world := w, published := true } ∧ MessageWorld d true w s.refs := by
  obtain ⟨hworld, hrefs⟩ := h.unpublished hp
  obtain ⟨w, hw, hpublished⟩ := publish_publishDependencies h.deployed (hworld ▸ rfl) (hworld ▸ rfl) d.messageType
    (f := fun comp => { comp with
      asyncHandlers := Function.update comp.asyncHandlers d.messageType (some d.handler)
      asyncExecutorOverrides := Function.update comp.asyncExecutorOverrides d.messageType d.executorOverride }.pushDependency
        .exported .asyncMono d.messageType) (fun _ => rfl) (fun _ => rfl) (hworld ▸ rfl)
  refine ⟨w, ?_, hpublished.deployed, fun c => hpublished.others ▸ h.held c, fun c => ?_, fun _ c => ?_, nofun⟩
  · simp only [MessageSystem.publish, hp, Bool.false_eq_true, if_false, World.publishAsyncQuery, hw, Option.map_some]
  · rw [hrefs c]
    exact ⟨nofun, nofun, nofun⟩
  · have hexecutor : w.handlerExecutor d.receiver d.messageType = d.handlerExecutor := by
      simp [World.handlerExecutor, hpublished.component, Component.lookupExecutorOverride, Component.pushDependency, h.deployed.defaultExecutor,
        QueryDeployment.handlerExecutor]
    simp [World.resolve, hpublished.sole (h.held d.receiver), hexecutor, hpublished.deployed.defaultExecutor, QueryKind.lookupHandler,
      Component.lookupAsyncHandler, Component.pushDependency, QueryDeployment.mutualExecutor]

theorem interface_publish {s : InterfaceSystem α β} (h : InterfaceWorld d s) (hp : s.published = false) :
    ∃ s', s.publish d = some s' ∧ s'.calls = s.calls ∧ s'.published = true ∧ InterfaceWorld d s' := by
  obtain ⟨hworld, hrefs⟩ := h.unpublished hp
  obtain ⟨w, hw, hpublished⟩ := publish_publishDependencies
    (w := { s.world with implemented := Function.update s.world.implemented d.impl true })
    ⟨h.deployed.atRest, h.deployed.defaultExecutor, h.deployed.listener⟩ (hworld ▸ rfl) (hworld ▸ rfl) d.interfaceType
    (f := fun comp => { comp with
      interfaces := Function.update comp.interfaces d.interfaceType (some d.impl)
      postPublishChecks := comp.postPublishChecks ++ [d.impl] }.pushDependency .exported .interface d.interfaceType)
    (fun _ => rfl) (fun _ => rfl) (by rw [hworld]; simp [Component.pushDependency, World.new, QueryDeployment.component])
  refine ⟨{ s with
    world := w
    queries := Function.update s.queries d.impl
      { handler := some d.handler, handlingComponent := some d.receiver, handlingExecutor := some d.handlerExecutor }
    published := true }, ?_, rfl, rfl, hpublished.deployed, fun c => hpublished.others ▸ h.held c, fun c => ?_, fun _ => ⟨?_, ?_, ?_⟩,
    fun _ c hproxy => ?_, nofun⟩
  · simp only [InterfaceSystem.publish, hp, Bool.false_eq_true, if_false, World.publishInterface, hw, Option.map_some]
    cases hx : d.executorOverride <;> simp [QueryDeployment.handlerExecutor, hx, h.deployed.defaultExecutor]
  · rw [hrefs c]
    exact ⟨nofun, nofun, nofun, nofun⟩
  · simp [hpublished.sole (h.held d.receiver), Component.lookupInterface, Component.pushDependency]
  · rw [hpublished.implemented]
    exact Function.update_self ..
  · exact Function.update_self ..
  · rw [hrefs c] at hproxy
    cases hproxy

/-! ## The two systems -/

/-- What holds of a queued request. -/
def Consistent (d : QueryDeployment) (published : Bool) : QueuedTask (MessageTask α) β → Prop
  | .request r => published = true ∧ r.handler = d.handler ∧ r.data.arguments = r.passed.map storeArgument
  | .response _ => True

/-- The two systems are in step. -/
structure Coupled (d : QueryDeployment) (m : MessageSystem α β) (f : InterfaceSystem α β) : Prop where
  message : MessageWorld d m.published m.world m.refs
  interface : InterfaceWorld d f
  published : f.published = m.published
  calls : f.calls = linkCalls d m.calls
  tasks : ∀ x, (m.calls.executors x).All (Consistent d m.published)

theorem coupled_init (memory : VariableId → α) :
    Coupled (β := β) d (MessageSystem.init d memory) (InterfaceSystem.init d memory) where
  message := ⟨deployed_new, fun _ => Nat.one_pos, fun _ => ⟨nofun, nofun, nofun⟩, nofun, fun _ => ⟨rfl, fun _ => rfl⟩⟩
  interface := ⟨deployed_new, fun _ => Nat.one_pos, fun _ => ⟨nofun, nofun, nofun, nofun⟩, nofun, nofun, fun _ => ⟨rfl, fun _ => rfl⟩⟩
  published := rfl
  calls := rfl
  tasks _ _ h := nomatch h

variable {m m' : MessageSystem α β} {f f' : InterfaceSystem α β}

/-- The calls of both sides have changed in the same way. -/
theorem Coupled.withCalls (h : Coupled d m f) {calls : Calls (MessageTask α) α β} {calls' : Calls (InterfaceTask α) α β}
    (htasks : ∀ x, (calls.executors x).All (Consistent d m.published)) (hcalls : calls' = linkCalls d calls) :
    Coupled d { m with calls := calls } { f with calls := calls' } where
  message := h.message
  interface := ⟨h.interface.deployed, h.interface.held, h.interface.sound, h.interface.resolve, h.interface.proxies, h.interface.unpublished⟩
  published := h.published
  calls := hcalls
  tasks := htasks

/-! ## What a step keeps -/

theorem executors_notifyListener {ρ : Type*} (s : Calls ρ α β) (listener : Option ListenerId) (callback : ListenerCallback)
    (sender receiver : ComponentId) (type : MessageType) :
    (s.notifyListener listener callback sender receiver type).executors = s.executors := by
  cases listener <;> rfl

theorem executors_deliver {ρ : Type*} (lifetimes : Lifetimes) (s : Calls ρ α β) (data : ResponseData β) :
    (s.deliver lifetimes data).executors = s.executors := by
  unfold Calls.deliver
  split <;> rfl

theorem consistent_messageCall {published : Bool} {s : Calls (MessageTask α) α β} (h : ∀ x, (s.executors x).All (Consistent d published))
    (hp : published = true) (sender : ComponentId) (arguments : List Argument) :
    ∀ x, ((messageCall d s sender arguments).executors x).All (Consistent d published) := by
  unfold messageCall
  split
  · intro x
    rw [show ∀ (s : Calls (MessageTask α) α β) handler arguments result, (s.startHandler handler arguments result).executors = s.executors
      from fun _ _ _ _ => rfl, executors_notifyListener]
    exact h x
  · intro x
    rw [executors_notifyListener]
    refine Executor.all_update h ((h _).enqueueWork ?_) x
    exact ⟨hp, rfl, rfl⟩

theorem consistent_operatorCall {published : Bool} {s : Calls (MessageTask α) α β}
    (h : ∀ x, (s.executors x).All (Consistent d published)) (lifetimes : Lifetimes) (listener : ComponentId → Option ListenerId)
    (r : CallbackResult) (value : β) : ∀ x, ((s.operatorCall lifetimes listener r value).executors x).All (Consistent d published) := by
  intro x
  simp only [Calls.operatorCall, AnswerPorts.operatorCall]
  cases r.receivingExecutor with
  | some y =>
    simp only [executors_notifyListener]
    refine Executor.all_update h ((h y).enqueueWork ?_) x
    trivial
  | none =>
    simp only
    split
    · exact h x
    · rw [executors_deliver, executors_notifyListener]
      exact h x

/-- A step that only changes the calls, in the same way on both sides, keeps them in step. -/
theorem Coupled.rel_map (h : Coupled d m f) {calls : Option (Calls (MessageTask α) α β)}
    (htasks : ∀ c, calls = some c → ∀ x, (c.executors x).All (Consistent d m.published)) :
    Option.Rel (Coupled d) (calls.map fun calls => { m with calls := calls })
      ((calls.map (linkCalls d)).map fun calls => { f with calls := calls }) := by
  cases calls with
  | none => exact .none
  | some c => exact .some (h.withCalls (htasks c rfl) rfl)

theorem Coupled.publish (h : Coupled d m f) : Option.Rel (Coupled d) (m.publish d) (f.publish d) := by
  by_cases hp : m.published = true
  · rw [MessageSystem.publish, if_pos hp, InterfaceSystem.publish, if_pos (h.published.trans hp)]
    exact .none
  · rw [Bool.not_eq_true] at hp
    obtain ⟨w, hm, hmessage⟩ := message_publish h.message hp
    obtain ⟨f', hf, hcalls, hpublished, hinterface⟩ := interface_publish h.interface (h.published.trans hp)
    rw [hm, hf]
    refine .some ⟨hmessage, hinterface, hpublished, hcalls.trans h.calls, fun x task htask => ?_⟩
    have hconsistent := h.tasks x task htask
    cases task with
    | request r => exact ⟨rfl, hconsistent.2⟩
    | response data => trivial

theorem Coupled.call (h : Coupled d m f) {sender : ComponentId} (arguments : List Argument)
    (hdirect : m.published = true → d.mutualExecutor sender = true → d.allowDirectCallAsync d.receiver = true) :
    Option.Rel (Coupled d) (m.call d sender arguments) (f.call d sender arguments) := by
  by_cases hp : m.published = true
  · obtain ⟨w, refs, hm, hmessage⟩ := message_call h.message hp sender arguments
    obtain ⟨f', hf, hcalls, hpublished, hinterface⟩ := interface_call h.interface (h.published.trans hp) sender arguments
    rw [hm, hf]
    refine .some ⟨hmessage, hinterface, hpublished.trans h.published, ?_, consistent_messageCall h.tasks hp sender arguments⟩
    rw [hcalls, h.calls, link_call _ arguments (hdirect hp)]
  · rw [Bool.not_eq_true] at hp
    rw [message_call_unpublished h.message hp, interface_call_unpublished h.interface (h.published.trans hp)]
    exact .none

theorem consistent_takeNext {published : Bool} {s calls : Calls (MessageTask α) α β}
    (h : ∀ x, (s.executors x).All (Consistent d published)) {x : ExecutorId} {task : QueuedTask (MessageTask α) β}
    (hnext : s.takeNext x = some (task, calls)) :
    Consistent d published task ∧ (∀ y, (calls.executors y).All (Consistent d published)) ∧ calls.memory = s.memory ∧
      calls.trace = s.trace := by
  obtain ⟨⟨task', e⟩, he, hp⟩ := Option.map_eq_some_iff.mp hnext
  obtain ⟨rfl, rfl⟩ := Prod.mk.inj hp
  obtain ⟨htask, hrest⟩ := (h x).next he
  exact ⟨htask, Executor.all_update h hrest, rfl, rfl⟩

theorem Coupled.runNext (h : Coupled d m f) {x : ExecutorId} (hpace : m.KeepsPace d (.runNext x)) :
    Option.Rel (Coupled d) (m.step d (.runNext x)) (f.step d (.runNext x)) := by
  simp only [MessageSystem.step, InterfaceSystem.step, h.calls, link_takeNext]
  cases hnext : m.calls.takeNext x with
  | none => exact .none
  | some p =>
    obtain ⟨task, calls⟩ := p
    obtain ⟨htask, htasks, hmemory, -⟩ := consistent_takeNext h.tasks hnext
    cases task with
    | response data =>
      refine .some (h.withCalls ?_ (link_deliver d.lifetimes calls data).symm)
      rwa [executors_deliver]
    | request r =>
      obtain ⟨hp, hhandler, harguments⟩ := htask
      obtain ⟨-, -, hquery⟩ := h.interface.resolve (h.published.trans hp)
      have hread := (read_all_eq_iff (d := d) calls.memory r.passed).mpr (hmemory ▸ hpace r calls hnext)
      rw [← harguments] at hread
      simp only [Option.map_some, Option.bind_some, MessageSystem.runTask, InterfaceSystem.runTask, linkTask, linkRequest, hquery, hhandler]
      have hstart := link_startHandler (d := d) calls d.handler hread
        { receivingExecutor := some r.data.receiverExecutor, lifetime := r.data.lifetime, targetComponent := r.data.receiver,
          senderComponent := r.data.sender, msgInfo := d.messageType, callback := r.data.callback }
      exact .some (h.withCalls htasks hstart.symm)

/-- A step that keeps pace is one on both sides. -/
theorem Coupled.step (h : Coupled d m f) {a : QueryAction α β} (hpace : m.KeepsPace d a) :
    Option.Rel (Coupled d) (m.step d a) (f.step d a) := by
  cases a with
  | publish => exact h.publish
  | assign x value =>
    have hcalls : { f.calls with memory := Function.update f.calls.memory x value } =
        linkCalls d { m.calls with memory := Function.update m.calls.memory x value } := by
      rw [h.calls]
      rfl
    refine .some (h.withCalls ?_ hcalls)
    exact h.tasks
  | call sender arguments => exact h.call arguments hpace
  | respond i value =>
    have hlistener : (fun c => (f.world.component c).listener) = fun c => (m.world.component c).listener := by
      funext c
      rw [h.interface.deployed.listener, h.message.deployed.listener]
    simp only [MessageSystem.step, InterfaceSystem.step, h.calls, hlistener, link_respond]
    refine h.rel_map fun c hc => ?_
    obtain ⟨r, hr, rfl⟩ := Option.map_eq_some_iff.mp hc
    exact consistent_operatorCall (s := { m.calls with outstanding := m.calls.outstanding.eraseIdx i }) h.tasks _ _ r value
  | startBatch x =>
    simp only [MessageSystem.step, InterfaceSystem.step, h.calls, link_startBatch]
    refine h.rel_map fun c hc => ?_
    unfold Calls.startBatch at hc
    split at hc
    · obtain rfl := Option.some.inj hc
      exact Executor.all_update h.tasks (h.tasks x).swap
    · cases hc
  | runNext x => exact h.runNext hpace
  | finishBatch x =>
    simp only [MessageSystem.step, InterfaceSystem.step, h.calls, link_finishBatch]
    refine h.rel_map fun c hc => ?_
    unfold Calls.finishBatch at hc
    split at hc
    · cases hc
    · obtain rfl := Option.some.inj hc
      exact Executor.all_update h.tasks (h.tasks x).clear

/-- A step that does not keep pace is seen. -/
theorem Coupled.differs (h : Coupled d m f) {a : QueryAction α β} (hpace : ¬m.KeepsPace d a) :
    (m.step d a).map (fun m => m.calls.trace) ≠ (f.step d a).map fun f => f.calls.trace := by
  cases a with
  | call sender arguments =>
    simp only [MessageSystem.KeepsPace] at hpace
    push Not at hpace
    obtain ⟨hp, hmutual, hallow⟩ := hpace
    obtain ⟨w, refs, hm, -⟩ := message_call h.message hp sender arguments
    obtain ⟨f', hf, hcalls, -⟩ := interface_call h.interface (h.published.trans hp) sender arguments
    simp only [MessageSystem.step, InterfaceSystem.step, hm, hf, Option.map_some, hcalls, h.calls]
    intro heq
    exact trace_call_ne m.calls arguments hmutual (Bool.eq_false_iff.mpr hallow) (Option.some.inj heq)
  | runNext x =>
    simp only [MessageSystem.KeepsPace] at hpace
    push Not at hpace
    obtain ⟨r, calls, hnext, i, p, hi, hkept, hchanged⟩ := hpace
    obtain ⟨⟨hp, hhandler, harguments⟩, -, hmemory, -⟩ := consistent_takeNext h.tasks hnext
    obtain ⟨-, -, hquery⟩ := h.interface.resolve (h.published.trans hp)
    have hread := mt (read_all_eq_iff (d := d) m.calls.memory r.passed).mp fun hall => hchanged (hall i p hi hkept)
    simp only [MessageSystem.step, InterfaceSystem.step, h.calls, link_takeNext, hnext, Option.map_some, Option.bind_some,
      MessageSystem.runTask, InterfaceSystem.runTask, linkTask, linkRequest, hquery, hhandler, harguments]
    intro heq
    have hlast := List.append_cancel_left (Option.some.inj heq)
    simp only [List.cons.injEq, TraceEvent.invoked.injEq, true_and, and_true] at hlast
    exact hread (hmemory ▸ hlast.symm)
  | _ => exact absurd trivial hpace

end QueryTracesAux

open QueryTracesAux

variable {α β : Type*}

/-- The message query and the interface query show the same trace, or abort, after every part of a run exactly when each of its steps
keeps pace. -/
theorem queryTraces_agree_iff (d : QueryDeployment) (memory : VariableId → α) (acts : List (QueryAction α β)) :
    (∀ pre, pre <+: acts → (run (MessageSystem.step d) (MessageSystem.init d memory) pre).map (fun m => m.calls.trace) =
        (run (InterfaceSystem.step d) (InterfaceSystem.init d memory) pre).map fun f => f.calls.trace) ↔
      AllSteps (MessageSystem.step d) (MessageSystem.KeepsPace d) (MessageSystem.init d memory) acts := by
  refine lockstep_iff (R := Coupled d) ?_ ?_ ?_ (coupled_init memory)
  · intro m f h
    rw [h.calls]
    rfl
  · intro m f a h hpace
    exact h.step hpace
  · intro m f a h hpace
    exact h.differs hpace

/-- Component 2 calls the query of component 1 with a variable of its own and changes the variable before the request is run. -/
theorem queryTraces_differ :
    ¬∀ (d : QueryDeployment) (memory : VariableId → Nat) (acts : List (QueryAction Nat Nat)),
      (run (MessageSystem.step d) (MessageSystem.init d memory) acts).map (fun m => m.calls.trace) =
        (run (InterfaceSystem.step d) (InterfaceSystem.init d memory) acts).map fun f => f.calls.trace := by
  intro h
  have hrun := h { defaultExecutor := fun c => c, listener := fun _ => none, allowDirectCallAsync := fun _ => true,
                   lifetimes := fun _ => 0, receiver := 1, handler := 0, executorOverride := none, isReference := fun _ => false,
                   messageType := 0, interfaceType := 1, impl := 0, queryInfo := 2 } (fun _ => 5)
    [.publish, .call 2 [⟨0, true⟩], .assign 0 6, .startBatch 1, .runNext 1]
  exact absurd hrun (by decide)

end Minicomps
