import Mathlib.Data.List.Perm.Basic
import Minicomps.FilterChains
import Minicomps.Theorems.InterfaceRef
import Minicomps.Theorems.MonoRef

/-!
# Every call goes through all filters

Both ways to build the chain, and both ways to pass on, give the composed chain. A reference to a message query notices a new head of
the chain by its list, and whatever it had captured before leads to a chain that is still there; the proxies of an interface query need
to notice nothing. A request that waits is handled with what the variables among its arguments hold by then.
-/

namespace Minicomps

open Transition

variable {α β : Type*}

namespace FilterChainsAux

open World

variable {γ : Type*} {base : List α → β} {chainBase : γ → β} {h f : FunctionId} {installed : List FunctionId}
  {decisions : FunctionId → Decision β} {args : γ} {x : Handling γ β}

/-! ## Chains -/

/-- No filter was installed. -/
theorem handledBy_base (base : γ → β) (h : FunctionId) (decisions : FunctionId → Decision β) (args : γ) :
    HandledBy base h [] decisions args { visits := [(h, args)], answers := [base args] } where
  order := List.prefix_refl _
  started := List.cons_ne_nil _ _
  goesOn i f hf := by simp at hf
  handled := by simp
  arguments v hv := by rw [List.mem_singleton.mp hv]
  answers := rfl

/-- The last filter lets the call pass. -/
theorem handledBy_passOn (hx : HandledBy chainBase h installed decisions args x) (hf : decisions f = .passOn) :
    HandledBy chainBase h (f :: installed) decisions args { visits := (f, args) :: x.visits, answers := x.answers } where
  order := by
    rw [List.map_cons, List.cons_append]
    exact (List.prefix_cons_inj f).mpr hx.order
  started := List.cons_ne_nil _ _
  goesOn i g hg hi := by
    rw [List.length_cons] at hi ⊢
    cases i with
    | zero =>
      obtain rfl : f = g := by simpa using hg
      have hpos : 0 < x.visits.length := List.length_pos_iff.mpr hx.started
      simp [hf, hpos]
    | succ i =>
      rw [Nat.add_lt_add_iff_right] at hi ⊢
      exact hx.goesOn i g (by simpa using hg) hi
  handled := by
    rw [List.length_cons, List.length_cons, Nat.add_right_cancel_iff, hx.handled]
    simp [hf]
  arguments v hv := by
    rcases List.mem_cons.mp hv with rfl | hv
    · rfl
    · exact hx.arguments v hv
  answers := by
    rw [composedAnswer, hf]
    exact hx.answers

/-- The last filter answers. -/
theorem handledBy_answer (base : γ → β) (h : FunctionId) (installed : List FunctionId) (args : γ) {value : β}
    (hf : decisions f = .answer value) :
    HandledBy base h (f :: installed) decisions args { visits := [(f, args)], answers := [value] } where
  order := ⟨installed ++ [h], rfl⟩
  started := List.cons_ne_nil _ _
  goesOn i g hg hi := by
    obtain rfl : i = 0 := by simpa using hi
    obtain rfl : f = g := by simpa using hg
    simp [hf]
  handled := by simp [hf]
  arguments v hv := by rw [List.mem_singleton.mp hv]
  answers := by rw [composedAnswer, hf]

/-- A call is handled with one set of arguments. -/
theorem eq_of_handledBy {installed' : List FunctionId} {decisions' : FunctionId → Decision β} {args' : γ}
    (hx : HandledBy chainBase h installed decisions args x) (hx' : HandledBy chainBase h installed' decisions' args' x) : args = args' := by
  obtain ⟨v, hv⟩ := List.exists_mem_of_ne_nil x.visits hx.started
  exact (hx.arguments v hv).symm.trans (hx'.arguments v hv)

theorem invokeMessageHandler_cons (base : γ → β) (decisions : FunctionId → Decision β) (f : FunctionId) {previous : SyncHandler}
    (hprevious : previous ≠ []) (arguments : γ) :
    invokeMessageHandler base decisions (f :: previous) arguments =
      match decisions f with
      | .passOn =>
        { visits := (f, arguments) :: (invokeMessageHandler base decisions previous arguments).visits
          answers := (invokeMessageHandler base decisions previous arguments).answers }
      | .answer value => { visits := [(f, arguments)], answers := [value] } := by
  obtain ⟨g, previous, rfl⟩ := List.exists_cons_of_ne_nil hprevious
  cases hf : decisions f <;> simp [invokeMessageHandler, hf, Decision.messageFilter]

theorem invokeInterfaceHandler_cons (base : γ → β) (decisions : FunctionId → Decision β) (f : FunctionId) {previous : SyncHandler}
    (hprevious : previous ≠ []) (arguments : γ) :
    invokeInterfaceHandler base decisions (f :: previous) arguments =
      match decisions f with
      | .passOn =>
        { visits := (f, arguments) :: (invokeInterfaceHandler base decisions previous arguments).visits
          answers := (invokeInterfaceHandler base decisions previous arguments).answers }
      | .answer value => { visits := [(f, arguments)], answers := [value] } := by
  obtain ⟨g, previous, rfl⟩ := List.exists_cons_of_ne_nil hprevious
  cases hf : decisions f <;> simp [invokeInterfaceHandler, hf, Decision.interfaceFilter]

/-- What `prepend_async_query_filter` has built is the composed chain. -/
theorem message_handledBy (base : γ → β) (h : FunctionId) (decisions : FunctionId → Decision β) (args : γ) (installed : List FunctionId) :
    HandledBy base h installed decisions args (invokeMessageHandler base decisions (installed ++ [h]) args) := by
  induction installed with
  | nil => exact handledBy_base base h decisions args
  | cons f installed ih =>
    rw [List.cons_append, invokeMessageHandler_cons base decisions f (by simp)]
    cases hf : decisions f with
    | passOn => exact handledBy_passOn ih hf
    | answer value => exact handledBy_answer base h installed args hf

/-- What `prepend_filter` has built is the composed chain. -/
theorem interface_handledBy (base : γ → β) (h : FunctionId) (decisions : FunctionId → Decision β) (args : γ) (installed : List FunctionId) :
    HandledBy base h installed decisions args (invokeInterfaceHandler base decisions (installed ++ [h]) args) := by
  induction installed with
  | nil => exact handledBy_base base h decisions args
  | cons f installed ih =>
    rw [List.cons_append, invokeInterfaceHandler_cons base decisions f (by simp)]
    cases hf : decisions f with
    | passOn => exact handledBy_passOn ih hf
    | answer value => exact handledBy_answer base h installed args hf

/-! ## Calls and requests -/

section Calls

variable {calls queued : List (PassedCall α β)} {handled : List (FilteredHandling α β)} {call : PassedCall α β}
  {handling : Handling (List α) β}

theorem callsFiltered_nil (base : List α → β) (h : FunctionId) : CallsFiltered base h [] [] ([] : List (FilteredHandling α β)) :=
  ⟨fun _ hx => absurd hx List.not_mem_nil, fun _ hx => absurd hx List.not_mem_nil, List.Perm.refl _⟩

/-- A call that is made is one that is queued to begin with. -/
theorem callsFiltered_queue (hs : CallsFiltered base h calls queued handled) (call : PassedCall α β) :
    CallsFiltered base h (calls ++ [call]) (queued ++ [call]) handled := by
  refine ⟨hs.filtered, hs.installed, ?_⟩
  rw [← List.append_assoc]
  exact hs.accounted.append_right [call]

/-- One of the queued calls is handled. -/
theorem callsFiltered_handle {i : Nat} (hs : CallsFiltered base h calls queued handled) (hcall : queued[i]? = some call)
    (hhandling : HandledBy base h installed call.decisions call.values handling) (hinstalled : call.installedBefore <:+ installed) :
    CallsFiltered base h calls (queued.eraseIdx i) (handled ++ [⟨call, installed, handling⟩]) := by
  have hmem : ∀ x ∈ handled ++ [⟨call, installed, handling⟩], x ∈ handled ∨ x = ⟨call, installed, handling⟩ := by simp
  refine ⟨fun x hx => ?_, fun x hx => ?_, ?_⟩
  · rcases hmem x hx with hold | rfl
    · exact hs.filtered x hold
    · exact hhandling
  · rcases hmem x hx with hold | rfl
    · exact hs.installed x hold
    · exact hinstalled
  · obtain ⟨hi, rfl⟩ := List.getElem?_eq_some_iff.mp hcall
    rw [List.map_append, List.append_assoc]
    exact ((List.getElem_cons_eraseIdx_perm hi).append_left _).trans hs.accounted

/-- A call that is made is handled at once. -/
theorem callsFiltered_direct (hs : CallsFiltered base h calls queued handled)
    (hhandling : HandledBy base h installed call.decisions call.values handling) (hinstalled : call.installedBefore <:+ installed) :
    CallsFiltered base h (calls ++ [call]) queued (handled ++ [⟨call, installed, handling⟩]) := by
  have hlast : (queued ++ [call])[queued.length]? = some call := by simp
  have hqueued : (queued ++ [call]).eraseIdx queued.length = queued := by
    rw [List.eraseIdx_append_of_length_le (Nat.le_refl _), Nat.sub_self]
    exact List.append_nil queued
  have hboth := callsFiltered_handle (callsFiltered_queue hs call) hlast hhandling hinstalled
  rwa [hqueued] at hboth

end Calls

/-! ## The message query -/

/-- What holds of a message query in every run. -/
structure MessageInv (base : List α → β) (h : FunctionId) (id : MessageId) (owner c : ComponentId) (s : MessageFilters α β) : Prop where
  sound : MonoRef.Sound .async id owner s.state
  published : ∃ address, s.state.world.sole Component.lookupAsyncHandler id = some (c, address) ∧
    s.handlers address = s.installed ++ [h]
  requests : ∀ r ∈ s.requests, s.handlers r.handler = r.call.installedBefore ++ [h]
  stored : ∀ r ∈ s.requests, r.arguments = r.call.arguments.map storeArgument
  calls : CallsFiltered base h s.calls (s.requests.map MessageRequest.call) s.handled

section Message

variable {id : MessageId} {owner c : ComponentId} {s s' : MessageFilters α β}

/-- A lookup finds the head of the chain, whatever the reference had cached. -/
theorem lookup_published {st : RefState MonoRef} (hsound : MonoRef.Sound .async id owner st) {address : HandlerId}
    (hsole : st.world.sole Component.lookupAsyncHandler id = some (c, address)) (lost : ComponentId → List ComponentId) :
    ∃ ref world, MonoRef.lookup .async id owner lost st.world st.ref = (some address, ref, world) ∧ ref.receiver = some c ∧
      MonoRef.Sound .async id owner ⟨world, ref⟩ ∧ world.sole Component.lookupAsyncHandler id = some (c, address) := by
  obtain ⟨⟨answer, ref, world⟩, hout⟩ : ∃ out, MonoRef.lookup .async id owner lost st.world st.ref = out := ⟨_, rfl⟩
  have hlive : st.world.SoleLive id := ⟨c, (sole_eq_some hsole).1, (sole_eq_some hsole).2.1⟩
  have hcorrect : MonoRef.Correct .async id owner st (.lookup lost) :=
    (MonoRefAux.correct_iff_notStale hsound).mpr fun hstale => hstale.2.2 hlive
  simp only [MonoRef.Correct, hout] at hcorrect
  obtain ⟨hsame, hanswer, hdescribes⟩ := hcorrect
  obtain ⟨res, hres, hreceiver, hhandler⟩ :
      ∃ res, st.world.resolve .async id owner = some res ∧ res.receiver = c ∧ res.handler = address :=
    ⟨_, Option.map_eq_some_iff.mpr ⟨(c, address), hsole, rfl⟩, rfl, rfl⟩
  have hstep : MonoRef.step .async id owner st (.lookup lost) = some ⟨world, ref⟩ := by
    simp only [MonoRef.step, RefState.step, hout, Option.map_some]
  refine ⟨ref, world, ?_, ?_, MonoRefAux.sound_step hsound hstep, ?_⟩
  · rw [hout, hanswer, hres, Option.map_some, hhandler]
  · rw [(hdescribes res hres).receiver, hreceiver]
  · obtain ⟨⟨d, a⟩, hd, hmap⟩ := Option.map_eq_some_iff.mp (hsame.trans hres)
    have hd' : d = res.receiver := congrArg Resolution.receiver hmap
    have ha : a = res.handler := congrArg Resolution.handler hmap
    rw [show world.sole Component.lookupAsyncHandler id = some (d, a) from hd, hd', ha, hreceiver, hhandler]

/-- A new filter is the head of the chain. -/
theorem sole_prepend {w w' : World} {previous address : HandlerId}
    (hsole : w.sole Component.lookupAsyncHandler id = some (c, previous)) (hw : w.prependAsyncQueryFilter c id address = some w') :
    w'.sole Component.lookupAsyncHandler id = some (c, address) := by
  obtain ⟨hreceivers, halive, -⟩ := sole_eq_some hsole
  unfold prependAsyncQueryFilter at hw
  split at hw
  · cases hw
  · have hw' := Option.some.inj hw
    have hreceivers' : w'.broker.receivers id = [c] := by
      rw [← hw', ← hreceivers]
      exact (Broker.invalidate_spec w.broker id).2.2.1
    have halive' : w'.alive c = true := by
      rw [← hw']
      exact halive
    have hhandler : Component.lookupAsyncHandler (w'.component c) id = some address := by
      rw [← hw']
      simp [Component.lookupAsyncHandler, World.update]
    rw [sole_of_receivers hreceivers' halive', hhandler]
    rfl

/-- What a request's handler reads is what was passed exactly if the variables have kept their values. -/
theorem read_stored_iff (hs : MessageInv base h id owner c s) {r : MessageRequest α β} (hr : r ∈ s.requests) :
    r.arguments.map (StoredArgument.read s.memory) = r.call.values ↔ ArgumentsKept s.memory r.call.arguments := by
  rw [hs.stored r hr, List.map_map]
  exact readArguments_eq_iff r.call.arguments

theorem message_execute (hs : MessageInv base h id owner c s) {address : HandlerId} (haddress : s.handlers address = s.installed ++ [h])
    (call : FilterCall β) :
    MessageInv base h id owner c ({ s with calls := s.calls ++ [s.pass call] }.execute base address (s.pass call)) := by
  simp only [MessageFilters.execute, RequestPorts.execute]
  split
  · refine ⟨hs.sound, hs.published, hs.requests, hs.stored, callsFiltered_direct hs.calls ?_ (List.suffix_refl _)⟩
    have hread : ((s.pass call).arguments.map storeArgument).map (StoredArgument.read s.memory) = (s.pass call).values := by
      rw [List.map_map]
      exact (readArguments_eq_iff _).mpr (argumentsKept_passArguments s.memory call.arguments)
    rw [hread, haddress]
    exact message_handledBy base h _ _ s.installed
  · refine ⟨hs.sound, hs.published, ?_, ?_, ?_⟩
    · intro r hr
      rcases List.mem_append.mp hr with hold | hnew
      · exact hs.requests r hold
      · rw [List.mem_singleton.mp hnew]
        exact haddress
    · intro r hr
      rcases List.mem_append.mp hr with hold | hnew
      · exact hs.stored r hold
      · rw [List.mem_singleton.mp hnew]
    · have hqueued := callsFiltered_queue hs.calls (s.pass call)
      simpa using hqueued

theorem message_call (hs : MessageInv base h id owner c s) (lost : ComponentId → List ComponentId) (call : FilterCall β) :
    ∃ s', s.step base id owner c (.call lost call) = some s' ∧ MessageInv base h id owner c s' := by
  obtain ⟨address, hsole, haddress⟩ := hs.published
  obtain ⟨ref, world, hout, hreceiver, hsound, hsole'⟩ := lookup_published hs.sound hsole lost
  refine ⟨_, by simp only [MessageFilters.step, hout, hreceiver]; rfl, ?_⟩
  have hresolved : MessageInv base h id owner c { s with state := ⟨world, ref⟩ } :=
    ⟨hsound, ⟨address, hsole', haddress⟩, hs.requests, hs.stored, hs.calls⟩
  exact message_execute hresolved haddress call

/-- A request is run: its call has been handled, with the values it has read. -/
theorem message_run (hs : MessageInv base h id owner c s) {i : Nat} {r : MessageRequest α β} (hr : s.requests[i]? = some r)
    (hkept : ArgumentsKept s.memory r.call.arguments) :
    MessageInv base h id owner c ({ s with requests := s.requests.eraseIdx i }.handle base r.handler r.arguments r.call) := by
  have hmem := List.mem_of_getElem? hr
  refine ⟨hs.sound, hs.published, fun q hq => hs.requests q (List.mem_of_mem_eraseIdx hq),
    fun q hq => hs.stored q (List.mem_of_mem_eraseIdx hq), ?_⟩
  have hcall : (s.requests.map MessageRequest.call)[i]? = some r.call := by rw [List.getElem?_map, hr]; rfl
  have hhandled := callsFiltered_handle hs.calls hcall (message_handledBy base h r.call.decisions r.call.values r.call.installedBefore)
    (List.suffix_refl _)
  rw [← hs.requests r hmem, ← (read_stored_iff hs hmem).mpr hkept] at hhandled
  simpa [MessageFilters.handle, List.eraseIdx_map] using hhandled

theorem message_step {a : MessageFilterAction α β} (hs : MessageInv base h id owner c s) (hC : s.KeepsArguments a)
    (hstep : s.step base id owner c a = some s') : MessageInv base h id owner c s' := by
  cases a with
  | assign x value =>
    obtain rfl := Option.some.inj hstep
    exact ⟨hs.sound, hs.published, hs.requests, hs.stored, hs.calls⟩
  | world op =>
    obtain ⟨w, hw, hstep⟩ := Option.bind_eq_some_iff.mp hstep
    split at hstep
    · rename_i hsame
      obtain rfl := Option.some.inj hstep
      obtain ⟨address, hsole, haddress⟩ := hs.published
      have hsound := MonoRefAux.sound_of_frame hs.sound (step_frame hw id) (step_cached hw)
      exact ⟨hsound, ⟨address, hsame.trans hsole, haddress⟩, hs.requests, hs.stored, hs.calls⟩
    · cases hstep
  | prepend f address =>
    obtain ⟨previous, hprevious, hstep⟩ := Option.bind_eq_some_iff.mp hstep
    obtain ⟨w, hw, hstep⟩ := Option.bind_eq_some_iff.mp hstep
    split at hstep
    · rename_i hfree
      obtain rfl := Option.some.inj hstep
      obtain ⟨head, hsole, hhead⟩ := hs.published
      obtain rfl : previous = head := Option.some.inj (hprevious.symm.trans (sole_eq_some hsole).2.2)
      have hop : s.state.world.step (.prependAsyncQueryFilter c id address) = some w := hw
      refine ⟨MonoRefAux.sound_of_frame hs.sound (step_frame hop id) (step_cached hop), ⟨address, sole_prepend hsole hw, ?_⟩, ?_,
        hs.stored, hs.calls⟩
      · show Function.update s.handlers address (f :: s.handlers previous) address = f :: s.installed ++ [h]
        rw [Function.update_self, hhead]
        rfl
      · -- The objects that requests have captured are other ones, and are kept.
        intro r hr
        have hcaptured := hs.requests r hr
        have hne : r.handler ≠ address := by
          intro heq
          rw [heq, hfree] at hcaptured
          exact absurd hcaptured.symm (by simp)
        exact (Function.update_of_ne hne ..).trans hcaptured
    · cases hstep
  | resolve lost =>
    obtain ⟨address, hsole, haddress⟩ := hs.published
    obtain ⟨ref, world, hout, -, hsound, hsole'⟩ := lookup_published hs.sound hsole lost
    simp only [MessageFilters.step, hout] at hstep
    obtain rfl := Option.some.inj hstep
    exact ⟨hsound, ⟨address, hsole', haddress⟩, hs.requests, hs.stored, hs.calls⟩
  | call lost call =>
    obtain ⟨t, ht, hinv⟩ := message_call hs lost call
    exact Option.some.inj (ht.symm.trans hstep) ▸ hinv
  | run i =>
    obtain ⟨r, hr, rfl⟩ := Option.map_eq_some_iff.mp hstep
    exact message_run hs hr (hC r hr)

theorem message_filtered (hs : MessageInv base h id owner c s) : s.Filtered base h id owner c where
  calls := hs.calls
  answers lost call := by
    obtain ⟨s', hs', -⟩ := message_call hs lost call
    rw [hs', Option.isSome_some]
  runs i hi := by
    simp only [MessageFilters.step, List.getElem?_eq_getElem hi, Option.map_some, Option.isSome_some]

/-- A request that is run when one of its variables has been written to is handled with other values than those passed. -/
theorem message_misread (hs : MessageInv base h id owner c s) {a : MessageFilterAction α β} (hC : ¬s.KeepsArguments a) :
    ∃ s', s.step base id owner c a = some s' ∧ ¬s'.Filtered base h id owner c := by
  cases a with
  | assign | world | prepend | resolve | call => exact absurd trivial hC
  | run i =>
    simp only [MessageFilters.KeepsArguments, not_forall] at hC
    obtain ⟨r, hr, hchanged⟩ := hC
    refine ⟨_, congrArg (Option.map _) hr, fun hfiltered => hchanged ?_⟩
    have hmem := List.mem_of_getElem? hr
    have hasked := hfiltered.calls.filtered _ (List.mem_append_right _ (List.mem_singleton.mpr rfl))
    have hdone := message_handledBy base h r.call.decisions (r.arguments.map (StoredArgument.read s.memory)) r.call.installedBefore
    rw [← hs.requests r hmem] at hdone
    exact (read_stored_iff hs hmem).mp (eq_of_handledBy hdone hasked)

theorem message_published {st : RefState MonoRef} (hsound : MonoRef.Sound .async id owner st) {address : HandlerId}
    (hsole : st.world.sole Component.lookupAsyncHandler id = some (c, address)) (base : List α → β) (h : FunctionId)
    (memory : VariableId → α) : MessageInv base h id owner c (MessageFilters.published st address h memory) where
  sound := hsound
  published := ⟨address, hsole, by simp [MessageFilters.published]⟩
  requests _ hr := absurd hr List.not_mem_nil
  stored _ hr := absurd hr List.not_mem_nil
  calls := callsFiltered_nil base h

end Message

/-! ## The interface query -/

/-- What holds of an interface query in every run. -/
structure InterfaceInv (base : List α → β) (h : FunctionId) (id : MessageId) (owner : ComponentId) (life : LifetimeWeakPtr)
    (impl : InterfaceId) (s : InterfaceFilters α β) : Prop where
  sound : InterfaceRef.Sound id owner life s.state
  published : ∃ c, s.state.world.sole Component.lookupInterface id = some (c, impl)
  implemented : s.state.world.implemented impl = true
  handler : s.handler = s.installed ++ [h]
  requests : ∀ r ∈ s.requests, r.call.installedBefore <:+ s.installed
  stored : ∀ r ∈ s.requests, r.arguments = r.call.arguments.mapIdx (storeParameter s.isReference)
  calls : CallsFiltered base h s.calls (s.requests.map LinkedRequest.call) s.handled

section Interface

variable {id : MessageId} {owner : ComponentId} {life : LifetimeWeakPtr} {impl : InterfaceId} {kind : InterfaceQueryKind}
  {s s' : InterfaceFilters α β}

theorem implemented_lookup {st : RefState InterfaceRef} (hholds : st.world.Holds st.ref.receiver) {lost : ComponentId → List ComponentId}
    {answer : Option InterfaceProxy} {ref : InterfaceRef} {world : World}
    (hout : InterfaceRef.lookup id owner life lost st.world st.ref = some (answer, ref, world)) :
    world.implemented = st.world.implemented := by
  unfold InterfaceRef.lookup at hout
  split at hout
  · obtain ⟨-, -, rfl⟩ := Option.some.inj hout
    rfl
  · have hf : st.world.Fetches id (st.world.fetchReceiver id lost st.ref.receiver) := fetches lost hholds
    have hdrops := hf.drops.implemented
    simp only [InterfaceRef.refetch] at hout
    split at hout
    · obtain ⟨-, -, rfl⟩ := Option.some.inj hout
      exact hdrops
    · split at hout
      · obtain ⟨-, -, rfl⟩ := Option.some.inj hout
        exact hdrops
      · obtain ⟨proxy, -, hout⟩ := Option.bind_eq_some_iff.mp hout
        obtain ⟨-, -, rfl⟩ := Option.some.inj hout
        exact hdrops

/-- A lookup finds a proxy that is linked to the published query. -/
theorem withProxy_spec (hs : InterfaceInv base h id owner life impl s) (lost : ComponentId → List ComponentId)
    (f : InterfaceFilters α β → InterfaceFilters α β) :
    ∃ st, s.withProxy id owner life impl lost f = some (f { s with state := st }) ∧
      InterfaceInv base h id owner life impl { s with state := st } := by
  obtain ⟨c, hsole⟩ := hs.published
  have hfine : InterfaceRef.Fine id s.state (.lookup lost) := by
    refine ⟨fun hstale => ?_, fun ⟨_, d, impl', hsole', himpl'⟩ => ?_⟩
    · rw [hstale.2.2] at hsole
      cases hsole
    · obtain ⟨-, rfl⟩ := Prod.mk.inj (Option.some.inj (hsole.symm.trans hsole'))
      rw [hs.implemented] at himpl'
      cases himpl'
  obtain ⟨answer, ref, world, hout, hanswer, hsame⟩ := (InterfaceRefAux.correct_iff_fine hs.sound).mpr hfine
  have hresolve := InterfaceRefAux.resolveInterface_of_sole owner life hsole
  have hstep : InterfaceRef.step id owner life s.state (.lookup lost) = some ⟨world, ref⟩ := by
    simp only [InterfaceRef.step, RefState.step, hout, Option.map_some]
  have hpublished : ∃ c, world.sole Component.lookupInterface id = some (c, impl) := by
    obtain ⟨⟨d, impl'⟩, hd, hmap⟩ := Option.map_eq_some_iff.mp (hsame.trans hresolve)
    exact ⟨d, hd.trans (by rw [show impl' = impl from congrArg InterfaceProxy.linkedInterface hmap])⟩
  refine ⟨⟨world, ref⟩, ?_, InterfaceRefAux.sound_step hs.sound hstep, hpublished, ?_, hs.handler, hs.requests, hs.stored, hs.calls⟩
  · rw [InterfaceFilters.withProxy, hout, hanswer, hresolve]
    exact if_pos rfl
  · exact (congrFun (implemented_lookup hs.sound.holds hout) impl).trans hs.implemented

theorem interface_prependFilter (hs : InterfaceInv base h id owner life impl s) (f : FunctionId) :
    InterfaceInv base h id owner life impl (s.prependFilter f) where
  sound := hs.sound
  published := hs.published
  implemented := hs.implemented
  handler := congrArg (f :: ·) hs.handler
  requests r hr := (hs.requests r hr).trans (List.suffix_cons f s.installed)
  stored := hs.stored
  calls := hs.calls

/-- The lists are replaced, but not what is in them. -/
theorem invalidate_foldl (ids : List MessageId) (b : Broker) :
    b.Extends (ids.foldl Broker.invalidate b) ∧ ∀ id, (ids.foldl Broker.invalidate b).receivers id = b.receivers id := by
  induction ids generalizing b with
  | nil => exact ⟨Broker.Extends.refl b, fun _ => rfl⟩
  | cons i ids ih =>
    obtain ⟨hext, -, hsame, hothers⟩ := Broker.invalidate_spec b i
    obtain ⟨hext', hsame'⟩ := ih (b.invalidate i)
    refine ⟨hext.trans hext', fun id => (hsame' id).trans ?_⟩
    by_cases hid : id = i
    · rw [hid, hsame]
    · exact Broker.receivers_of_untouched hext (hothers id hid)

theorem interface_invalidate (hs : InterfaceInv base h id owner life impl s) (c : ComponentId) :
    InterfaceInv base h id owner life impl { s with state := { s.state with world := s.state.world.invalidateInterfaces c } } := by
  obtain ⟨hext, hsame⟩ := invalidate_foldl
    (s.state.world.broker.activeLookups.keys.filter fun id => ((s.state.world.component c).interfaces id).isSome) s.state.world.broker
  refine ⟨InterfaceRefAux.sound_of_frame hs.sound (frame_broker hext) rfl, ?_, hs.implemented, hs.handler, hs.requests, hs.stored, hs.calls⟩
  obtain ⟨d, hd⟩ := hs.published
  obtain ⟨hreceivers, halive, hask⟩ := sole_eq_some hd
  refine ⟨d, ?_⟩
  have hreceivers' : (s.state.world.invalidateInterfaces c).broker.receivers id = [d] := (hsame id).trans hreceivers
  have halive' : (s.state.world.invalidateInterfaces c).alive d = true := halive
  have hask' : Component.lookupInterface ((s.state.world.invalidateInterfaces c).component d) id = some impl := hask
  show (s.state.world.invalidateInterfaces c).sole Component.lookupInterface id = some (d, impl)
  rw [sole_of_receivers hreceivers' halive', hask']
  rfl

/-- What a request's handler reads is what was passed exactly if the variables have kept their values. -/
theorem read_linked_iff (hs : InterfaceInv base h id owner life impl s) {r : LinkedRequest α β} (hr : r ∈ s.requests) :
    r.arguments.map (StoredArgument.read s.memory) = r.call.values ↔ ParametersKept s.isReference s.memory r.call.arguments := by
  rw [hs.stored r hr]
  exact readParameters_eq_iff s.isReference r.call.arguments

theorem interface_execute (hs : InterfaceInv base h id owner life impl s) (call : FilterCall β) :
    InterfaceInv base h id owner life impl
      (InterfaceFilters.execute base kind owner (s.pass call) { s with calls := s.calls ++ [s.pass call] }) := by
  have hdirect : InterfaceInv base h id owner life impl
      (InterfaceFilters.handle base { s with calls := s.calls ++ [s.pass call] }
        ((s.pass call).arguments.mapIdx (storeParameter s.isReference)) (s.pass call)) := by
    refine ⟨hs.sound, hs.published, hs.implemented, hs.handler, hs.requests, hs.stored,
      callsFiltered_direct hs.calls ?_ (List.suffix_refl _)⟩
    have hread : ((s.pass call).arguments.mapIdx (storeParameter s.isReference)).map (StoredArgument.read s.memory) =
        (s.pass call).values :=
      (readParameters_eq_iff s.isReference _).mpr (parametersKept_passArguments s.isReference s.memory call.arguments)
    rw [hread, hs.handler]
    exact interface_handledBy base h _ _ s.installed
  cases kind with
  | sync | volatileSync => exact hdirect
  | async =>
    simp only [InterfaceFilters.execute, RequestPorts.execute]
    split
    · exact hdirect
    · refine ⟨hs.sound, hs.published, hs.implemented, hs.handler, ?_, ?_, ?_⟩
      · intro r hr
        rcases List.mem_append.mp hr with hold | hnew
        · exact hs.requests r hold
        · rw [List.mem_singleton.mp hnew]
          exact List.suffix_refl _
      · intro r hr
        rcases List.mem_append.mp hr with hold | hnew
        · exact hs.stored r hold
        · rw [List.mem_singleton.mp hnew]
      · have hqueued := callsFiltered_queue hs.calls (s.pass call)
        simpa using hqueued

theorem interface_call (kind : InterfaceQueryKind) (hs : InterfaceInv base h id owner life impl s)
    (lost : ComponentId → List ComponentId) (call : FilterCall β) :
    ∃ s', s.step base kind id owner life impl (.call lost call) = some s' ∧ InterfaceInv base h id owner life impl s' := by
  obtain ⟨st, hout, hresolved⟩ := withProxy_spec hs lost fun s =>
    InterfaceFilters.execute base kind owner (s.pass call) { s with calls := s.calls ++ [s.pass call] }
  exact ⟨_, hout, interface_execute hresolved call⟩

/-- A request is run: its call has been handled, with the values it has read. -/
theorem interface_run (hs : InterfaceInv base h id owner life impl s) {i : Nat} {r : LinkedRequest α β} (hr : s.requests[i]? = some r)
    (hkept : ParametersKept s.isReference s.memory r.call.arguments) :
    InterfaceInv base h id owner life impl ({ s with requests := s.requests.eraseIdx i }.handle base r.arguments r.call) := by
  have hmem := List.mem_of_getElem? hr
  refine ⟨hs.sound, hs.published, hs.implemented, hs.handler, fun q hq => hs.requests q (List.mem_of_mem_eraseIdx hq),
    fun q hq => hs.stored q (List.mem_of_mem_eraseIdx hq), ?_⟩
  have hcall : (s.requests.map LinkedRequest.call)[i]? = some r.call := by rw [List.getElem?_map, hr]; rfl
  have hhandled := callsFiltered_handle hs.calls hcall (interface_handledBy base h r.call.decisions r.call.values s.installed)
    (hs.requests r hmem)
  rw [← hs.handler, ← (read_linked_iff hs hmem).mpr hkept] at hhandled
  simpa [InterfaceFilters.handle, List.eraseIdx_map] using hhandled

theorem interface_step {a : InterfaceFilterAction α β} (hs : InterfaceInv base h id owner life impl s) (hC : s.KeepsArguments a)
    (hstep : s.step base kind id owner life impl a = some s') : InterfaceInv base h id owner life impl s' := by
  cases a with
  | assign x value =>
    obtain rfl := Option.some.inj hstep
    exact ⟨hs.sound, hs.published, hs.implemented, hs.handler, hs.requests, hs.stored, hs.calls⟩
  | world op =>
    obtain ⟨w, hw, hstep⟩ := Option.bind_eq_some_iff.mp hstep
    split at hstep
    · rename_i hsame
      obtain rfl := Option.some.inj hstep
      obtain ⟨c, hsole⟩ := hs.published
      have hsound := InterfaceRefAux.sound_of_frame hs.sound (step_frame hw id) (step_cached hw)
      exact ⟨hsound, ⟨c, hsame.trans hsole⟩, World.step_implemented hw hs.implemented, hs.handler, hs.requests, hs.stored, hs.calls⟩
    · cases hstep
  | prepend installer f =>
    cases installer with
    | component c => exact Option.some.inj hstep ▸ interface_prependFilter (interface_invalidate hs c) f
    | query => exact Option.some.inj hstep ▸ interface_prependFilter hs f
    | proxy lost =>
      obtain ⟨st, hout, hresolved⟩ := withProxy_spec hs lost fun s => s.prependFilter f
      exact Option.some.inj (hout.symm.trans hstep) ▸ interface_prependFilter hresolved f
  | resolve lost =>
    obtain ⟨st, hout, hresolved⟩ := withProxy_spec hs lost fun s => s
    exact Option.some.inj (hout.symm.trans hstep) ▸ hresolved
  | call lost call =>
    obtain ⟨t, ht, hinv⟩ := interface_call kind hs lost call
    exact Option.some.inj (ht.symm.trans hstep) ▸ hinv
  | run i =>
    obtain ⟨r, hr, rfl⟩ := Option.map_eq_some_iff.mp hstep
    exact interface_run hs hr (hC r hr)

theorem interface_filtered (hs : InterfaceInv base h id owner life impl s) : s.Filtered base h kind id owner life impl where
  calls := hs.calls
  answers lost call := by
    obtain ⟨s', hs', -⟩ := interface_call kind hs lost call
    rw [hs', Option.isSome_some]
  runs i hi := by
    simp only [InterfaceFilters.step, List.getElem?_eq_getElem hi, Option.map_some, Option.isSome_some]

/-- A request that is run when one of its variables has been written to is handled with other values than those passed. -/
theorem interface_misread (hs : InterfaceInv base h id owner life impl s) {a : InterfaceFilterAction α β} (hC : ¬s.KeepsArguments a) :
    ∃ s', s.step base kind id owner life impl a = some s' ∧ ¬s'.Filtered base h kind id owner life impl := by
  cases a with
  | assign | world | prepend | resolve | call => exact absurd trivial hC
  | run i =>
    simp only [InterfaceFilters.KeepsArguments, not_forall] at hC
    obtain ⟨r, hr, hchanged⟩ := hC
    refine ⟨_, congrArg (Option.map _) hr, fun hfiltered => hchanged ?_⟩
    have hasked := hfiltered.calls.filtered _ (List.mem_append_right _ (List.mem_singleton.mpr rfl))
    have hdone := interface_handledBy base h r.call.decisions (r.arguments.map (StoredArgument.read s.memory)) s.installed
    rw [← hs.handler] at hdone
    exact (read_linked_iff hs (List.mem_of_getElem? hr)).mp (eq_of_handledBy hdone hasked)

theorem interface_published {st : RefState InterfaceRef} (hsound : InterfaceRef.Sound id owner life st) {c : ComponentId}
    (hsole : st.world.sole Component.lookupInterface id = some (c, impl)) (himpl : st.world.implemented impl = true) (base : List α → β)
    (h : FunctionId) (executor : ExecutorId) (direct : Bool) (isReference : Nat → Bool) (memory : VariableId → α) :
    InterfaceInv base h id owner life impl (InterfaceFilters.published st h executor direct isReference memory) where
  sound := hsound
  published := ⟨c, hsole⟩
  implemented := himpl
  handler := rfl
  requests _ hr := absurd hr List.not_mem_nil
  stored _ hr := absurd hr List.not_mem_nil
  calls := callsFiltered_nil base h

end Interface

end FilterChainsAux

open FilterChainsAux

/-- Whatever is installed, and however: in every state of a run no call aborts, every call has been handled or is queued, and every call that
has been handled went through all filters that were installed when it was made (of a message query), or when it was handled (of an interface
query, and among these are all that were installed when it was made), with the values its caller had passed, exactly if every request of the
run was run while the variables it refers to had the values they were passed with. References that were resolved before the installations
make no difference. -/
theorem calls_filtered_iff (base : List α → β) (h : FunctionId) (id : MessageId) (owner : ComponentId) (component : ComponentId → Component)
    (others : ComponentId → Nat) (before : List RefAction) (memory : VariableId → α) :
    (∀ st c address acts, run (MonoRef.step .async id owner) (MonoRef.init component others) before = some st →
      st.world.sole Component.lookupAsyncHandler id = some (c, address) →
      (AllSteps (MessageFilters.step base id owner c) MessageFilters.KeepsArguments (MessageFilters.published st address h memory) acts ↔
        ∀ pre s, pre <+: acts → run (MessageFilters.step base id owner c) (MessageFilters.published st address h memory) pre = some s →
          s.Filtered base h id owner c)) ∧
    ∀ life st c impl kind executor direct isReference acts,
      run (InterfaceRef.step id owner life) (InterfaceRef.init component others) before = some st →
      st.world.sole Component.lookupInterface id = some (c, impl) → st.world.implemented impl = true →
      (AllSteps (InterfaceFilters.step base kind id owner life impl) InterfaceFilters.KeepsArguments
          (InterfaceFilters.published st h executor direct isReference memory) acts ↔
        ∀ pre s, pre <+: acts → run (InterfaceFilters.step base kind id owner life impl)
            (InterfaceFilters.published st h executor direct isReference memory) pre = some s →
          s.Filtered base h kind id owner life impl) := by
  constructor
  · intro st c address acts hst hsole
    have hsound : MonoRef.Sound .async id owner st :=
      run_invariant (fun _ _ _ => MonoRefAux.sound_step) (MonoRefAux.sound_init component others) hst
    exact allSteps_iff_safe (fun _ => message_filtered) (fun _ _ _ => message_step) (fun _ _ hs hC => message_misread hs hC)
      (message_published hsound hsole base h memory)
  · intro life st c impl kind executor direct isReference acts hst hsole himpl
    have hsound : InterfaceRef.Sound id owner life st :=
      run_invariant (fun _ _ _ => InterfaceRefAux.sound_step) (InterfaceRefAux.sound_init component others) hst
    exact allSteps_iff_safe (fun _ => interface_filtered) (fun _ _ _ => interface_step) (fun _ _ hs hC => interface_misread hs hC)
      (interface_published hsound hsole himpl base h executor direct isReference memory)

section Twice

/-- The function that is published adds up its arguments. -/
private def twiceBase (args : List Nat) : Nat := args.foldl (· + ·) 0

/-- Both filters let everything pass but what the first of them answers. -/
private def twiceCall (argument : Argument) (first : Decision Nat) : FilterCall Nat where
  arguments := [argument]
  decisions f := if f = 1 then first else .passOn

/-- The query is published, and resolved by the reference. -/
private def twiceBefore : List RefAction :=
  [.world (.publishAsyncQuery 1 7 100 none), .world (.implement 70), .world (.publishInterface 1 8 70), .lookup fun _ => []]

private def twiceComponent : ComponentId → Component := fun c => { defaultExecutor := c }

/-- Three calls to another executor and two filters. A variable is written to when its request has been run, and what was in a temporary's
place is overwritten before. -/
private def twiceMessage : List (MessageFilterAction Nat Nat) :=
  [.prepend 1 101, .call (fun _ => []) (twiceCall ⟨5, true⟩ .passOn), .prepend 2 102, .call (fun _ => []) (twiceCall ⟨6, false⟩ .passOn),
    .assign 6 0, .run 0, .assign 5 0, .call (fun _ => []) (twiceCall ⟨7, true⟩ (.answer 3)), .run 1, .run 0]

private def twiceInterface : List (InterfaceFilterAction Nat Nat) :=
  [.prepend (.component 1) 1, .call (fun _ => []) (twiceCall ⟨5, true⟩ .passOn), .prepend (.proxy fun _ => []) 2,
    .call (fun _ => []) (twiceCall ⟨6, true⟩ .passOn), .run 0, .assign 5 0, .call (fun _ => []) (twiceCall ⟨7, true⟩ (.answer 3)), .run 1,
    .run 0]

/-- The calls through references that were resolved before the filters were installed. -/
theorem calls_filtered_twice :
    (∃ st, run (MonoRef.step .async 7 0) (MonoRef.init twiceComponent fun _ => 1) twiceBefore = some st ∧
      ∃ s, run (MessageFilters.step twiceBase 7 0 1) (MessageFilters.published st 100 0 id) twiceMessage = some s ∧
        s.Filtered twiceBase 0 7 0 1 ∧
        s.handled.map (fun x => x.handling.visits) = [[(1, [5]), (0, [5])], [(2, [7]), (1, [7])], [(2, [6]), (1, [6]), (0, [6])]]) ∧
    ∃ st, run (InterfaceRef.step 8 0 ⟨0, 0⟩) (InterfaceRef.init twiceComponent fun _ => 1) twiceBefore = some st ∧
      ∃ s, run (InterfaceFilters.step twiceBase .async 8 0 ⟨0, 0⟩ 70) (InterfaceFilters.published st 0 1 true (fun _ => true) id)
          twiceInterface = some s ∧
        s.Filtered twiceBase 0 .async 8 0 ⟨0, 0⟩ 70 ∧
        s.handled.map (fun x => x.handling.visits) =
          [[(2, [5]), (1, [5]), (0, [5])], [(2, [7]), (1, [7])], [(2, [6]), (1, [6]), (0, [6])]] := by
  refine ⟨⟨_, rfl, _, rfl, ?_, rfl⟩, _, rfl, _, rfl, ?_, rfl⟩
  · exact ((calls_filtered_iff twiceBase 0 7 0 twiceComponent (fun _ => 1) twiceBefore id).1 _ 1 100 twiceMessage rfl rfl).mp
      (by decide) twiceMessage _ List.prefix_rfl rfl
  · exact ((calls_filtered_iff twiceBase 0 8 0 twiceComponent (fun _ => 1) twiceBefore id).2 ⟨0, 0⟩ _ 1 70 .async 1 true (fun _ => true)
      twiceInterface rfl rfl rfl).mp (by decide) twiceInterface _ List.prefix_rfl rfl

/-- A variable that is 5 is passed, and set to 50 before the request is run: the function that was published gets 50. -/
theorem calls_filtered_overwritten :
    ∃ st, run (MonoRef.step .async 7 0) (MonoRef.init twiceComponent fun _ => 1) twiceBefore = some st ∧
      ∃ s, run (MessageFilters.step twiceBase 7 0 1) (MessageFilters.published st 100 0 id)
          [.call (fun _ => []) (twiceCall ⟨5, true⟩ .passOn), .assign 5 50, .run 0] = some s ∧
        s.handled.map (fun x => (x.call.values, x.handling.visits)) = [([5], [(0, [50])])] ∧ ¬s.Filtered twiceBase 0 7 0 1 := by
  refine ⟨_, rfl, _, rfl, rfl, fun h => ?_⟩
  have harguments := (h.calls.filtered _ List.mem_cons_self).arguments (0, [50]) List.mem_cons_self
  exact absurd harguments (by decide)

end Twice

end Minicomps
