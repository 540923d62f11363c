import Minicomps.Lib.Transition
import Minicomps.Lemmas.World
import Minicomps.Subscribing
import Minicomps.Theorems.PolyRef

/-!
# When a new subscriber is reached

A lookup may ask a component after its association has become visible and before its handler has. The component is then left out, or
is entered with the handler it had before; and since nothing is associated afterwards, the cache stays valid, as long as it is not
empty. Apart from this every lookup reaches every subscriber, however the steps interleave.
-/

namespace Minicomps

open Transition

namespace SubscribeState

/-- The receivers the lookup still has to go through. -/
def rest (s : SubscribeState) : List ComponentId :=
  match s.lookup with
  | none => []
  | some (.fetched l) => s.world.broker.activeLookups.heap l
  | some (.clearing receivers) => receivers
  | some (.looping receivers) => receivers
  | some (.locked c receivers) => c :: receivers

/-- The subscribers among some components that have not been missed have their entries. -/
def Entered (id : MessageId) (owner : ComponentId) (s : SubscribeState) : Prop :=
  ∀ c ∈ s.passed, c ∉ s.missed → s.world.alive c = true → ∀ h, s.world.receiverHandler id owner c = some h →
    h ∈ s.ref.receiverHandlers

/-- What a step keeps, until it is looked at what is still due. -/
structure Kept (id : MessageId) (owner : ComponentId) (s : SubscribeState) : Prop where
  handle : ∀ l, s.ref.receivers = some l → s.world.HandleOf id l
  /-- The list that was read last, while it is the event's, is what has been gone through and what is left. -/
  list : ∀ l, s.ref.receivers = some l → s.world.broker.activeLookups.find id = some l →
    s.world.broker.activeLookups.heap l = s.passed ++ s.rest
  fetched : ∀ l, s.lookup = some (.fetched l) → s.ref.receivers = some l ∧ s.passed = []
  clearing : ∀ receivers, s.lookup = some (.clearing receivers) → s.passed = []
  /-- As long as the list is the event's, the entries are those of the subscribers gone through. -/
  entered : ∀ l, s.ref.receivers = some l → s.world.broker.activeLookups.find id = some l → s.Entered id owner
  due : s.lookup.isSome = true → ∀ h ∈ s.due, h ∈ s.world.subscribers id owner →
    (h.receivingComponent ∈ s.passed ∧ h ∈ s.ref.receiverHandlers) ∨ h.receivingComponent ∈ s.rest

/-- What holds in every history. -/
structure Inv (id : MessageId) (owner : ComponentId) (s : SubscribeState) : Prop extends Kept id owner s where
  inForce : s.lookup.isSome = true → ∀ h ∈ s.due, h ∈ s.world.subscribers id owner

namespace SubscribeAux

open World PolyRefAux

variable {id : MessageId} {owner : ComponentId} {s s' : SubscribeState} {w : World}

theorem mem_subscribers {h : ReceiverHandler} :
    h ∈ w.subscribers id owner ↔
      h.receivingComponent ∈ w.broker.receivers id ∧ w.alive h.receivingComponent = true ∧
        w.receiverHandler id owner h.receivingComponent = some h := by
  rw [World.subscribers, List.mem_filterMap]
  constructor
  · rintro ⟨c, hc, hentry⟩
    obtain rfl := receiverHandler_receivingComponent hentry
    rw [List.mem_filter] at hc
    exact ⟨hc.1, hc.2, hentry⟩
  · rintro ⟨hmem, halive, hentry⟩
    exact ⟨_, List.mem_filter.mpr ⟨hmem, halive⟩, hentry⟩

theorem inv_init (component : ComponentId → Component) (others : ComponentId → Nat) : Inv id owner (init component others) where
  handle _ h := by cases h
  list _ h := by cases h
  fetched _ h := by cases h
  clearing _ h := by cases h
  entered _ h := by cases h
  due h := by cases h
  inForce h := by cases h

theorem inv_settle (h : Kept id owner s) : Inv id owner (s.settle id owner) where
  handle := h.handle
  list := h.list
  fetched := h.fetched
  clearing := h.clearing
  entered := h.entered
  due hin e he hsub := h.due hin e (List.mem_filter.mp he).1 hsub
  inForce _ _ he := of_decide_eq_true (List.mem_filter.mp he).2

/-- What is left to be gone through does not change under a lookup. -/
theorem rest_world (h : Inv id owner s) (hext : s.world.broker.Extends w.broker) : rest { s with world := w } = s.rest := by
  cases hlookup : s.lookup with
  | none => simp only [rest, hlookup]
  | some stage =>
    cases stage with
    | fetched l =>
      simp only [rest, hlookup]
      exact hext.heap_eq l (h.handle l (h.fetched l hlookup).1).1
    | clearing | looping | locked => simp only [rest, hlookup]

/-- A change of the world that leaves the tables of the components in a list alone as long as the list stays. -/
theorem kept_world (h : Inv id owner s) (hf : Frame id s.world w) : Kept id owner { s with world := w } where
  handle l hl := (h.handle l hl).extends_ hf.extends_
  list l hl hfind := by
    rw [rest_world h hf.extends_]
    exact (hf.extends_.heap_eq l (h.handle l hl).1).trans (h.list l hl (hf.extends_.find_of_lt (h.handle l hl).1 hfind))
  fetched := h.fetched
  clearing := h.clearing
  entered l hl hfind c hc hmissed halive e he := by
    have hfind₀ := hf.extends_.find_of_lt (h.handle l hl).1 hfind
    refine h.entered l hl hfind₀ c hc hmissed (hf.alive_le c halive) e ?_
    rw [← he, receiverHandler_congr (hf.sameAt l hfind₀ hfind)]
  due hin e he _ := by
    rw [rest_world h hf.extends_]
    exact h.due hin e he (h.inForce hin e he)

/-! ## The steps of `subscribe_event` -/

theorem kept_associate {subscription : Subscription} (h : Inv id owner s) (hs : s.associate subscription = some s') :
    Kept id owner s' := by
  unfold associate at hs
  split at hs
  · obtain rfl := Option.some.inj hs
    have hkept := kept_world h (frame_broker (Broker.associate_spec s.world.broker subscription.msgId subscription.component).1)
    exact ⟨hkept.handle, hkept.list, hkept.fetched, hkept.clearing, hkept.entered, hkept.due⟩
  · cases hs

theorem receiverHandler_storeHandler_of_ne {subscription : Subscription} {c : ComponentId}
    (hne : ¬(subscription.msgId = id ∧ c = subscription.component)) :
    (storeHandler subscription w).receiverHandler id owner c = w.receiverHandler id owner c := by
  have hexec : ∀ d, ((storeHandler subscription w).component d).defaultExecutor = (w.component d).defaultExecutor := by
    intro d
    by_cases hd : d = subscription.component
    · subst hd
      rw [storeHandler, component_update_self]
      rfl
    · rw [storeHandler, component_update_of_ne _ _ hd]
  have hhandler : ((storeHandler subscription w).component c).lookupAsyncHandler id = (w.component c).lookupAsyncHandler id := by
    by_cases hc : c = subscription.component
    · subst hc
      have hid : id ≠ subscription.msgId := fun heq => hne ⟨heq.symm, rfl⟩
      rw [storeHandler, component_update_self]
      exact Function.update_of_ne hid ..
    · rw [storeHandler, component_update_of_ne _ _ hc]
  simp only [World.receiverHandler, hhandler, hexec]

/-- A component that stores its handler after it was asked has been missed; any other is asked later. -/
theorem kept_store {subscription : Subscription} (h : Inv id owner s) (hs : s.store id subscription = some s') :
    Kept id owner s' := by
  unfold store at hs
  split at hs
  · obtain rfl := Option.some.inj hs
    refine ⟨h.handle, h.list, h.fetched, h.clearing, ?_,
      fun hin e he _ => h.due hin e he (h.inForce hin e he)⟩
    intro l hl hfind c hc hmissed halive e he
    have hne : ¬(subscription.msgId = id ∧ c = subscription.component) := by
      rintro ⟨hid, rfl⟩
      exact hmissed (by rw [if_pos ⟨hid, hc⟩]; exact List.mem_cons_self)
    refine h.entered l hl hfind c hc (fun hmem => hmissed ?_) halive e ?_
    · change c ∈ if _ then _ else _
      split
      · exact List.mem_cons_of_mem _ hmem
      · exact hmem
    · exact (receiverHandler_storeHandler_of_ne hne).symm.trans he
  · cases hs

/-! ## The steps of a lookup -/

theorem rest_eq_nil (h : s.lookup = none) : s.rest = [] := by
  rw [rest, h]

/-- A valid cache has been made of all receivers of the event. -/
theorem receivers_of_hit (h : Inv id owner s) (hidle : s.lookup = none) (hhit : s.hit = true) :
    s.world.broker.receivers id = s.passed ∧ s.Entered id owner := by
  rw [hit, Bool.and_eq_true, Bool.not_eq_true', Bool.not_eq_true'] at hhit
  cases hl : s.ref.receivers with
  | none =>
    have hvalid := hhit.2
    rw [hl] at hvalid
    cases hvalid
  | some l =>
    have hfind := (h.handle l hl).find_of_valid (hl ▸ hhit.2)
    refine ⟨?_, h.entered l hl hfind⟩
    rw [Broker.receivers_of_find hfind]
    exact (h.list l hl hfind).trans (by rw [rest_eq_nil hidle, List.append_nil])

theorem kept_startLookup (h : Inv id owner s) (hC : s.NotMissed id owner .startLookup)
    (hs : s.startLookup id owner = some s') : Kept id owner s' := by
  unfold startLookup at hs
  split at hs
  · cases hs
  · rename_i hidle
    rw [Bool.not_eq_true, Option.isSome_eq_false_iff, Option.isNone_iff_eq_none] at hidle
    split at hs
    · rename_i hhit
      obtain rfl := Option.some.inj hs
      obtain ⟨hreceivers, hentered⟩ := receivers_of_hit h hidle hhit
      refine ⟨h.handle, ?_, (by intro _ hfe; cases hfe), (by intro _ hcl; cases hcl), h.entered,
        fun _ e he _ => Or.inl ?_⟩
      · intro l hl hfind
        rw [h.list l hl hfind, rest_eq_nil hidle]
        rfl
      · obtain ⟨hmem, halive, hentry⟩ := mem_subscribers.mp he
        exact ⟨hreceivers ▸ hmem, hentered _ (hreceivers ▸ hmem) (hC hhit e he) halive e hentry⟩
    · obtain rfl := Option.some.inj hs
      obtain ⟨-, hfind, -, hreceivers, -⟩ := Broker.lookup_spec s.world.broker id
      refine ⟨?_, ?_, ?_, fun _ _ => rfl, fun _ _ _ c hc => absurd hc List.not_mem_nil,
        fun _ e he _ => Or.inr ?_⟩
      · intro l hl
        obtain rfl := Option.some.inj hl
        exact handleOf_lookup s.world id
      · intro l hl _
        obtain rfl := Option.some.inj hl
        rfl
      · intro l hfe
        cases hfe
        exact ⟨rfl, rfl⟩
      · change e.receivingComponent ∈ (s.world.broker.lookup id).1.activeLookups.heap (s.world.broker.lookup id).2
        rw [Broker.heap_lookup]
        exact (mem_subscribers.mp he).1

/-- A list that is gone was not the event's any more; nobody was due. -/
theorem kept_hold (h : Inv id owner s) (hC : s.NotMissed id owner .hold) (hs : s.hold = some s') : Kept id owner s' := by
  unfold hold at hs
  split at hs
  · rename_i l hlookup
    obtain rfl := Option.some.inj hs
    obtain ⟨hl, hpassed⟩ := h.fetched l hlookup
    have hin : s.lookup.isSome = true := by rw [hlookup]; rfl
    have hrest : s.rest = s.world.broker.activeLookups.heap l := by rw [rest, hlookup]
    refine ⟨h.handle, ?_, (by intro _ hfe; cases hfe), fun _ _ => hpassed, h.entered, ?_⟩
    · intro l' hl' hfind
      obtain rfl := Option.some.inj (hl.symm.trans hl')
      have hvalid : s.world.expired (some l) = false := by
        rw [expired, Bool.not_eq_false']
        exact CellStore.owns_of_find hfind
      refine (h.list l hl hfind).trans ?_
      rw [hrest, rest, if_neg (by simp [hvalid])]
    · intro _ e he hsub
      cases hvalid : s.world.expired (some l) with
      | true =>
        have hnone := hC l hl hvalid
        have he' : e ∈ s.due := he
        rw [hnone] at he'
        cases he'
      | false =>
        have hdue := h.due hin e he hsub
        rw [hrest] at hdue
        rwa [rest, if_neg (by simp)]
  · cases hs

theorem kept_clear {lost : ComponentId → List ComponentId} (h : Inv id owner s) (hs : s.clear lost = some s') : Kept id owner s' := by
  unfold clear at hs
  split at hs
  · rename_i receivers hlookup
    obtain rfl := Option.some.inj hs
    have hpassed := h.clearing receivers hlookup
    have hrest : s.rest = receivers := by rw [rest, hlookup]
    have hdrops := drops_clear lost s.ref.receiverHandlers s.world
    refine ⟨fun l hl => (h.handle l hl).extends_ hdrops.extends_, ?_, (by intro _ hfe; cases hfe),
      (by intro _ hcl; cases hcl), ?_, fun _ e he _ => Or.inr ?_⟩
    · intro l hl hfind
      have hfind₀ := hdrops.extends_.find_of_lt (h.handle l hl).1 hfind
      exact (hdrops.extends_.heap_eq l (h.handle l hl).1).trans ((h.list l hl hfind₀).trans (by rw [hrest]; rfl))
    · intro _ _ _ c hc
      have hc' : c ∈ s.passed := hc
      rw [hpassed] at hc'
      cases hc'
    · have hin : s.lookup.isSome = true := by rw [hlookup]; rfl
      rcases h.due hin e he (h.inForce hin e he) with ⟨hmem, -⟩ | hmem
      · rw [hpassed] at hmem
        cases hmem
      · rwa [hrest] at hmem
  · cases hs

/-- The loop goes on to the next receiver when the one before is no subscriber, or has its entry. -/
theorem kept_pass {c : ComponentId} {receivers missed : List ComponentId} {handlers : List ReceiverHandler}
    (h : Inv id owner s) (hin : s.lookup.isSome = true) (hrest : s.rest = c :: receivers) (hf : s.world.Drops w)
    (hold : ∀ e ∈ s.ref.receiverHandlers, e ∈ handlers) (hmissed : ∀ d, d ≠ c → d ∉ missed → d ∉ s.missed)
    (hentry : s.world.alive c = true → ∀ e, s.world.receiverHandler id owner c = some e → e ∈ handlers) :
    Kept id owner { s with
      world := w
      ref := { s.ref with receiverHandlers := handlers }
      lookup := some (.looping receivers)
      passed := s.passed ++ [c]
      missed := missed } := by
  have hsame : w.receiverHandler id owner = s.world.receiverHandler id owner := receiverHandler_congr (hf.sameAt id)
  refine ⟨fun l hl => (h.handle l hl).extends_ hf.extends_, ?_, (by intro _ hfe; cases hfe),
    (by intro _ hcl; cases hcl), ?_, ?_⟩
  · intro l hl hfind
    have hfind₀ := hf.extends_.find_of_lt (h.handle l hl).1 hfind
    refine (hf.extends_.heap_eq l (h.handle l hl).1).trans ((h.list l hl hfind₀).trans ?_)
    rw [hrest, List.append_cons]
    rfl
  · intro l hl hfind d hd hnot halive e he
    have halive₀ := hf.alive_le d halive
    have he₀ : s.world.receiverHandler id owner d = some e := hsame ▸ he
    by_cases hdc : d = c
    · subst hdc
      exact hentry halive₀ e he₀
    · have hd' : d ∈ s.passed := by
        rcases List.mem_append.mp hd with hd | hd
        · exact hd
        · exact absurd (List.mem_singleton.mp hd) hdc
      exact hold e (h.entered l hl (hf.extends_.find_of_lt (h.handle l hl).1 hfind) d hd' (hmissed d hdc hnot) halive₀ e he₀)
  · intro _ e he _
    have hsub := h.inForce hin e he
    rcases h.due hin e he hsub with ⟨hmem, hentered⟩ | hmem
    · exact Or.inl ⟨List.mem_append_left _ hmem, hold e hentered⟩
    · rw [hrest] at hmem
      rcases List.mem_cons.mp hmem with hec | hmem
      · obtain ⟨-, halive, he₀⟩ := mem_subscribers.mp hsub
        rw [hec] at halive he₀
        exact Or.inl ⟨List.mem_append_right _ (List.mem_singleton.mpr hec), hentry halive e he₀⟩
      · exact Or.inr hmem

theorem kept_lockNext (h : Inv id owner s) (hs : s.lockNext = some s') : Kept id owner s' := by
  unfold lockNext at hs
  split at hs
  · rename_i c receivers hlookup
    have hin : s.lookup.isSome = true := by rw [hlookup]; rfl
    have hrest : s.rest = c :: receivers := by rw [rest, hlookup]
    cases halive : s.world.alive c with
    | false =>
      rw [lock_of_dead halive] at hs
      obtain rfl := Option.some.inj hs
      exact kept_pass h hin hrest (Drops.refl _) (fun _ he => he) (fun _ _ hd => hd) fun hc => by rw [halive] at hc; cases hc
    | true =>
      rw [lock_of_alive halive] at hs
      obtain rfl := Option.some.inj hs
      have hkept := kept_world h ((drops_pin halive).frame id)
      have hrest' : rest { s with world := s.world.pin c } = c :: receivers := (rest_world h (drops_pin halive).extends_).trans hrest
      refine ⟨hkept.handle, ?_, (by intro _ hfe; cases hfe), (by intro _ hcl; cases hcl), hkept.entered,
        ?_⟩
      · intro l hl hfind
        exact (hkept.list l hl hfind).trans (by rw [hrest']; rfl)
      · intro _ e he hsub
        have hdue := hkept.due hin e he hsub
        rwa [hrest'] at hdue
  · cases hs

theorem kept_ask {lost : ComponentId → List ComponentId} (h : Inv id owner s) (hs : s.ask id owner lost = some s') :
    Kept id owner s' := by
  unfold ask at hs
  split at hs
  · rename_i c receivers hlookup
    have hin : s.lookup.isSome = true := by rw [hlookup]; rfl
    have hrest : s.rest = c :: receivers := by rw [rest, hlookup]
    have hmissed : ∀ d, d ≠ c → d ∉ s.missed.filter (· != c) → d ∉ s.missed := by
      intro d hd hnot hmem
      exact hnot (List.mem_filter.mpr ⟨hmem, by simpa using hd⟩)
    cases hhandler : (s.world.component c).lookupAsyncHandler id with
    | none =>
      simp only [hhandler] at hs
      obtain rfl := Option.some.inj hs
      refine kept_pass h hin hrest (drops_unpin lost _ c) (fun _ he => he) hmissed ?_
      intro _ e he
      rw [World.receiverHandler, hhandler] at he
      cases he
    | some handler =>
      simp only [hhandler] at hs
      obtain rfl := Option.some.inj hs
      refine kept_pass h hin hrest (Drops.refl _) (fun _ he => List.mem_append_left _ he) hmissed ?_
      intro _ e he
      rw [World.receiverHandler, hhandler] at he
      obtain rfl := Option.some.inj he
      exact List.mem_append_right _ (List.mem_singleton.mpr rfl)
  · cases hs

theorem kept_returnHandlers (h : Inv id owner s) (hs : s.returnHandlers = some s') : Kept id owner s' := by
  unfold returnHandlers at hs
  split at hs
  · rename_i hlookup
    obtain rfl := Option.some.inj hs
    refine ⟨h.handle, ?_, (by intro _ hfe; cases hfe), (by intro _ hcl; cases hcl), h.entered,
      (by intro hin; cases hin)⟩
    intro l hl hfind
    rw [h.list l hl hfind, rest, hlookup]
    rfl
  · cases hs

theorem inv_step {a : SubscribeAction} (h : Inv id owner s) (hC : s.NotMissed id owner a) (hs : s.step id owner a = some s') :
    Inv id owner s' := by
  obtain ⟨t, ht, rfl⟩ := Option.map_eq_some_iff.mp hs
  refine inv_settle ?_
  cases a with
  | world op =>
    obtain ⟨w, hw, rfl⟩ := Option.map_eq_some_iff.mp ht
    exact kept_world h (step_frame hw id)
  | associate => exact kept_associate h ht
  | store => exact kept_store h ht
  | startLookup => exact kept_startLookup h hC ht
  | hold => exact kept_hold h hC ht
  | clear => exact kept_clear h ht
  | lockNext => exact kept_lockNext h ht
  | ask => exact kept_ask h ht
  | returnHandlers => exact kept_returnHandlers h ht

/-- A lookup that can return has been through all receivers. -/
theorem reaches_of_inv {a : SubscribeAction} (h : Inv id owner s) : s.Reaches a := by
  cases a with
  | returnHandlers =>
    intro hlookup e he
    have hin : s.lookup.isSome = true := by rw [hlookup]; rfl
    rcases h.due hin e he (h.inForce hin e he) with ⟨-, hmem⟩ | hmem
    · exact hmem
    · rw [rest, hlookup] at hmem
      cases hmem
  | world | associate | store | startLookup | hold | clear | lockNext | ask => trivial

end SubscribeAux

open SubscribeAux

/-- A component that has returned from `subscribe_event` is a subscriber with the handler it stored, as long as it is listed. -/
theorem subscriber_of_store {id : MessageId} {owner : ComponentId} {s s' : SubscribeState} {subscription : Subscription}
    (hs : s.store id subscription = some s') (hid : subscription.msgId = id)
    (hmem : subscription.component ∈ s.world.broker.receivers id) :
    ∃ h ∈ s'.world.subscribers id owner, h.receivingComponent = subscription.component ∧ h.handler = subscription.handler := by
  unfold store at hs
  split at hs
  · rename_i hguard
    obtain rfl := Option.some.inj hs
    have hhandler : ((storeHandler subscription s.world).component subscription.component).lookupAsyncHandler id =
        some subscription.handler := by
      rw [storeHandler, World.component_update_self, ← hid]
      exact Function.update_self ..
    obtain ⟨e, hentry, hsame⟩ : ∃ e, (storeHandler subscription s.world).receiverHandler id owner subscription.component = some e ∧
        e.handler = subscription.handler := by
      rw [World.receiverHandler, hhandler]
      exact ⟨_, rfl, rfl⟩
    have hreceiving := PolyRefAux.receiverHandler_receivingComponent hentry
    refine ⟨e, mem_subscribers.mpr ?_, hreceiving, hsame⟩
    rw [hreceiving]
    exact ⟨hmem, hguard.2, hentry⟩
  · cases hs

instance (id : MessageId) (owner : ComponentId) (s : SubscribeState) : ∀ a, Decidable (s.NotMissed id owner a)
  | .startLookup => inferInstanceAs (Decidable (s.hit = true → ∀ h ∈ s.world.subscribers id owner, h.receivingComponent ∉ s.missed))
  | .hold => inferInstanceAs (Decidable (∀ l ∈ s.ref.receivers, s.world.expired (some l) = true → s.due = []))
  | .world _ | .associate _ | .store _ | .clear _ | .lockNext | .ask _ | .returnHandlers => isTrue trivial

/-- In every run in which no lookup is answered from a cache that has missed a subscriber, every lookup returns entries of all
components that have been subscribers, with the handlers they have, since it started. -/
theorem subscribers_reached (id : MessageId) (owner : ComponentId) (component : ComponentId → Component)
    (others : ComponentId → Nat) (acts : List SubscribeAction)
    (h : AllSteps (step id owner) (NotMissed id owner) (init component others) acts) :
    AllSteps (step id owner) Reaches (init component others) acts :=
  AllSteps.imp (fun _ _ _ => inv_step) (fun _ _ hinv _ => reaches_of_inv hinv) (inv_init component others) h

/-- A lookup from start to end, through two receivers. -/
def lookupTwo : List SubscribeAction :=
  [.startLookup, .hold, .clear fun _ => [], .lockNext, .ask fun _ => [], .lockNext, .ask fun _ => [], .returnHandlers]

/-- Component 1 subscribes while the list is being read, but is asked after it has stored its handler. -/
theorem subscribers_reached_inTime :
    AllSteps (step 7 0) Reaches (init (fun c => { defaultExecutor := c }) fun _ => 1)
      ([.associate ⟨2, 7, 80⟩, .store ⟨2, 7, 80⟩, .associate ⟨1, 7, 70⟩, .startLookup, .hold, .clear fun _ => [], .lockNext, .ask fun _ => [],
        .store ⟨1, 7, 70⟩, .lockNext, .ask fun _ => [], .returnHandlers, .startLookup, .returnHandlers]) :=
  subscribers_reached 7 0 _ _ _ (by decide)

/-- Component 1 is asked after it has been associated and before it has stored its handler. -/
def missedSubscriber : List SubscribeAction :=
  [.associate ⟨2, 7, 80⟩, .store ⟨2, 7, 80⟩, .associate ⟨1, 7, 70⟩] ++ lookupTwo ++ [.store ⟨1, 7, 70⟩, .startLookup]

/-- Not every lookup reaches all subscribers: component 1 has returned from `subscribe_event` and is left out. -/
theorem subscriber_missed :
    ¬∀ acts, AllSteps (step 7 0) Reaches (init (fun c => { defaultExecutor := c }) fun _ => 1) acts := by
  intro h
  obtain ⟨s, hs⟩ : ∃ s, run (step 7 0) (init (fun c => { defaultExecutor := c }) fun _ => 1) missedSubscriber = some s := ⟨_, rfl⟩
  have hlast := allSteps_iff.mp (h (missedSubscriber ++ [.returnHandlers])) missedSubscriber .returnHandlers [] s rfl hs
  obtain rfl := Option.some.inj hs
  have hmem := hlast rfl ⟨1, 70, false⟩
  revert hmem
  decide

end SubscribeState

end Minicomps
