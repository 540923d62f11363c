import Minicomps.Theorems.MonoRef
import Minicomps.Theorems.References

/-!
# When a call goes to the override executor

`publish_async_query` becomes visible in three steps, and a lookup asks for the handler and for the override in two. A lookup in
between resolves to the component's own executor, and keeps that when nothing changes in the broker any more. Apart from this, from
lists that are held by other lookups, and from lists that are gone before they could be locked, every lookup of an async query
describes what the message resolves to.
-/

namespace Minicomps

open Transition

/-- No lookup is between having read the list and returning. -/
def Slot.isSettled (slot : Slot) : Bool :=
  match slot.stage with
  | none | some (.returning _ _) => true
  | _ => false

/-- What a slot says about a lookup of an async query under way. -/
def Slot.StagePublished (id : MessageId) (w : World) (slot : Slot) : Option LookupStage → Prop
  | none => True
  | some (.fetched l) =>
    slot.ref.receivers = some l ∧ ∀ res, slot.due = some res → w.broker.activeLookups.heap l = [res.receiver]
  | some (.locking l c) =>
    slot.ref.receivers = some l ∧ w.broker.activeLookups.heap l = [c] ∧ ∀ res, slot.due = some res → res.receiver = c
  | some (.asking l c) =>
    slot.ref.receivers = some l ∧ w.broker.activeLookups.heap l = [c] ∧ slot.ref.receiver = some c ∧
      ∀ res, slot.due = some res → res.receiver = c
  | some (.overriding l c h) =>
    slot.ref.receivers = some l ∧ w.broker.activeLookups.heap l = [c] ∧ slot.ref.receiver = some c ∧ slot.ref.handler = some h ∧
      slot.found = true ∧ (∀ res, slot.due = some res → res.receiver = c ∧ res.handler = h) ∧
      (w.broker.activeLookups.find id = some l → slot.missed = false → (w.component c).lookupAsyncHandler id = some h)
  | some (.returning _ answer) => ∀ res, slot.due = some res → answer = some res.handler ∧ slot.ref.Describes res

/-- What holds of a reference of `owner` to an async query. -/
structure Slot.Published (id : MessageId) (owner : ComponentId) (w : World) (slot : Slot) : Prop where
  handle : ∀ l, slot.ref.receivers = some l → w.HandleOf id l
  stage : slot.StagePublished id w slot.stage
  /-- A cache that belongs to the broker's list and has missed nothing is right whenever the list holds exactly one live component. -/
  coherent : slot.isSettled = true → ∀ l, slot.ref.receivers = some l → w.broker.activeLookups.find id = some l →
    slot.ref.handler.isSome = true → slot.missed = false → w.SoleLive id →
      slot.found = true ∧ slot.overrideRead = true ∧ ∃ res, w.resolve .async id owner = some res ∧ slot.ref.Describes res

namespace OverrideAux

open World Slot SlotAux MonoRefAux

variable {id : MessageId} {owner : ComponentId} {w w' : World} {slot : Slot} {s t : LookupState} {p : AsyncPublication}

theorem published_new (w : World) : Published id owner w {} where
  handle _ h := by cases h
  stage := trivial
  coherent _ _ h := by cases h

/-- A message that resolves has one live receiver with that handler. -/
theorem resolve_eq_some {res : Resolution} (h : w.resolve .async id owner = some res) :
    w.broker.receivers id = [res.receiver] ∧ w.alive res.receiver = true ∧
      (w.component res.receiver).lookupAsyncHandler id = some res.handler ∧ res.executor = w.handlerExecutor res.receiver id ∧
      res.mutualExecutor = decide ((w.component owner).defaultExecutor = res.executor) := by
  obtain ⟨⟨c, handler⟩, hsole, rfl⟩ := Option.map_eq_some_iff.mp h
  obtain ⟨hreceivers, halive, hhandler⟩ := sole_eq_some hsole
  exact ⟨hreceivers, halive, hhandler, rfl, rfl⟩

/-! ## What others do -/

theorem published_world (h : Published id owner w slot) (hf : Frame id w w') : Published id owner w' slot where
  handle l hl := (h.handle l hl).extends_ hf.extends_
  stage := by
    have hstage := h.stage
    have hheap : ∀ l, slot.ref.receivers = some l → w'.broker.activeLookups.heap l = w.broker.activeLookups.heap l :=
      fun l hl => hf.extends_.heap_eq l (h.handle l hl).1
    cases hst : slot.stage with
    | none => trivial
    | some stage =>
      rw [hst] at hstage
      cases stage with
      | fetched l =>
        obtain ⟨hl, hdue⟩ := hstage
        exact ⟨hl, fun res hres => (hheap l hl).trans (hdue res hres)⟩
      | locking l c =>
        obtain ⟨hl, hc, hdue⟩ := hstage
        exact ⟨hl, (hheap l hl).trans hc, hdue⟩
      | asking l c =>
        obtain ⟨hl, hc, hdue⟩ := hstage
        exact ⟨hl, (hheap l hl).trans hc, hdue⟩
      | overriding l c handler =>
        obtain ⟨hl, hc, hreceiver, hhandler, hfound, hdue, hfresh⟩ := hstage
        refine ⟨hl, (hheap l hl).trans hc, hreceiver, hhandler, hfound, hdue, ?_⟩
        intro hfind hmissed
        have hfind₀ := hf.extends_.find_of_lt (h.handle l hl).1 hfind
        exact (hf.sameAt l hfind₀ hfind c).asyncHandlers.trans (hfresh hfind₀ hmissed)
      | returning held answer => exact hstage
  coherent hsettled l hl hfind hhandler hmissed hsole := by
    have hfind₀ := hf.extends_.find_of_lt (h.handle l hl).1 hfind
    have hvalid : w'.expired (some l) = false := by
      rw [expired, Bool.not_eq_false']
      exact CellStore.owns_of_find hfind
    obtain ⟨hsole₀, heq⟩ := hf.sole_eq asks_lookupHandler (h.handle l hl) hvalid hsole
    obtain ⟨hfound, hread, res, hres, hdesc⟩ := h.coherent hsettled l hl hfind₀ hhandler hmissed hsole₀
    refine ⟨hfound, hread, res, ?_, hdesc⟩
    rw [← hres]
    exact resolve_congr heq (hf.defaultExecutor owner) fun c _ => hf.sameAt l hfind₀ hfind c

/-- A component that is not the receiver changes its own tables. -/
theorem resolve_update_of_ne {c : ComponentId} {f : Component → Component} {res : Resolution}
    (hexec : ∀ comp, (f comp).defaultExecutor = comp.defaultExecutor) (hne : res.receiver ≠ c)
    (h : w.resolve .async id owner = some res) : (w.update c f).resolve .async id owner = some res := by
  obtain ⟨hreceivers, halive, -⟩ := resolve_eq_some h
  have hsame : (w.update c f).component res.receiver = w.component res.receiver := component_update_of_ne w f hne
  have howner : ((w.update c f).component owner).defaultExecutor = (w.component owner).defaultExecutor := by
    by_cases ho : owner = c
    · subst ho
      rw [component_update_self]
      exact hexec _
    · rw [component_update_of_ne w f ho]
  rw [← h]
  refine resolve_congr ?_ howner ?_
  · rw [sole_of_receivers hreceivers halive, sole_of_receivers (w := w.update c f) hreceivers halive, hsame]
  · intro d hd
    obtain rfl := List.singleton_inj.mp (hreceivers.symm.trans hd)
    exact hsame ▸ Component.SameAt.refl id _

/-- The receiver of a slot that has not missed a store is another component. -/
theorem receiver_ne {missed read : Bool} {receiver : Option ComponentId} {c d : ComponentId}
    (h : (missed || (read && decide (receiver = some c))) = false) (hread : read = true) (hreceiver : receiver = some d) : d ≠ c := by
  rintro rfl
  simp [hread, hreceiver] at h

/-- The component stores something that is neither the handler of the slot's receiver nor, unless the slot has missed it, that receiver's
at all. -/
theorem published_stored (h : Published id owner w slot) {c : ComponentId} {f : Component → Component} {missed : Bool}
    (hdefault : ∀ comp, (f comp).defaultExecutor = comp.defaultExecutor) (hmissed : missed = false → slot.missed = false)
    (hasync : missed = false → slot.found = true → ∀ d, slot.ref.receiver = some d →
      ((w.update c f).component d).lookupAsyncHandler id = (w.component d).lookupAsyncHandler id)
    (hne : missed = false → slot.found = true → slot.overrideRead = true → ∀ d, slot.ref.receiver = some d → d ≠ c) :
    Published id owner (w.update c f) { slot with missed := missed } where
  handle := h.handle
  stage := by
    have hstage := h.stage
    change StagePublished id _ _ slot.stage
    cases hst : slot.stage with
    | none => trivial
    | some stage =>
      rw [hst] at hstage
      cases stage with
      | overriding l d handler =>
        obtain ⟨hl, hd, hreceiver, hhandler, hfound, hdue, hfresh⟩ := hstage
        refine ⟨hl, hd, hreceiver, hhandler, hfound, hdue, ?_⟩
        intro hfind hnot
        exact (hasync hnot hfound d hreceiver).trans (hfresh hfind (hmissed hnot))
      | fetched | locking | asking | returning => exact hstage
  coherent hsettled l hl hfind hhandler hnot hsole := by
    obtain ⟨hfound, hread, res, hres, hdesc⟩ := h.coherent hsettled l hl hfind hhandler (hmissed hnot) hsole
    have hother : res.receiver ≠ c := hne hnot hfound hread _ hdesc.receiver
    exact ⟨hfound, hread, res, resolve_update_of_ne hdefault hother hres, hdesc⟩

theorem published_handlerStored (h : Published id owner w slot) :
    Published id owner (ReferencesState.storeAsyncHandler id p w) (slot.handlerStored p.component) := by
  refine published_stored h (fun _ => rfl) (fun hnot => (Bool.or_eq_false_iff.mp hnot).1) ?_ ?_
  · intro hnot hfound d hreceiver
    rw [component_update_of_ne _ _ (receiver_ne hnot hfound hreceiver)]
  · intro hnot hfound _ d hreceiver
    exact receiver_ne hnot hfound hreceiver

theorem published_overrideStored (h : Published id owner w slot) :
    Published id owner (ReferencesState.storeExecutorOverride id p w) (slot.overrideStored p.component) := by
  refine published_stored h (fun _ => rfl) (fun hnot => (Bool.or_eq_false_iff.mp hnot).1) ?_ ?_
  · -- the override is not what the handler is looked up in
    intro _ _ d _
    by_cases hd : d = p.component
    · subst hd
      rw [component_update_self]
      rfl
    · rw [component_update_of_ne _ _ hd]
  · intro hnot _ hread d hreceiver
    exact receiver_ne hnot hread hreceiver

/-- Less is due. -/
theorem published_settle (h : Published id owner w slot) (now : Option Resolution) : Published id owner w (slot.settle now) := by
  have hdue : ∀ res, (slot.settle now).due = some res → slot.due = some res := by
    intro res hres
    simp only [Slot.settle] at hres
    split at hres
    · exact hres
    · cases hres
  refine ⟨h.handle, ?_, h.coherent⟩
  have hstage := h.stage
  change StagePublished id _ _ slot.stage
  cases hst : slot.stage with
  | none => trivial
  | some stage =>
    rw [hst] at hstage
    cases stage with
    | fetched l => exact ⟨hstage.1, fun res hres => hstage.2 res (hdue res hres)⟩
    | locking l c => exact ⟨hstage.1, hstage.2.1, fun res hres => hstage.2.2 res (hdue res hres)⟩
    | asking l c => exact ⟨hstage.1, hstage.2.1, hstage.2.2.1, fun res hres => hstage.2.2.2 res (hdue res hres)⟩
    | overriding l c handler =>
      obtain ⟨hl, hc, hreceiver, hhandler, hfound, hd, hfresh⟩ := hstage
      exact ⟨hl, hc, hreceiver, hhandler, hfound, fun res hres => hd res (hdue res hres), hfresh⟩
    | returning held answer => exact fun res hres => hstage res (hdue res hres)

/-! ## The lookup's own steps -/

theorem published_start (h : Published id owner s.world s.slot)
    (hC : s.hit = true → (s.world.resolve .async id owner).isSome = true → s.Unheld ∧ s.slot.missed = false)
    (hs : s.start id owner = some t) : Published id owner t.world t.slot := by
  simp only [LookupState.start] at hs
  split at hs
  · cases hs
  · rename_i hidle
    have hsettled : s.slot.isSettled = true := by
      rw [Bool.not_eq_true, Option.isSome_eq_false_iff, Option.isNone_iff_eq_none] at hidle
      rw [isSettled, hidle]
    split at hs
    · rename_i hhit
      obtain rfl := Option.some.inj hs
      refine ⟨h.handle, ?_, fun _ => h.coherent hsettled⟩
      intro res hres
      obtain ⟨hunheld, hmissed⟩ := hC hhit (by rw [show s.world.resolve .async id owner = some res from hres]; rfl)
      obtain ⟨l, handler, hl, hhandler, hfind⟩ := of_hit hhit hunheld h.handle
      obtain ⟨hreceivers, halive, -⟩ := resolve_eq_some hres
      obtain ⟨-, -, res', hres', hdesc⟩ := h.coherent hsettled l hl hfind
        (Option.isSome_iff_exists.mpr ⟨handler, hhandler⟩) hmissed ⟨_, hreceivers, halive⟩
      obtain rfl := Option.some.inj (hres'.symm.trans hres)
      exact ⟨hdesc.handler, hdesc⟩
    · obtain rfl := Option.some.inj hs
      refine ⟨?_, ⟨rfl, ?_⟩, fun hfetched => by cases hfetched⟩
      · intro l hl
        obtain rfl := Option.some.inj hl
        exact handleOf_lookup s.world id
      · intro res hres
        exact (Broker.heap_lookup s.world.broker id).trans (resolve_eq_some hres).1

theorem published_hold (h : Published id owner s.world s.slot)
    (hC : ∀ l ∈ s.slot.ref.receivers, s.expired (some l) = true → s.slot.due = none) (hs : s.hold = some t) :
    Published id owner t.world t.slot := by
  simp only [LookupState.hold] at hs
  split at hs
  · rename_i l hstage
    have hst := h.stage
    rw [hstage] at hst
    obtain ⟨hl, hdue⟩ := hst
    split at hs
    · rename_i hexpired
      obtain rfl := Option.some.inj hs
      have hnone := hC l hl hexpired
      refine ⟨h.handle, ?_, ?_⟩
      · intro res hres
        have hres' : s.slot.due = some res := hres
        rw [hnone] at hres'
        cases hres'
      · intro _ l' hl' hfind
        obtain rfl := Option.some.inj (hl.symm.trans hl')
        -- a list that is gone is not the broker's
        have howns : s.world.broker.owns l = true := CellStore.owns_of_find hfind
        simp [LookupState.expired, howns] at hexpired
    · split at hs
      · rename_i c hheap
        obtain rfl := Option.some.inj hs
        exact ⟨h.handle, ⟨hl, hheap, fun res hres => (List.singleton_inj.mp (hheap.symm.trans (hdue res hres))).symm⟩,
          fun hlocking => by cases hlocking⟩
      · rename_i hmany
        obtain rfl := Option.some.inj hs
        refine ⟨h.handle, fun res hres => absurd (hdue res hres) (hmany _), ?_⟩
        intro _ l' hl' hfind _ _ hsole
        obtain rfl := Option.some.inj (hl.symm.trans hl')
        obtain ⟨c, hc, -⟩ := hsole
        exact absurd ((Broker.receivers_of_find hfind).symm.trans hc) (hmany c)
  · cases hs

theorem published_lock {lost : ComponentId → List ComponentId} (h : Published id owner s.world s.slot)
    (hforce : ∀ res, s.slot.due = some res → s.world.resolve .async id owner = some res) (hs : s.lock lost = some t) :
    Published id owner t.world t.slot := by
  have hstep : s.step id ⟨.interface, owner⟩ (.lock lost) = some t := hs
  have hframe : Frame id s.world t.world := frame_step hstep
  have hkept := published_world h hframe
  simp only [LookupState.lock] at hs
  split at hs
  · rename_i l c hstage
    have hst := hkept.stage
    rw [hstage] at hst
    obtain ⟨hl, hheap, hdue⟩ := hst
    cases halive : s.world.alive c with
    | false =>
      rw [lock_of_dead halive] at hs
      obtain rfl := Option.some.inj hs
      refine ⟨hkept.handle, ?_, ?_⟩
      · intro res hres
        have hlive := (resolve_eq_some (hforce res hres)).2.1
        rw [hdue res hres, halive] at hlive
        cases hlive
      · intro _ l' hl' hfind _ _ hsole
        obtain rfl := Option.some.inj (hl.symm.trans hl')
        obtain ⟨d, hd, hdalive⟩ := hsole
        obtain rfl := List.singleton_inj.mp (hheap.symm.trans ((Broker.receivers_of_find hfind).symm.trans hd))
        rw [hframe.alive_le c hdalive] at halive
        cases halive
    | true =>
      rw [lock_of_alive halive] at hs
      obtain rfl := Option.some.inj hs
      exact ⟨hkept.handle, ⟨hl, hheap, rfl, hdue⟩, fun hasking => by cases hasking⟩
  · cases hs

theorem published_askHandler (h : Published id owner s.world s.slot)
    (hforce : ∀ res, s.slot.due = some res → s.world.resolve .async id owner = some res)
    (hs : s.askHandler id (.query .async) = some t) : Published id owner t.world t.slot := by
  simp only [LookupState.askHandler] at hs
  split at hs
  · rename_i l c hstage
    have hst := h.stage
    rw [hstage] at hst
    obtain ⟨hl, hheap, hreceiver, hdue⟩ := hst
    have hasked : ∀ res, s.slot.due = some res →
        QueryKind.async.lookupHandler (s.world.component c) id = some res.handler := by
      intro res hres
      have hhandler := (resolve_eq_some (hforce res hres)).2.2.1
      rwa [hdue res hres] at hhandler
    cases hhandler : QueryKind.async.lookupHandler (s.world.component c) id with
    | none =>
      simp only [hhandler] at hs
      obtain rfl := Option.some.inj hs
      refine ⟨h.handle, ?_, fun _ _ _ _ hsome => by cases hsome⟩
      intro res hres
      have hsome := hasked res hres
      rw [hhandler] at hsome
      cases hsome
    | some handler =>
      simp only [hhandler] at hs
      obtain rfl := Option.some.inj hs
      refine ⟨h.handle, ⟨hl, hheap, hreceiver, rfl, rfl, fun res hres => ⟨hdue res hres, ?_⟩, fun _ _ => hhandler⟩,
        fun hoverriding => by cases hoverriding⟩
      exact Option.some.inj ((hasked res hres).symm.trans hhandler)
  · cases hs

theorem published_askOverride (h : Published id owner s.world s.slot)
    (hforce : ∀ res, s.slot.due = some res → s.world.resolve .async id owner = some res)
    (hs : s.askOverride id owner = some t) : Published id owner t.world t.slot := by
  simp only [LookupState.askOverride] at hs
  split at hs
  · rename_i l c handler hstage
    obtain rfl := Option.some.inj hs
    have hst := h.stage
    rw [hstage] at hst
    obtain ⟨hl, hheap, hreceiver, hhandler, hfound, hdue, hfresh⟩ := hst
    refine ⟨h.handle, ?_, fun _ l' hl' hfind _ hmissed hsole => ⟨hfound, rfl, ?_⟩⟩
    · intro res hres
      obtain ⟨-, -, -, hexecutor, hmutual⟩ := resolve_eq_some (hforce res hres)
      obtain ⟨rfl, rfl⟩ := hdue res hres
      refine ⟨rfl, hhandler, hreceiver, ?_, ?_⟩
      · rw [hexecutor]
      · rw [hmutual, hexecutor]
        rfl
    · obtain rfl := Option.some.inj (hl.symm.trans hl')
      have hreceivers := (Broker.receivers_of_find hfind).trans hheap
      obtain ⟨d, hd, halive⟩ := hsole
      obtain rfl := List.singleton_inj.mp (hreceivers.symm.trans hd)
      have hlookup : QueryKind.async.lookupHandler (s.world.component c) id = some handler := hfresh hfind hmissed
      refine ⟨_, (resolve_of_receivers hreceivers halive).trans (congrArg (Option.map _) hlookup), hhandler, hreceiver, rfl, rfl⟩
  · cases hs

theorem published_returnHandler (h : Published id owner s.world s.slot) (hs : s.returnHandler = some t) :
    Published id owner t.world t.slot := by
  simp only [LookupState.returnHandler] at hs
  split at hs
  · rename_i held answer hstage
    obtain rfl := Option.some.inj hs
    exact ⟨h.handle, trivial, fun _ => h.coherent (by rw [isSettled, hstage])⟩
  · cases hs

end OverrideAux

namespace ReferencesState

open SlotAux OverrideAux

variable {id : MessageId} {refs : RefId → Reference} {s s' : ReferencesState}

/-- What holds of all references to an async query, until it is looked at what is still due. -/
def Published (id : MessageId) (refs : RefId → Reference) (s : ReferencesState) : Prop :=
  ∀ r, (refs r).kind = .query .async → (s.slots r).Published id (refs r).owner s.world

/-- What is due is what the message resolves to. -/
def InForce (id : MessageId) (refs : RefId → Reference) (s : ReferencesState) : Prop :=
  ∀ r res, (s.slots r).due = some res → s.world.resolve .async id (refs r).owner = some res

/-- A lookup of a reference, and what it does to the others. -/
theorem published_lookup {r : RefId} {a : LookupAction} (h : s.Published id refs) (hforce : s.InForce id refs)
    (hC : s.CachePublished id refs (.lookup r a)) (hs : s.lookup id refs r a = some s') : s'.Published id refs := by
  obtain ⟨t, ht, rfl⟩ := Option.map_eq_some_iff.mp hs
  have hframe := frame_step ht
  intro r' hkind
  by_cases hr : r' = r
  · subst hr
    change (Function.update s.slots r' t.slot r').Published id (refs r').owner t.world
    rw [Function.update_self]
    have hr' : (s.view r').slot.Published id (refs r').owner (s.view r').world := h r' hkind
    cases a with
    | start => exact published_start hr' (hC hkind) ht
    | hold => exact published_hold hr' (hC hkind) ht
    | lock => exact published_lock hr' (hforce r') ht
    | askHandler =>
      rw [LookupState.step, hkind] at ht
      exact published_askHandler hr' (hforce r') ht
    | askOverride => exact published_askOverride hr' (hforce r') ht
    | returnHandler => exact published_returnHandler hr' ht
  · change (Function.update s.slots r t.slot r').Published id (refs r').owner t.world
    rw [Function.update_of_ne hr]
    exact published_world (h r' hkind) hframe

theorem published_step {a : ReferencesAction} (h : s.Published id refs ∧ s.InForce id refs) (hC : s.CachePublished id refs a)
    (hs : s.step id refs a = some s') : s'.Published id refs ∧ s'.InForce id refs := by
  obtain ⟨t, ht, rfl⟩ := Option.map_eq_some_iff.mp hs
  have hpublished : t.Published id refs := by
    cases a with
    | world op =>
      obtain ⟨w, hw, rfl⟩ := Option.map_eq_some_iff.mp ht
      exact fun r hkind => published_world (h.1 r hkind) (World.step_frame hw id)
    | associate p =>
      simp only [associate] at ht
      split at ht
      · obtain rfl := Option.some.inj ht
        exact fun r hkind => published_world (h.1 r hkind)
          (World.frame_broker (Broker.associate_spec s.world.broker id p.component).1)
      · cases ht
    | storeHandler p =>
      simp only [storeHandler] at ht
      split at ht
      · obtain rfl := Option.some.inj ht
        exact fun r hkind => published_handlerStored (h.1 r hkind)
      · cases ht
    | storeOverride p =>
      simp only [storeOverride] at ht
      split at ht
      · obtain rfl := Option.some.inj ht
        exact fun r hkind => published_overrideStored (h.1 r hkind)
      · cases ht
    | lookup r a => exact published_lookup h.1 h.2 hC ht
  refine ⟨fun r hkind => published_settle (hpublished r hkind) _, ?_⟩
  intro r res hres
  simp only [settle, Slot.settle] at hres
  split at hres
  · rename_i hnow
    exact hnow.symm.trans hres
  · cases hres

theorem resolvesPublished_of_published {a : ReferencesAction} (h : s.Published id refs) : s.ResolvesPublished refs a := by
  cases a with
  | lookup r a =>
    cases a with
    | returnHandler =>
      intro hkind held answer hstage
      have hst := (h r hkind).stage
      rw [hstage] at hst
      exact hst
    | start | hold | lock | askHandler | askOverride => trivial
  | world | associate | storeHandler | storeOverride => trivial

/-- From the return of `publish_async_query` on, a message that the component alone receives resolves to the override. -/
theorem resolve_of_storeOverride {p : AsyncPublication} {executor : ExecutorId} (hs : s.storeOverride id p = some s')
    (hexecutor : p.executorOverride = some executor) (owner : ComponentId) {res : Resolution}
    (hres : s'.world.resolve .async id owner = some res) (hreceiver : res.receiver = p.component) :
    res.executor = executor ∧ res.mutualExecutor = decide ((s'.world.component owner).defaultExecutor = executor) := by
  simp only [storeOverride] at hs
  split at hs
  · obtain rfl := Option.some.inj hs
    obtain ⟨-, -, -, hexec, hmutual⟩ := resolve_eq_some hres
    have hoverride : (storeExecutorOverride id p s.world).handlerExecutor p.component id = executor := by
      rw [World.handlerExecutor, storeExecutorOverride, World.component_update_self, Component.lookupExecutorOverride]
      simp [Component.pushDependency, hexecutor]
    rw [hreceiver] at hexec
    have heq : res.executor = executor := hexec.trans hoverride
    exact ⟨heq, heq ▸ hmutual⟩
  · cases hs

instance (id : MessageId) (refs : RefId → Reference) (s : ReferencesState) : ∀ a, Decidable (s.CachePublished id refs a)
  | .lookup r .start => inferInstanceAs (Decidable ((refs r).kind = .query .async → (s.view r).hit = true →
      (s.world.resolve .async id (refs r).owner).isSome = true → (s.view r).Unheld ∧ (s.slots r).missed = false))
  | .lookup r .hold => inferInstanceAs (Decidable ((refs r).kind = .query .async → ∀ l ∈ (s.slots r).ref.receivers,
      (s.view r).expired (some l) = true → (s.slots r).due = none))
  | .lookup _ (.lock _) | .lookup _ .askHandler | .lookup _ .askOverride | .lookup _ .returnHandler | .world _ | .associate _
    | .storeHandler _ | .storeOverride _ => isTrue trivial

/-- In every run in which no lookup of the query is answered from a cache whose receiver has stored a handler or an override since it
was asked, or while another lookup holds a replaced list the cache is from, and no lookup loses the list it was given: every lookup
returns what the message has resolved to since it started, with the executor to enqueue on. -/
theorem lookups_resolve_published (id : MessageId) (refs : RefId → Reference) (component : ComponentId → Component)
    (others : ComponentId → Nat) (acts : List ReferencesAction)
    (h : AllSteps (step id refs) (CachePublished id refs) (init component others) acts) :
    AllSteps (step id refs) (ResolvesPublished refs) (init component others) acts :=
  AllSteps.imp (fun _ _ _ => published_step) (fun _ _ hs _ => resolvesPublished_of_published hs.1)
    ⟨fun _ _ => published_new _, fun _ _ hres => by cases hres⟩ h

/-- References of component 0 to the query. -/
def asyncReferences : RefId → Reference := fun _ => { kind := .query .async, owner := 0 }

/-- Component 1 publishes the query on executor 9, and reference 1 finds no handler yet in between, reference 0 looks it up when all is
done. -/
theorem lookups_resolve_published_inTime :
    AllSteps (step 7 asyncReferences) (ResolvesPublished asyncReferences) (init (fun c => { defaultExecutor := c }) fun _ => 1)
      ([.associate ⟨1, 70, some 9⟩, .lookup 1 .start, .lookup 1 .hold, .lookup 1 (.lock fun _ => []), .lookup 1 .askHandler,
        .storeHandler ⟨1, 70, some 9⟩, .storeOverride ⟨1, 70, some 9⟩, .lookup 1 .returnHandler] ++ wholeLookup 0) :=
  lookups_resolve_published 7 asyncReferences _ _ _ (by decide)

/-- Reference 0 looks the query up when component 1 has stored its handler and not yet the override. -/
def overrideMissed : List ReferencesAction :=
  [.associate ⟨1, 70, some 9⟩, .storeHandler ⟨1, 70, some 9⟩] ++ wholeLookup 0 ++
    [.storeOverride ⟨1, 70, some 9⟩, .lookup 0 .start]

/-- Not every lookup after `publish_async_query` describes the override: the one that came too early is cached. -/
theorem override_missed :
    ¬∀ acts, AllSteps (step 7 asyncReferences) (ResolvesPublished asyncReferences)
      (init (fun c => { defaultExecutor := c }) fun _ => 1) acts := by
  intro h
  obtain ⟨s, hs⟩ : ∃ s, run (step 7 asyncReferences) (init (fun c => { defaultExecutor := c }) fun _ => 1) overrideMissed = some s :=
    ⟨_, rfl⟩
  have hlast := allSteps_iff.mp (h (overrideMissed ++ [.lookup 0 .returnHandler])) overrideMissed (.lookup 0 .returnHandler) [] s rfl hs
  obtain rfl := Option.some.inj hs
  obtain ⟨-, hdesc⟩ := hlast rfl none (some 70) rfl ⟨1, 70, 9, false⟩ (by decide)
  cases hdesc.receiverExecutor

end ReferencesState

end Minicomps
