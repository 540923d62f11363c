import Minicomps.Lib.Transition
import Minicomps.Lemmas.World
import Minicomps.References

/-!
# Which list a lookup resolves against

The broker lets go of a list when it replaces it, and references find that out by its expiry. A lookup in progress that still holds
the list puts that off for everybody: until it returns, the other references that have cached what they found in it go on answering
from it. The other ways to an answer that is not the current list's are a handler left over from before a failed lookup, and a list
that is gone before it could be locked.
-/

namespace Minicomps

open Transition

/-- What a slot says about a lookup under way. -/
def Slot.StageTracked (w : World) (slot : Slot) : Option LookupStage → Prop
  | none => True
  | some (.fetched l) => slot.ref.receivers = some l ∧ slot.current = some l
  | some (.locking l c) => slot.ref.receivers = some l ∧ slot.current = some l ∧ w.broker.activeLookups.heap l = [c]
  | some (.asking l c) => slot.ref.receivers = some l ∧ slot.current = some l ∧ w.broker.activeLookups.heap l = [c]
  | some (.overriding l c h) =>
    slot.ref.receivers = some l ∧ slot.current = some l ∧ w.broker.activeLookups.heap l = [c] ∧ ⟨l, c, some h⟩ ∈ slot.asks
  | some (.returning _ answer) => ∃ l, slot.ref.receivers = some l ∧ slot.current = some l ∧ slot.Against w l answer

/-- What holds of a reference that has kept to the broker's lists. -/
structure Slot.Tracked (id : MessageId) (w : World) (slot : Slot) : Prop where
  handle : ∀ l, slot.ref.receivers = some l → w.HandleOf id l
  stage : slot.StageTracked w slot.stage
  /-- A handler found by the last lookup to read a list is what the list's only entry gave. -/
  cached : slot.found = true → ∀ l h, slot.ref.receivers = some l → slot.ref.handler = some h → slot.Against w l (some h)

namespace SlotAux

open World Slot

variable {id : MessageId} {w w' : World} {slot : Slot} {l : ListId} {answer : Option HandlerId} {s t : LookupState}

theorem tracked_new (w : World) : Tracked id w {} where
  handle _ h := by cases h
  stage := trivial
  cached h := by cases h

/-! ## What others do -/

theorem against_world (h : slot.Against w l answer) (hext : w.broker.Extends w'.broker)
    (halive : ∀ c, w'.alive c = true → w.alive c = true) (hl : l < w.broker.activeLookups.next) : slot.Against w' l answer := by
  have hheap : w'.broker.activeLookups.heap l = w.broker.activeLookups.heap l := hext.heap_eq l hl
  cases answer with
  | some handler =>
    obtain ⟨c, hc, hask⟩ := h
    exact ⟨c, hheap.trans hc, hask⟩
  | none =>
    intro c hc
    rcases h c (hheap ▸ hc) with hdead | hask
    · refine Or.inl ?_
      cases hc' : w'.alive c with
      | false => rfl
      | true => rw [halive c hc'] at hdead; cases hdead
    · exact Or.inr hask

/-- Whatever happens to the world, a list keeps its members, and the dead stay dead. -/
theorem tracked_world (h : Tracked id w slot) (hext : w.broker.Extends w'.broker) (halive : ∀ c, w'.alive c = true → w.alive c = true) :
    Tracked id w' slot where
  handle l hl := (h.handle l hl).extends_ hext
  stage := by
    have hstage := h.stage
    cases hst : slot.stage with
    | none => trivial
    | some stage =>
      rw [hst] at hstage
      cases stage with
      | fetched l => exact hstage
      | locking l c | asking l c =>
        obtain ⟨hl, hcurrent, hheap⟩ := hstage
        exact ⟨hl, hcurrent, (hext.heap_eq l ((h.handle l hl).1)).trans hheap⟩
      | overriding l c handler =>
        obtain ⟨hl, hcurrent, hheap, hask⟩ := hstage
        exact ⟨hl, hcurrent, (hext.heap_eq l ((h.handle l hl).1)).trans hheap, hask⟩
      | returning held answer =>
        obtain ⟨l, hl, hcurrent, hagainst⟩ := hstage
        exact ⟨l, hl, hcurrent, against_world hagainst hext halive ((h.handle l hl).1)⟩
  cached hfound l handler hl hhandler := against_world (h.cached hfound l handler hl hhandler) hext halive ((h.handle l hl).1)

/-- A lookup changes the world like any operation does. -/
theorem frame_step {reference : Reference} {a : LookupAction} (hs : s.step id reference a = some t) : Frame id s.world t.world := by
  cases a with
  | start =>
    simp only [LookupState.step, LookupState.start] at hs
    split at hs
    · cases hs
    · split at hs
      · obtain rfl := Option.some.inj hs
        exact (Drops.refl _).frame id
      · obtain rfl := Option.some.inj hs
        exact frame_broker (Broker.extends_lookup s.world.broker id)
  | hold =>
    simp only [LookupState.step, LookupState.hold] at hs
    split at hs
    · split at hs
      · obtain rfl := Option.some.inj hs
        exact (Drops.refl _).frame id
      · split at hs
        all_goals
          obtain rfl := Option.some.inj hs
          exact (Drops.refl _).frame id
    · cases hs
  | lock lost =>
    simp only [LookupState.step, LookupState.lock] at hs
    split at hs
    · rename_i l c _
      have hdrops : s.world.Drops (s.world.repin lost s.slot.ref.receiver (s.world.lock c)) := by
        refine drops_repin lost _ ?_
        intro d hd
        obtain ⟨rfl, halive⟩ := lock_eq_some_iff.mp hd
        exact halive
      split at hs
      all_goals
        obtain rfl := Option.some.inj hs
        exact hdrops.frame id
    · cases hs
  | askHandler =>
    simp only [LookupState.step, LookupState.askHandler] at hs
    split at hs
    · split at hs
      · split at hs
        all_goals
          obtain rfl := Option.some.inj hs
          exact (Drops.refl _).frame id
      · split at hs
        · obtain rfl := Option.some.inj hs
          exact (Drops.refl _).frame id
        · split at hs
          · obtain rfl := Option.some.inj hs
            exact (Drops.refl _).frame id
          · cases hs
    · cases hs
  | askOverride =>
    simp only [LookupState.step, LookupState.askOverride] at hs
    split at hs
    · obtain rfl := Option.some.inj hs
      exact (Drops.refl _).frame id
    · cases hs
  | returnHandler =>
    simp only [LookupState.step, LookupState.returnHandler] at hs
    split at hs
    · obtain rfl := Option.some.inj hs
      exact (Drops.refl _).frame id
    · cases hs

/-- What is remembered besides. -/
theorem tracked_history (h : Tracked id w slot) (missed : Bool) (due : Option Resolution) :
    Tracked id w { slot with missed := missed, due := due } := by
  refine ⟨h.handle, ?_, h.cached⟩
  have hstage := h.stage
  cases hst : slot.stage with
  | none => trivial
  | some stage =>
    rw [hst] at hstage
    cases stage <;> exact hstage

/-! ## The lookup's own steps -/

/-- A cache that is taken for valid, while nobody holds a replaced list it may be from, has a handler, and is from the broker's list. -/
theorem of_hit (h : s.hit = true) (hunheld : s.Unheld) (hhandle : ∀ l, s.slot.ref.receivers = some l → s.world.HandleOf id l) :
    ∃ l handler, s.slot.ref.receivers = some l ∧ s.slot.ref.handler = some handler ∧
      s.world.broker.activeLookups.find id = some l := by
  rw [LookupState.hit, Bool.and_eq_true, Bool.not_eq_true'] at h
  obtain ⟨handler, hhandler⟩ := Option.isSome_iff_exists.mp h.1
  have hvalid := h.2
  cases hl : s.slot.ref.receivers with
  | none =>
    rw [hl] at hvalid
    cases hvalid
  | some l =>
    refine ⟨l, handler, rfl, hhandler, (hhandle l hl).find_of_valid ?_⟩
    cases howns : s.world.broker.owns l with
    | true => simp [World.expired, howns]
    | false => simp [hl, LookupState.expired, howns, hunheld l hl howns] at hvalid

theorem tracked_start {owner : ComponentId} (h : Tracked id s.world s.slot)
    (hC : s.hit = true → s.Unheld ∧ s.slot.found = true)
    (hs : s.start id owner = some t) : Tracked id t.world t.slot := by
  unfold LookupState.start at hs
  split at hs
  · cases hs
  · split at hs
    · rename_i hhit
      obtain rfl := Option.some.inj hs
      obtain ⟨hunheld, hfound⟩ := hC hhit
      obtain ⟨l, handler, hl, hhandler, hfind⟩ := of_hit hhit hunheld h.handle
      have hagainst := h.cached hfound l handler hl hhandler
      rw [← hhandler] at hagainst
      exact ⟨h.handle, ⟨l, hl, hfind, hagainst⟩, h.cached⟩
    · obtain rfl := Option.some.inj hs
      refine ⟨?_, ⟨rfl, rfl⟩, fun hfound => by cases hfound⟩
      intro l hl
      obtain rfl := Option.some.inj hl
      exact handleOf_lookup s.world id

theorem tracked_hold (h : Tracked id s.world s.slot)
    (hC : ∀ l ∈ s.slot.ref.receivers, s.expired (some l) = true → ∀ c ∈ s.world.broker.activeLookups.heap l,
      s.world.broker.activeLookups.heap l = [c] → s.world.alive c = false)
    (hs : s.hold = some t) : Tracked id t.world t.slot := by
  simp only [LookupState.hold] at hs
  split at hs
  · rename_i l hstage
    have hst := h.stage
    rw [hstage] at hst
    obtain ⟨hl, hcurrent⟩ := hst
    split at hs
    · rename_i hexpired
      obtain rfl := Option.some.inj hs
      refine ⟨h.handle, ⟨l, hl, hcurrent, fun c hc => Or.inl ?_⟩, h.cached⟩
      exact hC l hl hexpired c (by rw [hc]; exact List.mem_singleton_self c) hc
    · split at hs
      · rename_i c hheap
        obtain rfl := Option.some.inj hs
        exact ⟨h.handle, ⟨hl, hcurrent, hheap⟩, h.cached⟩
      · rename_i hmany
        obtain rfl := Option.some.inj hs
        exact ⟨h.handle, ⟨l, hl, hcurrent, fun c hc => absurd hc (hmany c)⟩, h.cached⟩
  · cases hs

theorem tracked_lock {lost : ComponentId → List ComponentId} (h : Tracked id s.world s.slot) (hs : s.lock lost = some t) :
    Tracked id t.world t.slot := by
  have hstep : s.step 0 ⟨.interface, 0⟩ (.lock lost) = some t := hs
  have hframe : Frame 0 s.world t.world := frame_step hstep
  have hkept := tracked_world h hframe.extends_ hframe.alive_le
  unfold LookupState.lock at hs
  split at hs
  · rename_i l c hstage
    have hst := h.stage
    rw [hstage] at hst
    obtain ⟨hl, hcurrent, hheap⟩ := hst
    cases halive : s.world.alive c with
    | false =>
      rw [lock_of_dead halive] at hs
      obtain rfl := Option.some.inj hs
      have hheap' := (hframe.extends_.heap_eq l ((h.handle l hl).1)).trans hheap
      refine ⟨hkept.handle, ⟨l, hl, hcurrent, fun d hd => Or.inl ?_⟩, hkept.cached⟩
      obtain rfl := List.singleton_inj.mp (hheap'.symm.trans hd)
      exact Bool.eq_false_iff.mpr fun hd' => by rw [hframe.alive_le c hd'] at halive; cases halive
    | true =>
      rw [lock_of_alive halive] at hs
      obtain rfl := Option.some.inj hs
      exact ⟨hkept.handle, ⟨hl, hcurrent, (hframe.extends_.heap_eq l ((h.handle l hl).1)).trans hheap⟩, hkept.cached⟩
  · cases hs

/-- Being told more does not take away what an answer came from. -/
theorem against_told {slot' : Slot} (h : slot.Against w l answer) (hasks : ∀ a ∈ slot.asks, a ∈ slot'.asks) :
    slot'.Against w l answer := by
  cases answer with
  | some handler =>
    obtain ⟨c, hc, hask⟩ := h
    exact ⟨c, hc, hasks _ hask⟩
  | none => exact fun c hc => (h c hc).imp_right (hasks _)

theorem tracked_askHandler {kind : ReferenceKind} (h : Tracked id s.world s.slot) (hs : s.askHandler id kind = some t) :
    Tracked id t.world t.slot := by
  unfold LookupState.askHandler at hs
  split at hs
  · rename_i l c hstage
    have hst := h.stage
    rw [hstage] at hst
    obtain ⟨hl, hcurrent, hheap⟩ := hst
    -- what the only entry of the list has just said is what the answer comes from
    have htold : ∀ answer d, s.world.broker.activeLookups.heap l = [d] → Ask.mk l d answer ∈ s.slot.asks ++ [Ask.mk l c answer] := by
      intro answer d hd
      obtain rfl := List.singleton_inj.mp (hheap.symm.trans hd)
      exact List.mem_append_right _ List.mem_cons_self
    cases kind with
    | query kind =>
      cases hhandler : kind.lookupHandler (s.world.component c) id with
      | none =>
        simp only [hhandler] at hs
        obtain rfl := Option.some.inj hs
        exact ⟨h.handle, ⟨l, hl, hcurrent, fun d hd => Or.inr (htold none d hd)⟩, fun _ _ _ _ hnone => by cases hnone⟩
      | some handler =>
        simp only [hhandler] at hs
        obtain rfl := Option.some.inj hs
        refine ⟨h.handle, ⟨hl, hcurrent, hheap, htold _ c hheap⟩, ?_⟩
        intro _ l' h' hl' hh'
        obtain rfl := Option.some.inj (hl.symm.trans hl')
        obtain rfl := Option.some.inj hh'
        exact ⟨c, hheap, htold _ c hheap⟩
    | interface =>
      cases himpl : (s.world.component c).lookupInterface id with
      | none =>
        simp only [himpl] at hs
        obtain rfl := Option.some.inj hs
        exact ⟨h.handle, ⟨l, hl, hcurrent, fun d hd => Or.inr (htold none d hd)⟩,
          fun hfound l' h' hl' hh' => against_told (h.cached hfound l' h' hl' hh') fun _ ha => List.mem_append_left _ ha⟩
      | some impl =>
        simp only [himpl] at hs
        split at hs
        · obtain rfl := Option.some.inj hs
          refine ⟨h.handle, ⟨l, hl, hcurrent, c, hheap, htold _ c hheap⟩, ?_⟩
          intro _ l' h' hl' hh'
          obtain rfl := Option.some.inj (hl.symm.trans hl')
          obtain rfl := Option.some.inj hh'
          exact ⟨c, hheap, htold _ c hheap⟩
        · cases hs
  · cases hs

theorem tracked_askOverride {owner : ComponentId} (h : Tracked id s.world s.slot) (hs : s.askOverride id owner = some t) :
    Tracked id t.world t.slot := by
  unfold LookupState.askOverride at hs
  split at hs
  · rename_i l c handler hstage
    obtain rfl := Option.some.inj hs
    have hst := h.stage
    rw [hstage] at hst
    obtain ⟨hl, hcurrent, hheap, hask⟩ := hst
    exact ⟨h.handle, ⟨l, hl, hcurrent, c, hheap, hask⟩, h.cached⟩
  · cases hs

theorem tracked_returnHandler (h : Tracked id s.world s.slot) (hs : s.returnHandler = some t) : Tracked id t.world t.slot := by
  unfold LookupState.returnHandler at hs
  split at hs
  · obtain rfl := Option.some.inj hs
    exact ⟨h.handle, trivial, h.cached⟩
  · cases hs

end SlotAux

namespace ReferencesState

open SlotAux

variable {id : MessageId} {refs : RefId → Reference} {s s' : ReferencesState}

/-- Every reference has kept to the broker's lists. -/
def Tracked (id : MessageId) (s : ReferencesState) : Prop := ∀ r, (s.slots r).Tracked id s.world

/-- A lookup of a reference, and what it does to the others. -/
theorem tracked_lookup {r : RefId} {a : LookupAction} (h : s.Tracked id) (hC : s.CacheCurrent (.lookup r a))
    (hs : s.lookup id refs r a = some s') : s'.Tracked id := by
  obtain ⟨t, ht, rfl⟩ := Option.map_eq_some_iff.mp hs
  have hframe := frame_step ht
  intro r'
  by_cases hr : r' = r
  · subst hr
    change (Function.update s.slots r' t.slot r').Tracked id t.world
    rw [Function.update_self]
    have hr' : (s.view r').slot.Tracked id (s.view r').world := h r'
    cases a with
    | start => exact tracked_start hr' hC ht
    | hold => exact tracked_hold hr' hC ht
    | lock => exact tracked_lock hr' ht
    | askHandler => exact tracked_askHandler hr' ht
    | askOverride => exact tracked_askOverride hr' ht
    | returnHandler => exact tracked_returnHandler hr' ht
  · change (Function.update s.slots r t.slot r').Tracked id t.world
    rw [Function.update_of_ne hr]
    exact tracked_world (h r') hframe.extends_ hframe.alive_le

theorem tracked_step {a : ReferencesAction} (h : s.Tracked id) (hC : s.CacheCurrent a) (hs : s.step id refs a = some s') :
    s'.Tracked id := by
  obtain ⟨t, ht, rfl⟩ := Option.map_eq_some_iff.mp hs
  have htracked : t.Tracked id := by
    cases a with
    | world op =>
      obtain ⟨w, hw, rfl⟩ := Option.map_eq_some_iff.mp ht
      have hframe := World.step_frame hw id
      exact fun r => tracked_world (h r) hframe.extends_ hframe.alive_le
    | associate p =>
      simp only [associate] at ht
      split at ht
      · obtain rfl := Option.some.inj ht
        exact fun r => tracked_world (h r) (Broker.associate_spec s.world.broker id p.component).1 fun _ hc => hc
      · cases ht
    | storeHandler p =>
      simp only [storeHandler] at ht
      split at ht
      · obtain rfl := Option.some.inj ht
        intro r
        have hr : (s.slots r).Tracked id (storeAsyncHandler id p s.world) := tracked_world (h r) (Broker.Extends.refl _) fun _ hc => hc
        exact tracked_history hr _ _
      · cases ht
    | storeOverride p =>
      simp only [storeOverride] at ht
      split at ht
      · obtain rfl := Option.some.inj ht
        intro r
        have hr : (s.slots r).Tracked id (storeExecutorOverride id p s.world) := tracked_world (h r) (Broker.Extends.refl _) fun _ hc => hc
        exact tracked_history hr _ _
      · cases ht
    | lookup r a => exact tracked_lookup h hC ht
  exact fun r => tracked_history (htracked r) _ _

theorem resolvesCurrent_of_tracked {a : ReferencesAction} (h : s.Tracked id) : s.ResolvesCurrent a := by
  cases a with
  | lookup r a =>
    cases a with
    | returnHandler =>
      intro held answer hstage
      have hst := (h r).stage
      rw [hstage] at hst
      obtain ⟨l, -, hcurrent, hagainst⟩ := hst
      exact ⟨l, hcurrent, hagainst⟩
    | start | hold | lock | askHandler | askOverride => trivial
  | world | associate | storeHandler | storeOverride => trivial

instance (s : ReferencesState) : ∀ a, Decidable (s.CacheCurrent a)
  | .lookup r .start => inferInstanceAs (Decidable ((s.view r).hit = true → (s.view r).Unheld ∧ (s.slots r).found = true))
  | .lookup r .hold => inferInstanceAs (Decidable (∀ l ∈ (s.slots r).ref.receivers, (s.view r).expired (some l) = true →
      ∀ c ∈ s.world.broker.activeLookups.heap l, s.world.broker.activeLookups.heap l = [c] → s.world.alive c = false))
  | .lookup _ (.lock _) | .lookup _ .askHandler | .lookup _ .askOverride | .lookup _ .returnHandler | .world _ | .associate _
    | .storeHandler _ | .storeOverride _ => isTrue trivial

/-- In every run in which no lookup is answered from the cache while another one holds a replaced list it is from, and no lookup loses the
list it was given, every lookup returns what the list gives that was the broker's when the lookup started, whatever lists other
lookups still hold. -/
theorem lookups_resolve_current (id : MessageId) (refs : RefId → Reference) (component : ComponentId → Component)
    (others : ComponentId → Nat) (acts : List ReferencesAction)
    (h : AllSteps (step id refs) CacheCurrent (init component others) acts) :
    AllSteps (step id refs) ResolvesCurrent (init component others) acts :=
  AllSteps.imp (P := Tracked id) (fun _ _ _ => tracked_step) (fun _ _ hs _ => resolvesCurrent_of_tracked hs)
    (fun _ => tracked_new _) h

/-- A whole lookup through the reference, when the list has one entry and that a handler. -/
def wholeLookup (r : RefId) : List ReferencesAction :=
  [.lookup r .start, .lookup r .hold, .lookup r (.lock fun _ => []), .lookup r .askHandler, .lookup r .askOverride,
    .lookup r .returnHandler]

/-- A query of component 1, and two references to it. -/
def twoReferences : RefId → Reference := fun _ => { kind := .query .sync, owner := 0 }

/-- Component 1 is unpublished and published again while reference 1 is in a lookup, which holds the list it has read; reference 0,
which has not looked the query up before, gets the new handler. -/
theorem lookups_resolve_current_held :
    AllSteps (step 7 twoReferences) ResolvesCurrent (init (fun c => { defaultExecutor := c }) fun _ => 1)
      ([.world (.publishSyncQuery 1 7 70), .lookup 1 .start, .lookup 1 .hold, .world (.unpublishDependencies 1),
        .world (.publishSyncQuery 1 7 71)] ++ wholeLookup 0) :=
  lookups_resolve_current 7 twoReferences _ _ _ (by decide)

/-- Reference 0 has cached the handler; reference 1 is in a lookup when component 1 is unpublished, and reference 0 is asked again. -/
def listHeld : List ReferencesAction :=
  [.world (.publishSyncQuery 1 7 70)] ++ wholeLookup 0 ++
    [.lookup 1 .start, .lookup 1 .hold, .world (.unpublishDependencies 1), .lookup 0 .start]

/-- Not every lookup resolves against the list that is the broker's when it starts: as long as another lookup holds the old list, the
cache that was filled from it counts as valid. -/
theorem list_held_by_another :
    ¬∀ acts, AllSteps (step 7 twoReferences) ResolvesCurrent (init (fun c => { defaultExecutor := c }) fun _ => 1) acts := by
  intro h
  obtain ⟨s, hs⟩ : ∃ s, run (step 7 twoReferences) (init (fun c => { defaultExecutor := c }) fun _ => 1) listHeld = some s := ⟨_, rfl⟩
  have hlast := allSteps_iff.mp (h (listHeld ++ [.lookup 0 .returnHandler])) listHeld (.lookup 0 .returnHandler) [] s rfl hs
  obtain rfl := Option.some.inj hs
  obtain ⟨l, hcurrent, c, hheap, -⟩ := hlast none (some 70) rfl
  obtain rfl := Option.some.inj hcurrent
  cases hheap

end ReferencesState

end Minicomps
