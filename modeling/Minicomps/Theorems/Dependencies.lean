import Minicomps.Theorems.MonoRef
import Minicomps.Theorems.PolyRef
import Minicomps.Theorems.InterfaceRef
import Minicomps.Dependencies

/-!
# When a component describes its dependencies faithfully

A reference whose resolution fails keeps the receiver it had, or none, and its info names that; so a reference to a query or to an
interface is described right only where it resolves. What a component has published is never taken off its list.
-/

namespace Minicomps

open Transition

namespace DependenciesAux

open World DependencyRef DependencyState

/-! ## Worlds in which references find the same -/

/-- The same components are listed, with the same tables, and alive. -/
structure Alike (w w' : World) : Prop where
  receivers : ∀ id, w'.broker.receivers id = w.broker.receivers id
  component : w'.component = w.component
  alive : w'.alive = w.alive

namespace Alike

variable {w w' : World} {id : MessageId}

theorem sole {β : Type*} (ask : Component → MessageId → Option β) (h : Alike w w') : w'.sole ask id = w.sole ask id := by
  simp only [World.sole, h.receivers, h.component, h.alive]

theorem soleLive (h : Alike w w') : w'.SoleLive id ↔ w.SoleLive id := by
  simp only [World.SoleLive, h.receivers, h.alive]

theorem resolve (h : Alike w w') (kind : QueryKind) (owner : ComponentId) : w'.resolve kind id owner = w.resolve kind id owner := by
  rw [World.resolve, World.resolve, h.sole]
  simp only [World.handlerExecutor, h.component]
  rfl

theorem subscribers (h : Alike w w') (owner : ComponentId) : w'.subscribers id owner = w.subscribers id owner := by
  simp only [World.subscribers, h.receivers, h.alive]
  refine List.filterMap_congr fun c _ => ?_
  simp only [World.receiverHandler, h.component]

end Alike

/-- No reference is in the middle of anything. -/
def AtRest (w : World) : Prop := ∀ c, w.cached c = 0

theorem alive_of_atRest {w : World} (h : AtRest w) {c : ComponentId} : w.alive c = true ↔ 0 < w.others c := by
  simp only [alive, h c, Nat.add_zero, decide_eq_true_eq]

/-- A reference that holds pointers to components that are held anyway sees the world as it is. -/
theorem alike_seenBy {w : World} (h : AtRest w) {receivers : List ComponentId} (hheld : ∀ c ∈ receivers, 0 < w.others c) :
    Alike w (w.seenBy receivers) where
  receivers _ := rfl
  component := rfl
  alive := by
    funext c
    by_cases hc : c ∈ receivers
    · have hothers := hheld c hc
      rw [(alive_of_atRest h).mpr hothers, alive, decide_eq_true_eq]
      exact Nat.lt_of_lt_of_le hothers (Nat.le_add_right ..)
    · simp only [alive, seenBy, h c, List.count_eq_zero_of_not_mem hc]

/-- Lists have been asked for and pointers taken, and some other pointers dropped. -/
structure Unharmed (w w' : World) : Prop where
  extends_ : w.broker.Extends w'.broker
  receivers : ∀ id, w'.broker.receivers id = w.broker.receivers id
  component : w'.component = w.component
  others : w'.others = w.others
  implemented : w'.implemented = w.implemented

theorem Unharmed.refl (w : World) : Unharmed w w := ⟨Broker.Extends.refl _, fun _ => rfl, rfl, rfl, rfl⟩

theorem Unharmed.trans {w w' w'' : World} (h : Unharmed w w') (h' : Unharmed w' w'') : Unharmed w w'' where
  extends_ := h.extends_.trans h'.extends_
  receivers id := (h'.receivers id).trans (h.receivers id)
  component := h'.component.trans h.component
  others := h'.others.trans h.others
  implemented := h'.implemented.trans h.implemented

theorem unharmed_asked (w : World) (id : MessageId) : Unharmed w (asked w id) :=
  ⟨Broker.extends_lookup .., fun _ => Broker.receivers_lookup .., rfl, rfl, rfl⟩

theorem unharmed_pin (w : World) (c : ComponentId) : Unharmed w (w.pin c) := ⟨Broker.Extends.refl _, fun _ => rfl, rfl, rfl, rfl⟩

/-- Dropping a pointer to a component that somebody else holds. -/
theorem unharmed_unpin (lost : ComponentId → List ComponentId) {w : World} {c : ComponentId} (h : 0 < w.others c) :
    Unharmed w (w.unpin lost c) := by
  have halive : ({ w with cached := Function.update w.cached c (w.cached c - 1) } : World).alive c = true := by
    simp only [alive, decide_eq_true_eq]
    omega
  simp only [unpin, halive, if_true]
  exact ⟨Broker.Extends.refl _, fun _ => rfl, rfl, rfl, rfl⟩

theorem unharmed_repin (lost : ComponentId → List ComponentId) {w : World} {old : Option ComponentId}
    (h : ∀ c, old = some c → 0 < w.others c) (new : Option ComponentId) : Unharmed w (w.repin lost old new) := by
  have hpin : Unharmed w (w.pinSome new) := by
    cases new with
    | none => exact Unharmed.refl w
    | some c => exact unharmed_pin w c
  cases old with
  | none => exact hpin
  | some c => exact hpin.trans (unharmed_unpin lost (hpin.others ▸ h c rfl))

/-- Fetching a receiver, for a reference whose old receiver somebody else holds. -/
theorem unharmed_fetchReceiver (id : MessageId) (lost : ComponentId → List ComponentId) {w : World} {receiver : Option ComponentId}
    (h : ∀ c, receiver = some c → 0 < w.others c) : Unharmed w (w.fetchReceiver id lost receiver).world := by
  simp only [fetchReceiver]
  split
  · exact (unharmed_asked w id).trans (unharmed_repin (w := asked w id) lost h _)
  · exact unharmed_asked w id

/-- The receiver is the old one, or one that could be locked. -/
theorem receiver_fetchReceiver {id : MessageId} {lost : ComponentId → List ComponentId} {w : World} {receiver : Option ComponentId}
    {c : ComponentId} (h : (w.fetchReceiver id lost receiver).receiver = some c) : receiver = some c ∨ w.alive c = true := by
  simp only [fetchReceiver] at h
  split at h
  · obtain ⟨rfl, halive⟩ := lock_eq_some_iff.mp h
    exact Or.inr halive
  · exact Or.inl h

/-- The pointers that were there before are put back. -/
theorem Unharmed.back {w w' : World} {receivers : List ComponentId} (h : Unharmed (w.seenBy receivers) w') :
    Unharmed w { w' with cached := w.cached } :=
  ⟨h.extends_, h.receivers, h.component, h.others, h.implemented⟩

/-- The world before that, for a reference with the pointers it has now. -/
theorem seenBy_back {w : World} {receivers : List ComponentId} (cached : ComponentId → Nat)
    (h : ∀ c, w.cached c = receivers.count c) : ({ w with cached := cached } : World).seenBy receivers = w := by
  cases w
  simp only [seenBy, World.mk.injEq, true_and, and_true]
  exact (funext h).symm

theorem Unharmed.alike {w w' : World} (h : Unharmed w w') (hcached : w'.cached = w.cached) : Alike w w' where
  receivers := h.receivers
  component := h.component
  alive := by
    funext c
    simp only [World.alive, h.others, hcached]

/-! ## Worlds that go on -/

/-- `w'` is `w` after some operations that destroy nothing. -/
structure Grows (w w' : World) : Prop where
  extends_ : w.broker.Extends w'.broker
  held : ∀ c, 0 < w.others c → 0 < w'.others c
  implemented : ∀ impl, w.implemented impl = true → w'.implemented impl = true
  alive_le : ∀ id, ∀ c ∈ w.broker.receivers id, w'.alive c = true → w.alive c = true
  defaultExecutor : ∀ c, w.alive c = true → (w'.component c).defaultExecutor = (w.component c).defaultExecutor
  sameAt : ∀ id l, w.broker.activeLookups.find id = some l → w'.broker.activeLookups.find id = some l →
    ∀ c ∈ w.broker.receivers id, (w.component c).SameAt id (w'.component c)

theorem Unharmed.grows {w w' : World} (h : Unharmed w w') (hcached : w'.cached = w.cached) : Grows w w' where
  extends_ := h.extends_
  held c hc := h.others ▸ hc
  implemented impl himpl := h.implemented ▸ himpl
  alive_le _ c _ hc := by rwa [(h.alike hcached).alive] at hc
  defaultExecutor c _ := by rw [h.component]
  sameAt id _ _ _ c _ := h.component ▸ Component.SameAt.refl id _

/-- What a valid handle still shows after that. -/
theorem Grows.valid {w w' : World} (h : Grows w w') {id : MessageId} {l : ListId} (hl : w.HandleOf id l)
    (hvalid : w'.expired (some l) = false) :
    w.expired (some l) = false ∧ w.broker.activeLookups.find id = some l ∧ w'.broker.activeLookups.find id = some l ∧
      w'.broker.receivers id = w.broker.receivers id :=
  hl.valid_of_extends h.extends_ hvalid

/-- A fresh resolution finds what it found, if it finds anything. -/
theorem Grows.sole_eq {β : Type*} {ask : Component → MessageId → Option β} {id : MessageId} (hask : Asks ask id) {w w' : World}
    (h : Grows w w') {l : ListId} (hl : w.HandleOf id l) (hvalid : w'.expired (some l) = false) (hsole : w'.SoleLive id) :
    w.SoleLive id ∧ w'.sole ask id = w.sole ask id := by
  obtain ⟨c, hc, halive⟩ := hsole
  obtain ⟨-, hfind, hfind', hreceivers⟩ := h.valid hl hvalid
  have hc₀ : w.broker.receivers id = [c] := hreceivers.symm.trans hc
  have hmem : c ∈ w.broker.receivers id := hc₀ ▸ List.mem_singleton_self c
  have halive₀ := h.alive_le id c hmem halive
  exact ⟨⟨c, hc₀, halive₀⟩, sole_congr hask hc₀ halive₀ hc halive (h.sameAt id l hfind hfind' c hmem)⟩

/-! ## References -/

/-- What the three kinds of references have to offer. -/
class LawfulRef (ρ : Type) [DependencyRef ρ] where
  /-- What holds of a reference in every history. -/
  Sound (owner : ComponentId) (w : World) (r : ρ) : Prop
  sound_of_grows {owner : ComponentId} {w w' : World} {r : ρ} (h : Sound owner w r) (hrest : AtRest w) (hrest' : AtRest w')
    (howner : 0 < w.others owner) (hg : Grows w w') : Sound owner w' r
  /-- A sound reference resolves, and its info names what a fresh resolution reaches, if and only if it can resolve. -/
  resolves {owner : ComponentId} {w : World} {r : ρ} (h : Sound owner w r) (hrest : AtRest w) :
    (∃ r' w', forceResolve owner w r = some (r', w') ∧ Unharmed w w' ∧ w'.cached = w.cached ∧ Sound owner w' r' ∧
        (createDependencyInfo r' = freshInfo owner w r ↔ Resolves owner w r)) ∨
      (forceResolve owner w r = none ∧ ¬Resolves owner w r)
  freshInfo_alike {owner : ComponentId} {w w' : World} (r : ρ) (h : Alike w w') : freshInfo owner w' r = freshInfo owner w r
  resolves_alike {owner : ComponentId} {w w' : World} (r : ρ) (h : Alike w w') (himpl : w'.implemented = w.implemented) :
    Resolves owner w' r ↔ Resolves owner w r
  isReference (r : ρ) : (createDependencyInfo r).isReference = true

/-- The only target of an info is the only component that is reached. -/
theorem singleton_eq_map_toList {β : Type*} {f : β → ComponentId} {x : Option ComponentId} {res : Option β}
    (h : ∀ b, res = some b → x = some (f b)) : [x] = (res.toList.map f).map some ↔ res.isSome = true := by
  cases res with
  | none => simp
  | some b => simp [h b rfl]

/-! ### References to queries -/

/-- What holds of a reference to a query. -/
structure QuerySound (owner : ComponentId) (w : World) (r : QueryRef) : Prop where
  held : ∀ c, r.ref.receiver = some c → 0 < w.others c
  handle : ∀ l, r.ref.receivers = some l → w.HandleOf r.id l
  coherent : r.ref.handler.isSome = true → w.expired r.ref.receivers = false → w.SoleLive r.id →
    ∃ res, w.resolve r.kind r.id owner = some res ∧ r.ref.Describes res

theorem count_toList (receiver : Option ComponentId) (c : ComponentId) :
    receiver.toList.count c = if receiver = some c then 1 else 0 := by
  cases receiver with
  | none => rfl
  | some d => simp [List.count_singleton, beq_iff_eq]

theorem held_toList {w : World} {receiver : Option ComponentId} (h : ∀ c, receiver = some c → 0 < w.others c) :
    ∀ c ∈ receiver.toList, 0 < w.others c := fun c hc => h c (Option.mem_toList.mp hc)

theorem alive_seenBy_toList {w : World} (hrest : AtRest w) {receiver : Option ComponentId} (h : ∀ c, receiver = some c → 0 < w.others c)
    {c : ComponentId} (hc : (w.seenBy receiver.toList).alive c = true) : 0 < w.others c := by
  rw [(alike_seenBy hrest (held_toList h)).alive] at hc
  exact (alive_of_atRest hrest).mp hc

theorem unharmed_monoRef (kind : QueryKind) (id : MessageId) (owner : ComponentId) (lost : ComponentId → List ComponentId) {w : World}
    {r : MonoRef} (h : ∀ c, r.receiver = some c → 0 < w.others c) :
    Unharmed w (r.lookup kind id owner lost w).2.2 ∧
      ∀ c, (r.lookup kind id owner lost w).2.1.receiver = some c → r.receiver = some c ∨ w.alive c = true := by
  have hf := unharmed_fetchReceiver id lost h
  unfold MonoRef.lookup
  split
  · exact ⟨Unharmed.refl w, fun c hc => Or.inl hc⟩
  · simp only [MonoRef.refetch]
    split
    · exact ⟨hf, fun c hc => receiver_fetchReceiver hc⟩
    · split
      · exact ⟨hf, fun c hc => receiver_fetchReceiver hc⟩
      · exact ⟨hf, fun c hc => receiver_fetchReceiver hc⟩

theorem querySound_of_grows {owner : ComponentId} {w w' : World} {r : QueryRef} (h : QuerySound owner w r) (hrest : AtRest w)
    (howner : 0 < w.others owner) (hg : Grows w w') : QuerySound owner w' r where
  held c hc := hg.held c (h.held c hc)
  handle l hl := (h.handle l hl).extends_ hg.extends_
  coherent hhandler hvalid hsole := by
    cases hl : r.ref.receivers with
    | none =>
      rw [hl] at hvalid
      cases hvalid
    | some l =>
      rw [hl] at hvalid
      obtain ⟨hvalid₀, hfind, hfind', -⟩ := hg.valid (h.handle l hl) hvalid
      obtain ⟨hsole₀, heq⟩ := hg.sole_eq MonoRefAux.asks_lookupHandler (h.handle l hl) hvalid hsole
      obtain ⟨res, hres, hdescribes⟩ := h.coherent hhandler (hl ▸ hvalid₀) hsole₀
      refine ⟨res, ?_, hdescribes⟩
      rw [← hres]
      refine MonoRefAux.resolve_congr heq (hg.defaultExecutor owner ((alive_of_atRest hrest).mpr howner)) ?_
      intro c hc
      exact hg.sameAt r.id l hfind hfind' c (hc ▸ List.mem_singleton_self c)

/-- What a lookup does in a world at rest. -/
structure QueryLookedUp (owner : ComponentId) (w : World) (r : QueryRef) (out : Option HandlerId × MonoRef × World) : Prop where
  unharmed : Unharmed w { out.2.2 with cached := w.cached }
  sound : QuerySound owner { out.2.2 with cached := w.cached } { r with ref := out.2.1 }
  answer_of_new : r.ref.handler = none → out.1 = (w.resolve r.kind r.id owner).map Resolution.handler
  describes : ∀ res, w.resolve r.kind r.id owner = some res → out.1 = some res.handler ∧ out.2.1.Describes res

theorem query_lookedUp {owner : ComponentId} {w : World} {r : QueryRef} (h : QuerySound owner w r) (hrest : AtRest w) :
    QueryLookedUp owner w r (r.ref.lookup r.kind r.id owner (fun _ => []) (w.seenBy r.ref.receiver.toList)) := by
  have hlike := alike_seenBy hrest (held_toList h.held)
  have hsound : MonoRef.Sound r.kind r.id owner ⟨w.seenBy r.ref.receiver.toList, r.ref⟩ := by
    refine ⟨fun c => count_toList .., h.handle, ?_⟩
    intro hhandler hvalid hsole
    obtain ⟨res, hres, hdescribes⟩ := h.coherent hhandler hvalid (hlike.soleLive.mp hsole)
    exact ⟨res, (hlike.resolve ..).trans hres, hdescribes⟩
  have hcorrect := MonoRefAux.correct_iff_notStale (a := .lookup fun _ => []) hsound
  have hlookup := unharmed_monoRef r.kind r.id owner (fun _ => []) (w := w.seenBy r.ref.receiver.toList) h.held
  have hsound' := MonoRefAux.sound_step (a := .lookup fun _ => []) hsound rfl
  simp only [MonoRef.Correct, MonoRef.NotStale] at hcorrect
  obtain ⟨⟨answer, ref, w'⟩, hout⟩ :
      ∃ out, r.ref.lookup r.kind r.id owner (fun _ => []) (w.seenBy r.ref.receiver.toList) = out := ⟨_, rfl⟩
  rw [hout]
  simp only [hout, hlike.resolve] at hcorrect hlookup hsound'
  obtain ⟨hunharmed, hreceiver⟩ := hlookup
  have hheld : ∀ c, ref.receiver = some c → 0 < w'.others c := by
    intro c hc
    rw [hunharmed.others]
    rcases hreceiver c hc with hold | halive
    · exact h.held c hold
    · exact alive_seenBy_toList hrest h.held halive
  have hlike' : Alike { w' with cached := w.cached } w' := by
    have := alike_seenBy (w := { w' with cached := w.cached }) hrest (held_toList hheld)
    rwa [seenBy_back w.cached fun c => (hsound'.holds c).trans (count_toList ..).symm] at this
  refine ⟨hunharmed.back, ⟨hheld, hsound'.handle, ?_⟩, ?_, ?_⟩
  · intro hhandler hvalid hsole
    obtain ⟨res, hres, hdescribes⟩ := hsound'.coherent hhandler hvalid (hlike'.soleLive.mpr hsole)
    exact ⟨res, (hlike'.resolve ..).symm.trans hres, hdescribes⟩
  · intro hnew
    refine (hcorrect.mpr fun hstale => ?_).2.1
    have hold : r.ref.handler.isSome = true := hstale.1
    rw [hnew] at hold
    cases hold
  · intro res hres
    obtain ⟨⟨c, handler⟩, hsole, -⟩ := Option.map_eq_some_iff.mp hres
    have hlive : (w.seenBy r.ref.receiver.toList).SoleLive r.id :=
      hlike.soleLive.mpr ⟨c, (sole_eq_some hsole).1, (sole_eq_some hsole).2.1⟩
    obtain ⟨-, hanswer, hdescribes⟩ := hcorrect.mpr fun hstale => hstale.2.2 hlive
    rw [hres] at hanswer
    exact ⟨hanswer, hdescribes res hres⟩

theorem query_resolves {owner : ComponentId} {w : World} {r : QueryRef} (h : QuerySound owner w r) (hrest : AtRest w) :
    ∃ r' w', forceResolve owner w r = some (r', w') ∧ Unharmed w w' ∧ w'.cached = w.cached ∧ QuerySound owner w' r' ∧
      (createDependencyInfo r' = freshInfo owner w r ↔ Resolves owner w r) := by
  have hlookup := query_lookedUp h hrest
  refine ⟨_, _, rfl, hlookup.unharmed, rfl, hlookup.sound, ?_⟩
  simp only [freshInfo, createDependencyInfo, reaches, Resolves, DependencyInfo.mk.injEq, true_and]
  exact singleton_eq_map_toList fun res hres => (hlookup.describes res hres).2.receiver

instance : LawfulRef QueryRef where
  Sound := QuerySound
  sound_of_grows h hrest _ howner hg := querySound_of_grows h hrest howner hg
  resolves h hrest := Or.inl (query_resolves h hrest)
  freshInfo_alike r h := by simp only [freshInfo, reaches, h.resolve]
  resolves_alike r h _ := by simp only [Resolves, h.resolve]
  isReference _ := rfl

/-! ### References to events -/

/-- What holds of a reference to an event. -/
structure EventSound (owner : ComponentId) (w : World) (r : EventRef) : Prop where
  held : ∀ c ∈ r.ref.receiverHandlers.map ReceiverHandler.receivingComponent, 0 < w.others c
  handle : ∀ l, r.ref.receivers = some l → w.HandleOf r.id l
  fresh : r.ref.receiverHandlers ≠ [] → w.expired r.ref.receivers = false → r.ref.receiverHandlers = w.subscribers r.id owner

theorem unharmed_clear (lost : ComponentId → List ComponentId) (handlers : List ReceiverHandler) :
    ∀ w : World, (∀ c ∈ handlers.map ReceiverHandler.receivingComponent, 0 < w.others c) →
      Unharmed w (PolyRef.clear lost w handlers) := by
  induction handlers with
  | nil => exact fun w _ => Unharmed.refl w
  | cons handler handlers ih =>
    intro w h
    have hunpin : Unharmed w (w.unpin lost handler.receivingComponent) := unharmed_unpin lost (h _ List.mem_cons_self)
    exact hunpin.trans (ih _ fun c hc => hunpin.others ▸ h c (List.mem_cons_of_mem _ hc))

theorem unharmed_collect (id : MessageId) (owner : ComponentId) (receivers : List ComponentId) :
    ∀ w : World, Unharmed w (PolyRef.collect id owner receivers w).2 := by
  induction receivers with
  | nil => exact Unharmed.refl
  | cons c receivers ih =>
    intro w
    unfold PolyRef.collect
    split
    · exact ih w
    · split
      · exact ih w
      · exact (unharmed_pin w _).trans (ih _)

theorem unharmed_polyRef (id : MessageId) (owner : ComponentId) (lost : ComponentId → List ComponentId) {w : World} {r : PolyRef}
    (h : ∀ c ∈ r.receiverHandlers.map ReceiverHandler.receivingComponent, 0 < w.others c) :
    Unharmed w (r.lookup id owner lost w).2.2 := by
  unfold PolyRef.lookup
  split
  · exact Unharmed.refl w
  · have hclear := unharmed_clear lost r.receiverHandlers (asked w id) h
    exact (unharmed_asked w id).trans (hclear.trans (unharmed_collect ..))

/-- The answer is what the reference keeps, and no component comes to life. -/
theorem answer_polyRef {id : MessageId} {owner : ComponentId} {w : World} {r : PolyRef} (h : PolyRef.Sound id owner ⟨w, r⟩)
    (lost : ComponentId → List ComponentId) :
    (r.lookup id owner lost w).1 = (r.lookup id owner lost w).2.1.receiverHandlers ∧
      ∀ c, (r.lookup id owner lost w).2.2.alive c = true → w.alive c = true := by
  unfold PolyRef.lookup
  split
  · exact ⟨rfl, fun _ hc => hc⟩
  · have hout := PolyRefAux.refetched id owner lost h.pinned
    exact ⟨hout.receiverHandlers.symm, fun c hc => hout.drops.alive_le c hc⟩

theorem alive_of_mem_subscribers {w : World} {id : MessageId} {owner c : ComponentId}
    (h : c ∈ (w.subscribers id owner).map ReceiverHandler.receivingComponent) : w.alive c = true := by
  obtain ⟨handler, hhandler, rfl⟩ := List.mem_map.mp h
  exact (World.of_mem_subscribers hhandler).1

theorem eventSound_of_grows {owner : ComponentId} {w w' : World} {r : EventRef} (h : EventSound owner w r) (hrest : AtRest w)
    (hrest' : AtRest w') (howner : 0 < w.others owner) (hg : Grows w w') : EventSound owner w' r where
  held c hc := hg.held c (h.held c hc)
  handle l hl := (h.handle l hl).extends_ hg.extends_
  fresh hne hvalid := by
    cases hl : r.ref.receivers with
    | none =>
      rw [hl] at hvalid
      cases hvalid
    | some l =>
      rw [hl] at hvalid
      obtain ⟨hvalid₀, hfind, hfind', hreceivers⟩ := hg.valid (h.handle l hl) hvalid
      rw [h.fresh hne (hl ▸ hvalid₀), subscribers, subscribers, hreceivers]
      have halive : ∀ c ∈ w.broker.receivers r.id, w'.alive c = w.alive c := by
        intro c hc
        refine Bool.eq_iff_iff.mpr ⟨hg.alive_le r.id c hc, fun hlive => ?_⟩
        exact (alive_of_atRest hrest').mpr (hg.held c ((alive_of_atRest hrest).mp hlive))
      rw [List.filter_congr halive]
      refine List.filterMap_congr fun c hc => ?_
      have hsame := hg.sameAt r.id l hfind hfind' c (List.mem_of_mem_filter hc)
      simp only [receiverHandler, Component.lookupAsyncHandler, hsame.asyncHandlers, hsame.defaultExecutor,
        hg.defaultExecutor owner ((alive_of_atRest hrest).mpr howner)]

theorem event_resolves {owner : ComponentId} {w : World} {r : EventRef} (h : EventSound owner w r) (hrest : AtRest w) :
    ∃ r' w', forceResolve owner w r = some (r', w') ∧ Unharmed w w' ∧ w'.cached = w.cached ∧ EventSound owner w' r' ∧
      createDependencyInfo r' = freshInfo owner w r := by
  obtain ⟨receivers, hreceivers⟩ : ∃ l, l = r.ref.receiverHandlers.map ReceiverHandler.receivingComponent := ⟨_, rfl⟩
  have hlike : Alike w (w.seenBy receivers) := alike_seenBy hrest (hreceivers ▸ h.held)
  have hsound : PolyRef.Sound r.id owner ⟨w.seenBy receivers, r.ref⟩ := by
    refine ⟨fun c => by rw [hreceivers]; rfl, h.handle, fun hne hvalid => ?_⟩
    exact (h.fresh hne hvalid).trans (hlike.subscribers owner).symm
  have hcorrect := PolyRefAux.correct_of_sound (a := .lookup fun _ => []) hsound
  have hsound' := PolyRefAux.sound_step (a := .lookup fun _ => []) hsound rfl
  have hunharmed := unharmed_polyRef r.id owner (fun _ => []) (w := w.seenBy receivers) (r := r.ref) (hreceivers ▸ h.held)
  have hanswer := answer_polyRef hsound fun _ => []
  simp only [PolyRef.Correct] at hcorrect
  obtain ⟨⟨answer, ref, w'⟩, hout⟩ : ∃ out, r.ref.lookup r.id owner (fun _ => []) (w.seenBy receivers) = out := ⟨_, rfl⟩
  have hresolve : forceResolve owner w r = some ({ r with ref := ref }, { w' with cached := w.cached }) := by
    simp only [forceResolve, ← hreceivers, hout]
  simp only [hout] at hcorrect hunharmed hsound' hanswer
  obtain ⟨rfl, halive⟩ := hanswer
  have hheld : ∀ c ∈ ref.receiverHandlers.map ReceiverHandler.receivingComponent, 0 < w'.others c := by
    intro c hc
    rw [hcorrect.1] at hc
    have := halive c (alive_of_mem_subscribers hc)
    rw [hlike.alive] at this
    exact hunharmed.others ▸ (alive_of_atRest hrest).mp this
  have hlike' : Alike { w' with cached := w.cached } w' := by
    have := alike_seenBy (w := { w' with cached := w.cached }) hrest hheld
    rwa [seenBy_back w.cached hsound'.pinned] at this
  have hfresh : ref.receiverHandlers = ({ w' with cached := w.cached } : World).subscribers r.id owner :=
    hcorrect.1.trans (hlike'.subscribers owner)
  refine ⟨_, _, hresolve, hunharmed.back, rfl, ⟨hheld, hsound'.handle, fun _ _ => hfresh⟩, ?_⟩
  have hback : Alike w { w' with cached := w.cached } := hunharmed.back.alike rfl
  simp only [createDependencyInfo, freshInfo, reaches, DependencyInfo.mk.injEq, true_and]
  rw [hfresh, hback.subscribers owner, List.map_map]
  rfl

instance : LawfulRef EventRef where
  Sound := EventSound
  sound_of_grows h hrest hrest' howner hg := eventSound_of_grows h hrest hrest' howner hg
  resolves h hrest := by
    obtain ⟨r', w', hresolve, hunharmed, hcached, hsound, hinfo⟩ := event_resolves h hrest
    exact Or.inl ⟨r', w', hresolve, hunharmed, hcached, hsound, fun _ => trivial, fun _ => hinfo⟩
  freshInfo_alike r h := by simp only [freshInfo, reaches, h.subscribers]
  resolves_alike _ _ _ := Iff.rfl
  isReference _ := rfl

/-! ### References to interfaces -/

/-- What holds of a reference to an interface. -/
structure InterfaceSound (owner : ComponentId) (w : World) (r : LifetimeInterfaceRef) : Prop where
  held : ∀ c, r.ref.receiver = some c → 0 < w.others c
  handle : ∀ l, r.ref.resolvedReceivers = some l → w.HandleOf r.id l
  /-- A proxy that passes for valid is one of the interface of the receiver, whenever there is one to link to. -/
  coherent : r.ref.localInterfaceProxy.isSome = true → w.expired r.ref.resolvedReceivers = false →
    ∀ c impl, w.sole Component.lookupInterface r.id = some (c, impl) →
      r.ref.receiver = some c ∧ r.ref.localInterfaceProxy = some ⟨impl, owner, r.life⟩
  made : ∀ proxy, r.ref.localInterfaceProxy = some proxy → w.implemented proxy.linkedInterface = true

/-- What resolving an interface again does to the reference. -/
theorem refetch_interfaceRef {id : MessageId} {owner : ComponentId} {life : LifetimeWeakPtr} {lost : ComponentId → List ComponentId}
    {w w' : World} {r r' : InterfaceRef} {answer : Option InterfaceProxy}
    (h : r.refetch id owner life lost w = some (answer, r', w')) :
    w' = (w.fetchReceiver id lost r.receiver).world ∧ r'.receiver = (w.fetchReceiver id lost r.receiver).receiver ∧
      ∀ proxy, r'.localInterfaceProxy = some proxy → r.localInterfaceProxy = some proxy ∨
        w'.implemented proxy.linkedInterface = true := by
  simp only [InterfaceRef.refetch] at h
  split at h
  · obtain ⟨-, rfl, rfl⟩ := Option.some.inj h
    exact ⟨rfl, rfl, fun _ hp => Or.inl hp⟩
  · split at h
    · obtain ⟨-, rfl, rfl⟩ := Option.some.inj h
      exact ⟨rfl, rfl, fun _ hp => Or.inl hp⟩
    · obtain ⟨proxy, hcopy, hsome⟩ := Option.bind_eq_some_iff.mp h
      obtain ⟨-, rfl, rfl⟩ := Option.some.inj hsome
      refine ⟨rfl, rfl, fun p hp => Or.inr ?_⟩
      obtain rfl := Option.some.inj hp
      unfold InterfaceRef.copyInterface at hcopy
      split at hcopy
      · rename_i himpl
        exact Option.some.inj hcopy ▸ himpl
      · cases hcopy

/-- The receiver that is fetched is the one a fresh resolution finds, if it finds one. -/
theorem receiver_of_sole {β : Type*} {ask : Component → MessageId → Option β} {id : MessageId} (lost : ComponentId → List ComponentId)
    {w : World} {receiver : Option ComponentId} (hholds : w.Holds receiver) {c : ComponentId} {x : β}
    (h : w.sole ask id = some (c, x)) : (w.fetchReceiver id lost receiver).receiver = some c := by
  have hf : w.Fetches id (w.fetchReceiver id lost receiver) := fetches lost hholds
  obtain ⟨hreceivers, halive, -⟩ := sole_eq_some h
  cases hfound : (w.fetchReceiver id lost receiver).found with
  | none => exact absurd ⟨c, hreceivers, halive⟩ (hf.none_before hfound)
  | some d =>
    obtain ⟨hd, -⟩ := hf.before d hfound
    obtain rfl : c = d := List.singleton_inj.mp (hreceivers.symm.trans hd)
    exact hf.receiver c hfound

theorem interfaceSound_of_grows {owner : ComponentId} {w w' : World} {r : LifetimeInterfaceRef} (h : InterfaceSound owner w r)
    (hg : Grows w w') : InterfaceSound owner w' r where
  held c hc := hg.held c (h.held c hc)
  handle l hl := (h.handle l hl).extends_ hg.extends_
  coherent hproxy hvalid c impl hsole := by
    cases hl : r.ref.resolvedReceivers with
    | none =>
      rw [hl] at hvalid
      cases hvalid
    | some l =>
      rw [hl] at hvalid
      obtain ⟨hvalid₀, -⟩ := hg.valid (h.handle l hl) hvalid
      have hlive : w'.SoleLive r.id := ⟨c, (sole_eq_some hsole).1, (sole_eq_some hsole).2.1⟩
      obtain ⟨-, heq⟩ := hg.sole_eq InterfaceRefAux.asks_lookupInterface (h.handle l hl) hvalid hlive
      exact h.coherent hproxy (hl ▸ hvalid₀) c impl (heq.symm.trans hsole)
  made proxy hproxy := hg.implemented _ (h.made proxy hproxy)

/-- The info of a reference to an interface that has resolved, or has tried to. -/
theorem interfaceInfo_iff {owner : ComponentId} {w : World} {r r' : LifetimeInterfaceRef} (hid : r'.id = r.id)
    (hreceiver : ∀ c impl, w.sole Component.lookupInterface r.id = some (c, impl) →
      r'.ref.receiver = some c ∧ w.implemented impl = true) :
    createDependencyInfo r' = freshInfo owner w r ↔ Resolves owner w r := by
  simp only [createDependencyInfo, freshInfo, reaches, Resolves, DependencyInfo.mk.injEq, hid, true_and]
  rw [singleton_eq_map_toList fun x hx => (hreceiver x.1 x.2 hx).1, Option.isSome_iff_exists]
  constructor
  · rintro ⟨⟨c, impl⟩, hsole⟩
    exact ⟨c, impl, hsole, (hreceiver c impl hsole).2⟩
  · rintro ⟨c, impl, hsole, -⟩
    exact ⟨(c, impl), hsole⟩

theorem interface_resolves {owner : ComponentId} {w : World} {r : LifetimeInterfaceRef} (h : InterfaceSound owner w r) (hrest : AtRest w) :
    (∃ r' w', forceResolve owner w r = some (r', w') ∧ Unharmed w w' ∧ w'.cached = w.cached ∧ InterfaceSound owner w' r' ∧
        (createDependencyInfo r' = freshInfo owner w r ↔ Resolves owner w r)) ∨
      (forceResolve owner w r = none ∧ ¬Resolves owner w r) := by
  have hlike := alike_seenBy hrest (held_toList h.held)
  have hholds : (w.seenBy r.ref.receiver.toList).Holds r.ref.receiver := fun c => count_toList ..
  by_cases hhit : (r.ref.localInterfaceProxy.isSome && !w.expired r.ref.resolvedReceivers) = true
  · -- the cache is taken for valid
    have hresolve : forceResolve owner w r = some (r, w) := by
      have hlookup : r.ref.lookup r.id owner r.life (fun _ => []) (w.seenBy r.ref.receiver.toList) =
          some (r.ref.localInterfaceProxy, r.ref, w.seenBy r.ref.receiver.toList) := if_pos hhit
      simp only [forceResolve, hlookup]
      rfl
    simp only [Bool.and_eq_true, Bool.not_eq_true'] at hhit
    refine Or.inl ⟨r, w, hresolve, Unharmed.refl w, rfl, h, interfaceInfo_iff rfl ?_⟩
    intro c impl hsole
    obtain ⟨hreceiver, hproxy⟩ := h.coherent hhit.1 hhit.2 c impl hsole
    exact ⟨hreceiver, h.made _ hproxy⟩
  · have hlookup : r.ref.lookup r.id owner r.life (fun _ => []) (w.seenBy r.ref.receiver.toList) =
        r.ref.refetch r.id owner r.life (fun _ => []) (w.seenBy r.ref.receiver.toList) := if_neg hhit
    rcases InterfaceRefAux.refetched r.id owner r.life (fun _ => []) hholds with
      ⟨answer, ref, w', hout, hre⟩ | ⟨hnone, c, impl, hsole, himpl⟩
    · obtain ⟨hw', hreceiver, hmade⟩ := refetch_interfaceRef hout
      have hunharmed : Unharmed (w.seenBy r.ref.receiver.toList) w' := hw' ▸ unharmed_fetchReceiver r.id (fun _ => []) h.held
      have hback : Alike w { w' with cached := w.cached } := hunharmed.back.alike rfl
      have hfound : ∀ c impl, w.sole Component.lookupInterface r.id = some (c, impl) → ref.receiver = some c := by
        intro c impl hsole
        exact hreceiver.trans (receiver_of_sole (fun _ => []) hholds ((hlike.sole ..).trans hsole))
      have hresolve : forceResolve owner w r = some ({ r with ref := ref }, { w' with cached := w.cached }) := by
        simp only [forceResolve, hlookup, hout]
        rfl
      refine Or.inl ⟨_, _, hresolve, hunharmed.back, rfl, ⟨?_, hre.handle, ?_, ?_⟩, interfaceInfo_iff rfl ?_⟩
      · intro c hc
        rw [hunharmed.back.others]
        rcases receiver_fetchReceiver (hreceiver.symm.trans hc) with hold | halive
        · exact h.held c hold
        · exact alive_seenBy_toList hrest h.held halive
      · intro _ _ c impl hsole
        rw [hback.sole] at hsole
        refine ⟨hfound c impl hsole, hre.proxy _ ?_⟩
        exact InterfaceRefAux.resolveInterface_of_sole owner r.life ((hlike.sole ..).trans hsole)
      · intro proxy hproxy
        rcases hmade proxy hproxy with hold | hnew
        · exact hunharmed.implemented ▸ h.made proxy hold
        · exact hnew
      · intro c impl hsole
        exact ⟨hfound c impl hsole, hre.implemented c impl ((hlike.sole ..).trans hsole)⟩
    · refine Or.inr ⟨by simp only [forceResolve, hlookup, hnone, Option.map_none], ?_⟩
      rintro ⟨d, impl', hd, himpl'⟩
      obtain ⟨-, rfl⟩ := Prod.mk.inj (Option.some.inj (((hlike.sole ..).symm.trans hsole).symm.trans hd))
      exact Bool.false_ne_true (himpl.symm.trans himpl')

instance : LawfulRef LifetimeInterfaceRef where
  Sound := InterfaceSound
  sound_of_grows h _ _ _ hg := interfaceSound_of_grows h hg
  resolves h hrest := interface_resolves h hrest
  freshInfo_alike r h := by simp only [freshInfo, reaches, h.sole]
  resolves_alike r h himpl := by simp only [Resolves, h.sole, himpl]
  isReference _ := rfl

/-! ### All references of one kind -/

section Each

variable {ρ : Type} [DependencyRef ρ] [LawfulRef ρ] {owner : ComponentId}

/-- References that are described in one world and another, where they find the same. -/
theorem resolves_all_alike (owner : ComponentId) {w w' : World} (h : Unharmed w w') (hcached : w'.cached = w.cached) (refs : List ρ) :
    (∀ r ∈ refs, Resolves owner w' r) ↔ ∀ r ∈ refs, Resolves owner w r :=
  forall₂_congr fun r _ => LawfulRef.resolves_alike r (h.alike hcached) h.implemented

theorem freshInfo_all_alike {w w' : World} (h : Unharmed w w') (hcached : w'.cached = w.cached) (refs : List ρ) :
    refs.map (freshInfo owner w') = refs.map (freshInfo owner w) :=
  List.map_congr_left fun r _ => LawfulRef.freshInfo_alike r (h.alike hcached)

theorem sound_all_of_unharmed {w w' : World} (h : Unharmed w w') (hcached : w'.cached = w.cached) (hrest : AtRest w)
    (howner : 0 < w.others owner) {refs : List ρ} (hsound : ∀ r ∈ refs, LawfulRef.Sound owner w r) :
    ∀ r ∈ refs, LawfulRef.Sound owner w' r := fun r hr =>
  LawfulRef.sound_of_grows (hsound r hr) hrest (fun c => hcached ▸ hrest c) howner (h.grows hcached)

/-- What describing references gives, when none of them aborts. -/
structure EachDescribed (owner : ComponentId) (w : World) (refs : List ρ) (infos : List DependencyInfo) (refs' : List ρ) (w' : World) :
    Prop where
  unharmed : Unharmed w w'
  cached : w'.cached = w.cached
  sound : ∀ r ∈ refs', LawfulRef.Sound owner w' r
  length : infos.length = refs.length
  isReference : ∀ info ∈ infos, info.isReference = true
  infos_iff : infos = refs.map (freshInfo owner w) ↔ ∀ r ∈ refs, Resolves owner w r

theorem describeEach_spec (refs : List ρ) : ∀ w : World, AtRest w → (refs ≠ [] → 0 < w.others owner) → (∀ r ∈ refs, LawfulRef.Sound owner w r) →
    (∃ infos refs' w', describeEach owner w refs = some (infos, refs', w') ∧ EachDescribed owner w refs infos refs' w') ∨
      (describeEach owner w refs = none ∧ ¬∀ r ∈ refs, Resolves owner w r) := by
  induction refs with
  | nil =>
    intro w _ _ _
    exact Or.inl ⟨[], [], w, rfl, Unharmed.refl w, rfl, nofun, rfl, nofun, by simp⟩
  | cons r refs ih =>
    intro w hrest howner hsound
    rw [List.forall_mem_cons] at hsound
    have howner := howner (List.cons_ne_nil r refs)
    rcases LawfulRef.resolves hsound.1 hrest with ⟨r', w₁, hresolve, hunharmed, hcached, hsound₁, hinfo⟩ | ⟨hnone, hnot⟩
    · have hrest₁ : AtRest w₁ := fun c => hcached ▸ hrest c
      have howner₁ : 0 < w₁.others owner := hunharmed.others ▸ howner
      have hall := resolves_all_alike owner hunharmed hcached refs
      rcases ih w₁ hrest₁ (fun _ => howner₁) (sound_all_of_unharmed hunharmed hcached hrest howner hsound.2) with
        ⟨infos, refs', w', heach, hdescribed⟩ | ⟨hnone, hnot⟩
      · refine Or.inl ⟨createDependencyInfo r' :: infos, r' :: refs', w', ?_, hunharmed.trans hdescribed.unharmed,
          hdescribed.cached.trans hcached, ?_, ?_, ?_, ?_⟩
        · simp only [describeEach, hresolve, heach, Option.bind_some, Option.map_some]
        · rw [List.forall_mem_cons]
          refine ⟨?_, hdescribed.sound⟩
          exact LawfulRef.sound_of_grows hsound₁ hrest₁ (fun c => hdescribed.cached ▸ hrest₁ c) howner₁
            (hdescribed.unharmed.grows hdescribed.cached)
        · rw [List.length_cons, List.length_cons, hdescribed.length]
        · rw [List.forall_mem_cons]
          exact ⟨LawfulRef.isReference r', hdescribed.isReference⟩
        · rw [List.map_cons, List.cons_eq_cons, List.forall_mem_cons, hinfo, ← hall, ← hdescribed.infos_iff, freshInfo_all_alike hunharmed hcached]
      · refine Or.inr ⟨by simp only [describeEach, hresolve, hnone, Option.bind_some, Option.map_none], fun h => hnot ?_⟩
        exact hall.mpr fun x hx => h x (List.mem_cons_of_mem r hx)
    · exact Or.inr ⟨by simp only [describeEach, hnone, Option.bind_none], fun h => hnot (h r List.mem_cons_self)⟩

/-- One of the references resolves. -/
theorem resolveAt_spec {w w' : World} {refs refs' : List ρ} {i : Nat} (hrest : AtRest w) (howner : 0 < w.others owner)
    (hsound : ∀ r ∈ refs, LawfulRef.Sound owner w r) (h : resolveAt owner w refs i = some (refs', w')) :
    Unharmed w w' ∧ w'.cached = w.cached ∧ ∀ r ∈ refs', LawfulRef.Sound owner w' r := by
  unfold resolveAt at h
  split at h
  · cases h
  · rename_i r hr
    obtain ⟨⟨r', w₁⟩, hresolve, heq⟩ := Option.map_eq_some_iff.mp h
    obtain ⟨rfl, rfl⟩ := Prod.mk.inj heq
    rcases LawfulRef.resolves (hsound r (List.mem_of_getElem? hr)) hrest with
      ⟨r'', w'', hresolve', hunharmed, hcached, hsound', -⟩ | ⟨hnone, -⟩
    · obtain ⟨rfl, rfl⟩ := Prod.mk.inj (Option.some.inj (hresolve.symm.trans hresolve'))
      refine ⟨hunharmed, hcached, fun x hx => ?_⟩
      rcases List.mem_or_eq_of_mem_set hx with hold | rfl
      · exact sound_all_of_unharmed hunharmed hcached hrest howner hsound x hold
      · exact hsound'
    · rw [hnone] at hresolve
      cases hresolve

end Each

/-! ## The invariant -/

/-- What holds in every state. -/
structure Inv (s : DependencyState) : Prop where
  atRest : AtRest s.world
  listed : ∀ id, ∀ c ∈ s.world.broker.receivers id, 0 < s.world.others c
  /-- A component that has not been constructed has looked up and published nothing. -/
  unborn : ∀ c, s.world.others c = 0 → s.refs c = {} ∧ s.earlier c ++ s.current c = []
  published : ∀ c, ∃ groupType, (s.world.component c).publishedDependencies = groupInfo groupType ++ (s.earlier c ++ s.current c)
  noted : ∀ c, ∀ info ∈ s.earlier c ++ s.current c, info.isReference = false ∧ info.type ≠ .group
  queries : ∀ c, ∀ r ∈ (s.refs c).monoRefs, LawfulRef.Sound c s.world r
  events : ∀ c, ∀ r ∈ (s.refs c).polyRefs, LawfulRef.Sound c s.world r
  interfaces : ∀ c, ∀ r ∈ (s.refs c).interfaceRefs, LawfulRef.Sound c s.world r

theorem inv_init : Inv init where
  atRest _ := rfl
  listed _ _ h := nomatch h
  unborn _ _ := ⟨rfl, rfl⟩
  published _ := ⟨none, rfl⟩
  noted _ _ h := nomatch h
  queries _ _ h := nomatch h
  events _ _ h := nomatch h
  interfaces _ _ h := nomatch h

variable {s s' : DependencyState}

/-- A component with references has been constructed. -/
theorem owner_held (h : Inv s) {c : ComponentId} (hrefs : s.refs c ≠ {}) : 0 < s.world.others c :=
  Nat.pos_of_ne_zero fun hzero => hrefs (h.unborn c hzero).1

theorem sound_all_of_grows {ρ : Type} [DependencyRef ρ] [LawfulRef ρ] (h : Inv s) {w : World} (hrest : AtRest w) (hg : Grows s.world w)
    (table : ComponentRefs → List ρ) (hempty : table {} = []) (hsound : ∀ c, ∀ r ∈ table (s.refs c), LawfulRef.Sound c s.world r)
    (c : ComponentId) : ∀ r ∈ table (s.refs c), LawfulRef.Sound c w r := by
  intro r hr
  have hne : s.refs c ≠ {} := by
    intro hrefs
    rw [hrefs, hempty] at hr
    cases hr
  exact LawfulRef.sound_of_grows (hsound c r hr) h.atRest hrest (owner_held h hne) hg

/-- References of one component have been looked up, or have resolved. -/
theorem inv_updateRefs (h : Inv s) {w : World} (hunharmed : Unharmed s.world w) (hcached : w.cached = s.world.cached) (c : ComponentId)
    (refs : ComponentRefs) (howner : s.world.others c = 0 → refs = {}) (hqueries : ∀ r ∈ refs.monoRefs, LawfulRef.Sound c w r)
    (hevents : ∀ r ∈ refs.polyRefs, LawfulRef.Sound c w r) (hinterfaces : ∀ r ∈ refs.interfaceRefs, LawfulRef.Sound c w r) :
    Inv { s with world := w, refs := Function.update s.refs c refs } := by
  have hrest : AtRest w := fun d => hcached ▸ h.atRest d
  have hg := hunharmed.grows hcached
  refine ⟨hrest, ?_, ?_, ?_, h.noted, ?_, ?_, ?_⟩
  · intro id d hd
    rw [hunharmed.receivers id] at hd
    exact hunharmed.others ▸ h.listed id d hd
  · intro d hd
    have hd₀ : s.world.others d = 0 := hunharmed.others ▸ hd
    refine ⟨?_, (h.unborn d hd₀).2⟩
    by_cases hdc : d = c
    · subst hdc
      exact (Function.update_self ..).trans (howner hd₀)
    · exact (Function.update_of_ne hdc ..).trans (h.unborn d hd₀).1
  · intro d
    rw [show w.component d = s.world.component d from congrFun hunharmed.component d]
    exact h.published d
  · intro d
    by_cases hdc : d = c
    · subst hdc
      simpa only [Function.update_self] using hqueries
    · simpa only [Function.update_of_ne hdc] using sound_all_of_grows h hrest hg ComponentRefs.monoRefs rfl h.queries d
  · intro d
    by_cases hdc : d = c
    · subst hdc
      simpa only [Function.update_self] using hevents
    · simpa only [Function.update_of_ne hdc] using sound_all_of_grows h hrest hg ComponentRefs.polyRefs rfl h.events d
  · intro d
    by_cases hdc : d = c
    · subst hdc
      simpa only [Function.update_self] using hinterfaces
    · simpa only [Function.update_of_ne hdc] using sound_all_of_grows h hrest hg ComponentRefs.interfaceRefs rfl h.interfaces d

/-! ### Describing -/

/-- What a description is made of, when it is given. -/
structure Description (s : DependencyState) (c : ComponentId) (references : List DependencyInfo) : Prop where
  isReference : ∀ info ∈ references, info.isReference = true
  references_iff : references = s.freshInfos c ↔
    (∀ r ∈ (s.refs c).monoRefs, Resolves c s.world r) ∧ ∀ r ∈ (s.refs c).interfaceRefs, Resolves c s.world r

theorem describe_unborn (h : Inv s) {c : ComponentId} (hc : s.world.others c = 0) :
    ∃ s', s.describeDependencies c = some ([] ++ (s.world.component c).publishedDependencies, s') ∧ Inv s' ∧ Description s c [] := by
  have hrefs := (h.unborn c hc).1
  refine ⟨_, ?_, inv_updateRefs h (Unharmed.refl _) rfl c {} (fun _ => rfl) nofun nofun nofun, nofun, ?_⟩
  · simp only [describeDependencies, hrefs, describeEach]
    rfl
  · simp only [freshInfos, hrefs, List.map_nil, List.append_nil, true_iff]
    exact ⟨nofun, nofun⟩

theorem describe_spec (h : Inv s) (c : ComponentId) :
    (∃ references s', s.describeDependencies c = some (references ++ (s.world.component c).publishedDependencies, s') ∧ Inv s' ∧
        Description s c references) ∨
      (s.describeDependencies c = none ∧
        ¬((∀ r ∈ (s.refs c).monoRefs, Resolves c s.world r) ∧ ∀ r ∈ (s.refs c).interfaceRefs, Resolves c s.world r)) := by
  rcases Nat.eq_zero_or_pos (s.world.others c) with hzero | howner
  · obtain ⟨s', hs', hinv, hdescription⟩ := describe_unborn h hzero
    exact Or.inl ⟨[], s', hs', hinv, hdescription⟩
  rcases describeEach_spec (s.refs c).monoRefs s.world h.atRest (fun _ => howner) (h.queries c) with
    ⟨monoInfos, monoRefs, w₁, heach₁, hmono⟩ | ⟨hnone, hnot⟩
  swap
  · exact Or.inr ⟨by simp only [describeDependencies, hnone, Option.bind_none], fun hall => hnot hall.1⟩
  have hrest₁ : AtRest w₁ := fun d => hmono.cached ▸ h.atRest d
  have howner₁ : 0 < w₁.others c := hmono.unharmed.others ▸ howner
  have hevents := sound_all_of_unharmed hmono.unharmed hmono.cached h.atRest howner (h.events c)
  rcases describeEach_spec (s.refs c).polyRefs w₁ hrest₁ (fun _ => howner₁) hevents with
    ⟨polyInfos, polyRefs, w₂, heach₂, hpoly⟩ | ⟨-, hnot⟩
  swap
  · exact absurd (fun _ _ => trivial) hnot
  have hunharmed₂ := hmono.unharmed.trans hpoly.unharmed
  have hcached₂ := hpoly.cached.trans hmono.cached
  have hrest₂ : AtRest w₂ := fun d => hcached₂ ▸ h.atRest d
  have howner₂ : 0 < w₂.others c := hunharmed₂.others ▸ howner
  have hinterfaces := sound_all_of_unharmed hunharmed₂ hcached₂ h.atRest howner (h.interfaces c)
  have hresolve := resolves_all_alike c hunharmed₂ hcached₂ (s.refs c).interfaceRefs
  rcases describeEach_spec (s.refs c).interfaceRefs w₂ hrest₂ (fun _ => howner₂) hinterfaces with
    ⟨interfaceInfos, interfaceRefs, w₃, heach₃, hinterface⟩ | ⟨hnone, hnot⟩
  · have hcomponent : w₃.component c = s.world.component c :=
      congrFun (hinterface.unharmed.component.trans hunharmed₂.component) c
    refine Or.inl ⟨monoInfos ++ polyInfos ++ interfaceInfos, _, ?_, inv_updateRefs h (hunharmed₂.trans hinterface.unharmed)
      (hinterface.cached.trans hcached₂) c { monoRefs, polyRefs, interfaceRefs }
      (fun hzero => absurd hzero (Nat.ne_of_gt howner)) ?_ ?_ hinterface.sound, ?_, ?_⟩
    · simp only [describeDependencies, heach₁, heach₂, heach₃, Option.bind_some, Option.map_some, hcomponent]
    · exact sound_all_of_unharmed (hpoly.unharmed.trans hinterface.unharmed) (hinterface.cached.trans hpoly.cached) hrest₁ howner₁ hmono.sound
    · exact sound_all_of_unharmed hinterface.unharmed hinterface.cached hrest₂ howner₂ hpoly.sound
    · intro info hinfo
      rcases List.mem_append.mp hinfo with hinfo | hinfo
      · rcases List.mem_append.mp hinfo with hinfo | hinfo
        · exact hmono.isReference info hinfo
        · exact hpoly.isReference info hinfo
      · exact hinterface.isReference info hinfo
    · have hpolyInfos : polyInfos = (s.refs c).polyRefs.map (freshInfo c s.world) := by
        rw [hpoly.infos_iff.mpr fun _ _ => trivial, freshInfo_all_alike hmono.unharmed hmono.cached]
      rw [← hmono.infos_iff, ← hresolve, ← hinterface.infos_iff, freshInfo_all_alike hunharmed₂ hcached₂, freshInfos, hpolyInfos]
      constructor
      · intro heq
        obtain ⟨hleft, hright⟩ := List.append_inj' heq (by rw [hinterface.length, List.length_map])
        exact ⟨List.append_cancel_right hleft, hright⟩
      · rintro ⟨rfl, rfl⟩
        rfl
  · refine Or.inr ⟨?_, fun hall => hnot (hresolve.mpr hall.2)⟩
    simp only [describeDependencies, heach₁, heach₂, hnone, Option.bind_some, Option.map_none]

/-! ### Operations -/

/-- What an operation publishes for the component. -/
def publishedBy (op : WorldOp) (c : ComponentId) : List DependencyInfo :=
  match op.publication with
  | some (d, info) => if d = c then [info] else []
  | none => []

/-- What an operation does that destroys no component. -/
structure Effect (op : WorldOp) (w w' : World) : Prop where
  held : ∀ c, 0 < w.others c → 0 < w'.others c
  unborn : ∀ c, w'.others c = 0 → w.others c = 0
  implemented : ∀ impl, w.implemented impl = true → w'.implemented impl = true
  listed : ∀ id, ∀ c ∈ w'.broker.receivers id, c ∈ w.broker.receivers id ∨ w.alive c = true
  published : ∀ c, (w'.component c).publishedDependencies = (w.component c).publishedDependencies ++ publishedBy op c

variable {op : WorldOp} {w w' : World}

/-- A change of the broker that lists no component anew. -/
theorem effect_broker {b : Broker} (hop : op.publication = none)
    (h : ∀ id, ∀ c ∈ b.receivers id, c ∈ w.broker.receivers id ∨ w.alive c = true) : Effect op w { w with broker := b } where
  held _ hc := hc
  unborn _ hc := hc
  implemented _ himpl := himpl
  listed := h
  published c := by simp only [publishedBy, hop, List.append_nil]

theorem effect_update {f : Component → Component} {c : ComponentId} (h : Effect op w w')
    (hf : ∀ comp, (f comp).publishedDependencies = comp.publishedDependencies) : Effect op w (w'.update c f) where
  held := h.held
  unborn := h.unborn
  implemented := h.implemented
  listed := h.listed
  published d := by
    rw [← h.published d]
    by_cases hd : d = c
    · subst hd
      rw [component_update_self, hf]
    · rw [component_update_of_ne _ f hd]

/-- A publication. -/
theorem effect_publish {f : Component → Component} {c : ComponentId} {id : MessageId} {info : DependencyInfo}
    (h : w.publish c id f = some w') (hop : op.publication = some (c, info))
    (hf : ∀ comp, (f comp).publishedDependencies = comp.publishedDependencies ++ [info]) : Effect op w w' := by
  unfold publish at h
  split at h
  · rename_i halive
    obtain rfl := Option.some.inj h
    refine ⟨fun _ hd => hd, fun _ hd => hd, fun _ himpl => himpl, ?_, ?_⟩
    · intro id' d hd
      rcases Broker.mem_receivers_associate hd with hold | rfl
      · exact Or.inl hold
      · exact Or.inr halive
    · intro d
      simp only [publishedBy, hop]
      by_cases hd : d = c
      · subst hd
        rw [component_update_self, if_pos rfl]
        exact hf _
      · rw [component_update_of_ne _ f hd, if_neg (Ne.symm hd), List.append_nil]
  · cases h

theorem mem_receivers_disassociateEverything {c d : ComponentId} {id : MessageId}
    (h : d ∈ (w.disassociateEverything c).broker.receivers id) : d ∈ w.broker.receivers id := by
  rw [(broker_disassociateEverything w c).2.1 id] at h
  exact List.mem_of_mem_filter h

/-- Pointers come and go, and every component that was held still is. -/
theorem effect_others (others : ComponentId → Nat) (hop : op.publication = none) (hheld : ∀ c, 0 < w.others c ↔ 0 < others c) :
    Effect op w { w with others := others } where
  held c hc := (hheld c).mp hc
  unborn c hc := Nat.eq_zero_of_not_pos fun hpos => Nat.ne_of_gt ((hheld c).mp hpos) hc
  implemented _ himpl := himpl
  listed _ _ hc := Or.inl hc
  published c := by simp only [publishedBy, hop, List.append_nil]

theorem step_effect (hrest : AtRest w) (hkeeps : op.keeps w = true) (h : w.step op = some w') : Effect op w w' := by
  cases op with
  | associate id c =>
    obtain rfl := Option.some.inj h
    refine effect_broker rfl fun id' d hd => ?_
    rcases Broker.mem_receivers_associate hd with hold | rfl
    · exact Or.inl hold
    · exact Or.inr hkeeps
  | disassociate id c =>
    obtain ⟨b, hb, rfl⟩ := Option.map_eq_some_iff.mp h
    obtain ⟨hext, -, hreceivers, huntouched⟩ := Broker.disassociate_spec hb
    refine effect_broker rfl fun id' d hd => Or.inl ?_
    by_cases hid : id' = id
    · subst hid
      rw [hreceivers] at hd
      exact List.mem_of_mem_filter hd
    · rwa [Broker.receivers_of_untouched hext (huntouched id' hid)] at hd
  | disassociateEverything c =>
    obtain rfl := Option.some.inj h
    exact effect_broker rfl fun id d hd => Or.inl (mem_receivers_disassociateEverything hd)
  | invalidate id =>
    obtain rfl := Option.some.inj h
    exact effect_broker rfl fun id' d hd => Or.inl (Broker.receivers_invalidate w.broker id id' ▸ hd)
  | brokerLookup id =>
    obtain rfl := Option.some.inj h
    refine effect_broker rfl fun id' d hd => Or.inl ?_
    rwa [Broker.receivers_lookup] at hd
  | publishSyncQuery | publishAsyncQuery | subscribeEvent | publishInterface => exact effect_publish h rfl fun _ => rfl
  | prependAsyncQueryFilter c id handler =>
    simp only [World.step, prependAsyncQueryFilter] at h
    split at h
    · cases h
    · obtain rfl := Option.some.inj h
      have hinvalidate : Effect (.prependAsyncQueryFilter c id handler) w { w with broker := w.broker.invalidate id } :=
        effect_broker rfl fun id' d hd => Or.inl (Broker.receivers_invalidate w.broker id id' ▸ hd)
      exact effect_update (c := c)
        (f := fun comp => { comp with asyncHandlers := Function.update comp.asyncHandlers id (some handler) }) hinvalidate fun _ => rfl
  | implement impl =>
    obtain rfl := Option.some.inj h
    refine ⟨fun _ hc => hc, fun _ hc => hc, ?_, fun _ _ hc => Or.inl hc, fun c => by simp [publishedBy, WorldOp.publication]⟩
    intro impl' himpl
    by_cases heq : impl' = impl
    · subst heq
      exact Function.update_self ..
    · exact (Function.update_of_ne heq ..).trans himpl
  | publishDependencies c =>
    simp only [World.step, publishDependencies] at h
    split at h
    · obtain rfl := Option.some.inj h
      exact effect_update (effect_others w.others rfl fun _ => Iff.rfl) fun _ => rfl
    · cases h
  | unpublishDependencies c =>
    obtain rfl := Option.some.inj h
    refine effect_update ?_ fun _ => rfl
    exact effect_broker rfl fun id d hd => Or.inl (mem_receivers_disassociateEverything hd)
  | acquire c =>
    obtain rfl := Option.some.inj h
    split
    · rename_i halive
      refine effect_others _ rfl fun d => ?_
      by_cases hd : d = c
      · subst hd
        rw [Function.update_self]
        exact ⟨fun _ => Nat.succ_pos _, fun _ => (alive_of_atRest hrest).mp halive⟩
      · rw [Function.update_of_ne hd]
    · exact effect_others w.others rfl fun _ => Iff.rfl
  | release c =>
    obtain rfl := Option.some.inj h
    have hmany : 1 < w.others c := of_decide_eq_true hkeeps
    have hothers : (w.release c) = { w with others := Function.update w.others c (w.others c - 1) } := by
      simp only [release, if_neg (Nat.ne_of_gt (Nat.lt_trans Nat.one_pos hmany)), dropped]
      rw [if_pos]
      simp only [alive, Function.update_self, decide_eq_true_eq]
      omega
    rw [hothers]
    refine effect_others _ rfl fun d => ?_
    by_cases hd : d = c
    · subst hd
      rw [Function.update_self]
      omega
    · rw [Function.update_of_ne hd]

/-- An operation that destroys no component lets the world grow. -/
theorem Effect.grows (h : Effect op w w') (hw : w.step op = some w') : Grows w w' where
  extends_ := (step_frame hw 0).extends_
  held := h.held
  implemented := h.implemented
  alive_le _ c _ hc := (step_frame hw 0).alive_le c hc
  defaultExecutor c _ := (step_frame hw 0).defaultExecutor c
  sameAt id l hl hl' c _ := (step_frame hw id).sameAt l hl hl' c

/-- What is noted of an operation is what it has published. -/
theorem note_publications (op : WorldOp) (s : DependencyState) (c : ComponentId) :
    (s.note op).earlier c ++ (s.note op).current c = s.earlier c ++ s.current c ++ publishedBy op c := by
  have hpublish : ∀ d info, s.earlier c ++ Function.update s.current d (s.current d ++ [info]) c =
      s.earlier c ++ s.current c ++ if d = c then [info] else [] := by
    intro d info
    by_cases hc : d = c
    · subst hc
      rw [Function.update_self, if_pos rfl, List.append_assoc]
    · rw [Function.update_of_ne (Ne.symm hc), if_neg hc, List.append_nil]
  cases op with
  | publishSyncQuery | publishAsyncQuery | subscribeEvent | publishInterface => exact hpublish _ _
  | unpublishDependencies d =>
    show Function.update s.earlier d (s.earlier d ++ s.current d) c ++ Function.update s.current d [] c = _ ++ []
    rw [List.append_nil]
    by_cases hc : c = d
    · subst hc
      rw [Function.update_self, Function.update_self, List.append_nil]
    · rw [Function.update_of_ne hc, Function.update_of_ne hc]
  | _ => exact (List.append_nil _).symm

theorem note_world (op : WorldOp) (s : DependencyState) : (s.note op).world = s.world ∧ (s.note op).refs = s.refs := by
  cases op <;> exact ⟨rfl, rfl⟩

theorem mem_publishedBy {c : ComponentId} {info : DependencyInfo} (h : info ∈ publishedBy op c) : op.publication = some (c, info) := by
  unfold publishedBy at h
  split at h
  · rename_i d info' hop
    split at h
    · rename_i hd
      rw [hop, hd, List.mem_singleton.mp h]
    · cases h
  · cases h

/-- A publication is told apart from references and groups, and made by a live component. -/
theorem publication_spec {c : ComponentId} {info : DependencyInfo} (h : op.publication = some (c, info)) :
    info.isReference = false ∧ info.type ≠ .group ∧ (op.keeps w = true → w.alive c = true) := by
  cases op with
  | publishSyncQuery | publishAsyncQuery | subscribeEvent | publishInterface =>
    obtain ⟨rfl, rfl⟩ := Prod.mk.inj (Option.some.inj h)
    exact ⟨rfl, nofun, fun hkeeps => hkeeps⟩
  | _ => cases h

/-! ### Steps -/

/-- The world grows, and what has been published since is noted. -/
theorem inv_of_grows {t : DependencyState} (h : Inv s) (hrest : AtRest t.world) (hg : Grows s.world t.world) (hrefs : t.refs = s.refs)
    (hunborn : ∀ c, t.world.others c = 0 → s.world.others c = 0 ∧ t.earlier c ++ t.current c = [])
    (hlisted : ∀ id, ∀ c ∈ t.world.broker.receivers id, 0 < t.world.others c)
    (hpublished : ∀ c, ∃ groupType, (t.world.component c).publishedDependencies = groupInfo groupType ++ (t.earlier c ++ t.current c))
    (hnoted : ∀ c, ∀ info ∈ t.earlier c ++ t.current c, info.isReference = false ∧ info.type ≠ .group) : Inv t where
  atRest := hrest
  listed := hlisted
  unborn c hc := ⟨hrefs ▸ (h.unborn c (hunborn c hc).1).1, (hunborn c hc).2⟩
  published := hpublished
  noted := hnoted
  queries := hrefs ▸ sound_all_of_grows h hrest hg ComponentRefs.monoRefs rfl h.queries
  events := hrefs ▸ sound_all_of_grows h hrest hg ComponentRefs.polyRefs rfl h.events
  interfaces := hrefs ▸ sound_all_of_grows h hrest hg ComponentRefs.interfaceRefs rfl h.interfaces

theorem inv_world (h : Inv s) (hkeeps : op.keeps s.world = true) (hw : s.world.step op = some w') :
    Inv (({ s with world := w' } : DependencyState).note op) := by
  have heffect := step_effect h.atRest hkeeps hw
  obtain ⟨hworld, hrefs⟩ := note_world op { s with world := w' }
  have hnote := note_publications op { s with world := w' }
  have hrest : AtRest w' := fun c => (congrFun (step_cached hw) c).trans (h.atRest c)
  refine inv_of_grows h (hworld ▸ hrest) (hworld ▸ heffect.grows hw) hrefs ?_ ?_ ?_ ?_
  · rw [hworld]
    intro c hc
    have hzero := heffect.unborn c hc
    refine ⟨hzero, List.eq_nil_iff_forall_not_mem.mpr fun info hinfo => ?_⟩
    rw [hnote c, (h.unborn c hzero).2] at hinfo
    have halive := (publication_spec (mem_publishedBy hinfo)).2.2 hkeeps
    exact Nat.ne_of_gt ((alive_of_atRest h.atRest).mp halive) hzero
  · rw [hworld]
    intro id c hc
    rcases heffect.listed id c hc with hold | halive
    · exact heffect.held c (h.listed id c hold)
    · exact heffect.held c ((alive_of_atRest h.atRest).mp halive)
  · intro c
    obtain ⟨groupType, hgroup⟩ := h.published c
    refine ⟨groupType, ?_⟩
    rw [hworld, hnote c, heffect.published c, hgroup, List.append_assoc]
  · intro c info hinfo
    rw [hnote c] at hinfo
    rcases List.mem_append.mp hinfo with hold | hnew
    · exact h.noted c info hold
    · obtain ⟨hreference, hgroup, -⟩ := publication_spec (w := w') (mem_publishedBy hnew)
      exact ⟨hreference, hgroup⟩

theorem inv_construct {c : ComponentId} {executor : ExecutorId} {listener : Option ListenerId} {groupType : Option MessageId} (h : Inv s)
    (hs : s.construct c executor listener groupType = some s') : Inv s' := by
  unfold construct at hs
  split at hs
  · rename_i hzero
    obtain rfl := Option.some.inj hs
    have hnew : ∀ d, 0 < s.world.others d → d ≠ c := fun d hd heq => Nat.ne_of_gt (heq ▸ hd) hzero
    have hheld : ∀ d, 0 < s.world.others d → 0 < Function.update s.world.others c 1 d := by
      intro d hd
      rwa [Function.update_of_ne (hnew d hd)]
    refine inv_of_grows h h.atRest ⟨Broker.Extends.refl _, hheld, fun _ himpl => himpl, ?_, ?_, ?_⟩ rfl ?_ ?_ ?_ h.noted
    · intro id d hd _
      exact (alive_of_atRest h.atRest).mpr (h.listed id d hd)
    · intro d hd
      dsimp only
      rw [Function.update_of_ne (hnew d ((alive_of_atRest h.atRest).mp hd))]
    · intro id l _ _ d hd
      dsimp only
      rw [Function.update_of_ne (hnew d (h.listed id d hd))]
      exact Component.SameAt.refl id _
    · intro d hd
      have hd₀ : s.world.others d = 0 := Nat.eq_zero_of_not_pos fun hpos => Nat.ne_of_gt (hheld d hpos) hd
      exact ⟨hd₀, (h.unborn d hd₀).2⟩
    · exact fun id d hd => hheld d (h.listed id d hd)
    · intro d
      by_cases hd : d = c
      · subst hd
        refine ⟨groupType, ?_⟩
        simp only [Function.update_self]
        rw [(h.unborn d hzero).2, List.append_nil]
      · obtain ⟨groupType', hgroup⟩ := h.published d
        refine ⟨groupType', ?_⟩
        simp only [Function.update_of_ne hd]
        exact hgroup
  · cases hs

/-- A component looks up one more reference. -/
theorem inv_lookup {c : ComponentId} {f : ComponentRefs → ComponentRefs} (h : Inv s) (hs : s.updateRefs c f = some s')
    (hqueries : ∀ r ∈ (f (s.refs c)).monoRefs, LawfulRef.Sound c s.world r)
    (hevents : ∀ r ∈ (f (s.refs c)).polyRefs, LawfulRef.Sound c s.world r)
    (hinterfaces : ∀ r ∈ (f (s.refs c)).interfaceRefs, LawfulRef.Sound c s.world r) : Inv s' := by
  unfold updateRefs at hs
  split at hs
  · rename_i halive
    obtain rfl := Option.some.inj hs
    have howner := (alive_of_atRest h.atRest).mp halive
    exact inv_updateRefs h (Unharmed.refl _) rfl c _ (fun hzero => absurd hzero (Nat.ne_of_gt howner)) hqueries hevents hinterfaces
  · cases hs

theorem forall_mem_concat {α : Type*} {p : α → Prop} {xs : List α} {x : α} (h : ∀ y ∈ xs, p y) (hx : p x) : ∀ y ∈ xs ++ [x], p y := by
  intro y hy
  rcases List.mem_append.mp hy with hold | hnew
  · exact h y hold
  · exact List.mem_singleton.mp hnew ▸ hx

/-- A reference that has an index belongs to a component that has been constructed. -/
theorem owner_of_resolveAt {ρ : Type} [DependencyRef ρ] (h : Inv s) {c : ComponentId} (table : ComponentRefs → List ρ) (hempty : table {} = [])
    {i : Nat} {out : List ρ × World} (hout : resolveAt c s.world (table (s.refs c)) i = some out) : 0 < s.world.others c := by
  refine owner_held h fun hrefs => ?_
  rw [hrefs, hempty] at hout
  cases hout

theorem step_inv {a : DependencyAction} (h : Inv s) (hs : s.step a = some s') : Inv s' := by
  cases a with
  | construct c executor listener groupType => exact inv_construct h hs
  | world op =>
    simp only [DependencyState.step] at hs
    split at hs
    · rename_i hkeeps
      obtain ⟨w', hw, rfl⟩ := Option.map_eq_some_iff.mp hs
      exact inv_world h hkeeps hw
    · cases hs
  | lookupQuery c kind id =>
    have hnew : QuerySound c s.world { kind, id } := ⟨nofun, nofun, nofun⟩
    exact inv_lookup (f := fun refs => { refs with monoRefs := refs.monoRefs ++ [{ kind, id }] }) h hs
      (forall_mem_concat (h.queries c) hnew) (h.events c) (h.interfaces c)
  | lookupEvent c id =>
    have hnew : EventSound c s.world { id } := ⟨nofun, nofun, fun hne => absurd rfl hne⟩
    exact inv_lookup (f := fun refs => { refs with polyRefs := refs.polyRefs ++ [{ id }] }) h hs
      (h.queries c) (forall_mem_concat (h.events c) hnew) (h.interfaces c)
  | lookupInterface c id life =>
    have hnew : InterfaceSound c s.world { id, life } := ⟨nofun, nofun, nofun, nofun⟩
    exact inv_lookup (f := fun refs => { refs with interfaceRefs := refs.interfaceRefs ++ [{ id, life }] }) h hs
      (h.queries c) (h.events c) (forall_mem_concat (h.interfaces c) hnew)
  | resolveQuery c i =>
    obtain ⟨⟨refs, w⟩, hout, rfl⟩ := Option.map_eq_some_iff.mp hs
    have howner := owner_of_resolveAt h ComponentRefs.monoRefs rfl hout
    obtain ⟨hunharmed, hcached, hsound⟩ := resolveAt_spec h.atRest howner (h.queries c) hout
    exact inv_updateRefs h hunharmed hcached c _ (fun hzero => absurd hzero (Nat.ne_of_gt howner)) hsound
      (sound_all_of_unharmed hunharmed hcached h.atRest howner (h.events c))
      (sound_all_of_unharmed hunharmed hcached h.atRest howner (h.interfaces c))
  | resolveEvent c i =>
    obtain ⟨⟨refs, w⟩, hout, rfl⟩ := Option.map_eq_some_iff.mp hs
    have howner := owner_of_resolveAt h ComponentRefs.polyRefs rfl hout
    obtain ⟨hunharmed, hcached, hsound⟩ := resolveAt_spec h.atRest howner (h.events c) hout
    exact inv_updateRefs h hunharmed hcached c _ (fun hzero => absurd hzero (Nat.ne_of_gt howner))
      (sound_all_of_unharmed hunharmed hcached h.atRest howner (h.queries c)) hsound
      (sound_all_of_unharmed hunharmed hcached h.atRest howner (h.interfaces c))
  | resolveInterface c i =>
    obtain ⟨⟨refs, w⟩, hout, rfl⟩ := Option.map_eq_some_iff.mp hs
    have howner := owner_of_resolveAt h ComponentRefs.interfaceRefs rfl hout
    obtain ⟨hunharmed, hcached, hsound⟩ := resolveAt_spec h.atRest howner (h.interfaces c) hout
    exact inv_updateRefs h hunharmed hcached c _ (fun hzero => absurd hzero (Nat.ne_of_gt howner))
      (sound_all_of_unharmed hunharmed hcached h.atRest howner (h.queries c))
      (sound_all_of_unharmed hunharmed hcached h.atRest howner (h.events c)) hsound
  | describeDependencies c =>
    obtain ⟨⟨infos, s''⟩, hout, rfl⟩ := Option.map_eq_some_iff.mp hs
    rcases describe_spec h c with ⟨references, t, hdescribe, hinv, -⟩ | ⟨hnone, -⟩
    · obtain ⟨-, rfl⟩ := Prod.mk.inj (Option.some.inj (hdescribe.symm.trans hout))
      exact hinv
    · rw [hnone] at hout
      cases hout

/-! ### What a description says -/

theorem filter_isReference (h : Inv s) {c : ComponentId} {references : List DependencyInfo}
    (hreferences : ∀ info ∈ references, info.isReference = true) :
    (references ++ (s.world.component c).publishedDependencies).filter DependencyInfo.isReference = references := by
  obtain ⟨groupType, hgroup⟩ := h.published c
  rw [List.filter_append, List.filter_eq_self.mpr hreferences, List.append_right_eq_self, List.filter_eq_nil_iff, hgroup]
  intro info hinfo
  rw [Bool.not_eq_true]
  rcases List.mem_append.mp hinfo with hinfo | hinfo
  · obtain ⟨id, -, rfl⟩ := List.mem_map.mp hinfo
    rfl
  · exact (h.noted c info hinfo).1

/-- How often something that is no reference and no group is reported. -/
theorem count_description (h : Inv s) {c : ComponentId} {references : List DependencyInfo}
    (hreferences : ∀ info ∈ references, info.isReference = true) {info : DependencyInfo} (hinfo : info.isReference = false)
    (htype : info.type ≠ .group) :
    (references ++ (s.world.component c).publishedDependencies).count info = (s.earlier c).count info + (s.current c).count info := by
  obtain ⟨groupType, hgroup⟩ := h.published c
  have hnot : info ∉ references := fun hmem => Bool.false_ne_true (hinfo.symm.trans (hreferences info hmem))
  have hnotGroup : info ∉ groupInfo groupType := by
    intro hmem
    obtain ⟨id, -, rfl⟩ := List.mem_map.mp hmem
    exact htype rfl
  rw [hgroup, List.count_append, List.count_append, List.count_append, List.count_eq_zero_of_not_mem hnot,
    List.count_eq_zero_of_not_mem hnotGroup, Nat.zero_add, Nat.zero_add]

theorem publications_iff (h : Inv s) (c : ComponentId) :
    (∀ info : DependencyInfo, info.isReference = false → info.type ≠ .group →
        (s.earlier c).count info + (s.current c).count info =
          if (s.world.component c).published = true ∧ info ∈ s.current c then 1 else 0) ↔
      s.PublishedOnce c := by
  constructor
  · intro hcount
    have hone : ∀ info ∈ s.earlier c ++ s.current c, (s.world.component c).published = true ∧ info ∈ s.current c ∧
        (s.earlier c).count info + (s.current c).count info = 1 := by
      intro info hinfo
      have heq := hcount info (h.noted c info hinfo).1 (h.noted c info hinfo).2
      rw [← List.count_append] at heq ⊢
      have hpos := List.count_pos_iff.mpr hinfo
      split at heq
      · rename_i hboth
        exact ⟨hboth.1, hboth.2, heq⟩
      · omega
    refine ⟨List.eq_nil_iff_forall_not_mem.mpr ?_, List.nodup_iff_count_le_one.mpr ?_, ?_⟩
    · intro info hinfo
      obtain ⟨-, hcurrent, hsum⟩ := hone info (List.mem_append_left _ hinfo)
      have hpos := List.count_pos_iff.mpr hinfo
      have hpos' := List.count_pos_iff.mpr hcurrent
      omega
    · intro info
      by_cases hinfo : info ∈ s.current c
      · obtain ⟨-, -, hsum⟩ := hone info (List.mem_append_right _ hinfo)
        omega
      · rw [List.count_eq_zero_of_not_mem hinfo]
        exact Nat.zero_le 1
    · intro hunpublished
      refine List.eq_nil_iff_forall_not_mem.mpr fun info hinfo => ?_
      exact Bool.false_ne_true (hunpublished.symm.trans (hone info (List.mem_append_right _ hinfo)).1)
  · rintro ⟨hearlier, hnodup, hunpublished⟩ info - -
    rw [hearlier, List.count_nil, Nat.zero_add]
    by_cases hinfo : info ∈ s.current c
    · have hpublished : (s.world.component c).published = true := by
        by_contra hnot
        rw [hunpublished (Bool.not_eq_true _ ▸ hnot)] at hinfo
        cases hinfo
      rw [if_pos ⟨hpublished, hinfo⟩]
      exact List.count_eq_one_of_mem hnodup hinfo
    · rw [if_neg fun hboth => hinfo hboth.2, List.count_eq_zero_of_not_mem hinfo]

theorem faithful_iff (h : Inv s) {a : DependencyAction} : s.DescribesFaithfully a ↔ s.DescribesResolved a := by
  cases a with
  | describeDependencies c =>
    simp only [DescribesFaithfully, DescribesResolved]
    rcases describe_spec h c with ⟨references, t, hdescribe, -, hdescription⟩ | ⟨hnone, hnot⟩
    · have hiff : s.Faithful c (references ++ (s.world.component c).publishedDependencies) ↔
          references = s.freshInfos c ∧ s.PublishedOnce c := by
        rw [← publications_iff h c]
        constructor
        · rintro ⟨hreferences, hpublications⟩
          rw [filter_isReference h hdescription.isReference] at hreferences
          refine ⟨hreferences, fun info hinfo htype => ?_⟩
          rw [← count_description h hdescription.isReference hinfo htype]
          exact hpublications info hinfo htype
        · rintro ⟨hreferences, hpublications⟩
          refine ⟨(filter_isReference h hdescription.isReference).trans hreferences, fun info hinfo htype => ?_⟩
          rw [count_description h hdescription.isReference hinfo htype]
          exact hpublications info hinfo htype
      rw [← and_assoc, ← hdescription.references_iff, ← hiff, hdescribe]
      constructor
      · rintro ⟨infos, s', heq, hfaithful⟩
        obtain ⟨rfl, -⟩ := Prod.mk.inj (Option.some.inj heq)
        exact hfaithful
      · exact fun hfaithful => ⟨_, t, rfl, hfaithful⟩
    · rw [hnone]
      constructor
      · rintro ⟨infos, s', heq, -⟩
        cases heq
      · exact fun hall => absurd ⟨hall.1, hall.2.1⟩ hnot
  | _ => exact Iff.rfl

end DependenciesAux

open DependenciesAux

/-- Every description of a run is given and faithful if and only if, each time a component is described, all its references to queries
and to interfaces resolve, the interfaces are implemented, and all the component has ever published it has published since it last
unpublished, nothing of it twice, and nothing at all if it is not published. -/
theorem descriptions_faithful_iff (acts : List DependencyAction) :
    AllSteps DependencyState.step DependencyState.DescribesFaithfully DependencyState.init acts ↔
      AllSteps DependencyState.step DependencyState.DescribesResolved DependencyState.init acts :=
  allSteps_congr (fun _ _ _ => step_inv) (fun _ _ h => faithful_iff h) inv_init

/-- A run on which the condition fails: component 1 publishes a query that component 2 has looked up, and unpublishes it. -/
def unpublishedRun : List DependencyAction :=
  [.construct 1 0 none none, .construct 2 0 none none, .lookupQuery 2 .sync 7, .world (.publishSyncQuery 1 7 70),
    .world (.publishDependencies 1), .resolveQuery 2 0, .world (.unpublishDependencies 1), .describeDependencies 2]

/-- Not every description is faithful: component 2 still reports component 1 as the target. -/
theorem description_unfaithful :
    ¬∀ acts, AllSteps DependencyState.step DependencyState.DescribesFaithfully DependencyState.init acts := by
  intro h
  have hlast := allSteps_iff.mp (h unpublishedRun) (unpublishedRun.take 7) (.describeDependencies 2) []
  obtain ⟨s, hs⟩ : ∃ s, run DependencyState.step DependencyState.init (unpublishedRun.take 7) = some s := ⟨_, rfl⟩
  obtain ⟨infos, s', hdescribe, hreferences, -⟩ := hlast s rfl hs
  obtain rfl := Option.some.inj hs
  obtain ⟨rfl, -⟩ := Prod.mk.inj (Option.some.inj hdescribe)
  revert hreferences
  decide

end Minicomps
