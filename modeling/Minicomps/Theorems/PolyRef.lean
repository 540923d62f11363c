import Minicomps.Lib.Transition
import Minicomps.Lemmas.World
import Minicomps.PolyRef

/-!
# A `poly_ref` always answers with the current subscribers

The invariant ties the cache to the world: the reference's strong pointers are exactly those of the cached entries, so a cached
subscriber cannot die; and a cache that passes for valid is the list of current subscribers. A lookup that resolves again may
destroy components while it clears the old entries, but only ones that were kept alive by the cache alone and are not in the
answer.
-/

namespace Minicomps

open Transition

namespace PolyRef

/-- A run of a world and one reference of `owner` to the event. -/
abbrev step (id : MessageId) (owner : ComponentId) : RefState PolyRef → RefAction → Option (RefState PolyRef) :=
  RefState.step fun lost w r => some (lookup id owner lost w r)

/-- A new reference in a new world. -/
def init (component : ComponentId → Component) (others : ComponentId → Nat) : RefState PolyRef :=
  ⟨World.new component others, {}⟩

/-- What is asked of a lookup: when it returns, its answer is the list of the current subscribers; and they are those of the
list before the lookup that are still alive. -/
def Correct (id : MessageId) (owner : ComponentId) (s : RefState PolyRef) : RefAction → Prop
  | .world _ => True
  | .lookup lost =>
    let (answer, _, w) := lookup id owner lost s.world s.ref
    answer = w.subscribers id owner ∧
      answer = ((s.world.broker.receivers id).filter w.alive).filterMap (s.world.receiverHandler id owner)

/-- What holds of a reference and its world in every history. -/
structure Sound (id : MessageId) (owner : ComponentId) (s : RefState PolyRef) : Prop where
  /-- The reference holds one strong pointer for each entry. -/
  pinned : ∀ c, s.world.cached c = (s.ref.receiverHandlers.map ReceiverHandler.receivingComponent).count c
  handle : ∀ l, s.ref.receivers = some l → s.world.HandleOf id l
  fresh : s.ref.receiverHandlers ≠ [] → s.world.expired s.ref.receivers = false →
    s.ref.receiverHandlers = s.world.subscribers id owner

end PolyRef

namespace PolyRefAux

open PolyRef World

variable {id : MessageId} {owner : ComponentId}

theorem receiverHandler_receivingComponent {w : World} {c : ComponentId} {h : ReceiverHandler}
    (hh : w.receiverHandler id owner c = some h) : h.receivingComponent = c := by
  obtain ⟨handler, -, rfl⟩ := Option.map_eq_some_iff.mp hh
  rfl

/-- Worlds with the same tables under the event make the same entry of a component. -/
theorem receiverHandler_congr {w w' : World} (h : ∀ c, (w.component c).SameAt id (w'.component c)) :
    w'.receiverHandler id owner = w.receiverHandler id owner := by
  funext c
  simp only [receiverHandler, Component.lookupAsyncHandler, (h c).asyncHandlers, (h c).defaultExecutor,
    (h owner).defaultExecutor]

/-- Two tests that agree on every component with a handler pick the same entries. -/
theorem filterMap_filter_congr {p q : ComponentId → Bool} {g : ComponentId → Option ReceiverHandler}
    {xs : List ComponentId} (h : ∀ c ∈ xs, (g c).isSome → p c = q c) :
    (xs.filter p).filterMap g = (xs.filter q).filterMap g := by
  rw [List.filterMap_filter, List.filterMap_filter]
  refine List.filterMap_congr ?_
  intro c hc
  cases hg : g c with
  | none => simp
  | some x => rw [h c hc (by rw [hg]; rfl)]

/-! ## Clearing and collecting -/

theorem drops_clear (lost : ComponentId → List ComponentId) (handlers : List ReceiverHandler) :
    ∀ w : World, w.Drops (clear lost w handlers) := by
  induction handlers with
  | nil => exact Drops.refl
  | cons h handlers ih => exact fun w => (drops_unpin lost w h.receivingComponent).trans (ih _)

/-- Clearing drops one pointer for each entry. -/
theorem cached_clear (lost : ComponentId → List ComponentId) (handlers : List ReceiverHandler) :
    ∀ (w : World) (c : ComponentId), (clear lost w handlers).cached c =
      w.cached c - (handlers.map ReceiverHandler.receivingComponent).count c := by
  induction handlers with
  | nil => exact fun _ _ => rfl
  | cons h handlers ih =>
    intro w c
    rw [show clear lost w (h :: handlers) = clear lost (w.unpin lost h.receivingComponent) handlers from rfl, ih,
      cached_unpin, List.map_cons, List.count_cons]
    by_cases hc : c = h.receivingComponent
    · subst hc
      simp only [Function.update_self, beq_self_eq_true, if_true]
      omega
    · have hne : (h.receivingComponent == c) = false := by simp [Ne.symm hc]
      rw [Function.update_of_ne hc, hne]
      simp

/-- The loop takes a pointer to each component it makes an entry of, and changes nothing else. -/
structure Collects (id : MessageId) (owner : ComponentId) (receivers : List ComponentId) (w : World)
    (out : List ReceiverHandler × World) : Prop where
  drops : w.Drops out.2
  alive : out.2.alive = w.alive
  handlers : out.1 = (receivers.filter w.alive).filterMap (w.receiverHandler id owner)
  cached : ∀ c, out.2.cached c = w.cached c + (out.1.map ReceiverHandler.receivingComponent).count c

theorem collects (id : MessageId) (owner : ComponentId) (receivers : List ComponentId) :
    ∀ w : World, Collects id owner receivers w (collect id owner receivers w) := by
  induction receivers with
  | nil => exact fun w => ⟨Drops.refl w, rfl, rfl, fun _ => rfl⟩
  | cons c receivers ih =>
    intro w
    cases hc : w.alive c with
    | false =>
      have hout : collect id owner (c :: receivers) w = collect id owner receivers w := by
        simp only [collect, lock_of_dead hc]
      rw [hout]
      refine ⟨(ih w).drops, (ih w).alive, ?_, (ih w).cached⟩
      rw [(ih w).handlers, List.filter_cons_of_neg (by simp [hc])]
    | true =>
      cases hh : (w.component c).lookupAsyncHandler id with
      | none =>
        have hout : collect id owner (c :: receivers) w = collect id owner receivers w := by
          simp only [collect, lock_of_alive hc, hh]
        have hentry : w.receiverHandler id owner c = none := by rw [receiverHandler, hh]; rfl
        rw [hout]
        refine ⟨(ih w).drops, (ih w).alive, ?_, (ih w).cached⟩
        rw [(ih w).handlers, List.filter_cons_of_pos hc, List.filterMap_cons_none hentry]
      | some handler =>
        obtain ⟨hd, ha, hhandlers, hcached⟩ := ih (w.pin c)
        obtain ⟨h, hentry⟩ : ∃ h, w.receiverHandler id owner c = some h := by rw [receiverHandler, hh]; exact ⟨_, rfl⟩
        have hout : collect id owner (c :: receivers) w =
            (h :: (collect id owner receivers (w.pin c)).1, (collect id owner receivers (w.pin c)).2) := by
          rw [receiverHandler, hh] at hentry
          obtain rfl := Option.some.inj hentry
          simp only [collect, lock_of_alive hc, hh]
        rw [hout]
        refine ⟨(drops_pin hc).trans hd, ha.trans (alive_pin hc), ?_, ?_⟩
        · rw [List.filter_cons_of_pos hc, List.filterMap_cons_some hentry, hhandlers, alive_pin hc]
          rfl
        · intro d
          rw [hcached, List.map_cons, List.count_cons, receiverHandler_receivingComponent hentry]
          by_cases hd : d = c
          · subst hd
            simp only [pin, Function.update_self, beq_self_eq_true, if_true]
            omega
          · have hne : (c == d) = false := by simp [Ne.symm hd]
            have hpin : (w.pin c).cached d = w.cached d := Function.update_of_ne hd ..
            rw [hpin, hne]
            simp

/-! ## Resolving again -/

/-- What resolving again does. -/
structure Refetched (id : MessageId) (owner : ComponentId) (w : World) (out : List ReceiverHandler × PolyRef × World) :
    Prop where
  drops : (asked w id).Drops out.2.2
  pinned : ∀ c, out.2.2.cached c = (out.2.1.receiverHandlers.map ReceiverHandler.receivingComponent).count c
  receivers : out.2.1.receivers = some (w.broker.lookup id).2
  receiverHandlers : out.2.1.receiverHandlers = out.1
  answer : out.1 = ((w.broker.receivers id).filter out.2.2.alive).filterMap (w.receiverHandler id owner)

theorem refetched (id : MessageId) (owner : ComponentId) (lost : ComponentId → List ComponentId) {w : World} {r : PolyRef}
    (hpinned : ∀ c, w.cached c = (r.receiverHandlers.map ReceiverHandler.receivingComponent).count c) :
    Refetched id owner w (refetch id owner lost w r) := by
  obtain ⟨w', hw'⟩ : ∃ w', w' = clear lost (asked w id) r.receiverHandlers := ⟨_, rfl⟩
  have hclear : (asked w id).Drops w' := hw' ▸ drops_clear lost _ _
  have hnone : ∀ c, w'.cached c = 0 := by
    intro c
    rw [hw', cached_clear, hpinned c]
    exact Nat.sub_self _
  have hc := collects id owner (w.broker.receivers id) w'
  have hout : refetch id owner lost w r =
      ((collect id owner (w.broker.receivers id) w').1,
        ⟨some (w.broker.lookup id).2, (collect id owner (w.broker.receivers id) w').1⟩,
        (collect id owner (w.broker.receivers id) w').2) := by
    simp only [refetch, Broker.heap_lookup, hw']
  rw [hout]
  refine ⟨hclear.trans hc.drops, ?_, rfl, rfl, ?_⟩
  · intro c
    rw [hc.cached, hnone, Nat.zero_add]
  · rw [hc.handlers, hc.alive, receiverHandler_congr (hclear.sameAt id)]
    rfl

/-- The answer is the list of subscribers at the return. -/
theorem Refetched.fresh {w : World} {out : List ReceiverHandler × PolyRef × World} (h : Refetched id owner w out) :
    out.1 = out.2.2.subscribers id owner := by
  rw [h.answer, subscribers, h.drops.live id, receiverHandler_congr (h.drops.sameAt id), Broker.receivers_lookup]
  rfl

/-! ## The invariant -/

theorem sound_init (component : ComponentId → Component) (others : ComponentId → Nat) :
    Sound id owner (init component others) :=
  ⟨fun _ => rfl, nofun, fun h => absurd rfl h⟩

/-- While the event keeps its list, a cache that passes for valid stays fresh: the subscribers in it cannot die, and no other
component gets a handler. -/
theorem sound_of_frame {s : RefState PolyRef} {w : World} (h : Sound id owner s) (hf : Frame id s.world w)
    (hcached : w.cached = s.world.cached) : Sound id owner { s with world := w } where
  pinned c := by rw [hcached]; exact h.pinned c
  handle l hl := (h.handle l hl).extends_ hf.extends_
  fresh hne hvalid := by
    cases hl : s.ref.receivers with
    | none =>
      simp only [hl] at hvalid
      cases hvalid
    | some l =>
      simp only [hl] at hvalid
      obtain ⟨hvalid₀, hfind, hfind', hrec⟩ := (h.handle l hl).valid_of_frame hf hvalid
      have hfresh := h.fresh hne (hl ▸ hvalid₀)
      have hentries : w.receiverHandler id owner = s.world.receiverHandler id owner :=
        receiverHandler_congr (hf.sameAt l hfind hfind')
      rw [hfresh, subscribers, subscribers, hrec, hentries]
      refine filterMap_filter_congr ?_
      intro c hc hsome
      obtain ⟨entry, hentry⟩ := Option.isSome_iff_exists.mp hsome
      cases halive : s.world.alive c with
      | false =>
        -- what is dead stays dead
        cases hw : w.alive c with
        | false => rfl
        | true => rw [hf.alive_le c hw] at halive; cases halive
      | true =>
        -- a live subscriber is in the cache, and pinned
        have hmem : entry ∈ s.ref.receiverHandlers := by
          rw [hfresh, subscribers]
          exact List.mem_filterMap.mpr ⟨c, List.mem_filter.mpr ⟨hc, halive⟩, hentry⟩
        have hpin : 0 < w.cached c := by
          rw [hcached, h.pinned c, ← receiverHandler_receivingComponent hentry]
          exact List.count_pos_iff.mpr (List.mem_map_of_mem hmem)
        exact (alive_of_cached hpin).symm

theorem sound_step {s s' : RefState PolyRef} {a : RefAction} (h : Sound id owner s) (hs : step id owner s a = some s') :
    Sound id owner s' := by
  cases a with
  | world op =>
    obtain ⟨w, hw, rfl⟩ := Option.map_eq_some_iff.mp hs
    exact sound_of_frame h (step_frame hw id) (step_cached hw)
  | lookup lost =>
    obtain rfl := Option.some.inj hs
    unfold lookup
    split
    · exact h
    · have hout := refetched id owner lost h.pinned
      refine ⟨hout.pinned, ?_, fun _ _ => hout.receiverHandlers.trans hout.fresh⟩
      intro l hl
      obtain rfl := Option.some.inj (hout.receivers.symm.trans hl)
      exact (handleOf_lookup s.world id).extends_ hout.drops.extends_

theorem correct_of_sound {s : RefState PolyRef} {a : RefAction} (h : Sound id owner s) : Correct id owner s a := by
  cases a with
  | world op => trivial
  | lookup lost =>
    simp only [Correct, lookup]
    by_cases hhit : (!s.ref.receiverHandlers.isEmpty && !s.world.expired s.ref.receivers) = true
    · rw [if_pos hhit]
      simp only [Bool.and_eq_true, Bool.not_eq_true', List.isEmpty_eq_false_iff] at hhit
      have hfresh := h.fresh hhit.1 hhit.2
      exact ⟨hfresh, hfresh⟩
    · rw [if_neg hhit]
      have hout := refetched id owner lost h.pinned
      exact ⟨hout.fresh, hout.answer⟩

end PolyRefAux

open PolyRef PolyRefAux

/-- Every lookup of every run returns the current subscribers: the entries of the broker's list for the event that are alive and
have a handler, in association order, each with its handler and with whether it is on the sender's executor. -/
theorem polyRef_correct (id : MessageId) (owner : ComponentId) (component : ComponentId → Component)
    (others : ComponentId → Nat) (acts : List RefAction) :
    AllSteps (step id owner) (Correct id owner) (init component others) acts :=
  allSteps_of_invariant (fun _ _ _ => sound_step) (fun _ _ => correct_of_sound) (sound_init component others)

end Minicomps
