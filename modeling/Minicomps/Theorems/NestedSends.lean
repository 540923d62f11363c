import Minicomps.NestedSends
import Minicomps.Theorems.PolyRef

/-!
# A send reaches its subscribers unless they or the list are replaced

While a loop is under way nothing but another lookup through the same reference touches its vector, and a lookup leaves it alone as
long as the broker has the list it was made from. The entries of the vector keep their components alive, and a component keeps the handler an
entry points to until it publishes the message again.
-/

namespace Minicomps

open Transition

namespace NestedSends

/-- The world and the reference. -/
def refState (s : NestedSends) : RefState PolyRef := ⟨s.world, s.ref⟩

/-- A loop got so far in the vector. -/
structure Going (id : MessageId) (s : NestedSends) (l : SendLoop) : Prop where
  filling : l.filling = s.filling
  size : l.size = s.ref.receiverHandlers.length
  subscribers : s.ref.receiverHandlers = l.subscribers
  position : l.position ≤ l.size
  started : l.inHandler = true → 0 < l.position
  reached : l.reached = l.subscribers.take l.position
  ahead : ∀ r ∈ s.ref.receiverHandlers.drop l.position, r.handler ∈ s.entries r.receivingComponent id

/-- What holds in the runs in which every step meets the condition. -/
structure Inv (id : MessageId) (owner : ComponentId) (s : NestedSends) : Prop where
  sound : PolyRef.Sound id owner s.refState
  table : ∀ c h, (s.world.component c).asyncHandlers id = some h → h ∈ s.entries c id
  made : ∀ c h, h ∈ s.entries c id → s.made h = true
  loops : ∀ l ∈ s.loops, s.Going id l
  ended : ∀ e ∈ s.ended, e.reached = e.subscribers

end NestedSends

namespace NestedSendsAux

open NestedSends

variable {id : MessageId} {owner : ComponentId} {s s' : NestedSends}

/-! ## Handlers -/

theorem entries_store (s : NestedSends) (new : StoredHandler) (c : ComponentId) (id : MessageId) : (s.store (some new)).entries c id =
    if new.component = c ∧ new.id = id then new.handler :: if new.filter then s.entries c id else [] else s.entries c id := by
  simp only [NestedSends.store]
  by_cases hc : c = new.component
  · subst hc
    rw [Function.update_self]
    by_cases hid : id = new.id
    · subst hid
      simp
    · rw [Function.update_of_ne hid, if_neg fun h => hid h.2.symm]
  · rw [Function.update_of_ne hc, if_neg fun h => hc h.1.symm]

/-- The vector keeps the component of an entry, so that its handler exists as long as the component keeps it. -/
theorem handlerExists_iff (h : PolyRef.Sound id owner s.refState) {r : ReceiverHandler} (hr : r ∈ s.ref.receiverHandlers) :
    s.handlerExists id r = true ↔ r.handler ∈ s.entries r.receivingComponent id := by
  have hpinned : 0 < s.world.cached r.receivingComponent := by
    rw [show s.world.cached r.receivingComponent = _ from h.pinned r.receivingComponent]
    exact List.count_pos_iff.mpr (List.mem_map_of_mem hr)
  simp [handlerExists, World.alive_of_cached hpinned]

theorem handlerExists_of_going (h : PolyRef.Sound id owner s.refState) {l : SendLoop} (hl : s.Going id l) {r : ReceiverHandler}
    (hr : r ∈ s.ref.receiverHandlers.drop l.position) : s.handlerExists id r = true :=
  (handlerExists_iff h (List.mem_of_mem_drop hr)).mpr (hl.ahead r hr)

/-! ## Loops -/

/-- An entry that a loop has not come to is in the vector. -/
theorem going_getElem? {l : SendLoop} (h : s.Going id l) (hne : l.position ≠ l.size) :
    ∃ entry, s.ref.receiverHandlers[l.position]? = some entry ∧ entry ∈ s.ref.receiverHandlers.drop l.position := by
  have hlt : l.position < s.ref.receiverHandlers.length := by
    have hle := h.position
    rw [h.size] at hle hne
    omega
  refine ⟨_, List.getElem?_eq_getElem hlt, ?_⟩
  rw [List.drop_eq_getElem_cons hlt]
  exact List.mem_cons_self

/-- A loop that can go on calls its next handler, or enqueues a task for it. -/
theorem round_eq (h : PolyRef.Sound id owner s.refState) {l : SendLoop} (hl : s.Going id l) (hne : l.position ≠ l.size)
    (loops : List SendLoop) : ∃ r, s.ref.receiverHandlers[l.position]? = some r ∧
      s.round id l loops = some { s with
        loops := { l with position := l.position + 1, inHandler := r.sameExecutor, reached := l.reached ++ [r] } :: loops } := by
  obtain ⟨r, hr, hmem⟩ := going_getElem? hl hne
  have hexists := handlerExists_of_going h hl hmem
  refine ⟨r, hr, ?_⟩
  rw [NestedSends.round, if_neg hne, if_pos hl.filling, hr, Option.bind_some, hexists]
  simp

theorem inv_init (defaultExecutor : ComponentId → ExecutorId) (others : ComponentId → Nat) : (init defaultExecutor others).Inv id owner where
  sound := PolyRefAux.sound_init (fun c => { defaultExecutor := defaultExecutor c }) others
  table _ _ hh := by cases hh
  made _ _ hh := absurd hh List.not_mem_nil
  loops _ hl := absurd hl List.not_mem_nil
  ended _ he := absurd he List.not_mem_nil

/-! ## Lookups -/

/-- A lookup through a reference that is usable changes nothing. -/
theorem lookup_usable (h : s.usable = true) (lost : ComponentId → List ComponentId) :
    s.lookup id owner lost = (s.ref.receiverHandlers, s) := by
  have hlookup : PolyRef.lookup id owner lost s.world s.ref = (s.ref.receiverHandlers, s.ref, s.world) := if_pos h
  rw [NestedSends.lookup, hlookup, h]
  rfl

theorem lookup_unusable (h : s.usable = false) (lost : ComponentId → List ComponentId) : s.lookup id owner lost =
    ((PolyRef.refetch id owner lost s.world s.ref).1,
      { s with
        world := (PolyRef.refetch id owner lost s.world s.ref).2.2
        ref := (PolyRef.refetch id owner lost s.world s.ref).2.1
        filling := s.filling + 1 }) := by
  have hlookup : PolyRef.lookup id owner lost s.world s.ref = PolyRef.refetch id owner lost s.world s.ref :=
    if_neg (Bool.eq_false_iff.mp h)
  rw [NestedSends.lookup, hlookup, h]
  rfl

theorem loops_lookup (lost : ComponentId → List ComponentId) : (s.lookup id owner lost).2.loops = s.loops := rfl

/-- What a lookup answers: the vector, which holds the current subscribers. -/
theorem lookup_spec (h : PolyRef.Sound id owner s.refState) (lost : ComponentId → List ComponentId) :
    PolyRef.Sound id owner (s.lookup id owner lost).2.refState ∧
      (s.lookup id owner lost).1 = (s.lookup id owner lost).2.ref.receiverHandlers ∧
      (s.lookup id owner lost).1 = (s.lookup id owner lost).2.world.subscribers id owner := by
  have hstep : PolyRef.step id owner s.refState (.lookup lost) = some (s.lookup id owner lost).2.refState := rfl
  refine ⟨PolyRefAux.sound_step h hstep, ?_, (PolyRefAux.correct_of_sound h (a := .lookup lost)).1⟩
  cases husable : s.usable with
  | true => rw [lookup_usable husable]
  | false =>
    rw [lookup_unusable husable]
    exact (PolyRefAux.refetched id owner lost h.pinned).receiverHandlers.symm

/-- A lookup leaves the tables alone. -/
theorem asyncHandlers_lookup (h : PolyRef.Sound id owner s.refState) (lost : ComponentId → List ComponentId) (c : ComponentId) :
    ((s.lookup id owner lost).2.world.component c).asyncHandlers id = (s.world.component c).asyncHandlers id := by
  cases husable : s.usable with
  | true => rw [lookup_usable husable]
  | false =>
    rw [lookup_unusable husable]
    exact ((PolyRefAux.refetched id owner lost h.pinned).drops.sameAt id c).asyncHandlers

/-- While a loop is under way, a lookup that meets the condition finds the reference usable. -/
theorem usable_of_valid (h : s.Inv id owner) (hcode : s.inCode = true) (hloops : s.loops ≠ [])
    (hvalid : s.world.expired s.ref.receivers = false) : s.usable = true := by
  obtain ⟨l, loops, hl⟩ := List.exists_cons_of_ne_nil hloops
  have hgoing : s.Going id l := h.loops l (hl ▸ List.mem_cons_self)
  have hin : l.inHandler = true := by
    rw [inCode, hl] at hcode
    exact hcode
  have hpos := hgoing.started hin
  have hsize := hgoing.position
  rw [hgoing.size] at hsize
  have hne : s.ref.receiverHandlers ≠ [] := by
    intro hnil
    rw [hnil, List.length_nil] at hsize
    omega
  simp [usable, hvalid, hne]

/-- A lookup that meets the condition leaves every loop that is under way alone. -/
theorem inv_lookup (h : s.Inv id owner) (hcode : s.inCode = true) (hC : s.loops ≠ [] → s.world.expired s.ref.receivers = false)
    (lost : ComponentId → List ComponentId) : (s.lookup id owner lost).2.Inv id owner := by
  refine ⟨(lookup_spec h.sound lost).1, fun c handler hh => h.table c handler (asyncHandlers_lookup h.sound lost c ▸ hh), h.made, ?_, h.ended⟩
  intro l hl
  rw [loops_lookup] at hl
  have hloops := List.ne_nil_of_mem hl
  rw [lookup_usable (usable_of_valid h hcode hloops (hC hloops)) lost]
  exact h.loops l hl

/-- A loop that goes through the same vector, of handlers that are all kept. -/
theorem going_congr {l : SendLoop} (h : s.Going id l) (href : s'.ref = s.ref) (hfilling : s'.filling = s.filling)
    (hahead : ∀ r ∈ s.ref.receiverHandlers.drop l.position, r.handler ∈ s'.entries r.receivingComponent id) : s'.Going id l where
  filling := h.filling.trans hfilling.symm
  size := by rw [href]; exact h.size
  subscribers := by rw [href]; exact h.subscribers
  position := h.position
  started := h.started
  reached := h.reached
  ahead := by rw [href]; exact hahead

/-- The loop of a send starts at the front of the vector. -/
theorem inv_startLoop (h : s.Inv id owner) {handlers : List ReceiverHandler} (hvector : handlers = s.ref.receiverHandlers)
    (hsubscribers : handlers = s.world.subscribers id owner) : (s.startLoop id owner handlers).Inv id owner := by
  refine ⟨h.sound, h.table, h.made, ?_, h.ended⟩
  intro l hl
  rcases List.mem_cons.mp hl with rfl | hold
  · refine ⟨rfl, congrArg List.length hvector, hvector.symm.trans hsubscribers, Nat.zero_le _, fun hin => (by cases hin), rfl, ?_⟩
    intro r hr
    have hr' : r ∈ s.world.subscribers id owner := hsubscribers ▸ hvector ▸ List.mem_of_mem_drop hr
    obtain ⟨handler, hhandler, heq⟩ := Option.map_eq_some_iff.mp (World.of_mem_subscribers hr').2
    exact h.table r.receivingComponent r.handler (hhandler.trans (congrArg some (congrArg ReceiverHandler.handler heq)))
  · exact going_congr (h.loops l hold) rfl rfl (h.loops l hold).ahead

/-! ## Rounds -/

/-- The innermost loop may be another one, as long as it got so far in the same vector. -/
theorem inv_loops (h : s.Inv id owner) {l l' : SendLoop} {loops : List SendLoop} (hloops : s.loops = l :: loops) (hl' : s.Going id l') :
    NestedSends.Inv id owner { s with loops := l' :: loops } := by
  refine ⟨h.sound, h.table, h.made, ?_, h.ended⟩
  intro k hk
  rcases List.mem_cons.mp hk with rfl | hold
  · exact going_congr hl' rfl rfl hl'.ahead
  · have hgoing := h.loops k (hloops ▸ List.mem_cons_of_mem l hold)
    exact going_congr hgoing rfl rfl hgoing.ahead

theorem inv_round (h : s.Inv id owner) {l : SendLoop} {loops : List SendLoop} (hloops : s.loops = l :: loops)
    (hs : s.round id l loops = some s') : s'.Inv id owner := by
  have hgoing : s.Going id l := h.loops l (hloops ▸ List.mem_cons_self)
  by_cases hend : l.position = l.size
  · rw [NestedSends.round, if_pos hend] at hs
    obtain rfl := Option.some.inj hs
    refine ⟨h.sound, h.table, h.made, ?_, ?_⟩
    · intro k hk
      have hk' := h.loops k (hloops ▸ List.mem_cons_of_mem l hk)
      exact going_congr hk' rfl rfl hk'.ahead
    · intro e he
      rcases List.mem_append.mp he with hold | hnew
      · exact h.ended e hold
      · have hall : l.subscribers.length ≤ l.position := by rw [hend, hgoing.size, hgoing.subscribers]
        rw [List.mem_singleton.mp hnew]
        exact hgoing.reached.trans (List.take_of_length_le hall)
  · obtain ⟨r, hr, hround⟩ := round_eq h.sound hgoing hend loops
    obtain rfl := Option.some.inj (hround.symm.trans hs)
    refine inv_loops h hloops ⟨hgoing.filling, hgoing.size, hgoing.subscribers, ?_, fun _ => Nat.succ_pos _, ?_, ?_⟩
    · exact Nat.lt_of_le_of_ne hgoing.position hend
    · rw [hgoing.subscribers] at hr
      show l.reached ++ [r] = l.subscribers.take (l.position + 1)
      rw [List.take_add_one, hr, hgoing.reached]
      rfl
    · exact fun q hq => hgoing.ahead q (List.drop_subset_drop_left _ (Nat.le_succ l.position) hq)

/-! ## Publications -/

/-- An operation that stores a handler keeps those that the loops have yet to come to, where it meets the condition. -/
theorem inv_world (h : s.Inv id owner) {op : WorldOp} {w : World} (hw : s.world.step op = some w) (hnew : s.isNew op.storedHandler = true)
    (hC : s.KeepsList id (.world op)) : (NestedSends.store { s with world := w } op.storedHandler).Inv id owner := by
  have hsound : PolyRef.Sound id owner ⟨w, s.ref⟩ :=
    PolyRefAux.sound_of_frame h.sound (World.step_frame hw id) (World.step_cached hw)
  have htable := fun c => World.asyncHandlers_step hw c id
  have hcond := hC hnew
  cases hstored : op.storedHandler with
  | none =>
    rw [hstored] at htable
    exact ⟨hsound, fun c handler hh => h.table c handler ((htable c).symm.trans hh), h.made,
      fun l hl => going_congr (h.loops l hl) rfl rfl (h.loops l hl).ahead, h.ended⟩
  | some new =>
    rw [hstored] at htable
    refine ⟨hsound, ?_, ?_, ?_, h.ended⟩
    · intro c handler hh
      rw [entries_store]
      have hafter := (htable c).symm.trans hh
      simp only [World.afterStore] at hafter
      split at hafter
      · rename_i hplace
        rw [if_pos hplace, ← Option.some.inj hafter]
        exact List.mem_cons_self
      · rename_i hplace
        rw [if_neg hplace]
        exact h.table c handler hafter
    · intro c handler hh
      show Function.update s.made new.handler true handler = true
      by_cases hsame : handler = new.handler
      · rw [hsame, Function.update_self]
      · rw [Function.update_of_ne hsame]
        refine h.made c handler ?_
        rw [entries_store] at hh
        split at hh
        · rcases List.mem_cons.mp hh with heq | hh
          · exact absurd heq hsame
          · split at hh
            · exact hh
            · exact absurd hh List.not_mem_nil
        · exact hh
    · intro l hl
      refine going_congr (h.loops l hl) rfl rfl fun r hr => ?_
      have hkept := (h.loops l hl).ahead r hr
      rw [entries_store]
      split
      · rename_i hplace
        cases hfilter : new.filter with
        | true => exact List.mem_cons_of_mem _ hkept
        | false => exact absurd hplace.1.symm (hcond new hstored hplace.2 hfilter l hl r hr)
      · exact hkept

/-! ## Runs -/

theorem inv_step {a : NestedSendAction} (h : s.Inv id owner) (hC : s.KeepsList id a) (hs : step id owner s a = some s') :
    s'.Inv id owner := by
  cases a with
  | world op =>
    rw [step] at hs
    split at hs
    · rename_i hnew
      obtain ⟨w, hw, rfl⟩ := Option.map_eq_some_iff.mp hs
      exact inv_world h hw hnew hC
    · cases hs
  | send lost =>
    rw [step] at hs
    split at hs
    · rename_i hcode
      obtain rfl := Option.some.inj hs
      obtain ⟨-, hvector, hsubscribers⟩ := lookup_spec h.sound lost
      exact inv_startLoop (inv_lookup h hcode (hC hcode) lost) hvector hsubscribers
    · cases hs
  | forceResolve lost =>
    rw [step] at hs
    split at hs
    · rename_i hcode
      exact Option.some.inj hs ▸ inv_lookup h hcode (hC hcode) lost
    · cases hs
  | next =>
    rw [step] at hs
    split at hs
    · cases hs
    · rename_i l loops hloops
      split at hs
      · cases hs
      · exact inv_round h hloops hs
  | handlerReturns =>
    rw [step] at hs
    split at hs
    · cases hs
    · rename_i l loops hloops
      split at hs
      · obtain rfl := Option.some.inj hs
        have hgoing : s.Going id l := h.loops l (hloops ▸ List.mem_cons_self)
        exact inv_loops h hloops
          ⟨hgoing.filling, hgoing.size, hgoing.subscribers, hgoing.position, fun hin => (by cases hin), hgoing.reached, hgoing.ahead⟩
      · cases hs

end NestedSendsAux

open NestedSends NestedSendsAux

/-- Two components subscribe, and the handler of the first one makes the second one subscribe again: the loop cannot go on. -/
example : ((run (NestedSends.step 0 9) (NestedSends.init (fun _ => 0) fun _ => 1)
    [.world (.subscribeEvent 1 0 11), .world (.subscribeEvent 2 0 12), .send fun _ => [], .next, .world (.subscribeEvent 2 0 13),
      .handlerReturns, .next]).isSome) = false := by decide

end Minicomps
