import Minicomps.Lib.Acyclic
import Minicomps.Lib.Transition
import Minicomps.Lemmas.World
import Minicomps.Ownership

/-!
# What keeps a component alive

Once every component has been unpublished and user code has let all of them go, those that are left are kept by references of
components that are left: some of them hold each other in a cycle. Nothing in a shutdown breaks such a cycle.
-/

namespace Minicomps

open Acyclic

/-! ## References -/

namespace OwnedRefAux

/-- From one reference to another a lookup has taken up the pointers of `locked` and no others, and has let go of pointers that it still
has to drop. -/
structure Exchanges (ref ref' : OwnedRef) (locked : ComponentId → Prop) (frames : List StackFrame) : Prop where
  held : ∀ p ∈ ref'.held, p ∈ ref.held ∨ locked p
  kept : ∀ p ∈ ref.held, p ∈ ref'.held ∨ p ∈ frames.flatMap StackFrame.pointers
  dropped : ∀ p ∈ frames.flatMap StackFrame.pointers, p ∈ ref.held

theorem pointers_drop (cs : List ComponentId) : (cs.map StackFrame.drop).flatMap StackFrame.pointers = cs := by
  induction cs with
  | nil => rfl
  | cons c cs ih => rw [List.map_cons, List.flatMap_cons, ih]; rfl

/-- Where no pointer is taken or let go of, nothing is exchanged. -/
theorem exchanges_of_held_eq {ref ref' : OwnedRef} {locked : ComponentId → Prop} {frames : List StackFrame} (h : ref'.held = ref.held)
    (hframes : frames.flatMap StackFrame.pointers = []) : Exchanges ref ref' locked frames := by
  refine ⟨fun p hp => Or.inl (h ▸ hp), fun p hp => Or.inl (h ▸ hp), ?_⟩
  intro p hp
  rw [hframes] at hp
  exact absurd hp List.not_mem_nil

theorem pointers_lockOnly (owner : ComponentId) (i : Nat) (receivers : MessageReceivers) :
    (OwnedRef.fetch.lockOnly owner i receivers).flatMap StackFrame.pointers = [] := by
  unfold OwnedRef.fetch.lockOnly
  split <;> rfl

/-- A lookup that has been given a list lets go of the entries of an event, and of nothing else. -/
theorem fetch_exchanges (owner : ComponentId) (i : Nat) (l : ListId) (receivers : MessageReceivers) (ref : OwnedRef) :
    Exchanges ref (ref.fetch owner i l receivers).1 (fun _ => False) (ref.fetch owner i l receivers).2 := by
  cases ref with
  | mono kind id r => exact exchanges_of_held_eq rfl (pointers_lockOnly owner i receivers)
  | interface id life r => exact exchanges_of_held_eq rfl (pointers_lockOnly owner i receivers)
  | poly id r =>
    have hframes : ((OwnedRef.poly id r).fetch owner i l receivers).2.flatMap StackFrame.pointers = (OwnedRef.poly id r).held := by
      have hmap : (r.receiverHandlers.map fun h => StackFrame.drop h.receivingComponent) =
          (OwnedRef.poly id r).held.map StackFrame.drop := by
        rw [OwnedRef.held, List.map_map]
        rfl
      rw [OwnedRef.fetch, List.flatMap_append, hmap, pointers_drop]
      exact List.append_nil _
    refine ⟨fun p hp => absurd hp List.not_mem_nil, fun p hp => Or.inr ?_, ?_⟩
    · rwa [hframes]
    · intro p hp
      rwa [hframes] at hp

/-- An assignment to `receiver_` takes up the new pointer and lets go of the old one. -/
theorem relock_exchanges (ref ref' : OwnedRef) (owner : ComponentId) (i : Nat) (w : World) (c : ComponentId)
    {old : Option ComponentId} (hold : ref.held = old.toList) (hnew : ref'.held = (w.lock c).toList) :
    Exchanges ref ref' (fun p => p ∈ (LookupRest.lockReceiver c).next ∧ w.alive p = true)
      (OwnedRef.resume.relock owner i old (w.lock c)) := by
  have hframes : (OwnedRef.resume.relock owner i old (w.lock c)).flatMap StackFrame.pointers = old.toList := by
    rw [OwnedRef.resume.relock, List.flatMap_append, pointers_drop]
    cases w.lock c <;> exact List.append_nil _
  refine ⟨fun p hp => Or.inr ?_, fun p hp => Or.inr ?_, ?_⟩
  · rw [hnew, Option.mem_toList] at hp
    obtain ⟨rfl, halive⟩ := World.lock_eq_some_iff.mp hp
    exact ⟨rfl, halive⟩
  · rwa [hframes, ← hold]
  · intro p hp
    rwa [hframes, ← hold] at hp

/-- A step of a lookup takes up the pointer it was to lock, if that can be locked. -/
theorem resume_exchanges {owner : ComponentId} {i : Nat} {w : World} {ref ref' : OwnedRef} {task : LookupRest} {frames : List StackFrame}
    (h : ref.resume owner i w task = some (ref', frames)) :
    Exchanges ref ref' (fun p => p ∈ task.next ∧ w.alive p = true) frames := by
  cases ref with
  | mono kind id r =>
    cases task with
    | lockReceiver c =>
      obtain ⟨rfl, rfl⟩ := Prod.mk.inj (Option.some.inj h)
      exact relock_exchanges (.mono kind id r) (.mono kind id { r with receiver := w.lock c }) owner i w c rfl rfl
    | askReceiver c =>
      simp only [OwnedRef.resume] at h
      split at h
      · obtain ⟨rfl, rfl⟩ := Prod.mk.inj (Option.some.inj h)
        exact exchanges_of_held_eq rfl rfl
      · obtain ⟨rfl, rfl⟩ := Prod.mk.inj (Option.some.inj h)
        exact exchanges_of_held_eq rfl rfl
    | collect receivers => simp [OwnedRef.resume] at h
  | interface id life r =>
    cases task with
    | lockReceiver c =>
      obtain ⟨rfl, rfl⟩ := Prod.mk.inj (Option.some.inj h)
      exact relock_exchanges (.interface id life r) (.interface id life { r with receiver := w.lock c }) owner i w c rfl rfl
    | askReceiver c =>
      simp only [OwnedRef.resume] at h
      split at h
      · obtain ⟨rfl, rfl⟩ := Prod.mk.inj (Option.some.inj h)
        exact exchanges_of_held_eq rfl rfl
      · obtain ⟨proxy, -, h⟩ := Option.bind_eq_some_iff.mp h
        obtain ⟨rfl, rfl⟩ := Prod.mk.inj (Option.some.inj h)
        exact exchanges_of_held_eq rfl rfl
    | collect receivers => simp [OwnedRef.resume] at h
  | poly id r =>
    cases task with
    | lockReceiver c => simp [OwnedRef.resume] at h
    | askReceiver c => simp [OwnedRef.resume] at h
    | collect receivers =>
      cases receivers with
      | nil =>
        obtain ⟨rfl, rfl⟩ := Prod.mk.inj (Option.some.inj h)
        exact exchanges_of_held_eq rfl rfl
      | cons c receivers =>
        simp only [OwnedRef.resume, World.lock] at h
        by_cases halive : w.alive c = true
        · simp only [halive, if_true] at h
          split at h
          · obtain ⟨rfl, rfl⟩ := Prod.mk.inj (Option.some.inj h)
            exact exchanges_of_held_eq rfl rfl
          · obtain ⟨rfl, rfl⟩ := Prod.mk.inj (Option.some.inj h)
            refine ⟨?_, fun p hp => Or.inl ?_, fun p hp => absurd hp List.not_mem_nil⟩
            · intro p hp
              rw [OwnedRef.held, List.map_append, List.mem_append] at hp
              rcases hp with hp | hp
              · exact Or.inl hp
              · obtain rfl := List.mem_singleton.mp hp
                exact Or.inr ⟨rfl, halive⟩
            · rw [OwnedRef.held, List.map_append]
              exact List.mem_append_left _ hp
        · simp only [halive] at h
          obtain ⟨rfl, rfl⟩ := Prod.mk.inj (Option.some.inj h)
          exact exchanges_of_held_eq rfl rfl

end OwnedRefAux

/-! ## What a step does to the strong pointers -/

namespace OwnershipAux

open OwnedRefAux

variable {n : Nat}

/-- A component is alive exactly if user code, a reference of some component or a thread has a strong pointer to it. -/
theorem alive_iff (s : OwnershipState n) (c : ComponentId) :
    s.world.alive c = true ↔ 0 < s.users c ∨ (∃ o ∈ s.components, c ∈ s.heldBy o) ∨ ∃ t, c ∈ s.pending t := by
  have hcount : 0 < s.strongPointers.count c ↔ (∃ o ∈ s.components, c ∈ s.heldBy o) ∨ ∃ t, c ∈ s.pending t := by
    rw [List.count_pos_iff, OwnershipState.strongPointers, List.mem_append, List.mem_flatMap, List.mem_flatMap]
    simp only [List.mem_finRange, true_and]
  rw [← hcount, World.alive, decide_eq_true_iff]
  show 0 < s.users c + s.strongPointers.count c ↔ _
  omega

theorem references_setReference_self (s : OwnershipState n) (owner : ComponentId) (i : Nat) (ref : OwnedRef) :
    (s.setReference owner i ref).references owner = (s.references owner).set i ref := Function.update_self ..

theorem references_setReference_of_ne (s : OwnershipState n) {owner o : ComponentId} (i : Nat) (ref : OwnedRef) (h : o ≠ owner) :
    (s.setReference owner i ref).references o = s.references o := Function.update_of_ne h ..

theorem stack_setStack_self (s : OwnershipState n) (t : Fin n) (stack : List StackFrame) : (s.setStack t stack).stack t = stack :=
  Function.update_self ..

theorem stack_setStack_of_ne (s : OwnershipState n) {t t' : Fin n} (stack : List StackFrame) (h : t' ≠ t) :
    (s.setStack t stack).stack t' = s.stack t' := Function.update_of_ne h ..

/-- What a component's references hold after one of them has been replaced: what they held, or what the new one holds. -/
theorem mem_heldBy_setReference {s : OwnershipState n} {owner o p : ComponentId} {i : Nat} {ref' : OwnedRef}
    (h : p ∈ (s.setReference owner i ref').heldBy o) : p ∈ s.heldBy o ∨ o = owner ∧ p ∈ ref'.held := by
  by_cases ho : o = owner
  · subst ho
    rw [OwnershipState.heldBy, references_setReference_self] at h
    obtain ⟨r, hr, hp⟩ := List.mem_flatMap.mp h
    rcases List.mem_or_eq_of_mem_set hr with hr | rfl
    · exact Or.inl (List.mem_flatMap.mpr ⟨r, hr, hp⟩)
    · exact Or.inr ⟨rfl, hp⟩
  · rw [OwnershipState.heldBy, references_setReference_of_ne s i ref' ho] at h
    exact Or.inl h

/-- What a component's references held before one of them was replaced: they hold it still, or the old one held it. -/
theorem mem_heldBy_of_setReference {s : OwnershipState n} {owner o p : ComponentId} {i : Nat} {ref : OwnedRef} (ref' : OwnedRef)
    (hi : (s.references owner)[i]? = some ref) (h : p ∈ s.heldBy o) :
    p ∈ (s.setReference owner i ref').heldBy o ∨ o = owner ∧ p ∈ ref.held := by
  by_cases ho : o = owner
  · subst ho
    obtain ⟨r, hr, hp⟩ := List.mem_flatMap.mp h
    obtain ⟨j, hj⟩ := List.mem_iff_getElem?.mp hr
    by_cases hij : j = i
    · subst hij
      obtain rfl := Option.some.inj (hi.symm.trans hj)
      exact Or.inr ⟨rfl, hp⟩
    · have hset : ((s.references o).set i ref')[j]? = some r := (List.getElem?_set_ne (Ne.symm hij)).trans hj
      refine Or.inl (List.mem_flatMap.mpr ⟨r, ?_, hp⟩)
      rw [references_setReference_self]
      exact List.mem_of_getElem? hset
  · rw [OwnershipState.heldBy, references_setReference_of_ne s i ref' ho]
    exact Or.inl h

/-- The new reference's pointers are held. -/
theorem mem_heldBy_setReference_self {s : OwnershipState n} {owner p : ComponentId} {i : Nat} {ref ref' : OwnedRef}
    (hi : (s.references owner)[i]? = some ref) (h : p ∈ ref'.held) : p ∈ (s.setReference owner i ref').heldBy owner := by
  rw [OwnershipState.heldBy, references_setReference_self]
  have hlt : i < (s.references owner).length := (List.getElem?_eq_some_iff.mp hi).1
  exact List.mem_flatMap.mpr ⟨ref', List.mem_of_getElem? (List.getElem?_set_self hlt), h⟩

/-- The pointers on their way out on a thread that has been given more to do. -/
theorem mem_pending_push {s : OwnershipState n} {t t' : Fin n} {frames : List StackFrame} {p : ComponentId} :
    p ∈ (s.push t frames).pending t' ↔ t' = t ∧ p ∈ frames.flatMap StackFrame.pointers ∨ p ∈ s.pending t' := by
  by_cases ht : t' = t
  · subst ht
    rw [OwnershipState.pending, OwnershipState.push, stack_setStack_self, List.flatMap_append, List.mem_append]
    simp only [true_and]
    rfl
  · rw [OwnershipState.pending, OwnershipState.push, stack_setStack_of_ne s _ ht]
    simp only [ht, false_and, false_or]
    rfl

/-- A reference that has not resolved holds nothing. -/
theorem heldBy_pushReference {s : OwnershipState n} {owner : ComponentId} {ref : OwnedRef} (href : ref.held = []) (o : ComponentId) :
    OwnershipState.heldBy { s with references := Function.update s.references owner (s.references owner ++ [ref]) } o = s.heldBy o := by
  by_cases hoo : o = owner
  · subst hoo
    simp only [OwnershipState.heldBy, Function.update_self, List.flatMap_append, List.flatMap_cons, href, List.flatMap_nil, List.append_nil]
  · simp only [OwnershipState.heldBy, Function.update_of_ne hoo]

theorem heldBy_destruct_self (s : OwnershipState n) (t : Fin n) (c : ComponentId) : (s.destruct t c).heldBy c = [] := by
  rw [OwnershipState.heldBy, show (s.destruct t c).references c = [] from Function.update_self ..]
  rfl

theorem heldBy_destruct_of_ne (s : OwnershipState n) (t : Fin n) {c o : ComponentId} (h : o ≠ c) :
    (s.destruct t c).heldBy o = s.heldBy o := by
  rw [OwnershipState.heldBy, show (s.destruct t c).references o = s.references o from Function.update_of_ne h ..]
  rfl

/-- Between two states the same components exist, have been destroyed and are alive, and only those that exist have got references. -/
structure Keeps (s s' : OwnershipState n) : Prop where
  components : s'.components = s.components
  destroyed : s'.destroyed = s.destroyed
  alive : ∀ c, s'.world.alive c = s.world.alive c
  owners : ∀ c, s'.references c ≠ [] → s.references c ≠ [] ∨ c ∈ s.components ∧ s.destroyed c = false

namespace Keeps

theorem refl (s : OwnershipState n) : Keeps s s := ⟨rfl, rfl, fun _ => rfl, fun _ h => Or.inl h⟩

theorem trans {s s' s'' : OwnershipState n} (h : Keeps s s') (h' : Keeps s' s'') : Keeps s s'' := by
  refine ⟨h'.components.trans h.components, h'.destroyed.trans h.destroyed, fun c => (h'.alive c).trans (h.alive c), ?_⟩
  intro c hc
  rcases h'.owners c hc with hc | hc
  · exact h.owners c hc
  · rw [h.components, h.destroyed] at hc
    exact Or.inr hc

/-- A change of the broker and of the components' tables. -/
theorem setWorld (s : OwnershipState n) (w : World) : Keeps s (s.setWorld w) := ⟨rfl, rfl, fun _ => rfl, fun _ h => Or.inl h⟩

end Keeps

theorem mem_heldBy_of_held {s : OwnershipState n} {owner p : ComponentId} {i : Nat} {ref : OwnedRef}
    (hi : (s.references owner)[i]? = some ref) (h : p ∈ ref.held) : p ∈ s.heldBy owner :=
  List.mem_flatMap.mpr ⟨ref, List.mem_of_getElem? hi, h⟩

/-- A step of a lookup keeps every component that was alive alive, and brings none back. -/
theorem keeps_exchange {s : OwnershipState n} {t : Fin n} {owner : ComponentId} {i : Nat} {ref ref' : OwnedRef}
    {locked : ComponentId → Prop} {frames : List StackFrame} (hi : (s.references owner)[i]? = some ref) (howner : owner ∈ s.components)
    (hx : Exchanges ref ref' locked frames) (hlocked : ∀ p, locked p → s.world.alive p = true) :
    Keeps s ((s.setReference owner i ref').push t frames) := by
  refine ⟨rfl, rfl, fun p => Bool.eq_iff_iff.mpr ⟨?_, ?_⟩, fun o ho => Or.inl fun hnil => ho ?_⟩
  · intro h
    have hold : p ∈ ref.held → s.world.alive p = true := fun hp =>
      (alive_iff s p).mpr (Or.inr (Or.inl ⟨owner, howner, mem_heldBy_of_held hi hp⟩))
    rcases (alive_iff _ p).mp h with h | ⟨o, ho, h⟩ | ⟨t', h⟩
    · exact (alive_iff s p).mpr (Or.inl h)
    · rcases mem_heldBy_setReference h with h | ⟨-, h⟩
      · exact (alive_iff s p).mpr (Or.inr (Or.inl ⟨o, ho, h⟩))
      · exact (hx.held p h).elim hold (hlocked p)
    · rcases mem_pending_push.mp h with ⟨-, h⟩ | h
      · exact hold (hx.dropped p h)
      · exact (alive_iff s p).mpr (Or.inr (Or.inr ⟨t', h⟩))
  · intro h
    refine (alive_iff _ p).mpr ?_
    rcases (alive_iff s p).mp h with h | ⟨o, ho, h⟩ | ⟨t', h⟩
    · exact Or.inl h
    · rcases mem_heldBy_of_setReference ref' hi h with h | ⟨-, h⟩
      · exact Or.inr (Or.inl ⟨o, ho, h⟩)
      -- it was the old reference's: the new one has it, or it is still to be dropped
      · rcases hx.kept p h with h | h
        · exact Or.inr (Or.inl ⟨owner, howner, mem_heldBy_setReference_self hi h⟩)
        · exact Or.inr (Or.inr ⟨t, mem_pending_push.mpr (Or.inl ⟨rfl, h⟩)⟩)
    · exact Or.inr (Or.inr ⟨t', mem_pending_push.mpr (Or.inr h)⟩)
  · by_cases hoo : o = owner
    · subst hoo
      exact (references_setReference_self s o i ref').trans (by rw [hnil]; rfl)
    · exact (references_setReference_of_ne s i ref' hoo).trans hnil

/-- What was on its way out on a thread before its first frame was taken away: the frame's pointers, and what still is. -/
theorem mem_pending_of_pop {s : OwnershipState n} {t t' : Fin n} {frame : StackFrame} {rest : List StackFrame} {p : ComponentId}
    (hs : s.stack t = frame :: rest) :
    p ∈ s.pending t' ↔ t' = t ∧ p ∈ frame.pointers ∨ p ∈ (s.setStack t rest).pending t' := by
  by_cases ht : t' = t
  · subst ht
    rw [OwnershipState.pending, hs, List.flatMap_cons, List.mem_append, OwnershipState.pending, stack_setStack_self]
    simp only [true_and]
  · rw [OwnershipState.pending, OwnershipState.pending, stack_setStack_of_ne s rest ht]
    simp only [ht, false_and, false_or]

/-- Taking a frame away costs nobody its last pointer but those the frame had. -/
theorem alive_setStack_iff {s : OwnershipState n} {t : Fin n} {frame : StackFrame} {rest : List StackFrame} {p : ComponentId}
    (hs : s.stack t = frame :: rest) :
    s.world.alive p = true ↔ p ∈ frame.pointers ∨ (s.setStack t rest).world.alive p = true := by
  rw [alive_iff, alive_iff]
  constructor
  · rintro (h | h | ⟨t', h⟩)
    · exact Or.inr (Or.inl h)
    · exact Or.inr (Or.inr (Or.inl h))
    · rcases (mem_pending_of_pop hs).mp h with ⟨-, h⟩ | h
      · exact Or.inl h
      · exact Or.inr (Or.inr (Or.inr ⟨t', h⟩))
  · rintro (h | h | h | ⟨t', h⟩)
    · exact Or.inr (Or.inr ⟨t, (mem_pending_of_pop hs).mpr (Or.inl ⟨rfl, h⟩)⟩)
    · exact Or.inl h
    · exact Or.inr (Or.inl h)
    · exact Or.inr (Or.inr ⟨t', (mem_pending_of_pop hs).mpr (Or.inr h)⟩)

/-- A frame that is taken away with nobody losing a last pointer. -/
theorem keeps_setStack {s : OwnershipState n} {t : Fin n} {frame : StackFrame} {rest : List StackFrame}
    (hs : s.stack t = frame :: rest) (h : ∀ p ∈ frame.pointers, (s.setStack t rest).world.alive p = true) :
    Keeps s (s.setStack t rest) := by
  refine ⟨rfl, rfl, fun p => Bool.eq_iff_iff.mpr ⟨fun hp => (alive_setStack_iff hs).mpr (Or.inr hp), ?_⟩, fun _ h => Or.inl h⟩
  intro hp
  exact ((alive_setStack_iff hs).mp hp).elim (h p) id

end OwnershipAux

/-! ## Who exists -/

/-- Every component that was constructed is alive or has been destroyed; only a component that exists has references. -/
structure OwnershipInv {n : Nat} (s : OwnershipState n) : Prop where
  kept : ∀ c ∈ s.components, s.destroyed c = true ∨ s.world.alive c = true
  dead : ∀ c, s.destroyed c = true → s.world.alive c = false
  constructed : ∀ c, s.world.alive c = true → c ∈ s.components
  gone : ∀ c, s.destroyed c = true → c ∈ s.components
  owners : ∀ c, s.references c ≠ [] → c ∈ s.components ∧ s.destroyed c = false

namespace OwnershipInv

open OwnedRefAux OwnershipAux

variable {n : Nat} {s s' : OwnershipState n}

theorem keeps (h : OwnershipInv s) (hk : Keeps s s') : OwnershipInv s' := by
  refine ⟨?_, ?_, ?_, ?_, ?_⟩
  · intro c hc
    rw [hk.components] at hc
    rw [hk.destroyed, hk.alive]
    exact h.kept c hc
  · intro c hc
    rw [hk.destroyed] at hc
    rw [hk.alive]
    exact h.dead c hc
  · intro c hc
    rw [hk.alive] at hc
    rw [hk.components]
    exact h.constructed c hc
  · intro c hc
    rw [hk.destroyed] at hc
    rw [hk.components]
    exact h.gone c hc
  · intro c hc
    rw [hk.components, hk.destroyed]
    exact (hk.owners c hc).elim (h.owners c) id

/-- The owner of a reference exists. -/
theorem owner_mem (h : OwnershipInv s) {owner : ComponentId} {i : Nat} {ref : OwnedRef}
    (hi : (s.references owner)[i]? = some ref) : owner ∈ s.components := by
  refine (h.owners owner ?_).1
  intro hnil
  rw [hnil] at hi
  cases hi

/-- A component that does not exist has no references. -/
theorem heldBy_of_not_mem (h : OwnershipInv s) {c : ComponentId} (hc : c ∉ s.components) : s.heldBy c = [] := by
  have hnil : s.references c = [] := by
    by_contra hne
    exact hc (h.owners c hne).1
  rw [OwnershipState.heldBy, hnil, List.flatMap_nil]

/-- One more component, which is alive while everybody else is as before. -/
theorem of_new (h : OwnershipInv s) {c : ComponentId} (hnew : c ∉ s.components)
    (hcomp : s'.components = s.components ++ [c]) (hdest : s'.destroyed = s.destroyed) (href : s'.references = s.references)
    (halive : ∀ p, s'.world.alive p = true ↔ p = c ∨ s.world.alive p = true) : OwnershipInv s' := by
  have hc : s.destroyed c ≠ true := fun hd => hnew (h.gone c hd)
  refine ⟨?_, ?_, ?_, ?_, ?_⟩
  · intro p hp
    rw [hcomp] at hp
    rw [hdest, halive]
    rcases List.mem_append.mp hp with hp | hp
    · exact (h.kept p hp).imp_right Or.inr
    · exact Or.inr (Or.inl (List.mem_singleton.mp hp))
  · intro p hp
    rw [hdest] at hp
    refine Bool.eq_false_iff.mpr ?_
    intro ha
    rcases (halive p).mp ha with rfl | ha
    · exact hc hp
    · rw [h.dead p hp] at ha
      cases ha
  · intro p hp
    rw [hcomp]
    rcases (halive p).mp hp with rfl | hp
    · exact List.mem_append_right _ (List.mem_singleton_self _)
    · exact List.mem_append_left _ (h.constructed p hp)
  · intro p hp
    rw [hdest] at hp
    rw [hcomp]
    exact List.mem_append_left _ (h.gone p hp)
  · intro p hp
    rw [href] at hp
    rw [hcomp, hdest]
    exact ⟨List.mem_append_left _ (h.owners p hp).1, (h.owners p hp).2⟩

/-- The only strong pointer to a new component is the caller's. -/
theorem construct (h : OwnershipInv s) {c : ComponentId} {executor : ExecutorId} {listener : Option ListenerId}
    (hs' : s.construct c executor listener = some s') : OwnershipInv s' := by
  unfold OwnershipState.construct at hs'
  split at hs'
  · cases hs'
  · rename_i hnew
    obtain rfl := Option.some.inj hs'
    refine h.of_new hnew rfl rfl rfl ?_
    intro p
    rw [alive_iff, alive_iff]
    constructor
    · rintro (hp | ⟨o, ho, hp⟩ | ⟨t, hp⟩)
      · by_cases hpc : p = c
        · exact Or.inl hpc
        · simp only [Function.update_of_ne hpc] at hp
          exact Or.inr (Or.inl hp)
      · rcases List.mem_append.mp ho with ho | ho
        · exact Or.inr (Or.inr (Or.inl ⟨o, ho, hp⟩))
        · obtain rfl := List.mem_singleton.mp ho
          have hnil : p ∈ s.heldBy o := hp
          rw [h.heldBy_of_not_mem hnew] at hnil
          exact absurd hnil List.not_mem_nil
      · exact Or.inr (Or.inr (Or.inr ⟨t, hp⟩))
    · rintro (rfl | hp | ⟨o, ho, hp⟩ | ⟨t, hp⟩)
      · exact Or.inl (by simp only [Function.update_self]; omega)
      · by_cases hpc : p = c
        · subst hpc
          exact Or.inl (by simp only [Function.update_self]; omega)
        · exact Or.inl (by simp only [Function.update_of_ne hpc]; exact hp)
      · exact Or.inr (Or.inl ⟨o, List.mem_append_left _ ho, hp⟩)
      · exact Or.inr (Or.inr ⟨t, hp⟩)

/-- Only a component that exists gets a reference. -/
theorem keeps_pushReference {owner : ComponentId} {ref : OwnedRef} (href : ref.held = [])
    (hs' : s.pushReference owner ref = some s') : Keeps s s' := by
  unfold OwnershipState.pushReference at hs'
  split at hs'
  · rename_i howner
    obtain rfl := Option.some.inj hs'
    rw [OwnershipState.present, Bool.and_eq_true, decide_eq_true_iff, Bool.not_eq_true'] at howner
    refine ⟨rfl, rfl, fun p => Bool.eq_iff_iff.mpr ?_, ?_⟩
    · rw [alive_iff, alive_iff]
      simp only [heldBy_pushReference href]
      rfl
    · intro o ho
      by_cases hoo : o = owner
      · subst hoo
        exact Or.inr howner
      · simp only [Function.update_of_ne hoo] at ho
        exact Or.inl ho
  · cases hs'

theorem keeps_acquire {c : ComponentId} (hs' : s.acquire c = some s') : Keeps s s' := by
  unfold OwnershipState.acquire at hs'
  split at hs'
  · rename_i halive
    obtain rfl := Option.some.inj hs'
    refine ⟨rfl, rfl, ?_, fun _ h => Or.inl h⟩
    intro p
    by_cases hpc : p = c
    · subst hpc
      rw [halive, alive_iff]
      exact Or.inl (by simp only [Function.update_self]; omega)
    · refine Bool.eq_iff_iff.mpr ?_
      rw [alive_iff, alive_iff]
      simp only [Function.update_of_ne hpc]
      rfl
  · cases hs'

/-- The pointer that user code lets go of is still to be dropped. -/
theorem keeps_release {t : Fin n} {c : ComponentId} (hs' : s.release t c = some s') : Keeps s s' := by
  unfold OwnershipState.release at hs'
  split at hs'
  · cases hs'
  · rename_i hpos
    obtain rfl := Option.some.inj hs'
    refine ⟨rfl, rfl, ?_, fun _ h => Or.inl h⟩
    intro p
    by_cases hpc : p = c
    · subst hpc
      have hbefore : s.world.alive p = true := (alive_iff s p).mpr (Or.inl (by omega))
      rw [hbefore, alive_iff]
      exact Or.inr (Or.inr ⟨t, mem_pending_push.mpr (Or.inl ⟨rfl, List.mem_singleton_self p⟩)⟩)
    · refine Bool.eq_iff_iff.mpr ?_
      rw [alive_iff, alive_iff]
      have hpending : ∀ t', p ∈ OwnershipState.pending ({ s with
          users := Function.update s.users c (s.users c - 1) }.push t [StackFrame.drop c]) t' ↔ p ∈ s.pending t' := fun t' => by
        rw [mem_pending_push]
        exact ⟨fun hp => hp.elim (fun hp => absurd (List.mem_singleton.mp hp.2) hpc) id, Or.inr⟩
      simp only [hpending]
      simp only [OwnershipState.push, OwnershipState.setStack, Function.update_of_ne hpc]
      rfl

/-- A lookup that starts goes on from what the broker has returned. -/
theorem keeps_lookup (h : OwnershipInv s) {t : Fin n} {owner : ComponentId} {i : Nat} (hs' : s.lookup t owner i = some s') :
    Keeps s s' := by
  unfold OwnershipState.lookup at hs'
  split at hs'
  · cases hs'
  · rename_i ref hi
    split at hs'
    · obtain rfl := Option.some.inj hs'
      exact Keeps.refl s
    · obtain rfl := Option.some.inj hs'
      have hbroker : Keeps s { s with broker := (s.broker.lookup ref.messageId).1 } := ⟨rfl, rfl, fun _ => rfl, fun _ h => Or.inl h⟩
      refine hbroker.trans (keeps_exchange hi (h.owner_mem hi) (fetch_exchanges owner i _ _ ref) ?_)
      exact fun p hp => hp.elim

/-- The pointers a component's references held are still there when the component has been destroyed. -/
theorem alive_destruct {t : Fin n} {c : ComponentId} (hc : c ∈ s.components) (p : ComponentId) :
    (s.destruct t c).world.alive p = s.world.alive p := by
  have hpending : ∀ t', p ∈ (s.destruct t c).pending t' ↔ t' = t ∧ p ∈ s.heldBy c ∨ p ∈ s.pending t' := fun t' => by
    rw [OwnershipState.destruct, mem_pending_push, pointers_drop]
    exact Iff.rfl
  refine Bool.eq_iff_iff.mpr ?_
  rw [alive_iff, alive_iff]
  constructor
  · rintro (hp | ⟨o, ho, hp⟩ | ⟨t', hp⟩)
    · exact Or.inl hp
    · by_cases hoc : o = c
      · subst hoc
        rw [heldBy_destruct_self] at hp
        exact absurd hp List.not_mem_nil
      · rw [heldBy_destruct_of_ne s t hoc] at hp
        exact Or.inr (Or.inl ⟨o, ho, hp⟩)
    · rcases (hpending t').mp hp with ⟨-, hp⟩ | hp
      · exact Or.inr (Or.inl ⟨c, hc, hp⟩)
      · exact Or.inr (Or.inr ⟨t', hp⟩)
  · rintro (hp | ⟨o, ho, hp⟩ | ⟨t', hp⟩)
    · exact Or.inl hp
    · by_cases hoc : o = c
      · subst hoc
        exact Or.inr (Or.inr ⟨t, (hpending t).mpr (Or.inl ⟨rfl, hp⟩)⟩)
      · exact Or.inr (Or.inl ⟨o, ho, (heldBy_destruct_of_ne s t hoc).symm ▸ hp⟩)
    · exact Or.inr (Or.inr ⟨t', (hpending t').mpr (Or.inr hp)⟩)

/-- A strong pointer that has gone: if it was the last one, the component is destroyed and nobody else is. -/
theorem dropped (h : OwnershipInv s) {t : Fin n} {c : ComponentId} {rest : List StackFrame} (hs : s.stack t = .drop c :: rest) :
    OwnershipInv ((s.setStack t rest).dropped t c) := by
  have hdrop : ∀ p, s.world.alive p = true ↔ p = c ∨ (s.setStack t rest).world.alive p = true := fun p => by
    rw [alive_setStack_iff hs, StackFrame.pointers, List.mem_singleton]
  have hc : c ∈ s.components := h.constructed c ((hdrop c).mpr (Or.inl rfl))
  unfold OwnershipState.dropped
  split
  · rename_i halive
    exact h.keeps (keeps_setStack hs fun p hp => List.mem_singleton.mp hp ▸ halive)
  · rename_i hdead
    have halive : ∀ p, ((s.setStack t rest).destruct t c).world.alive p = (s.setStack t rest).world.alive p := alive_destruct hc
    have hdead' : ∀ p, ((s.setStack t rest).destruct t c).world.alive p = true → p ≠ c ∧ s.world.alive p = true := fun p hp => by
      rw [halive] at hp
      exact ⟨fun hpc => hdead (hpc ▸ hp), (hdrop p).mpr (Or.inr hp)⟩
    have hdestroyed : ∀ p, ((s.setStack t rest).destruct t c).destroyed p = true ↔ p = c ∨ s.destroyed p = true := fun p => by
      show Function.update s.destroyed c true p = true ↔ _
      by_cases hpc : p = c
      · subst hpc
        simp only [Function.update_self, true_or]
      · simp only [Function.update_of_ne hpc, hpc, false_or]
    have hreferences : ∀ p, ((s.setStack t rest).destruct t c).references p ≠ [] → p ≠ c ∧ s.references p ≠ [] := fun p hp => by
      by_cases hpc : p = c
      · subst hpc
        exact absurd (Function.update_self ..) hp
      · refine ⟨hpc, fun hnil => hp ?_⟩
        exact (Function.update_of_ne hpc ..).trans hnil
    refine ⟨?_, ?_, fun p hp => h.constructed p (hdead' p hp).2, ?_, ?_⟩
    · intro p hp
      by_cases hpc : p = c
      · exact Or.inl ((hdestroyed p).mpr (Or.inl hpc))
      · rcases h.kept p hp with hd | ha
        · exact Or.inl ((hdestroyed p).mpr (Or.inr hd))
        · rw [halive]
          exact Or.inr (((hdrop p).mp ha).resolve_left hpc)
    · intro p hp
      refine Bool.eq_false_iff.mpr fun ha => ?_
      obtain ⟨hpc, ha⟩ := hdead' p ha
      rw [h.dead p (((hdestroyed p).mp hp).resolve_left hpc)] at ha
      cases ha
    · intro p hp
      rcases (hdestroyed p).mp hp with rfl | hd
      · exact hc
      · exact h.gone p hd
    · intro p hp
      obtain ⟨hpc, hne⟩ := hreferences p hp
      obtain ⟨hmem, hd⟩ := h.owners p hne
      refine ⟨hmem, Bool.eq_false_iff.mpr ?_⟩
      intro hd'
      rw [((hdestroyed p).mp hd').resolve_left hpc] at hd
      cases hd

/-- A thread that goes on with a lookup, or drops a pointer. -/
theorem advance (h : OwnershipInv s) {t : Fin n} (hs' : s.advance t = some s') : OwnershipInv s' := by
  unfold OwnershipState.advance at hs'
  split at hs'
  · cases hs'
  · rename_i c rest hs
    obtain rfl := Option.some.inj hs'
    exact h.dropped hs
  · rename_i owner i task rest hs
    split at hs'
    · cases hs'
    · rename_i ref hi
      obtain ⟨⟨ref', frames⟩, hresume, rfl⟩ := Option.map_eq_some_iff.mp hs'
      have hpop := keeps_setStack hs fun p hp => absurd hp List.not_mem_nil
      refine h.keeps (hpop.trans (keeps_exchange hi (h.owner_mem hi) (resume_exchanges hresume) ?_))
      intro p hp
      exact (hpop.alive p).trans hp.2

/-- Every step keeps the invariant. -/
theorem step (h : OwnershipInv s) {a : OwnershipAction n} (hs' : s.step a = some s') : OwnershipInv s' := by
  cases a with
  | construct c executor listener => exact h.construct hs'
  | world op =>
    simp only [OwnershipState.step] at hs'
    split at hs'
    · cases hs'
    · obtain ⟨w, -, rfl⟩ := Option.map_eq_some_iff.mp hs'
      exact h.keeps (Keeps.setWorld s w)
  | lookupQuery kind owner id => exact h.keeps (keeps_pushReference rfl hs')
  | lookupEvent owner id => exact h.keeps (keeps_pushReference rfl hs')
  | lookupInterface owner id life => exact h.keeps (keeps_pushReference rfl hs')
  | acquire c => exact h.keeps (keeps_acquire hs')
  | release t c => exact h.keeps (keeps_release hs')
  | lookup t owner i => exact h.keeps (h.keeps_lookup hs')
  | advance t => exact h.advance hs'

theorem init : OwnershipInv (OwnershipState.init : OwnershipState n) := by
  have hdead : ∀ c, (OwnershipState.init : OwnershipState n).world.alive c ≠ true := fun c hc => by
    rcases (alive_iff _ c).mp hc with hc | ⟨o, ho, -⟩ | ⟨t, hc⟩
    · exact Nat.lt_irrefl 0 hc
    · exact List.not_mem_nil ho
    · exact List.not_mem_nil hc
  refine ⟨fun c hc => absurd hc List.not_mem_nil, ?_, fun c hc => absurd hc (hdead c), ?_, ?_⟩
  · intro c hc
    cases hc
  · intro c hc
    cases hc
  · intro c hc
    exact absurd rfl hc

/-- The invariant holds in every state that can be reached. -/
theorem run {acts : List (OwnershipAction n)} (h : Transition.run OwnershipState.step OwnershipState.init acts = some s) :
    OwnershipInv s :=
  Transition.run_invariant (fun _ _ _ h hs => h.step hs) init h

end OwnershipInv

/-! ## Who holds whom -/

namespace OwnershipAux

open OwnedRefAux

variable {n : Nat} {s s' : OwnershipState n}

/-- A step of a lookup adds what it locks to what its component holds, and nothing else. -/
theorem holds_exchange {owner o p : ComponentId} {i : Nat} {ref ref' : OwnedRef} {locked : ComponentId → Prop}
    {frames : List StackFrame} (hi : (s.references owner)[i]? = some ref) (hx : Exchanges ref ref' locked frames)
    (h : (s.setReference owner i ref').Holds o p) : s.Holds o p ∨ o = owner ∧ locked p := by
  rcases mem_heldBy_setReference h with hold | ⟨rfl, hnew⟩
  · exact Or.inl hold
  · exact (hx.held p hnew).imp (mem_heldBy_of_held hi) fun hp => ⟨rfl, hp⟩

theorem holds_lookup {t : Fin n} {owner o p : ComponentId} {i : Nat} (hs' : s.lookup t owner i = some s') (h : s'.Holds o p) :
    s.Holds o p := by
  unfold OwnershipState.lookup at hs'
  split at hs'
  · cases hs'
  · rename_i ref hi
    split at hs'
    · exact Option.some.inj hs' ▸ h
    · obtain rfl := Option.some.inj hs'
      exact (holds_exchange hi (fetch_exchanges owner i _ _ ref) h).elim id fun hp => hp.2.elim

theorem holds_pushReference {owner o p : ComponentId} {ref : OwnedRef} (href : ref.held = [])
    (hs' : s.pushReference owner ref = some s') (h : s'.Holds o p) : s.Holds o p := by
  unfold OwnershipState.pushReference at hs'
  split at hs'
  · obtain rfl := Option.some.inj hs'
    rwa [OwnershipState.Holds, heldBy_pushReference href] at h
  · cases hs'

theorem holds_dropped {t : Fin n} {c o p : ComponentId} (h : (s.dropped t c).Holds o p) : s.Holds o p := by
  unfold OwnershipState.dropped at h
  split at h
  · exact h
  · by_cases hoc : o = c
    · subst hoc
      rw [OwnershipState.Holds, heldBy_destruct_self] at h
      exact absurd h List.not_mem_nil
    · rwa [OwnershipState.Holds, heldBy_destruct_of_ne s t hoc] at h

/-- A step that does not lock a component which leads back to the one that looks it up makes no cycle. -/
theorem noCycle_step (hn : NoCycle s.Holds) {a : OwnershipAction n} (hC : s.ClosesNoCycle a) (hs' : s.step a = some s') :
    NoCycle s'.Holds := by
  cases a with
  | construct c executor listener =>
    simp only [OwnershipState.step, OwnershipState.construct] at hs'
    split at hs'
    · cases hs'
    · obtain rfl := Option.some.inj hs'
      exact hn
  | world op =>
    simp only [OwnershipState.step] at hs'
    split at hs'
    · cases hs'
    · obtain ⟨w, -, rfl⟩ := Option.map_eq_some_iff.mp hs'
      exact hn
  | lookupQuery kind owner id => exact hn.mono fun _ _ => holds_pushReference rfl hs'
  | lookupEvent owner id => exact hn.mono fun _ _ => holds_pushReference rfl hs'
  | lookupInterface owner id life => exact hn.mono fun _ _ => holds_pushReference rfl hs'
  | acquire c =>
    simp only [OwnershipState.step, OwnershipState.acquire] at hs'
    split at hs'
    · obtain rfl := Option.some.inj hs'
      exact hn
    · cases hs'
  | release t c =>
    simp only [OwnershipState.step, OwnershipState.release] at hs'
    split at hs'
    · cases hs'
    · obtain rfl := Option.some.inj hs'
      exact hn
  | lookup t owner i => exact hn.mono fun _ _ => holds_lookup hs'
  | advance t =>
    simp only [OwnershipState.step, OwnershipState.advance] at hs'
    split at hs'
    · cases hs'
    · rename_i c rest _
      obtain rfl := Option.some.inj hs'
      exact hn.mono fun _ _ h => holds_dropped (s := s.setStack t rest) h
    · rename_i owner i task rest hs
      split at hs'
      · cases hs'
      · rename_i ref hi
        obtain ⟨⟨ref', frames⟩, hresume, rfl⟩ := Option.map_eq_some_iff.mp hs'
        have hle := fun o p => holds_exchange (o := o) (p := p) hi (resume_exchanges hresume)
        -- either the step locks nothing, or it locks the one component it was to lock
        by_cases hlocks : ∃ c ∈ task.next, s.world.alive c = true
        · obtain ⟨c, hc, halive⟩ := hlocks
          refine hn.insert (hC owner i task rest hs c hc halive) fun o p h => (hle o p h).imp_right ?_
          rintro ⟨rfl, hp, -⟩
          exact ⟨rfl, Option.some.inj (hp.symm.trans hc)⟩
        · refine hn.mono fun o p h => (hle o p h).resolve_right ?_
          rintro ⟨-, hp, halive⟩
          exact hlocks ⟨p, hp, halive⟩

end OwnershipAux

/-! ## What is left after a shutdown -/

namespace OwnershipState

open OwnershipAux

variable {n : Nat}

/-- In a state where nobody else holds a pointer, what is left of the components is held by what is left of them. -/
theorem holder_of_not_destroyed {s : OwnershipState n} (h : OwnershipInv s) (hrel : s.Released) {c : ComponentId}
    (hc : c ∈ s.components) (hd : s.destroyed c = false) : ∃ o ∈ s.components, s.destroyed o = false ∧ s.Holds o c := by
  have halive : s.world.alive c = true := (h.kept c hc).resolve_left (by rw [hd]; exact Bool.false_ne_true)
  rcases (alive_iff s c).mp halive with hu | ⟨o, ho, hheld⟩ | ⟨t, hp⟩
  · rw [hrel.unused c hc] at hu
    omega
  · refine ⟨o, ho, (h.owners o ?_).2, hheld⟩
    intro hnil
    rw [heldBy, hnil] at hheld
    exact absurd hheld List.not_mem_nil
  · rw [pending, hrel.idle t] at hp
    exact absurd hp List.not_mem_nil

/-- They have all been destroyed exactly if no reference is left on a cycle. -/
theorem allDestroyed_iff {s : OwnershipState n} (h : OwnershipInv s) (hrel : s.Released) : s.AllDestroyed ↔ NoCycle s.Holds := by
  constructor
  · intro hall
    refine noCycle_of_empty ?_
    intro o c hheld
    have hne : s.references o ≠ [] := fun hnil => by
      rw [Holds, heldBy, hnil] at hheld
      exact absurd hheld List.not_mem_nil
    obtain ⟨ho, hd⟩ := h.owners o hne
    rw [hall o ho] at hd
    cases hd
  · intro hn
    by_contra hleft
    obtain ⟨c, hc, hd⟩ : ∃ c ∈ s.components, s.destroyed c ≠ true := by
      simpa only [AllDestroyed, not_forall, exists_prop] using hleft
    -- those that are left are finitely many, and each of them is held by one of them
    let left := s.components.filter fun c => !s.destroyed c
    have hmem : ∀ x, x ∈ left ↔ x ∈ s.components ∧ s.destroyed x = false := fun x => by
      simp only [left, List.mem_filter, Bool.not_eq_true']
    have hne : left ≠ [] := List.ne_nil_of_mem ((hmem c).mpr ⟨hc, Bool.eq_false_iff.mpr hd⟩)
    obtain ⟨x, hx, hsource⟩ := hn.exists_source hne
    obtain ⟨o, ho, hod, hheld⟩ := holder_of_not_destroyed h hrel ((hmem x).mp hx).1 ((hmem x).mp hx).2
    exact hsource o ((hmem o).mpr ⟨ho, hod⟩) hheld

/-- When all components have been unpublished and nobody uses them, they have all been destroyed exactly if the strong pointers that the
references hold make no cycle, which is so after every run in which no lookup closes one. -/
theorem released_destroyed_iff {acts : List (OwnershipAction n)} {s : OwnershipState n}
    (hrun : Transition.run step init acts = some s) (hrel : s.Released) :
    (s.AllDestroyed ↔ NoCycle s.Holds) ∧ (Transition.AllSteps step ClosesNoCycle init acts → s.AllDestroyed) := by
  have hiff := allDestroyed_iff (OwnershipInv.run hrun) hrel
  refine ⟨hiff, fun hC => hiff.mpr ?_⟩
  have hinit : NoCycle (init : OwnershipState n).Holds := noCycle_of_empty fun _ _ h => List.not_mem_nil h
  exact hC.run_invariant (P := fun s => NoCycle s.Holds) (fun _ _ _ hn hC hs => noCycle_step hn hC hs) hinit hrun

/-- Component 0 publishes query 7, component 1 looks it up and calls it. Both are unpublished and let go of, the caller first, which takes
its reference with it. -/
def oneLookup : List (OwnershipAction 1) :=
  [.construct 0 0 none, .construct 1 0 none, .world (.publishAsyncQuery 0 7 5 none), .lookupQuery .async 1 7, .lookup 0 1 0, .advance 0,
    .advance 0, .world (.unpublishDependencies 0), .world (.unpublishDependencies 1), .release 0 1, .advance 0, .advance 0, .release 0 0,
    .advance 0]

/-- A lookup that goes on locks no component but such as hold nothing themselves, and not its own. -/
def locksLeaf (s : OwnershipState n) : OwnershipAction n → Bool
  | .advance t =>
    match s.stack t with
    | .lookup owner _ task :: _ => task.next.all fun c => c != owner && (s.heldBy c).isEmpty
    | _ => true
  | _ => true

/-- A component that holds nothing leads nowhere. -/
theorem closesNoCycle_of_locksLeaf {s : OwnershipState n} {a : OwnershipAction n} (h : s.locksLeaf a = true) : s.ClosesNoCycle a := by
  cases a with
  | advance t =>
    intro owner i task rest hs c hc _ hpath
    simp only [locksLeaf, hs, Option.mem_def.mp hc, Option.all_some, Bool.and_eq_true, bne_iff_ne, List.isEmpty_iff] at h
    obtain ⟨hne, hnil⟩ := h
    rcases Relation.ReflTransGen.cases_head hpath with heq | ⟨d, hd, -⟩
    · exact hne heq
    · rw [Holds, hnil] at hd
      exact absurd hd List.not_mem_nil
  | _ => trivial

theorem released_destroyed_oneLookup :
    ∃ s, Transition.run step init oneLookup = some s ∧ s.components = [0, 1] ∧ s.AllDestroyed := by
  obtain ⟨s, hs⟩ : ∃ s, Transition.run step init oneLookup = some s := ⟨_, rfl⟩
  have hrel : s.Released := by
    obtain rfl := Option.some.inj hs
    exact ⟨by decide, by decide, by decide⟩
  have hleaf : Transition.AllSteps step (fun s a => locksLeaf s a = true) init oneLookup := by decide
  have hC : Transition.AllSteps step ClosesNoCycle init oneLookup :=
    Transition.AllSteps.imp (P := fun _ => True) (fun _ _ _ _ _ _ => trivial) (fun _ _ _ h => closesNoCycle_of_locksLeaf h) trivial hleaf
  refine ⟨s, hs, ?_, (released_destroyed_iff hs hrel).2 hC⟩
  obtain rfl := Option.some.inj hs
  rfl

/-- A component publishes a query, looks it up itself and calls it. It is unpublished and let go of. -/
def ownLookup : List (OwnershipAction 1) :=
  [.construct 0 0 none, .world (.publishAsyncQuery 0 7 5 none), .world (.publishDependencies 0), .lookupQuery .async 0 7, .lookup 0 0 0,
    .advance 0, .advance 0, .world (.unpublishDependencies 0), .release 0 0, .advance 0]

/-- The component's reference to its own query keeps it alive. -/
theorem own_lookup_keeps_alive :
    ¬∀ (n : Nat) (acts : List (OwnershipAction n)) (s : OwnershipState n), Transition.run step init acts = some s → s.Released →
      s.AllDestroyed := by
  intro h
  obtain ⟨s, hs⟩ : ∃ s, Transition.run step init ownLookup = some s := ⟨_, rfl⟩
  have hall := h 1 ownLookup s hs
  obtain rfl := Option.some.inj hs
  have hnot := hall ⟨by decide, by decide, by decide⟩ 0 (by decide)
  cases hnot

end OwnershipState

end Minicomps
