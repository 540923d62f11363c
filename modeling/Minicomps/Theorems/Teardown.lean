import Mathlib.Algebra.BigOperators.Group.Finset.Basic
import Mathlib.Algebra.BigOperators.Fin
import Minicomps.Teardown
import Minicomps.Theorems.Ownership

/-!
# Shutdowns, with resets and without

A reference that has been reset holds nothing until it is looked up again. So once all references of the components that are left have been
reset nothing keeps any of them, in whatever order the pointers go. Without resets the components on a cycle of references keep each other.
-/

namespace Minicomps

open Acyclic

/-! ## What a reset does -/

namespace OwnedRefAux

/-- A reference that has been reset holds nothing. -/
theorem held_reset (ref : OwnedRef) : ref.reset.1.held = [] := by cases ref <;> rfl

theorem reset_eq_drops (ref : OwnedRef) : ref.reset.2 = ref.held.map StackFrame.drop := by
  cases ref with
  | mono kind id r => rfl
  | poly id r => exact (List.map_map ..).symm
  | interface id life r => rfl

theorem pointers_reset (ref : OwnedRef) : ref.reset.2.flatMap StackFrame.pointers = ref.held := by
  rw [reset_eq_drops, pointers_drop]

/-- What it held is still to be dropped. -/
theorem reset_exchanges (ref : OwnedRef) : Exchanges ref ref.reset.1 (fun _ => False) ref.reset.2 := by
  refine ⟨fun p hp => ?_, fun p hp => Or.inr ?_, fun p hp => ?_⟩
  · rw [held_reset] at hp
    exact absurd hp List.not_mem_nil
  · rwa [pointers_reset]
  · rwa [pointers_reset] at hp

end OwnedRefAux

namespace TeardownAux

open OwnedRefAux OwnershipAux

variable {n : Nat} {s s' : OwnershipState n}

theorem resetReference_cases {t : Fin n} {owner : ComponentId} {i : Nat} (h : s.resetReference t owner i = some s') :
    ∃ ref, (s.references owner)[i]? = some ref ∧ s.users owner ≠ 0 ∧ s' = (s.setReference owner i ref.reset.1).push t ref.reset.2 := by
  unfold OwnershipState.resetReference at h
  split at h
  · cases h
  · rename_i husers
    obtain ⟨ref, hi, rfl⟩ := Option.map_eq_some_iff.mp h
    exact ⟨ref, hi, husers, rfl⟩

/-- Resets keep the invariant as the other steps do. -/
theorem inv_step (h : OwnershipInv s) {a : TeardownAction n} (hs' : s.teardownStep a = some s') : OwnershipInv s' := by
  cases a with
  | ownership a => exact h.step hs'
  | reset t owner i =>
    obtain ⟨ref, hi, -, rfl⟩ := resetReference_cases hs'
    exact h.keeps (keeps_exchange hi (h.owner_mem hi) (reset_exchanges ref) fun p hp => hp.elim)

theorem inv_of_run {acts : List (TeardownAction n)} (hs : OwnershipInv s) (h : Transition.run OwnershipState.teardownStep s acts = some s') :
    OwnershipInv s' :=
  Transition.run_invariant (fun _ _ _ h hs => inv_step h hs) hs h

theorem inv_run {acts : List (TeardownAction n)} (h : Transition.run OwnershipState.teardownStep OwnershipState.init acts = some s) :
    OwnershipInv s := inv_of_run OwnershipInv.init h

/-! ## What a shutdown does to the references -/

/-- Each reference of the later state is one of the earlier state, in the same place, or holds nothing. -/
def Forgets (s s' : OwnershipState n) : Prop :=
  ∀ (c : ComponentId) (i : Nat) (ref : OwnedRef), (s'.references c)[i]? = some ref → ref.held = [] ∨ (s.references c)[i]? = some ref

theorem forgets_of_eq (h : s'.references = s.references) : Forgets s s' := fun _ _ _ hi => Or.inr (h ▸ hi)

theorem forgets_setReference {owner : ComponentId} {i : Nat} {ref : OwnedRef} (href : ref.held = []) :
    Forgets s (s.setReference owner i ref) := by
  intro c j r hj
  by_cases hc : c = owner
  · subst hc
    rw [references_setReference_self] at hj
    by_cases hij : j = i
    · subst hij
      obtain ⟨hlt, hr⟩ := List.getElem?_eq_some_iff.mp hj
      rw [List.getElem_set_self] at hr
      exact Or.inl (hr ▸ href)
    · rw [List.getElem?_set_ne (Ne.symm hij)] at hj
      exact Or.inr hj
  · rw [references_setReference_of_ne s i ref hc] at hj
    exact Or.inr hj

theorem forgets_update {c : ComponentId} (h : s'.references = Function.update s.references c []) : Forgets s s' := by
  intro o i ref hi
  by_cases ho : o = c
  · subst ho
    rw [h, Function.update_self] at hi
    cases hi
  · rw [h, Function.update_of_ne ho] at hi
    exact Or.inr hi

/-! ## What a shutdown does to the threads -/

theorem noLookups_setStack (h : s.NoLookups) {t : Fin n} {stack : List StackFrame} (hstack : ∀ frame ∈ stack, ∃ c, frame = .drop c) :
    (s.setStack t stack).NoLookups := by
  intro u
  by_cases hu : u = t
  · subst hu
    rwa [stack_setStack_self]
  · rw [stack_setStack_of_ne s stack hu]
    exact h u

theorem noLookups_push (h : s.NoLookups) {t : Fin n} (cs : List ComponentId) : (s.push t (cs.map StackFrame.drop)).NoLookups := by
  refine noLookups_setStack h fun frame hframe => ?_
  rcases List.mem_append.mp hframe with hframe | hframe
  · obtain ⟨c, -, rfl⟩ := List.mem_map.mp hframe
    exact ⟨c, rfl⟩
  · exact h t frame hframe

theorem noLookups_dropped (h : s.NoLookups) {t : Fin n} {c : ComponentId} : (s.dropped t c).NoLookups := by
  unfold OwnershipState.dropped
  split
  · exact h
  · exact noLookups_push h (s.heldBy c)

/-- The references of a component go with it, when the last pointer to it has gone. -/
theorem references_dropped (hs : OwnershipInv s) {t : Fin n} {c : ComponentId} {rest : List StackFrame} :
    ((s.setStack t rest).dropped t c).references = s.references ∨
      (∀ o, ¬s.Holds o c) ∧ ((s.setStack t rest).dropped t c).references = Function.update s.references c [] := by
  unfold OwnershipState.dropped
  split
  · exact Or.inl rfl
  · rename_i hdead
    refine Or.inr ⟨fun o hheld => hdead ?_, rfl⟩
    obtain ⟨ref, hmem, -⟩ := List.mem_flatMap.mp hheld
    exact (alive_iff _ c).mpr (Or.inr (Or.inl ⟨o, (hs.owners o (List.ne_nil_of_mem hmem)).1, hheld⟩))

/-- What a shutdown does to the references: it resets one, or leaves all as they are, or takes those of a component that nobody holds. -/
def ReferencesStep (s : OwnershipState n) (a : TeardownAction n) (s' : OwnershipState n) : Prop :=
  (∃ t o i ref, a = .reset t o i ∧ (s.references o)[i]? = some ref ∧ s'.references = (s.setReference o i ref.reset.1).references) ∨
    s'.references = s.references ∨ ∃ c, (∀ o, ¬s.Holds o c) ∧ s'.references = Function.update s.references c []

/-- The threads of a shutdown do nothing but drop pointers. -/
theorem shutdown_cases (hs : OwnershipInv s) (h : s.NoLookups) {a : TeardownAction n} (ha : a.tearsDown = true)
    (hs' : s.teardownStep a = some s') : s'.NoLookups ∧ ReferencesStep s a s' := by
  cases a with
  | reset t owner i =>
    obtain ⟨ref, hi, -, rfl⟩ := resetReference_cases hs'
    refine ⟨?_, Or.inl ⟨t, owner, i, ref, rfl, hi, rfl⟩⟩
    rw [reset_eq_drops]
    exact noLookups_push h ref.held
  | ownership a =>
    cases a with
    | world op =>
      cases op with
      | unpublishDependencies c =>
        obtain rfl := Option.some.inj hs'
        exact ⟨h, Or.inr (Or.inl rfl)⟩
      | _ => cases ha
    | acquire c =>
      simp only [OwnershipState.teardownStep, OwnershipState.step, OwnershipState.acquire] at hs'
      split at hs'
      · obtain rfl := Option.some.inj hs'
        exact ⟨h, Or.inr (Or.inl rfl)⟩
      · cases hs'
    | release t c =>
      simp only [OwnershipState.teardownStep, OwnershipState.step, OwnershipState.release] at hs'
      split at hs'
      · cases hs'
      · obtain rfl := Option.some.inj hs'
        exact ⟨noLookups_push (s := { s with users := _ }) h [c], Or.inr (Or.inl rfl)⟩
    | advance t =>
      simp only [OwnershipState.teardownStep, OwnershipState.step, OwnershipState.advance] at hs'
      split at hs'
      · cases hs'
      · rename_i c rest hstack
        obtain rfl := Option.some.inj hs'
        have hrest : (s.setStack t rest).NoLookups :=
          noLookups_setStack h fun frame hframe => h t frame (hstack ▸ List.mem_cons_of_mem _ hframe)
        exact ⟨noLookups_dropped hrest, Or.inr ((references_dropped hs).imp_right fun hgone => ⟨c, hgone⟩)⟩
      · rename_i owner i task rest hstack
        obtain ⟨c, hc⟩ := h t (.lookup owner i task) (hstack ▸ List.mem_cons_self)
        cases hc
    | _ => cases ha

theorem shutdown_step (hs : OwnershipInv s) (h : s.NoLookups) {a : TeardownAction n} (ha : a.tearsDown = true)
    (hs' : s.teardownStep a = some s') : s'.NoLookups ∧ Forgets s s' := by
  obtain ⟨hlookups, ⟨t, o, i, ref, -, -, hset⟩ | hsame | ⟨c, -, hgone⟩⟩ := shutdown_cases hs h ha hs'
  · refine ⟨hlookups, fun c j ref' hj => ?_⟩
    rw [hset] at hj
    exact forgets_setReference (held_reset ref) c j ref' hj
  · exact ⟨hlookups, forgets_of_eq hsame⟩
  · exact ⟨hlookups, forgets_update hgone⟩

/-- After a shutdown every reference that it has reset holds nothing, and every other one is as it was or holds nothing. -/
theorem shutdown_run {acts : List (TeardownAction n)} (hs : OwnershipInv s) (h : s.NoLookups) (hacts : ∀ a ∈ acts, a.tearsDown = true)
    (hrun : Transition.run OwnershipState.teardownStep s acts = some s') :
    s'.NoLookups ∧ Forgets s s' ∧
      ∀ (t : Fin n) (c : ComponentId) (i : Nat), .reset t c i ∈ acts →
        ∀ ref : OwnedRef, (s'.references c)[i]? = some ref → ref.held = [] := by
  induction acts generalizing s with
  | nil =>
    obtain rfl := Option.some.inj hrun
    exact ⟨h, forgets_of_eq rfl, fun _ _ _ hmem => absurd hmem List.not_mem_nil⟩
  | cons a acts ih =>
    obtain ⟨s₁, h1, h2⟩ := Transition.run_cons_some hrun
    obtain ⟨hs₁, hforget⟩ := shutdown_step hs h (hacts a List.mem_cons_self) h1
    obtain ⟨hs', hforget', hreset⟩ := ih (inv_step hs h1) hs₁ (fun b hb => hacts b (List.mem_cons_of_mem a hb)) h2
    refine ⟨hs', fun c i ref hi => (hforget' c i ref hi).elim Or.inl (hforget c i ref), ?_⟩
    intro t c i hmem ref hi
    rcases List.mem_cons.mp hmem with rfl | hmem
    · refine (hforget' c i ref hi).elim id fun hi₁ => ?_
      obtain ⟨old, hold, -, rfl⟩ := resetReference_cases h1
      have hset : ((s.references c).set i old.reset.1)[i]? = some ref := references_setReference_self s c i old.reset.1 ▸ hi₁
      rw [List.getElem?_set_self (List.getElem?_eq_some_iff.mp hold).1] at hset
      exact Option.some.inj hset ▸ held_reset old
    · exact hreset t c i hmem ref hi

/-! ## Nothing is left -/

/-- Where everything has been reset, the references that are left hold nothing. -/
theorem not_holds_of_resetsAll {acts : List (TeardownAction n)} (hs : OwnershipInv s) (h : s.NoLookups)
    (hacts : ∀ a ∈ acts, a.tearsDown = true) (hrun : Transition.run OwnershipState.teardownStep s acts = some s')
    (hreset : s.ResetsAll acts s') (o c : ComponentId) : ¬s'.Holds o c := by
  intro hheld
  obtain ⟨-, hforget, hforgotten⟩ := shutdown_run hs h hacts hrun
  have hs' : OwnershipInv s' := inv_of_run hs hrun
  obtain ⟨ref, hmem, hc⟩ := List.mem_flatMap.mp hheld
  obtain ⟨i, hi⟩ := List.mem_iff_getElem?.mp hmem
  have hne : ref.held ≠ [] := List.ne_nil_of_mem hc
  have hbefore : (s.references o)[i]? = some ref := (hforget o i ref hi).resolve_left hne
  have hleft : s'.destroyed o = false := (hs'.owners o (List.ne_nil_of_mem hmem)).2
  obtain ⟨t, ht⟩ := hreset o (hs.owner_mem hbefore) hleft i (List.getElem?_eq_some_iff.mp hbefore).1
  exact hne (hforgotten t o i ht ref hi)

/-! ## How far it is to an end -/

/-- What a shutdown has still to do about the component: it is published, or user code and its references hold pointers. -/
def costOf (s : OwnershipState n) (c : ComponentId) : Nat :=
  (if (s.component c).published then 1 else 0) + 2 * s.users c + 3 * (s.heldBy c).length

/-- What a shutdown has still to do. -/
def remaining (s : OwnershipState n) : Nat := ∑ c ∈ s.components.toFinset, costOf s c + ∑ t, (s.stack t).length

/-- Two sums that differ in one place. -/
theorem sum_add_comm {ι : Type*} [DecidableEq ι] {f g : ι → Nat} {u : Finset ι} {a : ι} (ha : a ∈ u) (hrest : ∀ x, x ≠ a → g x = f x) :
    ∑ x ∈ u, g x + f a = ∑ x ∈ u, f x + g a := by
  have herase : ∑ x ∈ u.erase a, g x = ∑ x ∈ u.erase a, f x := Finset.sum_congr rfl fun x hx => hrest x (Finset.ne_of_mem_erase hx)
  rw [← Finset.add_sum_erase u g ha, ← Finset.add_sum_erase u f ha, herase]
  omega

/-- A step that is about one component and one thread. -/
theorem remaining_add (s' : OwnershipState n) {c : ComponentId} (t : Fin n) (hc : c ∈ s.components)
    (hcomponents : s'.components = s.components)
    (hcost : ∀ x, x ≠ c → costOf s' x = costOf s x) (hstack : ∀ u, u ≠ t → (s'.stack u).length = (s.stack u).length) :
    remaining s' + (costOf s c + (s.stack t).length) = remaining s + (costOf s' c + (s'.stack t).length) := by
  have hcosts := sum_add_comm (f := costOf s) (g := costOf s') (List.mem_toFinset.mpr hc) hcost
  have hstacks := sum_add_comm (f := fun u => (s.stack u).length) (g := fun u => (s'.stack u).length) (Finset.mem_univ t) hstack
  simp only [remaining, hcomponents]
  omega

theorem component_destruct_of_ne (t : Fin n) {c x : ComponentId} (h : x ≠ c) : (s.destruct t c).component x = s.component x := by
  change (s.world.destruct c).component x = s.world.component x
  unfold World.destruct
  split
  · exact World.component_update_of_ne _ _ h
  · rfl

theorem published_destruct_self (t : Fin n) (c : ComponentId) : ((s.destruct t c).component c).published = false := by
  change ((s.world.destruct c).component c).published = false
  unfold World.destruct
  split
  · rw [World.unpublishDependencies, World.component_update_self]
  · rename_i hpublished
    exact Bool.eq_false_iff.mpr hpublished

/-! ## Each step of the way -/

/-- A pointer is dropped: its frame goes, and those of a component that is destroyed come for the pointers of its references. -/
theorem advance_progress (hs : OwnershipInv s) {t : Fin n} {c : ComponentId} {rest : List StackFrame} (h : s.stack t = .drop c :: rest) :
    ∃ s', s.teardownStep (.ownership (.advance t)) = some s' ∧ remaining s' < remaining s := by
  refine ⟨(s.setStack t rest).dropped t c, ?_, ?_⟩
  · simp only [OwnershipState.teardownStep, OwnershipState.step, OwnershipState.advance, h]
  have hc : c ∈ s.components :=
    hs.constructed c ((alive_setStack_iff h).mpr (Or.inl (List.mem_singleton_self c)))
  unfold OwnershipState.dropped
  split
  · have hadd := remaining_add (s.setStack t rest) t hc rfl (fun _ _ => rfl) fun u hu => by rw [stack_setStack_of_ne s rest hu]
    rw [stack_setStack_self, h, List.length_cons] at hadd
    change _ = _ + (costOf s c + _) at hadd
    omega
  · have hstack : ((s.setStack t rest).destruct t c).stack t = (s.heldBy c).map StackFrame.drop ++ rest := by
      rw [OwnershipState.destruct, OwnershipState.push, stack_setStack_self]
      exact congrArg _ (stack_setStack_self s t rest)
    have hadd := @remaining_add n s ((s.setStack t rest).destruct t c) c t hc rfl
      (fun x hx => by rw [costOf, component_destruct_of_ne t hx, heldBy_destruct_of_ne _ t hx]; rfl)
      (fun u hu => by
        rw [OwnershipState.destruct, OwnershipState.push, stack_setStack_of_ne _ _ hu]
        exact congrArg List.length (stack_setStack_of_ne s rest hu))
    rw [hstack, h, costOf, costOf, published_destruct_self, heldBy_destruct_self] at hadd
    change _ = _ + (_ + 2 * s.users c + _ + _) at hadd
    simp only [Bool.false_eq_true, if_false, List.length_nil, List.length_append, List.length_map, List.length_cons] at hadd
    omega

theorem unpublish_progress (t : Fin n) {c : ComponentId} (hc : c ∈ s.components) (h : (s.component c).published = true) :
    ∃ s', s.teardownStep (.ownership (.world (.unpublishDependencies c))) = some s' ∧ remaining s' < remaining s := by
  refine ⟨s.setWorld (s.world.unpublishDependencies c), rfl, ?_⟩
  have hcomponent : ∀ x, x ≠ c → (s.setWorld (s.world.unpublishDependencies c)).component x = s.component x := fun x hx => by
    change (s.world.unpublishDependencies c).component x = s.world.component x
    rw [World.unpublishDependencies, World.component_update_of_ne _ _ hx]
    rfl
  have hpublished : ((s.setWorld (s.world.unpublishDependencies c)).component c).published = false := by
    change ((s.world.unpublishDependencies c).component c).published = false
    rw [World.unpublishDependencies, World.component_update_self]
  have hadd := remaining_add (s.setWorld (s.world.unpublishDependencies c)) t hc rfl
    (fun x hx => by rw [costOf, hcomponent x hx]; rfl) (fun _ _ => rfl)
  rw [costOf, costOf, hpublished, h] at hadd
  change _ = _ + (_ + 2 * s.users c + 3 * (s.heldBy c).length + (s.stack t).length) at hadd
  simp only [if_true, Bool.false_eq_true, if_false] at hadd
  omega

/-- User code lets one pointer go. -/
theorem release_progress (t : Fin n) {c : ComponentId} (hc : c ∈ s.components) (h : s.users c ≠ 0) :
    ∃ s', s.teardownStep (.ownership (.release t c)) = some s' ∧ remaining s' + 1 = remaining s := by
  let released : OwnershipState n := OwnershipState.push { s with users := Function.update s.users c (s.users c - 1) } t [.drop c]
  refine ⟨released, if_neg h, ?_⟩
  have hadd := remaining_add released t hc rfl
    (fun x hx => by
      change _ + 2 * Function.update s.users c (s.users c - 1) x + _ = _
      rw [Function.update_of_ne hx]
      rfl)
    (fun u hu => congrArg List.length (stack_setStack_of_ne { s with users := _ } _ hu))
  have hstack : (released.stack t).length = (s.stack t).length + 1 := congrArg List.length (stack_setStack_self { s with users := _ } t _)
  rw [hstack, costOf, costOf] at hadd
  change _ = _ + ((if (s.component c).published = true then 1 else 0) + 2 * Function.update s.users c (s.users c - 1) c +
    3 * (s.heldBy c).length + _) at hadd
  rw [Function.update_self] at hadd
  omega

/-- Unless nobody but references holds anything, a shutdown gets on without resets. -/
theorem exists_progress (t : Fin n) (hs : OwnershipInv s) (h : s.NoLookups) :
    s.Released ∨ ∃ a s', (a.tearsDown = true ∧ a.isReset = false) ∧ s.teardownStep a = some s' ∧ remaining s' < remaining s := by
  by_cases hidle : ∀ u, s.stack u = []
  · by_cases hunpublished : ∀ c ∈ s.components, (s.component c).published = false
    · by_cases hunused : ∀ c ∈ s.components, s.users c = 0
      · exact Or.inl ⟨hunpublished, hunused, hidle⟩
      · push Not at hunused
        obtain ⟨c, hc, husers⟩ := hunused
        obtain ⟨s', h1, hcost⟩ := release_progress t hc husers
        exact Or.inr ⟨_, s', ⟨rfl, rfl⟩, h1, by omega⟩
    · push Not at hunpublished
      obtain ⟨c, hc, hpublished⟩ := hunpublished
      obtain ⟨s', h1, hlt⟩ := unpublish_progress t hc (Bool.eq_true_of_not_eq_false hpublished)
      exact Or.inr ⟨_, s', ⟨rfl, rfl⟩, h1, hlt⟩
  · push Not at hidle
    obtain ⟨u, hu⟩ := hidle
    obtain ⟨frame, rest, hstack⟩ := List.exists_cons_of_ne_nil hu
    obtain ⟨c, rfl⟩ := h u frame (hstack ▸ List.mem_cons_self)
    obtain ⟨s', h1, hlt⟩ := advance_progress hs hstack
    exact Or.inr ⟨_, s', ⟨rfl, rfl⟩, h1, hlt⟩

/-- Without resets it gets to where nobody but references holds anything. -/
theorem exists_released (t : Fin n) (hs : OwnershipInv s) (h : s.NoLookups) :
    ∃ rest s', (∀ a ∈ rest, a.tearsDown = true ∧ a.isReset = false) ∧ Transition.run OwnershipState.teardownStep s rest = some s' ∧
      s'.Released := by
  induction hk : remaining s using Nat.strong_induction_on generalizing s with
  | _ k ih =>
    rcases exists_progress t hs h with hrel | ⟨a, s₁, ha, h1, hlt⟩
    · exact ⟨[], s, fun a ha => absurd ha List.not_mem_nil, rfl, hrel⟩
    · obtain ⟨rest, s', hrest, hrun, hrel⟩ := ih _ (hk ▸ hlt) (inv_step hs h1) (shutdown_step hs h ha.1 h1).1 rfl
      refine ⟨a :: rest, s', fun b hb => (List.mem_cons.mp hb).elim (fun hba => hba ▸ ha) (hrest b), ?_, hrel⟩
      rw [Transition.run_cons, h1, Option.bind_some, hrun]

/-! ## Without resets -/

/-- The components on cycles. -/
def OnCycle (s : OwnershipState n) (c : ComponentId) : Prop := Relation.TransGen s.Holds c c

/-- What a component on a cycle holds it still holds. -/
def KeepsCycles (s s' : OwnershipState n) : Prop := ∀ o c, OnCycle s o → s.Holds o c → s'.Holds o c

/-- A component on a cycle is held by one. -/
theorem exists_holder {c : ComponentId} (h : OnCycle s c) : ∃ o, OnCycle s o ∧ s.Holds o c := by
  obtain ⟨o, hpath, hheld⟩ := Relation.TransGen.tail'_iff.mp h
  exact ⟨o, Relation.TransGen.head' hheld hpath, hheld⟩

/-- So no step takes its references, unless it resets them. -/
theorem keepsCycles_step {s₁ : OwnershipState n} (hs₁ : OwnershipInv s₁) (h : s₁.NoLookups) (hkeeps : KeepsCycles s s₁)
    {a : TeardownAction n} (ha : a.tearsDown = true ∧ a.isReset = false) (h1 : s₁.teardownStep a = some s') : KeepsCycles s s' := by
  intro o c ho hheld
  have hheld₁ : s₁.Holds o c := hkeeps o c ho hheld
  obtain ⟨-, ⟨t, p, i, ref, rfl, -, -⟩ | hsame | ⟨d, hnobody, hgone⟩⟩ := shutdown_cases hs₁ h ha.1 h1
  · cases ha.2
  · rwa [OwnershipState.Holds, OwnershipState.heldBy, hsame]
  · obtain ⟨p, hp, hpo⟩ := exists_holder ho
    have hne : o ≠ d := fun hod => hnobody p (hod ▸ hkeeps p o hp hpo)
    rwa [OwnershipState.Holds, OwnershipState.heldBy, hgone, Function.update_of_ne hne]

theorem keepsCycles_run {acts : List (TeardownAction n)} {s₁ : OwnershipState n} (hs₁ : OwnershipInv s₁) (h : s₁.NoLookups)
    (hkeeps : KeepsCycles s s₁) (hacts : ∀ a ∈ acts, a.tearsDown = true ∧ a.isReset = false)
    (hrun : Transition.run OwnershipState.teardownStep s₁ acts = some s') : KeepsCycles s s' := by
  induction acts generalizing s₁ with
  | nil => exact Option.some.inj hrun ▸ hkeeps
  | cons a acts ih =>
    obtain ⟨s₂, h1, h2⟩ := Transition.run_cons_some hrun
    have ha := hacts a List.mem_cons_self
    exact ih (inv_step hs₁ h1) (shutdown_step hs₁ h ha.1 h1).1 (keepsCycles_step hs₁ h hkeeps ha h1)
      (fun b hb => hacts b (List.mem_cons_of_mem a hb)) h2

/-- Where the components that are left make a cycle, they are left by every shutdown without resets. -/
theorem noCycle_of_allDestroyed {acts : List (TeardownAction n)} (hs : OwnershipInv s) (h : s.NoLookups)
    (hacts : ∀ a ∈ acts, a.tearsDown = true ∧ a.isReset = false) (hrun : Transition.run OwnershipState.teardownStep s acts = some s')
    (hall : s'.AllDestroyed) : NoCycle s.Holds := by
  intro c hc
  have hkeeps : KeepsCycles s s' := keepsCycles_run hs h (fun _ _ _ hheld => hheld) hacts hrun
  obtain ⟨d, hcd, -⟩ := Relation.TransGen.head'_iff.mp hc
  obtain ⟨ref, hmem, -⟩ := List.mem_flatMap.mp (hkeeps c d hc hcd)
  obtain ⟨hmem', hleft⟩ := (inv_of_run hs hrun).owners c (List.ne_nil_of_mem hmem)
  cases (hall c hmem').symm.trans hleft

/-- A shutdown adds nothing to what the references hold. -/
theorem holds_of_forgets (h : Forgets s s') (o c : ComponentId) (hheld : s'.Holds o c) : s.Holds o c := by
  obtain ⟨ref, hmem, hc⟩ := List.mem_flatMap.mp hheld
  obtain ⟨i, hi⟩ := List.mem_iff_getElem?.mp hmem
  exact mem_heldBy_of_held ((h o i ref hi).resolve_left (List.ne_nil_of_mem hc)) hc

end TeardownAux

namespace OwnershipState

open TeardownAux

variable {n : Nat} {s s' : OwnershipState n}

/-- A shutdown may start wherever no lookup is under way. Once it has unpublished everything and user code has let everything go, and each
reference of the components that are left has been reset in the course of it, all components have been destroyed. -/
theorem shutdown_destroys {acts shutdown : List (TeardownAction n)} (hrun : Transition.run teardownStep init acts = some s)
    (hlookups : s.NoLookups) (htears : ∀ a ∈ shutdown, a.tearsDown = true)
    (hshutdown : Transition.run teardownStep s shutdown = some s') (hreset : s.ResetsAll shutdown s') (hrel : s'.Released) :
    s'.AllDestroyed := by
  have hs : OwnershipInv s := inv_run hrun
  have hs' : OwnershipInv s' := inv_of_run hs hshutdown
  have hnone := not_holds_of_resetsAll hs hlookups htears hshutdown hreset
  exact (allDestroyed_iff hs' hrel).mpr (noCycle_of_empty hnone)

def mainThread : Fin 1 := ⟨0, Nat.one_pos⟩

/-- Components 0 and 1 publish queries 7 and 8, look up each other's and call them. -/
def eachOther : List (TeardownAction 1) :=
  [.construct 0 0 none, .construct 1 0 none, .world (.publishAsyncQuery 0 7 5 none), .world (.publishAsyncQuery 1 8 6 none),
    .lookupQuery .async 1 7, .lookupQuery .async 0 8, .lookup mainThread 1 0, .advance mainThread, .advance mainThread,
    .lookup mainThread 0 0, .advance mainThread, .advance mainThread].map .ownership

/-- Both are unpublished, have their reference reset, and are let go of. -/
def resetBoth : List (TeardownAction 1) :=
  [.ownership (.world (.unpublishDependencies 0)), .ownership (.world (.unpublishDependencies 1)), .reset mainThread 0 0,
    .ownership (.advance mainThread), .reset mainThread 1 0, .ownership (.advance mainThread), .ownership (.release mainThread 0),
    .ownership (.advance mainThread), .ownership (.release mainThread 1), .ownership (.advance mainThread)]

/-- In that run each component holds the other. -/
theorem eachOther_holds :
    ∃ s : OwnershipState 1, Transition.run teardownStep init eachOther = some s ∧ s.Holds 0 1 ∧ s.Holds 1 0 ∧ (∀ t, s.stack t = []) ∧
      s.components = [0, 1] ∧ (s.references 0).length = 1 ∧ (s.references 1).length = 1 :=
  ⟨_, rfl, List.mem_singleton_self 1, List.mem_singleton_self 0, by decide, rfl, rfl, rfl⟩

/-- A thread that does nothing is not in a lookup. -/
theorem noLookups_of_idle (h : ∀ t, s.stack t = []) : s.NoLookups := by
  intro t frame hframe
  rw [h t] at hframe
  exact absurd hframe List.not_mem_nil

theorem shutdown_destroys_eachOther :
    ∃ s s', Transition.run teardownStep init eachOther = some s ∧ s.Holds 0 1 ∧ s.Holds 1 0 ∧
      Transition.run teardownStep s resetBoth = some s' ∧ s'.components = [0, 1] ∧ s'.AllDestroyed := by
  obtain ⟨s, hs, hzero, hone, hidle, hcomponents, hlength, hlength'⟩ := eachOther_holds
  obtain ⟨s', hs', hleft, hrel⟩ :
      ∃ s', Transition.run teardownStep s resetBoth = some s' ∧ s'.components = [0, 1] ∧ s'.Released := by
    obtain rfl := Option.some.inj hs
    exact ⟨_, rfl, rfl, by decide, by decide, by decide⟩
  have hreset : s.ResetsAll resetBoth s' := by
    intro c hc _ i hi
    rw [hcomponents] at hc
    have hcases : c = 0 ∨ c = 1 := by simpa using hc
    obtain rfl : i = 0 := by
      rcases hcases with rfl | rfl
      · exact Nat.lt_one_iff.mp (hlength ▸ hi)
      · exact Nat.lt_one_iff.mp (hlength' ▸ hi)
    refine ⟨mainThread, ?_⟩
    rcases hcases with rfl | rfl <;> simp [resetBoth]
  exact ⟨s, s', hs, hzero, hone, hs', hleft, shutdown_destroys hs (noLookups_of_idle hidle) (by decide) hs' hreset hrel⟩

/-- Without resets there is a shutdown that leads to where all components have been destroyed exactly if the strong pointers that the
references hold make no cycle. -/
theorem exists_shutdown_without_reset_iff (t : Fin n) {acts : List (TeardownAction n)}
    (hrun : Transition.run teardownStep init acts = some s) (hlookups : s.NoLookups) :
    (∃ shutdown s', (∀ a ∈ shutdown, a.tearsDown = true ∧ a.isReset = false) ∧ Transition.run teardownStep s shutdown = some s' ∧
      s'.AllDestroyed) ↔ NoCycle s.Holds := by
  have hs : OwnershipInv s := inv_run hrun
  constructor
  · rintro ⟨shutdown, s', hshutdown, hrun', hall⟩
    exact noCycle_of_allDestroyed hs hlookups hshutdown hrun' hall
  · intro hn
    obtain ⟨shutdown, s', hshutdown, hrun', hrel⟩ := exists_released t hs hlookups
    obtain ⟨-, hforget, -⟩ := shutdown_run hs hlookups (fun a ha => (hshutdown a ha).1) hrun'
    have hn' : NoCycle s'.Holds := hn.mono (holds_of_forgets hforget)
    exact ⟨shutdown, s', hshutdown, hrun', (allDestroyed_iff (inv_of_run hs hrun') hrel).mpr hn'⟩

/-- In `eachOther`, no shutdown without resets destroys both. -/
theorem no_shutdown_without_reset_eachOther :
    ∃ s : OwnershipState 1, Transition.run teardownStep init eachOther = some s ∧
      ¬∃ shutdown s', (∀ a ∈ shutdown, a.tearsDown = true ∧ a.isReset = false) ∧ Transition.run teardownStep s shutdown = some s' ∧
        s'.AllDestroyed := by
  obtain ⟨s, hs, hzero, hone, hidle, -⟩ := eachOther_holds
  refine ⟨s, hs, fun hend => ?_⟩
  exact (exists_shutdown_without_reset_iff mainThread hs (noLookups_of_idle hidle)).mp hend 0 ((Relation.TransGen.single hzero).tail hone)

end OwnershipState

end Minicomps
