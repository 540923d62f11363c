import Minicomps.PublishChecks
import Minicomps.Theorems.HeldProxies

/-!
# What the checks after publishing are for

What `publish_dependencies` has got past has a handler for each of its queries from then on, whatever is done to the interface and to its
component later. So a lookup does not abort on it, unless what has implemented a query is gone. Where nothing aborts, lookups do what
they do in `InterfaceRef`.
-/

namespace Minicomps

open Transition

namespace CheckedInterfaces

/-- The world and the reference. -/
def refState (s : CheckedInterfaces) : RefState InterfaceRef := ⟨s.world, s.ref⟩

/-- The world knows which interfaces have handlers for all their queries. -/
def Synced (s : CheckedInterfaces) : Prop := ∀ impl, s.world.implemented impl = s.implemented impl

/-- Whoever publishes an interface has it checked. It has a handler for each of its queries from then on. -/
structure Checked (id : MessageId) (acts : List CheckedAction) (s : CheckedInterfaces) : Prop where
  listed : ∀ c impl, (s.world.component c).interfaces id = some impl → impl ∈ (s.world.component c).postPublishChecks
  implemented : ∀ c impl, (s.world.component c).interfaces id = some impl → s.implemented impl = true ∨ Unchecked acts c id impl

end CheckedInterfaces

namespace PublishChecksAux

open CheckedInterfaces HeldProxiesAux World

variable {id : MessageId} {owner : ComponentId} {life : LifetimeWeakPtr} {lost : ComponentId → List ComponentId} {acts : List CheckedAction}
  {c : ComponentId} {impl : InterfaceId} {s s' : CheckedInterfaces}

theorem unchecked_snoc {a : CheckedAction} (h : Unchecked acts c id impl) (ha : a ≠ .world (.publishDependencies c)) :
    Unchecked (acts ++ [a]) c id impl := by
  obtain ⟨pre, post, rfl, hpost⟩ := h
  refine ⟨pre, post ++ [a], by rw [List.append_assoc, List.cons_append], fun hmem => ?_⟩
  rcases List.mem_append.mp hmem with hold | hlast
  · exact hpost hold
  · exact ha (List.mem_singleton.mp hlast).symm

/-! ## Queries -/

theorem implemented_of_copies {w : World} (h : s.copies w impl = true) : s.implemented impl = true := by
  refine List.all_eq_true.mpr fun q hq => ?_
  have hcopies := List.all_eq_true.mp h q hq
  unfold InterfaceQuery.copies at hcopies
  unfold InterfaceQuery.implemented
  split at hcopies
  · cases hcopies
  · rename_i h hhandling
    rw [hhandling, Option.isSome_some]

theorem implemented_publish (c : ComponentId) (executorOverride : Option ExecutorId) (q : InterfaceQuery) :
    (q.publish c executorOverride).implemented = true := by
  unfold InterfaceQuery.publish
  split <;> rfl

theorem all_implemented_modify {queries : List InterfaceQuery} (h : queries.all InterfaceQuery.implemented = true) (place : Nat)
    (executorOverride : Option ExecutorId) :
    (queries.modify place (InterfaceQuery.publish c executorOverride)).all InterfaceQuery.implemented = true := by
  refine List.all_eq_true.mpr fun q hq => ?_
  obtain ⟨i, hi⟩ := List.mem_iff_getElem?.mp hq
  rw [List.getElem?_modify] at hi
  obtain ⟨old, hold, rfl⟩ := Option.map_eq_some_iff.mp hi
  split
  · exact implemented_publish c executorOverride old
  · exact List.all_eq_true.mp h old (List.mem_of_getElem? hold)

theorem implemented_implement (place : Nat) (c : ComponentId) (executorOverride : Option ExecutorId) (impl impl' : InterfaceId) :
    (s.implement impl place c executorOverride).implemented impl' =
      if impl' = impl then ((s.queries impl).modify place (InterfaceQuery.publish c executorOverride)).all InterfaceQuery.implemented
      else s.implemented impl' := by
  simp only [CheckedInterfaces.implemented, implement]
  by_cases heq : impl' = impl
  · subst heq
    rw [Function.update_self, if_pos rfl]
  · rw [Function.update_of_ne heq, if_neg heq]

/-- Handlers are put in, and never taken out. -/
theorem implemented_mono (place : Nat) (c : ComponentId) (executorOverride : Option ExecutorId) (impl : InterfaceId) {impl' : InterfaceId}
    (h : s.implemented impl' = true) : (s.implement impl place c executorOverride).implemented impl' = true := by
  rw [implemented_implement]
  split
  · rename_i heq
    subst heq
    exact all_implemented_modify h place executorOverride
  · exact h

/-! ## Lookups -/

/-- A lookup does nothing to the queries, and to the world what fetching the receiver does, if that. -/
theorem lookup_world (h : s.lookup id owner life lost = some s') :
    s'.queries = s.queries ∧ (s'.world = s.world ∨ s'.world = (s.world.fetchReceiver id lost s.ref.receiver).world) := by
  unfold lookup at h
  split at h
  · exact Option.some.inj h ▸ ⟨rfl, Or.inl rfl⟩
  · simp only [refetch] at h
    split at h
    · exact Option.some.inj h ▸ ⟨rfl, Or.inr rfl⟩
    · split at h
      · exact Option.some.inj h ▸ ⟨rfl, Or.inr rfl⟩
      · obtain ⟨proxy, -, hs'⟩ := Option.bind_eq_some_iff.mp h
        exact Option.some.inj hs' ▸ ⟨rfl, Or.inr rfl⟩

/-- A lookup that gets through is one of `InterfaceRef`. -/
theorem lookup_refines (hsynced : s.Synced) (h : s.lookup id owner life lost = some s') :
    InterfaceRef.step id owner life s.refState (.lookup lost) = some s'.refState := by
  have hf : s.world.Fetching id (s.world.fetchReceiver id lost s.ref.receiver) := fetching lost s.world s.ref.receiver
  have hdrops := hf.drops
  simp only [RefState.step, refState, InterfaceRef.lookup]
  unfold lookup at h
  split at h
  · rename_i hvalid
    rw [if_pos hvalid]
    exact Option.some.inj h ▸ rfl
  · rename_i hvalid
    rw [if_neg hvalid]
    simp only [refetch] at h
    simp only [InterfaceRef.refetch]
    cases hfound : (s.world.fetchReceiver id lost s.ref.receiver).found with
    | none =>
      simp only [hfound] at h ⊢
      exact Option.some.inj h ▸ rfl
    | some c =>
      simp only [hfound] at h ⊢
      cases himpl : ((s.world.fetchReceiver id lost s.ref.receiver).world.component c).lookupInterface id with
      | none =>
        simp only [himpl] at h ⊢
        exact Option.some.inj h ▸ rfl
      | some impl =>
        simp only [himpl] at h ⊢
        obtain ⟨proxy, hproxy, hs'⟩ := Option.bind_eq_some_iff.mp h
        obtain rfl := Option.some.inj hs'
        unfold copyInterface at hproxy
        split at hproxy
        · rename_i hcopies
          have himplemented : (s.world.fetchReceiver id lost s.ref.receiver).world.implemented impl = true := by
            rw [hdrops.implemented]
            exact (hsynced impl).trans (implemented_of_copies hcopies)
          simp only [InterfaceRef.copyInterface, himplemented, if_true]
          exact Option.some.inj hproxy ▸ rfl
        · cases hproxy

/-- Why a lookup aborts. -/
theorem lookup_aborts (h : s.lookup id owner life lost = none) : ∃ c impl,
    (s.world.fetchReceiver id lost s.ref.receiver).found = some c ∧ s.world.sole Component.lookupInterface id = some (c, impl) ∧
      s.copies (s.world.fetchReceiver id lost s.ref.receiver).world impl = false := by
  have hf : s.world.Fetching id (s.world.fetchReceiver id lost s.ref.receiver) := fetching lost s.world s.ref.receiver
  unfold lookup at h
  split at h
  · cases h
  simp only [refetch] at h
  split at h
  · cases h
  · rename_i c hfound
    obtain ⟨hreceivers, halive⟩ := hf.before c hfound
    split at h
    · cases h
    · rename_i impl himpl
      rw [InterfaceRefAux.asks_lookupInterface _ _ (hf.drops.sameAt id c)] at himpl
      refine ⟨c, impl, hfound, ?_, ?_⟩
      · rw [sole_of_receivers hreceivers halive]
        exact congrArg (Option.map _) himpl
      · by_contra hcopies
        rw [Bool.not_eq_false] at hcopies
        simp [copyInterface, hcopies] at h

/-- A query that cannot be copied. -/
theorem exists_of_copies {w : World} (h : s.copies w impl = false) : ∃ q ∈ s.queries impl, q.handling = none ∨
    ∃ handling, q.handling = some handling ∧ (w.alive handling.handlingComponent = false ∨
      q.kind = .async ∧ ∃ x, handling.executorOverride = some x ∧ s.destroyed x = true) := by
  obtain ⟨q, hq, hcopies⟩ := List.all_eq_false.mp h
  refine ⟨q, hq, ?_⟩
  unfold InterfaceQuery.copies at hcopies
  split at hcopies
  · rename_i hnone
    exact Or.inl hnone
  · rename_i handling hsome
    refine Or.inr ⟨handling, hsome, ?_⟩
    split at hcopies
    · rename_i hkind
      simp only [Bool.and_eq_true, not_and, Bool.not_eq_true] at hcopies
      refine (Bool.eq_false_or_eq_true (w.alive handling.handlingComponent)).symm.imp_right fun halive => ⟨hkind, ?_⟩
      have hgone := hcopies halive
      cases hoverride : handling.executorOverride with
      | none =>
        rw [hoverride] at hgone
        cases hgone
      | some x =>
        rw [hoverride] at hgone
        exact ⟨x, rfl, by simpa using hgone⟩
    · exact Or.inl (Bool.eq_false_iff.mpr hcopies)
    · exact Or.inl (Bool.eq_false_iff.mpr hcopies)

/-! ## The checks stay -/

theorem checks_update (w : World) (c d : ComponentId) {f : Component → Component}
    (hf : (f (w.component c)).postPublishChecks = (w.component c).postPublishChecks) :
    ((w.update c f).component d).postPublishChecks = (w.component d).postPublishChecks := by
  by_cases hd : d = c
  · subst hd
    rw [component_update_self, hf]
  · rw [component_update_of_ne _ _ hd]

/-- The end of a component changes nothing of it but whether it is published. -/
theorem checks_destruct (w : World) (c d : ComponentId) :
    ((w.destruct c).component d).postPublishChecks = (w.component d).postPublishChecks := by
  unfold destruct
  split
  · exact checks_update (w.disassociateEverything c) c d rfl
  · rfl

theorem checks_release (w : World) (c d : ComponentId) :
    ((w.release c).component d).postPublishChecks = (w.component d).postPublishChecks := by
  unfold release
  split
  · rfl
  · unfold dropped
    split
    · rfl
    · exact checks_destruct _ c d

theorem checks_foldl_release (lost : List ComponentId) (d : ComponentId) :
    ∀ w : World, ((lost.foldl release w).component d).postPublishChecks = (w.component d).postPublishChecks := by
  induction lost with
  | nil => exact fun _ => rfl
  | cons c lost ih => exact fun w => (ih _).trans (checks_release w c d)

theorem checks_fetchReceiver (lost : ComponentId → List ComponentId) (w : World) (receiver : Option ComponentId) (d : ComponentId) :
    ((w.fetchReceiver id lost receiver).world.component d).postPublishChecks = (w.component d).postPublishChecks := by
  have hunpin : ∀ (w : World) (c : ComponentId), ((w.unpin lost c).component d).postPublishChecks = (w.component d).postPublishChecks := by
    intro w c
    simp only [unpin]
    split
    · rfl
    · rw [checks_foldl_release, checks_destruct]
  have hpin : ∀ (w : World) (new : Option ComponentId), ((w.pinSome new).component d) = w.component d := by
    intro w new
    cases new <;> rfl
  have hrepin : ∀ (w : World) (old new : Option ComponentId),
      ((w.repin lost old new).component d).postPublishChecks = (w.component d).postPublishChecks := by
    intro w old new
    cases old with
    | none => exact congrArg _ (hpin w new)
    | some c => exact (hunpin _ c).trans (congrArg _ (hpin w new))
  simp only [fetchReceiver]
  split
  · exact hrepin _ _ _
  · rfl

/-- What `publish` leaves of the checks depends on what it is to change. -/
theorem checks_publish {w w' : World} {c : ComponentId} {id' : MessageId} {f : Component → Component} (h : w.publish c id' f = some w')
    (hf : ∀ comp, ∃ added, (f comp).postPublishChecks = comp.postPublishChecks ++ added) (d : ComponentId) :
    (w.component d).postPublishChecks ⊆ (w'.component d).postPublishChecks := by
  unfold publish at h
  split at h
  swap
  · cases h
  obtain rfl := Option.some.inj h
  by_cases hd : d = c
  · subst hd
    obtain ⟨added, hadded⟩ := hf (w.component d)
    rw [component_update_self, hadded]
    exact List.subset_append_left ..
  · rw [component_update_of_ne _ _ hd]
    exact List.Subset.refl _

/-- Checks are added, and never taken out. -/
theorem step_checks {w w' : World} {op : WorldOp} (h : w.step op = some w') (d : ComponentId) :
    (w.component d).postPublishChecks ⊆ (w'.component d).postPublishChecks := by
  cases op with
  | disassociate id' c =>
    obtain ⟨b, -, rfl⟩ := Option.map_eq_some_iff.mp h
    exact List.Subset.refl _
  | associate | invalidate | brokerLookup | implement | disassociateEverything =>
    obtain rfl := Option.some.inj h
    exact List.Subset.refl _
  | publishSyncQuery | publishAsyncQuery | subscribeEvent =>
    exact checks_publish h (fun _ => ⟨[], (List.append_nil _).symm⟩) d
  | publishInterface c id' impl => exact checks_publish h (fun _ => ⟨[impl], rfl⟩) d
  | prependAsyncQueryFilter c id' handler =>
    simp only [World.step, prependAsyncQueryFilter] at h
    split at h
    · cases h
    · obtain rfl := Option.some.inj h
      change _ ⊆ ((w.update c fun comp =>
        { comp with asyncHandlers := Function.update comp.asyncHandlers id' (some handler) }).component d).postPublishChecks
      rw [checks_update w c d rfl]
      exact List.Subset.refl _
  | publishDependencies c =>
    simp only [World.step, publishDependencies] at h
    split at h
    · obtain rfl := Option.some.inj h
      rw [checks_update w c d rfl]
      exact List.Subset.refl _
    · cases h
  | unpublishDependencies c =>
    obtain rfl := Option.some.inj h
    rw [unpublishDependencies, checks_update (w.disassociateEverything c) c d rfl]
    exact List.Subset.refl _
  | acquire c =>
    obtain rfl := Option.some.inj h
    split <;> exact List.Subset.refl _
  | release c =>
    obtain rfl := Option.some.inj h
    rw [checks_release]
    exact List.Subset.refl _

/-- An interface that has just been published is checked at the end of `publish_dependencies`. -/
theorem listed_publishInterface {w w' : World} (h : w.step (.publishInterface c id impl) = some w') :
    impl ∈ (w'.component c).postPublishChecks := by
  simp only [World.step, publishInterface, publish] at h
  split at h
  · obtain rfl := Option.some.inj h
    rw [component_update_self]
    exact List.mem_append_right _ (List.mem_singleton_self impl)
  · cases h

/-! ## Runs -/

/-- A step that is taken is one of `InterfaceRef`, or does nothing there. -/
theorem step_refines {a : CheckedAction} (h : s.Synced) (hs : step id owner life s a = some s') :
    s'.Synced ∧ (s'.refState = s.refState ∨ ∃ b, InterfaceRef.step id owner life s.refState b = some s'.refState) := by
  cases a with
  | world op =>
    rw [CheckedInterfaces.step] at hs
    split at hs
    · rename_i hpasses
      obtain ⟨w, hw, rfl⟩ := Option.map_eq_some_iff.mp hs
      have hop : ∀ impl, op ≠ .implement impl := by
        rintro impl rfl
        cases hpasses
      refine ⟨fun impl => (congrFun (step_implemented_eq hw hop) impl).trans (h impl), Or.inr ⟨.world op, ?_⟩⟩
      exact Option.map_eq_some_iff.mpr ⟨w, hw, rfl⟩
    · cases hs
  | implement impl place c executorOverride =>
    rw [CheckedInterfaces.step] at hs
    split at hs
    swap
    · cases hs
    obtain rfl := Option.some.inj hs
    have hworld : ∀ impl', (s.implement impl place c executorOverride).world.implemented impl' =
        (s.implement impl place c executorOverride).implemented impl' := by
      intro impl'
      rw [implemented_implement]
      simp only [implement]
      by_cases heq : impl' = impl
      · subst heq
        rw [Function.update_self, if_pos rfl]
      · rw [Function.update_of_ne heq, if_neg heq]
        exact h impl'
    refine ⟨hworld, ?_⟩
    cases hall : ((s.queries impl).modify place (InterfaceQuery.publish c executorOverride)).all InterfaceQuery.implemented with
    | true =>
      refine Or.inr ⟨.world (.implement impl), ?_⟩
      simp only [RefState.step, World.step, refState, implement, hall, Option.map_some]
    | false =>
      -- it had no handlers for all of its queries before
      have hbefore : s.world.implemented impl = false := by
        rw [h impl]
        by_contra hdone
        rw [Bool.not_eq_false] at hdone
        have hstill := all_implemented_modify (c := c) hdone place executorOverride
        rw [hall] at hstill
        cases hstill
      refine Or.inl ?_
      simp only [refState, implement, hall, ← hbefore, Function.update_eq_self]
  | dropExecutor x =>
    obtain rfl := Option.some.inj hs
    exact ⟨h, Or.inl rfl⟩
  | lookup lost =>
    have hrefines := lookup_refines h hs
    refine ⟨fun impl => ?_, Or.inr ⟨_, hrefines⟩⟩
    obtain ⟨hqueries, hworld⟩ := lookup_world hs
    have hf : s.world.Fetching id (s.world.fetchReceiver id lost s.ref.receiver) := fetching lost s.world s.ref.receiver
    have hsame : s'.world.implemented = s.world.implemented := by
      rcases hworld with hworld | hworld
      · rw [hworld]
      · rw [hworld, hf.drops.implemented]
    rw [hsame, h impl, CheckedInterfaces.implemented, CheckedInterfaces.implemented, hqueries]

theorem checked_world {w : World} {op : WorldOp} (h : Checked id acts s) (hpasses : s.passes op = true) (hw : s.world.step op = some w) :
    Checked id (acts ++ [.world op]) { s with world := w } where
  listed c impl himpl := by
    rcases step_interfaces hw id c with hold | ⟨impl', rfl, hnew⟩
    · exact step_checks hw c (h.listed c impl (hold ▸ himpl))
    · obtain rfl := Option.some.inj (hnew.symm.trans himpl)
      exact listed_publishInterface hw
  implemented c impl himpl := by
    rcases step_interfaces hw id c with hold | ⟨impl', rfl, hnew⟩
    · rw [hold] at himpl
      by_cases hop : op = .publishDependencies c
      · subst hop
        exact Or.inl (implemented_of_copies (List.all_eq_true.mp hpasses impl (h.listed c impl himpl)))
      · exact (h.implemented c impl himpl).imp_right fun hunchecked => unchecked_snoc hunchecked fun heq => hop (CheckedAction.world.inj heq)
    · obtain rfl := Option.some.inj (hnew.symm.trans himpl)
      exact Or.inr ⟨acts, [], rfl, List.not_mem_nil⟩

/-- A step that is none of the world leaves the interfaces and the checks as they are, and takes no handler out. -/
theorem checked_of_same {a : CheckedAction} (h : Checked id acts s) (ha : ∀ op, a ≠ .world op)
    (hcomponent : ∀ c, (s'.world.component c).interfaces id = (s.world.component c).interfaces id ∧
      (s'.world.component c).postPublishChecks = (s.world.component c).postPublishChecks)
    (himplemented : ∀ impl, s.implemented impl = true → s'.implemented impl = true) : Checked id (acts ++ [a]) s' where
  listed c impl himpl := by
    rw [(hcomponent c).1] at himpl
    rw [(hcomponent c).2]
    exact h.listed c impl himpl
  implemented c impl himpl := by
    rw [(hcomponent c).1] at himpl
    exact (h.implemented c impl himpl).imp (himplemented impl) fun hunchecked => unchecked_snoc hunchecked (ha _)

theorem checked_step {a : CheckedAction} (h : Checked id acts s) (hs : step id owner life s a = some s') :
    Checked id (acts ++ [a]) s' := by
  cases a with
  | world op =>
    rw [CheckedInterfaces.step] at hs
    split at hs
    · rename_i hpasses
      obtain ⟨w, hw, rfl⟩ := Option.map_eq_some_iff.mp hs
      exact checked_world h hpasses hw
    · cases hs
  | implement impl place c executorOverride =>
    rw [CheckedInterfaces.step] at hs
    split at hs
    · obtain rfl := Option.some.inj hs
      exact checked_of_same h (fun _ => nofun) (fun _ => ⟨rfl, rfl⟩) fun _ => implemented_mono place c executorOverride impl
    · cases hs
  | dropExecutor x =>
    obtain rfl := Option.some.inj hs
    exact checked_of_same h (fun _ => nofun) (fun _ => ⟨rfl, rfl⟩) fun _ himpl => himpl
  | lookup lost =>
    obtain ⟨hqueries, hworld⟩ := lookup_world hs
    refine checked_of_same h (fun _ => nofun) (fun c => ?_) fun impl himpl => ?_
    · rcases hworld with hworld | hworld
      · rw [hworld]
        exact ⟨rfl, rfl⟩
      · rw [hworld]
        exact ⟨((fetching lost s.world s.ref.receiver).drops.sameAt id c).interfaces, checks_fetchReceiver lost s.world s.ref.receiver c⟩
    · rwa [CheckedInterfaces.implemented, hqueries]

/-- What holds in every run. -/
structure Inv (id : MessageId) (owner : ComponentId) (life : LifetimeWeakPtr) (acts : List CheckedAction) (s : CheckedInterfaces) : Prop where
  synced : s.Synced
  sound : InterfaceRef.Sound id owner life s.refState
  checked : Checked id acts s

theorem inv_run {kinds : InterfaceId → List InterfaceQueryKind} {executor : ComponentId → ExecutorId} {others : ComponentId → Nat}
    (hrun : run (step id owner life) (init kinds (fun c => { defaultExecutor := executor c }) others) acts = some s) :
    Inv id owner life acts s := by
  have hinit : Inv id owner life [] (init kinds (fun c => { defaultExecutor := executor c }) others) :=
    ⟨fun _ => rfl, ⟨fun _ => rfl, nofun, nofun⟩, fun _ _ himpl => (by cases himpl), fun _ _ himpl => (by cases himpl)⟩
  refine run_invariant_history (fun acts s a s' h hs => ?_) hinit hrun
  obtain ⟨hsynced, hsame | ⟨b, hb⟩⟩ := step_refines h.synced hs
  · exact ⟨hsynced, hsame ▸ h.sound, checked_step h.checked hs⟩
  · exact ⟨hsynced, InterfaceRefAux.sound_step h.sound hb, checked_step h.checked hs⟩

end PublishChecksAux

open CheckedInterfaces PublishChecksAux

/-- A lookup aborts only on an interface one of whose queries has no handler, and that its component has published since it last got through
`publish_dependencies`; or has been implemented by another component that is gone by the time of the copy; or is to run on an executor that is
gone. So where components implement what they publish themselves, on executors that stay, what has been checked aborts no lookup. -/
theorem interfaceRef_aborts_unchecked (id : MessageId) (owner : ComponentId) (life : LifetimeWeakPtr)
    (kinds : InterfaceId → List InterfaceQueryKind) (executor : ComponentId → ExecutorId) (others : ComponentId → Nat)
    (acts : List CheckedAction) {s : CheckedInterfaces}
    (hrun : run (step id owner life) (init kinds (fun c => { defaultExecutor := executor c }) others) acts = some s)
    (lost : ComponentId → List ComponentId) (habort : step id owner life s (.lookup lost) = none) :
    ∃ c impl, s.world.sole Component.lookupInterface id = some (c, impl) ∧ ∃ q ∈ s.queries impl,
      q.handling = none ∧ Unchecked acts c id impl ∨
      ∃ handling, q.handling = some handling ∧
        (handling.handlingComponent ≠ c ∧
            (s.world.fetchReceiver id lost s.ref.receiver).world.alive handling.handlingComponent = false ∨
          q.kind = .async ∧ ∃ x, handling.executorOverride = some x ∧ s.destroyed x = true) := by
  have hinv := inv_run hrun
  obtain ⟨c, impl, hfound, hsole, hcopies⟩ := lookup_aborts habort
  obtain ⟨-, -, hinterface⟩ := World.sole_eq_some hsole
  obtain ⟨q, hq, hnone | ⟨handling, hhandling, hgone⟩⟩ := exists_of_copies hcopies
  · refine ⟨c, impl, hsole, q, hq, Or.inl ⟨hnone, ?_⟩⟩
    refine (hinv.checked.implemented c impl hinterface).resolve_left fun hdone => ?_
    have hsome : q.handling.isSome = true := List.all_eq_true.mp hdone q hq
    rw [hnone] at hsome
    cases hsome
  · refine ⟨c, impl, hsole, q, hq, Or.inr ⟨handling, hhandling, hgone.imp_left fun hdead => ⟨?_, hdead⟩⟩⟩
    -- the reference itself keeps the component whose interface is copied
    rintro rfl
    have hholds : s.world.Holds s.ref.receiver := hinv.sound.holds
    rw [((World.fetches lost hholds).after _ hfound).2] at hdead
    cases hdead

/-- Component 1 publishes interface 70 of one query before it has implemented it. -/
theorem interfaceRef_aborts_unchecked_early :
    ∃ s, run (step 7 0 ⟨0, 0⟩) (init (fun _ => [.sync]) (fun c => { defaultExecutor := c }) fun _ => 1)
        [.world (.publishInterface 1 7 70)] = some s ∧
      step 7 0 ⟨0, 0⟩ s (.lookup fun _ => []) = none ∧
      ∃ c impl, s.world.sole Component.lookupInterface 7 = some (c, impl) ∧ ∃ q ∈ s.queries impl,
        q.handling = none ∧ Unchecked [.world (.publishInterface 1 7 70)] c 7 impl ∨
        ∃ handling, q.handling = some handling ∧
          (handling.handlingComponent ≠ c ∧
              (s.world.fetchReceiver 7 (fun _ => []) s.ref.receiver).world.alive handling.handlingComponent = false ∨
            q.kind = .async ∧ ∃ x, handling.executorOverride = some x ∧ s.destroyed x = true) :=
  ⟨_, rfl, rfl, interfaceRef_aborts_unchecked 7 0 ⟨0, 0⟩ (fun _ => [.sync]) id (fun _ => 1) _ rfl (fun _ => []) rfl⟩

/-- What the asserts are about: component 2 implements the query of the interface that 1 publishes, the checks get through, and 2 goes. -/
example : ((run (step 7 0 ⟨0, 0⟩) (init (fun _ => [.sync]) (fun c => { defaultExecutor := c }) fun _ => 1)
    [.implement 70 0 2 none, .world (.publishInterface 1 7 70), .world (.publishDependencies 1), .world (.release 2)]).map
      fun s => (step 7 0 ⟨0, 0⟩ s (.lookup fun _ => [])).isSome) = some false := rfl

end Minicomps
