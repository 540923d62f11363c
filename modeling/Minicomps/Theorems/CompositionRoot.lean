import Minicomps.Theorems.Dependencies
import Minicomps.Theorems.HeldProxies
import Minicomps.CompositionRoot

/-!
# What the checks of an application tell

What a description says besides the targets does not change when the references resolve, so the second loop of a check sees what the first
one saw. While an application is being set up, what is listed under an interface is the one component that has published it.
-/

namespace Minicomps

open Transition

namespace CompositionRootAux

open World DependencyRef DependencyState DependenciesAux

/-! ## Descriptions without their targets -/

/-- What an info says besides the targets. -/
def bare (info : DependencyInfo) : DependencyInfo := { info with resolvedTargets := [] }

/-- References whose infos change in their targets only. -/
class NamedRef (ρ : Type) [DependencyRef ρ] where
  bare_forceResolve {owner : ComponentId} {w w' : World} {r r' : ρ} (h : forceResolve owner w r = some (r', w')) :
    bare (createDependencyInfo r') = bare (createDependencyInfo r)

instance : NamedRef QueryRef where
  bare_forceResolve h := by
    obtain ⟨rfl, -⟩ := Prod.mk.inj (Option.some.inj h)
    rfl

instance : NamedRef EventRef where
  bare_forceResolve h := by
    obtain ⟨rfl, -⟩ := Prod.mk.inj (Option.some.inj h)
    rfl

instance : NamedRef LifetimeInterfaceRef where
  bare_forceResolve h := by
    obtain ⟨⟨answer, ref, w⟩, -, heq⟩ := Option.map_eq_some_iff.mp h
    obtain ⟨rfl, -⟩ := Prod.mk.inj heq
    rfl

section Each

variable {ρ : Type} [DependencyRef ρ] [NamedRef ρ] {owner : ComponentId}

/-- The references of one kind, described or not. -/
theorem bare_describeEach (refs : List ρ) : ∀ {w w' : World} {infos : List DependencyInfo} {refs' : List ρ},
    describeEach owner w refs = some (infos, refs', w') →
      infos.map bare = refs.map (fun r => bare (createDependencyInfo r)) ∧
        refs'.map (fun r => bare (createDependencyInfo r)) = refs.map fun r => bare (createDependencyInfo r) := by
  induction refs with
  | nil =>
    intro w w' infos refs' h
    obtain ⟨rfl, heq⟩ := Prod.mk.inj (Option.some.inj h)
    obtain ⟨rfl, -⟩ := Prod.mk.inj heq
    exact ⟨rfl, rfl⟩
  | cons r refs ih =>
    intro w w' infos refs' h
    obtain ⟨⟨r₁, w₁⟩, hr, h⟩ := Option.bind_eq_some_iff.mp h
    obtain ⟨⟨infos₁, refs₁, w₂⟩, hrest, heq⟩ := Option.map_eq_some_iff.mp h
    obtain ⟨rfl, hrefs'⟩ := Prod.mk.inj heq
    obtain ⟨rfl, -⟩ := Prod.mk.inj hrefs'
    obtain ⟨hinfos, hrefs⟩ := ih hrest
    have hbare := NamedRef.bare_forceResolve hr
    exact ⟨by rw [List.map_cons, List.map_cons, hbare, hinfos], by rw [List.map_cons, List.map_cons, hbare, hrefs]⟩

theorem bare_resolveAt {refs refs' : List ρ} {w w' : World} {i : Nat} (h : resolveAt owner w refs i = some (refs', w')) :
    refs'.map (fun r => bare (createDependencyInfo r)) = refs.map fun r => bare (createDependencyInfo r) := by
  unfold resolveAt at h
  split at h
  · cases h
  · rename_i r hr
    obtain ⟨⟨r', w₁⟩, hresolve, heq⟩ := Option.map_eq_some_iff.mp h
    obtain ⟨rfl, -⟩ := Prod.mk.inj heq
    rw [List.map_set, NamedRef.bare_forceResolve hresolve, ← List.map_set]
    congr 1
    obtain ⟨hi, rfl⟩ := List.getElem?_eq_some_iff.mp hr
    exact List.set_getElem_self hi

end Each

/-- What the references of a component say besides their targets. -/
def bareRefs (refs : ComponentRefs) : List DependencyInfo :=
  refs.monoRefs.map (fun r => bare (createDependencyInfo r)) ++ refs.polyRefs.map (fun r => bare (createDependencyInfo r)) ++
    refs.interfaceRefs.map fun r => bare (createDependencyInfo r)

/-- What a component says of its dependencies besides their targets. -/
def bareInfos (s : DependencyState) (c : ComponentId) : List DependencyInfo :=
  bareRefs (s.refs c) ++ (s.world.component c).publishedDependencies.map bare

variable {s s' : DependencyState} {c : ComponentId}

/-- A description says what is known of the component anyway, and leaves that as it is. -/
structure Described (s : DependencyState) (c : ComponentId) (infos : List DependencyInfo) (s' : DependencyState) : Prop where
  inv : Inv s'
  infos : infos.map bare = bareInfos s c
  unharmed : Unharmed s.world s'.world
  cached : s'.world.cached = s.world.cached
  refs : ∀ d, bareRefs (s'.refs d) = bareRefs (s.refs d)
  current : s'.current = s.current
  earlier : s'.earlier = s.earlier

/-- The loop over the references of one kind, in a world at rest. -/
theorem unharmed_describeEach {ρ : Type} [DependencyRef ρ] [LawfulRef ρ] {owner : ComponentId} {refs refs' : List ρ} {w w' : World}
    {infos : List DependencyInfo} (hrest : AtRest w) (howner : refs ≠ [] → 0 < w.others owner)
    (hsound : ∀ r ∈ refs, LawfulRef.Sound owner w r) (h : describeEach owner w refs = some (infos, refs', w')) :
    Unharmed w w' ∧ w'.cached = w.cached := by
  rcases describeEach_spec refs w hrest howner hsound with ⟨infos₁, refs₁, w₁, h₁, hdescribed⟩ | ⟨hnone, -⟩
  · obtain ⟨-, heq⟩ := Prod.mk.inj (Option.some.inj (h₁.symm.trans h))
    obtain ⟨-, rfl⟩ := Prod.mk.inj heq
    exact ⟨hdescribed.unharmed, hdescribed.cached⟩
  · rw [hnone] at h
    cases h

/-- The references of a component stay sound while others of its references resolve. -/
theorem sound_after {ρ : Type} [DependencyRef ρ] [LawfulRef ρ] (h : Inv s) (table : ComponentRefs → List ρ) (hempty : table {} = [])
    (hsound : ∀ r ∈ table (s.refs c), LawfulRef.Sound c s.world r) {w : World} (hunharmed : Unharmed s.world w)
    (hcached : w.cached = s.world.cached) :
    AtRest w ∧ (table (s.refs c) ≠ [] → 0 < w.others c) ∧ ∀ r ∈ table (s.refs c), LawfulRef.Sound c w r := by
  have howner : table (s.refs c) ≠ [] → 0 < s.world.others c := by
    intro hne
    refine owner_held h fun hrefs => hne ?_
    rw [hrefs, hempty]
  refine ⟨fun d => hcached ▸ h.atRest d, fun hne => hunharmed.others ▸ howner hne, fun r hr => ?_⟩
  exact sound_all_of_unharmed hunharmed hcached h.atRest (howner (List.ne_nil_of_mem hr)) hsound r hr

theorem describe_described (h : Inv s) {infos : List DependencyInfo} (hdescribe : s.describeDependencies c = some (infos, s')) :
    Described s c infos s' := by
  have hinv : Inv s' := step_inv (a := .describeDependencies c) h (by simp only [DependencyState.step, hdescribe, Option.map_some])
  obtain ⟨⟨monoInfos, monoRefs, w₁⟩, hmono, hdescribe⟩ := Option.bind_eq_some_iff.mp hdescribe
  obtain ⟨⟨polyInfos, polyRefs, w₂⟩, hpoly, hdescribe⟩ := Option.bind_eq_some_iff.mp hdescribe
  obtain ⟨⟨interfaceInfos, interfaceRefs, w₃⟩, hinterface, heq⟩ := Option.map_eq_some_iff.mp hdescribe
  obtain ⟨rfl, rfl⟩ := Prod.mk.inj heq
  obtain ⟨hrest, howner, hsound⟩ := sound_after h ComponentRefs.monoRefs rfl (h.queries c) (Unharmed.refl _) rfl
  obtain ⟨hunharmed₁, hcached₁⟩ := unharmed_describeEach hrest howner hsound hmono
  obtain ⟨hrest₁, howner₁, hsound₁⟩ := sound_after h ComponentRefs.polyRefs rfl (h.events c) hunharmed₁ hcached₁
  obtain ⟨hunharmed₂, hcached₂⟩ := unharmed_describeEach hrest₁ howner₁ hsound₁ hpoly
  have hunharmed₂ := hunharmed₁.trans hunharmed₂
  have hcached₂ := hcached₂.trans hcached₁
  obtain ⟨hrest₂, howner₂, hsound₂⟩ := sound_after h ComponentRefs.interfaceRefs rfl (h.interfaces c) hunharmed₂ hcached₂
  obtain ⟨hunharmed₃, hcached₃⟩ := unharmed_describeEach hrest₂ howner₂ hsound₂ hinterface
  have hunharmed₃ := hunharmed₂.trans hunharmed₃
  obtain ⟨hmonoInfos, hmonoRefs⟩ := bare_describeEach _ hmono
  obtain ⟨hpolyInfos, hpolyRefs⟩ := bare_describeEach _ hpoly
  obtain ⟨hinterfaceInfos, hinterfaceRefs⟩ := bare_describeEach _ hinterface
  refine ⟨hinv, ?_, hunharmed₃, hcached₃.trans hcached₂, fun d => ?_, rfl, rfl⟩
  · simp only [List.map_append, hmonoInfos, hpolyInfos, hinterfaceInfos, bareInfos, bareRefs, hunharmed₃.component]
  · by_cases hd : d = c
    · subst hd
      simp only [Function.update_self, bareRefs, hmonoRefs, hpolyRefs, hinterfaceRefs]
    · simp only [Function.update_of_ne hd]

/-- What a description leaves of what is known of any component. -/
theorem Described.bareInfos {infos : List DependencyInfo} (h : Described s c infos s') (d : ComponentId) :
    CompositionRootAux.bareInfos s' d = CompositionRootAux.bareInfos s d := by
  rw [CompositionRootAux.bareInfos, CompositionRootAux.bareInfos, h.refs, h.unharmed.component]

/-! ## Descriptions that do not abort -/

/-- Whatever interface a reference would be linked to has all its queries implemented. -/
def Implemented (w : World) : Prop := ∀ id c impl, w.sole Component.lookupInterface id = some (c, impl) → w.implemented impl = true

theorem implemented_unharmed {w w' : World} (h : Implemented w) (hunharmed : Unharmed w w') (hcached : w'.cached = w.cached) :
    Implemented w' := by
  intro id c impl hsole
  rw [(hunharmed.alike hcached).sole] at hsole
  rw [hunharmed.implemented]
  exact h id c impl hsole

theorem forceResolve_interface_ne_none {owner : ComponentId} {w : World} {r : LifetimeInterfaceRef} (h : InterfaceSound owner w r)
    (hrest : AtRest w) (himplemented : Implemented w) : forceResolve owner w r ≠ none := by
  intro hnone
  have hlookup : r.ref.lookup r.id owner r.life (fun _ => []) (w.seenBy r.ref.receiver.toList) = none := Option.map_eq_none_iff.mp hnone
  unfold InterfaceRef.lookup at hlookup
  split at hlookup
  · cases hlookup
  · rcases InterfaceRefAux.relinked r.id owner r.life (fun _ => []) (w.seenBy r.ref.receiver.toList) r.ref with
      ⟨answer, ref, w', hout, -⟩ | ⟨-, c, impl, hsole, hnot⟩
    · rw [hlookup] at hout
      cases hout
    · rw [(alike_seenBy hrest (held_toList h.held)).sole] at hsole
      exact Bool.false_ne_true (hnot.symm.trans (himplemented r.id c impl hsole))

theorem describeEach_ne_none {ρ : Type} [DependencyRef ρ] [LawfulRef ρ] {owner : ComponentId}
    (hno : ∀ (w : World) (r : ρ), LawfulRef.Sound owner w r → AtRest w → Implemented w → forceResolve owner w r ≠ none) (refs : List ρ) :
    ∀ w : World, AtRest w → (refs ≠ [] → 0 < w.others owner) → (∀ r ∈ refs, LawfulRef.Sound owner w r) → Implemented w →
      ∃ out, describeEach owner w refs = some out := by
  induction refs with
  | nil => exact fun w _ _ _ _ => ⟨_, rfl⟩
  | cons r refs ih =>
    intro w hrest howner hsound himplemented
    rw [List.forall_mem_cons] at hsound
    have howner := howner (List.cons_ne_nil r refs)
    rcases LawfulRef.resolves hsound.1 hrest with ⟨r', w₁, hresolve, hunharmed, hcached, -, -⟩ | ⟨hnone, -⟩
    · have hrest₁ : AtRest w₁ := fun c => hcached ▸ hrest c
      obtain ⟨out, hout⟩ := ih w₁ hrest₁ (fun _ => hunharmed.others ▸ howner)
        (sound_all_of_unharmed hunharmed hcached hrest howner hsound.2) (implemented_unharmed himplemented hunharmed hcached)
      refine ⟨(createDependencyInfo r' :: out.1, r' :: out.2.1, out.2.2), ?_⟩
      simp only [describeEach, hresolve, hout, Option.bind_some, Option.map_some]
    · exact absurd hnone (hno w r hsound.1 hrest himplemented)

theorem describe_ne_none (h : Inv s) (himplemented : Implemented s.world) (c : ComponentId) :
    ∃ infos s', s.describeDependencies c = some (infos, s') := by
  obtain ⟨hrest, howner, hsound⟩ := sound_after h ComponentRefs.monoRefs rfl (h.queries c) (Unharmed.refl _) rfl
  obtain ⟨⟨monoInfos, monoRefs, w₁⟩, hmono⟩ :=
    describeEach_ne_none (fun _ _ _ _ _ => Option.some_ne_none _) _ _ hrest howner hsound himplemented
  obtain ⟨hunharmed₁, hcached₁⟩ := unharmed_describeEach hrest howner hsound hmono
  obtain ⟨hrest₁, howner₁, hsound₁⟩ := sound_after h ComponentRefs.polyRefs rfl (h.events c) hunharmed₁ hcached₁
  obtain ⟨⟨polyInfos, polyRefs, w₂⟩, hpoly⟩ := describeEach_ne_none (fun _ _ _ _ _ => Option.some_ne_none _) _ _ hrest₁ howner₁ hsound₁
    (implemented_unharmed himplemented hunharmed₁ hcached₁)
  obtain ⟨hunharmed₂, hcached₂⟩ := unharmed_describeEach hrest₁ howner₁ hsound₁ hpoly
  have hunharmed₂ := hunharmed₁.trans hunharmed₂
  have hcached₂ := hcached₂.trans hcached₁
  obtain ⟨hrest₂, howner₂, hsound₂⟩ := sound_after h ComponentRefs.interfaceRefs rfl (h.interfaces c) hunharmed₂ hcached₂
  obtain ⟨⟨interfaceInfos, interfaceRefs, w₃⟩, hinterface⟩ := describeEach_ne_none (fun _ _ => forceResolve_interface_ne_none) _ _
    hrest₂ howner₂ hsound₂ (implemented_unharmed himplemented hunharmed₂ hcached₂)
  refine ⟨monoInfos ++ polyInfos ++ interfaceInfos ++ (w₃.component c).publishedDependencies,
    { s with world := w₃, refs := Function.update s.refs c { monoRefs, polyRefs, interfaceRefs } }, ?_⟩
  simp only [describeDependencies, hmono, hpoly, hinterface, Option.bind_some, Option.map_some]

/-! ## The loops of the checks -/

/-- The messages of the infos a test picks. -/
def idsOf (p : DependencyInfo → Bool) (infos : List DependencyInfo) : List MessageId := (infos.filter p).map DependencyInfo.msgInfo

theorem idsOf_bare {p : DependencyInfo → Bool} (hp : ∀ info, p (bare info) = p info) (infos : List DependencyInfo) :
    idsOf p (infos.map bare) = idsOf p infos := by
  simp only [idsOf, List.filter_map, List.map_map]
  congr 1
  exact List.filter_congr fun info _ => hp info

/-- What is left where all components have been described. -/
structure AllDescribed (s s' : DependencyState) : Prop where
  inv : Inv s'
  implemented : Implemented s'.world
  bareInfos : ∀ d, CompositionRootAux.bareInfos s' d = CompositionRootAux.bareInfos s d

theorem Described.all {infos : List DependencyInfo} (h : Described s c infos s') (himplemented : Implemented s.world) : AllDescribed s s' :=
  ⟨h.inv, implemented_unharmed himplemented h.unharmed h.cached, h.bareInfos⟩

theorem AllDescribed.refl (h : Inv s) (himplemented : Implemented s.world) : AllDescribed s s := ⟨h, himplemented, fun _ => rfl⟩

theorem AllDescribed.trans {s'' : DependencyState} (h : AllDescribed s s') (h' : AllDescribed s' s'') : AllDescribed s s'' :=
  ⟨h'.inv, h'.implemented, fun d => (h'.bareInfos d).trans (h.bareInfos d)⟩

/-- One description, of a component in the list. -/
theorem describe_spec' (h : Inv s) (himplemented : Implemented s.world) (c : ComponentId) :
    ∃ infos s', s.describeDependencies c = some (infos, s') ∧ AllDescribed s s' ∧
      ∀ p : DependencyInfo → Bool, (∀ info, p (bare info) = p info) → idsOf p infos = idsOf p (bareInfos s c) := by
  obtain ⟨infos, s', hdescribe⟩ := describe_ne_none h himplemented c
  have hdescribed := describe_described h hdescribe
  refine ⟨infos, s', hdescribe, hdescribed.all himplemented, fun p hp => ?_⟩
  rw [← hdescribed.infos, idsOf_bare hp]

theorem collectExportedInterfaces_spec (components : List ComponentId) : ∀ (s : DependencyState) (exported : List MessageId), Inv s →
    Implemented s.world → ∃ s', s.collectExportedInterfaces exported components =
        some (exported ++ components.flatMap fun c => idsOf DependencyInfo.exportsInterface (bareInfos s c), s') ∧ AllDescribed s s' := by
  induction components with
  | nil =>
    intro s exported h himplemented
    exact ⟨s, by simp [collectExportedInterfaces], AllDescribed.refl h himplemented⟩
  | cons c components ih =>
    intro s exported h himplemented
    obtain ⟨infos, s₁, hdescribe, hall, hids⟩ := describe_spec' h himplemented c
    obtain ⟨s', hrest, hall'⟩ := ih s₁ (exported ++ idsOf DependencyInfo.exportsInterface infos) hall.inv hall.implemented
    refine ⟨s', ?_, hall.trans hall'⟩
    simp only [collectExportedInterfaces, hdescribe, Option.bind_some]
    change s₁.collectExportedInterfaces (exported ++ idsOf DependencyInfo.exportsInterface infos) components = _
    rw [hrest, hids DependencyInfo.exportsInterface fun _ => rfl, List.flatMap_cons, List.append_assoc]
    simp only [hall.bareInfos]

theorem collectMissingDependencies_spec (exported : List MessageId) (components : List ComponentId) :
    ∀ (s : DependencyState) (missing : List MissingDependency), Inv s → Implemented s.world →
      ∃ s', s.collectMissingDependencies exported missing components =
          some (missing ++ components.flatMap fun c =>
            ((idsOf DependencyInfo.importsInterface (bareInfos s c)).filter fun id => !exported.contains id).map
              (MissingDependency.mk c), s') ∧
        AllDescribed s s' := by
  induction components with
  | nil =>
    intro s missing h himplemented
    exact ⟨s, by simp [collectMissingDependencies], AllDescribed.refl h himplemented⟩
  | cons c components ih =>
    intro s missing h himplemented
    obtain ⟨infos, s₁, hdescribe, hall, hids⟩ := describe_spec' h himplemented c
    obtain ⟨s', hrest, hall'⟩ := ih s₁ _ hall.inv hall.implemented
    refine ⟨s', ?_, hall.trans hall'⟩
    simp only [collectMissingDependencies, hdescribe, Option.bind_some]
    rw [hrest, List.flatMap_cons, ← List.append_assoc, ← hids DependencyInfo.importsInterface fun _ => rfl]
    simp only [hall.bareInfos, idsOf, List.filter_map, List.map_map]
    rfl

theorem idsOf_cons (p : DependencyInfo → Bool) (info : DependencyInfo) (infos : List DependencyInfo) :
    idsOf p (info :: infos) = (if p info then [info.msgInfo] else []) ++ idsOf p infos := by
  unfold idsOf
  rw [List.filter_cons]
  split <;> rfl

/-- The loop over the infos of one component comes to its end if no event is there twice. -/
theorem collectPublishedEvents_spec (infos : List DependencyInfo) : ∀ published : List MessageId, published.Nodup →
    collectPublishedEvents published infos =
      if (published ++ idsOf DependencyInfo.exportsEvent infos).Nodup then
        some (published ++ idsOf DependencyInfo.exportsEvent infos)
      else none := by
  induction infos with
  | nil =>
    intro published hnodup
    have heq : published ++ idsOf DependencyInfo.exportsEvent [] = published := List.append_nil published
    rw [heq, if_pos hnodup]
    rfl
  | cons info infos ih =>
    intro published hnodup
    simp only [collectPublishedEvents, idsOf_cons]
    by_cases hexports : info.exportsEvent = true
    · rw [if_pos hexports, if_pos hexports, ← List.append_assoc]
      by_cases hmem : info.msgInfo ∈ published
      · rw [if_pos (List.contains_iff_mem.mpr hmem), if_neg]
        intro hall
        exact (List.nodup_append.mp (hall.of_append_left)).2.2 _ hmem _ (List.mem_singleton_self _) rfl
      · rw [if_neg (by simpa using hmem)]
        refine ih _ (hnodup.append (List.nodup_singleton _) ?_)
        exact List.disjoint_singleton.mpr hmem
    · rw [if_neg hexports, if_neg hexports, List.nil_append]
      exact ih published hnodup

theorem collectEvents_spec (components : List ComponentId) : ∀ (s : DependencyState) (published : List MessageId), Inv s →
    Implemented s.world → published.Nodup → ∃ s', AllDescribed s s' ∧
      s.collectEvents published components =
        let all := published ++ components.flatMap fun c => idsOf DependencyInfo.exportsEvent (bareInfos s c)
        some (if all.Nodup then some all else none, s') := by
  induction components with
  | nil =>
    intro s published h himplemented hnodup
    refine ⟨s, AllDescribed.refl h himplemented, ?_⟩
    simp only [collectEvents, List.flatMap_nil, List.append_nil, if_pos hnodup]
  | cons c components ih =>
    intro s published h himplemented hnodup
    obtain ⟨infos, s₁, hdescribe, hall, hids⟩ := describe_spec' h himplemented c
    simp only [collectEvents, hdescribe, Option.bind_some, collectPublishedEvents_spec infos published hnodup, List.flatMap_cons,
      ← List.append_assoc, hids DependencyInfo.exportsEvent fun _ => rfl]
    by_cases hfirst : (published ++ idsOf DependencyInfo.exportsEvent (bareInfos s c)).Nodup
    · obtain ⟨s', hall', hrest⟩ := ih s₁ _ hall.inv hall.implemented hfirst
      refine ⟨s', hall.trans hall', ?_⟩
      rw [if_pos hfirst]
      simp only [hrest, hall.bareInfos]
    · refine ⟨s₁, hall, ?_⟩
      rw [if_neg hfirst, if_neg fun hnodup => hfirst hnodup.of_append_left]

theorem all_imported_iff (published : List MessageId) (infos : List DependencyInfo) :
    (infos.all fun info => !info.importsEvent || published.contains info.msgInfo) = true ↔
      ∀ id ∈ idsOf DependencyInfo.importsEvent infos, id ∈ published := by
  rw [List.all_eq_true]
  constructor
  · intro h id hid
    obtain ⟨info, hinfo, rfl⟩ := List.mem_map.mp hid
    obtain ⟨hinfo, himports⟩ := List.mem_filter.mp hinfo
    simpa [himports] using h info hinfo
  · intro h info hinfo
    cases himports : info.importsEvent with
    | false => rfl
    | true => simpa using h info.msgInfo (List.mem_map_of_mem (List.mem_filter.mpr ⟨hinfo, himports⟩))

theorem checkEvents_spec (published : List MessageId) (components : List ComponentId) : ∀ s : DependencyState, Inv s → Implemented s.world →
    ∃ s', s.checkEvents published components = some
      (decide (∀ c ∈ components, ∀ id ∈ idsOf DependencyInfo.importsEvent (bareInfos s c), id ∈ published), s') := by
  induction components with
  | nil =>
    intro s _ _
    refine ⟨s, ?_⟩
    simp [checkEvents]
  | cons c components ih =>
    intro s h himplemented
    obtain ⟨infos, s₁, hdescribe, hall, hids⟩ := describe_spec' h himplemented c
    have hinfos := all_imported_iff published infos
    rw [hids DependencyInfo.importsEvent fun _ => rfl] at hinfos
    simp only [checkEvents, hdescribe, Option.bind_some]
    by_cases hfirst : ∀ id ∈ idsOf DependencyInfo.importsEvent (bareInfos s c), id ∈ published
    · obtain ⟨s', hrest⟩ := ih s₁ hall.inv hall.implemented
      refine ⟨s', ?_⟩
      rw [if_pos (hinfos.mpr hfirst), hrest]
      simp only [hall.bareInfos, List.forall_mem_cons, and_iff_right hfirst]
    · refine ⟨s₁, ?_⟩
      rw [if_neg fun hall => hfirst (hinfos.mp hall), decide_eq_false]
      exact fun hall => hfirst (hall c List.mem_cons_self)

/-! ## What the infos are about -/

theorem idsOf_append (p : DependencyInfo → Bool) (infos infos' : List DependencyInfo) :
    idsOf p (infos ++ infos') = idsOf p infos ++ idsOf p infos' := by
  simp only [idsOf, List.filter_append, List.map_append]

/-- The infos of references of one kind, all of which a test picks, or none. -/
theorem idsOf_refs {ρ : Type} [DependencyRef ρ] (p : DependencyInfo → Bool) (refs : List ρ) (picked : Bool)
    (hp : ∀ r : ρ, p (bare (createDependencyInfo r)) = picked) :
    idsOf p (refs.map fun r => bare (createDependencyInfo r)) =
      if picked then refs.map fun r => (createDependencyInfo r).msgInfo else [] := by
  have hfilter : (refs.map fun r => bare (createDependencyInfo r)).filter p =
      if picked then refs.map fun r => bare (createDependencyInfo r) else [] := by
    split
    · rename_i hpicked
      refine List.filter_eq_self.mpr fun info hinfo => ?_
      obtain ⟨r, -, rfl⟩ := List.mem_map.mp hinfo
      exact (hp r).trans hpicked
    · rename_i hpicked
      refine List.filter_eq_nil_iff.mpr fun info hinfo => ?_
      obtain ⟨r, -, rfl⟩ := List.mem_map.mp hinfo
      rwa [hp r]
  rw [idsOf, hfilter]
  split
  · rw [List.map_map]
    rfl
  · rfl

/-- What a component has published is no reference. -/
theorem idsOf_published (h : Inv s) (c : ComponentId) {p : DependencyInfo → Bool} (hp : ∀ info, p (bare info) = p info)
    (hreference : ∀ info, p info = true → info.isReference = true) :
    idsOf p ((s.world.component c).publishedDependencies.map bare) = [] := by
  rw [idsOf_bare hp, idsOf, List.map_eq_nil_iff, List.filter_eq_nil_iff]
  obtain ⟨groupType, hgroup⟩ := h.published c
  intro info hinfo hpick
  rw [hgroup, List.mem_append] at hinfo
  have hisReference := hreference info hpick
  rcases hinfo with hinfo | hinfo
  · obtain ⟨id, -, rfl⟩ := List.mem_map.mp hinfo
    cases hisReference
  · exact Bool.false_ne_true ((h.noted c info hinfo).1.symm.trans hisReference)

theorem idsOf_importsInterface (h : Inv s) (c : ComponentId) :
    idsOf DependencyInfo.importsInterface (bareInfos s c) = (s.refs c).interfaceRefs.map LifetimeInterfaceRef.id := by
  rw [bareInfos, bareRefs, idsOf_append, idsOf_append, idsOf_append, idsOf_refs _ _ false fun _ => rfl, idsOf_refs _ _ false fun _ => rfl,
    idsOf_refs _ _ true fun _ => rfl, idsOf_published h c (fun _ => rfl)]
  · simp only [Bool.false_eq_true, if_false, if_true, List.nil_append, List.append_nil]
    rfl
  · intro info hinfo
    obtain ⟨htype, hdirection⟩ := of_decide_eq_true hinfo
    rw [DependencyInfo.isReference, htype, hdirection]

theorem idsOf_exportsEvent (h : Inv s) (c : ComponentId) :
    idsOf DependencyInfo.exportsEvent (bareInfos s c) = (s.refs c).polyRefs.map EventRef.id := by
  rw [bareInfos, bareRefs, idsOf_append, idsOf_append, idsOf_append, idsOf_refs _ _ false fun _ => rfl, idsOf_refs _ _ true fun _ => rfl,
    idsOf_refs _ _ false fun _ => rfl, idsOf_published h c (fun _ => rfl)]
  · simp only [Bool.false_eq_true, if_false, if_true, List.nil_append, List.append_nil]
    rfl
  · intro info hinfo
    obtain ⟨htype, hdirection⟩ := of_decide_eq_true hinfo
    rw [DependencyInfo.isReference, htype, hdirection]

/-- What a test picks that picks no reference has been published. -/
theorem mem_idsOf_of_published {p : DependencyInfo → Bool} (hp : ∀ info, p (bare info) = p info)
    (hreference : ∀ info, p info = true → info.isReference = false) {id : MessageId} :
    id ∈ idsOf p (bareInfos s c) ↔ id ∈ idsOf p (s.world.component c).publishedDependencies := by
  rw [bareInfos, idsOf_append, idsOf_bare hp, List.mem_append, or_iff_right]
  intro hmem
  obtain ⟨info, hinfo, rfl⟩ := List.mem_map.mp hmem
  obtain ⟨hinfo, hpick⟩ := List.mem_filter.mp hinfo
  have hnot := hreference info hpick
  simp only [bareRefs, List.mem_append, List.mem_map] at hinfo
  rcases hinfo with (⟨r, -, rfl⟩ | ⟨r, -, rfl⟩) | ⟨r, -, rfl⟩ <;> cases hnot

/-! ## An application that is being set up -/

/-- What holds while an application is being set up. -/
structure SetUp (isInterface : MessageId → Bool) (components : List ComponentId) (s : DependencyState) : Prop where
  inv : Inv s
  /-- Who has published an interface is one of the components, and is listed under it alone. -/
  published : ∀ id c impl, (s.world.component c).interfaces id = some impl →
    isInterface id = true ∧ c ∈ components ∧ s.world.broker.receivers id = [c] ∧ impl ∈ (s.world.component c).postPublishChecks
  listed : ∀ id, isInterface id = true → ∀ c ∈ s.world.broker.receivers id, (s.world.component c).interfaces id ≠ none
  noted : ∀ c id, id ∈ idsOf DependencyInfo.exportsInterface (s.world.component c).publishedDependencies ↔
    (s.world.component c).interfaces id ≠ none
  checked : ∀ c, (s.world.component c).published = true → ∀ impl ∈ (s.world.component c).postPublishChecks, s.world.implemented impl = true
  subscribed : ∀ c, ∀ id ∈ idsOf DependencyInfo.importsEvent (s.world.component c).publishedDependencies,
    c ∈ s.world.broker.receivers id ∧ (s.world.component c).asyncHandlers id ≠ none
  typed : ∀ c, ∀ r ∈ (s.refs c).interfaceRefs, isInterface r.id = true
  earlier : ∀ c, s.earlier c = []

/-- A change that lists no component, and changes no table of what is published. -/
structure Quiet (w w' : World) : Prop where
  receivers : ∀ id, w'.broker.receivers id = w.broker.receivers id
  interfaces : ∀ c, (w'.component c).interfaces = (w.component c).interfaces
  checks : ∀ c, (w'.component c).postPublishChecks = (w.component c).postPublishChecks
  dependencies : ∀ c, (w'.component c).publishedDependencies = (w.component c).publishedDependencies
  handlers : ∀ c id, (w.component c).asyncHandlers id ≠ none → (w'.component c).asyncHandlers id ≠ none
  implemented : ∀ impl, w.implemented impl = true → w'.implemented impl = true
  /-- What is published from now on has passed its checks. -/
  published : ∀ c, (w'.component c).published = true →
    (w.component c).published = true ∨ ∀ impl ∈ (w.component c).postPublishChecks, w.implemented impl = true

variable {isInterface : MessageId → Bool} {components : List ComponentId} {w w' : World} {op : WorldOp}

theorem quiet_of_unharmed (h : Unharmed w w') : Quiet w w' where
  receivers := h.receivers
  interfaces c := by rw [h.component]
  checks c := by rw [h.component]
  dependencies c := by rw [h.component]
  handlers c id hid := by rwa [h.component]
  implemented impl himpl := h.implemented ▸ himpl
  published c hc := Or.inl (by rwa [h.component] at hc)

theorem setUp_quiet {s' : DependencyState} (h : SetUp isInterface components s) (hinv : Inv s') (hq : Quiet s.world s'.world)
    (htyped : ∀ c, ∀ r ∈ (s'.refs c).interfaceRefs, isInterface r.id = true) (hearlier : s'.earlier = s.earlier) :
    SetUp isInterface components s' where
  inv := hinv
  published id c impl himpl := by
    rw [hq.interfaces] at himpl
    rw [hq.receivers, hq.checks]
    exact h.published id c impl himpl
  listed id hid c hc := by
    rw [hq.receivers] at hc
    rw [hq.interfaces]
    exact h.listed id hid c hc
  noted c id := by
    rw [hq.dependencies, hq.interfaces]
    exact h.noted c id
  checked c hc impl himpl := by
    rw [hq.checks] at himpl
    refine hq.implemented impl ?_
    rcases hq.published c hc with hold | hnew
    · exact h.checked c hold impl himpl
    · exact hnew impl himpl
  subscribed c id hid := by
    rw [hq.dependencies] at hid
    obtain ⟨hlisted, hhandler⟩ := h.subscribed c id hid
    exact ⟨hq.receivers id ▸ hlisted, hq.handlers c id hhandler⟩
  typed := htyped
  earlier c := hearlier ▸ h.earlier c

/-- A change of the broker that keeps all lists, and of one component. -/
theorem quiet_update {b : Broker} {d : ComponentId} {f : Component → Component} (hb : ∀ id, b.receivers id = w.broker.receivers id)
    (hf : ∀ comp, (f comp).interfaces = comp.interfaces ∧ (f comp).postPublishChecks = comp.postPublishChecks ∧
      (f comp).publishedDependencies = comp.publishedDependencies ∧
      ∀ id, comp.asyncHandlers id ≠ none → (f comp).asyncHandlers id ≠ none)
    (hpublished : (f (w.component d)).published = true →
      (w.component d).published = true ∨ ∀ impl ∈ (w.component d).postPublishChecks, w.implemented impl = true) :
    Quiet w ({ w with broker := b }.update d f) := by
  have hcases : ∀ c, (c = d ∧ (({ w with broker := b } : World).update d f).component c = f (w.component c)) ∨
      (({ w with broker := b } : World).update d f).component c = w.component c := by
    intro c
    by_cases hc : c = d
    · subst hc
      exact Or.inl ⟨rfl, component_update_self ..⟩
    · exact Or.inr (component_update_of_ne _ f hc)
  refine ⟨hb, fun c => ?_, fun c => ?_, fun c => ?_, fun c id hid => ?_, fun _ himpl => himpl, fun c hc => ?_⟩
  · rcases hcases c with ⟨-, heq⟩ | heq <;> rw [heq]
    exact (hf _).1
  · rcases hcases c with ⟨-, heq⟩ | heq <;> rw [heq]
    exact (hf _).2.1
  · rcases hcases c with ⟨-, heq⟩ | heq <;> rw [heq]
    exact (hf _).2.2.1
  · rcases hcases c with ⟨-, heq⟩ | heq <;> rw [heq]
    · exact (hf _).2.2.2 id hid
    · exact hid
  · rcases hcases c with ⟨rfl, heq⟩ | heq
    · rw [heq] at hc
      exact hpublished hc
    · rw [heq] at hc
      exact Or.inl hc

/-- A pointer goes, and others are left. -/
theorem release_kept {c : ComponentId} (h : 1 < w.others c) :
    w.release c = { w with others := Function.update w.others c (w.others c - 1) } := by
  simp only [release, if_neg (Nat.ne_of_gt (Nat.lt_trans Nat.one_pos h)), dropped]
  rw [if_pos]
  simp only [alive, Function.update_self, decide_eq_true_eq]
  omega

/-- A table of handlers that has had one more stored has one wherever it had one. -/
theorem handlers_store {handlers : MessageId → Option HandlerId} {id id' : MessageId} {handler : HandlerId} (h : handlers id' ≠ none) :
    Function.update handlers id (some handler) id' ≠ none := by
  by_cases heq : id' = id
  · subst heq
    rw [Function.update_self]
    exact Option.some_ne_none handler
  · rwa [Function.update_of_ne heq]

/-- The operations that publish nothing, of those that may happen. -/
theorem quiet_step (hup : s.setsUp isInterface components (.world op) = true) (hkeeps : op.keeps s.world = true)
    (hop : op.publication = none) (h : s.world.step op = some w') : Quiet s.world w' := by
  cases op with
  | associate | disassociate | disassociateEverything | unpublishDependencies => cases hup
  | publishSyncQuery | publishAsyncQuery | subscribeEvent | publishInterface => cases hop
  | invalidate id =>
    obtain rfl := Option.some.inj h
    exact ⟨fun id' => Broker.receivers_invalidate .., fun _ => rfl, fun _ => rfl, fun _ => rfl, fun _ _ hid => hid, fun _ himpl => himpl,
      fun _ hc => Or.inl hc⟩
  | brokerLookup id =>
    obtain rfl := Option.some.inj h
    exact ⟨fun id' => Broker.receivers_lookup .., fun _ => rfl, fun _ => rfl, fun _ => rfl, fun _ _ hid => hid, fun _ himpl => himpl,
      fun _ hc => Or.inl hc⟩
  | implement impl =>
    have himplemented : ∀ impl', s.world.implemented impl' = true → w'.implemented impl' = true := fun _ => step_implemented h
    obtain rfl := Option.some.inj h
    exact ⟨fun _ => rfl, fun _ => rfl, fun _ => rfl, fun _ => rfl, fun _ _ hid => hid, himplemented, fun _ hc => Or.inl hc⟩
  | prependAsyncQueryFilter c id handler =>
    simp only [World.step, prependAsyncQueryFilter] at h
    split at h
    · cases h
    · obtain rfl := Option.some.inj h
      refine quiet_update (f := fun comp => { comp with asyncHandlers := Function.update comp.asyncHandlers id (some handler) })
        (fun id' => Broker.receivers_invalidate ..) (fun comp => ⟨rfl, rfl, rfl, fun id' hid => ?_⟩) Or.inl
      exact handlers_store hid
  | publishDependencies c =>
    simp only [World.step, publishDependencies] at h
    split at h
    · rename_i hchecks
      obtain rfl := Option.some.inj h
      exact quiet_update (b := s.world.broker) (fun _ => rfl) (fun comp => ⟨rfl, rfl, rfl, fun _ hid => hid⟩)
        fun _ => Or.inr (List.all_eq_true.mp hchecks)
    · cases h
  | acquire c =>
    obtain rfl := Option.some.inj h
    split
    · exact ⟨fun _ => rfl, fun _ => rfl, fun _ => rfl, fun _ => rfl, fun _ _ hid => hid, fun _ himpl => himpl, fun _ hc => Or.inl hc⟩
    · exact quiet_of_unharmed (Unharmed.refl _)
  | release c =>
    obtain rfl := Option.some.inj h
    rw [release_kept (of_decide_eq_true hkeeps)]
    exact ⟨fun _ => rfl, fun _ => rfl, fun _ => rfl, fun _ => rfl, fun _ _ hid => hid, fun _ himpl => himpl, fun _ hc => Or.inl hc⟩

/-- The lists after a publication. -/
theorem receivers_publish {c : ComponentId} {id : MessageId} {f : Component → Component} (h : w.publish c id f = some w') (id' : MessageId) :
    w'.broker.receivers id' = w.broker.receivers id' ++ if id' = id then [c] else [] := by
  unfold publish at h
  split at h
  · obtain rfl := Option.some.inj h
    obtain ⟨hext, -, hreceivers, huntouched⟩ := Broker.associate_spec w.broker id c
    change (w.broker.associate id c).receivers id' = _
    split
    · rename_i hid
      rw [hid, hreceivers]
    · rename_i hid
      rw [List.append_nil, Broker.receivers_of_untouched hext (huntouched id' hid)]
  · cases h

/-- The components after it. -/
theorem component_publish {c : ComponentId} {id : MessageId} {f : Component → Component} (h : w.publish c id f = some w') :
    w'.implemented = w.implemented ∧ w'.component c = f (w.component c) ∧ ∀ d, d ≠ c → w'.component d = w.component d := by
  unfold publish at h
  split at h
  · obtain rfl := Option.some.inj h
    exact ⟨rfl, component_update_self .., fun d hd => component_update_of_ne _ _ hd⟩
  · cases h

/-- A message is published or subscribed to. -/
theorem setUp_publishMessage {s' : DependencyState} {c : ComponentId} {id : MessageId} {f : Component → Component}
    (info : DependencyInfo) (h : SetUp isInterface components s) (hinv : Inv s')
    (hw : s.world.publish c id f = some s'.world) (hrefs : s'.refs = s.refs) (hearlier : s'.earlier = s.earlier)
    (hid : isInterface id = false)
    (hf : ∀ comp, (f comp).interfaces = comp.interfaces ∧ (f comp).postPublishChecks = comp.postPublishChecks ∧
      (f comp).published = comp.published ∧ (f comp).publishedDependencies = comp.publishedDependencies ++ [info] ∧
      ∀ id', comp.asyncHandlers id' ≠ none → (f comp).asyncHandlers id' ≠ none)
    (hinterface : info.exportsInterface = false)
    (hevent : info.importsEvent = true → info.msgInfo = id ∧ ∀ comp, (f comp).asyncHandlers id ≠ none) :
    SetUp isInterface components s' := by
  obtain ⟨himplemented, hself, hother⟩ := component_publish hw
  have hreceivers := receivers_publish hw
  have hcases : ∀ d, (d = c ∧ s'.world.component d = f (s.world.component d)) ∨ s'.world.component d = s.world.component d := by
    intro d
    by_cases hd : d = c
    · exact Or.inl ⟨hd, by rw [hd, hself]⟩
    · exact Or.inr (hother d hd)
  have hinterfaces : ∀ d, (s'.world.component d).interfaces = (s.world.component d).interfaces := by
    intro d
    rcases hcases d with ⟨-, heq⟩ | heq <;> rw [heq]
    exact (hf _).1
  have hchecks : ∀ d, (s'.world.component d).postPublishChecks = (s.world.component d).postPublishChecks := by
    intro d
    rcases hcases d with ⟨-, heq⟩ | heq <;> rw [heq]
    exact (hf _).2.1
  have hids : ∀ (p : DependencyInfo → Bool) d, idsOf p (s'.world.component d).publishedDependencies =
      idsOf p (s.world.component d).publishedDependencies ++ if d = c ∧ p info = true then [info.msgInfo] else [] := by
    intro p d
    by_cases hd : d = c
    · rw [hd, hself, (hf _).2.2.2.1, idsOf_append, idsOf_cons]
      simp [idsOf]
    · rw [hother d hd, if_neg fun hboth => hd hboth.1, List.append_nil]
  have hlists : ∀ id', isInterface id' = true → s'.world.broker.receivers id' = s.world.broker.receivers id' := by
    intro id' hid'
    rw [hreceivers, if_neg, List.append_nil]
    rintro rfl
    exact Bool.false_ne_true (hid.symm.trans hid')
  refine ⟨hinv, ?_, ?_, ?_, ?_, ?_, hrefs ▸ h.typed, hearlier ▸ h.earlier⟩
  · intro id' d impl himpl
    rw [hinterfaces] at himpl
    obtain ⟨hid', hmem, hlisted, hcheck⟩ := h.published id' d impl himpl
    rw [hlists id' hid', hchecks]
    exact ⟨hid', hmem, hlisted, hcheck⟩
  · intro id' hid' d hd
    rw [hlists id' hid'] at hd
    rw [hinterfaces]
    exact h.listed id' hid' d hd
  · intro d id'
    rw [hinterfaces, ← h.noted d id', hids, if_neg, List.append_nil]
    exact fun hboth => Bool.false_ne_true (hinterface.symm.trans hboth.2)
  · intro d hd impl himpl
    rw [hchecks] at himpl
    rw [himplemented]
    refine h.checked d ?_ impl himpl
    rcases hcases d with ⟨-, heq⟩ | heq <;> rw [heq] at hd
    · rwa [(hf _).2.2.1] at hd
    · exact hd
  · intro d id' hmem
    rw [hids, List.mem_append] at hmem
    rcases hmem with hold | hnew
    · obtain ⟨hlisted, hhandler⟩ := h.subscribed d id' hold
      refine ⟨hreceivers id' ▸ List.mem_append_left _ hlisted, ?_⟩
      rcases hcases d with ⟨-, heq⟩ | heq <;> rw [heq]
      · exact (hf _).2.2.2.2 id' hhandler
      · exact hhandler
    · split at hnew
      · rename_i hboth
        obtain ⟨hid', hhandler⟩ := hevent hboth.2
        obtain rfl : id' = id := (List.mem_singleton.mp hnew).trans hid'
        refine ⟨?_, by rw [hboth.1, hself]; exact hhandler _⟩
        rw [hreceivers, if_pos rfl]
        exact List.mem_append_right _ (List.mem_singleton.mpr hboth.1)
      · cases hnew

/-- What `publish_interface` does to the tables. -/
structure PublishesInterface (w : World) (c : ComponentId) (id : MessageId) (impl : InterfaceId) (w' : World) : Prop where
  implemented : w'.implemented = w.implemented
  receivers : ∀ id', w'.broker.receivers id' = w.broker.receivers id' ++ if id' = id then [c] else []
  interfaces : ∀ d id', (w'.component d).interfaces id' = if d = c ∧ id' = id then some impl else (w.component d).interfaces id'
  checks : ∀ d, (w'.component d).postPublishChecks = (w.component d).postPublishChecks ++ if d = c then [impl] else []
  published : ∀ d, (w'.component d).published = (w.component d).published
  handlers : ∀ d, (w'.component d).asyncHandlers = (w.component d).asyncHandlers
  ids : ∀ (p : DependencyInfo → Bool) d, idsOf p (w'.component d).publishedDependencies =
    idsOf p (w.component d).publishedDependencies ++ if d = c then idsOf p [⟨.exported, .interface, id, []⟩] else []

theorem publishesInterface {c : ComponentId} {id : MessageId} {impl : InterfaceId} (hw : w.publishInterface c id impl = some w') :
    PublishesInterface w c id impl w' := by
  obtain ⟨himplemented, hself, hother⟩ := component_publish hw
  refine ⟨himplemented, receivers_publish hw, fun d id' => ?_, fun d => ?_, fun d => ?_, fun d => ?_, fun p d => ?_⟩
  all_goals by_cases hd : d = c
  · subst hd
    rw [hself]
    by_cases heq : id' = id
    · subst heq
      rw [if_pos ⟨rfl, rfl⟩]
      exact Function.update_self ..
    · rw [if_neg fun hboth => heq hboth.2]
      exact Function.update_of_ne heq ..
  · rw [hother d hd, if_neg fun hboth => hd hboth.1]
  · subst hd
    rw [hself, if_pos rfl]
    rfl
  · rw [hother d hd, if_neg hd, List.append_nil]
  · subst hd
    rw [hself]
    rfl
  · rw [hother d hd]
  · subst hd
    rw [hself]
    rfl
  · rw [hother d hd]
  · subst hd
    rw [hself, if_pos rfl]
    exact idsOf_append ..
  · rw [hother d hd, if_neg hd, List.append_nil]

/-- An interface is published, by one of the components and nobody else. -/
theorem setUp_publishInterface {s' : DependencyState} {c : ComponentId} {id : MessageId} {impl : InterfaceId}
    (h : SetUp isInterface components s) (hinv : Inv s') (hw : s.world.publishInterface c id impl = some s'.world) (hrefs : s'.refs = s.refs)
    (hearlier : s'.earlier = s.earlier) (hid : isInterface id = true) (hc : c ∈ components)
    (hpublished : (s.world.component c).published = false) (hnew : s.world.broker.receivers id = []) :
    SetUp isInterface components s' := by
  have hp : PublishesInterface s.world c id impl s'.world := publishesInterface hw
  have hnobody : ∀ d, (s.world.component d).interfaces id = none := by
    intro d
    cases himpl : (s.world.component d).interfaces id with
    | none => rfl
    | some impl' =>
      have hlisted := (h.published id d impl' himpl).2.2.1
      rw [hnew] at hlisted
      cases hlisted
  refine ⟨hinv, ?_, ?_, ?_, ?_, ?_, hrefs ▸ h.typed, hearlier ▸ h.earlier⟩
  · intro id' d impl' himpl
    rw [hp.interfaces] at himpl
    split at himpl
    · rename_i hboth
      obtain ⟨rfl, rfl⟩ := hboth
      obtain rfl := Option.some.inj himpl
      rw [hp.receivers, hp.checks, hnew, if_pos rfl, if_pos rfl]
      exact ⟨hid, hc, rfl, List.mem_append_right _ (List.mem_singleton_self impl)⟩
    · have hne : id' ≠ id := by
        rintro rfl
        rw [hnobody d] at himpl
        cases himpl
      obtain ⟨hid', hmem, hlisted, hcheck⟩ := h.published id' d impl' himpl
      rw [hp.receivers, hp.checks, if_neg hne, List.append_nil]
      exact ⟨hid', hmem, hlisted, List.mem_append_left _ hcheck⟩
  · intro id' hid' d hd
    rw [hp.interfaces]
    split
    · exact Option.some_ne_none impl
    · rename_i hnot
      rw [hp.receivers] at hd
      rcases List.mem_append.mp hd with hold | hlast
      · exact h.listed id' hid' d hold
      · split at hlast
        · rename_i heq
          exact absurd ⟨List.mem_singleton.mp hlast, heq⟩ hnot
        · cases hlast
  · intro d id'
    rw [hp.interfaces, hp.ids, List.mem_append, h.noted d id']
    by_cases hd : d = c
    · by_cases heq : id' = id <;> simp [hd, heq, idsOf, DependencyInfo.exportsInterface]
    · simp [hd]
  · intro d hd impl' himpl'
    rw [hp.published] at hd
    have hdc : d ≠ c := by
      rintro rfl
      exact Bool.false_ne_true (hpublished.symm.trans hd)
    rw [hp.checks, if_neg hdc, List.append_nil] at himpl'
    rw [hp.implemented]
    exact h.checked d hd impl' himpl'
  · intro d id' hmem
    have hnone : idsOf DependencyInfo.importsEvent [⟨.exported, .interface, id, []⟩] = [] := rfl
    rw [hp.ids, hnone, ite_self, List.append_nil] at hmem
    rw [hp.receivers, hp.handlers]
    exact (h.subscribed d id' hmem).imp_left (List.mem_append_left _)

theorem idsOf_groupInfo {p : DependencyInfo → Bool} (hp : ∀ id, p ⟨.exported, .group, id, []⟩ = false) (groupType : Option MessageId) :
    idsOf p (groupInfo groupType) = [] := by
  rw [idsOf, List.map_eq_nil_iff, List.filter_eq_nil_iff]
  intro info hinfo
  obtain ⟨id, -, rfl⟩ := List.mem_map.mp hinfo
  rw [hp]
  exact Bool.false_ne_true

theorem setUp_construct {executor : ExecutorId} {listener : Option ListenerId} {groupType : Option MessageId}
    (h : SetUp isInterface components s) (hinv : Inv s') (hs : s.construct c executor listener groupType = some s') :
    SetUp isInterface components s' := by
  unfold construct at hs
  split at hs
  · rename_i hzero
    obtain rfl := Option.some.inj hs
    have hunlisted : ∀ id, c ∉ s.world.broker.receivers id := fun id hc => Nat.ne_of_gt (h.inv.listed id c hc) hzero
    refine ⟨hinv, fun id d impl himpl => ?_, fun id hid d hd => ?_, fun d id => ?_, fun d hd impl himpl => ?_, fun d id hmem => ?_,
      h.typed, h.earlier⟩
    all_goals by_cases hdc : d = c
    · subst hdc
      simp only [Function.update_self] at himpl
      cases himpl
    · simp only [Function.update_of_ne hdc] at himpl ⊢
      exact h.published id d impl himpl
    · exact absurd (hdc ▸ hd) (hunlisted id)
    · simp only [Function.update_of_ne hdc]
      exact h.listed id hid d hd
    · subst hdc
      simp only [Function.update_self, idsOf_groupInfo (p := DependencyInfo.exportsInterface) (fun _ => rfl), List.not_mem_nil, ne_eq,
        not_true_eq_false]
    · simp only [Function.update_of_ne hdc]
      exact h.noted d id
    · subst hdc
      simp only [Function.update_self] at hd
      cases hd
    · simp only [Function.update_of_ne hdc] at hd himpl
      exact h.checked d hd impl himpl
    · subst hdc
      simp only [Function.update_self, idsOf_groupInfo (p := DependencyInfo.importsEvent) (fun _ => rfl), List.not_mem_nil] at hmem
    · simp only [Function.update_of_ne hdc] at hmem ⊢
      exact h.subscribed d id hmem
  · cases hs

/-- A step after which the components say the same of their dependencies. -/
theorem setUp_resolved {s' : DependencyState} (h : SetUp isInterface components s) (hinv : Inv s') (hunharmed : Unharmed s.world s'.world)
    (hrefs : ∀ d, bareRefs (s'.refs d) = bareRefs (s.refs d)) (hearlier : s'.earlier = s.earlier) : SetUp isInterface components s' := by
  refine setUp_quiet h hinv (quiet_of_unharmed hunharmed) (fun d r hr => ?_) hearlier
  have hids : (s'.refs d).interfaceRefs.map LifetimeInterfaceRef.id = (s.refs d).interfaceRefs.map LifetimeInterfaceRef.id := by
    rw [← idsOf_importsInterface hinv, ← idsOf_importsInterface h.inv, bareInfos, bareInfos, hrefs, hunharmed.component]
  obtain ⟨r', hr', heq⟩ := List.mem_map.mp (hids ▸ List.mem_map_of_mem hr)
  exact heq ▸ h.typed d r' hr'

theorem setUp_world (h : SetUp isInterface components s) (hup : s.setsUp isInterface components (.world op) = true)
    (hs : s.step (.world op) = some s') : SetUp isInterface components s' := by
  have hinv := step_inv h.inv hs
  simp only [DependencyState.step] at hs
  split at hs
  swap
  · cases hs
  rename_i hkeeps
  obtain ⟨w', hw, rfl⟩ := Option.map_eq_some_iff.mp hs
  obtain ⟨hworld, hrefs⟩ := note_world op { s with world := w' }
  cases hop : op.publication with
  | none =>
    refine setUp_quiet h hinv (hworld ▸ quiet_step hup hkeeps hop hw) (fun d r hr => h.typed d r (by rwa [hrefs] at hr)) ?_
    cases op <;> first | rfl | cases hup
  | some out =>
    cases op with
    | publishSyncQuery d id handler =>
      exact setUp_publishMessage ⟨.exported, .syncMono, id, []⟩ h hinv hw rfl rfl (Bool.not_eq_true' _ ▸ hup)
        (fun comp => ⟨rfl, rfl, rfl, rfl, fun _ hid => hid⟩) rfl fun himports => absurd himports Bool.false_ne_true
    | publishAsyncQuery d id handler executorOverride =>
      exact setUp_publishMessage ⟨.exported, .asyncMono, id, []⟩ h hinv hw rfl rfl (Bool.not_eq_true' _ ▸ hup)
        (fun comp => ⟨rfl, rfl, rfl, rfl, fun _ => handlers_store⟩) rfl fun himports => absurd himports Bool.false_ne_true
    | subscribeEvent d id handler =>
      refine setUp_publishMessage ⟨.imported, .asyncPoly, id, []⟩ h hinv hw rfl rfl (Bool.not_eq_true' _ ▸ hup)
        (fun comp => ⟨rfl, rfl, rfl, rfl, fun _ => handlers_store⟩) rfl fun _ => ⟨rfl, fun comp => ?_⟩
      change Function.update comp.asyncHandlers id (some handler) id ≠ none
      rw [Function.update_self]
      exact Option.some_ne_none handler
    | publishInterface d id impl =>
      simp only [setsUp, Bool.and_eq_true, List.contains_iff_mem, Bool.not_eq_true', List.isEmpty_iff] at hup
      obtain ⟨⟨⟨hid, hd⟩, hpublished⟩, hnew⟩ := hup
      exact setUp_publishInterface h hinv hw rfl rfl hid hd hpublished hnew
    | _ => cases hop

/-- A component looks up one more reference. -/
theorem setUp_lookup {f : ComponentRefs → ComponentRefs} (h : SetUp isInterface components s) (hinv : Inv s')
    (hs : s.updateRefs c f = some s') (htyped : ∀ r ∈ (f (s.refs c)).interfaceRefs, isInterface r.id = true) :
    SetUp isInterface components s' := by
  unfold updateRefs at hs
  split at hs
  · obtain rfl := Option.some.inj hs
    refine setUp_quiet h hinv (quiet_of_unharmed (Unharmed.refl _)) (fun d r hr => ?_) rfl
    by_cases hd : d = c
    · subst hd
      simp only [Function.update_self] at hr
      exact htyped r hr
    · simp only [Function.update_of_ne hd] at hr
      exact h.typed d r hr
  · cases hs

/-- One of a component's references resolves. -/
theorem setUp_resolve {refs : ComponentRefs} (h : SetUp isInterface components s)
    (hinv : Inv { s with world := w, refs := Function.update s.refs c refs }) (hunharmed : Unharmed s.world w)
    (hrefs : bareRefs refs = bareRefs (s.refs c)) :
    SetUp isInterface components { s with world := w, refs := Function.update s.refs c refs } := by
  refine setUp_resolved h hinv hunharmed (fun d => ?_) rfl
  by_cases hd : d = c
  · subst hd
    simp only [Function.update_self, hrefs]
  · simp only [Function.update_of_ne hd]

theorem setUp_step {a : DependencyAction} (h : SetUp isInterface components s) (hup : s.setsUp isInterface components a = true)
    (hs : s.step a = some s') : SetUp isInterface components s' := by
  have hinv := step_inv h.inv hs
  cases a with
  | construct c executor listener groupType => exact setUp_construct h hinv hs
  | world op => exact setUp_world h hup hs
  | lookupQuery c kind id =>
    exact setUp_lookup (f := fun refs => { refs with monoRefs := refs.monoRefs ++ [{ kind, id }] }) h hinv hs (h.typed c)
  | lookupEvent c id =>
    exact setUp_lookup (f := fun refs => { refs with polyRefs := refs.polyRefs ++ [{ id }] }) h hinv hs (h.typed c)
  | lookupInterface c id life =>
    exact setUp_lookup (f := fun refs => { refs with interfaceRefs := refs.interfaceRefs ++ [{ id, life }] }) h hinv hs
      (forall_mem_concat (h.typed c) hup)
  | resolveQuery c i =>
    obtain ⟨⟨refs, w⟩, hout, rfl⟩ := Option.map_eq_some_iff.mp hs
    have howner := owner_of_resolveAt h.inv ComponentRefs.monoRefs rfl hout
    obtain ⟨hunharmed, -⟩ := resolveAt_spec h.inv.atRest howner (h.inv.queries c) hout
    exact setUp_resolve h hinv hunharmed (by simp only [bareRefs, bare_resolveAt hout])
  | resolveEvent c i =>
    obtain ⟨⟨refs, w⟩, hout, rfl⟩ := Option.map_eq_some_iff.mp hs
    have howner := owner_of_resolveAt h.inv ComponentRefs.polyRefs rfl hout
    obtain ⟨hunharmed, -⟩ := resolveAt_spec h.inv.atRest howner (h.inv.events c) hout
    exact setUp_resolve h hinv hunharmed (by simp only [bareRefs, bare_resolveAt hout])
  | resolveInterface c i =>
    obtain ⟨⟨refs, w⟩, hout, rfl⟩ := Option.map_eq_some_iff.mp hs
    have howner := owner_of_resolveAt h.inv ComponentRefs.interfaceRefs rfl hout
    obtain ⟨hunharmed, -⟩ := resolveAt_spec h.inv.atRest howner (h.inv.interfaces c) hout
    exact setUp_resolve h hinv hunharmed (by simp only [bareRefs, bare_resolveAt hout])
  | describeDependencies c =>
    obtain ⟨⟨infos, s''⟩, hdescribe, rfl⟩ := Option.map_eq_some_iff.mp hs
    have hdescribed := describe_described h.inv hdescribe
    exact setUp_resolved h hinv hdescribed.unharmed hdescribed.refs hdescribed.earlier

theorem setUp_init : SetUp isInterface components init where
  inv := inv_init
  published _ _ _ h := nomatch h
  listed _ _ _ h := nomatch h
  noted _ _ := by simp [init, World.new, idsOf]
  checked _ h := nomatch h
  subscribed _ _ h := nomatch h
  typed _ _ h := nomatch h
  earlier _ := rfl

/-! ## What the checks find -/

/-- Every interface that can be looked up has been implemented, once its publisher's checks have passed. -/
theorem SetUp.implemented (h : SetUp isInterface components s) (hpublished : ∀ c ∈ components, (s.world.component c).published = true) :
    Implemented s.world := by
  intro id c impl hsole
  obtain ⟨-, -, himpl⟩ := sole_eq_some hsole
  obtain ⟨-, hc, -, hcheck⟩ := h.published id c impl himpl
  exact h.checked c (hpublished c hc) impl hcheck

/-- A reference to an interface resolves if and only if one of the components exports the interface. -/
theorem SetUp.resolves_iff (h : SetUp isInterface components s) (hpublished : ∀ c ∈ components, (s.world.component c).published = true)
    (owner : ComponentId) (r : LifetimeInterfaceRef) :
    Resolves owner s.world r ↔ r.id ∈ components.flatMap fun c => idsOf DependencyInfo.exportsInterface (bareInfos s c) := by
  have hexports : ∀ c, r.id ∈ idsOf DependencyInfo.exportsInterface (bareInfos s c) ↔ (s.world.component c).interfaces r.id ≠ none := by
    intro c
    refine (mem_idsOf_of_published (p := DependencyInfo.exportsInterface) (fun _ => rfl) ?_).trans (h.noted c r.id)
    intro info hinfo
    obtain ⟨htype, hdirection⟩ := of_decide_eq_true hinfo
    rw [DependencyInfo.isReference, htype, hdirection]
  rw [List.mem_flatMap]
  constructor
  · rintro ⟨c, impl, hsole, -⟩
    obtain ⟨-, -, himpl⟩ := sole_eq_some hsole
    refine ⟨c, (h.published r.id c impl himpl).2.1, (hexports c).mpr ?_⟩
    rw [show (s.world.component c).interfaces r.id = some impl from himpl]
    exact Option.some_ne_none impl
  · rintro ⟨c, -, hc⟩
    obtain ⟨impl, himpl⟩ := Option.ne_none_iff_exists'.mp ((hexports c).mp hc)
    obtain ⟨-, -, hlisted, -⟩ := h.published r.id c impl himpl
    have halive : s.world.alive c = true :=
      (alive_of_atRest h.inv.atRest).mpr (h.inv.listed r.id c (hlisted ▸ List.mem_singleton_self c))
    have hsole : s.world.sole Component.lookupInterface r.id = some (c, impl) := by
      rw [sole_of_receivers hlisted halive, Component.lookupInterface, himpl]
      rfl
    exact ⟨c, impl, hsole, h.implemented hpublished r.id c impl hsole⟩

/-- A subscription of a component is reached through whatever reference sends the event. -/
theorem SetUp.reaches (h : SetUp isInterface components s) {id : MessageId}
    (hid : id ∈ idsOf DependencyInfo.importsEvent (s.world.component c).publishedDependencies) (owner : ComponentId) (r : EventRef)
    (hr : r.id = id) : c ∈ DependencyRef.reaches owner s.world r := by
  obtain ⟨hlisted, hhandler⟩ := h.subscribed c id hid
  obtain ⟨handler, hhandler⟩ := Option.ne_none_iff_exists'.mp hhandler
  have halive : s.world.alive c = true := (alive_of_atRest h.inv.atRest).mpr (h.inv.listed id c hlisted)
  refine List.mem_map.mpr ⟨⟨c, handler, decide ((s.world.component c).defaultExecutor = (s.world.component owner).defaultExecutor)⟩,
    List.mem_filterMap.mpr ⟨c, List.mem_filter.mpr ⟨hr ▸ hlisted, halive⟩, ?_⟩, rfl⟩
  rw [World.receiverHandler, Component.lookupAsyncHandler, hr, hhandler]
  rfl

/-- The subscriptions of a component are those it has made since it was constructed. -/
theorem SetUp.mem_importsEvent (h : SetUp isInterface components s) {id : MessageId} :
    id ∈ idsOf DependencyInfo.importsEvent (s.world.component c).publishedDependencies ↔
      ∃ info ∈ s.current c, info.importsEvent = true ∧ info.msgInfo = id := by
  obtain ⟨groupType, hgroup⟩ := h.inv.published c
  rw [hgroup, h.earlier, List.nil_append, idsOf_append, idsOf_groupInfo (p := DependencyInfo.importsEvent) fun _ => rfl, List.nil_append]
  simp only [idsOf, List.mem_map, List.mem_filter, and_assoc]

theorem SetUp.connected_iff (h : SetUp isInterface components s) :
    s.EventsConnected components ↔
      (components.flatMap fun c => idsOf DependencyInfo.exportsEvent (bareInfos s c)).Nodup ∧
        ∀ c ∈ components, ∀ id ∈ idsOf DependencyInfo.importsEvent (bareInfos s c),
          id ∈ components.flatMap fun c => idsOf DependencyInfo.exportsEvent (bareInfos s c) := by
  have himports : ∀ c id, id ∈ idsOf DependencyInfo.importsEvent (bareInfos s c) ↔
      id ∈ idsOf DependencyInfo.importsEvent (s.world.component c).publishedDependencies := by
    intro c id
    refine mem_idsOf_of_published (p := DependencyInfo.importsEvent) (fun _ => rfl) fun info hinfo => ?_
    obtain ⟨htype, hdirection⟩ := of_decide_eq_true hinfo
    rw [DependencyInfo.isReference, htype, hdirection]
  simp only [himports, idsOf_exportsEvent h.inv]
  constructor
  · rintro ⟨hsenders, hreached⟩
    refine ⟨hsenders, fun c hc id hid => ?_⟩
    obtain ⟨info, hinfo, himported, rfl⟩ := h.mem_importsEvent.mp hid
    obtain ⟨d, hd, r, hr, heq, -⟩ := hreached c hc info hinfo himported
    exact List.mem_flatMap.mpr ⟨d, hd, List.mem_map.mpr ⟨r, hr, heq⟩⟩
  · rintro ⟨hsenders, hexported⟩
    refine ⟨hsenders, fun c hc info hinfo himported => ?_⟩
    have hid := h.mem_importsEvent.mpr ⟨info, hinfo, himported, rfl⟩
    obtain ⟨d, hd, hmem⟩ := List.mem_flatMap.mp (hexported c hc info.msgInfo hid)
    obtain ⟨r, hr, heq⟩ := List.mem_map.mp hmem
    exact ⟨d, hd, r, hr, heq, h.reaches hid d r heq⟩

/-- A component's references that nobody exports for are those that do not resolve. -/
theorem SetUp.unresolved (h : SetUp isInterface components s) (hpublished : ∀ c ∈ components, (s.world.component c).published = true) :
    (components.flatMap fun c => ((idsOf DependencyInfo.importsInterface (bareInfos s c)).filter fun id =>
        !(components.flatMap fun c => idsOf DependencyInfo.exportsInterface (bareInfos s c)).contains id).map (MissingDependency.mk c)) =
      s.unresolved components := by
  refine List.flatMap_congr fun c _ => ?_
  rw [idsOf_importsInterface h.inv, List.filter_map, List.map_map]
  congr 1
  refine List.filter_congr fun r _ => ?_
  rw [Function.comp_apply, Bool.eq_iff_iff, Bool.not_eq_true', ← Bool.not_eq_true, List.contains_iff_mem, decide_eq_true_eq,
    h.resolves_iff hpublished]

theorem unresolved_eq_nil_iff (s : DependencyState) (components : List ComponentId) :
    s.unresolved components = [] ↔ ∀ c ∈ components, ∀ r ∈ (s.refs c).interfaceRefs, Resolves c s.world r := by
  simp only [DependencyState.unresolved, List.flatMap_eq_nil_iff, List.map_eq_nil_iff, List.filter_eq_nil_iff, decide_eq_true_eq, not_not]

end CompositionRootAux

open CompositionRootAux DependenciesAux

section Checks

variable {isInterface : MessageId → Bool} {components : List ComponentId} {acts : List DependencyAction} {s : DependencyState}

/-- Once all components of an application have been published, `get_missing_dependencies` returns the references to interfaces that
would not resolve, those and no others, component by component in the order they were looked up; and `verify_dependencies` is true
exactly when all of them would. Neither aborts. -/
theorem missingDependencies_unresolved (hs : run DependencyState.step DependencyState.init acts = some s)
    (hup : AllSteps DependencyState.step (fun s a => s.setsUp isInterface components a = true) DependencyState.init acts)
    (hpublished : ∀ c ∈ components, (s.world.component c).published = true) :
    ∃ s', s.getMissingDependencies components = some (s.unresolved components, s') ∧
      s.verifyDependencies components =
        some (decide (∀ c ∈ components, ∀ r ∈ (s.refs c).interfaceRefs, DependencyRef.Resolves c s.world r), s') := by
  have h : SetUp isInterface components s := hup.run_invariant (fun _ _ _ => setUp_step) setUp_init hs
  obtain ⟨s₁, hexported, hall⟩ := collectExportedInterfaces_spec components s [] h.inv (h.implemented hpublished)
  obtain ⟨s', hmissing, -⟩ := collectMissingDependencies_spec _ components s₁ [] hall.inv hall.implemented
  simp only [List.nil_append, hall.bareInfos] at hexported hmissing
  rw [h.unresolved hpublished] at hmissing
  have hget : s.getMissingDependencies components = some (s.unresolved components, s') := by
    rw [DependencyState.getMissingDependencies, hexported]
    exact hmissing
  refine ⟨s', hget, ?_⟩
  rw [DependencyState.verifyDependencies, hget, Option.map_some]
  refine congrArg some (Prod.ext ?_ rfl)
  rw [Bool.eq_iff_iff, List.isEmpty_iff, decide_eq_true_eq, unresolved_eq_nil_iff]

/-- An application of two components, one of which has published one of the interfaces that the other has looked up. Interfaces have ids
below 10, and messages the others. -/
def twoComponents : List DependencyAction :=
  [.construct 1 0 none none, .construct 2 0 none none, .lookupInterface 2 7 ⟨0, 0⟩, .lookupInterface 2 8 ⟨0, 0⟩, .lookupEvent 2 17,
    .world (.publishInterface 1 7 70), .world (.implement 70), .world (.subscribeEvent 1 17 170), .world (.publishDependencies 1),
    .world (.publishDependencies 2)]

theorem missingDependencies_unresolved_one : ∃ s s', run DependencyState.step DependencyState.init twoComponents = some s ∧
    s.getMissingDependencies [1, 2] = some ([⟨2, 8⟩], s') ∧ s.verifyDependencies [1, 2] = some (false, s') := by
  obtain ⟨s, hs⟩ : ∃ s, run DependencyState.step DependencyState.init twoComponents = some s := ⟨_, rfl⟩
  obtain ⟨s', hmissing, hverify⟩ := @missingDependencies_unresolved (fun id => decide (id < 10)) [1, 2] twoComponents s hs
    (by decide) (by cases hs; decide)
  refine ⟨s, s', hs, hmissing.trans ?_, hverify.trans ?_⟩
  · cases hs
    rfl
  · cases hs
    rfl

/-- Once all components of an application have been published, `events_are_fulfilled` is true exactly when no two of their references send
the same event, and every subscription of theirs is reached through one. It does not abort. -/
theorem eventsAreFulfilled_iff (hs : run DependencyState.step DependencyState.init acts = some s)
    (hup : AllSteps DependencyState.step (fun s a => s.setsUp isInterface components a = true) DependencyState.init acts)
    (hpublished : ∀ c ∈ components, (s.world.component c).published = true) :
    ∃ fulfilled s', s.eventsAreFulfilled components = some (fulfilled, s') ∧ (fulfilled = true ↔ s.EventsConnected components) := by
  have h : SetUp isInterface components s := hup.run_invariant (fun _ _ _ => setUp_step) setUp_init hs
  obtain ⟨s₁, hall, hcollect⟩ := collectEvents_spec components s [] h.inv (h.implemented hpublished) List.nodup_nil
  obtain ⟨s', hcheck⟩ := checkEvents_spec (components.flatMap fun c => idsOf DependencyInfo.exportsEvent (bareInfos s c)) components s₁
    hall.inv hall.implemented
  simp only [List.nil_append, hall.bareInfos] at hcollect hcheck
  rw [h.connected_iff, DependencyState.eventsAreFulfilled, hcollect, Option.bind_some]
  by_cases hnodup : (components.flatMap fun c => idsOf DependencyInfo.exportsEvent (bareInfos s c)).Nodup
  · simp only [if_pos hnodup, hcheck]
    exact ⟨_, s', rfl, by rw [decide_eq_true_eq, and_iff_right hnodup]⟩
  · exact ⟨false, s₁, by simp only [if_neg hnodup], by simp [hnodup]⟩

theorem eventsAreFulfilled_iff_connected : ∃ s s', run DependencyState.step DependencyState.init twoComponents = some s ∧
    s.EventsConnected [1, 2] ∧ s.eventsAreFulfilled [1, 2] = some (true, s') := by
  obtain ⟨s, hs⟩ : ∃ s, run DependencyState.step DependencyState.init twoComponents = some s := ⟨_, rfl⟩
  obtain ⟨fulfilled, s', heq, hiff⟩ := @eventsAreFulfilled_iff (fun id => decide (id < 10)) [1, 2] twoComponents s hs
    (by decide) (by cases hs; decide)
  have hconnected : s.EventsConnected [1, 2] := by
    cases hs
    exact ⟨by decide, by decide⟩
  exact ⟨s, s', hs, hconnected, hiff.mpr hconnected ▸ heq⟩

end Checks

end Minicomps
