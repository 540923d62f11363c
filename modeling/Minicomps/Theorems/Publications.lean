import Minicomps.Publications
import Minicomps.Theorems.Event
import Minicomps.Theorems.MonoRef
import Minicomps.Theorems.PolyRef

/-!
# How often a component is listed

A live component is listed under a message as often as it has published it, as whatever, since it was last unpublished: every
publication adds an entry, unpublishing takes all entries of the component away, and what else changes a list takes entries of dead
components only. So a message that its only publisher has published twice cannot be looked up, and an event reaches a subscriber
once for each of its publications.
-/

namespace Minicomps

open Transition

namespace PublicationState

variable {ρ : Type*} {s : PublicationState ρ} {id : MessageId} {c : ComponentId} {w w' : World}
  {publications : ComponentId → MessageId → List PublicationKind}

namespace PublicationAux

/-- The component has a handler of the kind for the message. -/
def has (comp : Component) (id : MessageId) : PublicationKind → Bool
  | .sync => (comp.syncHandlers id).isSome
  | .async | .event => (comp.asyncHandlers id).isSome

/-- A live component is listed as often as it has published the message, and every component has the handlers it has published. -/
structure Counted (w : World) (publications : ComponentId → MessageId → List PublicationKind) : Prop where
  count : ∀ c id, w.alive c = true → (w.broker.receivers id).count c = (publications c id).length
  handlers : ∀ c id, ∀ kind ∈ publications c id, has (w.component c) id kind = true

theorem has_of_sameAt {a b : Component} (h : a.SameAt id b) (kind : PublicationKind) : has b id kind = has a id kind := by
  cases kind <;> simp [has, h.syncHandlers, h.asyncHandlers]

/-- Dropping strong pointers takes away entries of components that are dead by then only. -/
theorem counted_drops (h : Counted w publications) (hd : w.Drops w') : Counted w' publications where
  count c id hc := by
    rw [← List.count_filter (p := w'.alive) hc, hd.live id, List.count_filter hc, h.count c id (hd.alive_le c hc)]
  handlers c id kind hk := by
    rw [has_of_sameAt (hd.sameAt id c)]
    exact h.handlers c id kind hk

/-- A change that keeps all members of all lists, all handlers, and who is alive. -/
theorem counted_congr (h : Counted w publications) (halive : w'.alive = w.alive)
    (hreceivers : ∀ id, w'.broker.receivers id = w.broker.receivers id)
    (hhas : ∀ c id kind, has (w.component c) id kind = true → has (w'.component c) id kind = true) : Counted w' publications where
  count c id hc := by
    rw [hreceivers, h.count c id (halive ▸ hc)]
  handlers c id kind hk := hhas c id kind (h.handlers c id kind hk)

theorem add_self (kind : PublicationKind) : add publications c id kind c id = publications c id ++ [kind] := by
  simp [add]

theorem add_of_ne {d : ComponentId} {id' : MessageId} (kind : PublicationKind) (h : ¬(d = c ∧ id' = id)) :
    add publications c id kind d id' = publications d id' := by
  by_cases hd : d = c
  · subst hd
    have hid : id' ≠ id := fun heq => h ⟨rfl, heq⟩
    simp [add, hid]
  · simp [add, hd]

/-- A live component publishes a message: it is listed once more, and has the handler. -/
theorem counted_publish (h : Counted w publications) {kind : PublicationKind} {f : Component → Component}
    (hs : w.publish c id f = some w') (hnew : ∀ comp, has (f comp) id kind = true)
    (hold : ∀ comp id' kind', has comp id' kind' = true → has (f comp) id' kind' = true) :
    Counted w' (add publications c id kind) := by
  unfold World.publish at hs
  split at hs
  · obtain rfl := Option.some.inj hs
    obtain ⟨-, -, hreceivers, hothers⟩ := Broker.associate_spec w.broker id c
    refine ⟨?_, ?_⟩
    · intro d id' hd
      change ((w.broker.associate id c).receivers id').count d = _
      by_cases hid : id' = id
      · subst hid
        rw [hreceivers, List.count_append, h.count d id' hd]
        by_cases hdc : d = c
        · subst hdc
          rw [add_self, List.length_append, List.count_singleton_self, List.length_singleton]
        · rw [add_of_ne kind (fun heq => hdc heq.1), List.count_singleton, if_neg (by simpa using Ne.symm hdc), Nat.add_zero]
      · rw [Broker.receivers_of_untouched (Broker.associate_spec ..).1 (hothers id' hid), h.count d id' hd,
          add_of_ne kind (fun heq => hid heq.2)]
    · intro d id' kind' hk
      by_cases hd : d = c
      · subst hd
        rw [World.component_update_self]
        by_cases hid : id' = id
        · subst hid
          rw [add_self, List.mem_append, List.mem_singleton] at hk
          rcases hk with hk | rfl
          · exact hold _ _ _ (h.handlers d id' kind' hk)
          · exact hnew _
        · rw [add_of_ne kind (fun heq => hid heq.2)] at hk
          exact hold _ _ _ (h.handlers d id' kind' hk)
      · rw [World.component_update_of_ne _ _ hd]
        rw [add_of_ne kind (fun heq => hd heq.1)] at hk
        exact h.handlers d id' kind' hk
  · cases hs

/-- A component is unpublished: it is listed nowhere any more. -/
theorem counted_unpublish (h : Counted w publications) (c : ComponentId) :
    Counted (w.unpublishDependencies c) (Function.update publications c fun _ => []) := by
  obtain ⟨-, hreceivers, -⟩ := World.broker_disassociateEverything w c
  refine ⟨?_, ?_⟩
  · intro d id hd
    have hlist : (w.unpublishDependencies c).broker.receivers id = Broker.keepOthers w.alive c (w.broker.receivers id) :=
      hreceivers id
    have halive : w.alive d = true := hd
    rw [hlist, Broker.keepOthers]
    by_cases hdc : d = c
    · subst hdc
      rw [Function.update_self, List.length_nil, List.count_eq_zero]
      intro hmem
      have := (List.mem_filter.mp hmem).2
      simp at this
    · rw [Function.update_of_ne hdc, List.count_filter (by simp [halive, hdc]), h.count d id halive]
  · intro d id kind hk
    by_cases hdc : d = c
    · subst hdc
      rw [Function.update_self] at hk
      cases hk
    · rw [Function.update_of_ne hdc] at hk
      rw [World.unpublishDependencies, World.component_update_of_ne _ _ hdc]
      exact h.handlers d id kind hk

/-- A table of handlers that has had one more stored has one wherever it had one. -/
theorem isSome_store {handlers : MessageId → Option HandlerId} {id id' : MessageId} {handler : HandlerId}
    (h : (handlers id').isSome = true) : (Function.update handlers id (some handler) id').isSome = true := by
  by_cases hid : id' = id
  · simp [hid]
  · rwa [Function.update_of_ne hid]

/-- A world operation keeps the counts. -/
theorem counted_world (h : Counted w publications) {a : PublicationAction} {op : WorldOp} (ha : refAction a = .world op)
    (hs : w.step op = some w') : Counted w' (publish publications a) := by
  cases a with
  | publishSyncQuery c id handler =>
    cases ha
    refine counted_publish h hs ?_ ?_
    · intro comp
      simp [has, Component.pushDependency]
    · intro comp id' kind hk
      cases kind with
      | sync => exact isSome_store hk
      | async | event => exact hk
  | publishAsyncQuery c id handler executorOverride =>
    cases ha
    refine counted_publish h hs ?_ ?_
    · intro comp
      simp [has, Component.pushDependency]
    · intro comp id' kind hk
      cases kind with
      | sync => exact hk
      | async | event => exact isSome_store hk
  | subscribeEvent c id handler =>
    cases ha
    refine counted_publish h hs ?_ ?_
    · intro comp
      simp [has, Component.pushDependency]
    · intro comp id' kind hk
      cases kind with
      | sync => exact hk
      | async | event => exact isSome_store hk
  | publishDependencies c =>
    cases ha
    simp only [World.step, World.publishDependencies] at hs
    split at hs
    · obtain rfl := Option.some.inj hs
      refine counted_congr h rfl (fun _ => rfl) ?_
      intro d id kind hk
      rw [has_of_sameAt (World.sameAt_update (f := fun comp => { comp with published := true })
        (fun comp => ⟨rfl, rfl, rfl, rfl, rfl⟩) d)]
      exact hk
    · cases hs
  | unpublishDependencies c =>
    cases ha
    obtain rfl := Option.some.inj hs
    exact counted_unpublish h c
  | acquire c =>
    cases ha
    obtain rfl := Option.some.inj hs
    split
    · rename_i hc
      refine counted_congr h ?_ (fun _ => rfl) fun _ _ _ hk => hk
      funext d
      by_cases hd : d = c
      · subst hd
        rw [hc]
        simp only [World.alive, Function.update_self, decide_eq_true_eq]
        omega
      · simp [World.alive, hd]
    · exact h
  | release c =>
    cases ha
    obtain rfl := Option.some.inj hs
    exact counted_drops h (World.drops_release w c)
  | brokerLookup id =>
    cases ha
    obtain rfl := Option.some.inj hs
    exact counted_congr h rfl (Broker.receivers_lookup w.broker id) fun _ _ _ hk => hk
  | lookup lost => cases ha

section Mono

variable {kind : QueryKind} {owner : ComponentId} {lost : ComponentId → List ComponentId}

end Mono

section Poly

variable {owner : ComponentId} {lost : ComponentId → List ComponentId}

end Poly

end PublicationAux

open PublicationAux

/-- A step of a world and a reference keeps what holds of both, where a lookup keeps the counts. -/
theorem inv_step {Sound : RefState ρ → Prop} {refStep : RefState ρ → RefAction → Option (RefState ρ)}
    (hsound : ∀ r r' a, Sound r → refStep r a = some r' → Sound r')
    (hworld : ∀ r r' op, refStep r (.world op) = some r' → r.world.step op = some r'.world)
    (hlookup : ∀ r r' lost publications, Sound r → Counted r.world publications → refStep r (.lookup lost) = some r' →
      Counted r'.world publications)
    {s s' : PublicationState ρ} {a : PublicationAction} (h : Sound s.state ∧ Counted s.state.world s.publications)
    (hs : step refStep s a = some s') : Sound s'.state ∧ Counted s'.state.world s'.publications := by
  obtain ⟨r, hr, rfl⟩ := Option.map_eq_some_iff.mp hs
  refine ⟨hsound _ _ _ h.1 hr, ?_⟩
  by_cases hop : ∃ op, refAction a = .world op
  · obtain ⟨op, hop⟩ := hop
    rw [hop] at hr
    exact counted_world h.2 hop (hworld _ _ _ hr)
  · cases a with
    | lookup lost => exact hlookup _ _ _ _ h.1 h.2 hr
    | publishSyncQuery | publishAsyncQuery | subscribeEvent | publishDependencies | unpublishDependencies | acquire | release
      | brokerLookup => exact absurd ⟨_, rfl⟩ hop

end PublicationState

end Minicomps
