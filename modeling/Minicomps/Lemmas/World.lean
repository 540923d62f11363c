import Minicomps.Component

/-!
# What happens to a world, said once

`Drops` is what dropping strong pointers does: components may go, and the lists lose members that cannot be locked any more.
`Frame` is what any operation leaves alone, seen from one message: unless the message got a new list, its receivers and their
tables under it are as they were. Both are reflexive and transitive; every operation of `World.step` is a `Frame`, and each
release is a `Drops`.
-/

namespace Minicomps

/-- Two states of a component that a reference to the message cannot tell apart. -/
structure Component.SameAt (id : MessageId) (a b : Component) : Prop where
  defaultExecutor : b.defaultExecutor = a.defaultExecutor
  syncHandlers : b.syncHandlers id = a.syncHandlers id
  asyncHandlers : b.asyncHandlers id = a.asyncHandlers id
  interfaces : b.interfaces id = a.interfaces id
  asyncExecutorOverrides : b.asyncExecutorOverrides id = a.asyncExecutorOverrides id

theorem Component.SameAt.refl (id : MessageId) (a : Component) : a.SameAt id a := ⟨rfl, rfl, rfl, rfl, rfl⟩

theorem Component.SameAt.trans {id : MessageId} {a b c : Component} (h : a.SameAt id b) (h' : b.SameAt id c) :
    a.SameAt id c where
  defaultExecutor := h'.defaultExecutor.trans h.defaultExecutor
  syncHandlers := h'.syncHandlers.trans h.syncHandlers
  asyncHandlers := h'.asyncHandlers.trans h.asyncHandlers
  interfaces := h'.interfaces.trans h.interfaces
  asyncExecutorOverrides := h'.asyncExecutorOverrides.trans h.asyncExecutorOverrides

/-- A message that got a new list has lost the one it had. -/
theorem Broker.Renewed.find_ne {b b' : Broker} {id : MessageId} (h : b.Renewed b' id) {l : ListId}
    (hl : b.activeLookups.find id = some l) : b'.activeLookups.find id ≠ some l := by
  obtain ⟨l', hl', hle⟩ := h
  intro hkeep
  have heq : l' = l := Option.some.inj (hl'.symm.trans hkeep)
  exact absurd (CellStore.find_lt hl) (Nat.not_lt.mpr (heq ▸ hle))

namespace World

@[simp] theorem component_update_self (w : World) (c : ComponentId) (f : Component → Component) :
    (w.update c f).component c = f (w.component c) := by
  simp [update]

@[simp] theorem component_update_of_ne (w : World) {c d : ComponentId} (f : Component → Component) (h : d ≠ c) :
    (w.update c f).component d = w.component d := by
  simp [update, h]

@[simp] theorem alive_disassociateEverything (w : World) (c : ComponentId) :
    (w.disassociateEverything c).alive = w.alive := rfl

/-- A change of one component that a reference to the message cannot see. -/
theorem sameAt_update {w : World} {id : MessageId} {c : ComponentId} {f : Component → Component}
    (hf : ∀ comp, Component.SameAt id comp (f comp)) (d : ComponentId) :
    (w.component d).SameAt id ((w.update c f).component d) := by
  by_cases h : d = c
  · subst h
    rw [component_update_self]
    exact hf _
  · rw [component_update_of_ne w f h]
    exact Component.SameAt.refl id _

theorem lock_of_alive {w : World} {c : ComponentId} (h : w.alive c = true) : w.lock c = some c := by
  simp [lock, h]

theorem lock_eq_some_iff {w : World} {c d : ComponentId} : w.lock c = some d ↔ d = c ∧ w.alive c = true := by
  unfold lock
  split
  · rename_i halive
    exact ⟨fun h => ⟨(Option.some.inj h).symm, halive⟩, fun h => congrArg some h.1.symm⟩
  · rename_i hdead
    exact ⟨fun h => (by cases h), fun h => absurd h.2 hdead⟩

theorem lock_of_dead {w : World} {c : ComponentId} (h : w.alive c = false) : w.lock c = none := by
  simp [lock, h]

theorem alive_of_cached {w : World} {c : ComponentId} (h : 0 < w.cached c) : w.alive c = true := by
  simp only [alive, decide_eq_true_eq]
  omega

/-! ## Dropping strong pointers -/

/-- `w'` is `w` after strong pointers were dropped, and destructors run. -/
structure Drops (w w' : World) : Prop where
  extends_ : w.broker.Extends w'.broker
  sameAt : ∀ id c, (w.component c).SameAt id (w'.component c)
  alive_le : ∀ c, w'.alive c = true → w.alive c = true
  sublist : ∀ id, (w'.broker.receivers id).Sublist (w.broker.receivers id)
  live : ∀ id, (w'.broker.receivers id).filter w'.alive = (w.broker.receivers id).filter w'.alive
  implemented : w'.implemented = w.implemented

theorem Drops.refl (w : World) : w.Drops w where
  extends_ := Broker.Extends.refl _
  sameAt id _ := Component.SameAt.refl id _
  alive_le _ h := h
  sublist _ := List.Sublist.refl _
  live _ := rfl
  implemented := rfl

/-- Two tests one of which implies the other filter like the stronger one. -/
theorem filter_filter_of_le {p q : ComponentId → Bool} (h : ∀ c, q c = true → p c = true) (xs : List ComponentId) :
    (xs.filter p).filter q = xs.filter q := by
  rw [List.filter_filter]
  congr 1
  funext c
  cases hq : q c with
  | false => simp
  | true => simp [h c hq]

theorem Drops.trans {w w' w'' : World} (h : w.Drops w') (h' : w'.Drops w'') : w.Drops w'' where
  extends_ := h.extends_.trans h'.extends_
  sameAt id c := (h.sameAt id c).trans (h'.sameAt id c)
  alive_le c hc := h.alive_le c (h'.alive_le c hc)
  sublist id := (h'.sublist id).trans (h.sublist id)
  live id := by
    rw [h'.live id, ← filter_filter_of_le h'.alive_le, h.live id, filter_filter_of_le h'.alive_le]
  implemented := h'.implemented.trans h.implemented

/-- Fewer strong pointers, and nothing else. -/
theorem drops_of_counts {w : World} (others cached : ComponentId → Nat)
    (h : ∀ c, others c + cached c ≤ w.others c + w.cached c) :
    w.Drops { w with others := others, cached := cached } where
  extends_ := Broker.Extends.refl _
  sameAt id _ := Component.SameAt.refl id _
  alive_le c hc := by
    have := h c
    simp only [alive, decide_eq_true_eq] at hc ⊢
    omega
  sublist _ := List.Sublist.refl _
  live _ := rfl
  implemented := rfl

/-- The broker after `disassociate_everything`. -/
theorem broker_disassociateEverything (w : World) (c : ComponentId) :
    w.broker.Extends (w.disassociateEverything c).broker ∧
      (∀ id, (w.disassociateEverything c).broker.receivers id = Broker.keepOthers w.alive c (w.broker.receivers id)) ∧
      ∀ id, (w.broker.activeLookups.find id).isSome → w.broker.Renewed (w.disassociateEverything c).broker id := by
  obtain ⟨b, hb, hext, hrec, hren, -⟩ := Broker.disassociateEverything_spec w.alive w.broker c
  simp only [disassociateEverything, hb, Option.getD_some]
  exact ⟨hext, hrec, hren⟩

/-- Taking a component that cannot be locked any more out of every list drops nothing that can. -/
theorem drops_disassociateEverything {w : World} {c : ComponentId} (hc : w.alive c = false) :
    w.Drops (w.disassociateEverything c) := by
  obtain ⟨hext, hrec, -⟩ := broker_disassociateEverything w c
  refine ⟨hext, fun id d => Component.SameAt.refl id _, fun _ h => h, ?_, ?_, rfl⟩
  · intro id
    rw [hrec]
    exact List.filter_sublist
  · intro id
    rw [hrec, Broker.keepOthers, alive_disassociateEverything, filter_filter_of_le]
    intro d hd
    have hne : d ≠ c := fun h => by rw [h, hc] at hd; cases hd
    simp [hd, hne]

theorem drops_update {w : World} {c : ComponentId} {f : Component → Component}
    (hf : ∀ id comp, Component.SameAt id comp (f comp)) : w.Drops (w.update c f) where
  extends_ := Broker.Extends.refl _
  sameAt id d := sameAt_update (hf id) d
  alive_le _ h := h
  sublist _ := List.Sublist.refl _
  live _ := rfl
  implemented := rfl

/-- The published flag is nothing a reference sees. -/
theorem drops_published (w : World) (c : ComponentId) (v : Bool) :
    w.Drops (w.update c fun comp => { comp with published := v }) :=
  drops_update fun _ _ => ⟨rfl, rfl, rfl, rfl, rfl⟩

theorem drops_unpublishDependencies {w : World} {c : ComponentId} (hc : w.alive c = false) :
    w.Drops (w.unpublishDependencies c) :=
  (drops_disassociateEverything hc).trans (drops_published _ c false)

theorem drops_dropped (w : World) (c : ComponentId) : w.Drops (w.dropped c) := by
  unfold dropped
  split
  · exact Drops.refl w
  · rename_i hc
    unfold destruct
    split
    · exact drops_unpublishDependencies (by simpa using hc)
    · exact Drops.refl w

theorem drops_release (w : World) (c : ComponentId) : w.Drops (w.release c) := by
  unfold release
  split
  · exact Drops.refl w
  · refine (drops_of_counts _ _ ?_).trans (drops_dropped _ c)
    intro d
    by_cases h : d = c
    · subst h
      simp only [Function.update_self]
      omega
    · simp [h]

theorem drops_foldl_release (lost : List ComponentId) : ∀ w : World, w.Drops (lost.foldl release w) := by
  induction lost with
  | nil => exact Drops.refl
  | cons c lost ih => exact fun w => (drops_release w c).trans (ih _)

theorem drops_unpin (lost : ComponentId → List ComponentId) (w : World) (c : ComponentId) : w.Drops (w.unpin lost c) := by
  have hcount : w.Drops { w with cached := Function.update w.cached c (w.cached c - 1) } := by
    refine drops_of_counts w.others _ ?_
    intro d
    by_cases h : d = c
    · subst h
      simp only [Function.update_self]
      omega
    · simp [h]
  simp only [unpin]
  split
  · exact hcount
  · rename_i hdead
    have hdestruct := drops_dropped { w with cached := Function.update w.cached c (w.cached c - 1) } c
    rw [dropped, if_neg hdead] at hdestruct
    exact (hcount.trans hdestruct).trans (drops_foldl_release (lost c) _)

/-! ### The reference's own pointers are dropped by nobody else -/

theorem cached_destruct (w : World) (c : ComponentId) : (w.destruct c).cached = w.cached := by
  unfold destruct
  split <;> rfl

theorem cached_dropped (w : World) (c : ComponentId) : (w.dropped c).cached = w.cached := by
  unfold dropped
  split
  · rfl
  · exact cached_destruct w c

theorem cached_release (w : World) (c : ComponentId) : (w.release c).cached = w.cached := by
  unfold release
  split
  · rfl
  · exact cached_dropped _ c

theorem cached_foldl_release (lost : List ComponentId) : ∀ w : World, (lost.foldl release w).cached = w.cached := by
  induction lost with
  | nil => exact fun _ => rfl
  | cons c lost ih => exact fun w => (ih _).trans (cached_release w c)

theorem cached_unpin (lost : ComponentId → List ComponentId) (w : World) (c : ComponentId) :
    (w.unpin lost c).cached = Function.update w.cached c (w.cached c - 1) := by
  simp only [unpin]
  split
  · rfl
  · rw [cached_foldl_release, cached_destruct]

/-- Taking a pointer to a component that can be locked changes nothing but the count. -/
theorem alive_pin {w : World} {c : ComponentId} (hc : w.alive c = true) : (w.pin c).alive = w.alive := by
  funext d
  by_cases h : d = c
  · subst h
    simp only [alive, pin, Function.update_self, decide_eq_true_eq] at hc ⊢
    simp only [hc, decide_true, decide_eq_true_eq]
    omega
  · simp [alive, pin, h]

theorem drops_pin {w : World} {c : ComponentId} (hc : w.alive c = true) : w.Drops (w.pin c) where
  extends_ := Broker.Extends.refl _
  sameAt id _ := Component.SameAt.refl id _
  alive_le d h := by rwa [alive_pin hc] at h
  sublist _ := List.Sublist.refl _
  live _ := rfl
  implemented := rfl

theorem drops_repin (lost : ComponentId → List ComponentId) {w : World} (old : Option ComponentId) {new : Option ComponentId}
    (hnew : ∀ c, new = some c → w.alive c = true) : w.Drops (w.repin lost old new) := by
  have hpin : w.Drops (w.pinSome new) := by
    cases new with
    | none => exact Drops.refl w
    | some c => exact drops_pin (hnew c rfl)
  refine hpin.trans ?_
  cases old with
  | none => exact Drops.refl _
  | some c => exact drops_unpin lost _ c

theorem cached_pinSome (w : World) (new : Option ComponentId) (c : ComponentId) :
    (w.pinSome new).cached c = w.cached c + if new = some c then 1 else 0 := by
  cases new with
  | none => simp [pinSome]
  | some d =>
    by_cases h : c = d
    · subst h
      simp [pinSome, pin]
    · simp [pinSome, pin, h, Ne.symm h]

theorem cached_unpinSome (lost : ComponentId → List ComponentId) (w : World) (old : Option ComponentId) (c : ComponentId) :
    (w.unpinSome lost old).cached c = w.cached c - if old = some c then 1 else 0 := by
  cases old with
  | none => simp [unpinSome]
  | some d =>
    rw [unpinSome, cached_unpin]
    by_cases h : c = d
    · subst h
      simp
    · simp [h, Ne.symm h]

/-- The reference holds one strong pointer, or none. -/
def Holds (w : World) (receiver : Option ComponentId) : Prop := ∀ c, w.cached c = if receiver = some c then 1 else 0

theorem holds_repin (lost : ComponentId → List ComponentId) {w : World} {old : Option ComponentId} (h : w.Holds old)
    (new : Option ComponentId) : (w.repin lost old new).Holds new := by
  intro c
  rw [repin, cached_unpinSome, cached_pinSome, h c]
  omega

/-! ## Every operation, seen from one message -/

/-- `w'` is `w` after some operations: what a reference to the message may still rely on. -/
structure Frame (id : MessageId) (w w' : World) : Prop where
  extends_ : w.broker.Extends w'.broker
  alive_le : ∀ c, w'.alive c = true → w.alive c = true
  defaultExecutor : ∀ c, (w'.component c).defaultExecutor = (w.component c).defaultExecutor
  /-- As long as the message keeps its list, no table changes under it. -/
  sameAt : ∀ l, w.broker.activeLookups.find id = some l → w'.broker.activeLookups.find id = some l →
    ∀ c, (w.component c).SameAt id (w'.component c)

theorem Drops.frame {w w' : World} (h : w.Drops w') (id : MessageId) : Frame id w w' where
  extends_ := h.extends_
  alive_le := h.alive_le
  defaultExecutor c := (h.sameAt id c).defaultExecutor
  sameAt _ _ _ := h.sameAt id

theorem Frame.trans {id : MessageId} {w w' w'' : World} (h : Frame id w w') (h' : Frame id w' w'') : Frame id w w'' where
  extends_ := h.extends_.trans h'.extends_
  alive_le c hc := h.alive_le c (h'.alive_le c hc)
  defaultExecutor c := (h'.defaultExecutor c).trans (h.defaultExecutor c)
  sameAt l hl hl'' c := by
    have hl' := h'.extends_.find_of_lt (Nat.lt_of_lt_of_le (CellStore.find_lt hl) h.extends_.next_le) hl''
    exact (h.sameAt l hl hl' c).trans (h'.sameAt l hl' hl'' c)

/-- A change of the broker alone. -/
theorem frame_broker {id : MessageId} {w : World} {b : Broker} (h : w.broker.Extends b) :
    Frame id w { w with broker := b } where
  extends_ := h
  alive_le _ hc := hc
  defaultExecutor _ := rfl
  sameAt _ _ _ _ := Component.SameAt.refl id _

/-- A change of one component's tables under a message that gets a new list with it. -/
theorem frame_update {id id' : MessageId} {w : World} {b : Broker} {c : ComponentId} {f : Component → Component}
    (hext : w.broker.Extends b)
    (hren : ∀ l, w.broker.activeLookups.find id' = some l → b.activeLookups.find id' ≠ some l)
    (hexec : ∀ comp, (f comp).defaultExecutor = comp.defaultExecutor)
    (hf : id' ≠ id → ∀ comp, Component.SameAt id comp (f comp)) :
    Frame id w ({ w with broker := b }.update c f) where
  extends_ := hext
  alive_le _ hc := hc
  defaultExecutor d := by
    by_cases h : d = c
    · subst h
      rw [component_update_self]
      exact hexec _
    · rw [component_update_of_ne _ f h]
  sameAt l hl hl' d := by
    by_cases hid : id' = id
    · subst hid
      exact absurd hl' (hren l hl)
    · exact sameAt_update (hf hid) d

/-- Publishing under a message gives it a new list. -/
theorem frame_publish {id id' : MessageId} {w w' : World} {c : ComponentId} {f : Component → Component}
    (h : w.publish c id' f = some w') (hexec : ∀ comp, (f comp).defaultExecutor = comp.defaultExecutor)
    (hf : id' ≠ id → ∀ comp, Component.SameAt id comp (f comp)) : Frame id w w' := by
  unfold publish at h
  split at h
  · obtain rfl := Option.some.inj h
    obtain ⟨hext, hren, -⟩ := Broker.associate_spec w.broker id' c
    exact frame_update hext (fun l => hren.find_ne) hexec hf
  · cases h

/-- Every operation of a world, seen from any message. -/
theorem step_frame {w w' : World} {op : WorldOp} (h : w.step op = some w') (id : MessageId) : Frame id w w' := by
  cases op with
  | associate i c =>
    obtain rfl := Option.some.inj h
    exact frame_broker (Broker.associate_spec w.broker i c).1
  | disassociate i c =>
    obtain ⟨b, hb, rfl⟩ := Option.map_eq_some_iff.mp h
    exact frame_broker (Broker.disassociate_spec hb).1
  | disassociateEverything c =>
    obtain rfl := Option.some.inj h
    exact frame_broker (broker_disassociateEverything w c).1
  | invalidate i =>
    obtain rfl := Option.some.inj h
    exact frame_broker (Broker.invalidate_spec w.broker i).1
  | brokerLookup i =>
    obtain rfl := Option.some.inj h
    exact frame_broker (Broker.extends_lookup w.broker i)
  | publishSyncQuery c i handler =>
    exact frame_publish h (fun _ => rfl)
      (fun hne _ => ⟨rfl, Function.update_of_ne (Ne.symm hne) .., rfl, rfl, rfl⟩)
  | publishAsyncQuery c i handler executorOverride =>
    exact frame_publish h (fun _ => rfl) (fun hne _ =>
      ⟨rfl, rfl, Function.update_of_ne (Ne.symm hne) .., rfl, Function.update_of_ne (Ne.symm hne) ..⟩)
  | subscribeEvent c i handler =>
    exact frame_publish h (fun _ => rfl)
      (fun hne _ => ⟨rfl, rfl, Function.update_of_ne (Ne.symm hne) .., rfl, rfl⟩)
  | publishInterface c i impl =>
    exact frame_publish h (fun _ => rfl)
      (fun hne _ => ⟨rfl, rfl, rfl, Function.update_of_ne (Ne.symm hne) .., rfl⟩)
  | prependAsyncQueryFilter c i handler =>
    simp only [step, prependAsyncQueryFilter] at h
    split at h
    · cases h
    · obtain rfl := Option.some.inj h
      obtain ⟨hext, hren, -⟩ := Broker.invalidate_spec w.broker i
      exact frame_update
        (f := fun comp => { comp with asyncHandlers := Function.update comp.asyncHandlers i (some handler) }) hext
        (fun l hl => (hren (by rw [hl]; rfl)).find_ne hl) (fun _ => rfl)
        (fun hne _ => ⟨rfl, rfl, Function.update_of_ne (Ne.symm hne) .., rfl, rfl⟩)
  | implement impl =>
    obtain rfl := Option.some.inj h
    exact ⟨Broker.Extends.refl _, fun _ hc => hc, fun _ => rfl, fun _ _ _ _ => Component.SameAt.refl id _⟩
  | publishDependencies c =>
    simp only [step, publishDependencies] at h
    split at h
    · obtain rfl := Option.some.inj h
      exact (drops_published w c true).frame id
    · cases h
  | unpublishDependencies c =>
    obtain rfl := Option.some.inj h
    have hleave : Frame id w (w.disassociateEverything c) := frame_broker (broker_disassociateEverything w c).1
    exact hleave.trans ((drops_published _ c false).frame id)
  | acquire c =>
    obtain rfl := Option.some.inj h
    split
    · rename_i hc
      refine ⟨Broker.Extends.refl _, ?_, fun _ => rfl, fun _ _ _ _ => Component.SameAt.refl id _⟩
      intro d hd
      by_cases h : d = c
      · exact h ▸ hc
      · simpa [alive, h] using hd
    · exact (Drops.refl w).frame id
  | release c =>
    obtain rfl := Option.some.inj h
    exact (drops_release w c).frame id

/-- No operation touches the pointers the reference holds. -/
theorem step_cached {w w' : World} {op : WorldOp} (h : w.step op = some w') : w'.cached = w.cached := by
  have hpublish : ∀ {c id f}, w.publish c id f = some w' → w'.cached = w.cached := by
    intro c id f hp
    unfold publish at hp
    split at hp
    · exact Option.some.inj hp ▸ rfl
    · cases hp
  cases op with
  | associate | disassociateEverything | invalidate | brokerLookup | implement | unpublishDependencies =>
    exact Option.some.inj h ▸ rfl
  | publishDependencies c =>
    simp only [step, publishDependencies] at h
    split at h
    · exact Option.some.inj h ▸ rfl
    · cases h
  | disassociate =>
    obtain ⟨b, -, rfl⟩ := Option.map_eq_some_iff.mp h
    rfl
  | publishSyncQuery | publishAsyncQuery | subscribeEvent | publishInterface => exact hpublish h
  | prependAsyncQueryFilter c i handler =>
    simp only [step, prependAsyncQueryFilter] at h
    split at h
    · cases h
    · exact Option.some.inj h ▸ rfl
  | acquire c =>
    obtain rfl := Option.some.inj h
    split <;> rfl
  | release c => exact Option.some.inj h ▸ cached_release w c

/-- No other operation gives an interface its handlers. -/
theorem step_implemented_eq {w w' : World} {op : WorldOp} (hw : w.step op = some w') (hop : ∀ impl, op ≠ .implement impl) :
    w'.implemented = w.implemented := by
  have hpublish : ∀ {c id f}, w.publish c id f = some w' → w'.implemented = w.implemented := by
    intro c id f hpublish
    unfold publish at hpublish
    split at hpublish
    · exact Option.some.inj hpublish ▸ rfl
    · cases hpublish
  cases op with
  | associate | disassociateEverything | invalidate | brokerLookup | unpublishDependencies => exact Option.some.inj hw ▸ rfl
  | disassociate id c =>
    obtain ⟨b, -, rfl⟩ := Option.map_eq_some_iff.mp hw
    rfl
  | publishSyncQuery | publishAsyncQuery | subscribeEvent | publishInterface => exact hpublish hw
  | implement impl => exact absurd rfl (hop impl)
  | prependAsyncQueryFilter c id handler =>
    simp only [step, prependAsyncQueryFilter] at hw
    split at hw
    · cases hw
    · exact Option.some.inj hw ▸ rfl
  | publishDependencies c =>
    simp only [step, publishDependencies] at hw
    split at hw
    · exact Option.some.inj hw ▸ rfl
    · cases hw
  | acquire c =>
    obtain rfl := Option.some.inj hw
    split <;> rfl
  | release c =>
    obtain rfl := Option.some.inj hw
    exact (drops_release w c).implemented

/-- What has been implemented stays so. -/
theorem step_implemented {w w' : World} {op : WorldOp} {impl : InterfaceId} (hw : w.step op = some w') (himpl : w.implemented impl = true) :
    w'.implemented impl = true := by
  by_cases hop : ∀ impl, op ≠ .implement impl
  · rwa [step_implemented_eq hw hop]
  · obtain ⟨impl', rfl⟩ := not_forall_not.mp hop
    obtain rfl := Option.some.inj hw
    by_cases heq : impl = impl'
    · subst heq
      exact Function.update_self ..
    · exact (Function.update_of_ne heq ..).trans himpl

/-! ## What an operation stores -/

section Tables

variable {w w' : World} {c : ComponentId} {f : Component → Component}

theorem asyncHandlers_update (w : World) (c : ComponentId) (hf : ∀ comp, (f comp).asyncHandlers = comp.asyncHandlers) (d : ComponentId) :
    ((w.update c f).component d).asyncHandlers = (w.component d).asyncHandlers := by
  by_cases hd : d = c
  · subst hd
    rw [component_update_self, hf]
  · rw [component_update_of_ne w f hd]

theorem asyncHandlers_update_store (w : World) (c : ComponentId) {id : MessageId} {handler : HandlerId}
    (hf : ∀ comp, (f comp).asyncHandlers = Function.update comp.asyncHandlers id (some handler)) (d : ComponentId) (id' : MessageId) :
    ((w.update c f).component d).asyncHandlers id' =
      if c = d ∧ id = id' then some handler else (w.component d).asyncHandlers id' := by
  by_cases hd : d = c
  · subst hd
    rw [component_update_self, hf]
    by_cases hid : id' = id
    · subst hid
      rw [Function.update_self, if_pos ⟨rfl, rfl⟩]
    · rw [Function.update_of_ne hid, if_neg fun h => hid h.2.symm]
  · rw [component_update_of_ne w f hd, if_neg fun h => hd h.1.symm]

/-- What an entry holds after an operation: what the operation has stored there, or what it held before. -/
def afterStore (stored : Option StoredHandler) (c : ComponentId) (id : MessageId) (before : Option HandlerId) : Option HandlerId :=
  match stored with
  | some new => if new.component = c ∧ new.id = id then some new.handler else before
  | none => before

theorem asyncHandlers_publish {id : MessageId} (h : w.publish c id f = some w') (hf : ∀ comp, (f comp).asyncHandlers = comp.asyncHandlers)
    (d : ComponentId) : (w'.component d).asyncHandlers = (w.component d).asyncHandlers := by
  unfold publish at h
  split at h
  · obtain rfl := Option.some.inj h
    exact asyncHandlers_update _ c hf d
  · cases h

theorem asyncHandlers_publish_store {id : MessageId} {handler : HandlerId} (h : w.publish c id f = some w')
    (hf : ∀ comp, (f comp).asyncHandlers = Function.update comp.asyncHandlers id (some handler)) (d : ComponentId) (id' : MessageId) :
    (w'.component d).asyncHandlers id' = if c = d ∧ id = id' then some handler else (w.component d).asyncHandlers id' := by
  unfold publish at h
  split at h
  · obtain rfl := Option.some.inj h
    exact asyncHandlers_update_store _ c hf d id'
  · cases h

theorem asyncHandlers_step {op : WorldOp} (h : w.step op = some w') (c : ComponentId) (id : MessageId) :
    (w'.component c).asyncHandlers id = afterStore op.storedHandler c id ((w.component c).asyncHandlers id) := by
  cases op with
  | associate | disassociateEverything | invalidate | brokerLookup | implement =>
    obtain rfl := Option.some.inj h
    rfl
  | disassociate =>
    obtain ⟨b, -, rfl⟩ := Option.map_eq_some_iff.mp h
    rfl
  | publishSyncQuery | publishInterface => exact congrFun (asyncHandlers_publish h (fun _ => rfl) c) id
  | publishAsyncQuery | subscribeEvent => exact asyncHandlers_publish_store h (fun _ => rfl) c id
  | prependAsyncQueryFilter c' id' handler =>
    simp only [step, prependAsyncQueryFilter] at h
    split at h
    · cases h
    · obtain rfl := Option.some.inj h
      exact asyncHandlers_update_store w c'
        (f := fun comp => { comp with asyncHandlers := Function.update comp.asyncHandlers id' (some handler) }) (fun _ => rfl) c id
  | publishDependencies c' =>
    simp only [step, publishDependencies] at h
    split at h
    · obtain rfl := Option.some.inj h
      exact congrFun (asyncHandlers_update w c' (f := fun comp => { comp with published := true }) (fun _ => rfl) c) id
    · cases h
  | unpublishDependencies c' =>
    obtain rfl := Option.some.inj h
    exact congrFun (asyncHandlers_update (w.disassociateEverything c') c' (f := fun comp => { comp with published := false })
      (fun _ => rfl) c) id
  | acquire c' =>
    obtain rfl := Option.some.inj h
    split <;> rfl
  | release c' =>
    obtain rfl := Option.some.inj h
    exact ((drops_release w c').sameAt id c).asyncHandlers

end Tables

/-! ## Handles -/

/-- The list was looked up for the message: it is no other message's list. -/
def HandleOf (w : World) (id : MessageId) (l : ListId) : Prop :=
  l < w.broker.activeLookups.next ∧ ∀ id', w.broker.activeLookups.find id' = some l → id' = id

theorem handleOf_of_find {w : World} {id : MessageId} {l : ListId} (h : w.broker.activeLookups.find id = some l) :
    w.HandleOf id l :=
  ⟨CellStore.find_lt h, fun id' h' => w.broker.activeLookups.distinct id' id l h' h⟩

theorem HandleOf.extends_ {w w' : World} {id : MessageId} {l : ListId} (h : w.HandleOf id l)
    (hext : w.broker.Extends w'.broker) : w'.HandleOf id l :=
  ⟨Nat.lt_of_lt_of_le h.1 hext.next_le, fun id' h' => h.2 id' (hext.find_of_lt h.1 h')⟩

/-- A handle that has not expired is the message's list. -/
theorem HandleOf.find_of_valid {w : World} {id : MessageId} {l : ListId} (h : w.HandleOf id l)
    (hvalid : w.expired (some l) = false) : w.broker.activeLookups.find id = some l := by
  simp only [expired, Bool.not_eq_false'] at hvalid
  exact (CellStore.owns_iff_find h.2).mp hvalid

/-- A handle that has not expired at the end of a stretch of operations had not expired before, and the message has the same
receivers. -/
theorem HandleOf.valid_of_extends {w w' : World} {id : MessageId} {l : ListId} (h : w.HandleOf id l)
    (hext : w.broker.Extends w'.broker) (hvalid : w'.expired (some l) = false) :
    w.expired (some l) = false ∧ w.broker.activeLookups.find id = some l ∧ w'.broker.activeLookups.find id = some l ∧
      w'.broker.receivers id = w.broker.receivers id := by
  have hfind' := (h.extends_ hext).find_of_valid hvalid
  have hfind := hext.find_of_lt h.1 hfind'
  refine ⟨?_, hfind, hfind', Broker.receivers_of_untouched hext (hfind'.trans hfind.symm)⟩
  simp [expired, Broker.owns, CellStore.owns_of_find hfind]

theorem HandleOf.valid_of_frame {w w' : World} {id : MessageId} {l : ListId} (h : w.HandleOf id l) (hf : Frame id w w')
    (hvalid : w'.expired (some l) = false) :
    w.expired (some l) = false ∧ w.broker.activeLookups.find id = some l ∧ w'.broker.activeLookups.find id = some l ∧
      w'.broker.receivers id = w.broker.receivers id :=
  h.valid_of_extends hf.extends_ hvalid

/-! ## Fresh resolution -/

section Sole

variable {β : Type*} {ask : Component → MessageId → Option β} {id : MessageId}

/-- What is asked of a component depends on its tables under the message only. -/
def Asks (ask : Component → MessageId → Option β) (id : MessageId) : Prop :=
  ∀ a b : Component, a.SameAt id b → ask b id = ask a id

theorem sole_of_receivers {w : World} {c : ComponentId} (h : w.broker.receivers id = [c]) (hc : w.alive c = true) :
    w.sole ask id = (ask (w.component c) id).map (fun x => (c, x)) := by
  simp [sole, h, hc]

theorem sole_eq_none {w : World} (h : ¬w.SoleLive id) : w.sole ask id = none := by
  unfold sole
  split
  · rename_i c hc
    rw [if_neg]
    exact fun halive => h ⟨c, hc, halive⟩
  · rfl

/-- What a resolution finds is the only entry of the list, and alive. -/
theorem sole_eq_some {w : World} {c : ComponentId} {x : β} (h : w.sole ask id = some (c, x)) :
    w.broker.receivers id = [c] ∧ w.alive c = true ∧ ask (w.component c) id = some x := by
  by_cases hsole : w.SoleLive id
  · obtain ⟨d, hd, halive⟩ := hsole
    rw [sole_of_receivers hd halive, Option.map_eq_some_iff] at h
    obtain ⟨y, hy, heq⟩ := h
    obtain ⟨rfl, rfl⟩ := Prod.mk.inj heq
    exact ⟨hd, halive, hy⟩
  · rw [sole_eq_none hsole] at h
    cases h

/-- Two worlds that list the same one live component under the message, with the same tables, resolve the same. -/
theorem sole_congr (hask : Asks ask id) {w w' : World} {c : ComponentId} (hw : w.broker.receivers id = [c])
    (hc : w.alive c = true) (hw' : w'.broker.receivers id = [c]) (hc' : w'.alive c = true)
    (hsame : (w.component c).SameAt id (w'.component c)) : w'.sole ask id = w.sole ask id := by
  rw [sole_of_receivers hw hc, sole_of_receivers hw' hc', hask _ _ hsame]

/-- Dropping strong pointers leaves a list of one component that stays alive as it is. -/
theorem Drops.receivers_eq {w w' : World} (h : w.Drops w') {c : ComponentId} (hw : w.broker.receivers id = [c])
    (hc : w'.alive c = true) : w'.broker.receivers id = [c] := by
  have hsub := h.sublist id
  have hlive := h.live id
  rw [hw] at hsub hlive
  rcases List.sublist_singleton.mp hsub with hnil | hone
  · rw [hnil] at hlive
    simp [hc] at hlive
  · exact hone

theorem Drops.not_soleLive {w w' : World} (h : w.Drops w') {c : ComponentId} (hw : w.broker.receivers id = [c])
    (hc : w.alive c = false) : ¬w'.SoleLive id := by
  rintro ⟨d, hd, halive⟩
  have hsub := h.sublist id
  rw [hd, hw, List.singleton_sublist, List.mem_singleton] at hsub
  rw [hsub] at halive
  rw [h.alive_le c halive] at hc
  cases hc

/-- While a message keeps its list, what a resolution finds at the end of a stretch of operations it found before. -/
theorem Frame.sole_eq (hask : Asks ask id) {w w' : World} (h : Frame id w w') {l : ListId} (hl : w.HandleOf id l)
    (hvalid : w'.expired (some l) = false) (hsole : w'.SoleLive id) :
    w.SoleLive id ∧ w'.sole ask id = w.sole ask id := by
  obtain ⟨c, hc, halive⟩ := hsole
  obtain ⟨-, hfind, hfind', hrec⟩ := hl.valid_of_frame h hvalid
  have hc₀ := hrec.symm.trans hc
  exact ⟨⟨c, hc₀, h.alive_le c halive⟩, sole_congr hask hc₀ (h.alive_le c halive) hc halive (h.sameAt l hfind hfind' c)⟩

/-! ### Asking the broker for a list -/

/-- The world after the broker was asked for the message's list. -/
abbrev asked (w : World) (id : MessageId) : World := { w with broker := (w.broker.lookup id).1 }

theorem soleLive_asked {w : World} : (asked w id).SoleLive id ↔ w.SoleLive id := by
  simp only [SoleLive, Broker.receivers_lookup]
  rfl

/-- The handle the broker gives out. -/
theorem handleOf_lookup (w : World) (id : MessageId) : (asked w id).HandleOf id (w.broker.lookup id).2 :=
  handleOf_of_find (Broker.lookup_spec w.broker id).2.1

/-! ### Fetching the receiver -/

/-- What fetching does, whichever way it returns, and whoever else holds pointers. -/
structure Fetching (w : World) (id : MessageId) (f : Fetched) : Prop where
  drops : (asked w id).Drops f.world
  receivers : f.receivers = (w.broker.lookup id).2
  receiver : ∀ c, f.found = some c → f.receiver = some c
  /-- What is found is the only entry of the list, and alive. -/
  before : ∀ c, f.found = some c → w.broker.receivers id = [c] ∧ w.alive c = true
  none_before : f.found = none → ¬w.SoleLive id
  none_after : f.found = none → ¬f.world.SoleLive id

theorem fetching (lost : ComponentId → List ComponentId) (w : World) (receiver : Option ComponentId) :
    w.Fetching id (w.fetchReceiver id lost receiver) := by
  by_cases hsingle : ∃ c, w.broker.receivers id = [c]
  · obtain ⟨c, hc⟩ := hsingle
    have hask : (asked w id).broker.receivers id = [c] := (Broker.receivers_lookup ..).trans hc
    have hout : w.fetchReceiver id lost receiver =
        ⟨(w.broker.lookup id).2, (asked w id).lock c, (asked w id).lock c,
          (asked w id).repin lost receiver ((asked w id).lock c)⟩ := by
      simp only [fetchReceiver, Broker.heap_lookup, hc]
    rw [hout]
    cases halive : w.alive c with
    | false =>
      have hlock : (asked w id).lock c = none := lock_of_dead halive
      rw [hlock]
      have hdrops : (asked w id).Drops ((asked w id).repin lost receiver none) := drops_repin lost receiver nofun
      exact ⟨hdrops, rfl, nofun, nofun, fun _ => (Drops.refl w).not_soleLive hc halive, fun _ => hdrops.not_soleLive hask halive⟩
    | true =>
      have hlock : (asked w id).lock c = some c := lock_of_alive halive
      rw [hlock]
      have hdrops : (asked w id).Drops ((asked w id).repin lost receiver (some c)) :=
        drops_repin lost receiver (by rintro d ⟨⟩; exact halive)
      refine ⟨hdrops, rfl, fun _ h => h, ?_, nofun, nofun⟩
      rintro d ⟨⟩
      exact ⟨hc, halive⟩
  · have hout : w.fetchReceiver id lost receiver = ⟨(w.broker.lookup id).2, none, receiver, asked w id⟩ := by
      simp only [fetchReceiver, Broker.heap_lookup]
      split
      · rename_i c hc
        exact absurd ⟨c, hc⟩ hsingle
      · rfl
    have hnot : ¬w.SoleLive id := fun ⟨c, hc, _⟩ => hsingle ⟨c, hc⟩
    rw [hout]
    exact ⟨Drops.refl _, rfl, nofun, nofun, fun _ => hnot, fun _ => mt soleLive_asked.mp hnot⟩

/-- What fetching does for the one reference that is counted. -/
structure Fetches (w : World) (id : MessageId) (f : Fetched) : Prop extends Fetching w id f where
  holds : f.world.Holds f.receiver
  /-- What is found stays the only entry, and alive, whatever the old receiver takes down. -/
  after : ∀ c, f.found = some c → f.world.broker.receivers id = [c] ∧ f.world.alive c = true

/-- A reference keeps what it has found in the world it leaves. -/
theorem holds_fetchReceiver (lost : ComponentId → List ComponentId) {w : World} {receiver : Option ComponentId} (h : w.Holds receiver) :
    (w.fetchReceiver id lost receiver).world.Holds (w.fetchReceiver id lost receiver).receiver := by
  have hholds : (asked w id).Holds receiver := h
  simp only [fetchReceiver]
  split
  · exact holds_repin lost hholds _
  · exact hholds

theorem fetches (lost : ComponentId → List ComponentId) {w : World} {receiver : Option ComponentId} (h : w.Holds receiver) :
    w.Fetches id (w.fetchReceiver id lost receiver) := by
  have hf : w.Fetching id (w.fetchReceiver id lost receiver) := fetching lost w receiver
  have hholds : (w.fetchReceiver id lost receiver).world.Holds (w.fetchReceiver id lost receiver).receiver := holds_fetchReceiver lost h
  refine ⟨hf, hholds, fun c hc => ?_⟩
  have halive : (w.fetchReceiver id lost receiver).world.alive c = true :=
    alive_of_cached (by rw [hholds c, if_pos (hf.receiver c hc)]; exact Nat.one_pos)
  exact ⟨hf.drops.receivers_eq ((Broker.receivers_lookup ..).trans (hf.before c hc).1) halive, halive⟩

/-- Fetching leaves what a fresh resolution finds as it was. -/
theorem Fetches.sole_eq {w : World} {f : Fetched} (h : w.Fetches id f) (hask : Asks ask id) :
    f.world.sole ask id = w.sole ask id := by
  cases hf : f.found with
  | none => rw [sole_eq_none (h.none_after hf), sole_eq_none (h.none_before hf)]
  | some c =>
    obtain ⟨hw, hc⟩ := h.before c hf
    obtain ⟨hw', hc'⟩ := h.after c hf
    exact sole_congr hask hw hc hw' hc' (h.drops.sameAt id c)

/-- The list that was fetched is the message's. -/
theorem Fetching.handleOf {w : World} {f : Fetched} (h : w.Fetching id f) : f.world.HandleOf id f.receivers :=
  h.receivers ▸ (handleOf_lookup w id).extends_ h.drops.extends_

end Sole

end World

end Minicomps
