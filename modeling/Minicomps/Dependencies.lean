import Minicomps.MonoRef
import Minicomps.PolyRef
import Minicomps.InterfaceRef

/-!
# What a component says about its dependencies

`describe_dependencies` makes each reference of a component resolve, notes which receivers it keeps after that, and adds everything
the component has published. Here components are constructed, publish, unpublish and publish again, and each is held by whoever has
constructed it: the strong pointers of the references keep nothing alive, and each reference sees no pointers but its own.
-/

namespace Minicomps

/-- The world for a reference with a strong pointer to each of these components. -/
def World.seenBy (w : World) (receivers : List ComponentId) : World := { w with cached := fun c => receivers.count c }

/-! ## References -/

/-- What `mono_ref`, `poly_ref` and `interface_ref` have in common, for a reference of `owner`. -/
class DependencyRef (ρ : Type) where
  /-- `force_resolve`; `none` if it aborts. -/
  forceResolve (owner : ComponentId) (w : World) (r : ρ) : Option (ρ × World)
  /-- `create_dependency_info`. -/
  createDependencyInfo (r : ρ) : DependencyInfo
  /-- The components a fresh resolution reaches. -/
  reaches (owner : ComponentId) (w : World) (r : ρ) : List ComponentId
  /-- What the reference needs to resolve. -/
  Resolves (owner : ComponentId) (w : World) (r : ρ) : Prop

/-- A `sync_mono_ref` or an `async_mono_ref` to the message. -/
structure QueryRef where
  kind : QueryKind
  id : MessageId
  ref : MonoRef := {}

/-- A `poly_ref_base` to the event. -/
structure EventRef where
  id : MessageId
  ref : PolyRef := {}

/-- An `interface_ref_base` to the interface. -/
structure LifetimeInterfaceRef where
  id : MessageId
  life : LifetimeWeakPtr
  ref : InterfaceRef := {}

instance : DependencyRef QueryRef where
  forceResolve owner w r :=
    let (_, ref, w') := r.ref.lookup r.kind r.id owner (fun _ => []) (w.seenBy r.ref.receiver.toList)
    some ({ r with ref := ref }, { w' with cached := w.cached })
  createDependencyInfo r := { direction := .imported, type := .asyncMono, msgInfo := r.id, resolvedTargets := [r.ref.receiver] }
  reaches owner w r := (w.resolve r.kind r.id owner).toList.map Resolution.receiver
  Resolves owner w r := (w.resolve r.kind r.id owner).isSome = true

instance : DependencyRef EventRef where
  forceResolve owner w r :=
    let (_, ref, w') := r.ref.lookup r.id owner (fun _ => []) (w.seenBy (r.ref.receiverHandlers.map ReceiverHandler.receivingComponent))
    some ({ r with ref := ref }, { w' with cached := w.cached })
  createDependencyInfo r :=
    { direction := .exported
      type := .asyncPoly
      msgInfo := r.id
      resolvedTargets := r.ref.receiverHandlers.map fun h => some h.receivingComponent }
  reaches owner w r := (w.subscribers r.id owner).map ReceiverHandler.receivingComponent
  Resolves _ _ _ := True

instance : DependencyRef LifetimeInterfaceRef where
  forceResolve owner w r :=
    (r.ref.lookup r.id owner r.life (fun _ => []) (w.seenBy r.ref.receiver.toList)).map fun (_, ref, w') =>
      ({ r with ref := ref }, { w' with cached := w.cached })
  createDependencyInfo r := { direction := .imported, type := .interface, msgInfo := r.id, resolvedTargets := [r.ref.receiver] }
  reaches _ w r := (w.sole Component.lookupInterface r.id).toList.map Prod.fst
  Resolves _ w r := ∃ c impl, w.sole Component.lookupInterface r.id = some (c, impl) ∧ w.implemented impl = true

namespace DependencyRef

variable {ρ : Type} [DependencyRef ρ]

/-- The reference's info with the targets of a fresh resolution. -/
def freshInfo (owner : ComponentId) (w : World) (r : ρ) : DependencyInfo :=
  { createDependencyInfo r with resolvedTargets := (reaches owner w r).map some }

/-- The loop of `describe_dependencies` over the references of one kind. -/
def describeEach (owner : ComponentId) : World → List ρ → Option (List DependencyInfo × List ρ × World)
  | w, [] => some ([], [], w)
  | w, r :: refs =>
    (forceResolve owner w r).bind fun (r, w) =>
      (describeEach owner w refs).map fun (infos, refs, w) => (createDependencyInfo r :: infos, r :: refs, w)

/-- `force_resolve` of one of the references, as each call through it does. -/
def resolveAt (owner : ComponentId) (w : World) (refs : List ρ) (i : Nat) : Option (List ρ × World) :=
  match refs[i]? with
  | none => none
  | some r => (forceResolve owner w r).map fun (r, w) => (refs.set i r, w)

end DependencyRef

/-! ## Components -/

/-- `mono_refs_`, `poly_refs_` and `interface_refs_`. -/
structure ComponentRefs where
  monoRefs : List QueryRef := []
  polyRefs : List EventRef := []
  interfaceRefs : List LifetimeInterfaceRef := []

/-- A world whose components hold references. -/
structure DependencyState where
  world : World
  refs : ComponentId → ComponentRefs := fun _ => {}
  /-- History: what the component has published since it last unpublished, in order. -/
  current : ComponentId → List DependencyInfo := fun _ => []
  /-- History: what it had published before. -/
  earlier : ComponentId → List DependencyInfo := fun _ => []

/-- What happens to them. -/
inductive DependencyAction where
  /-- The constructor of `component_base`, for a component of the group if it has one. -/
  | construct (c : ComponentId) (executor : ExecutorId) (listener : Option ListenerId) (groupType : Option MessageId)
  /-- Publishing, unpublishing, and what else is done to the broker and the components' tables. -/
  | world (op : WorldOp)
  | lookupQuery (c : ComponentId) (kind : QueryKind) (id : MessageId)
  | lookupEvent (c : ComponentId) (id : MessageId)
  /-- `lookup_interface`, or `clone` for another lifetime. -/
  | lookupInterface (c : ComponentId) (id : MessageId) (life : LifetimeWeakPtr)
  /-- A call through one of the component's references makes it resolve. -/
  | resolveQuery (c : ComponentId) (i : Nat)
  | resolveEvent (c : ComponentId) (i : Nat)
  | resolveInterface (c : ComponentId) (i : Nat)
  | describeDependencies (c : ComponentId)

namespace WorldOp

/-- Nothing is published by a component that does not exist, and no component is destroyed. -/
def keeps (w : World) : WorldOp → Bool
  | .associate _ c | .publishSyncQuery c .. | .publishAsyncQuery c .. | .subscribeEvent c .. | .publishInterface c ..
  | .prependAsyncQueryFilter c .. | .publishDependencies c | .unpublishDependencies c => w.alive c
  | .release c => decide (1 < w.others c)
  | _ => true

/-- The message that is published, by whom. -/
def publication : WorldOp → Option (ComponentId × DependencyInfo)
  | .publishSyncQuery c id _ => some (c, ⟨.exported, .syncMono, id, []⟩)
  | .publishAsyncQuery c id _ _ => some (c, ⟨.exported, .asyncMono, id, []⟩)
  | .subscribeEvent c id _ => some (c, ⟨.imported, .asyncPoly, id, []⟩)
  | .publishInterface c id _ => some (c, ⟨.exported, .interface, id, []⟩)
  | _ => none

end WorldOp

namespace DependencyState

/-- `add_dependency_info` of the group. -/
def groupInfo (groupType : Option MessageId) : List DependencyInfo :=
  groupType.toList.map fun id => ⟨.exported, .group, id, []⟩

/-- `component_base::component_base`, under an address that no component has had. -/
def construct (c : ComponentId) (executor : ExecutorId) (listener : Option ListenerId) (groupType : Option MessageId) (s : DependencyState) :
    Option DependencyState :=
  if s.world.others c = 0 then
    some { s with world := { s.world with
      component := Function.update s.world.component c
        { defaultExecutor := executor, listener := listener, publishedDependencies := groupInfo groupType }
      others := Function.update s.world.others c 1 } }
  else none

/-- What is noted of an operation. -/
def note (op : WorldOp) (s : DependencyState) : DependencyState :=
  match op with
  | .unpublishDependencies c =>
    { s with
      earlier := Function.update s.earlier c (s.earlier c ++ s.current c)
      current := Function.update s.current c [] }
  | op =>
    match op.publication with
    | some (c, info) => { s with current := Function.update s.current c (s.current c ++ [info]) }
    | none => s

/-- Change the references of one component that exists. -/
def updateRefs (s : DependencyState) (c : ComponentId) (f : ComponentRefs → ComponentRefs) : Option DependencyState :=
  if s.world.alive c then some { s with refs := Function.update s.refs c (f (s.refs c)) } else none

/-- `describe_dependencies`: what it returns, and the state after it. -/
def describeDependencies (s : DependencyState) (c : ComponentId) : Option (List DependencyInfo × DependencyState) :=
  (DependencyRef.describeEach c s.world (s.refs c).monoRefs).bind fun (monoInfos, monoRefs, w) =>
    (DependencyRef.describeEach c w (s.refs c).polyRefs).bind fun (polyInfos, polyRefs, w) =>
      (DependencyRef.describeEach c w (s.refs c).interfaceRefs).map fun (interfaceInfos, interfaceRefs, w) =>
        (monoInfos ++ polyInfos ++ interfaceInfos ++ (w.component c).publishedDependencies,
          { s with world := w, refs := Function.update s.refs c { monoRefs, polyRefs, interfaceRefs } })

/-- A step; `none` where it cannot be taken, or aborts. -/
def step (s : DependencyState) : DependencyAction → Option DependencyState
  | .construct c executor listener groupType => s.construct c executor listener groupType
  | .world op => if op.keeps s.world then (s.world.step op).map fun w => { s with world := w }.note op else none
  | .lookupQuery c kind id => s.updateRefs c fun refs => { refs with monoRefs := refs.monoRefs ++ [{ kind, id }] }
  | .lookupEvent c id => s.updateRefs c fun refs => { refs with polyRefs := refs.polyRefs ++ [{ id }] }
  | .lookupInterface c id life =>
    s.updateRefs c fun refs => { refs with interfaceRefs := refs.interfaceRefs ++ [{ id, life }] }
  | .resolveQuery c i =>
    (DependencyRef.resolveAt c s.world (s.refs c).monoRefs i).map fun (refs, w) =>
      { s with world := w, refs := Function.update s.refs c { s.refs c with monoRefs := refs } }
  | .resolveEvent c i =>
    (DependencyRef.resolveAt c s.world (s.refs c).polyRefs i).map fun (refs, w) =>
      { s with world := w, refs := Function.update s.refs c { s.refs c with polyRefs := refs } }
  | .resolveInterface c i =>
    (DependencyRef.resolveAt c s.world (s.refs c).interfaceRefs i).map fun (refs, w) =>
      { s with world := w, refs := Function.update s.refs c { s.refs c with interfaceRefs := refs } }
  | .describeDependencies c => (s.describeDependencies c).map Prod.snd

/-- A new broker, and no component yet. -/
def init : DependencyState := { world := World.new (fun _ => { defaultExecutor := 0 }) (fun _ => 0) }

end DependencyState

/-! ## What a description should say -/

/-- The info is about a reference. -/
def DependencyInfo.isReference (info : DependencyInfo) : Bool :=
  match info.direction, info.type with
  | .imported, .asyncMono | .exported, .asyncPoly | .imported, .interface => true
  | _, _ => false

namespace DependencyState

/-- The infos of the component's references, with what they would resolve to afresh. -/
def freshInfos (s : DependencyState) (c : ComponentId) : List DependencyInfo :=
  (s.refs c).monoRefs.map (DependencyRef.freshInfo c s.world) ++ (s.refs c).polyRefs.map (DependencyRef.freshInfo c s.world) ++
    (s.refs c).interfaceRefs.map (DependencyRef.freshInfo c s.world)

/-- The infos name what each reference would resolve to afresh, and while the component is published what it has published since it
last unpublished, once each; there is nothing besides these but its group. -/
structure Faithful (s : DependencyState) (c : ComponentId) (infos : List DependencyInfo) : Prop where
  references : infos.filter DependencyInfo.isReference = s.freshInfos c
  publications : ∀ info : DependencyInfo, info.isReference = false → info.type ≠ .group →
    infos.count info = if (s.world.component c).published = true ∧ info ∈ s.current c then 1 else 0

/-- A description is given, and it is faithful. -/
def DescribesFaithfully (s : DependencyState) : DependencyAction → Prop
  | .describeDependencies c => ∃ infos s', s.describeDependencies c = some (infos, s') ∧ s.Faithful c infos
  | _ => True

/-- All the component has ever published it has published since it last unpublished, nothing of it twice, and nothing at all if it is
not published. -/
def PublishedOnce (s : DependencyState) (c : ComponentId) : Prop :=
  s.earlier c = [] ∧ (s.current c).Nodup ∧ ((s.world.component c).published = false → s.current c = [])

/-- A component is described when all its references to queries and interfaces resolve, and it has published everything once. -/
def DescribesResolved (s : DependencyState) : DependencyAction → Prop
  | .describeDependencies c =>
    (∀ r ∈ (s.refs c).monoRefs, DependencyRef.Resolves c s.world r) ∧
      (∀ r ∈ (s.refs c).interfaceRefs, DependencyRef.Resolves c s.world r) ∧ s.PublishedOnce c
  | _ => True

end DependencyState

end Minicomps
