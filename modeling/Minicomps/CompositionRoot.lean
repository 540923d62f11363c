import Minicomps.Dependencies

/-!
# What an application checks of its dependencies

An application holds its components in a list. Before it goes on it has each of them describe its dependencies, twice over: once for what
they offer, and once for what they ask for. A description makes the references of the component resolve, so that each loop runs in
the states the descriptions before have left.
-/

namespace Minicomps

namespace DependencyInfo

/-- The component has published an interface. -/
def exportsInterface (info : DependencyInfo) : Bool := decide (info.type = .interface ∧ info.direction = .exported)

/-- The component has looked up an interface. -/
def importsInterface (info : DependencyInfo) : Bool := decide (info.type = .interface ∧ info.direction = .imported)

/-- The component has looked up an event, to send it. -/
def exportsEvent (info : DependencyInfo) : Bool := decide (info.type = .asyncPoly ∧ info.direction = .exported)

/-- The component has subscribed to an event. -/
def importsEvent (info : DependencyInfo) : Bool := decide (info.type = .asyncPoly ∧ info.direction = .imported)

end DependencyInfo

/-- `dependency`, an interface that nobody has published. -/
structure MissingDependency where
  consumer : ComponentId
  info : MessageId
  deriving DecidableEq, Repr

namespace DependencyState

/-! ## `composition_root` -/

/-- The first loop of `get_missing_dependencies`. -/
def collectExportedInterfaces :
    DependencyState → List MessageId → List ComponentId → Option (List MessageId × DependencyState)
  | s, exportedInterfaces, [] => some (exportedInterfaces, s)
  | s, exportedInterfaces, component :: components =>
    (s.describeDependencies component).bind fun (dependencies, s) =>
      collectExportedInterfaces s
        (exportedInterfaces ++ (dependencies.filter DependencyInfo.exportsInterface).map DependencyInfo.msgInfo) components

/-- The second one. -/
def collectMissingDependencies (exportedInterfaces : List MessageId) :
    DependencyState → List MissingDependency → List ComponentId → Option (List MissingDependency × DependencyState)
  | s, missingDependencies, [] => some (missingDependencies, s)
  | s, missingDependencies, component :: components =>
    (s.describeDependencies component).bind fun (dependencies, s) =>
      let missing := (dependencies.filter DependencyInfo.importsInterface).filter fun dependency =>
        !exportedInterfaces.contains dependency.msgInfo
      collectMissingDependencies exportedInterfaces s
        (missingDependencies ++ missing.map fun dependency => ⟨component, dependency.msgInfo⟩) components

/-- `composition_root::get_missing_dependencies`; `none` if a description aborts. -/
def getMissingDependencies (s : DependencyState) (components : List ComponentId) : Option (List MissingDependency × DependencyState) :=
  (collectExportedInterfaces s [] components).bind fun (exportedInterfaces, s) =>
    collectMissingDependencies exportedInterfaces s [] components

/-- `composition_root::verify_dependencies`. -/
def verifyDependencies (s : DependencyState) (components : List ComponentId) : Option (Bool × DependencyState) :=
  (s.getMissingDependencies components).map fun (missingDependencies, s) => (missingDependencies.isEmpty, s)

/-! ## `events_are_fulfilled` -/

/-- The events that are exported, on top of those that were before; `none` where one of them is exported already. -/
def collectPublishedEvents : List MessageId → List DependencyInfo → Option (List MessageId)
  | publishedEvents, [] => some publishedEvents
  | publishedEvents, info :: infos =>
    if info.exportsEvent then
      if publishedEvents.contains info.msgInfo then none else collectPublishedEvents (publishedEvents ++ [info.msgInfo]) infos
    else collectPublishedEvents publishedEvents infos

/-- The first loop of `events_are_fulfilled`, which returns at the second exporter of an event. -/
def collectEvents : DependencyState → List MessageId → List ComponentId → Option (Option (List MessageId) × DependencyState)
  | s, publishedEvents, [] => some (some publishedEvents, s)
  | s, publishedEvents, component :: components =>
    (s.describeDependencies component).bind fun (infos, s) =>
      match collectPublishedEvents publishedEvents infos with
      | none => some (none, s)
      | some publishedEvents => collectEvents s publishedEvents components

/-- The second one, which returns at the first event that is imported and not exported. -/
def checkEvents (publishedEvents : List MessageId) : DependencyState → List ComponentId → Option (Bool × DependencyState)
  | s, [] => some (true, s)
  | s, component :: components =>
    (s.describeDependencies component).bind fun (infos, s) =>
      if infos.all fun info => !info.importsEvent || publishedEvents.contains info.msgInfo then checkEvents publishedEvents s components
      else some (false, s)

/-- `events_are_fulfilled`; `none` if a description aborts. -/
def eventsAreFulfilled (s : DependencyState) (components : List ComponentId) : Option (Bool × DependencyState) :=
  (collectEvents s [] components).bind fun (publishedEvents, s) =>
    match publishedEvents with
    | none => some (false, s)
    | some publishedEvents => checkEvents publishedEvents s components

/-! ## What the checks are for -/

/-- An application that is being set up: nothing is unpublished, and nothing is done to the broker but by publishing; interfaces and
messages have different ids, each interface is published once only, by one of the components, from its `publish()`. -/
def setsUp (isInterface : MessageId → Bool) (components : List ComponentId) (s : DependencyState) : DependencyAction → Bool
  | .world (.associate ..) | .world (.disassociate ..) | .world (.disassociateEverything _) | .world (.unpublishDependencies _) => false
  | .world (.publishSyncQuery _ id _) | .world (.publishAsyncQuery _ id ..) | .world (.subscribeEvent _ id _) => !isInterface id
  | .world (.publishInterface c id _) =>
    isInterface id && components.contains c && !(s.world.component c).published && (s.world.broker.receivers id).isEmpty
  | .lookupInterface _ id _ => isInterface id
  | _ => true

instance (owner : ComponentId) (w : World) (r : LifetimeInterfaceRef) : Decidable (DependencyRef.Resolves owner w r) :=
  decidable_of_iff ((w.sole Component.lookupInterface r.id).any (fun x => w.implemented x.2) = true) <| by
    simp [DependencyRef.Resolves, Option.any_eq_true]

/-- The references to interfaces that do not resolve, of each component in turn. -/
def unresolved (s : DependencyState) (components : List ComponentId) : List MissingDependency :=
  components.flatMap fun c =>
    ((s.refs c).interfaceRefs.filter fun r => decide ¬DependencyRef.Resolves c s.world r).map fun r => ⟨c, r.id⟩

/-- No two references of the components send the same event, and each subscription of theirs is reached through one of them. -/
structure EventsConnected (s : DependencyState) (components : List ComponentId) : Prop where
  senders : (components.flatMap fun c => (s.refs c).polyRefs.map EventRef.id).Nodup
  reached : ∀ c ∈ components, ∀ info ∈ s.current c, info.importsEvent = true →
    ∃ d ∈ components, ∃ r ∈ (s.refs d).polyRefs, r.id = info.msgInfo ∧ c ∈ DependencyRef.reaches d s.world r

end DependencyState

end Minicomps
