import Minicomps.Theorems.InterfaceRef

/-!
# When a proxy outlives what it is linked to

A proxy points into the interface it is a copy of, which is a member of the component that has published it. Nothing keeps that component
alive but the strong pointer next to the proxy. `interface_ref_base::lookup` assigns the pointer before it knows whether it will make a
new proxy, and the early returns after that leave the old proxy behind.
-/

namespace Minicomps

open Transition

namespace InterfaceRef

/-- The interface that is published, if one is, is a member of the component that publishes it. -/
def publishesOwn (member : InterfaceId → ComponentId) : RefAction → Bool
  | .world (.publishInterface c _ impl) => decide (member impl = c)
  | _ => true

/-- A step, where components publish interfaces of their own. -/
def stepOwn (member : InterfaceId → ComponentId) (id : MessageId) (owner : ComponentId) (life : LifetimeWeakPtr)
    (s : RefState InterfaceRef) (a : RefAction) : Option (RefState InterfaceRef) :=
  if publishesOwn member a then step id owner life s a else none

/-- The proxy is linked to an interface of the component that the reference holds, and that component has not been destroyed. -/
def ProxyHeld (member : InterfaceId → ComponentId) (s : RefState InterfaceRef) : Prop :=
  ∀ proxy, s.ref.localInterfaceProxy = some proxy →
    s.ref.receiver = some (member proxy.linkedInterface) ∧ s.world.alive (member proxy.linkedInterface) = true

/-- A lookup that has to resolve again, with a proxy there, does not come upon a list whose only entry is dead, or has not published the
interface. -/
def KeepsReceiver (id : MessageId) (s : RefState InterfaceRef) : RefAction → Prop
  | .world _ => True
  | .lookup _ => s.ref.localInterfaceProxy.isSome = true → s.world.expired s.ref.resolvedReceivers = true →
      ∀ c, s.world.broker.receivers id = [c] → s.world.alive c = true ∧ (s.world.component c).lookupInterface id ≠ none

end InterfaceRef

namespace HeldProxiesAux

open InterfaceRef InterfaceRefAux World

variable {member : InterfaceId → ComponentId} {id : MessageId} {owner : ComponentId} {life : LifetimeWeakPtr}

/-! ## The interfaces that components have published -/

theorem interfaces_update {w : World} {f : Component → Component} (hf : ∀ comp, (f comp).interfaces = comp.interfaces) (c d : ComponentId) :
    ((w.update d f).component c).interfaces = (w.component c).interfaces := by
  by_cases hc : c = d
  · subst hc
    rw [component_update_self, hf]
  · rw [component_update_of_ne _ f hc]

theorem interfaces_publish {w w' : World} {d : ComponentId} {id' : MessageId} {f : Component → Component}
    (h : w.publish d id' f = some w') (hf : ∀ comp, (f comp).interfaces = comp.interfaces) (c : ComponentId) :
    (w'.component c).interfaces = (w.component c).interfaces := by
  unfold publish at h
  split at h
  · obtain rfl := Option.some.inj h
    exact interfaces_update hf c d
  · cases h

/-- Interfaces are published, and published again, and never taken out. -/
theorem step_interfaces {w w' : World} {op : WorldOp} (h : w.step op = some w') (id : MessageId) (c : ComponentId) :
    (w'.component c).interfaces id = (w.component c).interfaces id ∨
      ∃ impl, op = .publishInterface c id impl ∧ (w'.component c).interfaces id = some impl := by
  cases op with
  | disassociate id' d =>
    obtain ⟨b, -, rfl⟩ := Option.map_eq_some_iff.mp h
    exact Or.inl rfl
  | associate | invalidate | brokerLookup | implement | disassociateEverything =>
    obtain rfl := Option.some.inj h
    exact Or.inl rfl
  | publishSyncQuery | publishAsyncQuery | subscribeEvent => exact Or.inl (congrFun (interfaces_publish h (fun _ => rfl) c) id)
  | publishInterface d id' impl =>
    simp only [World.step, publishInterface, publish] at h
    split at h
    · obtain rfl := Option.some.inj h
      by_cases hc : c = d
      · subst hc
        rw [component_update_self]
        by_cases hid : id = id'
        · subst hid
          exact Or.inr ⟨impl, rfl, Function.update_self ..⟩
        · exact Or.inl (Function.update_of_ne hid ..)
      · exact Or.inl (by rw [component_update_of_ne _ _ hc])
    · cases h
  | prependAsyncQueryFilter d id' handler =>
    simp only [World.step, prependAsyncQueryFilter] at h
    split at h
    · cases h
    · obtain rfl := Option.some.inj h
      refine Or.inl (congrFun (interfaces_update (w := w) (d := d) (f := fun comp =>
        { comp with asyncHandlers := Function.update comp.asyncHandlers id' (some handler) }) (fun _ => rfl) c) id)
  | publishDependencies d =>
    simp only [World.step, publishDependencies] at h
    split at h
    · obtain rfl := Option.some.inj h
      exact Or.inl (congrFun (interfaces_update (f := fun comp => { comp with published := true }) (fun _ => rfl) c d) id)
    · cases h
  | unpublishDependencies d =>
    obtain rfl := Option.some.inj h
    refine Or.inl (congrFun (interfaces_update (w := w.disassociateEverything d) (f := fun comp => { comp with published := false })
      (fun _ => rfl) c d) id)
  | acquire d =>
    obtain rfl := Option.some.inj h
    split <;> exact Or.inl rfl
  | release d =>
    obtain rfl := Option.some.inj h
    exact Or.inl ((drops_release w d).sameAt id c).interfaces

/-! ## The invariant -/

/-- What holds of a reference whose proxy is linked to its receiver. -/
structure Linked (member : InterfaceId → ComponentId) (id : MessageId) (s : RefState InterfaceRef) : Prop where
  holds : s.world.Holds s.ref.receiver
  published : ∀ c impl, (s.world.component c).interfaces id = some impl → member impl = c
  receiver : ∀ proxy, s.ref.localInterfaceProxy = some proxy → s.ref.receiver = some (member proxy.linkedInterface)
  /-- The receiver has published the interface, and has it still. -/
  known : ∀ proxy, s.ref.localInterfaceProxy = some proxy → (s.world.component (member proxy.linkedInterface)).interfaces id ≠ none

variable {s s' : RefState InterfaceRef}

theorem linked_init (component : ComponentId → Component) (others : ComponentId → Nat)
    (hnew : ∀ c, (component c).interfaces = fun _ => none) :
    Linked member id (init component others) where
  holds _ := rfl
  published c impl h := by
    have hnone : (component c).interfaces id = some impl := h
    rw [hnew] at hnone
    cases hnone
  receiver := nofun
  known := nofun

theorem Linked.proxyHeld (h : Linked member id s) : ProxyHeld member s := by
  intro proxy hproxy
  have hreceiver := h.receiver proxy hproxy
  refine ⟨hreceiver, alive_of_cached ?_⟩
  rw [h.holds, if_pos hreceiver]
  exact Nat.one_pos

theorem linked_world {op : WorldOp} {w : World} (h : Linked member id s) (hown : publishesOwn member (.world op) = true)
    (hw : s.world.step op = some w) : Linked member id { s with world := w } where
  holds c := (congrFun (step_cached hw) c).trans (h.holds c)
  published c impl himpl := by
    rcases step_interfaces hw id c with hold | ⟨impl', rfl, hnew⟩
    · exact h.published c impl (hold ▸ himpl)
    · obtain rfl := Option.some.inj (hnew.symm.trans himpl)
      exact of_decide_eq_true hown
  receiver := h.receiver
  known proxy hproxy := by
    rcases step_interfaces hw id (member proxy.linkedInterface) with hold | ⟨impl', -, hnew⟩
    · rw [hold]
      exact h.known proxy hproxy
    · rw [hnew]
      exact Option.some_ne_none impl'

/-- Fetching assigns the receiver if the list has one entry. -/
theorem receiver_fetchReceiver (lost : ComponentId → List ComponentId) (w : World) (receiver : Option ComponentId) :
    (w.fetchReceiver id lost receiver).receiver = match w.broker.receivers id with
      | [c] => w.lock c
      | _ => receiver := by
  simp only [fetchReceiver, Broker.heap_lookup]
  rcases w.broker.receivers id with _ | ⟨c, _ | ⟨d, receivers⟩⟩ <;> rfl

theorem receiver_fetchReceiver_of_sole {β : Type*} {ask : Component → MessageId → Option β} (lost : ComponentId → List ComponentId)
    {w : World} (receiver : Option ComponentId) {c : ComponentId} {x : β} (h : w.sole ask id = some (c, x)) :
    (w.fetchReceiver id lost receiver).receiver = some c := by
  obtain ⟨hreceivers, halive, -⟩ := sole_eq_some h
  rw [receiver_fetchReceiver, hreceivers]
  exact lock_of_alive halive

/-- A lookup that resolves again makes a proxy of the receiver's interface, or leaves the receiver where the old proxy is linked to. -/
theorem linked_refetch {lost : ComponentId → List ComponentId} {answer : Option InterfaceProxy} {r : InterfaceRef} {w : World}
    (h : Linked member id s)
    (hkeeps : s.ref.localInterfaceProxy.isSome = true →
      ∀ c, s.world.broker.receivers id = [c] → s.world.alive c = true ∧ (s.world.component c).lookupInterface id ≠ none)
    (hout : refetch id owner life lost s.world s.ref = some (answer, r, w)) : Linked member id ⟨w, r⟩ := by
  rcases relinked id owner life lost s.world s.ref with ⟨answer', r', w', hout', hre⟩ | ⟨hnone, -⟩
  swap
  · rw [hnone] at hout
    cases hout
  obtain ⟨rfl, rfl, rfl⟩ := Option.some.inj (hout'.symm.trans hout)
  have hinterfaces : ∀ c, (w.component c).interfaces id = (s.world.component c).interfaces id := by
    intro c
    rw [hre.world]
    exact ((fetching lost s.world s.ref.receiver).drops.sameAt id c).interfaces
  have hproxy : ∀ proxy, r.localInterfaceProxy = some proxy →
      r.receiver = some (member proxy.linkedInterface) ∧ (s.world.component (member proxy.linkedInterface)).interfaces id ≠ none := by
    intro proxy hproxy
    rw [hre.proxy] at hproxy
    cases hanswer : answer with
    | some new =>
      obtain rfl : new = proxy := by rwa [hanswer, Option.some_or, Option.some.injEq] at hproxy
      obtain ⟨⟨c, impl⟩, hsole, rfl⟩ := Option.map_eq_some_iff.mp (hre.resolves.symm.trans hanswer)
      obtain ⟨-, -, himpl⟩ := sole_eq_some hsole
      obtain rfl := h.published c impl himpl
      refine ⟨hre.receiver.trans (receiver_fetchReceiver_of_sole lost s.ref.receiver hsole), ?_⟩
      rw [show (s.world.component (member impl)).interfaces id = some impl from himpl]
      exact Option.some_ne_none impl
    | none =>
      rw [hanswer, Option.none_or] at hproxy
      refine ⟨?_, h.known proxy hproxy⟩
      rw [hre.receiver, receiver_fetchReceiver]
      split
      · -- the only entry would have given a proxy
        rename_i c hc
        obtain ⟨halive, hask⟩ := hkeeps (hproxy ▸ rfl) c hc
        obtain ⟨impl, himpl⟩ := Option.ne_none_iff_exists'.mp hask
        have hsole : s.world.sole Component.lookupInterface id = some (c, impl) := by
          rw [sole_of_receivers hc halive, himpl]
          rfl
        have hsome := hre.resolves.symm.trans hanswer
        rw [resolveInterface_of_sole owner life hsole] at hsome
        cases hsome
      · exact h.receiver proxy hproxy
  refine ⟨?_, ?_, fun proxy hp => (hproxy proxy hp).1, fun proxy hp => ?_⟩
  · simp only [hre.world, hre.receiver]
    exact holds_fetchReceiver lost h.holds
  · intro c impl himpl
    exact h.published c impl ((hinterfaces c).symm.trans himpl)
  · rw [hinterfaces]
    exact (hproxy proxy hp).2

theorem linked_step {a : RefAction} (h : Linked member id s) (hkeeps : KeepsReceiver id s a)
    (hs : stepOwn member id owner life s a = some s') : Linked member id s' := by
  unfold stepOwn at hs
  split at hs
  · rename_i hown
    cases a with
    | world op =>
      obtain ⟨w, hw, rfl⟩ := Option.map_eq_some_iff.mp hs
      exact linked_world h hown hw
    | lookup lost =>
      obtain ⟨⟨answer, r, w⟩, hout, rfl⟩ := Option.map_eq_some_iff.mp hs
      unfold lookup at hout
      split at hout
      · obtain ⟨-, rfl, rfl⟩ := Option.some.inj hout
        exact h
      · rename_i hmiss
        refine linked_refetch h (fun hproxy => hkeeps hproxy ?_) hout
        simpa only [hproxy, Bool.true_and, Bool.not_eq_true', Bool.not_eq_false] using hmiss
  · cases hs

/-- Otherwise the old proxy is left next to another receiver, or next to none. -/
theorem unlinked_step {a : RefAction} (h : Linked member id s) (hnot : ¬KeepsReceiver id s a) :
    ∃ s', stepOwn member id owner life s a = some s' ∧ ¬ProxyHeld member s' := by
  cases a with
  | world op => exact absurd trivial hnot
  | lookup lost =>
    simp only [KeepsReceiver] at hnot
    push Not at hnot
    obtain ⟨hproxy, hexpired, c, hc, hask⟩ := hnot
    obtain ⟨proxy, hp⟩ := Option.isSome_iff_exists.mp hproxy
    have hsole : s.world.sole Component.lookupInterface id = none := by
      cases halive : s.world.alive c with
      | true => rw [sole_of_receivers hc halive, hask halive]; rfl
      | false => exact sole_eq_none ((Drops.refl s.world).not_soleLive hc halive)
    have hlookup : lookup id owner life lost s.world s.ref = refetch id owner life lost s.world s.ref :=
      if_neg (by simp [hexpired])
    rcases relinked id owner life lost s.world s.ref with ⟨answer, r, w, hout, hre⟩ | ⟨-, d, impl, hd, -⟩
    swap
    · rw [hsole] at hd
      cases hd
    refine ⟨⟨w, r⟩, ?_, fun hheld => ?_⟩
    · simp only [stepOwn, publishesOwn, if_true, InterfaceRef.step, RefState.step, hlookup, hout, Option.map_some]
    have hanswer : answer = none := hre.resolves.trans (resolveInterface_eq_none.mpr hsole)
    have hold : r.localInterfaceProxy = some proxy := by rw [hre.proxy, hanswer, Option.none_or, hp]
    have hreceiver := (hheld proxy hold).1
    rw [hre.receiver, receiver_fetchReceiver, hc] at hreceiver
    obtain ⟨rfl, halive⟩ := lock_eq_some_iff.mp hreceiver
    exact h.known proxy hp (hask halive)

end HeldProxiesAux

open InterfaceRef HeldProxiesAux

/-- In every state of a run, the proxy that a reference keeps, which each call through it goes by, is linked to an interface of a component
that the reference holds and that has not been destroyed, if and only if no lookup that has a proxy, and has to resolve again, comes upon a
list whose only entry is dead or has not published the interface. -/
theorem interfaceRef_proxyHeld_iff (member : InterfaceId → ComponentId) (id : MessageId) (owner : ComponentId) (life : LifetimeWeakPtr)
    (executor : ComponentId → ExecutorId) (others : ComponentId → Nat) (acts : List RefAction) :
    AllSteps (stepOwn member id owner life) (KeepsReceiver id) (init (fun c => { defaultExecutor := executor c }) others) acts ↔
      ∀ pre s, pre <+: acts →
        run (stepOwn member id owner life) (init (fun c => { defaultExecutor := executor c }) others) pre = some s → ProxyHeld member s :=
  allSteps_iff_safe (fun _ => Linked.proxyHeld) (fun _ _ _ => linked_step) (fun _ _ => unlinked_step) (linked_init _ others fun _ => rfl)

/-- Where the condition fails: component 2 has put itself on the list, and is gone before it was published. The lookup that comes upon it
drops the last pointer to component 1, and the next one returns the proxy of the interface that has gone with it. -/
example :
    let acts : List RefAction := [.world (.implement 70), .world (.publishInterface 1 7 70), .world (.publishDependencies 1),
      .lookup fun _ => [], .world (.unpublishDependencies 1), .world (.publishInterface 2 7 71), .world (.release 2),
      .world (.release 1), .lookup fun _ => []]
    ((run (stepOwn (fun impl => impl - 69) 7 0 ⟨0, 0⟩) (init (fun c => { defaultExecutor := c }) fun _ => 1) acts).bind fun s =>
      (lookup 7 0 ⟨0, 0⟩ (fun _ => []) s.world s.ref).map fun (answer, _, w) => (answer, w.alive 1)) =
        some (some ⟨70, 0, ⟨0, 0⟩⟩, false) := by decide

end Minicomps
