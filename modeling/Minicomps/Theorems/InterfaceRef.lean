import Minicomps.Lib.Transition
import Minicomps.Lemmas.World
import Minicomps.InterfaceRef

/-!
# When an interface reference answers with the interface that is published now

`interface_ref_base::lookup` does not clear its proxy before it resolves again, and so repeats the fault of `mono_ref_base`: a
resolution that fails leaves the old proxy next to a handle on the new list, and the next lookup returns it. Unlike there, the
proxy also stays when the receiver has not published the interface. Besides, making a proxy aborts while a query of the
interface has no handler yet.
-/

namespace Minicomps

open Transition

namespace InterfaceRef

/-- A run of a world and one reference of `owner` to the interface. -/
abbrev step (id : MessageId) (owner : ComponentId) (life : LifetimeWeakPtr) :
    RefState InterfaceRef → RefAction → Option (RefState InterfaceRef) :=
  RefState.step (lookup id owner life)

/-- A new reference in a new world. -/
def init (component : ComponentId → Component) (others : ComponentId → Nat) : RefState InterfaceRef :=
  ⟨World.new component others, {}⟩

/-- What is asked of a lookup: it returns what the broker's list for the interface gives now, and would give the same again. -/
def Correct (id : MessageId) (owner : ComponentId) (life : LifetimeWeakPtr) (s : RefState InterfaceRef) : RefAction → Prop
  | .world _ => True
  | .lookup lost =>
    ∃ answer r w, lookup id owner life lost s.world s.ref = some (answer, r, w) ∧
      answer = s.world.resolveInterface id owner life ∧
      w.resolveInterface id owner life = s.world.resolveInterface id owner life

/-- The proxy is taken for valid, but the interface has no sole live component that has published it. -/
def Stale (id : MessageId) (s : RefState InterfaceRef) : Prop :=
  s.ref.localInterfaceProxy.isSome = true ∧ s.world.expired s.ref.resolvedReceivers = false ∧
    s.world.sole Component.lookupInterface id = none

/-- A proxy has to be made of an interface one of whose queries has no handler. -/
def Unimplemented (id : MessageId) (s : RefState InterfaceRef) : Prop :=
  ¬(s.ref.localInterfaceProxy.isSome = true ∧ s.world.expired s.ref.resolvedReceivers = false) ∧
    ∃ c impl, s.world.sole Component.lookupInterface id = some (c, impl) ∧ s.world.implemented impl = false

/-- No lookup is made on a stale proxy, or of an interface that is not implemented yet. -/
def Fine (id : MessageId) (s : RefState InterfaceRef) : RefAction → Prop
  | .world _ => True
  | .lookup _ => ¬Stale id s ∧ ¬Unimplemented id s

/-- What holds of a reference and its world in every history. -/
structure Sound (id : MessageId) (owner : ComponentId) (life : LifetimeWeakPtr) (s : RefState InterfaceRef) : Prop where
  holds : s.world.Holds s.ref.receiver
  handle : ∀ l, s.ref.resolvedReceivers = some l → s.world.HandleOf id l
  /-- A proxy that passes for valid is right whenever there is anything to link to. -/
  coherent : s.ref.localInterfaceProxy.isSome = true → s.world.expired s.ref.resolvedReceivers = false →
    ∀ proxy, s.world.resolveInterface id owner life = some proxy → s.ref.localInterfaceProxy = some proxy

end InterfaceRef

namespace InterfaceRefAux

open InterfaceRef World

variable {id : MessageId} {owner : ComponentId} {life : LifetimeWeakPtr}

theorem asks_lookupInterface : Asks Component.lookupInterface id := fun _ _ h => h.interfaces

theorem resolveInterface_eq_none {w : World} :
    w.resolveInterface id owner life = none ↔ w.sole Component.lookupInterface id = none := by
  rw [resolveInterface, Option.map_eq_none_iff]

theorem resolveInterface_of_sole (owner : ComponentId) (life : LifetimeWeakPtr) {w : World} {c : ComponentId} {impl : InterfaceId}
    (h : w.sole Component.lookupInterface id = some (c, impl)) :
    w.resolveInterface id owner life = some ⟨impl, owner, life⟩ := by
  rw [resolveInterface, h]
  rfl

theorem resolveInterface_congr {w w' : World}
    (h : w'.sole Component.lookupInterface id = w.sole Component.lookupInterface id) :
    w'.resolveInterface id owner life = w.resolveInterface id owner life := by
  rw [resolveInterface, resolveInterface, h]

/-! ## Resolving again -/

/-- What resolving again does, when it returns, whoever else holds pointers. -/
structure Relinked (id : MessageId) (owner : ComponentId) (life : LifetimeWeakPtr) (w : World) (r : InterfaceRef) (f : Fetched)
    (answer : Option InterfaceProxy) (r' : InterfaceRef) (w' : World) : Prop where
  world : w' = f.world
  receiver : r'.receiver = f.receiver
  handle : ∀ l, r'.resolvedReceivers = some l → w'.HandleOf id l
  resolves : answer = w.resolveInterface id owner life
  /-- Where nothing is found, the old proxy stays. -/
  proxy : r'.localInterfaceProxy = answer.or r.localInterfaceProxy
  /-- Whatever the old receiver takes down, there is nothing else to link to afterwards. -/
  after : ∀ proxy, w'.resolveInterface id owner life = some proxy → answer = some proxy
  implemented : ∀ c impl, w.sole Component.lookupInterface id = some (c, impl) → w.implemented impl = true

theorem relinked (id : MessageId) (owner : ComponentId) (life : LifetimeWeakPtr) (lost : ComponentId → List ComponentId)
    (w : World) (r : InterfaceRef) :
    (∃ answer r' w', refetch id owner life lost w r = some (answer, r', w') ∧
        Relinked id owner life w r (w.fetchReceiver id lost r.receiver) answer r' w') ∨
      refetch id owner life lost w r = none ∧
        ∃ c impl, w.sole Component.lookupInterface id = some (c, impl) ∧ w.implemented impl = false := by
  have hf : w.Fetching id (w.fetchReceiver id lost r.receiver) := fetching lost w r.receiver
  obtain ⟨f, hfetch⟩ : ∃ f, w.fetchReceiver id lost r.receiver = f := ⟨_, rfl⟩
  rw [hfetch] at hf ⊢
  have hhandle : ∀ l, some f.receivers = some l → f.world.HandleOf id l := fun l hl => Option.some.inj hl ▸ hf.handleOf
  simp only [refetch, hfetch]
  cases hfound : f.found with
  | none =>
    have hsole : w.sole Component.lookupInterface id = none := sole_eq_none (hf.none_before hfound)
    have hafter : f.world.resolveInterface id owner life = none := resolveInterface_eq_none.mpr (sole_eq_none (hf.none_after hfound))
    exact Or.inl ⟨_, _, _, rfl, rfl, rfl, hhandle, (resolveInterface_eq_none.mpr hsole).symm, rfl, by simp [hafter],
      by simp [hsole]⟩
  | some c =>
    obtain ⟨hc, halive⟩ := hf.before c hfound
    have hsole : w.sole Component.lookupInterface id = ((f.world.component c).lookupInterface id).map (fun x => (c, x)) := by
      rw [asks_lookupInterface _ _ (hf.drops.sameAt id c)]
      exact sole_of_receivers hc halive
    have hafter : ∀ proxy, f.world.resolveInterface id owner life = some proxy →
        (f.world.component c).lookupInterface id = some proxy.linkedInterface ∧ proxy = ⟨proxy.linkedInterface, owner, life⟩ := by
      intro proxy hproxy
      obtain ⟨⟨d, impl⟩, hd, rfl⟩ := Option.map_eq_some_iff.mp hproxy
      obtain ⟨hlist, -, hask⟩ := sole_eq_some hd
      have hsub := hf.drops.sublist id
      rw [hlist, Broker.receivers_lookup, hc, List.singleton_sublist, List.mem_singleton] at hsub
      exact ⟨hsub ▸ hask, rfl⟩
    cases hi : (f.world.component c).lookupInterface id with
    | none =>
      rw [hi] at hsole hafter
      simp only [hi]
      refine Or.inl ⟨_, _, _, rfl, rfl, rfl, hhandle, (resolveInterface_eq_none.mpr hsole).symm, rfl, fun proxy hproxy => ?_,
        by simp [hsole]⟩
      cases (hafter proxy hproxy).1
    | some impl =>
      rw [hi] at hsole hafter
      simp only [hi, copyInterface, hf.drops.implemented]
      cases himpl : w.implemented impl with
      | true =>
        refine Or.inl ⟨_, _, _, rfl, rfl, rfl, hhandle, (resolveInterface_of_sole owner life hsole).symm, rfl,
          fun proxy hproxy => ?_, ?_⟩
        · obtain ⟨himpl', hproxy'⟩ := hafter proxy hproxy
          rw [hproxy', ← Option.some.inj himpl']
        · intro d i hd
          obtain ⟨-, rfl⟩ := Prod.mk.inj (Option.some.inj (hsole.symm.trans hd))
          exact himpl
      | false => exact Or.inr ⟨rfl, c, impl, hsole, himpl⟩

/-- What resolving again does for the one reference that is counted. -/
structure Refetched (id : MessageId) (owner : ComponentId) (life : LifetimeWeakPtr) (w : World)
    (answer : Option InterfaceProxy) (r : InterfaceRef) (w' : World) : Prop where
  holds : w'.Holds r.receiver
  handle : ∀ l, r.resolvedReceivers = some l → w'.HandleOf id l
  resolve : w'.resolveInterface id owner life = w.resolveInterface id owner life
  answer : answer = w.resolveInterface id owner life
  proxy : ∀ proxy, w.resolveInterface id owner life = some proxy → r.localInterfaceProxy = some proxy
  implemented : ∀ c impl, w.sole Component.lookupInterface id = some (c, impl) → w.implemented impl = true

theorem refetched (id : MessageId) (owner : ComponentId) (life : LifetimeWeakPtr) (lost : ComponentId → List ComponentId)
    {w : World} {r : InterfaceRef} (hholds : w.Holds r.receiver) :
    (∃ answer r' w', refetch id owner life lost w r = some (answer, r', w') ∧ Refetched id owner life w answer r' w') ∨
      refetch id owner life lost w r = none ∧
        ∃ c impl, w.sole Component.lookupInterface id = some (c, impl) ∧ w.implemented impl = false := by
  have hf : w.Fetches id (w.fetchReceiver id lost r.receiver) := fetches lost hholds
  refine (relinked id owner life lost w r).imp_left ?_
  rintro ⟨answer, r', w', hout, rfl, hreceiver, hhandle, hanswer, hproxy, -, himpl⟩
  refine ⟨answer, r', _, hout, hreceiver ▸ hf.holds, hhandle, resolveInterface_congr (hf.sole_eq asks_lookupInterface), hanswer, ?_,
    himpl⟩
  intro proxy hsome
  rw [hproxy, hanswer, hsome]
  rfl

/-! ## The invariant -/

theorem sound_init (component : ComponentId → Component) (others : ComponentId → Nat) :
    Sound id owner life (init component others) :=
  ⟨fun _ => rfl, nofun, nofun⟩

theorem sound_of_frame {s : RefState InterfaceRef} {w : World} (h : Sound id owner life s) (hf : Frame id s.world w)
    (hcached : w.cached = s.world.cached) : Sound id owner life { s with world := w } where
  holds c := by rw [hcached]; exact h.holds c
  handle l hl := (h.handle l hl).extends_ hf.extends_
  coherent hproxy hvalid proxy hsome := by
    cases hl : s.ref.resolvedReceivers with
    | none =>
      simp only [hl] at hvalid
      cases hvalid
    | some l =>
      simp only [hl] at hvalid
      obtain ⟨hvalid₀, -⟩ := (h.handle l hl).valid_of_frame hf hvalid
      obtain ⟨⟨c, impl⟩, hsole, -⟩ := Option.map_eq_some_iff.mp hsome
      obtain ⟨hc, halive, -⟩ := sole_eq_some hsole
      obtain ⟨-, heq⟩ := hf.sole_eq asks_lookupInterface (h.handle l hl) hvalid ⟨c, hc, halive⟩
      exact h.coherent hproxy (hl ▸ hvalid₀) proxy ((resolveInterface_congr heq).symm.trans hsome)

theorem sound_step {s s' : RefState InterfaceRef} {a : RefAction} (h : Sound id owner life s)
    (hs : step id owner life s a = some s') : Sound id owner life s' := by
  cases a with
  | world op =>
    obtain ⟨w, hw, rfl⟩ := Option.map_eq_some_iff.mp hs
    exact sound_of_frame h (step_frame hw id) (step_cached hw)
  | lookup lost =>
    obtain ⟨⟨answer, r, w⟩, hout, rfl⟩ := Option.map_eq_some_iff.mp hs
    unfold lookup at hout
    split at hout
    · obtain ⟨-, rfl, rfl⟩ := Option.some.inj hout
      exact h
    · rcases refetched id owner life lost h.holds with ⟨a', r', w', hout', hre⟩ | ⟨hnone, -⟩
      · obtain ⟨-, rfl, rfl⟩ := Option.some.inj (hout'.symm.trans hout)
        exact ⟨hre.holds, hre.handle, fun _ _ proxy hproxy => hre.proxy proxy (hre.resolve.symm.trans hproxy)⟩
      · rw [hnone] at hout
        cases hout

/-- In a sound state, a lookup is right exactly when the proxy is not stale, and the interface implemented. -/
theorem correct_iff_fine {s : RefState InterfaceRef} {a : RefAction} (h : Sound id owner life s) :
    Correct id owner life s a ↔ Fine id s a := by
  cases a with
  | world op => exact Iff.rfl
  | lookup lost =>
    simp only [Correct, Fine, lookup]
    by_cases hhit : (s.ref.localInterfaceProxy.isSome && !s.world.expired s.ref.resolvedReceivers) = true
    · rw [if_pos hhit]
      simp only [Bool.and_eq_true, Bool.not_eq_true'] at hhit
      obtain ⟨hproxy, hvalid⟩ := hhit
      constructor
      · rintro ⟨answer, r, w, heq, hanswer, -⟩
        obtain ⟨rfl, rfl, rfl⟩ := Option.some.inj heq
        refine ⟨fun ⟨_, _, hnone⟩ => ?_, fun ⟨hmiss, _⟩ => hmiss ⟨hproxy, hvalid⟩⟩
        rw [hanswer, resolveInterface_eq_none.mpr hnone] at hproxy
        cases hproxy
      · rintro ⟨hstale, -⟩
        refine ⟨_, _, _, rfl, ?_, rfl⟩
        cases hres : s.world.resolveInterface id owner life with
        | none => exact absurd ⟨hproxy, hvalid, resolveInterface_eq_none.mp hres⟩ hstale
        | some proxy => exact h.coherent hproxy hvalid proxy hres
    · rw [if_neg hhit]
      simp only [Bool.and_eq_true, Bool.not_eq_true'] at hhit
      rcases refetched id owner life lost h.holds with
        ⟨answer, r, w, hout, hre⟩ | ⟨hnone, c, impl, hsole, himpl⟩
      · refine ⟨fun _ => ⟨fun ⟨hproxy, hvalid, _⟩ => hhit ⟨hproxy, hvalid⟩, fun ⟨_, c, impl, hsole, himpl⟩ => ?_⟩,
          fun _ => ⟨answer, r, w, hout, hre.answer, hre.resolve⟩⟩
        rw [hre.implemented c impl hsole] at himpl
        cases himpl
      · refine ⟨fun ⟨answer, r, w, hsome, _⟩ => ?_, fun ⟨_, hfine⟩ => absurd ⟨hhit, c, impl, hsole, himpl⟩ hfine⟩
        rw [hnone] at hsome
        cases hsome

end InterfaceRefAux

open InterfaceRef InterfaceRefAux

/-- Every lookup of a run returns a proxy linked to the interface that is published now, or a null pointer when there is none, if
and only if no lookup is made on a stale proxy, and none has to make a proxy of an interface that is not implemented yet. -/
theorem interfaceRef_correct_iff (id : MessageId) (owner : ComponentId) (life : LifetimeWeakPtr)
    (component : ComponentId → Component) (others : ComponentId → Nat) (acts : List RefAction) :
    AllSteps (step id owner life) (Correct id owner life) (init component others) acts ↔
      AllSteps (step id owner life) (Fine id) (init component others) acts :=
  allSteps_congr (fun _ _ _ => sound_step) (fun _ _ => correct_iff_fine) (sound_init component others)

/-- A run on which the condition fails: component 1 implements and publishes interface 70, the reference makes a proxy of it, the
component unpublishes, and the reference is looked up twice. The first of these lookups rightly returns a null pointer; the
second returns the proxy of the interface that is gone. -/
def staleProxyRun : List RefAction :=
  [.world (.implement 70), .world (.publishInterface 1 7 70), .world (.publishDependencies 1), .lookup fun _ => [],
    .world (.unpublishDependencies 1), .lookup fun _ => [], .lookup fun _ => []]

/-- Not every lookup of every run returns a proxy of what is published now. -/
theorem interfaceRef_stale_proxy :
    ¬∀ acts, AllSteps (step 7 0 ⟨0, 0⟩) (Correct 7 0 ⟨0, 0⟩)
      (init (fun c => { defaultExecutor := c }) (fun _ => 1)) acts := by
  intro h
  have hlast := allSteps_iff.mp (h staleProxyRun) (staleProxyRun.take 6) (.lookup fun _ => []) []
  obtain ⟨s, hs⟩ : ∃ s, run (step 7 0 ⟨0, 0⟩) (init (fun c => { defaultExecutor := c }) (fun _ => 1))
      (staleProxyRun.take 6) = some s := ⟨_, rfl⟩
  obtain ⟨answer, r, w, hout, hanswer, -⟩ := hlast s rfl hs
  obtain rfl := Option.some.inj hs
  have hproxy : answer = some ⟨70, 0, ⟨0, 0⟩⟩ := by
    obtain ⟨rfl, -⟩ := Option.some.inj hout
    decide
  rw [hproxy] at hanswer
  revert hanswer
  decide

end Minicomps
