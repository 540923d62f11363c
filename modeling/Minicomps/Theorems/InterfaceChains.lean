import Minicomps.InterfaceChains
import Minicomps.Theorems.InterfaceRef

/-!
# When a chain of interfaces is as good as its first one

A clone has no function in its own `clone`, so a chain ends after one step. And since each interface caches for itself, and none clears its
proxy before it resolves again, one may go on answering with a proxy that another one has never had.
-/

namespace Minicomps

open Transition

namespace InterfaceChainAux

open InterfaceChain InterfaceRefAux World

variable {id : MessageId} {owner : ComponentId} {w w' : World} {link : ChainLink}

/-- What holds of each interface of a chain. -/
structure Sound (id : MessageId) (w : World) (link : ChainLink) : Prop where
  handle : ∀ l, link.ref.resolvedReceivers = some l → w.HandleOf id l
  /-- A proxy that passes for valid is right whenever there is anything to link to. -/
  coherent : w.expired link.ref.resolvedReceivers = false → ∀ proxy, link.ref.localInterfaceProxy = some proxy →
    ∀ c impl, w.sole Component.lookupInterface id = some (c, impl) → proxy.linkedInterface = impl
  made : ∀ proxy, link.ref.localInterfaceProxy = some proxy → w.implemented proxy.linkedInterface = true
  bound : ∀ proxy, link.ref.localInterfaceProxy = some proxy → proxy.sendingLifetime = link.lifetime

theorem sound_new (w : World) (lifetime : LifetimeWeakPtr) (canClone : Bool) : Sound id w { lifetime, canClone } :=
  ⟨nofun, nofun, nofun, nofun⟩

/-- What others do to the world leaves an interface sound. -/
theorem Sound.frame (h : Sound id w link) (hf : Frame id w w') (himpl : ∀ impl, w.implemented impl = true → w'.implemented impl = true) :
    Sound id w' link where
  handle l hl := (h.handle l hl).extends_ hf.extends_
  coherent hvalid proxy hproxy c impl hsole := by
    cases hl : link.ref.resolvedReceivers with
    | none =>
      rw [hl] at hvalid
      cases hvalid
    | some l =>
      rw [hl] at hvalid
      obtain ⟨hvalid₀, -⟩ := (h.handle l hl).valid_of_frame hf hvalid
      obtain ⟨hc, halive, -⟩ := sole_eq_some hsole
      obtain ⟨-, heq⟩ := hf.sole_eq asks_lookupInterface (h.handle l hl) hvalid ⟨c, hc, halive⟩
      exact h.coherent (hl ▸ hvalid₀) proxy hproxy c impl (heq.symm.trans hsole)
  made proxy hproxy := himpl _ (h.made proxy hproxy)
  bound := h.bound

/-! ## Looking up -/

/-- What a lookup through a reference does when it returns: to the world what dropping pointers does, and to the reference what keeps it
sound. -/
structure LookedUp (id : MessageId) (w : World) (link : ChainLink) (answer : Option InterfaceProxy) (ref : InterfaceRef) (w' : World) :
    Prop where
  frame : Frame id w w'
  implemented : w'.implemented = w.implemented
  sound : Sound id w' { link with ref }
  bound : ∀ proxy, answer = some proxy → proxy.sendingLifetime = link.lifetime

theorem map_resolveInterface (w : World) (life : LifetimeWeakPtr) :
    (w.resolveInterface id owner life).map InterfaceProxy.linkedInterface = (w.sole Component.lookupInterface id).map Prod.snd := by
  rw [resolveInterface, Option.map_map]
  rfl

/-- Resolving again keeps an interface sound. -/
theorem lookedUp_of_relinked (h : Sound id w link) {lost : ComponentId → List ComponentId} {answer : Option InterfaceProxy}
    {ref : InterfaceRef}
    (hre : Relinked id owner link.lifetime w link.ref (w.fetchReceiver id lost link.ref.receiver) answer ref w') :
    LookedUp id w link answer ref w' := by
  have hf : w.Fetching id (w.fetchReceiver id lost link.ref.receiver) := fetching lost w link.ref.receiver
  obtain rfl := hre.world
  have himpl : (w.fetchReceiver id lost link.ref.receiver).world.implemented = w.implemented := hf.drops.implemented
  -- a proxy that has just been made
  have hnew : ∀ proxy, answer = some proxy → w.implemented proxy.linkedInterface = true ∧ proxy.sendingLifetime = link.lifetime := by
    intro proxy hproxy
    obtain ⟨⟨c, impl⟩, hsole, rfl⟩ := Option.map_eq_some_iff.mp (hre.resolves.symm.trans hproxy)
    exact ⟨hre.implemented c impl hsole, rfl⟩
  have hproxy : ∀ proxy, ref.localInterfaceProxy = some proxy → answer = some proxy ∨ link.ref.localInterfaceProxy = some proxy := by
    intro proxy hp
    rw [hre.proxy, Option.or_eq_some_iff] at hp
    exact hp.imp_right And.right
  refine ⟨(frame_broker (Broker.extends_lookup w.broker id)).trans (hf.drops.frame id), himpl, ⟨hre.handle, ?_, ?_, ?_⟩,
    fun p hp => (hnew p hp).2⟩
  · intro _ proxy hp c impl hsole
    have hanswer := hre.after _ (resolveInterface_of_sole owner link.lifetime hsole)
    have hp : ref.localInterfaceProxy = some proxy := hp
    rw [hre.proxy, hanswer, Option.some_or] at hp
    rw [← Option.some.inj hp]
  · intro proxy hp
    rw [himpl]
    exact (hproxy proxy hp).elim (fun hanswer => (hnew proxy hanswer).1) (h.made proxy)
  · exact fun proxy hp => (hproxy proxy hp).elim (fun hanswer => (hnew proxy hanswer).2) (h.bound proxy)

/-- A lookup gives what there is to link to, and where there is nothing, the stale proxy. -/
theorem lookup_spec (owner : ComponentId) (h : Sound id w link) (lost : ComponentId → List ComponentId) :
    (∃ answer ref w', link.ref.lookup id owner link.lifetime lost w = some (answer, ref, w') ∧ LookedUp id w link answer ref w' ∧
        answer.map InterfaceProxy.linkedInterface = ((w.sole Component.lookupInterface id).map Prod.snd).or (stale id w link) ∧
        ∀ c impl, w.sole Component.lookupInterface id = some (c, impl) → w.implemented impl = true) ∨
      link.ref.lookup id owner link.lifetime lost w = none ∧
        ∃ c impl, w.sole Component.lookupInterface id = some (c, impl) ∧ w.implemented impl = false := by
  unfold InterfaceRef.lookup
  by_cases hhit : (link.ref.localInterfaceProxy.isSome && !w.expired link.ref.resolvedReceivers) = true
  · rw [if_pos hhit]
    simp only [Bool.and_eq_true, Bool.not_eq_true'] at hhit
    obtain ⟨hproxy, hvalid⟩ := hhit
    obtain ⟨proxy, hproxy⟩ := Option.isSome_iff_exists.mp hproxy
    refine Or.inl ⟨_, _, _, rfl, ⟨(Drops.refl w).frame id, rfl, h, h.bound⟩, ?_, fun c impl hsole => ?_⟩
    · cases hsole : w.sole Component.lookupInterface id with
      | none => simp [stale, hvalid, hsole]
      | some found => simp [hproxy, h.coherent hvalid proxy hproxy found.1 found.2 hsole]
    · exact h.coherent hvalid proxy hproxy c impl hsole ▸ h.made proxy hproxy
  · rw [if_neg hhit]
    have hstale : stale id w link = none := by
      simp only [Bool.and_eq_true, Bool.not_eq_true', not_and, Bool.not_eq_false] at hhit
      unfold stale
      cases hproxy : link.ref.localInterfaceProxy with
      | none => exact ite_self none
      | some proxy => simp [hhit (hproxy ▸ rfl)]
    rw [hstale, Option.or_none]
    refine (relinked id owner link.lifetime lost w link.ref).imp_left ?_
    rintro ⟨answer, ref, w', hout, hre⟩
    exact ⟨answer, ref, w', hout, lookedUp_of_relinked h hre, hre.resolves ▸ map_resolveInterface w link.lifetime, hre.implemented⟩

theorem stale_of_sole {c : ComponentId} {impl : InterfaceId} (h : w.sole Component.lookupInterface id = some (c, impl)) :
    stale id w link = none := by
  simp [stale, h]

/-! ## The chain -/

structure Inv (id : MessageId) (s : InterfaceChain) : Prop where
  nonempty : 0 < s.links.length
  /-- Only the first interface can be cloned. -/
  clones : ∀ k link, s.links[k]? = some link → (link.canClone = true ↔ k = 0)
  sound : ∀ link ∈ s.links, Sound id s.world link

variable {s s' : InterfaceChain} {k : Nat} {lost : ComponentId → List ComponentId}

theorem inv_init (component : ComponentId → Component) (others : ComponentId → Nat) (lifetimes : Lifetimes)
    (defaultLifetime : LifetimeId) : Inv id (init component others lifetimes defaultLifetime) := by
  refine ⟨Nat.one_pos, fun k link hk => ?_, fun link hlink => ?_⟩
  · obtain ⟨hlt, hlink⟩ := List.getElem?_eq_some_iff.mp hk
    obtain rfl : k = 0 := Nat.lt_one_iff.mp hlt
    obtain rfl := hlink
    exact iff_of_true rfl rfl
  · obtain rfl := List.mem_singleton.mp hlink
    exact sound_new _ _ _

theorem lookup_eq (hlink : s.links[k]? = some link) : s.lookup id owner k lost =
    (link.ref.lookup id owner link.lifetime lost s.world).map fun (answer, ref, w) =>
      (answer, { s with world := w, links := s.links.set k { link with ref } }) := by
  rw [lookup, hlink]
  rfl

/-- What an interface resolves to depends on the interface by its stale proxy only. -/
theorem target_eq (h : Inv id s) (hlink : s.links[k]? = some link) :
    s.target id owner k lost = match s.world.sole Component.lookupInterface id with
      | some (_, impl) => if s.world.implemented impl then some (some impl) else none
      | none => some (stale id s.world link) := by
  rw [target, lookup_eq hlink, Option.map_map]
  rcases lookup_spec owner (h.sound link (List.mem_of_getElem? hlink)) lost with
    ⟨answer, ref, w, hout, -, hanswer, himpl⟩ | ⟨hnone, c, impl, hsole, himpl⟩
  · rw [hout, Option.map_some]
    show some (answer.map InterfaceProxy.linkedInterface) = _
    rw [hanswer]
    cases hsole : s.world.sole Component.lookupInterface id with
    | none => rfl
    | some found => simp [himpl found.1 found.2 hsole]
  · simp [hnone, hsole, himpl]

theorem target_eq_iff (h : Inv id s) {first : ChainLink} (hlink : s.links[k]? = some link) (hfirst : s.links[0]? = some first) :
    s.target id owner k lost = s.target id owner 0 lost ↔ stale id s.world link = stale id s.world first := by
  rw [target_eq h hlink, target_eq h hfirst]
  cases hsole : s.world.sole Component.lookupInterface id with
  | none => exact Option.some_inj
  | some found => exact iff_of_true rfl ((stale_of_sole hsole).trans (stale_of_sole hsole).symm)

/-- The other interfaces stay sound while one is looked up. -/
theorem inv_lookup (h : Inv id s) {answer : Option InterfaceProxy} (hs : s.lookup id owner k lost = some (answer, s')) :
    Inv id s' ∧ s'.calls = s.calls ∧
      ∀ link, s.links[k]? = some link → ∀ proxy, answer = some proxy → proxy.sendingLifetime = link.lifetime := by
  cases hlink : s.links[k]? with
  | none =>
    rw [lookup, hlink] at hs
    cases hs
  | some link =>
    rw [lookup_eq hlink] at hs
    rcases lookup_spec owner (h.sound link (List.mem_of_getElem? hlink)) lost with
      ⟨answer', ref, w, hout, hspec, -, -⟩ | ⟨hnone, -⟩
    · rw [hout, Option.map_some] at hs
      obtain ⟨rfl, rfl⟩ := Prod.mk.inj (Option.some.inj hs)
      refine ⟨⟨?_, fun j link' hj => ?_, fun link' hmem => ?_⟩, rfl, ?_⟩
      · rw [List.length_set]
        exact h.nonempty
      · rw [List.getElem?_set] at hj
        split at hj
        · rename_i heq
          subst heq
          split at hj
          · obtain rfl := Option.some.inj hj
            exact h.clones k link hlink
          · cases hj
        · exact h.clones j link' hj
      · rcases List.mem_or_eq_of_mem_set hmem with hold | rfl
        · exact (h.sound link' hold).frame hspec.frame fun impl himpl => hspec.implemented ▸ himpl
        · exact hspec.sound
      · rintro link' ⟨⟩ proxy hproxy
        exact hspec.bound proxy hproxy
    · rw [hnone] at hs
      cases hs

/-- The constructor of the next interface succeeds while there is only the first one. -/
theorem construct_spec (h : Inv id s) (life : LifetimeId) :
    (s.links.length = 1 ∧ s.construct life =
        some { s with links := s.links ++ [{ lifetime := s.lifetimes.createWeakPtr life, canClone := false }] }) ∨
      s.links.length ≠ 1 ∧ s.construct life = none := by
  have hlt : s.links.length - 1 < s.links.length := Nat.sub_lt h.nonempty Nat.one_pos
  have hlast := List.getElem?_eq_getElem hlt
  have hclones := h.clones _ _ hlast
  rw [← List.getLast?_eq_getElem?] at hlast
  simp only [construct, hlast, Option.bind_some, clone]
  by_cases hone : s.links.length = 1
  · refine Or.inl ⟨hone, ?_⟩
    rw [if_pos (hclones.mpr (by omega))]
    rfl
  · refine Or.inr ⟨hone, ?_⟩
    rw [if_neg fun hcan => hone (by have hzero := hclones.mp hcan; omega)]
    rfl

theorem inv_step (h : Inv id s) {a : ChainAction} (hs : s.step id owner a = some s') : Inv id s' := by
  cases a with
  | world op =>
    obtain ⟨w, hw, rfl⟩ := Option.map_eq_some_iff.mp hs
    exact ⟨h.nonempty, h.clones, fun link hlink => (h.sound link hlink).frame (step_frame hw id) fun _ => step_implemented hw⟩
  | reset l =>
    obtain rfl := Option.some.inj hs
    exact ⟨h.nonempty, h.clones, h.sound⟩
  | construct life =>
    obtain rfl := Option.some.inj hs
    rcases construct_spec h life with ⟨hone, hnew⟩ | ⟨-, hnone⟩
    · rw [hnew, Option.getD_some]
      refine ⟨by simp, fun k link hk => ?_, fun link hlink => ?_⟩
      · by_cases hlt : k < s.links.length
        · exact h.clones k link (List.getElem?_append_left hlt ▸ hk)
        · simp only [List.getElem?_append_right (Nat.not_lt.mp hlt)] at hk
          obtain rfl := List.mem_singleton.mp (List.mem_of_getElem? hk)
          have hnonempty := h.nonempty
          exact iff_of_false Bool.false_ne_true (by omega)
      · rcases List.mem_append.mp hlink with hold | hlast
        · exact h.sound link hold
        · obtain rfl := List.mem_singleton.mp hlast
          exact sound_new _ _ _
    · rw [hnone]
      exact h
  | lookup k lost =>
    obtain ⟨⟨answer, t⟩, hlookup, rfl⟩ := Option.map_eq_some_iff.mp hs
    exact (inv_lookup h hlookup).1
  | call k lost =>
    obtain ⟨⟨answer, t⟩, hlookup, hcall⟩ := Option.bind_eq_some_iff.mp hs
    obtain ⟨proxy, -, rfl⟩ := Option.map_eq_some_iff.mp hcall
    obtain ⟨hinv, -, -⟩ := inv_lookup h hlookup
    exact ⟨hinv.nonempty, hinv.clones, hinv.sound⟩

/-- A step is correct exactly when it meets the condition. -/
theorem correct_iff_fine (h : Inv id s) (a : ChainAction) : s.Correct id owner a ↔ s.Fine id a := by
  obtain ⟨first, hfirst⟩ : ∃ first, s.links[0]? = some first := ⟨_, List.getElem?_eq_getElem h.nonempty⟩
  have hsame : ∀ k lost, (∀ link, s.links[k]? = some link → s.target id owner k lost = s.target id owner 0 lost) ↔
      ∀ link first, s.links[k]? = some link → s.links[0]? = some first → stale id s.world link = stale id s.world first := by
    intro k lost
    constructor
    · exact fun hall link first hlink hfirst => (target_eq_iff h hlink hfirst).mp (hall link hlink)
    · exact fun hall link hlink => (target_eq_iff h hlink hfirst).mpr (hall link first hlink hfirst)
  cases a with
  | world | reset => exact Iff.rfl
  | construct life =>
    rcases construct_spec h life with ⟨hone, hnew⟩ | ⟨hmany, hnone⟩
    · exact iff_of_true ⟨_, _, hnew, rfl, rfl⟩ hone
    · refine iff_of_false ?_ hmany
      rintro ⟨t, link, ht, -⟩
      rw [hnone] at ht
      cases ht
  | lookup k lost => exact hsame k lost
  | call k lost =>
    rw [show s.Fine id (.call k lost) = s.Fine id (.lookup k lost) from rfl]
    refine Iff.trans ?_ (hsame k lost)
    refine ⟨fun hall link hlink => (hall link hlink).1, fun hall link hlink => ⟨hall link hlink, fun t ht => ?_⟩⟩
    obtain ⟨⟨answer, t'⟩, hlookup, hcall⟩ := Option.bind_eq_some_iff.mp ht
    obtain ⟨proxy, hproxy, rfl⟩ := Option.map_eq_some_iff.mp hcall
    obtain ⟨-, hcalls, hbound⟩ := inv_lookup h hlookup
    rw [← hbound link hlink proxy hproxy, ← hcalls]

end InterfaceChainAux

namespace InterfaceChain

open InterfaceChainAux

/-- In a run, every interface of a chain can be made from the one before it, resolves to what the first one resolves to, and binds its
calls to its own lifetime, exactly as long as none is made from a clone, and none is looked up where it has another stale proxy than the first
one has. -/
theorem correct_iff (id : MessageId) (owner : ComponentId) (component : ComponentId → Component) (others : ComponentId → Nat)
    (lifetimes : Lifetimes) (defaultLifetime : LifetimeId) (acts : List ChainAction) :
    AllSteps (step id owner) (Correct id owner) (init component others lifetimes defaultLifetime) acts ↔
      AllSteps (step id owner) (Fine id) (init component others lifetimes defaultLifetime) acts :=
  allSteps_congr (fun _ _ _ h hs => inv_step h hs) (fun _ a h => correct_iff_fine h a) (inv_init component others lifetimes defaultLifetime)

/-- A clone cannot be cloned. -/
theorem clone_ofClone :
    ¬∀ acts, AllSteps (step 7 0) (Correct 7 0) (init (fun c => { defaultExecutor := c }) (fun _ => 1) (fun _ => 0) 0) acts := by
  intro h
  obtain ⟨s, link, hs, -⟩ := allSteps_iff.mp (h [.construct 1, .construct 2]) [.construct 1] (.construct 2) [] _ rfl rfl
  cases hs

end InterfaceChain

end Minicomps
