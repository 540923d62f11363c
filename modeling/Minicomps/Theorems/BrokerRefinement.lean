import Minicomps.Broker
import Minicomps.Lib.Transition

/-!
# The broker is a registry of live components

What the broker is for is a map from messages to the live components registered under them, in order (`Registry`). The broker
computes it with lists of weak pointers that are copied on every change. Here the broker runs among components that die and
code that holds on to lists; the registry follows it step by step, and the handles `lookup` returns expire exactly when the
message is touched.
-/

namespace Minicomps

/-! ## The abstract model -/

/-- Who is registered under each key and alive, in order of registration. -/
structure Registry (κ γ : Type*) where
  members : κ → List γ
  live : γ → Bool

namespace Registry

variable {κ γ : Type*} [DecidableEq κ] [DecidableEq γ]

def associate (r : Registry κ γ) (k : κ) (c : γ) : Registry κ γ :=
  { r with members := Function.update r.members k (if r.live c then r.members k ++ [c] else r.members k) }

/-- Remove every occurrence of the component under one key. -/
def disassociate (r : Registry κ γ) (k : κ) (c : γ) : Registry κ γ :=
  { r with members := Function.update r.members k ((r.members k).filter (· != c)) }

def disassociateEverything (r : Registry κ γ) (c : γ) : Registry κ γ :=
  { r with members := fun k => (r.members k).filter (· != c) }

/-- A component that dies is forgotten under every key. -/
def forget (r : Registry κ γ) (c : γ) : Registry κ γ :=
  { members := fun k => (r.members k).filter (· != c), live := Function.update r.live c false }

end Registry

/-! ## The broker among components that die and code that holds lists -/

/-- What can happen to a broker. `die` is the moment the last strong pointer to a component goes: its weak pointers can no
longer be locked. A published component's destructor then goes on to `disassociateEverything`. `hold` locks a handle into a
strong pointer and keeps it, `release` drops such a pointer. -/
inductive BrokerOp where
  | associate (id : MessageId) (comp : ComponentId)
  | disassociate (id : MessageId) (comp : ComponentId)
  | invalidate (id : MessageId)
  | disassociateEverything (comp : ComponentId)
  | lookup (id : MessageId)
  | die (comp : ComponentId)
  | hold (l : ListId)
  | release (l : ListId)

/-- The operation makes a new list for the message, if it has one. -/
def BrokerOp.touches : BrokerOp → MessageId → Prop
  | .associate id' _, id | .disassociate id' _, id | .invalidate id', id => id = id'
  | .disassociateEverything _, _ => True
  | .lookup _, _ | .die _, _ | .hold _, _ | .release _, _ => False

/-- The one message an operation is about. -/
def BrokerOp.on : BrokerOp → Option MessageId
  | .associate id _ | .disassociate id _ | .invalidate id | .lookup id => some id
  | .disassociateEverything _ | .die _ | .hold _ | .release _ => none

/-- A broker, which components are alive, and the lists somebody holds by a strong pointer. -/
structure BrokerState where
  broker : Broker
  alive : ComponentId → Bool
  held : List ListId

namespace BrokerState

/-- A new broker among the given components. -/
def init (alive : ComponentId → Bool) : BrokerState := ⟨Broker.empty, alive, []⟩

/-- `expired()` of a weak pointer to a list: neither the broker nor anybody else holds it. -/
def expired (s : BrokerState) (l : ListId) : Bool := !s.broker.owns l && !s.held.contains l

def step (s : BrokerState) : BrokerOp → Option BrokerState
  | .associate id comp => some { s with broker := s.broker.associate id comp }
  | .disassociate id comp => (s.broker.disassociate s.alive id comp).map ({ s with broker := · })
  | .invalidate id => some { s with broker := s.broker.invalidate id }
  | .disassociateEverything comp => (s.broker.disassociateEverything s.alive comp).map ({ s with broker := · })
  | .lookup id => some { s with broker := (s.broker.lookup id).1 }
  | .die comp => some { s with alive := Function.update s.alive comp false }
  | .hold l => some (if s.expired l then s else { s with held := l :: s.held })
  | .release l => some { s with held := s.held.erase l }

/-- The members of the list `lookup(id)` returns that can be locked, in order. -/
def liveMembers (s : BrokerState) (id : MessageId) : List ComponentId :=
  ((s.broker.lookup id).1.activeLookups.heap (s.broker.lookup id).2).filter s.alive

end BrokerState

/-- What an operation on the broker does to the registry. -/
def Registry.apply (r : Registry MessageId ComponentId) : BrokerOp → Option (Registry MessageId ComponentId)
  | .associate id comp => some (r.associate id comp)
  | .disassociate id comp => some (r.disassociate id comp)
  | .disassociateEverything comp => some (r.disassociateEverything comp)
  | .die comp => some (r.forget comp)
  | .invalidate _ | .lookup _ | .hold _ | .release _ => some r

/-- The registry says who the live members of every list are, and who is alive. -/
structure Refines (s : BrokerState) (r : Registry MessageId ComponentId) : Prop where
  members : ∀ id, s.liveMembers id = r.members id
  live : s.alive = r.live

namespace BrokerAux

open BrokerState

theorem liveMembers_eq (s : BrokerState) (id : MessageId) : s.liveMembers id = (s.broker.receivers id).filter s.alive := by
  rw [liveMembers, Broker.heap_lookup]

/-- Among live members, the loop of `disassociate` removes the component and nothing else. -/
theorem filter_keepOthers (alive : ComponentId → Bool) (comp : ComponentId) (xs : MessageReceivers) :
    (Broker.keepOthers alive comp xs).filter alive = (xs.filter alive).filter (· != comp) := by
  simp only [Broker.keepOthers, List.filter_filter]
  congr 1
  funext x
  cases alive x <;> simp

/-- A component that dies drops out of the live members of a list. -/
theorem filter_update_false (alive : ComponentId → Bool) (comp : ComponentId) (xs : MessageReceivers) :
    xs.filter (Function.update alive comp false) = (xs.filter alive).filter (· != comp) := by
  rw [List.filter_filter]
  congr 1
  funext x
  by_cases h : x = comp
  · subst h; simp
  · simp [h]

/-- Every step extends the broker's lists. -/
theorem step_extends {s s' : BrokerState} {op : BrokerOp} (h : s.step op = some s') : s.broker.Extends s'.broker := by
  cases op with
  | associate id comp =>
    obtain rfl := Option.some.inj h
    exact (Broker.associate_spec s.broker id comp).1
  | disassociate id comp =>
    obtain ⟨b, hb, rfl⟩ := Option.map_eq_some_iff.mp h
    exact (Broker.disassociate_spec hb).1
  | invalidate id =>
    obtain rfl := Option.some.inj h
    exact (Broker.invalidate_spec s.broker id).1
  | disassociateEverything comp =>
    obtain ⟨b, hb, rfl⟩ := Option.map_eq_some_iff.mp h
    obtain ⟨b', hb', hext, -⟩ := Broker.disassociateEverything_spec s.alive s.broker comp
    exact Option.some.inj (hb'.symm.trans hb) ▸ hext
  | lookup id =>
    obtain rfl := Option.some.inj h
    exact Broker.extends_lookup s.broker id
  | die comp => obtain rfl := Option.some.inj h; exact Broker.Extends.refl _
  | hold l =>
    obtain rfl := Option.some.inj h
    split <;> exact Broker.Extends.refl _
  | release l => obtain rfl := Option.some.inj h; exact Broker.Extends.refl _

theorem run_extends {s s' : BrokerState} {ops : List BrokerOp} (h : Transition.run step s ops = some s') :
    s.broker.Extends s'.broker :=
  Transition.run_relates (R := fun s t => s.broker.Extends t.broker) (fun _ => Broker.Extends.refl _)
    (fun _ _ _ => Broker.Extends.trans) (fun _ _ _ => step_extends) h

/-- The live members of a list after the lists of one message changed: the others are as they were. -/
theorem liveMembers_update {s s' : BrokerState} {id : MessageId} {xs : List ComponentId} (halive : s'.alive = s.alive)
    (hext : s.broker.Extends s'.broker) (hon : (s'.broker.receivers id).filter s.alive = xs)
    (hother : ∀ id', id' ≠ id → s.broker.Untouched s'.broker id') :
    ∀ id', s'.liveMembers id' = Function.update s.liveMembers id xs id' := by
  intro id'
  rw [liveMembers_eq, halive]
  by_cases hid : id' = id
  · subst hid
    rw [hon, Function.update_self]
  · rw [Function.update_of_ne hid, liveMembers_eq, Broker.receivers_of_untouched hext (hother id' hid)]

/-- A step of the broker is matched by the registry's. -/
theorem step_refines : Transition.Simulates step Registry.apply id Refines := by
  intro s r op s' hR h
  have hmem : s.liveMembers = r.members := funext hR.members
  have hrec : ∀ id, (s.broker.receivers id).filter s.alive = r.members id := fun id =>
    (liveMembers_eq s id).symm.trans (hR.members id)
  cases op with
  | associate id comp =>
    refine ⟨_, rfl, ?_, Option.some.inj h ▸ hR.live⟩
    obtain ⟨hext, -, hon, hother⟩ := Broker.associate_spec s.broker id comp
    obtain rfl := Option.some.inj h
    simp only [Registry.associate, ← hmem]
    refine liveMembers_update rfl hext ?_ hother
    rw [hon, List.filter_append, liveMembers_eq, ← hR.live]
    cases hc : s.alive comp <;> simp [hc]
  | disassociate id comp =>
    obtain ⟨b, hb, rfl⟩ := Option.map_eq_some_iff.mp h
    refine ⟨_, rfl, ?_, hR.live⟩
    obtain ⟨hext, -, hon, hother⟩ := Broker.disassociate_spec hb
    simp only [Registry.disassociate, ← hmem]
    refine liveMembers_update rfl hext ?_ hother
    rw [hon, filter_keepOthers, liveMembers_eq]
  | invalidate id =>
    refine ⟨_, rfl, ?_, Option.some.inj h ▸ hR.live⟩
    obtain ⟨hext, -, hon, hother⟩ := Broker.invalidate_spec s.broker id
    obtain rfl := Option.some.inj h
    intro id'
    rw [liveMembers_eq, ← hrec id']
    by_cases hid : id' = id
    · rw [hid, hon]
    · rw [Broker.receivers_of_untouched hext (hother id' hid)]
  | disassociateEverything comp =>
    obtain ⟨b, hb, rfl⟩ := Option.map_eq_some_iff.mp h
    refine ⟨_, rfl, ?_, hR.live⟩
    intro id'
    obtain ⟨b', hb', -, hon, -⟩ := Broker.disassociateEverything_spec s.alive s.broker comp
    obtain rfl := Option.some.inj (hb'.symm.trans hb)
    rw [liveMembers_eq, hon, filter_keepOthers, hrec]
    rfl
  | lookup id =>
    refine ⟨_, rfl, ?_, Option.some.inj h ▸ hR.live⟩
    intro id'
    obtain ⟨-, -, -, hon, -⟩ := Broker.lookup_spec s.broker id
    obtain rfl := Option.some.inj h
    rw [liveMembers_eq, hon, hrec]
  | die comp =>
    obtain rfl := Option.some.inj h
    refine ⟨_, rfl, ?_, ?_⟩
    · intro id'
      rw [liveMembers_eq, filter_update_false, hrec]
      rfl
    · simp only [Registry.forget, hR.live]
  | hold l =>
    obtain rfl := Option.some.inj h
    refine ⟨r, rfl, ?_⟩
    split
    · exact hR
    · exact ⟨hR.members, hR.live⟩
  | release l =>
    obtain rfl := Option.some.inj h
    exact ⟨r, rfl, hR.members, hR.live⟩

theorem refines_init (alive : ComponentId → Bool) : Refines (init alive) ⟨fun _ => [], alive⟩ := by
  refine ⟨?_, rfl⟩
  intro id
  rw [liveMembers_eq]
  simp [init, Broker.empty, Broker.receivers]

/-- An operation on one message leaves the live members of every other message unchanged. -/
theorem step_frame {s s' : BrokerState} {op : BrokerOp} {id id' : MessageId} (h : s.step op = some s')
    (hon : op.on = some id) (hne : id' ≠ id) : s'.liveMembers id' = s.liveMembers id' := by
  have hext := step_extends h
  have key : s'.alive = s.alive → s.broker.Untouched s'.broker id' → s'.liveMembers id' = s.liveMembers id' := by
    intro ha hu
    rw [liveMembers_eq, liveMembers_eq, Broker.receivers_of_untouched hext hu, ha]
  cases op with
  | associate i comp =>
    obtain rfl := Option.some.inj hon
    obtain rfl := Option.some.inj h
    exact key rfl ((Broker.associate_spec s.broker i comp).2.2.2 id' hne)
  | disassociate i comp =>
    obtain rfl := Option.some.inj hon
    obtain ⟨b, hb, rfl⟩ := Option.map_eq_some_iff.mp h
    exact key rfl ((Broker.disassociate_spec hb).2.2.2 id' hne)
  | invalidate i =>
    obtain rfl := Option.some.inj hon
    obtain rfl := Option.some.inj h
    exact key rfl ((Broker.invalidate_spec s.broker i).2.2.2 id' hne)
  | lookup i =>
    obtain rfl := Option.some.inj hon
    obtain rfl := Option.some.inj h
    exact key rfl ((Broker.lookup_spec s.broker i).2.2.2.2 id' hne)
  | disassociateEverything | die | hold | release => cases hon

/-! ## Handles -/

/-- A step that does not touch a message leaves it its list. -/
theorem step_find_of_not_touches {s s' : BrokerState} {op : BrokerOp} {id : MessageId} {l : ListId}
    (h : s.step op = some s') (ht : ¬op.touches id) (hl : s.broker.activeLookups.find id = some l) :
    s'.broker.activeLookups.find id = some l := by
  cases op with
  | associate i comp =>
    obtain rfl := Option.some.inj h
    exact ((Broker.associate_spec s.broker i comp).2.2.2 id ht).trans hl
  | disassociate i comp =>
    obtain ⟨b, hb, rfl⟩ := Option.map_eq_some_iff.mp h
    exact ((Broker.disassociate_spec hb).2.2.2 id ht).trans hl
  | invalidate i =>
    obtain rfl := Option.some.inj h
    exact ((Broker.invalidate_spec s.broker i).2.2.2 id ht).trans hl
  | disassociateEverything comp => exact absurd trivial ht
  | lookup i =>
    obtain rfl := Option.some.inj h
    obtain ⟨-, hfind, hsame, -, hother⟩ := Broker.lookup_spec s.broker i
    by_cases hid : id = i
    · subst hid
      rw [hsame l hl]
      exact hl
    · exact (hother id hid).trans hl
  | die comp => obtain rfl := Option.some.inj h; exact hl
  | hold l' =>
    obtain rfl := Option.some.inj h
    split <;> exact hl
  | release l' => obtain rfl := Option.some.inj h; exact hl

/-- A step that touches a message gives it a list made just now. -/
theorem step_renewed_of_touches {s s' : BrokerState} {op : BrokerOp} {id : MessageId} {l : ListId}
    (h : s.step op = some s') (ht : op.touches id) (hl : s.broker.activeLookups.find id = some l) :
    s.broker.Renewed s'.broker id := by
  have hsome : (s.broker.activeLookups.find id).isSome := by rw [hl]; rfl
  cases op with
  | associate i comp =>
    obtain rfl : id = i := ht
    obtain rfl := Option.some.inj h
    exact (Broker.associate_spec s.broker id comp).2.1
  | disassociate i comp =>
    obtain rfl : id = i := ht
    obtain ⟨b, hb, rfl⟩ := Option.map_eq_some_iff.mp h
    exact (Broker.disassociate_spec hb).2.1
  | invalidate i =>
    obtain rfl : id = i := ht
    obtain rfl := Option.some.inj h
    exact (Broker.invalidate_spec s.broker id).2.1 hsome
  | disassociateEverything comp =>
    obtain ⟨b, hb, rfl⟩ := Option.map_eq_some_iff.mp h
    obtain ⟨b', hb', -, -, hren, -⟩ := Broker.disassociateEverything_spec s.alive s.broker comp
    exact Option.some.inj (hb'.symm.trans hb) ▸ hren id hsome
  | lookup | die | hold | release => exact absurd ht (by simp [BrokerOp.touches])

/-- A list whose message got a new one is let go of by the broker. -/
theorem not_owns_of_renewed {b b' : Broker} {id : MessageId} {l : ListId} (hext : b.Extends b')
    (hl : b.activeLookups.find id = some l) (hren : b.Renewed b' id) : b'.owns l = false := by
  rw [Bool.eq_false_iff]
  intro howns
  obtain ⟨k, hk⟩ := CellStore.owns_iff.mp howns
  have hlt : l < b.activeLookups.next := CellStore.find_lt hl
  have hkid : k = id := b.activeLookups.distinct k id l (hext.find_of_lt hlt hk) hl
  obtain ⟨l', hl', hle⟩ := hren
  rw [hkid, hl'] at hk
  exact absurd hlt (Nat.not_lt.mpr (Option.some.inj hk ▸ hle))

/-- Along a run the broker keeps the list of a message exactly as long as nothing touches the message. -/
theorem run_owns_iff {s s' : BrokerState} {ops : List BrokerOp} {id : MessageId} {l : ListId}
    (h : Transition.run step s ops = some s') (hl : s.broker.activeLookups.find id = some l) :
    s'.broker.owns l = true ↔ ∀ op ∈ ops, ¬op.touches id := by
  induction ops generalizing s with
  | nil =>
    obtain rfl := Option.some.inj h
    simp [Broker.owns, CellStore.owns_of_find hl]
  | cons op ops ih =>
    obtain ⟨s₁, h₁, h₂⟩ := Transition.run_cons_some h
    rw [List.forall_mem_cons]
    by_cases ht : op.touches id
    · -- once let go of, the list is never taken back
      have hgone := not_owns_of_renewed (step_extends h₁) hl (step_renewed_of_touches h₁ ht hl)
      have hlt : l < s₁.broker.activeLookups.next :=
        Nat.lt_of_lt_of_le (CellStore.find_lt hl) (step_extends h₁).next_le
      have hnot : ¬s'.broker.owns l = true := fun howns => by
        have := CellStore.Extends.owns_of_lt (run_extends h₂) hlt howns
        rw [Broker.owns, this] at hgone
        cases hgone
      simp [hnot, ht]
    · rw [ih h₂ (step_find_of_not_touches h₁ ht hl)]
      simp [ht]

/-! ## Held lists -/

/-- Only lists that have been made are held. -/
def HeldMade (s : BrokerState) : Prop := ∀ l ∈ s.held, l < s.broker.activeLookups.next

theorem heldMade_step {s s' : BrokerState} {op : BrokerOp} (hs : HeldMade s) (h : s.step op = some s') : HeldMade s' := by
  have hle := (step_extends h).next_le
  have key : (∀ l ∈ s'.held, l ∈ s.held ∨ l < s'.broker.activeLookups.next) → HeldMade s' := by
    intro hsub l hl
    rcases hsub l hl with hl | hl
    · exact Nat.lt_of_lt_of_le (hs l hl) hle
    · exact hl
  apply key
  cases op with
  | associate | invalidate | lookup | die => obtain rfl := Option.some.inj h; exact fun l hl => Or.inl hl
  | disassociate | disassociateEverything =>
    obtain ⟨b, -, rfl⟩ := Option.map_eq_some_iff.mp h
    exact fun l hl => Or.inl hl
  | hold l' =>
    obtain rfl := Option.some.inj h
    intro l hl
    split at hl
    · exact Or.inl hl
    · rename_i hexp
      rcases List.mem_cons.mp hl with rfl | hl
      · -- what can be locked is held already, or the broker's
        simp only [expired, Bool.and_eq_true, Bool.not_eq_true', not_and, Bool.not_eq_false] at hexp
        cases howns : s.broker.owns l with
        | false => exact Or.inl (List.contains_iff_mem.mp (hexp howns))
        | true =>
          obtain ⟨k, hk⟩ := CellStore.owns_iff.mp howns
          exact Or.inr (Nat.lt_of_lt_of_le (CellStore.find_lt hk) hle)
      · exact Or.inl hl
  | release l' =>
    obtain rfl := Option.some.inj h
    exact fun l hl => Or.inl (List.mem_of_mem_erase hl)

end BrokerAux

open BrokerAux

/-- The broker computes the registry, in four parts, for every run of operations from a new broker in which `disassociate` is
called on messages the broker knows (so that no operation aborts).
1. The live members of `lookup(id)`, in order, are those of the registry.
2. An operation on one message leaves the live members of every other message unchanged.
3. A handle returned by `lookup(id)` is unexpired exactly as long as no operation touches `id`, or somebody holds the list.
4. A list somebody holds never changes. -/
theorem broker_refines_registry (alive : ComponentId → Bool) (ops : List BrokerOp) (s : BrokerState)
    (h : Transition.run BrokerState.step (BrokerState.init alive) ops = some s) :
    (∃ r, Transition.run Registry.apply ⟨fun _ => [], alive⟩ ops = some r ∧ ∀ id, s.liveMembers id = r.members id) ∧
    (∀ op s', s.step op = some s' → ∀ id id', op.on = some id → id' ≠ id → s'.liveMembers id' = s.liveMembers id') ∧
    (∀ id s₁, s.step (.lookup id) = some s₁ → ∀ ops' s₂, Transition.run BrokerState.step s₁ ops' = some s₂ →
      (s₂.expired (s.broker.lookup id).2 = false ↔
        (∀ op ∈ ops', ¬op.touches id) ∨ (s.broker.lookup id).2 ∈ s₂.held)) ∧
    (∀ l ∈ s.held, ∀ ops' s', Transition.run BrokerState.step s ops' = some s' →
      s'.broker.activeLookups.heap l = s.broker.activeLookups.heap l) := by
  refine ⟨?_, fun op s' hs id id' hon hne => step_frame hs hon hne, ?_, ?_⟩
  · obtain ⟨r, hr, hR⟩ := step_refines.run (refines_init alive) h
    rw [List.map_id] at hr
    exact ⟨r, hr, hR.members⟩
  · intro id s₁ h₁ ops' s₂ h₂
    obtain rfl := Option.some.inj h₁
    have hfind := (Broker.lookup_spec s.broker id).2.1
    rw [← run_owns_iff h₂ hfind, ← List.contains_iff_mem, BrokerState.expired]
    cases s₂.broker.owns (s.broker.lookup id).2 <;> simp
  · intro l hl ops' s' h'
    have hmade : HeldMade s := Transition.run_invariant (fun _ _ _ => heldMade_step) (by simp [HeldMade, BrokerState.init]) h
    exact (run_extends h').heap_eq l (hmade l hl)

/-- `broker_refines_registry` at a run that associates two components, lets one die and looks the message up. -/
theorem broker_refines_registry_run :
    ∃ s, Transition.run BrokerState.step (BrokerState.init fun _ => true)
        [.associate 7 1, .associate 7 2, .die 1, .disassociateEverything 1, .lookup 7] = some s ∧
      s.liveMembers 7 = [2] := by
  obtain ⟨s, hs⟩ : ∃ s, Transition.run BrokerState.step (BrokerState.init fun _ => true)
      [.associate 7 1, .associate 7 2, .die 1, .disassociateEverything 1, .lookup 7] = some s := ⟨_, rfl⟩
  obtain ⟨⟨r, hr, hmem⟩, -⟩ := broker_refines_registry _ _ s hs
  refine ⟨s, hs, ?_⟩
  obtain rfl := Option.some.inj hr
  rw [hmem]
  rfl

end Minicomps
