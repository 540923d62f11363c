import Minicomps.Lib.CellStore

/-!
# The broker

Which components are associated with which message. A list of receivers is never written after it is made: every change makes a
new list, so that the weak pointer `lookup` hands out expires and whoever still holds the old list keeps seeing the old
receivers. The lists are cells of a `CellStore`; a receiver is a weak pointer to a component, so whether it can be locked is
asked of `alive` at the time.
-/

namespace Minicomps

/-- `message_id`: the address of a static, one for each message type. -/
abbrev MessageId := Nat

/-- The identity of a component object. A weak pointer to a component is its identity; whether it can be locked is a
matter of the state. -/
abbrev ComponentId := Nat

/-- `message_receivers`: weak pointers to components, in association order. -/
abbrev MessageReceivers := List ComponentId

/-- The identity of a receiver list. A `std::weak_ptr<message_receivers>` is such an identity. -/
abbrev ListId := CellId

/-- `broker`: the receiver list of each message looked up or associated so far. -/
structure Broker where
  activeLookups : CellStore MessageId MessageReceivers

namespace Broker

/-- A broker with nothing associated. -/
def empty : Broker := ⟨CellStore.empty⟩

/-- `broker::associate`. -/
def associate (b : Broker) (id : MessageId) (comp : ComponentId) : Broker :=
  match b.activeLookups.find id with
  | none => ⟨b.activeLookups.store id [comp]⟩
  -- The copy preserves immutability.
  | some l => ⟨b.activeLookups.store id (b.activeLookups.heap l ++ [comp])⟩

/-- The loop of `broker::disassociate`: drop what cannot be locked, and the component itself. -/
def keepOthers (alive : ComponentId → Bool) (comp : ComponentId) (receivers : MessageReceivers) : MessageReceivers :=
  receivers.filter (fun r => alive r && r != comp)

/-- `broker::disassociate`. It aborts (`none`) on a message it has no list for. -/
def disassociate (alive : ComponentId → Bool) (b : Broker) (id : MessageId) (comp : ComponentId) : Option Broker :=
  match b.activeLookups.find id with
  | none => none
  | some l => some ⟨b.activeLookups.store id (keepOthers alive comp (b.activeLookups.heap l))⟩

/-- `broker::invalidate`. -/
def invalidate (b : Broker) (id : MessageId) : Broker :=
  match b.activeLookups.find id with
  | none => b
  | some l => ⟨b.activeLookups.store id (b.activeLookups.heap l)⟩

/-- `broker::disassociate_everything`: `disassociate` under every key of the map. -/
def disassociateEverything (alive : ComponentId → Bool) (b : Broker) (comp : ComponentId) : Option Broker :=
  b.activeLookups.keys.foldlM (fun b id => b.disassociate alive id comp) b

/-- `broker::lookup`: the list of the message, made empty if there is none. -/
def lookup (b : Broker) (id : MessageId) : Broker × ListId :=
  match b.activeLookups.find id with
  | none => (⟨b.activeLookups.store id []⟩, b.activeLookups.next)
  | some l => (b, l)

/-- The members the broker lists for a message now. -/
def receivers (b : Broker) (id : MessageId) : MessageReceivers :=
  match b.activeLookups.find id with
  | none => []
  | some l => b.activeLookups.heap l

/-- The map points to the list. -/
def owns (b : Broker) (l : ListId) : Bool := b.activeLookups.owns l

/-! ## What one operation does

Each operation either leaves a message alone or lets it point to a list made just now. `Extends` is what they have in common. -/

/-- `b'` is `b` after some operations. -/
def Extends (b b' : Broker) : Prop := b.activeLookups.Extends b'.activeLookups

theorem Extends.refl (b : Broker) : b.Extends b := CellStore.Extends.refl _

theorem Extends.trans {b b' b'' : Broker} (h : b.Extends b') (h' : b'.Extends b'') : b.Extends b'' :=
  CellStore.Extends.trans h h'

/-- The message points to a list made after `b`, so that no list of `b` is its list any more. -/
def Renewed (b b' : Broker) (id : MessageId) : Prop :=
  ∃ l, b'.activeLookups.find id = some l ∧ b.activeLookups.next ≤ l

/-- The message points to the list it pointed to, or still to none. -/
def Untouched (b b' : Broker) (id : MessageId) : Prop :=
  b'.activeLookups.find id = b.activeLookups.find id

theorem receivers_store_self (s : CellStore MessageId MessageReceivers) (id : MessageId) (xs : MessageReceivers) :
    receivers ⟨s.store id xs⟩ id = xs := by
  simp [receivers]

theorem receivers_store_of_ne (s : CellStore MessageId MessageReceivers) {id id' : MessageId} (xs : MessageReceivers)
    (h : id' ≠ id) : receivers ⟨s.store id xs⟩ id' = receivers ⟨s⟩ id' := by
  simp only [receivers, CellStore.find_store_of_ne s xs h]
  cases hf : s.find id' with
  | none => rfl
  | some l => exact s.heap_store_of_lt id xs (CellStore.find_lt hf)

theorem renewed_store (s : CellStore MessageId MessageReceivers) (id : MessageId) (xs : MessageReceivers) :
    Renewed ⟨s⟩ ⟨s.store id xs⟩ id :=
  ⟨s.next, s.find_store_self id xs, Nat.le_refl _⟩

theorem receivers_of_find {b : Broker} {id : MessageId} {l : ListId} (h : b.activeLookups.find id = some l) :
    b.receivers id = b.activeLookups.heap l := by
  rw [receivers, h]

theorem receivers_of_untouched {b b' : Broker} {id : MessageId} (h : b.Extends b') (hu : b.Untouched b' id) :
    b'.receivers id = b.receivers id := by
  unfold receivers
  rw [hu]
  cases hf : b.activeLookups.find id with
  | none => rfl
  | some l => exact h.heap_eq l (CellStore.find_lt hf)

/-- `associate` appends to the message's list, in a list made just now, and leaves the other messages alone. -/
theorem associate_spec (b : Broker) (id : MessageId) (comp : ComponentId) :
    b.Extends (b.associate id comp) ∧ b.Renewed (b.associate id comp) id ∧
      (b.associate id comp).receivers id = b.receivers id ++ [comp] ∧
      ∀ id', id' ≠ id → b.Untouched (b.associate id comp) id' := by
  unfold associate
  cases hf : b.activeLookups.find id with
  | none =>
    refine ⟨CellStore.extends_store .., renewed_store .., ?_, fun id' h => CellStore.find_store_of_ne _ _ h⟩
    rw [receivers_store_self, receivers, hf, List.nil_append]
  | some l =>
    refine ⟨CellStore.extends_store .., renewed_store .., ?_, fun id' h => CellStore.find_store_of_ne _ _ h⟩
    rw [receivers_store_self, receivers, hf]

theorem mem_receivers_associate {b : Broker} {id id' : MessageId} {c comp : ComponentId} (h : c ∈ (b.associate id comp).receivers id') :
    c ∈ b.receivers id' ∨ c = comp := by
  obtain ⟨hext, -, hreceivers, hothers⟩ := associate_spec b id comp
  by_cases hid : id' = id
  · subst hid
    rw [hreceivers, List.mem_append, List.mem_singleton] at h
    exact h
  · rw [receivers_of_untouched hext (hothers id' hid)] at h
    exact Or.inl h

/-- A `disassociate` that does not abort filters the message's list, in a list made just now, and leaves the other messages
alone. -/
theorem disassociate_spec {alive : ComponentId → Bool} {b b' : Broker} {id : MessageId} {comp : ComponentId}
    (h : b.disassociate alive id comp = some b') :
    b.Extends b' ∧ b.Renewed b' id ∧ b'.receivers id = keepOthers alive comp (b.receivers id) ∧
      ∀ id', id' ≠ id → b.Untouched b' id' := by
  unfold disassociate at h
  cases hf : b.activeLookups.find id with
  | none => rw [hf] at h; cases h
  | some l =>
    rw [hf] at h
    obtain rfl := Option.some.inj h
    refine ⟨CellStore.extends_store .., renewed_store .., ?_, fun id' h => CellStore.find_store_of_ne _ _ h⟩
    rw [receivers_store_self, receivers, hf]

/-- `disassociate` aborts on the messages it has no list for, and on no others. -/
theorem disassociate_isSome (alive : ComponentId → Bool) (b : Broker) (id : MessageId) (comp : ComponentId) :
    (b.disassociate alive id comp).isSome = (b.activeLookups.find id).isSome := by
  unfold disassociate
  cases b.activeLookups.find id <;> rfl

/-- `invalidate` keeps every member of every list; the message's list, if it has one, is made just now. -/
theorem invalidate_spec (b : Broker) (id : MessageId) :
    b.Extends (b.invalidate id) ∧ ((b.activeLookups.find id).isSome → b.Renewed (b.invalidate id) id) ∧
      (b.invalidate id).receivers id = b.receivers id ∧ ∀ id', id' ≠ id → b.Untouched (b.invalidate id) id' := by
  unfold invalidate
  cases hf : b.activeLookups.find id with
  | none => exact ⟨Extends.refl b, nofun, rfl, fun _ _ => rfl⟩
  | some l =>
    refine ⟨CellStore.extends_store .., fun _ => renewed_store .., ?_, fun id' h => CellStore.find_store_of_ne _ _ h⟩
    rw [receivers_store_self, receivers, hf]

theorem receivers_invalidate (b : Broker) (id id' : MessageId) : (b.invalidate id).receivers id' = b.receivers id' := by
  obtain ⟨hext, -, hreceivers, hothers⟩ := invalidate_spec b id
  by_cases hid : id' = id
  · exact hid ▸ hreceivers
  · exact receivers_of_untouched hext (hothers id' hid)

/-- `lookup` returns the message's list, makes an empty one where there was none, and changes no member. -/
theorem lookup_spec (b : Broker) (id : MessageId) :
    b.Extends (b.lookup id).1 ∧ (b.lookup id).1.activeLookups.find id = some (b.lookup id).2 ∧
      (∀ l, b.activeLookups.find id = some l → (b.lookup id) = (b, l)) ∧
      (∀ id', (b.lookup id).1.receivers id' = b.receivers id') ∧
      ∀ id', id' ≠ id → b.Untouched (b.lookup id).1 id' := by
  unfold lookup
  cases hf : b.activeLookups.find id with
  | none =>
    refine ⟨CellStore.extends_store .., CellStore.find_store_self .., nofun, ?_,
      fun id' h => CellStore.find_store_of_ne _ _ h⟩
    intro id'
    by_cases h : id' = id
    · subst h
      rw [receivers_store_self, receivers, hf]
    · exact receivers_store_of_ne _ _ h
  | some l => exact ⟨Extends.refl b, hf, fun l' hl' => by rw [Option.some.inj hl'], fun _ => rfl, fun _ _ => rfl⟩

/-- The contents of the list `lookup` returns are what the broker lists for the message. -/
theorem heap_lookup (b : Broker) (id : MessageId) :
    (b.lookup id).1.activeLookups.heap (b.lookup id).2 = b.receivers id := by
  obtain ⟨-, hfind, -, hrec, -⟩ := lookup_spec b id
  exact (receivers_of_find hfind).symm.trans (hrec id)

/-- Asking for a list changes no member of any list. -/
@[simp] theorem receivers_lookup (b : Broker) (id id' : MessageId) : (b.lookup id).1.receivers id' = b.receivers id' :=
  (lookup_spec b id).2.2.2.1 id'

theorem extends_lookup (b : Broker) (id : MessageId) : b.Extends (b.lookup id).1 := (lookup_spec b id).1

/-! ## `disassociate_everything` -/

/-- The loop of `disassociate_everything` over distinct known messages: it runs to the end, filters the list of every message
it passes, and leaves the others alone. -/
theorem foldlM_disassociate (alive : ComponentId → Bool) (comp : ComponentId) (ids : List MessageId) :
    ∀ b : Broker, ids.Nodup → (∀ id ∈ ids, (b.activeLookups.find id).isSome) →
      ∃ b', ids.foldlM (fun b id => disassociate alive b id comp) b = some b' ∧ b.Extends b' ∧
        (∀ id ∈ ids, b.Renewed b' id ∧ b'.receivers id = keepOthers alive comp (b.receivers id)) ∧
        ∀ id, id ∉ ids → b.Untouched b' id := by
  induction ids with
  | nil => exact fun b _ _ => ⟨b, rfl, Extends.refl b, nofun, fun _ _ => rfl⟩
  | cons id ids ih =>
    intro b hnd hknown
    obtain ⟨hid, hnd⟩ := List.nodup_cons.mp hnd
    obtain ⟨b₁, hb₁⟩ := Option.isSome_iff_exists.mp
      ((disassociate_isSome alive b id comp).trans (hknown id List.mem_cons_self))
    obtain ⟨hext₁, hren₁, hrec₁, hunt₁⟩ := disassociate_spec hb₁
    obtain ⟨b₂, hrun, hext₂, hpass, hleft⟩ := ih b₁ hnd
      (fun id' h => hext₁.known id' (hknown id' (List.mem_cons_of_mem _ h)))
    refine ⟨b₂, by rw [List.foldlM_cons, hb₁]; exact hrun, hext₁.trans hext₂, ?_, ?_⟩
    · intro id' hmem
      rcases List.mem_cons.mp hmem with rfl | hmem
      · -- the rest of the loop leaves this message alone
        have hu := hleft id' hid
        obtain ⟨l, hl, hle⟩ := hren₁
        exact ⟨⟨l, hu.trans hl, hle⟩, (receivers_of_untouched hext₂ hu).trans hrec₁⟩
      · have hne : id' ≠ id := fun h => hid (h ▸ hmem)
        obtain ⟨⟨l, hl, hle⟩, hrec⟩ := hpass id' hmem
        refine ⟨⟨l, hl, Nat.le_trans hext₁.next_le hle⟩, ?_⟩
        rw [hrec, receivers_of_untouched hext₁ (hunt₁ id' hne)]
    · intro id' hmem
      obtain ⟨hne, hmem⟩ := not_or.mp (mt List.mem_cons.mpr hmem)
      exact (hleft id' hmem).trans (hunt₁ id' hne)

/-- `disassociate_everything` never aborts; every message the broker has a list for gets its list filtered, in a list made
just now, and no message gets its first list. -/
theorem disassociateEverything_spec (alive : ComponentId → Bool) (b : Broker) (comp : ComponentId) :
    ∃ b', b.disassociateEverything alive comp = some b' ∧ b.Extends b' ∧
      (∀ id, b'.receivers id = keepOthers alive comp (b.receivers id)) ∧
      (∀ id, (b.activeLookups.find id).isSome → b.Renewed b' id) ∧
      ∀ id, b.activeLookups.find id = none → b.Untouched b' id := by
  obtain ⟨b', hrun, hext, hpass, hleft⟩ := foldlM_disassociate alive comp b.activeLookups.keys b
    b.activeLookups.keys_nodup (fun id h => CellStore.mem_keys.mp h)
  have hnone : ∀ id, b.activeLookups.find id = none → b.Untouched b' id := fun id h =>
    hleft id (fun hmem => by simpa [h] using CellStore.mem_keys.mp hmem)
  refine ⟨b', hrun, hext, ?_, fun id h => (hpass id (CellStore.mem_keys.mpr h)).1, hnone⟩
  intro id
  cases hf : b.activeLookups.find id with
  | none => rw [receivers_of_untouched hext (hnone id hf), receivers, hf]; rfl
  | some l => exact (hpass id (CellStore.mem_keys.mpr (by rw [hf]; rfl))).2

end Broker

end Minicomps
