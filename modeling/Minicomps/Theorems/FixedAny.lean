import Minicomps.FixedAny
import Minicomps.Lib.Transition

/-!
# No payload is lost, or destroyed twice

A payload moves from cell to cell as the vector of work items grows. Each move makes an object that is equal to the one it was made
from, and destroys that one; so however often the vector grows, a task has one object that has not been destroyed, and it is the
payload the task was enqueued with until the task's function is called.
-/

namespace Minicomps

open Transition

variable {L : Layout} {α : Type*}

/-- The payload that a `fixed_any` holds: its type, and its value. -/
def FixedAny.payload (m : Memory L α) (a : FixedAny L) : Option (PayloadType L × α) :=
  (a.objectPtr.bind m.object).map fun o => (o.type, o.value)

/-- A `fixed_any` at `storage` holds the object `k`, which its functions know. -/
structure FixedAny.Holds (m : Memory L α) (storage : Nat) (a : FixedAny L) (k : ObjectId) (f : ErasedFunctions L)
    (o : PayloadObject L α) : Prop where
  objectPtr : a.objectPtr = some k
  functions : a.functions = some f
  alignedPtr : f.inStorage = true → a.alignedPtr = some storage
  object : m.object k = some o
  type : o.type = f.type
  aligned : L.maxAlign ∣ o.address

namespace TaskQueue

/-- The cells of a vector from the element `i` on each hold an object. -/
def HoldsFrom (m : Memory L α) (b : BufferId) : Nat → List (TaskCell L) → Prop
  | _, [] => True
  | i, c :: cells => (∃ k f o, c.data.Holds m (L.storage b i) k f o) ∧ HoldsFrom m b (i + 1) cells

/-- The tasks of a vector, each with its payload. -/
def contents (m : Memory L α) (cells : List (TaskCell L)) : List (Nat × Option (PayloadType L × α)) :=
  cells.map fun c => (c.number, c.data.payload m)

/-- What holds of an executor and its payloads in every run. -/
structure Inv (s : TaskQueue L α) : Prop where
  work : HoldsFrom s.memory s.buffer 0 s.executor.workItems
  back : HoldsFrom s.memory s.backBuffer 0 s.executor.workItemsBackBuffer
  balanced : s.memory.Balanced (held s.executor.workItems ++ held s.executor.workItemsBackBuffer)
  /-- A task that has not been started still has the payload it was enqueued with. -/
  payloads : ∀ p ∈ contents s.memory s.executor.pending, ∃ e, s.enqueued[p.1]? = some e ∧ p.2 = some e
  calls : s.CalledWithPayload
  order : s.EachCalledOnce

end TaskQueue

namespace FixedAnyAux

open TaskQueue FixedAny

/-! ## Alignment -/

theorem checkAlignment_of_dvd {type : PayloadType L} {address : Nat} (h : L.maxAlign ∣ address) :
    type.checkAlignment address = true := by
  have hdvd : type.align ∣ address := Nat.dvd_trans type.align_dvd h
  simp [PayloadType.checkAlignment, Nat.mod_eq_zero_of_dvd hdvd]

/-- In a storage that is aligned, an object that fits with its alignment goes to the front. -/
theorem align_of_dvd {type : PayloadType L} {storage : Nat} (h : L.maxAlign ∣ storage)
    (hfits : type.size + type.align - 1 ≤ L.length) : align type.align type.size storage L.length = some storage := by
  obtain ⟨n, rfl⟩ : type.align ∣ storage := Nat.dvd_trans type.align_dvd h
  have hpos := type.align_pos
  have hdiv : (type.align * n + type.align - 1) / type.align = n := by
    rw [Nat.add_sub_assoc hpos, Nat.mul_add_div hpos, Nat.div_eq_of_lt (by omega), Nat.add_zero]
  have hfront : (type.align * n + type.align - 1) / type.align * type.align = type.align * n := by
    rw [hdiv, Nat.mul_comm]
  simp only [align, hfront]
  rw [if_pos (by omega)]

/-! ## One `fixed_any` -/

section Cell

variable {m m' : Memory L α} {storage : Nat} {a : FixedAny L} {k : ObjectId} {f : ErasedFunctions L} {o : PayloadObject L α}

/-- Where the object stays as it is, the `fixed_any` holds it still. -/
theorem holds_congr (h : a.Holds m storage k f o) (hk : m'.object k = m.object k) : a.Holds m' storage k f o :=
  ⟨h.objectPtr, h.functions, h.alignedPtr, hk.trans h.object, h.type, h.aligned⟩

theorem payload_eq (h : a.Holds m storage k f o) : a.payload m = some (o.type, o.value) := by
  simp [FixedAny.payload, h.objectPtr, h.object]

theorem payload_congr (h : a.Holds m storage k f o) (hk : m'.object k = m.object k) : a.payload m' = a.payload m :=
  (payload_eq (holds_congr h hk)).trans (payload_eq h).symm

theorem destroy_eq (h : a.Holds m storage k f o) :
    a.destroy m = some ({ a with objectPtr := none, alignedPtr := none }, m.destroy k) := by
  simp [FixedAny.destroy, h.objectPtr, h.functions, ErasedFunctions.destruct, h.object, checkAlignment_of_dvd h.aligned]

theorem destroy_of_null (hnull : a.objectPtr = none) (m : Memory L α) : a.destroy m = some (a, m) := by
  simp [FixedAny.destroy, hnull]

/-- A move leaves the objects that exist where they are. -/
theorem object_construct_of_ne {movedFrom : α → α} {address k' : Nat} (hne : k' ≠ m.size) :
    (f.construct movedFrom m address k o).object k' = (m.modify k fun o => { o with value := movedFrom o.value }).object k' :=
  Ledger.object_create_of_ne _ _ hne

/-- A move makes a new object, equal to the old one and in the new place, and then destroys the old one. -/
theorem assignAny_spec (movedFrom : α → α) {target : Nat} (htarget : L.maxAlign ∣ target) (h : a.Holds m storage k f o)
    (hk : k < m.size) :
    ∃ data other m' o', ({} : FixedAny L).assignAny movedFrom target a storage m = some (data, other, m') ∧
      other.objectPtr = none ∧ data.Holds m' target m.size f o' ∧ data.payload m' = a.payload m ∧
        (∀ rest, m.Balanced (k :: rest) → m'.Balanced (m.size :: rest)) ∧ ∀ k', k' ≠ k → k' < m.size → m'.object k' = m.object k' := by
  obtain ⟨address, haddress, hmove⟩ : ∃ address, L.maxAlign ∣ address ∧
      f.moveConstruct movedFrom m (a.alignedPtr.map fun p => target + (p - storage)) k =
        some (m.size, f.construct movedFrom m address k o) := by
    cases hin : f.inStorage with
    | true =>
      refine ⟨target, htarget, ?_⟩
      simp [ErasedFunctions.moveConstruct, h.object, hin, h.alignedPtr hin, checkAlignment_of_dvd htarget,
        checkAlignment_of_dvd h.aligned]
    | false =>
      refine ⟨L.heap m.size, L.heap_aligned _, ?_⟩
      simp [ErasedFunctions.moveConstruct, h.object, hin, checkAlignment_of_dvd h.aligned]
  have hnew : (f.construct movedFrom m address k o).object m.size = some { type := f.type, value := o.value, address } :=
    Ledger.object_create_self ..
  have hold : (f.construct movedFrom m address k o).object k = some { o with value := movedFrom o.value } := by
    rw [object_construct_of_ne (Nat.ne_of_lt hk), Ledger.object_modify_self, h.object]
    rfl
  have hother : a.Holds (f.construct movedFrom m address k o) storage k f { o with value := movedFrom o.value } :=
    ⟨h.objectPtr, h.functions, h.alignedPtr, hold, h.type, h.aligned⟩
  refine ⟨{ alignedPtr := a.alignedPtr.map fun p => target + (p - storage), objectPtr := some m.size, functions := some f },
    { a with objectPtr := none, alignedPtr := none, functions := none }, (f.construct movedFrom m address k o).destroy k,
    { type := f.type, value := o.value, address }, ?_, rfl, ?_, ?_, ?_, ?_⟩
  · simp [FixedAny.assignAny, destroy_of_null (a := {}) rfl, h.functions, h.objectPtr, hmove, destroy_eq hother]
  · refine ⟨rfl, rfl, ?_, hnew, rfl, haddress⟩
    intro hin
    simp [h.alignedPtr hin]
  · rw [payload_eq h, h.type]
    simp [FixedAny.payload, hnew]
  · intro rest hbalanced
    have hcreated := (hbalanced.modify k fun o => { o with value := movedFrom o.value }).create
      { type := f.type, value := o.value, address }
    exact (hcreated.perm (List.Perm.swap k m.size rest)).destroy
  · intro k' hne hlt
    rw [Ledger.object_destroy, object_construct_of_ne (Nat.ne_of_lt hlt), Ledger.object_modify_of_ne _ _ hne]

/-- A value that is assigned to an empty one is in a new object. -/
theorem assign_spec (hstorage : L.maxAlign ∣ storage) (type : PayloadType L) (value : α) (m : Memory L α) :
    ∃ data f o, ({} : FixedAny L).assign storage type value m = some (data, m.create o) ∧
      data.Holds (m.create o) storage m.size f o ∧ o.type = type ∧ o.value = value := by
  by_cases hfits : type.size + type.align - 1 ≤ L.length
  · refine ⟨{ alignedPtr := some storage, objectPtr := some m.size, functions := some { type, inStorage := true } },
      { type, inStorage := true }, { type, value, address := storage }, ?_, ?_, rfl, rfl⟩
    · rw [FixedAny.assign, destroy_of_null rfl, Option.bind_some]
      dsimp only
      rw [if_pos hfits, align_of_dvd hstorage hfits]
      rfl
    · exact ⟨rfl, rfl, fun _ => rfl, Ledger.object_create_self .., rfl, hstorage⟩
  · refine ⟨{ alignedPtr := none, objectPtr := some m.size, functions := some { type, inStorage := false } },
      { type, inStorage := false }, { type, value, address := L.heap m.size }, ?_, ?_, rfl, rfl⟩
    · rw [FixedAny.assign, destroy_of_null rfl, Option.bind_some]
      dsimp only
      rw [if_neg hfits]
    · exact ⟨rfl, rfl, fun hin => (by cases hin), Ledger.object_create_self .., rfl, L.heap_aligned _⟩

end Cell

/-! ## A vector -/

section Vector

variable {m m' : Memory L α} {b : BufferId} {i : Nat} {cells : List (TaskCell L)}

@[simp] theorem held_nil : held ([] : List (TaskCell L)) = [] := rfl

theorem held_cons {c : TaskCell L} {k : ObjectId} (h : c.data.objectPtr = some k) (cells : List (TaskCell L)) :
    held (c :: cells) = k :: held cells := by
  simp [held, h]

theorem held_append (cells cells' : List (TaskCell L)) : held (cells ++ cells') = held cells ++ held cells' :=
  List.filterMap_append ..

theorem contents_append (m : Memory L α) (cells cells' : List (TaskCell L)) :
    contents m (cells ++ cells') = contents m cells ++ contents m cells' := List.map_append ..

theorem holdsFrom_append {cells' : List (TaskCell L)} :
    HoldsFrom m b i (cells ++ cells') ↔ HoldsFrom m b i cells ∧ HoldsFrom m b (i + cells.length) cells' := by
  induction cells generalizing i with
  | nil => simp [HoldsFrom]
  | cons c cells ih =>
    rw [List.cons_append, HoldsFrom, HoldsFrom, ih, and_assoc, List.length_cons, Nat.add_right_comm, Nat.add_assoc i]

/-- Each cell of the vector holds one of its objects. -/
theorem holds_of_mem (h : HoldsFrom m b i cells) {c : TaskCell L} (hc : c ∈ cells) :
    ∃ storage k f o, c.data.Holds m storage k f o ∧ k ∈ held cells := by
  induction cells generalizing i with
  | nil => exact absurd hc List.not_mem_nil
  | cons c' cells ih =>
    obtain ⟨⟨k, f, o, hk⟩, hrest⟩ := h
    rw [held_cons hk.objectPtr]
    rcases List.mem_cons.mp hc with rfl | hc
    · exact ⟨_, k, f, o, hk, List.mem_cons_self⟩
    · obtain ⟨storage, k', f', o', hk', hmem⟩ := ih hrest hc
      exact ⟨storage, k', f', o', hk', List.mem_cons_of_mem k hmem⟩

/-- Where the objects of a vector stay as they are, it holds them still. -/
theorem holdsFrom_congr (h : HoldsFrom m b i cells) (hk : ∀ k ∈ held cells, m'.object k = m.object k) : HoldsFrom m' b i cells := by
  induction cells generalizing i with
  | nil => exact trivial
  | cons c cells ih =>
    obtain ⟨⟨k, f, o, hc⟩, hrest⟩ := h
    rw [held_cons hc.objectPtr] at hk
    have hc' : c.data.Holds m' (L.storage b i) k f o := holds_congr hc (hk k List.mem_cons_self)
    exact ⟨⟨k, f, o, hc'⟩, ih hrest fun k' hk' => hk k' (List.mem_cons_of_mem k hk')⟩

theorem contents_congr (h : HoldsFrom m b i cells) (hk : ∀ k ∈ held cells, m'.object k = m.object k) :
    contents m' cells = contents m cells := by
  refine List.map_congr_left fun c hc => ?_
  obtain ⟨storage, k, f, o, hholds, hmem⟩ := holds_of_mem h hc
  rw [payload_congr hholds (hk k hmem)]

/-- A task's function changes nothing for those who do not hold its object. -/
theorem contents_modify {k : ObjectId} (hk : k ∉ held cells) (left : α) :
    contents (m.modify k fun o => { o with value := left }) cells = contents m cells := by
  refine List.map_congr_left fun c hc => ?_
  cases hptr : c.data.objectPtr with
  | none => simp [FixedAny.payload, hptr]
  | some k' =>
    have hne : k' ≠ k := fun heq => hk (List.mem_filterMap.mpr ⟨c, hc, heq ▸ hptr⟩)
    simp [FixedAny.payload, hptr, Ledger.object_modify_of_ne _ _ hne]

/-- Nothing but its value changes of an object that a task's function was called with. -/
theorem holdsFrom_modify (h : HoldsFrom m b i cells) (k : ObjectId) (left : α) :
    HoldsFrom (m.modify k fun o => { o with value := left }) b i cells := by
  induction cells generalizing i with
  | nil => exact trivial
  | cons c cells ih =>
    obtain ⟨⟨k', f, o, hc⟩, hrest⟩ := h
    refine ⟨?_, ih hrest⟩
    by_cases hk : k' = k
    · subst hk
      have hobject : (m.modify k' fun o => { o with value := left }).object k' = some { o with value := left } := by
        rw [Ledger.object_modify_self, hc.object]
        rfl
      exact ⟨k', f, _, hc.objectPtr, hc.functions, hc.alignedPtr, hobject, hc.type, hc.aligned⟩
    · exact ⟨k', f, o, holds_congr hc (Ledger.object_modify_of_ne _ _ hk)⟩

/-- When a vector grows, every task's payload is in a new object, which is the only one left of it; other objects are not touched. -/
theorem relocate_spec (movedFrom : α → α) (new : BufferId) {rest : List ObjectId} (h : HoldsFrom m b i cells)
    (hbalanced : m.Balanced (held cells ++ rest)) :
    ∃ cells' m', relocate movedFrom b new i cells m = some (cells', m') ∧ HoldsFrom m' new i cells' ∧
      m'.Balanced (held cells' ++ rest) ∧ contents m' cells' = contents m cells ∧ ∀ k ∈ rest, m'.object k = m.object k := by
  induction cells generalizing i m rest with
  | nil => exact ⟨[], m, rfl, trivial, hbalanced, rfl, fun _ _ => rfl⟩
  | cons c cells ih =>
    obtain ⟨⟨k, f, o, hc⟩, hcells⟩ := h
    rw [held_cons hc.objectPtr] at hbalanced
    have hknown : ∀ k' ∈ held cells ++ rest, k' ≠ k ∧ k' < m.size := fun k' hk' =>
      ⟨fun heq => (List.nodup_cons.mp hbalanced.nodup).1 (heq ▸ hk'), hbalanced.known k' (List.mem_cons_of_mem k hk')⟩
    obtain ⟨data, other, m₁, o₁, hassign, hother, hdata, hpayload, hmoved, hkept⟩ :=
      assignAny_spec movedFrom (L.storage_aligned new i) hc (hbalanced.known k List.mem_cons_self)
    have hsame : ∀ k' ∈ held cells ++ rest, m₁.object k' = m.object k' := fun k' hk' => hkept k' (hknown k' hk').1 (hknown k' hk').2
    have hcells₁ := holdsFrom_congr hcells fun k' hk' => hsame k' (List.mem_append_left _ hk')
    have hbalanced₁ : m₁.Balanced (held cells ++ m.size :: rest) := (hmoved _ hbalanced).perm List.perm_middle.symm
    obtain ⟨cells', m₂, hrelocate, hholds, hbalanced₂, hcontents, hkept₂⟩ := ih hcells₁ hbalanced₁
    have hdata₂ : m₂.object m.size = m₁.object m.size := hkept₂ _ List.mem_cons_self
    refine ⟨{ c with data } :: cells', m₂, ?_, ⟨⟨_, f, o₁, holds_congr hdata hdata₂⟩, hholds⟩, ?_, ?_, ?_⟩
    · rw [relocate, hassign, Option.bind_some]
      dsimp only
      rw [destroy_of_null hother, Option.bind_some]
      dsimp only
      rw [hrelocate]
      rfl
    · rw [held_cons (c := { c with data }) hdata.objectPtr]
      exact hbalanced₂.perm List.perm_middle
    · have hcell : data.payload m₂ = c.data.payload m := (payload_congr hdata hdata₂).trans hpayload
      have hothers := hcontents.trans (contents_congr hcells fun k' hk' => hsame k' (List.mem_append_left _ hk'))
      calc contents m₂ ({ c with data } :: cells') = (c.number, data.payload m₂) :: contents m₂ cells' := rfl
        _ = (c.number, c.data.payload m) :: contents m cells := by rw [hcell, hothers]
    · intro k' hk'
      exact (hkept₂ k' (List.mem_cons_of_mem _ hk')).trans (hsame k' (List.mem_append_right _ hk'))

/-- When a vector is cleared, each of its objects is destroyed. -/
theorem destroyAll_spec {rest : List ObjectId} (h : HoldsFrom m b i cells) (hbalanced : m.Balanced (held cells ++ rest)) :
    ∃ m', destroyAll cells m = some m' ∧ m'.Balanced rest ∧ ∀ k, m'.object k = m.object k := by
  induction cells generalizing i m with
  | nil => exact ⟨m, rfl, hbalanced, fun _ => rfl⟩
  | cons c cells ih =>
    obtain ⟨⟨k, f, o, hc⟩, hcells⟩ := h
    rw [held_cons hc.objectPtr] at hbalanced
    have hcells' : HoldsFrom (m.destroy k) b (i + 1) cells := holdsFrom_congr hcells fun _ _ => rfl
    obtain ⟨m', hdestroy, hbalanced', hobject⟩ := ih hcells' hbalanced.destroy
    refine ⟨m', ?_, hbalanced', hobject⟩
    rw [destroyAll, destroy_eq hc]
    exact hdestroy

end Vector

/-! ## What each step preserves -/

section Steps

variable {s s' : TaskQueue L α}

theorem contents_fst (m : Memory L α) (cells : List (TaskCell L)) :
    (contents m cells).map Prod.fst = cells.map fun c => c.number := by
  simp [contents]

/-- The batch's tasks that were not started yet have what they had if the vector's cells have. -/
theorem contents_pending (s : TaskQueue L α) :
    contents s.memory s.executor.pending =
      (contents s.memory s.executor.workItemsBackBuffer).drop s.executor.position ++ contents s.memory s.executor.workItems := by
  rw [Executor.pending, Executor.rest, contents_append, contents, List.map_drop]
  rfl

/-- No object is held by two of the tasks that were not started yet. -/
theorem nodup_pending (h : s.Inv) : (held s.executor.pending).Nodup := by
  have hsub : (held s.executor.pending).Sublist (held (s.executor.workItemsBackBuffer ++ s.executor.workItems)) :=
    ((List.drop_sublist _ _).append (List.Sublist.refl _)).filterMap _
  rw [held_append] at hsub
  exact hsub.nodup (List.perm_append_comm.nodup_iff.mp h.balanced.nodup)

/-- A step that calls no function, and after which the tasks that were not started yet are the same with the same payloads. -/
theorem inv_of_contents (h : s.Inv) (henqueued : s'.enqueued = s.enqueued) (hcalls : s'.calls = s.calls)
    (hcontents : contents s'.memory s'.executor.pending = contents s.memory s.executor.pending)
    (hwork : HoldsFrom s'.memory s'.buffer 0 s'.executor.workItems)
    (hback : HoldsFrom s'.memory s'.backBuffer 0 s'.executor.workItemsBackBuffer)
    (hbalanced : s'.memory.Balanced (held s'.executor.workItems ++ held s'.executor.workItemsBackBuffer)) : s'.Inv where
  work := hwork
  back := hback
  balanced := hbalanced
  payloads := by
    rw [hcontents, henqueued]
    exact h.payloads
  calls := by
    unfold CalledWithPayload
    rw [hcalls, henqueued]
    exact h.calls
  order := by
    have horder := h.order
    unfold EachCalledOnce at horder ⊢
    rw [hcalls, henqueued, ← contents_fst s'.memory, hcontents, contents_fst]
    exact horder

/-- A vector that grows. -/
theorem reserve_spec (movedFrom : α → α) (h : s.Inv) (grow : Option BufferId) : ∃ s', s.reserve movedFrom grow = some s' ∧ s'.Inv := by
  cases grow with
  | none => exact ⟨s, rfl, h⟩
  | some b =>
    obtain ⟨cells, m, hrelocate, hholds, hbalanced, hcontents, hkept⟩ := relocate_spec movedFrom b h.work h.balanced
    refine ⟨{ s with executor := { s.executor with workItems := cells }, buffer := b, memory := m }, ?_, ?_⟩
    · rw [reserve, hrelocate]
      rfl
    · refine inv_of_contents h rfl rfl ?_ hholds (holdsFrom_congr h.back hkept) hbalanced
      rw [contents_pending, contents_pending, ← contents_congr h.back hkept, ← hcontents]

/-- A new element at the end. -/
theorem append_spec (h : s.Inv) (type : PayloadType L) (value : α) : ∃ s', s.append type value = some s' ∧ s'.Inv := by
  obtain ⟨data, f, o, hassign, hdata, htype, hvalue⟩ :=
    assign_spec (L.storage_aligned s.buffer s.executor.workItems.length) type value s.memory
  have hkept : ∀ k, k < s.memory.size → (s.memory.create o).object k = s.memory.object k := fun k hk =>
    Ledger.object_create_of_ne _ _ (Nat.ne_of_lt hk)
  have hwork : ∀ k ∈ held s.executor.workItems, (s.memory.create o).object k = s.memory.object k := fun k hk =>
    hkept k (h.balanced.known k (List.mem_append_left _ hk))
  have hback : ∀ k ∈ held s.executor.workItemsBackBuffer, (s.memory.create o).object k = s.memory.object k := fun k hk =>
    hkept k (h.balanced.known k (List.mem_append_right _ hk))
  have hnew : data.payload (s.memory.create o) = some (type, value) := by rw [payload_eq hdata, htype, hvalue]
  have hpending : contents (s.memory.create o) (s.executor.enqueueWork { number := s.enqueued.length, data }).pending =
      contents s.memory s.executor.pending ++ [(s.enqueued.length, some (type, value))] := by
    rw [Executor.pending_enqueueWork, contents_append, contents_pending, ← contents_congr h.work hwork, ← contents_congr h.back hback,
      Executor.pending, Executor.rest, contents_append, contents, List.map_drop]
    simp [contents, hnew]
  have hextended : ∀ n e, s.enqueued[n]? = some e → (s.enqueued ++ [(type, value)])[n]? = some e := fun n e he =>
    (List.getElem?_append_left (List.getElem?_eq_some_iff.mp he).1).trans he
  refine ⟨_, by rw [append, hassign]; rfl, ?_, ?_, ?_, ?_, ?_, ?_⟩
  · exact holdsFrom_append.mpr ⟨holdsFrom_congr h.work hwork, ⟨_, f, o, by rwa [Nat.zero_add]⟩, trivial⟩
  · exact holdsFrom_congr h.back hback
  · refine (h.balanced.create o).perm ?_
    show (s.memory.size :: _).Perm (held (s.executor.workItems ++ [_]) ++ _)
    rw [held_append, held_cons (c := { number := s.enqueued.length, data }) hdata.objectPtr, held_nil, List.append_assoc]
    exact List.perm_middle.symm
  · intro p hp
    have hmem : p ∈ contents s.memory s.executor.pending ++ [(s.enqueued.length, some (type, value))] := hpending ▸ hp
    rcases List.mem_append.mp hmem with hold | hlast
    · obtain ⟨e, he, hpayload⟩ := h.payloads p hold
      exact ⟨e, hextended _ e he, hpayload⟩
    · rw [List.mem_singleton.mp hlast]
      exact ⟨(type, value), List.getElem?_concat_length, rfl⟩
  · intro call hcall
    obtain ⟨hdestroyed, o', hargument, he⟩ := h.calls call hcall
    exact ⟨hdestroyed, o', hargument, hextended _ _ he⟩
  · have horder := h.order
    unfold EachCalledOnce at horder ⊢
    rw [← contents_fst (s.memory.create o)]
    show _ ++ (contents _ (s.executor.enqueueWork _).pending).map Prod.fst = _
    rw [hpending, List.map_append, contents_fst, ← List.append_assoc, horder, List.length_append, List.length_singleton, List.range_succ]
    rfl

/-- The vectors are exchanged. -/
theorem inv_startBatch (h : s.Inv) (hback : s.executor.workItemsBackBuffer = []) :
    TaskQueue.Inv { s with executor := s.executor.swap, buffer := s.backBuffer, backBuffer := s.buffer } := by
  refine inv_of_contents h rfl rfl ?_ h.back h.work (h.balanced.perm List.perm_append_comm)
  rw [Executor.pending_swap hback]

/-- The task's object is no other task's, so whatever its function leaves in it, the others have their payloads. -/
theorem inv_callTask (h : s.Inv) {c : TaskCell L} {e : Executor (TaskCell L)} (hnext : s.executor.next = some (c, e)) (left : α) :
    ({ s with executor := e }.callTask c left).Inv := by
  obtain ⟨hworkItems, hbackBuffer⟩ := Executor.vectors_next hnext
  have hpending := Executor.pending_next hnext
  have hc : c ∈ s.executor.workItemsBackBuffer :=
    List.mem_of_mem_drop ((Executor.next_eq_some hnext).1.symm ▸ List.mem_cons_self)
  obtain ⟨storage, k, f, o, hholds, hmem⟩ := holds_of_mem h.back hc
  have hnodup := nodup_pending h
  rw [hpending, held_cons hholds.objectPtr] at hnodup
  have hothers : contents (s.memory.modify k fun o => { o with value := left }) e.pending = contents s.memory e.pending :=
    contents_modify (List.nodup_cons.mp hnodup).1 left
  obtain ⟨entry, hentry, hpayload⟩ : ∃ entry, s.enqueued[c.number]? = some entry ∧ c.data.payload s.memory = some entry :=
    h.payloads (c.number, c.data.payload s.memory) (hpending ▸ List.mem_cons_self)
  have hstate : { s with executor := e }.callTask c left =
      { s with
        executor := e
        memory := s.memory.modify k fun o => { o with value := left }
        calls := s.calls ++ [{ number := c.number, argument := some o, destroyed := some (s.memory.destroyed k) }] } := by
    simp [callTask, hholds.objectPtr, hholds.object]
  rw [hstate]
  refine ⟨?_, ?_, ?_, ?_, ?_, ?_⟩
  · show HoldsFrom _ s.buffer 0 e.workItems
    rw [hworkItems]
    exact holdsFrom_modify h.work k left
  · show HoldsFrom _ s.backBuffer 0 e.workItemsBackBuffer
    rw [hbackBuffer]
    exact holdsFrom_modify h.back k left
  · show Ledger.Balanced _ (held e.workItems ++ held e.workItemsBackBuffer)
    rw [hworkItems, hbackBuffer]
    exact h.balanced.modify k _
  · intro p hp
    have hp' : p ∈ contents s.memory e.pending := hothers ▸ hp
    exact h.payloads p (hpending ▸ List.mem_cons_of_mem _ hp')
  · intro call hcall
    rcases List.mem_append.mp hcall with hold | hnew
    · exact h.calls call hold
    · rw [List.mem_singleton.mp hnew]
      refine ⟨congrArg some (h.balanced.live k (List.mem_append_right _ hmem)), o, rfl, ?_⟩
      rw [hentry, ← hpayload, payload_eq hholds]
  · have horder := h.order
    unfold EachCalledOnce at horder ⊢
    rw [hpending] at horder
    simpa using horder

/-- The vector is cleared after its last task. -/
theorem finishBatch_spec (h : s.Inv) (hnext : s.executor.next = none) :
    ∃ m, destroyAll s.executor.workItemsBackBuffer s.memory = some m ∧
      TaskQueue.Inv { s with executor := s.executor.clear, memory := m } := by
  obtain ⟨m, hdestroy, hbalanced, hobject⟩ := destroyAll_spec h.back (h.balanced.perm List.perm_append_comm)
  have hkept : ∀ k ∈ held s.executor.workItems, m.object k = s.memory.object k := fun k _ => hobject k
  refine ⟨m, hdestroy, inv_of_contents h rfl rfl ?_ (holdsFrom_congr h.work hkept) trivial ?_⟩
  · have hpending : s.executor.pending = s.executor.workItems := by
      rw [Executor.pending, Executor.next_eq_none hnext, List.nil_append]
    show contents m s.executor.clear.pending = _
    rw [Executor.pending_clear hnext, hpending]
    exact contents_congr h.work hkept
  · show m.Balanced (held s.executor.workItems ++ [])
    rw [List.append_nil]
    exact hbalanced

/-- One step. -/
theorem inv_step (movedFrom : α → α) (s : TaskQueue L α) (a : TaskQueueAction L α) (s' : TaskQueue L α) (h : s.Inv)
    (hs : s.step movedFrom a = some s') : s'.Inv := by
  cases a with
  | enqueueWork type value grow =>
    obtain ⟨s₁, hreserve, h₁⟩ := reserve_spec movedFrom h grow
    obtain ⟨s₂, happend, h₂⟩ := append_spec h₁ type value
    rw [step, hreserve, Option.bind_some, happend] at hs
    exact Option.some.inj hs ▸ h₂
  | startBatch =>
    rw [step] at hs
    split at hs
    · rename_i hempty
      exact Option.some.inj hs ▸ inv_startBatch h (List.isEmpty_iff.mp hempty)
    · cases hs
  | runNext left =>
    rw [step] at hs
    cases hnext : s.executor.next with
    | none =>
      rw [hnext] at hs
      cases hs
    | some p =>
      rw [hnext] at hs
      exact Option.some.inj hs ▸ inv_callTask h hnext left
  | finishBatch =>
    rw [step] at hs
    cases hnext : s.executor.next with
    | some p =>
      rw [hnext] at hs
      cases hs
    | none =>
      obtain ⟨m, hdestroy, h'⟩ := finishBatch_spec h hnext
      rw [hnext] at hs
      dsimp only at hs
      rw [hdestroy] at hs
      exact Option.some.inj hs ▸ h'

theorem inv_init : (init : TaskQueue L α).Inv where
  work := trivial
  back := trivial
  balanced := Ledger.balanced_empty
  payloads _ hp := absurd hp List.not_mem_nil
  calls _ hcall := absurd hcall List.not_mem_nil
  order := rfl

theorem destroyedOnce_of_inv (h : s.Inv) : s.DestroyedOnce where
  balanced := h.balanced
  owned c hc := by
    rcases List.mem_append.mp hc with hwork | hback
    · obtain ⟨storage, k, f, o, hholds, -⟩ := holds_of_mem h.work hwork
      rw [hholds.objectPtr, Option.isSome_some]
    · obtain ⟨storage, k, f, o, hholds, -⟩ := holds_of_mem h.back hback
      rw [hholds.objectPtr, Option.isSome_some]

theorem neverAborts_of_inv (movedFrom : α → α) (h : s.Inv) : s.NeverAborts movedFrom where
  enqueueWork type value grow := by
    obtain ⟨s₁, hreserve, h₁⟩ := reserve_spec movedFrom h grow
    obtain ⟨s₂, happend, -⟩ := append_spec h₁ type value
    rw [step, hreserve, Option.bind_some, happend, Option.isSome_some]
  batch hback := by simp [step, hback]
  runNext left hnext := by simpa [step] using hnext
  finishBatch hnext := by
    obtain ⟨m, hdestroy, -⟩ := finishBatch_spec h hnext
    simp [step, hnext, hdestroy]

end Steps

end FixedAnyAux

open FixedAnyAux TaskQueue

/-- However often the vectors grow: every task's function is called once, with a pointer to the payload it was enqueued with; every
object that was constructed is destroyed once, those of a batch when it is cleared; and nothing aborts. -/
theorem TaskQueue.payloads_accounted (movedFrom : α → α) {acts : List (TaskQueueAction L α)} {s : TaskQueue L α}
    (h : run (step movedFrom) init acts = some s) :
    s.CalledWithPayload ∧ s.EachCalledOnce ∧ s.DestroyedOnce ∧ s.NeverAborts movedFrom := by
  have hinv : s.Inv := run_invariant (inv_step movedFrom) inv_init h
  exact ⟨hinv.calls, hinv.order, destroyedOnce_of_inv hinv, neverAborts_of_inv movedFrom hinv⟩

section Growing

/-- Storages and heap objects at multiples of 16. -/
private def growingLayout : Layout where
  maxAlign := 16
  length := 96
  storage b i := 16 * (1000 * b + 7 * i)
  heap k := 16 * (1000000 + 100 * k)
  storage_aligned _ _ := Nat.dvd_mul_right ..
  heap_aligned _ := Nat.dvd_mul_right ..

/-- The first payload is kept in the cell, the second one is too large for it; the vector grows for each. -/
private def growingActions : List (TaskQueueAction growingLayout Nat) :=
  [.enqueueWork { size := 8, align := 8, align_pos := by decide, align_dvd := by decide } 3 (some 1),
    .enqueueWork { size := 200, align := 16, align_pos := by decide, align_dvd := by decide } 4 (some 2), .startBatch, .runNext 0,
    .enqueueWork { size := 1, align := 1, align_pos := by decide, align_dvd := by decide } 5 (some 3), .runNext 0, .finishBatch]

/-- The payloads were moved three times in all, and both were destroyed. -/
theorem TaskQueue.payloads_accounted_growing :
    ∃ s : TaskQueue growingLayout Nat, run (step fun _ => 0) init growingActions = some s ∧
      (s.CalledWithPayload ∧ s.EachCalledOnce ∧ s.DestroyedOnce ∧ s.NeverAborts fun _ => 0) ∧
      s.calls.map (fun call => call.argument.map fun o => o.value) = [some 3, some 4] ∧
      (List.range 4).map s.memory.destroyed = [1, 1, 1, 0] :=
  ⟨_, rfl, TaskQueue.payloads_accounted (fun _ => 0) (rfl : run _ _ growingActions = some _), rfl, rfl⟩

end Growing

end Minicomps
