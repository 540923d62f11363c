import Mathlib.Data.List.AList
import Mathlib.Logic.Function.Basic

/-!
# A store of shared immutable cells read through weak handles

A map from keys to reference-counted cells that are never written after they are made: an update makes a fresh cell and lets
the map point to it, so that whoever holds the old cell keeps seeing the old value, and a weak handle on the old cell expires
unless somebody else holds it. Cells are told apart by their number and numbers are never reused.

`CellStore.Extends` is what any sequence of updates does to a store, and `Extends.owns_of_lt` is the rule the users of handles
need: a cell the map let go of is never taken back.
-/

/-- The name of a cell: the identity of a control block. -/
abbrev CellId := Nat

/-- A map from keys to cells. `next` is the number of the next cell made; a number below it that no key points to is a cell
the map has let go of. -/
structure CellStore (κ ν : Type*) [DecidableEq κ] where
  active : AList (fun _ : κ => CellId)
  heap : CellId → ν
  next : CellId
  /-- Every cell pointed to has been made. -/
  fresh : ∀ k l, active.lookup k = some l → l < next
  /-- No two keys point to one cell. -/
  distinct : ∀ k k' l, active.lookup k = some l → active.lookup k' = some l → k = k'

namespace CellStore

variable {κ ν : Type*} [DecidableEq κ]

/-- The store with no key. -/
def empty [Inhabited ν] : CellStore κ ν where
  active := ∅
  heap := fun _ => default
  next := 0
  fresh := by simp
  distinct := by simp

/-- The cell a key points to. -/
def find (s : CellStore κ ν) (k : κ) : Option CellId := s.active.lookup k

/-- The keys of the store, each once. -/
def keys (s : CellStore κ ν) : List κ := s.active.keys

/-- Make a fresh cell that holds `v` and let `k` point to it. -/
def store (s : CellStore κ ν) (k : κ) (v : ν) : CellStore κ ν where
  active := s.active.insert k s.next
  heap := Function.update s.heap s.next v
  next := s.next + 1
  fresh := by
    intro k' l h
    by_cases hk : k' = k
    · subst hk
      rw [AList.lookup_insert] at h
      exact Option.some.inj h ▸ Nat.lt_succ_self _
    · rw [AList.lookup_insert_ne hk] at h
      exact Nat.lt_succ_of_lt (s.fresh k' l h)
  distinct := by
    intro k₁ k₂ l h₁ h₂
    by_cases hk₁ : k₁ = k <;> by_cases hk₂ : k₂ = k
    · rw [hk₁, hk₂]
    · subst hk₁
      rw [AList.lookup_insert] at h₁
      rw [AList.lookup_insert_ne hk₂, ← h₁] at h₂
      exact absurd (s.fresh k₂ _ h₂) (Nat.lt_irrefl _)
    · subst hk₂
      rw [AList.lookup_insert] at h₂
      rw [AList.lookup_insert_ne hk₁, ← h₂] at h₁
      exact absurd (s.fresh k₁ _ h₁) (Nat.lt_irrefl _)
    · rw [AList.lookup_insert_ne hk₁] at h₁
      rw [AList.lookup_insert_ne hk₂] at h₂
      exact s.distinct k₁ k₂ l h₁ h₂

/-- Some key points to the cell. -/
def owns (s : CellStore κ ν) (l : CellId) : Bool := s.active.entries.any (fun e => e.2 == l)

/-! ## What a key points to -/

@[simp] theorem find_empty [Inhabited ν] (k : κ) : (empty : CellStore κ ν).find k = none := AList.lookup_empty k

@[simp] theorem find_store_self (s : CellStore κ ν) (k : κ) (v : ν) : (s.store k v).find k = some s.next :=
  AList.lookup_insert _

theorem find_store_of_ne (s : CellStore κ ν) {k k' : κ} (v : ν) (h : k' ≠ k) : (s.store k v).find k' = s.find k' :=
  AList.lookup_insert_ne h

theorem mem_keys {s : CellStore κ ν} {k : κ} : k ∈ s.keys ↔ (s.find k).isSome := by
  rw [find, AList.lookup_isSome, AList.mem_keys, keys]

theorem keys_nodup (s : CellStore κ ν) : s.keys.Nodup := AList.keys_nodup s.active

theorem find_lt {s : CellStore κ ν} {k : κ} {l : CellId} (h : s.find k = some l) : l < s.next := s.fresh k l h

@[simp] theorem heap_store_self (s : CellStore κ ν) (k : κ) (v : ν) : (s.store k v).heap s.next = v :=
  Function.update_self ..

theorem heap_store_of_lt (s : CellStore κ ν) (k : κ) (v : ν) {l : CellId} (h : l < s.next) :
    (s.store k v).heap l = s.heap l :=
  Function.update_of_ne (Nat.ne_of_lt h) ..

/-- A cell is owned exactly when a key points to it. -/
theorem owns_iff {s : CellStore κ ν} {l : CellId} : s.owns l = true ↔ ∃ k, s.find k = some l := by
  simp only [owns, List.any_eq_true, beq_iff_eq]
  constructor
  · rintro ⟨⟨k, l'⟩, hmem, rfl⟩
    exact ⟨k, AList.mem_lookup_iff.mpr hmem⟩
  · rintro ⟨k, h⟩
    exact ⟨⟨k, l⟩, AList.mem_lookup_iff.mp h, rfl⟩

theorem owns_of_find {s : CellStore κ ν} {k : κ} {l : CellId} (h : s.find k = some l) : s.owns l = true :=
  owns_iff.mpr ⟨k, h⟩

/-- A cell one key points to is owned exactly as long as that key points to it. -/
theorem owns_iff_find {s : CellStore κ ν} {k : κ} {l : CellId} (h : ∀ k', s.find k' = some l → k' = k) :
    s.owns l = true ↔ s.find k = some l := by
  rw [owns_iff]
  constructor
  · rintro ⟨k', hk'⟩
    exact h k' hk' ▸ hk'
  · exact fun hk => ⟨k, hk⟩

/-! ## What updates do to a store -/

/-- `t` is `s` after some updates: cells made so far keep their value, and a key points to the cell it pointed to or to a
cell made since. -/
structure Extends (s t : CellStore κ ν) : Prop where
  next_le : s.next ≤ t.next
  heap_eq : ∀ l, l < s.next → t.heap l = s.heap l
  find : ∀ k l, t.find k = some l → s.find k = some l ∨ s.next ≤ l
  known : ∀ k, (s.find k).isSome → (t.find k).isSome

theorem Extends.refl (s : CellStore κ ν) : s.Extends s :=
  ⟨Nat.le_refl _, fun _ _ => rfl, fun _ _ h => Or.inl h, fun _ h => h⟩

theorem Extends.trans {s t u : CellStore κ ν} (h : s.Extends t) (h' : t.Extends u) : s.Extends u where
  next_le := Nat.le_trans h.next_le h'.next_le
  heap_eq l hl := (h'.heap_eq l (Nat.lt_of_lt_of_le hl h.next_le)).trans (h.heap_eq l hl)
  find k l hk := by
    rcases h'.find k l hk with hk | hl
    · exact h.find k l hk
    · exact Or.inr (Nat.le_trans h.next_le hl)
  known k hk := h'.known k (h.known k hk)

theorem extends_store (s : CellStore κ ν) (k : κ) (v : ν) : s.Extends (s.store k v) where
  next_le := Nat.le_succ _
  heap_eq _ hl := s.heap_store_of_lt k v hl
  find k' l h := by
    by_cases hk : k' = k
    · subst hk
      rw [find_store_self] at h
      exact Or.inr (Option.some.inj h ▸ Nat.le_refl _)
    · rw [find_store_of_ne s v hk] at h
      exact Or.inl h
  known k' h := by
    by_cases hk : k' = k
    · subst hk
      rw [find_store_self]
      rfl
    · rwa [find_store_of_ne s v hk]

/-- A cell the map let go of is never taken back. -/
theorem Extends.owns_of_lt {s t : CellStore κ ν} (h : s.Extends t) {l : CellId} (hl : l < s.next)
    (ht : t.owns l = true) : s.owns l = true := by
  obtain ⟨k, hk⟩ := owns_iff.mp ht
  rcases h.find k l hk with hk | hle
  · exact owns_of_find hk
  · exact absurd hl (Nat.not_lt.mpr hle)

/-- After updates, a key whose cell is old points to the cell it pointed to before. -/
theorem Extends.find_of_lt {s t : CellStore κ ν} (h : s.Extends t) {k : κ} {l : CellId} (hl : l < s.next)
    (ht : t.find k = some l) : s.find k = some l :=
  (h.find k l ht).resolve_right (Nat.not_le.mpr hl)

end CellStore
