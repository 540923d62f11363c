import Mathlib.Data.List.Perm.Basic
import Mathlib.Logic.Function.Basic
import Mathlib.Tactic.Common

/-!
# A ledger of objects

Objects are created one after another, and each is to be destroyed once. A ledger counts how often each has been destroyed. It is
balanced against a list of objects that are held: these have not been destroyed, and all others have been, once.
-/

/-- The objects that were created so far, by number, and how often each has been destroyed. -/
structure Ledger (ω : Type*) where
  size : Nat := 0
  object : Nat → Option ω := fun _ => none
  destroyed : Nat → Nat := fun _ => 0

namespace Ledger

variable {ω : Type*}

/-- Create an object; its number is the size before. -/
def create (l : Ledger ω) (x : ω) : Ledger ω :=
  { l with size := l.size + 1, object := Function.update l.object l.size (some x) }

/-- Change an object in place. -/
def modify (l : Ledger ω) (k : Nat) (f : ω → ω) : Ledger ω :=
  { l with object := Function.update l.object k ((l.object k).map f) }

/-- Destroy an object. What it was stays readable here. -/
def destroy (l : Ledger ω) (k : Nat) : Ledger ω := { l with destroyed := Function.update l.destroyed k (l.destroyed k + 1) }

@[simp] theorem size_create (l : Ledger ω) (x : ω) : (l.create x).size = l.size + 1 := rfl

@[simp] theorem object_create_self (l : Ledger ω) (x : ω) : (l.create x).object l.size = some x := Function.update_self ..

theorem object_create_of_ne (l : Ledger ω) (x : ω) {k : Nat} (h : k ≠ l.size) : (l.create x).object k = l.object k :=
  Function.update_of_ne h ..

@[simp] theorem object_modify_self (l : Ledger ω) (k : Nat) (f : ω → ω) : (l.modify k f).object k = (l.object k).map f :=
  Function.update_self ..

theorem object_modify_of_ne (l : Ledger ω) {k k' : Nat} (f : ω → ω) (h : k' ≠ k) : (l.modify k f).object k' = l.object k' :=
  Function.update_of_ne h ..

@[simp] theorem object_destroy (l : Ledger ω) (k k' : Nat) : (l.destroy k).object k' = l.object k' := rfl

/-! ## Balance -/

/-- The objects of the list have not been destroyed, and every other object that was created has been destroyed once. -/
structure Balanced (l : Ledger ω) (held : List Nat) : Prop where
  nodup : held.Nodup
  known : ∀ k ∈ held, k < l.size
  live : ∀ k ∈ held, l.destroyed k = 0
  gone : ∀ k, k < l.size → k ∉ held → l.destroyed k = 1
  fresh : ∀ k, l.size ≤ k → l.destroyed k = 0

/-- Nothing has been created, and nothing is held. -/
theorem balanced_empty : Balanced ({} : Ledger ω) [] where
  nodup := List.nodup_nil
  known _ hk := absurd hk List.not_mem_nil
  live _ _ := rfl
  gone k hk _ := absurd hk (Nat.not_lt_zero k)
  fresh _ _ := rfl

namespace Balanced

variable {l : Ledger ω} {held : List Nat}

/-- The order in which the objects are held does not matter. -/
theorem perm {held' : List Nat} (h : l.Balanced held) (hp : held.Perm held') : l.Balanced held' where
  nodup := hp.nodup_iff.mp h.nodup
  known k hk := h.known k (hp.mem_iff.mpr hk)
  live k hk := h.live k (hp.mem_iff.mpr hk)
  gone k hlt hk := h.gone k hlt fun hmem => hk (hp.mem_iff.mp hmem)
  fresh := h.fresh

/-- An object that is about to be created is not one of those that are held. -/
theorem size_not_mem (h : l.Balanced held) : l.size ∉ held := fun hmem => Nat.lt_irrefl _ (h.known _ hmem)

/-- Whoever creates an object holds it. -/
theorem create (h : l.Balanced held) (x : ω) : (l.create x).Balanced (l.size :: held) where
  nodup := List.nodup_cons.mpr ⟨h.size_not_mem, h.nodup⟩
  known k hk := by
    rw [size_create]
    rcases List.mem_cons.mp hk with rfl | hk
    · exact Nat.lt_succ_self _
    · exact Nat.lt_succ_of_lt (h.known k hk)
  live k hk := by
    rcases List.mem_cons.mp hk with rfl | hk
    · exact h.fresh l.size (Nat.le_refl _)
    · exact h.live k hk
  gone k hlt hk := by
    obtain ⟨hne, hk⟩ := not_or.mp (mt List.mem_cons.mpr hk)
    rw [size_create] at hlt
    exact h.gone k (by omega) hk
  fresh k hle := by
    rw [size_create] at hle
    exact h.fresh k (by omega)

/-- Changing an object in place changes nothing about who is held. -/
theorem modify (h : l.Balanced held) (k : Nat) (f : ω → ω) : (l.modify k f).Balanced held := ⟨h.nodup, h.known, h.live, h.gone, h.fresh⟩

theorem destroyed_destroy_of_ne (l : Ledger ω) {k k' : Nat} (h : k' ≠ k) : (l.destroy k).destroyed k' = l.destroyed k' :=
  Function.update_of_ne h ..

/-- Whoever destroys an object he holds does not hold it any more. -/
theorem destroy {k : Nat} (h : l.Balanced (k :: held)) : (l.destroy k).Balanced held where
  nodup := (List.nodup_cons.mp h.nodup).2
  known k' hk' := h.known k' (List.mem_cons_of_mem k hk')
  live k' hk' := by
    have hne : k' ≠ k := fun heq => (List.nodup_cons.mp h.nodup).1 (heq ▸ hk')
    rw [destroyed_destroy_of_ne l hne]
    exact h.live k' (List.mem_cons_of_mem k hk')
  gone k' hlt hk' := by
    by_cases heq : k' = k
    · subst heq
      have hafter : (l.destroy k').destroyed k' = l.destroyed k' + 1 := Function.update_self ..
      rw [hafter, h.live k' List.mem_cons_self]
    · rw [destroyed_destroy_of_ne l heq]
      refine h.gone k' hlt fun hmem => ?_
      exact (List.mem_cons.mp hmem).elim heq hk'
  fresh k' hle := by
    have hlt : k < l.size := h.known k List.mem_cons_self
    have hsize : l.size ≤ k' := hle
    rw [destroyed_destroy_of_ne l (by omega)]
    exact h.fresh k' hsize

end Balanced

end Ledger
