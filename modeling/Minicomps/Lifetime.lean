import Mathlib.Logic.Function.Basic

/-!
# Lifetimes

A `lifetime` holds one shared integer, and a reset replaces it by a new one. A weak pointer to it therefore says which lifetime
it was made from and how often that had been reset, and it has expired as soon as the lifetime is reset again.
-/

namespace Minicomps

/-- The identity of a `lifetime` object. -/
abbrev LifetimeId := Nat

/-- `lifetime_weak_ptr`, made from a lifetime that had been reset `epoch` times. -/
structure LifetimeWeakPtr where
  lifetime : LifetimeId
  epoch : Nat
  deriving DecidableEq, Repr

/-- All lifetimes: how often each has been reset. A lifetime that is destroyed counts as reset once more. -/
abbrev Lifetimes := LifetimeId → Nat

namespace Lifetimes

/-- `lifetime::create_weak_ptr`. -/
def createWeakPtr (ls : Lifetimes) (l : LifetimeId) : LifetimeWeakPtr := ⟨l, ls l⟩

/-- `lifetime::reset`. -/
def reset (ls : Lifetimes) (l : LifetimeId) : Lifetimes := Function.update ls l (ls l + 1)

/-- `expired()` of a weak pointer. -/
def expired (ls : Lifetimes) (p : LifetimeWeakPtr) : Bool := decide (p.epoch < ls p.lifetime)

/-- `expired()` of a weak pointer that may be empty, since it was moved from: an empty one is expired. -/
def expiredOrEmpty (ls : Lifetimes) : Option LifetimeWeakPtr → Bool
  | some p => ls.expired p
  | none => true

theorem reset_self (ls : Lifetimes) (l : LifetimeId) : ls.reset l l = ls l + 1 := Function.update_self ..

theorem reset_of_ne (ls : Lifetimes) {l l' : LifetimeId} (h : l' ≠ l) : ls.reset l l' = ls l' :=
  Function.update_of_ne h ..

theorem le_reset (ls : Lifetimes) (l l' : LifetimeId) : ls l' ≤ ls.reset l l' := by
  by_cases h : l' = l
  · subst h
    rw [reset_self]
    exact Nat.le_succ _
  · exact Nat.le_of_eq (reset_of_ne ls h).symm

/-- What has expired stays so. -/
theorem expiredOrEmpty_reset {ls : Lifetimes} {p : Option LifetimeWeakPtr} (h : ls.expiredOrEmpty p = true) (l : LifetimeId) :
    (ls.reset l).expiredOrEmpty p = true := by
  cases p with
  | none => rfl
  | some p => exact decide_eq_true (Nat.lt_of_lt_of_le (of_decide_eq_true h) (le_reset ls l p.lifetime))

/-- A weak pointer that has not expired is not empty. -/
theorem isSome_of_not_expired {ls : Lifetimes} {p : Option LifetimeWeakPtr} (h : ls.expiredOrEmpty p = false) : p.isSome = true := by
  cases p with
  | none => cases h
  | some p => rfl

end Lifetimes

end Minicomps
