import Mathlib.Logic.Function.Basic
import Mathlib.Tactic.Common

/-!
# Recursive mutexes

A mutex that its holder can lock again, and that is free once the holder has unlocked it as many times as it has locked it. What
the operations do is said through `depth`, the number of times a thread has it locked.
-/

/-- A recursive mutex: the thread that holds it, and how many times it has locked it besides the first. -/
structure RecursiveMutex (θ : Type*) where
  holder : Option (θ × Nat) := none
  deriving DecidableEq, Repr

namespace RecursiveMutex

variable {θ : Type*} [DecidableEq θ]

/-- How many times the thread has the mutex locked. -/
def depth (m : RecursiveMutex θ) (t : θ) : Nat :=
  match m.holder with
  | some (u, n) => if u = t then n + 1 else 0
  | none => 0

/-- The thread locks the mutex; `none` while it has to wait for another thread. -/
def lock (m : RecursiveMutex θ) (t : θ) : Option (RecursiveMutex θ) :=
  match m.holder with
  | some (u, n) => if u = t then some ⟨some (u, n + 1)⟩ else none
  | none => some ⟨some (t, 0)⟩

/-- The holder unlocks the mutex. -/
def unlock (m : RecursiveMutex θ) : RecursiveMutex θ :=
  match m.holder with
  | some (u, n + 1) => ⟨some (u, n)⟩
  | _ => ⟨none⟩

theorem depth_held (u t : θ) (n : Nat) : depth ⟨some (u, n)⟩ t = if u = t then n + 1 else 0 := rfl

/-- A thread that has the mutex locked is its holder. -/
theorem eq_of_depth_held {u t : θ} {n : Nat} (h : 0 < depth ⟨some (u, n)⟩ t) : u = t := by
  by_contra hne
  rw [depth_held, if_neg hne] at h
  cases h

/-- At most one thread has the mutex locked. -/
theorem depth_exclusive {m : RecursiveMutex θ} {t u : θ} (ht : 0 < m.depth t) (hu : 0 < m.depth u) : t = u := by
  rcases m with ⟨_ | ⟨v, n⟩⟩
  · cases ht
  · exact (eq_of_depth_held ht).symm.trans (eq_of_depth_held hu)

/-- A thread has to wait exactly while another thread has the mutex locked. -/
theorem lock_eq_none_iff {m : RecursiveMutex θ} {t : θ} : m.lock t = none ↔ ∃ u, u ≠ t ∧ 0 < m.depth u := by
  rcases m with ⟨_ | ⟨v, n⟩⟩
  · simp [lock, depth]
  · by_cases hv : v = t
    · simp [lock, depth, hv, eq_comm]
    · simp only [lock, hv, if_false, true_iff]
      exact ⟨v, hv, by simp [depth_held]⟩

/-- Locking adds to the depth of the thread, and to no other's. -/
theorem depth_lock {m m' : RecursiveMutex θ} {t : θ} (h : m.lock t = some m') :
    m'.depth = Function.update m.depth t (m.depth t + 1) := by
  funext u
  rcases m with ⟨_ | ⟨v, n⟩⟩
  · obtain rfl := Option.some.inj h
    by_cases hu : u = t
    · simp [depth, hu]
    · simp [depth, hu, Ne.symm hu]
  · simp only [lock] at h
    split at h
    · rename_i hv
      obtain rfl := Option.some.inj h
      by_cases hu : u = t
      · simp [depth, hu, hv]
      · simp [depth, hu, hv, Ne.symm hu]
    · cases h

/-- Unlocking takes from the depth of the holder, and from no other's. -/
theorem depth_unlock {m : RecursiveMutex θ} {t : θ} (h : 0 < m.depth t) :
    m.unlock.depth = Function.update m.depth t (m.depth t - 1) := by
  funext u
  rcases m with ⟨_ | ⟨v, n⟩⟩
  · cases h
  · have hv := eq_of_depth_held h
    by_cases hu : u = t
    · cases n <;> simp [depth, unlock, hu, hv]
    · cases n <;> simp [depth, unlock, hu, hv, Ne.symm hu]

end RecursiveMutex
