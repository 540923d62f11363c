import Minicomps.Component
import Minicomps.Executor

/-!
# Executors that are pumped

Work that makes further work: the handler of a request answers, or calls another component; the handler of an event sends events. Each
executor is pumped by a thread of its own. An item enqueues what it has to one after the other, on any executors, and between any two of
these enqueues the items of other executors go on.
-/

namespace Minicomps

/-- Executors, each with an `execute()` under way or not. -/
structure PumpedExecutors (τ : Type*) where
  executors : ExecutorId → Executor τ := fun _ => {}
  executing : ExecutorId → Bool := fun _ => false
  /-- What the item that an executor is running has still to enqueue, and where. -/
  spawning : ExecutorId → List (ExecutorId × τ) := fun _ => []

/-- What happens to them. -/
inductive PumpAction (τ : Type*) where
  /-- Work from outside. -/
  | post (x : ExecutorId) (item : τ)
  /-- `execute()` exchanges the vectors. -/
  | startBatch (x : ExecutorId)
  /-- The loop comes to its next item, which is going to enqueue these. -/
  | runNext (x : ExecutorId) (spawned : List (ExecutorId × τ))
  /-- The item that the executor is running calls `enqueue_work`. -/
  | enqueueWork (x : ExecutorId)
  /-- The loop ends, and `execute()` returns. -/
  | finishBatch (x : ExecutorId)

namespace PumpedExecutors

variable {τ : Type*}

/-- Put an item at the end of an executor's queue. -/
def enqueueOn (s : PumpedExecutors τ) (x : ExecutorId) (item : τ) : PumpedExecutors τ :=
  { s with executors := Function.update s.executors x ((s.executors x).enqueueWork item) }

/-- One step; `none` where it cannot be taken. -/
def step (s : PumpedExecutors τ) : PumpAction τ → Option (PumpedExecutors τ)
  | .post x item => some (s.enqueueOn x item)
  | .startBatch x =>
    if s.executing x then none
    else
      some { s with
        executors := Function.update s.executors x (s.executors x).swap
        executing := Function.update s.executing x true }
  | .runNext x spawned =>
    if s.executing x && (s.spawning x).isEmpty then
      match (s.executors x).next with
      | some (_, e) =>
        some { s with
          executors := Function.update s.executors x e
          spawning := Function.update s.spawning x spawned }
      | none => none
    else none
  | .enqueueWork x =>
    match s.spawning x with
    | (y, item) :: spawned => some ({ s with spawning := Function.update s.spawning x spawned }.enqueueOn y item)
    | [] => none
  | .finishBatch x =>
    if s.executing x && (s.spawning x).isEmpty then
      match (s.executors x).next with
      | some _ => none
      | none =>
        some { s with
          executors := Function.update s.executors x (s.executors x).clear
          executing := Function.update s.executing x false }
    else none

/-- No work yet. -/
def init : PumpedExecutors τ := {}

/-! ## How far the work goes -/

/-- The work stays on the executors `pumped`, and what an item enqueues ranks below it. Nothing comes from outside. -/
def Descends (rank : τ → Nat) (pumped : Set ExecutorId) (s : PumpedExecutors τ) : PumpAction τ → Prop
  | .post _ _ => False
  | .runNext x spawned => ∀ item e, (s.executors x).next = some (item, e) → ∀ p ∈ spawned, p.1 ∈ pumped ∧ rank p.2 < rank item
  | _ => True

/-- All that waits is on the executors `pumped`, and ranks below `n`; what running items have still to enqueue ranks below that. -/
structure Below (rank : τ → Nat) (pumped : Set ExecutorId) (n : Nat) (s : PumpedExecutors τ) : Prop where
  pending : ∀ x, ∀ item ∈ (s.executors x).pending, x ∈ pumped ∧ rank item < n
  spawning : ∀ x, ∀ p ∈ s.spawning x, x ∈ pumped ∧ p.1 ∈ pumped ∧ rank p.2 + 1 < n

/-- The executor starts a batch and comes to the end of one. -/
def Completes (x : ExecutorId) (acts : List (PumpAction τ)) : Prop :=
  ∃ before between after, acts = before ++ .startBatch x :: (between ++ .finishBatch x :: after)

/-- No item waits, and none has anything to enqueue. -/
def Drained (s : PumpedExecutors τ) : Prop := ∀ x, (s.executors x).pending = [] ∧ s.spawning x = []

end PumpedExecutors

end Minicomps
