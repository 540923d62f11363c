import Minicomps.Executor

/-!
# A work item that calls `execute`

A work item may call `execute()` of the executor that runs it. The inner call exchanges the vectors under the loop of the outer one, whose
iterators go on through the elements they were made for, in whichever vector these are by then.
-/

namespace Minicomps

/-- The loop of an `execute()` that has not returned: its iterators. -/
structure ItemLoop where
  /-- The elements it goes through are those of the back buffer now. -/
  inBack : Bool
  /-- The item that is running. -/
  position : Nat
  /-- Where `end()` was. -/
  size : Nat
  deriving DecidableEq, Repr

/-- After an exchange of the vectors. -/
def ItemLoop.exchanged (l : ItemLoop) : ItemLoop := { l with inBack := !l.inBack }

/-- The elements a loop goes through. -/
def ItemLoop.items (l : ItemLoop) (e : Executor Nat) : List Nat := if l.inBack then e.workItemsBackBuffer else e.workItems

/-- An executor whose items call it. The items are numbered by their enqueueing. -/
structure NestedExecutor where
  executor : Executor Nat := {}
  /-- The calls of `execute()`, the innermost first. Each has an item running, or calling the next. -/
  loops : List ItemLoop := []
  enqueued : Nat := 0
  /-- History: the items that have been started. -/
  started : List Nat := []
  /-- A loop is left with iterators to elements that are gone. What it does is undefined. -/
  dangling : Bool := false
  deriving DecidableEq, Repr

/-- What the innermost running item does next, or whoever calls the executor while none runs. -/
inductive NestedAction where
  /-- `enqueue_work`; the vector may have to grow. -/
  | enqueueWork (grow : Bool)
  | execute
  /-- The item returns. -/
  | finish
  deriving DecidableEq, Repr

namespace NestedExecutor

/-- `enqueue_work`. A vector that grows moves its elements away from a loop that goes through them. -/
def enqueueWork (s : NestedExecutor) (grow : Bool) : NestedExecutor :=
  { s with
    executor := s.executor.enqueueWork s.enqueued
    enqueued := s.enqueued + 1
    dangling := grow && s.loops.any fun l => !l.inBack }

/-- `execute()`, up to its first item; it returns where there is none. -/
def execute (s : NestedExecutor) : NestedExecutor :=
  let executor := s.executor.swap
  let loops := s.loops.map ItemLoop.exchanged
  match executor.workItemsBackBuffer with
  | [] => { s with executor := executor.clear, loops := loops }
  | item :: rest =>
    { s with
      executor := executor
      loops := { inBack := true, position := 0, size := (item :: rest).length } :: loops
      started := s.started ++ [item] }

/-- The next round of a loop, or the end of its `execute()`. -/
def advance (s : NestedExecutor) (l : ItemLoop) (loops : List ItemLoop) : NestedExecutor :=
  if l.position + 1 < l.size then
    match (l.items s.executor)[l.position + 1]? with
    | some item => { s with loops := { l with position := l.position + 1 } :: loops, started := s.started ++ [item] }
    -- The element has been destroyed.
    | none => { s with dangling := true }
  else { s with executor := s.executor.clear, loops := loops }

/-- One step; `none` where it cannot be taken, or nothing is defined any more. -/
def step (s : NestedExecutor) (a : NestedAction) : Option NestedExecutor :=
  if s.dangling then none
  else
    match a with
    | .enqueueWork grow => some (s.enqueueWork grow)
    | .execute => some s.execute
    | .finish =>
      match s.loops with
      | [] => none
      | l :: loops => some (s.advance l loops)

/-- Nothing has been enqueued. -/
def init : NestedExecutor := {}

/-- The items that a running loop has not come to yet. -/
def ahead (s : NestedExecutor) (l : ItemLoop) : List Nat := ((l.items s.executor).take l.size).drop (l.position + 1)

/-- The items that are still to be started, by a running loop or by a later `execute()`. -/
def waiting (s : NestedExecutor) : List Nat := s.loops.flatMap s.ahead ++ s.executor.workItems

/-- No item has been started twice, and none has been dropped. -/
structure ItemsOnce (s : NestedExecutor) : Prop where
  once : s.started.Nodup
  kept : ∀ item < s.enqueued, item ∈ s.started ∨ item ∈ s.waiting
  defined : s.dangling = false

/-- `execute()` is called while `work_items_` has no item in it that has been started, and `work_items_` grows while no loop goes through
its elements. -/
def LeavesStarted (s : NestedExecutor) : NestedAction → Prop
  | .enqueueWork grow => grow = true → ∀ l ∈ s.loops, l.inBack = true
  | .execute => ∀ item ∈ s.executor.workItems, item ∉ s.started
  | .finish => True

end NestedExecutor

end Minicomps
