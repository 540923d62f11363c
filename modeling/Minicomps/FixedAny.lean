import Minicomps.Executor
import Minicomps.Lib.Ledger

/-!
# The payloads of work items

`fixed_any` keeps an object of any type in its own storage, or on the heap where that is too small, together with two functions that
know the type. A work item of an `executor` has one; when the vector of work items grows, its elements are moved to a new buffer, and
every move of a `fixed_any` makes a new object and destroys the old one.
-/

namespace Minicomps

/-- The identity of a payload object, by the order of construction. -/
abbrev ObjectId := Nat

/-- The identity of a buffer of a vector. -/
abbrev BufferId := Nat

/-- Where things are in memory. The storage of a `fixed_any` is aligned for `std::max_align_t`, and so is what `new` returns. -/
structure Layout where
  /-- `alignof(std::max_align_t)`. -/
  maxAlign : Nat
  /-- `sizeof(storage_)`. -/
  length : Nat
  /-- The address of `storage_` in a buffer's element. -/
  storage : BufferId → Nat → Nat
  heap : ObjectId → Nat
  storage_aligned : ∀ b i, maxAlign ∣ storage b i
  heap_aligned : ∀ k, maxAlign ∣ heap k

/-- A type of payloads, with an alignment that is not greater than that of `std::max_align_t`. -/
structure PayloadType (L : Layout) where
  size : Nat
  align : Nat
  align_pos : 0 < align
  align_dvd : align ∣ L.maxAlign

/-- A payload object. -/
structure PayloadObject (L : Layout) (α : Type*) where
  type : PayloadType L
  value : α
  address : Nat

/-- The payload objects that were constructed. -/
abbrev Memory (L : Layout) (α : Type*) := Ledger (PayloadObject L α)

/-- `check_alignment<T>`, which aborts where it fails. -/
def PayloadType.checkAlignment {L : Layout} (type : PayloadType L) (address : Nat) : Bool := address % type.align == 0

/-- `std::align`: the first aligned address, if the object fits behind it. -/
def align (alignment size address space : Nat) : Option Nat :=
  let aligned := (address + alignment - 1) / alignment * alignment
  if aligned - address + size ≤ space then some aligned else none

/-- `destruct_` and `move_construct_`, which `assign` makes for the type and for where the object is. -/
structure ErasedFunctions (L : Layout) where
  type : PayloadType L
  inStorage : Bool

/-- `fixed_any`. A pointer to an object is its identity. -/
structure FixedAny (L : Layout) where
  alignedPtr : Option Nat := none
  objectPtr : Option ObjectId := none
  functions : Option (ErasedFunctions L) := none

section

variable {L : Layout} {α : Type*}

namespace ErasedFunctions

/-- `destruct_(ptr)`. -/
def destruct (f : ErasedFunctions L) (m : Memory L α) (k : ObjectId) : Option (Memory L α) :=
  (m.object k).bind fun o => if f.type.checkAlignment o.address then some (m.destroy k) else none

/-- A new object is made by a move from the source; `movedFrom` is what the move leaves in the source. -/
def construct (movedFrom : α → α) (f : ErasedFunctions L) (m : Memory L α) (address : Nat) (source : ObjectId) (o : PayloadObject L α) :
    Memory L α :=
  (m.modify source fun o => { o with value := movedFrom o.value }).create { type := f.type, value := o.value, address }

/-- `move_construct_(target, source)`: the number of the new object, and the memory. -/
def moveConstruct (movedFrom : α → α) (f : ErasedFunctions L) (m : Memory L α) (target : Option Nat) (source : ObjectId) :
    Option (ObjectId × Memory L α) :=
  (m.object source).bind fun o =>
    if f.inStorage then
      target.bind fun target =>
        if f.type.checkAlignment target && f.type.checkAlignment o.address then
          some (m.size, f.construct movedFrom m target source o)
        else none
    -- The target is not used: the new object is on the heap too.
    else if f.type.checkAlignment o.address then some (m.size, f.construct movedFrom m (L.heap m.size) source o)
    else none

end ErasedFunctions

namespace FixedAny

/-- `fixed_any::destroy`. -/
def destroy (a : FixedAny L) (m : Memory L α) : Option (FixedAny L × Memory L α) :=
  match a.objectPtr with
  | none => some (a, m)
  | some k =>
    (a.functions.bind fun f => f.destruct m k).map fun m => ({ a with objectPtr := none, alignedPtr := none }, m)

/-- `fixed_any::assign` of another one: the one at `storage`, the other one at `otherStorage`, and the memory. -/
def assignAny (movedFrom : α → α) (a : FixedAny L) (storage : Nat) (other : FixedAny L) (otherStorage : Nat) (m : Memory L α) :
    Option (FixedAny L × FixedAny L × Memory L α) :=
  (a.destroy m).bind fun (_, m) =>
    -- The difference is the same since both storages are aligned.
    let alignedPtr := other.alignedPtr.map fun p => storage + (p - otherStorage)
    match other.functions, other.objectPtr with
    | some f, some source =>
      (f.moveConstruct movedFrom m alignedPtr source).bind fun (k, m) =>
        (other.destroy m).map fun (other, m) =>
          ({ alignedPtr, objectPtr := some k, functions := some f }, { other with functions := none }, m)
    | _, _ => none

/-- `fixed_any::assign` of a value. -/
def assign (a : FixedAny L) (storage : Nat) (type : PayloadType L) (value : α) (m : Memory L α) : Option (FixedAny L × Memory L α) :=
  (a.destroy m).bind fun (_, m) =>
    if type.size + type.align - 1 ≤ L.length then
      (align type.align type.size storage L.length).map fun aligned =>
        ({ alignedPtr := some aligned, objectPtr := some m.size, functions := some { type, inStorage := true } },
          m.create { type, value, address := aligned })
    else
      some ({ alignedPtr := none, objectPtr := some m.size, functions := some { type, inStorage := false } },
        m.create { type, value, address := L.heap m.size })

end FixedAny

/-! ## The executor's vectors -/

/-- `executor::task`, by how many had been enqueued before it. -/
structure TaskCell (L : Layout) where
  number : Nat
  data : FixedAny L

/-- A call of a task's function: the task, and the object its argument points to. -/
structure TaskCall (L : Layout) (α : Type*) where
  number : Nat
  argument : Option (PayloadObject L α)
  /-- How often the object had been destroyed. -/
  destroyed : Option Nat

/-- An `executor`, with its vectors' buffers and the payloads. -/
structure TaskQueue (L : Layout) (α : Type*) where
  executor : Executor (TaskCell L) := {}
  buffer : BufferId := 0
  backBuffer : BufferId := 0
  memory : Memory L α := {}
  /-- History: the payloads that were enqueued. -/
  enqueued : List (PayloadType L × α) := []
  /-- History: the calls of task functions. -/
  calls : List (TaskCall L α) := []

/-- What happens next. -/
inductive TaskQueueAction (L : Layout) (α : Type*) where
  /-- `enqueue_work`; the vector gets a new buffer if it has to grow. -/
  | enqueueWork (type : PayloadType L) (value : α) (grow : Option BufferId)
  /-- `execute()` exchanges the vectors. -/
  | startBatch
  /-- The loop of `execute()` calls the next task's function, which leaves the payload as it likes. -/
  | runNext (left : α)
  /-- The loop ends, and the vector is cleared. -/
  | finishBatch

namespace TaskQueue

/-- A vector's elements are moved to a new buffer: each is constructed there by a move, and destroyed where it was. -/
def relocate (movedFrom : α → α) (old new : BufferId) : Nat → List (TaskCell L) → Memory L α → Option (List (TaskCell L) × Memory L α)
  | _, [], m => some ([], m)
  | i, c :: cells, m =>
    (({} : FixedAny L).assignAny movedFrom (L.storage new i) c.data (L.storage old i) m).bind fun (data, other, m) =>
      (other.destroy m).bind fun (_, m) =>
        (relocate movedFrom old new (i + 1) cells m).map fun (cells, m) => ({ c with data } :: cells, m)

/-- `clear()` of a vector. -/
def destroyAll : List (TaskCell L) → Memory L α → Option (Memory L α)
  | [], m => some m
  | c :: cells, m => (c.data.destroy m).bind fun (_, m) => destroyAll cells m

/-- Where the vector has to grow, its elements move to a new buffer first. -/
def reserve (movedFrom : α → α) (s : TaskQueue L α) : Option BufferId → Option (TaskQueue L α)
  | none => some s
  | some b =>
    (relocate movedFrom s.buffer b 0 s.executor.workItems s.memory).map fun (cells, m) =>
      { s with executor := { s.executor with workItems := cells }, buffer := b, memory := m }

/-- `emplace_back`, and the assignments to the new element. -/
def append (s : TaskQueue L α) (type : PayloadType L) (value : α) : Option (TaskQueue L α) :=
  (({} : FixedAny L).assign (L.storage s.buffer s.executor.workItems.length) type value s.memory).map fun (data, m) =>
    { s with
      executor := s.executor.enqueueWork { number := s.enqueued.length, data }
      memory := m
      enqueued := s.enqueued ++ [(type, value)] }

/-- `task::execute`. -/
def callTask (s : TaskQueue L α) (c : TaskCell L) (left : α) : TaskQueue L α :=
  let call : TaskCall L α :=
    { number := c.number, argument := c.data.objectPtr.bind s.memory.object, destroyed := c.data.objectPtr.map s.memory.destroyed }
  { s with
    memory := match c.data.objectPtr with
      | some k => s.memory.modify k fun o => { o with value := left }
      | none => s.memory
    calls := s.calls ++ [call] }

/-- One step; `none` where it cannot be taken, or aborts. `execute()` is not called while it runs. -/
def step (movedFrom : α → α) (s : TaskQueue L α) : TaskQueueAction L α → Option (TaskQueue L α)
  | .enqueueWork type value grow => (s.reserve movedFrom grow).bind fun s => s.append type value
  | .startBatch =>
    if s.executor.workItemsBackBuffer.isEmpty then
      some { s with executor := s.executor.swap, buffer := s.backBuffer, backBuffer := s.buffer }
    else none
  | .runNext left => s.executor.next.map fun (c, e) => { s with executor := e }.callTask c left
  | .finishBatch =>
    match s.executor.next with
    | some _ => none
    | none => (destroyAll s.executor.workItemsBackBuffer s.memory).map fun m => { s with executor := s.executor.clear, memory := m }

/-- Nothing has been enqueued. -/
def init : TaskQueue L α := {}

/-! ## What should become of the payloads -/

/-- The objects that the elements of a vector point to. -/
def held (cells : List (TaskCell L)) : List ObjectId := cells.filterMap fun c => c.data.objectPtr

/-- Every task's function was called with a pointer to an object that existed and was equal to the payload it was enqueued with. -/
def CalledWithPayload (s : TaskQueue L α) : Prop :=
  ∀ call ∈ s.calls, call.destroyed = some 0 ∧ ∃ o, call.argument = some o ∧ s.enqueued[call.number]? = some (o.type, o.value)

/-- Every task's function was called once, in the order of enqueueing, or is still to be. -/
def EachCalledOnce (s : TaskQueue L α) : Prop :=
  s.calls.map (fun call => call.number) ++ s.executor.pending.map (fun c => c.number) = List.range s.enqueued.length

/-- Every object that was constructed has been destroyed once, except those of the tasks in the two vectors, each of which has an object
of its own that has not been destroyed. -/
structure DestroyedOnce (s : TaskQueue L α) : Prop where
  balanced : s.memory.Balanced (held s.executor.workItems ++ held s.executor.workItemsBackBuffer)
  owned : ∀ c ∈ s.executor.workItems ++ s.executor.workItemsBackBuffer, c.data.objectPtr.isSome = true

/-- Nothing that the producers or the loop of `execute()` do next aborts. -/
structure NeverAborts (movedFrom : α → α) (s : TaskQueue L α) : Prop where
  enqueueWork : ∀ type value grow, (s.step movedFrom (.enqueueWork type value grow)).isSome = true
  batch : s.executor.workItemsBackBuffer = [] → (s.step movedFrom .startBatch).isSome = true
  runNext : ∀ left, s.executor.next.isSome = true → (s.step movedFrom (.runNext left)).isSome = true
  finishBatch : s.executor.next = none → (s.step movedFrom .finishBatch).isSome = true

end TaskQueue

end

end Minicomps
