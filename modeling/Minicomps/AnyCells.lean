import Minicomps.FixedAny
import Mathlib.Data.Nat.ModEq

/-!
# Cells of type `fixed_any`

Any number of `fixed_any`s of one length, wherever they are, with objects of any types in them. Here a type may be aligned more strictly
than `std::max_align_t`. A cell that is moved from gives its object's offset away, and the object is made at the same offset of the
other cell's storage.
-/

namespace Minicomps

/-- The identity of a `fixed_any`. -/
abbrev CellId := Nat

/-- A type of objects. -/
structure ObjectType where
  size : Nat
  align : Nat
  align_pow : ∃ k, align = 2 ^ k
  deriving DecidableEq

/-- Where the cells and their objects are. -/
structure CellLayout where
  /-- `sizeof(storage_)`. -/
  length : Nat
  /-- The address of a cell's `storage_`. -/
  storage : CellId → Nat
  /-- The address that `new` gives to an object, by how many cells have been filled before. -/
  heap : ObjectType → Nat → Nat
  heap_aligned : ∀ type k, type.align ∣ heap type k

/-- An object that a cell holds. -/
structure StoredObject (α : Type*) where
  type : ObjectType
  value : α
  address : Nat
  deriving DecidableEq

/-- `destruct_` and `move_construct_`, as `assign` made them. -/
structure TypedFunctions where
  type : ObjectType
  inStorage : Bool
  deriving DecidableEq

/-- Why an operation does not return. -/
inductive CellError where
  /-- A cell that is to be there is not, or the other way around. -/
  | noSuchCell
  /-- `std::function` throws, since it is empty. -/
  | badFunctionCall
  /-- `check_alignment` aborts. -/
  | misaligned
  /-- The `assert` after `std::align`. -/
  | asserted
  /-- An object is read, or made, at a null pointer. -/
  | undefined
  deriving DecidableEq, Repr

/-- `fixed_any`. A pointer to an object is the object. -/
structure AnyCell (α : Type*) where
  alignedPtr : Option Nat := none
  objectPtr : Option (StoredObject α) := none
  functions : Option TypedFunctions := none
  deriving DecidableEq

/-- `check_alignment<T>`. -/
def ObjectType.checkAlignment (type : ObjectType) (address : Nat) : Bool := address % type.align == 0

/-- The test in `assign`: there is space for the object wherever the storage is. -/
def ObjectType.fits (type : ObjectType) (length : Nat) : Bool := decide (type.size + type.align - 1 ≤ length)

section

variable {α : Type*}

/-- `move_construct_(target, source)`; `fresh` is where `new` would put an object. What the source is left with is destroyed next. -/
def TypedFunctions.moveConstruct (f : TypedFunctions) (fresh : Nat) (target : Option Nat) (source : StoredObject α) :
    Except CellError (StoredObject α) :=
  if f.inStorage then
    match target with
    | none => .error .undefined
    | some target =>
      if f.type.checkAlignment target && f.type.checkAlignment source.address then .ok { source with type := f.type, address := target }
      else .error .misaligned
  -- The target is not used: the object is on the heap.
  else if f.type.checkAlignment source.address then .ok { source with type := f.type, address := fresh }
  else .error .misaligned

namespace AnyCell

/-- `fixed_any::destroy`. -/
def destroy (a : AnyCell α) : Except CellError (AnyCell α) :=
  match a.objectPtr with
  | none => .ok a
  | some o =>
    match a.functions with
    | none => .error .badFunctionCall
    | some f =>
      if f.type.checkAlignment o.address then .ok { a with objectPtr := none, alignedPtr := none } else .error .misaligned

/-- `fixed_any::assign` of another one, and what the other one is then. -/
def assignAny (a : AnyCell α) (storage : Nat) (other : AnyCell α) (otherStorage : Nat) (fresh : ObjectType → Nat) :
    Except CellError (AnyCell α × AnyCell α) :=
  a.destroy.bind fun _ =>
    let alignedPtr := other.alignedPtr.map fun p => storage + (p - otherStorage)
    match other.functions with
    | none => .error .badFunctionCall
    | some f =>
      match other.objectPtr with
      | none => .error .undefined
      | some source =>
        (f.moveConstruct (fresh f.type) alignedPtr source).bind fun o =>
          other.destroy.map fun other =>
            ({ alignedPtr, objectPtr := some o, functions := some f }, { other with functions := none })

/-- `fixed_any::assign` of a value. -/
def assign (a : AnyCell α) (length storage : Nat) (fresh : ObjectType → Nat) (type : ObjectType) (value : α) :
    Except CellError (AnyCell α) :=
  a.destroy.bind fun _ =>
    if type.fits length then
      match align type.align type.size storage length with
      | none => .error .asserted
      | some aligned =>
        .ok { alignedPtr := some aligned
              objectPtr := some { type, value, address := aligned }
              functions := some { type, inStorage := true } }
    else
      .ok { alignedPtr := none
            objectPtr := some { type, value, address := fresh type }
            functions := some { type, inStorage := false } }

end AnyCell

/-- The cells that have been constructed. -/
structure AnyCells (α : Type*) where
  cells : CellId → Option (AnyCell α) := fun _ => none
  /-- How many times an object has been put into a cell. -/
  filled : Nat := 0

/-- An operation on the cells. -/
inductive CellAction (α : Type*) where
  | construct (c : CellId)
  | assign (c : CellId) (type : ObjectType) (value : α)
  | moveConstruct (c other : CellId)
  | moveAssign (c other : CellId)
  deriving DecidableEq

namespace AnyCells

/-- Move the other cell into `a`, which is the cell `c`. -/
def moveInto (L : CellLayout) (s : AnyCells α) (c other : CellId) (a : AnyCell α) : Except CellError (AnyCells α) :=
  match s.cells other with
  | none => .error .noSuchCell
  | some b =>
    (a.assignAny (L.storage c) b (L.storage other) fun type => L.heap type s.filled).map fun (a, b) =>
      { cells := Function.update (Function.update s.cells other (some b)) c (some a), filled := s.filled + 1 }

/-- One operation. A cell is not assigned to itself. -/
def perform (L : CellLayout) (s : AnyCells α) : CellAction α → Except CellError (AnyCells α)
  | .construct c =>
    match s.cells c with
    | some _ => .error .noSuchCell
    | none => .ok { s with cells := Function.update s.cells c (some {}) }
  | .assign c type value =>
    match s.cells c with
    | none => .error .noSuchCell
    | some a =>
      (a.assign L.length (L.storage c) (fun type => L.heap type s.filled) type value).map fun a =>
        { cells := Function.update s.cells c (some a), filled := s.filled + 1 }
  | .moveConstruct c other =>
    match s.cells c with
    | some _ => .error .noSuchCell
    | none => s.moveInto L c other {}
  | .moveAssign c other =>
    match s.cells c with
    | none => .error .noSuchCell
    | some a => if c = other then .error .noSuchCell else s.moveInto L c other a

/-- One operation that returns. -/
def step (L : CellLayout) (s : AnyCells α) (a : CellAction α) : Option (AnyCells α) := (s.perform L a).toOption

/-- No cell has been constructed. -/
def init : AnyCells α := {}

/-! ## What should hold of the cells -/

/-- Every object in a cell's storage is at a multiple of its alignment. -/
def Aligned (s : AnyCells α) : Prop :=
  ∀ c a o, s.cells c = some a → a.alignedPtr.isSome = true → a.objectPtr = some o → o.type.align ∣ o.address

/-- Every object in a cell's storage lies wholly inside it. -/
def Inside (L : CellLayout) (s : AnyCells α) : Prop :=
  ∀ c a o, s.cells c = some a → a.alignedPtr.isSome = true → a.objectPtr = some o →
    L.storage c ≤ o.address ∧ o.address + o.type.size ≤ L.storage c + L.length

/-- The operation does not end in `check_alignment`, and leaves the objects aligned. -/
def StaysAligned (L : CellLayout) (s : AnyCells α) (a : CellAction α) : Prop :=
  s.perform L a ≠ .error .misaligned ∧ ∀ s', s.perform L a = .ok s' → s'.Aligned

/-- The operation does not end in the assertion, and leaves the objects inside. -/
def StaysInside (L : CellLayout) (s : AnyCells α) (a : CellAction α) : Prop :=
  s.perform L a ≠ .error .asserted ∧ ∀ s', s.perform L a = .ok s' → s'.Inside L

/-- What the cell `other` holds in its storage can be moved to the cell `c`: the two storages leave the same remainder. -/
def Congruent (L : CellLayout) (s : AnyCells α) (c other : CellId) : Prop :=
  ∀ b o, s.cells other = some b → b.alignedPtr.isSome = true → b.objectPtr = some o →
    L.storage c ≡ L.storage other [MOD o.type.align]

/-- An operation that moves an object within the storages moves it between congruent ones. -/
def MovesCongruently (L : CellLayout) (s : AnyCells α) : CellAction α → Prop
  | .moveConstruct c other => s.cells c = none → s.Congruent L c other
  | .moveAssign c other => (s.cells c).isSome = true → c ≠ other → s.Congruent L c other
  | _ => True

/-- There is an object in the other cell, and it can be moved. -/
def Movable (L : CellLayout) (s : AnyCells α) (c other : CellId) : Prop :=
  (∀ b, s.cells other = some b → b.objectPtr.isSome = true) ∧ s.Congruent L c other

/-- An operation that moves from a cell moves an object, between congruent storages if it is in one. -/
def MovesObjects (L : CellLayout) (s : AnyCells α) : CellAction α → Prop
  | .moveConstruct c other => s.cells c = none → s.Movable L c other
  | .moveAssign c other => (s.cells c).isSome = true → c ≠ other → s.Movable L c other
  | _ => True

end AnyCells

/-! ## Optional values -/

/-- The cells as optional values; none where there is no cell. -/
abbrev OptionalValues (α : Type*) := CellId → Option (Option (ObjectType × α))

namespace OptionalValues

/-- A move transfers what the source has, or has not, and leaves it empty. -/
def move (v : OptionalValues α) (c other : CellId) : Option (OptionalValues α) :=
  (v other).map fun content => Function.update (Function.update v other (some none)) c (some content)

/-- One operation; `none` where a cell that is to be there is not, or the other way around. -/
def step (v : OptionalValues α) : CellAction α → Option (OptionalValues α)
  | .construct c => if (v c).isSome then none else some (Function.update v c (some none))
  | .assign c type value => if (v c).isSome then some (Function.update v c (some (some (type, value)))) else none
  | .moveConstruct c other => if (v c).isSome then none else v.move c other
  | .moveAssign c other => if (v c).isSome && c != other then v.move c other else none

end OptionalValues

/-- What the cells hold. -/
def AnyCells.contents (s : AnyCells α) : OptionalValues α :=
  fun c => (s.cells c).map fun a => a.objectPtr.map fun o => (o.type, o.value)

end

end Minicomps
