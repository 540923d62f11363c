import Mathlib.Data.List.Basic

/-!
# Arguments of async calls

A call keeps its arguments in a `std::tuple`, which goes into the request where the call is enqueued. `async_query::call` lets the types of
its elements be deduced: a temporary is moved into the tuple, but of a variable the tuple only has a reference, and whoever runs the request
reads what the variable holds by then.
-/

namespace Minicomps

/-- The address of something a caller passes as an argument. What is destroyed leaves its storage to whatever comes next. -/
abbrev VariableId := Nat

/-- An argument of a call: where it is stored, and whether it is an lvalue. -/
structure Argument where
  storage : VariableId
  lvalue : Bool
  deriving DecidableEq, Repr

/-- An element of the `std::tuple` of arguments. -/
inductive StoredArgument (α : Type*) where
  | copied (value : α)
  | referenced (x : VariableId)
  deriving DecidableEq, Repr

/-- What is read from it. -/
def StoredArgument.read {α : Type*} (memory : VariableId → α) : StoredArgument α → α
  | .copied value => value
  | .referenced x => memory x

/-- An argument and the value it had at the call. -/
structure PassedArgument (α : Type*) extends Argument where
  value : α
  deriving DecidableEq, Repr

section

variable {α : Type*} {memory : VariableId → α}

/-- The arguments of a call that is made now. -/
def passArguments (memory : VariableId → α) (arguments : List Argument) : List (PassedArgument α) :=
  arguments.map fun a => { a with value := memory a.storage }

/-- `async_query::call`: an lvalue is deduced as a reference, and stored as one. -/
def storeArgument (p : PassedArgument α) : StoredArgument α := if p.lvalue then .referenced p.storage else .copied p.value

/-- `if_async_query::call`: an argument is stored as its parameter is declared. -/
def storeParameter (isReference : Nat → Bool) (i : Nat) (p : PassedArgument α) : StoredArgument α :=
  if isReference i then .referenced p.storage else .copied p.value

/-- What is read of the arguments that `async_query::call` has stored. -/
def readArguments (memory : VariableId → α) (passed : List (PassedArgument α)) : List α :=
  passed.map fun p => (storeArgument p).read memory

/-- Every variable among the arguments still has the value that was passed. -/
def ArgumentsKept (memory : VariableId → α) (passed : List (PassedArgument α)) : Prop :=
  ∀ p ∈ passed, p.lvalue = true → memory p.storage = p.value

/-- Every variable that a parameter refers to still has the value that was passed. -/
def ParametersKept (isReference : Nat → Bool) (memory : VariableId → α) (passed : List (PassedArgument α)) : Prop :=
  ∀ i p, passed[i]? = some p → isReference i = true → memory p.storage = p.value

instance [DecidableEq α] (memory : VariableId → α) (passed : List (PassedArgument α)) : Decidable (ArgumentsKept memory passed) :=
  inferInstanceAs (Decidable (∀ p ∈ passed, p.lvalue = true → memory p.storage = p.value))

instance [DecidableEq α] (isReference : Nat → Bool) (memory : VariableId → α) (passed : List (PassedArgument α)) :
    Decidable (ParametersKept isReference memory passed) :=
  decidable_of_iff (∀ i, (hi : i < passed.length) → isReference i = true → memory passed[i].storage = passed[i].value) <| by
    simp only [ParametersKept, List.getElem?_eq_some_iff]
    exact ⟨fun h i _ ⟨hi, hp⟩ href => hp ▸ h i hi href, fun h i hi href => h i _ ⟨hi, rfl⟩ href⟩

theorem read_storeArgument (memory : VariableId → α) (p : PassedArgument α) :
    (storeArgument p).read memory = if p.lvalue then memory p.storage else p.value := by
  unfold storeArgument
  cases p.lvalue <;> rfl

theorem read_storeParameter (memory : VariableId → α) (isReference : Nat → Bool) (i : Nat) (p : PassedArgument α) :
    (storeParameter isReference i p).read memory = if isReference i then memory p.storage else p.value := by
  unfold storeParameter
  cases isReference i <;> rfl

/-- What is read is what was passed exactly if every variable has kept its value. -/
theorem readArguments_eq_iff (passed : List (PassedArgument α)) :
    readArguments memory passed = passed.map PassedArgument.value ↔ ArgumentsKept memory passed := by
  rw [readArguments, List.map_inj_left]
  refine forall₂_congr fun p _ => ?_
  rw [read_storeArgument]
  cases p.lvalue <;> simp

/-- What is read of the arguments that `if_async_query::call` has stored is what was passed exactly if every variable that a parameter refers
to has kept its value. -/
theorem readParameters_eq_iff (isReference : Nat → Bool) (passed : List (PassedArgument α)) :
    (passed.mapIdx (storeParameter isReference)).map (StoredArgument.read memory) = passed.map PassedArgument.value ↔
      ParametersKept isReference memory passed := by
  simp only [List.ext_getElem?_iff, List.getElem?_map, List.getElem?_mapIdx, Option.map_map]
  refine forall_congr' fun i => ?_
  cases passed[i]? with
  | none => simp
  | some p => cases h : isReference i <;> simp [read_storeParameter, h]

/-- At the call itself all variables have the values that are passed. -/
theorem argumentsKept_passArguments (memory : VariableId → α) (arguments : List Argument) :
    ArgumentsKept memory (passArguments memory arguments) := by
  intro p hp _
  obtain ⟨a, -, rfl⟩ := List.mem_map.mp hp
  rfl

theorem parametersKept_passArguments (isReference : Nat → Bool) (memory : VariableId → α) (arguments : List Argument) :
    ParametersKept isReference memory (passArguments memory arguments) := by
  intro i p hp _
  obtain ⟨a, -, rfl⟩ := List.mem_map.mp (List.mem_of_getElem? hp)
  rfl

theorem values_passArguments (memory : VariableId → α) (arguments : List Argument) :
    (passArguments memory arguments).map PassedArgument.value = arguments.map fun a => memory a.storage := by
  rw [passArguments, List.map_map]
  rfl

end

end Minicomps
