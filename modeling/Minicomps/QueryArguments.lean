import Minicomps.Arguments
import Minicomps.AsyncQuery

/-!
# Async queries and the variables of their callers

The system of `AsyncQuery` beside a memory. A call takes its arguments out of the memory or only refers to them there, and a handler reads
them when it is started: inside the call where that is direct, and otherwise when the receiver's executor gets to the request.
-/

namespace Minicomps

/-- A system of async queries, and the memory with the variables of the callers. Of each argument the tuple holds what `storeArgument` makes
of it; that the value it had at the call stands beside it is history. -/
structure ArgumentSystem (α β : Type*) where
  system : AsyncSystem (List (PassedArgument α)) β
  memory : VariableId → α
  /-- History: what each handler that was started has read of its arguments. -/
  received : List (List α) := []

/-- One step of the system, or of the code around it. -/
inductive ArgumentAction (α β : Type*) where
  /-- Somebody writes to a variable, or something is put where one was. -/
  | assign (x : VariableId) (value : α)
  /-- An async query with a callback, through a reference whose lookup gave `found`. -/
  | call (sender : ComponentId) (found : Option Resolution) (msgInfo : MessageId) (arguments : List Argument)
    (lifetime : LifetimeWeakPtr)
  | startBatch (x : ExecutorId)
  | runNext (x : ExecutorId)
  | finishBatch (x : ExecutorId)
  | resolve (i : Nat) (value : β)
  | reset (lifetime : LifetimeId)
  | setListener (c : ComponentId) (listener : Option ListenerId)
  deriving DecidableEq, Repr

namespace ArgumentSystem

variable {α β : Type*}

/-- The arguments of the request that the executor runs next, if its next task is one. -/
def nextRequest (s : ArgumentSystem α β) (x : ExecutorId) : Option (List (PassedArgument α)) :=
  match (s.system.executors x).next with
  | some (.request _ _ data, _) => some data.arguments
  | _ => none

/-- A handler reads its arguments. -/
def receive (s : ArgumentSystem α β) (passed : List (PassedArgument α)) : ArgumentSystem α β :=
  { s with received := s.received ++ [readArguments s.memory passed] }

/-- A step of the system beside the memory. -/
def lift (s : ArgumentSystem α β) (a : AsyncAction (List (PassedArgument α)) β) : Option (ArgumentSystem α β) :=
  (s.system.step a).map ({ s with system := · })

/-- A call. The handler is started now if the call is direct. -/
def call (s : ArgumentSystem α β) (sender : ComponentId) (found : Option Resolution) (msgInfo : MessageId) (arguments : List Argument)
    (lifetime : LifetimeWeakPtr) : Option (ArgumentSystem α β) :=
  let passed := passArguments s.memory arguments
  (s.lift (.call sender found msgInfo passed lifetime)).map fun s =>
    if found.any Resolution.mutualExecutor then s.receive passed else s

/-- One step; `none` where it cannot be taken, or aborts. -/
def step (s : ArgumentSystem α β) : ArgumentAction α β → Option (ArgumentSystem α β)
  | .assign x value => some { s with memory := Function.update s.memory x value }
  | .call sender found msgInfo arguments lifetime => s.call sender found msgInfo arguments lifetime
  | .runNext x =>
    (s.lift (.runNext x)).map fun s' =>
      match s.nextRequest x with
      | some passed => s'.receive passed
      | none => s'
  | .startBatch x => s.lift (.startBatch x)
  | .finishBatch x => s.lift (.finishBatch x)
  | .resolve i value => s.lift (.resolve i value)
  | .reset l => s.lift (.reset l)
  | .setListener c listener => s.lift (.setListener c listener)

/-- Nothing has happened yet. -/
def init (component : ComponentId → Component) (memory : VariableId → α) : ArgumentSystem α β :=
  { system := AsyncSystem.init component, memory }

/-- When a request is run, every variable among its arguments still has the value it had at the call. -/
def KeepsArguments (s : ArgumentSystem α β) : ArgumentAction α β → Prop
  | .runNext x => ∀ passed ∈ s.nextRequest x, ArgumentsKept s.memory passed
  | _ => True

end ArgumentSystem

end Minicomps
