import Minicomps.Contexts
import Minicomps.Lib.Causality

/-!
# Deliveries between executors

The threads of `Context.System`, where each work item that is enqueued has a number. Executors are the processes that send each other
messages: a request, a response, an event or somebody's own work item is a message from the executor in whose `execute` it is enqueued to
the one it is enqueued on, and is received when the loop of `execute` starts it. What is called directly is nothing but a thing that an
executor does. As there, the `execute` of an executor is not called while it runs.
-/

namespace Minicomps

namespace Context

/-- The system, the numbers of its work items in vectors beside those of the executors, and what has happened. -/
structure Deliveries where
  system : System := {}
  numbers : ExecutorId → Executor Nat := fun _ => {}
  sent : Nat := 0
  history : List (Causality.Event ExecutorId) := []

namespace System

/-- The executor that the action enqueues a work item on. -/
def enqueuesOn (defaultExecutor : ComponentId → ExecutorId) (s : System) : Action → Option ExecutorId
  | .post _ x _ => some x
  | .call t h allowDirectCall _ _ => do
    let sender ← s.running t
    if allowDirectCall && decide (defaultExecutor sender = executor defaultExecutor h) then none else executor defaultExecutor h
  | .event t subscriber => do
    let sender ← s.running t
    if defaultExecutor subscriber = defaultExecutor sender then none else defaultExecutor subscriber
  | .resolve _ i _ _ => do (← s.results[i]?).receivingExecutor
  | .handOn t _ => do (← s.results[(← s.handingOn t).2]?).receivingExecutor
  | .execute .. | .runNext _ | .finishBatch _ | .enter .. | .ret _ | .reset _ => none

/-- The executor in whose `execute` code runs that does this; `none` outside of all of them. -/
def actsOn (s : System) : Action → Option ExecutorId
  | .enter t _ | .post t .. | .call t .. | .event t _ | .resolve t .. | .handOn t _ => context (s.stack t)
  | .execute .. | .runNext _ | .finishBatch _ | .ret _ | .reset _ => none

end System

namespace Deliveries

/-- What is noted of an action that is taken: the vectors of numbers change as the vectors of work items do. -/
def note (defaultExecutor : ComponentId → ExecutorId) (s : Deliveries) (a : Action) : Deliveries :=
  match a with
  | .execute _ x => { s with numbers := Function.update s.numbers x (s.numbers x).swap }
  | .runNext t =>
    match s.system.inLoop t with
    | none => s
    | some x =>
      match (s.numbers x).next with
      | some (m, e) => { s with numbers := Function.update s.numbers x e, history := s.history ++ [.received x m] }
      | none => s
  | .finishBatch t =>
    match s.system.inLoop t with
    | none => s
    | some x => { s with numbers := Function.update s.numbers x (s.numbers x).clear }
  | a =>
    match s.system.enqueuesOn defaultExecutor a with
    | some x => { s with
        numbers := Function.update s.numbers x ((s.numbers x).enqueueWork s.sent)
        sent := s.sent + 1
        history := s.history ++ [.sent (s.system.actsOn a) x s.sent] }
    | none => { s with history := s.history ++ (s.system.actsOn a).toList.map .own }

/-- A step of the system. -/
def step (defaultExecutor : ComponentId → ExecutorId) (s : Deliveries) (a : Action) : Option Deliveries :=
  (s.system.step defaultExecutor a).map fun system => { s.note defaultExecutor a with system }

/-- No thread has done anything yet. -/
def init : Deliveries := {}

end Deliveries

end Context

end Minicomps
