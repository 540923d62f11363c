import Minicomps.Component
import Minicomps.Executor
import Minicomps.RequestProtocol

/-!
# Who owns an executor

An executor lives as long as there is a strong pointer to it. Components, references and user code have some, and so has the
`callback_result` of every call that was queued: it keeps the executor that its answer goes to. These results wait in the queues of other
executors, where a callback that has captured one, or an argument, is part of a task.

A callback whose lifetime has expired is not called, and what it has captured is dropped then. Here it is in the hands of the executor's
code in both cases, to be used or dropped.
-/

namespace Minicomps

namespace ExecutorOwners

/-- A `callback_result`: its `receiving_executor_`, a null pointer for a call that was made directly, and the results that its callback has
captured. -/
inductive CallbackResult where
  | mk (receivingExecutor : Option ExecutorId) (captured : List CallbackResult)

mutual

/-- The strong pointers to executors that a result keeps, by itself and by what its callback has captured. -/
def CallbackResult.pointers : CallbackResult → List ExecutorId
  | .mk receivingExecutor captured => receivingExecutor.toList ++ pointersOf captured

def pointersOf : List CallbackResult → List ExecutorId
  | [] => []
  | result :: results => result.pointers ++ pointersOf results

end

/-- The work items: `request_task` and `response_task`, each with the results in its data, and work without any, such as an event. -/
inductive Task where
  | request (arguments : List CallbackResult) (receiverExecutor : ExecutorId) (captured : List CallbackResult)
  | response (captured : List CallbackResult)
  | other

def Task.pointers : Task → List ExecutorId
  | .request arguments receiverExecutor captured => pointersOf arguments ++ receiverExecutor :: pointersOf captured
  | .response captured => pointersOf captured
  | .other => []

/-- The executors and who has strong pointers to them. -/
structure System where
  executors : ExecutorId → Executor Task := fun _ => {}
  /-- Those that have been constructed and not destroyed. -/
  constructed : List ExecutorId := []
  /-- How many pointers components, references and user code have. -/
  held : ExecutorId → Nat := fun _ => 0
  /-- The results that are in the hands of handlers and callbacks, each with the executor where these run. -/
  results : List (ExecutorId × CallbackResult) := []
  /-- The pointers that are just being let go of. -/
  dropping : List ExecutorId := []

/-- What happens to them. A result is moved by being copied and then dropped. -/
inductive Action where
  | construct (x : ExecutorId)
  | copy (x : ExecutorId)
  | drop (x : ExecutorId)
  /-- Code that runs on `here`, of a component whose `default_executor` is `x`, makes a call that is queued on `y`, with these results as
  arguments and captured by the callback. -/
  | call (here x y : ExecutorId) (arguments captured : List Nat)
  /-- Code that runs on `here` makes a call that is direct. -/
  | callDirectly (here : ExecutorId) (captured : List Nat)
  /-- A result is passed to code on `y` in another way, as an argument of a query that is not queued. -/
  | handOver (i : Nat) (y : ExecutorId)
  /-- A result is called. -/
  | respond (i : Nat)
  /-- A result ends. -/
  | discard (i : Nat)
  | enqueueOther (y : ExecutorId)
  | startBatch (y : ExecutorId)
  | runNext (y : ExecutorId)
  | finishBatch (y : ExecutorId)
  /-- The next of the pointers that are let go of ends, and the executor with it if that was the last one. -/
  | release

namespace System

/-- A batch is under way. -/
def executing (s : System) (x : ExecutorId) : Bool := !(s.executors x).workItemsBackBuffer.isEmpty

/-- The pointers in the tasks that wait for an executor. -/
def queuedOn (s : System) (y : ExecutorId) : List ExecutorId := (s.executors y).pending.flatMap Task.pointers

/-- All strong pointers but those that are `held`. -/
def pointers (s : System) : List ExecutorId :=
  s.dropping ++ s.results.flatMap (fun entry => entry.2.pointers) ++ s.constructed.flatMap s.queuedOn

/-- `use_count()`. -/
def useCount (s : System) (x : ExecutorId) : Nat := s.held x + s.pointers.count x

/-- Copies of those of the results that code on `x` has. -/
def copies (s : System) (x : ExecutorId) (indices : List Nat) : List CallbackResult :=
  indices.filterMap fun i => s.results[i]?.bind fun entry => if entry.1 = x then some entry.2 else none

/-- `enqueue_work`, on an executor that exists. -/
def enqueueWork (s : System) (y : ExecutorId) (task : Task) : Option System :=
  if y ∈ s.constructed then some { s with executors := Function.update s.executors y ((s.executors y).enqueueWork task) } else none

/-- `callback_result::operator()` of a result that code on `x` has: its callback goes along with the answer, or is called. -/
def operatorCall (s : System) (i : Nat) (x : ExecutorId) : CallbackResult → Option System
  | .mk receivingExecutor captured =>
    let ports : AnswerPorts ExecutorId (Option System) (Option System) :=
      { enqueueWork := fun y s => s.bind fun s => s.enqueueWork y (.response captured)
        onEnqueue := fun s => s
        -- Also what an expired callback has captured gets into the hands of the code, which can drop it.
        expired := fun _ => false
        drop := fun s => s
        callback := fun s => s.map fun s => { s with results := s.results ++ captured.map fun result => (x, result) } }
    ports.operatorCall receivingExecutor (some { s with results := s.results.set i (x, .mk receivingExecutor []) })

/-- `request_task` or `response_task`, on the executor `y`. -/
def runTask (s : System) (y : ExecutorId) : Task → System
  | .request arguments receiverExecutor captured =>
    { s with results := s.results ++ (arguments ++ [CallbackResult.mk (some receiverExecutor) captured]).map fun result => (y, result) }
  | .response captured => { s with results := s.results ++ captured.map fun result => (y, result) }
  | .other => s

/-- The executor ends, and its vectors with it. -/
def destruct (s : System) (x : ExecutorId) : System :=
  { s with
    executors := Function.update s.executors x {}
    constructed := s.constructed.erase x
    dropping := s.queuedOn x ++ s.dropping }

/-- One step; `none` where it cannot be taken. Whoever calls `execute()` keeps a pointer until it returns. -/
def step (s : System) : Action → Option System
  | .construct x =>
    if x ∈ s.constructed then none
    else some { s with constructed := x :: s.constructed, held := Function.update s.held x 1 }
  | .copy x => if s.held x = 0 then none else some { s with held := Function.update s.held x (s.held x + 1) }
  | .drop x =>
    if s.held x = 0 ∨ s.held x = 1 ∧ s.executing x then none
    else some { s with held := Function.update s.held x (s.held x - 1), dropping := x :: s.dropping }
  | .call here x y arguments captured =>
    if s.held x = 0 then none else s.enqueueWork y (.request (s.copies here arguments) x (s.copies here captured))
  | .callDirectly here captured => some { s with results := s.results ++ [(here, .mk none (s.copies here captured))] }
  | .handOver i y => s.results[i]?.map fun entry => { s with results := s.results ++ [(y, entry.2)] }
  | .respond i => s.results[i]?.bind fun entry => s.operatorCall i entry.1 entry.2
  | .discard i =>
    s.results[i]?.map fun entry => { s with results := s.results.eraseIdx i, dropping := entry.2.pointers ++ s.dropping }
  | .enqueueOther y => s.enqueueWork y .other
  | .startBatch y =>
    if s.held y ≠ 0 ∧ s.executing y = false then
      some { s with executors := Function.update s.executors y (s.executors y).swap }
    else none
  | .runNext y => (s.executors y).next.map fun (task, e) => { s with executors := Function.update s.executors y e }.runTask y task
  | .finishBatch y =>
    if (s.executors y).next.isNone then some { s with executors := Function.update s.executors y (s.executors y).clear } else none
  | .release =>
    match s.dropping with
    | [] => none
    | x :: rest =>
      let s := { s with dropping := rest }
      some (if s.useCount x = 0 then s.destruct x else s)

/-- No executor yet. -/
def init : System := {}

/-- A task that waits for `y` keeps `x`. -/
def Holds (s : System) (y x : ExecutorId) : Prop := x ∈ s.queuedOn y

/-- Everything outside of the queues has been let go of. -/
structure Released (s : System) : Prop where
  held : ∀ x, s.held x = 0
  results : s.results = []
  dropping : s.dropping = []

/-- Calls that are queued go down in rank, and so do direct and locked calls, or stay at the same: code does not run below its component,
and results are not handed over upwards. -/
def Downward (rank : ExecutorId → Nat) (s : System) : Action → Prop
  | .call here x y _ _ => rank y < rank x ∧ rank x ≤ rank here
  | .handOver i y => ∀ x result, s.results[i]? = some (x, result) → rank y ≤ rank x
  | _ => True

end System

end ExecutorOwners

end Minicomps
