import Minicomps.QueryArguments

/-!
# A client and a receiver

One client makes a list of calls to one receiver, whose handler is a function of the receiver's state and the arguments and answers
before it returns. Where the two are on the same executor the calls and the answers are direct; where they are not, requests and
responses wait on two executors that are pumped at any time. Both are runs of the same system of async queries, beside the memory the
arguments are taken from.
-/

namespace Minicomps

/-- The calls of a client, and what the receiver makes of them: the handler gives the receiver's next state and the answer. -/
structure Exchange (σ α β : Type*) where
  client : ComponentId
  receiver : ComponentId
  handlerId : HandlerId
  msgInfo : MessageId
  /-- The client's lifetime, which is not reset. -/
  lifetime : LifetimeId
  handler : σ → List α → σ × β
  /-- The values of each call's arguments. -/
  calls : List (List α)

/-- The system, the receiver's state, and how far client and receiver are. -/
structure ExchangeState (σ α β : Type*) where
  system : ArgumentSystem α β
  state : σ
  /-- How many of the calls have been made. -/
  sent : Nat := 0
  /-- The handler is running and has not answered yet; this is what it will answer. -/
  answering : Option β := none

/-- What happens next. -/
inductive ExchangeAction (α : Type*) where
  /-- Somebody writes to a variable. -/
  | assign (v : VariableId) (value : α)
  /-- The client makes its next call, with these arguments. -/
  | call (arguments : List Argument)
  /-- The running handler answers. -/
  | answer
  /-- `execute()` of an executor exchanges the vectors. -/
  | startBatch (x : ExecutorId)
  | runNext (x : ExecutorId)
  | finishBatch (x : ExecutorId)
  deriving DecidableEq, Repr

namespace Exchange

variable {σ α β : Type*} (x : Exchange σ α β)

/-- What the client's reference resolves to, without an executor override. -/
def found (component : ComponentId → Component) : Resolution where
  receiver := x.receiver
  handler := x.handlerId
  executor := (component x.receiver).defaultExecutor
  mutualExecutor := decide ((component x.client).defaultExecutor = (component x.receiver).defaultExecutor)

@[simp] theorem found_receiver (component : ComponentId → Component) : (x.found component).receiver = x.receiver := rfl

@[simp] theorem found_handler (component : ComponentId → Component) : (x.found component).handler = x.handlerId := rfl

@[simp] theorem found_executor (component : ComponentId → Component) :
    (x.found component).executor = (component x.receiver).defaultExecutor := rfl

/-- The handler starts on the values it reads. -/
def runHandler (s : ExchangeState σ α β) (arguments : List α) : ExchangeState σ α β :=
  { s with state := (x.handler s.state arguments).1, answering := some (x.handler s.state arguments).2 }

@[simp] theorem sent_runHandler (s : ExchangeState σ α β) (arguments : List α) : (x.runHandler s arguments).sent = s.sent := rfl

/-- The handler is running on the executor's thread. -/
def busy (s : ExchangeState σ α β) (e : ExecutorId) : Bool :=
  s.answering.isSome && decide ((s.system.system.component x.receiver).defaultExecutor = e)

/-- A step of the system beside the rest. -/
def lift (s : ExchangeState σ α β) (a : ArgumentAction α β) : Option (ExchangeState σ α β) :=
  (s.system.step a).map ({ s with system := · })

/-- The client makes its next call, with arguments that have the values of that call. -/
def call [DecidableEq α] (s : ExchangeState σ α β) (arguments : List Argument) : Option (ExchangeState σ α β) :=
  if x.calls[s.sent]? = some (arguments.map fun a => s.system.memory a.storage) then
    let found := x.found s.system.system.component
    let lifetime := s.system.system.lifetimes.createWeakPtr x.lifetime
    (lift s (.call x.client (some found) x.msgInfo arguments lifetime)).map fun s' =>
      let s' := { s' with sent := s'.sent + 1 }
      if found.mutualExecutor then x.runHandler s' (readArguments s.system.memory (passArguments s.system.memory arguments)) else s'
  else none

/-- One step; `none` where it cannot be taken. Nothing else runs on the receiver's executor while the handler does. -/
def step [DecidableEq α] (s : ExchangeState σ α β) : ExchangeAction α → Option (ExchangeState σ α β)
  | .assign v value => lift s (.assign v value)
  | .call arguments => if x.busy s (s.system.system.component x.client).defaultExecutor then none else x.call s arguments
  | .answer =>
    match s.answering with
    | none => none
    | some value => (lift s (.resolve 0 value)).map ({ · with answering := none })
  | .startBatch e => if x.busy s e then none else lift s (.startBatch e)
  | .runNext e =>
    if x.busy s e then none
    else
      (lift s (.runNext e)).map fun s' =>
        match s.system.nextRequest e with
        | some passed => x.runHandler s' (readArguments s.system.memory passed)
        | none => s'
  | .finishBatch e => if x.busy s e then none else lift s (.finishBatch e)

/-- Nothing has been called yet. -/
def init (component : ComponentId → Component) (memory : VariableId → α) (state : σ) : ExchangeState σ α β :=
  { system := ArgumentSystem.init component memory, state }

/-- When a request is run, every variable among its arguments still has the value it had at the call. -/
def KeepsArguments (s : ExchangeState σ α β) : ExchangeAction α → Prop
  | .runNext e => ∀ passed ∈ s.system.nextRequest e, ArgumentsKept s.system.memory passed
  | _ => True

instance [DecidableEq α] (s : ExchangeState σ α β) : ∀ a, Decidable (KeepsArguments s a)
  | .runNext e => inferInstanceAs (Decidable (∀ passed ∈ s.system.nextRequest e, ArgumentsKept s.system.memory passed))
  | .assign .. | .call .. | .answer | .startBatch .. | .finishBatch .. => isTrue trivial

/-! ## What a run comes to -/

/-- All calls have been made, no handler is running, and both queues are empty. -/
structure Complete (s : ExchangeState σ α β) : Prop where
  sent : s.sent = x.calls.length
  answered : s.answering = none
  requests : (s.system.system.executors (s.system.system.component x.receiver).defaultExecutor).pending = []
  responses : (s.system.system.executors (s.system.system.component x.client).defaultExecutor).pending = []

/-- The receiver's state and its answers after it has handled the arguments one after another. -/
def serve (x : Exchange σ α β) : σ → List (List α) → σ × List β
  | state, [] => (state, [])
  | state, a :: rest =>
    let (last, values) := x.serve (x.handler state a).1 rest
    (last, (x.handler state a).2 :: values)

end Exchange

end Minicomps
