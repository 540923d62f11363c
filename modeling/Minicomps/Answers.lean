import Minicomps.Executor
import Minicomps.Lib.Transition
import Minicomps.Lifetime
import Minicomps.RequestProtocol

/-!
# The answers to one call

The `callback_result` of a call is handed to a stack of filters and to the handler. All of them may invoke it, move from it, or keep
copies of it, at once or later. What an answer does depends on what the object it goes through still holds: an answer that is
enqueued takes the callback and the lifetime along, one that is handed over directly leaves them where they are, and a move leaves
an object without an executor, a lifetime and a callback.
-/

namespace Minicomps

/-- A `callback_result` object of the call, as far as its answers go. -/
structure ResultObject where
  /-- `receiving_executor_` is not null: it is the client's executor. -/
  receivingExecutor : Bool
  /-- Empty once it has been moved out. -/
  lifetime : Option LifetimeWeakPtr
  /-- `callback_` has not been moved out. -/
  callback : Bool
  deriving DecidableEq, Repr

/-- What a move leaves behind. -/
def ResultObject.movedFrom : ResultObject := { receivingExecutor := false, lifetime := none, callback := false }

/-- The task that an enqueued answer makes. -/
structure AnswerTask (β : Type*) where
  /-- How many answers had been given before it. -/
  number : Nat
  value : β
  lifetime : Option LifetimeWeakPtr
  callback : Bool
  deriving DecidableEq, Repr

/-- One call: the objects that were made of its `callback_result`, and the client's side. -/
structure CallState (β : Type*) where
  objects : List ResultObject
  lifetimes : Lifetimes
  /-- The client's executor. -/
  executor : Executor (AnswerTask β) := {}
  /-- History: the values that were given as answers, in order. -/
  answers : List β := []
  /-- History: which answer the client's callback was called with, and its value, each time. -/
  callbackCalls : List (Nat × β) := []

/-- What happens next. -/
inductive AnswerAction (β : Type*) where
  /-- A filter or the handler invokes an object. -/
  | answer (i : Nat) (value : β)
  /-- An object is copied. -/
  | copy (i : Nat)
  /-- A new object is made by a move from an object. -/
  | move (i : Nat)
  | reset (l : LifetimeId)
  /-- `execute()` of the client's executor. -/
  | startBatch
  | runNext
  | finishBatch
  deriving DecidableEq, Repr

/-- A step of the client's executor. -/
def AnswerAction.ofExecutor {β : Type*} : AnswerAction β → Bool
  | .startBatch | .runNext | .finishBatch => true
  | _ => false

/-- A filter: what it does when it is called, and what it leaves in `proceed`. -/
structure Filter (β : Type*) where
  actions : List (AnswerAction β)
  proceed : Bool

/-- `component_base::prepend_async_query_filter`: the filters are called from the last one that was prepended to the first, each
if the one before lets it, and the handler at the end. -/
def invokeFilters {β : Type*} (handler : List (AnswerAction β)) : List (Filter β) → List (AnswerAction β)
  | [] => handler
  | f :: filters => if f.proceed then f.actions ++ invokeFilters handler filters else f.actions

namespace CallState

variable {β : Type*}

/-- `callback_(result)`; it ends the program when there is no callback. -/
def callCallback (s : CallState β) (callback : Bool) (number : Nat) (value : β) : Option (CallState β) :=
  if callback then some { s with callbackCalls := s.callbackCalls ++ [(number, value)] } else none

/-- `callback_result::operator()` on the object `o`, which is at `i`. -/
def operatorCall (s : CallState β) (i : Nat) (o : ResultObject) (value : β) : Option (CallState β) :=
  let number := s.answers.length
  let task : AnswerTask β := { number, value, lifetime := o.lifetime, callback := o.callback }
  let ports : AnswerPorts Unit (CallState β) (Option (CallState β)) :=
    { enqueueWork := fun _ s =>
        { s with
          objects := s.objects.set i { o with lifetime := none, callback := false }
          executor := s.executor.enqueueWork task }
      onEnqueue := some
      expired := fun s => s.lifetimes.expiredOrEmpty o.lifetime
      drop := some
      callback := fun s => s.callCallback o.callback number value }
  -- The executor is always the caller's.
  ports.operatorCall (if o.receivingExecutor then some () else none) { s with answers := s.answers ++ [value] }

/-- The `response_task`. -/
def runTask (s : CallState β) (task : AnswerTask β) : Option (CallState β) :=
  if s.lifetimes.expiredOrEmpty task.lifetime then some s else s.callCallback task.callback task.number task.value

/-- One step; `none` where it cannot be taken, or ends the program. -/
def step (s : CallState β) : AnswerAction β → Option (CallState β)
  | .answer i value => (s.objects[i]?).bind fun o => s.operatorCall i o value
  | .copy i => (s.objects[i]?).map fun o => { s with objects := s.objects ++ [o] }
  | .move i => (s.objects[i]?).map fun o => { s with objects := s.objects.set i .movedFrom ++ [o] }
  | .reset l => some { s with lifetimes := s.lifetimes.reset l }
  | .startBatch => if s.executor.workItemsBackBuffer.isEmpty then some { s with executor := s.executor.swap } else none
  | .runNext =>
    match s.executor.next with
    | some (task, e) => { s with executor := e }.runTask task
    | none => none
  | .finishBatch =>
    match s.executor.next with
    | some _ => none
    | none => some { s with executor := s.executor.clear }

/-- A call that has just been made, directly or through the receiver's executor. -/
def init (direct : Bool) (lifetimes : Lifetimes) (lifetime : LifetimeWeakPtr) : CallState β :=
  { objects := [{ receivingExecutor := !direct, lifetime := some lifetime, callback := true }], lifetimes }

/-! ## What a client expects -/

/-- The callback has been called at most once, and then with the value of the first answer. -/
def AtMostFirst (s : CallState β) : Prop :=
  s.callbackCalls = [] ∨ ∃ value, s.answers.head? = some value ∧ s.callbackCalls = [(0, value)]

/-- However the client's executor goes on, the callback is called at most once, and then with the value of the first answer. -/
def Settles (s : CallState β) : Prop :=
  ∀ acts t, (∀ a ∈ acts, AnswerAction.ofExecutor a = true) → Transition.run step s acts = some t → t.AtMostFirst

/-- An answer through an object whose lifetime has neither expired nor been moved out is the first of all answers. -/
def FirstOnly (s : CallState β) : AnswerAction β → Prop
  | .answer i _ => ∀ o ∈ s.objects[i]?, s.lifetimes.expiredOrEmpty o.lifetime = false → s.answers = []
  | _ => True

end CallState

end Minicomps
