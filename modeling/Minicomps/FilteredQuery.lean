import Minicomps.Answers

/-!
# What filters leave of a call

A filter of an async query and the handler behind it are given the same arguments and the same `callback_result`: they are moved
into the filter and, where it lets the call proceed, moved again into the next handler. What arrives at the end depends on how each
filter takes its parameters. A `callback_result` is an object of `Answers`; of an argument only its value matters.
-/

namespace Minicomps

/-- How the signature of the query declares an argument: as `T`, `T&&` or `const T&`. -/
inductive ArgumentKind where
  | value
  | rvalueReference
  | constReference
  deriving DecidableEq, Repr

/-- How a filter takes a parameter. -/
inductive Passing where
  | byValue
  | byReference
  deriving DecidableEq, Repr

/-- What a filter does with its `callback_result`. -/
inductive ResultUse (β : Type*) where
  | answer (value : β)
  | copy
  /-- It is moved out of the parameter. -/
  | move
  deriving DecidableEq, Repr

/-- What the body of a filter does. -/
structure FilterBody (α β : Type*) where
  proceed : Bool
  uses : List (ResultUse β) := []
  /-- What it leaves in the parameter at a position. -/
  leaves : Nat → α → α := fun _ v => v

/-- A filter: how it takes the arguments and the `callback_result`, and what it does when it is called with values. -/
structure FilterFunction (α β : Type*) where
  arguments : Nat → Passing
  result : Passing
  body : List α → FilterBody α β

/-- An entry of `async_handlers_`: the handler that was published, with the filters before it. -/
inductive AsyncHandler (α β : Type*) where
  | handler
  | filter (f : FilterFunction α β) (previous : AsyncHandler α β)

/-- Where a call got to: the arguments that the handler was called with, if it was. -/
structure FilteredCall (α β : Type*) where
  call : CallState β
  handledWith : Option (List α) := none

section

variable {α β : Type*}

/-- The action on the object at `i`. -/
def ResultUse.action (i : Nat) : ResultUse β → AnswerAction β
  | .answer value => .answer i value
  | .copy => .copy i
  | .move => .move i

namespace FilterFunction

/-- What is left of an argument after `handler(proceed, std::move(args)...)`. The `std::move` of a `const T&` allows no more than a
copy; of any other argument, it allows a move into a parameter that is taken by value. -/
def leave (movedFrom : Nat → α → α) (kinds : Nat → ArgumentKind) (f : FilterFunction α β) (args : List α) : List α :=
  args.mapIdx fun i v =>
    match kinds i, f.arguments i with
    | .constReference, _ => v
    | _, .byValue => movedFrom i v
    | _, .byReference => (f.body args).leaves i v

/-- What becomes of the `callback_result`, which is the object 0: the filter's parameter is a new object if it takes it by value. -/
def useResult (f : FilterFunction α β) (args : List α) (s : CallState β) : Option (CallState β) :=
  match f.result with
  | .byReference => Transition.run CallState.step s ((f.body args).uses.map (ResultUse.action 0))
  | .byValue =>
    (s.step (.move 0)).bind fun t => Transition.run CallState.step t ((f.body args).uses.map (ResultUse.action s.objects.length))

/-- The filter moves the `callback_result`, into its parameter or out of it. -/
def movesResult (f : FilterFunction α β) (args : List α) : Prop := f.result = .byValue ∨ .move ∈ (f.body args).uses

/-- The filter leaves `proceed` true and does not answer. -/
def Passes (f : FilterFunction α β) (args : List α) : Prop := (f.body args).proceed = true ∧ ∀ value, .answer value ∉ (f.body args).uses

end FilterFunction

namespace AsyncHandler

/-- `component_base::prepend_async_query_filter`; it ends the program if there is no handler. -/
def prependAsyncQueryFilter (entry : Option (AsyncHandler α β)) (f : FilterFunction α β) : Option (AsyncHandler α β) :=
  entry.map (AsyncHandler.filter f)

/-- A call of the entry's function. Each `std::function` on the way has parameters of its own, with the values that its caller's have
at that moment. -/
def invoke (movedFrom : Nat → α → α) (kinds : Nat → ArgumentKind) :
    AsyncHandler α β → List α → CallState β → Option (FilteredCall α β)
  | .handler, args, s => some { call := s, handledWith := some args }
  | .filter f previous, args, s =>
    (f.useResult args s).bind fun s =>
      if (f.body args).proceed then previous.invoke movedFrom kinds (f.leave movedFrom kinds args) s else some { call := s }

/-! ## What each filter finds -/

/-- Every filter, called with what the ones before it have left, leaves `proceed` true and does not answer. -/
def AllPass (movedFrom : Nat → α → α) (kinds : Nat → ArgumentKind) : AsyncHandler α β → List α → Prop
  | .handler, _ => True
  | .filter f previous, args => f.Passes args ∧ previous.AllPass movedFrom kinds (f.leave movedFrom kinds args)

/-- What the filters, one after the other, leave of the arguments. -/
def leave (movedFrom : Nat → α → α) (kinds : Nat → ArgumentKind) : AsyncHandler α β → List α → List α
  | .handler, args => args
  | .filter f previous, args => previous.leave movedFrom kinds (f.leave movedFrom kinds args)

/-- The filters change nothing through the references they take. -/
def OnlyMoves : AsyncHandler α β → Prop
  | .handler => True
  | .filter f previous => (∀ args i v, (f.body args).leaves i v = v) ∧ previous.OnlyMoves

/-- How many filters the argument is moved into. -/
def moves (kinds : Nat → ArgumentKind) (i : Nat) : AsyncHandler α β → Nat
  | .handler => 0
  | .filter f previous => previous.moves kinds i + if kinds i ≠ .constReference ∧ f.arguments i = .byValue then 1 else 0

/-- No filter, called with what the ones before it have left, moves the `callback_result`. -/
def KeepsResult (movedFrom : Nat → α → α) (kinds : Nat → ArgumentKind) : AsyncHandler α β → List α → Prop
  | .handler, _ => True
  | .filter f previous, args => ¬f.movesResult args ∧ previous.KeepsResult movedFrom kinds (f.leave movedFrom kinds args)

end AsyncHandler

/-- An answer that is given now through the object 0 calls the caller's callback, at once or when the caller's executor gets to it. -/
def CallState.Delivers (s : CallState β) : Prop :=
  ∀ value, ∃ acts t, (∀ a ∈ acts, AnswerAction.ofExecutor a = true) ∧
    Transition.run CallState.step s (.answer 0 value :: acts) = some t ∧ (s.answers.length, value) ∈ t.callbackCalls

/-- The handler is called, with the arguments of the caller and a result that delivers its answer. -/
def AsyncHandler.Transparent (movedFrom : Nat → α → α) (kinds : Nat → ArgumentKind) (h : AsyncHandler α β) (args : List α)
    (s : CallState β) : Prop :=
  ∃ c, h.invoke movedFrom kinds args s = some c ∧ c.handledWith = some args ∧ c.call.Delivers

end

end Minicomps
