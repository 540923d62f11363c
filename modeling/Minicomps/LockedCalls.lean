import Minicomps.Component
import Minicomps.Executor
import Minicomps.Lib.Program
import Minicomps.Lib.RecursiveMutex

/-!
# Calls with the receiver's lock

`sync_query`, `if_sync_query` and `call_locking` call the handler at once: directly where the caller is on the receiver's executor,
and otherwise with the receiver's recursive lock. Here are any number of client threads that call one receiver. A handler is a
program over the receiver's state that may call the receiver again; `call_locking` runs the caller's result handler before it
unlocks.
-/

namespace Minicomps

/-- A call of one of the receiver's handlers by the client component `sender`. -/
structure SyncCall (γ α : Type*) where
  sender : γ
  handler : HandlerId
  arguments : α

/-- A handler or a result handler, over the receiver's state. -/
abbrev HandlerCode (γ α κ ν ρ : Type*) := Program κ ν (SyncCall γ α) ρ

/-- What a client calls: a handler, and what is run on its result before the call returns. -/
structure LockedCall (γ α κ ν ρ : Type*) where
  call : SyncCall γ α
  resultHandler : ρ → HandlerCode γ α κ ν ρ

/-- A `sync_query` or an `if_sync_query` returns what the handler returns. -/
def syncQuery {γ α κ ν ρ : Type*} (call : SyncCall γ α) : LockedCall γ α κ ν ρ := { call, resultHandler := .ret }

/-- `if_volatile_sync_query::call_locking` returns what the result handler makes of it. -/
def callLocking {γ α κ ν ρ : Type*} (call : SyncCall γ α) (resultHandler : ρ → HandlerCode γ α κ ν ρ) : LockedCall γ α κ ν ρ :=
  { call, resultHandler }

/-- The receiver and its clients. -/
structure SyncReceiver (γ α κ ν ρ : Type*) where
  executor : ExecutorId
  clientExecutor : γ → ExecutorId
  handlers : HandlerId → α → HandlerCode γ α κ ν ρ

namespace SyncReceiver

variable {γ α κ ν ρ : Type*}

/-- `mutual_executor()` of a client's reference. -/
def mutualExecutor (d : SyncReceiver γ α κ ν ρ) (sender : γ) : Bool := decide (d.clientExecutor sender = d.executor)

/-- `(*handler)(arguments...)`. -/
def handle (d : SyncReceiver γ α κ ν ρ) (call : SyncCall γ α) : HandlerCode γ α κ ν ρ := d.handlers call.handler call.arguments

/-- `result_handler((*handler)(arguments...))`. -/
def body (d : SyncReceiver γ α κ ν ρ) (q : LockedCall γ α κ ν ρ) : HandlerCode γ α κ ν ρ := (d.handle q.call).bind q.resultHandler

end SyncReceiver

/-- Code that waits for the result of a nested call, and whether it was itself called with the lock. -/
structure SyncCaller (γ α κ ν ρ : Type*) where
  next : ρ → HandlerCode γ α κ ν ρ
  locked : Bool

/-- A client's call while it runs. -/
structure SyncActivation (γ α κ ν ρ : Type*) where
  /-- How many calls of clients had started before it. -/
  number : Nat
  code : HandlerCode γ α κ ν ρ
  /-- The innermost call was made with the lock, which is unlocked when it returns. -/
  locked : Bool
  callers : List (SyncCaller γ α κ ν ρ) := []
  reads : List ν := []

/-- A client's call that has returned: its result, and what has been read inside it. -/
structure SyncReturn (ν ρ : Type*) where
  number : Nat
  result : ρ
  reads : List ν

/-- The receiver's state and lock, and the client threads inside it. -/
structure SyncSystem (θ γ α κ ν ρ : Type*) where
  store : κ → ν
  lock : RecursiveMutex θ := {}
  running : θ → Option (SyncActivation γ α κ ν ρ) := fun _ => none
  /-- History: the clients' calls, in the order in which they started; a call with the lock starts when it gets it. -/
  order : List (LockedCall γ α κ ν ρ) := []
  /-- History: the calls that have returned. -/
  completed : List (SyncReturn ν ρ) := []

/-- What a client thread does next. -/
inductive SyncAction (θ γ α κ ν ρ : Type*) where
  | call (t : θ) (q : LockedCall γ α κ ν ρ)
  /-- The next instruction of the call it is in. -/
  | advance (t : θ)

namespace SyncSystem

variable {θ γ α κ ν ρ : Type*} [DecidableEq θ] [DecidableEq κ]

/-- `lock_guard lg(receiver->lock)`, where the sender is on another executor: whether the call has the lock, and the lock after it.
`none` while the thread has to wait. -/
def acquire (d : SyncReceiver γ α κ ν ρ) (s : SyncSystem θ γ α κ ν ρ) (t : θ) (sender : γ) : Option (Bool × RecursiveMutex θ) :=
  -- We can skip the lock since the same executor is never updated from different threads.
  if d.mutualExecutor sender then some (false, s.lock) else (s.lock.lock t).map fun m => (true, m)

/-- The end of the `lock_guard`. -/
def unlock (s : SyncSystem θ γ α κ ν ρ) (locked : Bool) : RecursiveMutex θ := if locked then s.lock.unlock else s.lock

/-- Set what the thread runs. -/
def setRunning (s : SyncSystem θ γ α κ ν ρ) (t : θ) (a : Option (SyncActivation γ α κ ν ρ)) : SyncSystem θ γ α κ ν ρ :=
  { s with running := Function.update s.running t a }

/-- The next instruction of a call on a thread. -/
def advance (d : SyncReceiver γ α κ ν ρ) (s : SyncSystem θ γ α κ ν ρ) (t : θ) (a : SyncActivation γ α κ ν ρ) :
    Option (SyncSystem θ γ α κ ν ρ) :=
  match a.code with
  | .ret r =>
    let s := { s with lock := s.unlock a.locked }
    match a.callers with
    | [] =>
      let returned : SyncReturn ν ρ := { number := a.number, result := r, reads := a.reads }
      let s := { s with completed := s.completed ++ [returned] }
      some (s.setRunning t none)
    | k :: callers => some (s.setRunning t (some { a with code := k.next r, locked := k.locked, callers := callers }))
  | .read k next => some (s.setRunning t (some { a with code := next (s.store k), reads := a.reads ++ [s.store k] }))
  | .write k v next =>
    let s := { s with store := Function.update s.store k v }
    some (s.setRunning t (some { a with code := next }))
  | .call call after next =>
    (s.acquire d t call.sender).map fun (locked, lock) =>
      let s := { s with lock := lock }
      s.setRunning t
        (some { a with code := (d.handle call).bind after, locked := locked, callers := ⟨next, a.locked⟩ :: a.callers })

/-- One step of one thread; `none` where it cannot be taken, or has to wait. -/
def step (d : SyncReceiver γ α κ ν ρ) (s : SyncSystem θ γ α κ ν ρ) : SyncAction θ γ α κ ν ρ → Option (SyncSystem θ γ α κ ν ρ)
  | .call t q =>
    match s.running t with
    | some _ => none
    | none =>
      (s.acquire d t q.call.sender).map fun (locked, lock) =>
        let number := s.order.length
        let s := { s with lock := lock, order := s.order ++ [q] }
        s.setRunning t (some { number, code := d.body q, locked := locked })
  | .advance t => (s.running t).bind (s.advance d t)

/-- No client has called yet. -/
def init (store : κ → ν) : SyncSystem θ γ α κ ν ρ := { store }

/-! ## What the lock is for -/

/-- A call that runs, as a program over the receiver's state. -/
def config (s : SyncSystem θ γ α κ ν ρ) (a : SyncActivation γ α κ ν ρ) : Program.Config κ ν (SyncCall γ α) ρ :=
  { code := a.code, callers := a.callers.map SyncCaller.next, reads := a.reads, store := s.store }

/-- All calls that have started have returned, and have left the receiver in the state `store`. -/
structure AtRest (s : SyncSystem θ γ α κ ν ρ) (store : κ → ν) : Prop where
  running : ∀ t, s.running t = none
  returned : s.order.length = s.completed.length
  store : s.store = store

/-- The thread `t` runs the call that started last, all others have returned, and what it has done so far is what it does when it
runs alone from the state `store` that they left. -/
structure InCall (d : SyncReceiver γ α κ ν ρ) (s : SyncSystem θ γ α κ ν ρ) (store : κ → ν) (t : θ) (q : LockedCall γ α κ ν ρ)
    (a : SyncActivation γ α κ ν ρ) : Prop where
  running : s.running t = some a
  others : ∀ u, u ≠ t → s.running u = none
  number : a.number = s.completed.length
  last : s.order = s.order.take s.completed.length ++ [q]
  reaches : Program.Config.Reaches d.handle { code := d.body q, store := store } (s.config a)

end SyncSystem

end Minicomps
