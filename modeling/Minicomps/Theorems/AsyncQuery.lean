import Minicomps.AsyncQuery
import Minicomps.Lib.History
import Minicomps.Lib.Transition
import Mathlib.Data.List.Perm.Basic

/-!
# Every async call, accounted for

The invariant follows a call through two stretches of queues: from where it was issued to its handler, and from where its
`callback_result` was invoked to its callback. Between them the result is outstanding. What is on each stretch is read off the
history, and every entry of the history is justified by what came before.
-/

namespace Minicomps

open Transition History

variable {α β : Type*}

/-- The invocation a call asks for. -/
def Call.invocation (c : Call α) : Invocation α where
  executor := if c.found.mutualExecutor then none else some c.found.executor
  handler := c.found.handler
  arguments := c.arguments
  result := {
    receivingExecutor := if c.found.mutualExecutor then none else some c.senderExecutor
    lifetime := c.lifetime
    targetComponent := c.sender
    senderComponent := c.found.receiver
    msgInfo := c.msgInfo
    callback := c.callback }

/-- The invocation a work item of the executor makes, if it is a request. -/
def Task.invocation (x : ExecutorId) : Task α β → Option (Invocation α)
  | .request handler msgInfo data => some {
      executor := some x
      handler
      arguments := data.arguments
      result := {
        receivingExecutor := some data.receiverExecutor
        lifetime := data.lifetime
        targetComponent := data.receiver
        senderComponent := data.sender
        msgInfo
        callback := data.callback } }
  | .response _ => none

/-- The response a work item of the executor delivers, if it is one. -/
def Task.delivers (x : ExecutorId) : Task α β → Option (Response β)
  | .request .. => none
  | .response r => some { executor := some x, result := r.result, callback := r.callback, lifetime := r.lifetime }

/-- What a `callback_result` and the response made from it share. -/
structure Ticket where
  callback : CallbackId
  lifetime : LifetimeWeakPtr
  executor : Option ExecutorId
  deriving DecidableEq

def CallbackResult.ticket (r : CallbackResult) : Ticket := ⟨r.callback, r.lifetime, r.receivingExecutor⟩

def Response.ticket (r : Response β) : Ticket := ⟨r.callback, r.lifetime, r.executor⟩

/-! ## Reading the history -/

/-- The invocations that were asked for. -/
def issued (h : List (HistoryEntry α β)) : List (Invocation α) :=
  h.filterMap fun
    | .issued c => some c.invocation
    | _ => none

/-- The invocations that were made. -/
def started (h : List (HistoryEntry α β)) : List (Invocation α) :=
  h.filterMap fun
    | .handlerStarted i => some i
    | _ => none

/-- The values that were given to results. -/
def resolved (h : List (HistoryEntry α β)) : List (Response β) :=
  h.filterMap fun
    | .resolved r => some r
    | _ => none

/-- The values that got to the end of their way. -/
def delivered (h : List (HistoryEntry α β)) : List (Response β) :=
  h.filterMap fun
    | .delivered r _ => some r
    | _ => none

/-- The values with which callbacks were started. -/
def callbacksStarted (h : List (HistoryEntry α β)) : List (Response β) :=
  h.filterMap fun
    | .delivered r true => some r
    | _ => none

/-- How often a lifetime was reset. -/
def resets (h : List (HistoryEntry α β)) (l : LifetimeId) : Nat :=
  h.countP fun
    | .reset l' => decide (l' = l)
    | _ => false

/-- What justifies an entry: a call is given a weak pointer made by then; a handler is started for a call, on the executor the
call asked for and with its arguments; a result is invoked after its handler was started; and a response that is delivered had
been given to its result, and starts the callback unless the lifetime has been reset since the weak pointer was made. -/
def Justified (pre : List (HistoryEntry α β)) : HistoryEntry α β → Prop
  | .issued c => c.lifetime.epoch ≤ resets pre c.lifetime.lifetime
  | .handlerStarted i => ∃ c, .issued c ∈ pre ∧ c.invocation = i
  | .resolved r => ∃ i, .handlerStarted i ∈ pre ∧ i.result.ticket = r.ticket
  | .delivered r callbackStarted =>
    .resolved r ∈ pre ∧ callbackStarted = decide (resets pre r.lifetime.lifetime ≤ r.lifetime.epoch)
  | .reset _ => True

/-- The items of a kind that wait on each executor; nothing waits on the way of a direct call. -/
def queueOf {ρ : Type*} (f : ExecutorId → Task α β → Option ρ) (executors : ExecutorId → Executor (Task α β)) :
    Option ExecutorId → List ρ
  | none => []
  | some x => (executors x).pending.filterMap (f x)

/-- The accounts of a history: every call is in one place, and the history says how it got there. `requests` and `responses` are
what waits on the two stretches of the way, `outstanding` what lies between them. -/
structure Books (h : List (HistoryEntry α β)) (lifetimes : Lifetimes) (callbacks : Nat)
    (requests : Option ExecutorId → List (Invocation α)) (outstanding : List Ticket)
    (responses : Option ExecutorId → List (Response β)) : Prop where
  justified : AllJustified Justified h
  lifetimes : ∀ l, lifetimes l = resets h l
  callbacks : (issued h).map (fun i => i.result.callback) = List.range callbacks
  requests : Balanced Invocation.executor requests (issued h) (started h)
  results : ((started h).map fun i => i.result.ticket).Perm (outstanding ++ (resolved h).map Response.ticket)
  responses : Balanced Response.executor responses (resolved h) (delivered h)

/-- The accounts of a system. -/
def AsyncSystem.Accounted (s : AsyncSystem α β) : Prop :=
  Books s.history s.lifetimes s.callbacks (queueOf Task.invocation s.executors) (s.outstanding.map CallbackResult.ticket)
    (queueOf Task.delivers s.executors)

/-- What is asked of a state: what its history says of the calls that were made. -/
structure AsyncSystem.Reliable (s : AsyncSystem α β) : Prop where
  /-- Handlers are started with what the call was given, and callbacks with a value that was given to their result before, and
  only while the lifetime has not been reset. -/
  justified : AllJustified Justified s.history
  /-- Every call has a callback of its own, by which it is known below. -/
  distinct : ((issued s.history).map fun i => i.result.callback).Nodup
  handler_once : ((started s.history).map fun i => i.result.callback).Nodup
  /-- On each executor the calls were started that were issued there, in that order, but for those that are pending; a direct call
  is never pending. -/
  drained : ∀ p, (started s.history).filter (fun i => decide (i.executor = p)) ++ queueOf Task.invocation s.executors p =
    (issued s.history).filter fun i => decide (i.executor = p)
  resolved_once : ((resolved s.history).map Response.callback).Nodup
  callback_once : ((callbacksStarted s.history).map Response.callback).Nodup
  /-- A callback is not started after its lifetime was reset. -/
  canceled : ∀ pre c mid r post, s.history = pre ++ .issued c :: mid ++ .delivered r true :: post →
    r.callback = c.callback → .reset c.lifetime.lifetime ∉ mid
  /-- A value that was given to a result has been delivered, or is pending on the caller's executor. -/
  not_lost : ∀ r, .resolved r ∈ s.history →
    (∃ callbackStarted, .delivered r callbackStarted ∈ s.history) ∨ r ∈ queueOf Task.delivers s.executors r.executor
  /-- The enqueued requests of a client to an executor start in the order in which they were issued. -/
  in_order : ∀ client x,
    (started s.history).filter (fun i => decide (i.result.targetComponent = client) && decide (i.executor = some x)) <+:
      (issued s.history).filter fun i => decide (i.result.targetComponent = client) && decide (i.executor = some x)

namespace AsyncAux

open AsyncSystem

variable {s s' : AsyncSystem α β} {h : List (HistoryEntry α β)} {x : ExecutorId}

/-! ## Queues -/

section Queues

variable {ρ : Type*} {f : ExecutorId → Task α β → Option ρ} {executors : ExecutorId → Executor (Task α β)}

theorem queueOf_of_ne {e : Executor (Task α β)} {p : Option ExecutorId} (hp : p ≠ some x) :
    queueOf f (Function.update executors x e) p = queueOf f executors p := by
  cases p with
  | none => rfl
  | some y =>
    have hy : y ≠ x := fun heq => hp (congrArg some heq)
    rw [queueOf, queueOf, Function.update_of_ne hy]

/-- What an executor does to its vectors between two tasks moves nothing. -/
theorem queueOf_of_pending {e : Executor (Task α β)} (he : e.pending = (executors x).pending) (p : Option ExecutorId) :
    queueOf f (Function.update executors x e) p = queueOf f executors p := by
  by_cases hp : p = some x
  · subst hp
    rw [queueOf, queueOf, Function.update_self, he]
  · exact queueOf_of_ne hp

theorem queueOf_enqueue (task : Task α β) :
    queueOf f (Function.update executors x ((executors x).enqueueWork task)) (some x) =
      queueOf f executors (some x) ++ (f x task).toList := by
  rw [queueOf, queueOf, Function.update_self, Executor.pending_enqueueWork, List.filterMap_append]
  cases hf : f x task <;> simp [hf]

theorem queueOf_next {task : Task α β} {e : Executor (Task α β)} (hnext : (executors x).next = some (task, e)) :
    queueOf f executors (some x) = (f x task).toList ++ queueOf f (Function.update executors x e) (some x) := by
  rw [queueOf, queueOf, Function.update_self, Executor.pending_next hnext]
  cases hf : f x task with
  | none => rw [List.filterMap_cons_none hf]; rfl
  | some r => rw [List.filterMap_cons_some hf]; rfl

/-- A task of another kind changes nothing. -/
theorem queueOf_enqueue_none {task : Task α β} (hf : f x task = none) (p : Option ExecutorId) :
    queueOf f (Function.update executors x ((executors x).enqueueWork task)) p = queueOf f executors p := by
  by_cases hp : p = some x
  · subst hp
    rw [queueOf_enqueue, hf, Option.toList_none, List.append_nil]
  · exact queueOf_of_ne hp

theorem queueOf_next_none {task : Task α β} {e : Executor (Task α β)} (hnext : (executors x).next = some (task, e))
    (hf : f x task = none) (p : Option ExecutorId) :
    queueOf f (Function.update executors x e) p = queueOf f executors p := by
  by_cases hp : p = some x
  · subst hp
    rw [queueOf_next hnext, hf]
    rfl
  · exact queueOf_of_ne hp

end Queues

/-! ## Histories -/

theorem mem_issued {i : Invocation α} : i ∈ issued h ↔ ∃ c, HistoryEntry.issued c ∈ h ∧ c.invocation = i := by
  rw [issued, List.mem_filterMap]
  constructor
  · rintro ⟨e, he, hi⟩
    cases e with
    | issued c => exact ⟨c, he, Option.some.inj hi⟩
    | handlerStarted | resolved | delivered | reset => cases hi
  · rintro ⟨c, hc, rfl⟩
    exact ⟨_, hc, rfl⟩

theorem mem_started {i : Invocation α} : i ∈ started h ↔ HistoryEntry.handlerStarted i ∈ h := by
  rw [started, List.mem_filterMap]
  constructor
  · rintro ⟨e, he, hi⟩
    cases e with
    | handlerStarted j => exact Option.some.inj hi ▸ he
    | issued | resolved | delivered | reset => cases hi
  · exact fun hi => ⟨_, hi, rfl⟩

theorem mem_resolved {r : Response β} : r ∈ resolved h ↔ HistoryEntry.resolved r ∈ h := by
  rw [resolved, List.mem_filterMap]
  constructor
  · rintro ⟨e, he, hr⟩
    cases e with
    | resolved r' => exact Option.some.inj hr ▸ he
    | issued | handlerStarted | delivered | reset => cases hr
  · exact fun hr => ⟨_, hr, rfl⟩

theorem mem_delivered {r : Response β} : r ∈ delivered h ↔ ∃ b, HistoryEntry.delivered r b ∈ h := by
  rw [delivered, List.mem_filterMap]
  constructor
  · rintro ⟨e, he, hr⟩
    cases e with
    | delivered r' b => exact ⟨b, Option.some.inj hr ▸ he⟩
    | issued | handlerStarted | resolved | reset => cases hr
  · exact fun ⟨b, hr⟩ => ⟨_, hr, rfl⟩

/-- The callbacks that were started are those of delivered responses. -/
theorem callbacksStarted_sublist (h : List (HistoryEntry α β)) : (callbacksStarted h).Sublist (delivered h) := by
  induction h with
  | nil => exact List.Sublist.refl _
  | cons e h ih =>
    cases e with
    | delivered r b =>
      cases b with
      | true => exact ih.cons_cons r
      | false => exact ih.cons r
    | issued | handlerStarted | resolved | reset => exact ih

/-- What each entry adds to the lists that are read off a history. -/
theorem read_issued (h : List (HistoryEntry α β)) (c : Call α) :
    issued (h ++ [HistoryEntry.issued c]) = issued h ++ [c.invocation] ∧ started (h ++ [HistoryEntry.issued c]) = started h ∧
      resolved (h ++ [HistoryEntry.issued c]) = resolved h ∧ delivered (h ++ [HistoryEntry.issued c]) = delivered h ∧
      ∀ l, resets (h ++ [HistoryEntry.issued c]) l = resets h l := by
  simp [issued, started, resolved, delivered, resets]

theorem read_handlerStarted (h : List (HistoryEntry α β)) (i : Invocation α) :
    issued (h ++ [HistoryEntry.handlerStarted i]) = issued h ∧ started (h ++ [HistoryEntry.handlerStarted i]) = started h ++ [i] ∧
      resolved (h ++ [HistoryEntry.handlerStarted i]) = resolved h ∧ delivered (h ++ [HistoryEntry.handlerStarted i]) = delivered h ∧
      ∀ l, resets (h ++ [HistoryEntry.handlerStarted i]) l = resets h l := by
  simp [issued, started, resolved, delivered, resets]

theorem read_resolved (h : List (HistoryEntry α β)) (r : Response β) :
    issued (h ++ [HistoryEntry.resolved r]) = issued h ∧ started (h ++ [HistoryEntry.resolved r]) = started h ∧
      resolved (h ++ [HistoryEntry.resolved r]) = resolved h ++ [r] ∧ delivered (h ++ [HistoryEntry.resolved r]) = delivered h ∧
      ∀ l, resets (h ++ [HistoryEntry.resolved r]) l = resets h l := by
  simp [issued, started, resolved, delivered, resets]

theorem read_delivered (h : List (HistoryEntry α β)) (r : Response β) (b : Bool) :
    issued (h ++ [HistoryEntry.delivered r b]) = issued h ∧ started (h ++ [HistoryEntry.delivered r b]) = started h ∧
      resolved (h ++ [HistoryEntry.delivered r b]) = resolved h ∧ delivered (h ++ [HistoryEntry.delivered r b]) = delivered h ++ [r] ∧
      ∀ l, resets (h ++ [HistoryEntry.delivered r b]) l = resets h l := by
  simp [issued, started, resolved, delivered, resets]

theorem read_reset (h : List (HistoryEntry α β)) (l : LifetimeId) :
    issued (h ++ [HistoryEntry.reset l]) = issued h ∧ started (h ++ [HistoryEntry.reset l]) = started h ∧
      resolved (h ++ [HistoryEntry.reset l]) = resolved h ∧ delivered (h ++ [HistoryEntry.reset l]) = delivered h ∧
      ∀ l', resets (h ++ [HistoryEntry.reset l]) l' = resets h l' + if l = l' then 1 else 0 := by
  refine ⟨by simp [issued], by simp [started], by simp [resolved], by simp [delivered], ?_⟩
  intro l'
  rw [resets, List.countP_append]
  by_cases hl : l = l' <;> simp [resets, hl]

end AsyncAux

/-! ## Keeping the accounts -/

section Books

open AsyncAux

variable {h : List (HistoryEntry α β)} {lifetimes : Lifetimes} {callbacks : Nat}
  {requests : Option ExecutorId → List (Invocation α)} {outstanding outstanding' : List Ticket}
  {responses : Option ExecutorId → List (Response β)}

theorem books_nil : Books ([] : List (HistoryEntry α β)) (fun _ => 0) 0 (fun _ => []) [] (fun _ => []) :=
  ⟨allJustified_nil, fun _ => rfl, rfl, balanced_nil fun _ => rfl, List.Perm.refl _, balanced_nil fun _ => rfl⟩

theorem Books.congr (hb : Books h lifetimes callbacks requests outstanding responses)
    {requests' : Option ExecutorId → List (Invocation α)} {responses' : Option ExecutorId → List (Response β)}
    (hreq : ∀ p, requests' p = requests p) (hres : ∀ p, responses' p = responses p) :
    Books h lifetimes callbacks requests' outstanding responses' :=
  { hb with requests := hb.requests.congr hreq, responses := hb.responses.congr hres }

/-- A call is issued: its invocation waits where it is to be made. -/
theorem Books.issue (hb : Books h lifetimes callbacks requests outstanding responses)
    (requests' : Option ExecutorId → List (Invocation α)) (c : Call α)
    (hcallback : c.callback = callbacks) (hepoch : c.lifetime.epoch ≤ lifetimes c.lifetime.lifetime)
    (hself : requests' c.invocation.executor = requests c.invocation.executor ++ [c.invocation])
    (hother : ∀ p, p ≠ c.invocation.executor → requests' p = requests p) :
    Books (h ++ [.issued c]) lifetimes (callbacks + 1) requests' outstanding responses := by
  obtain ⟨hi, hst, hr, hd, hl⟩ := read_issued h c
  refine ⟨hb.justified.snoc ?_, ?_, ?_, ?_, ?_, ?_⟩
  · rw [Justified, ← hb.lifetimes]
    exact hepoch
  · intro l
    rw [hl, hb.lifetimes]
  · rw [hi, List.map_append, hb.callbacks, List.range_succ, ← hcallback]
    rfl
  · rw [hi, hst]
    exact hb.requests.enter hself hother
  · rw [hst, hr]
    exact hb.results
  · rw [hr, hd]
    exact hb.responses

/-- A handler is started for the invocation at the front: its result becomes outstanding. -/
theorem Books.start (hb : Books h lifetimes callbacks requests outstanding responses)
    (requests' : Option ExecutorId → List (Invocation α)) (i : Invocation α)
    (hself : requests i.executor = i :: requests' i.executor) (hother : ∀ p, p ≠ i.executor → requests' p = requests p) :
    Books (h ++ [.handlerStarted i]) lifetimes callbacks requests' (outstanding ++ [i.result.ticket]) responses := by
  obtain ⟨hi, hst, hr, hd, hl⟩ := read_handlerStarted h i
  have hleave : Balanced Invocation.executor requests' (issued h) (started h ++ [i]) := hb.requests.leave hself hother
  refine ⟨hb.justified.snoc ?_, ?_, ?_, ?_, ?_, ?_⟩
  · exact mem_issued.mp (hleave.entered_of_left (by simp))
  · intro l
    rw [hl, hb.lifetimes]
  · rw [hi, hb.callbacks]
  · rw [hi, hst]
    exact hleave
  · rw [hst, hr, List.map_append, List.append_assoc]
    refine (hb.results.append_right _).trans ?_
    rw [List.append_assoc]
    exact List.Perm.append_left _ List.perm_append_comm
  · rw [hr, hd]
    exact hb.responses

/-- An outstanding result is invoked: the value sets out to the callback. -/
theorem Books.resolve (hb : Books h lifetimes callbacks requests outstanding responses)
    (responses' : Option ExecutorId → List (Response β)) (r : Response β)
    (hticket : outstanding.Perm (r.ticket :: outstanding')) (hself : responses' r.executor = responses r.executor ++ [r])
    (hother : ∀ p, p ≠ r.executor → responses' p = responses p) :
    Books (h ++ [.resolved r]) lifetimes callbacks requests outstanding' responses' := by
  obtain ⟨hi, hst, hr, hd, hl⟩ := read_resolved h r
  refine ⟨hb.justified.snoc ?_, ?_, ?_, ?_, ?_, ?_⟩
  · have hmem : r.ticket ∈ (started h).map fun i => i.result.ticket :=
      hb.results.mem_iff.mpr (List.mem_append_left _ (hticket.mem_iff.mpr List.mem_cons_self))
    obtain ⟨i, hi, heq⟩ := List.mem_map.mp hmem
    exact ⟨i, mem_started.mp hi, heq⟩
  · intro l
    rw [hl, hb.lifetimes]
  · rw [hi, hb.callbacks]
  · rw [hi, hst]
    exact hb.requests
  · rw [hst, hr, List.map_append]
    refine hb.results.trans ((hticket.append_right _).trans ?_)
    rw [← List.append_assoc]
    exact (List.perm_append_singleton _ _).symm
  · rw [hr, hd]
    exact hb.responses.enter hself hother

/-- The response at the front is delivered. -/
theorem Books.deliver (hb : Books h lifetimes callbacks requests outstanding responses)
    (responses' : Option ExecutorId → List (Response β)) (r : Response β)
    (hself : responses r.executor = r :: responses' r.executor) (hother : ∀ p, p ≠ r.executor → responses' p = responses p) :
    Books (h ++ [.delivered r (!lifetimes.expired r.lifetime)]) lifetimes callbacks requests outstanding responses' := by
  obtain ⟨hi, hst, hr, hd, hl⟩ := read_delivered h r (!lifetimes.expired r.lifetime)
  have hleave : Balanced Response.executor responses' (resolved h) (delivered h ++ [r]) := hb.responses.leave hself hother
  refine ⟨hb.justified.snoc ⟨?_, ?_⟩, ?_, ?_, ?_, ?_, ?_⟩
  · exact mem_resolved.mp (hleave.entered_of_left (by simp))
  · rw [Lifetimes.expired, hb.lifetimes, ← decide_not, decide_eq_decide]
    exact Nat.not_lt
  · intro l
    rw [hl, hb.lifetimes]
  · rw [hi, hb.callbacks]
  · rw [hi, hst]
    exact hb.requests
  · rw [hst, hr]
    exact hb.results
  · rw [hr, hd]
    exact hleave

/-- A lifetime is reset. -/
theorem Books.reset (hb : Books h lifetimes callbacks requests outstanding responses) (l : LifetimeId) :
    Books (h ++ [.reset l]) (lifetimes.reset l) callbacks requests outstanding responses := by
  obtain ⟨hi, hst, hr, hd, hl⟩ := read_reset h l
  refine ⟨hb.justified.snoc trivial, ?_, ?_, ?_, ?_, ?_⟩
  · intro l'
    rw [hl, ← hb.lifetimes]
    by_cases heq : l = l'
    · subst heq
      rw [Lifetimes.reset_self, if_pos rfl]
    · rw [Lifetimes.reset_of_ne _ (Ne.symm heq), if_neg heq, Nat.add_zero]
  · rw [hi, hb.callbacks]
  · rw [hi, hst]
    exact hb.requests
  · rw [hst, hr]
    exact hb.results
  · rw [hr, hd]
    exact hb.responses

end Books

/-! ## The steps -/

namespace AsyncAux

open AsyncSystem

variable {s s' : AsyncSystem α β} {x : ExecutorId}

theorem accounted_init (component : ComponentId → Component) : Accounted (init component : AsyncSystem α β) := by
  refine books_nil.congr ?_ ?_
  · intro p
    cases p <;> rfl
  · intro p
    cases p <;> rfl

/-- An executor changes its vectors, but not what is pending. -/
theorem accounted_pending (hs : Accounted s) {e : Executor (Task α β)} (he : e.pending = (s.executors x).pending) :
    Accounted { s with executors := Function.update s.executors x e } :=
  Books.congr hs (fun p => queueOf_of_pending he p) (fun p => queueOf_of_pending he p)

/-- A call: a direct one is issued and started at once, any other is issued and enqueued. -/
theorem accounted_execute (hs : Accounted s) {sender : ComponentId} {found : Option Resolution} {msgInfo : MessageId}
    {arguments : α} {lifetime : LifetimeWeakPtr} (hepoch : lifetime.epoch ≤ s.lifetimes lifetime.lifetime)
    (h : s.execute sender found msgInfo arguments lifetime = some s') : Accounted s' := by
  cases found with
  | none => cases h
  | some found =>
    obtain ⟨c, hc⟩ : ∃ c : Call α, c = ⟨sender, (s.component sender).defaultExecutor, found, msgInfo, arguments, lifetime,
      s.callbacks⟩ := ⟨_, rfl⟩
    have hcallback : c.callback = s.callbacks := by rw [hc]
    have hepoch' : c.lifetime.epoch ≤ s.lifetimes c.lifetime.lifetime := by rw [hc]; exact hepoch
    simp only [execute, RequestPorts.execute] at h
    split at h
    · -- the invocation waits for nothing: it is issued to a queue of its own and leaves it at once
      rename_i hdirect
      obtain rfl := Option.some.inj h
      have hpath : c.invocation.executor = none := by simp [hc, Call.invocation, hdirect]
      have hissue := Books.issue hs (Function.update (queueOf Task.invocation s.executors) none [c.invocation]) c hcallback
        hepoch' (by rw [hpath, Function.update_self]; rfl) (fun p hp => Function.update_of_ne (hpath ▸ hp) ..)
      have hstart := hissue.start (queueOf Task.invocation s.executors) c.invocation
        (by rw [hpath, Function.update_self]; rfl) (fun p hp => (Function.update_of_ne (hpath ▸ hp) ..).symm)
      simpa [Accounted, startHandler, notifyListener, record, hc, Call.invocation, hdirect, List.map_append] using hstart
    · rename_i hqueue
      obtain rfl := Option.some.inj h
      obtain ⟨task, htask⟩ : ∃ task : Task α β, task = .request found.handler msgInfo
        ⟨arguments, s.callbacks, (s.component sender).defaultExecutor, lifetime, sender, found.receiver⟩ := ⟨_, rfl⟩
      have hinv : Task.invocation found.executor task = some c.invocation := by
        simp [hc, htask, Task.invocation, Call.invocation, hqueue]
      have hpath : c.invocation.executor = some found.executor := by simp [hc, Call.invocation, hqueue]
      have hissue := Books.issue hs (queueOf Task.invocation (Function.update s.executors found.executor
        ((s.executors found.executor).enqueueWork task))) c hcallback hepoch'
        (by rw [hpath, queueOf_enqueue, hinv]; rfl) (fun p hp => queueOf_of_ne (hpath ▸ hp))
      have hbooks := hissue.congr (fun _ => rfl) (queueOf_enqueue_none (x := found.executor) (f := Task.delivers)
        (by rw [htask]; rfl : Task.delivers found.executor task = none))
      rw [htask, hc] at hbooks
      exact hbooks

/-- The next task of a batch: a request starts its handler, and a response is delivered. -/
theorem accounted_runNext (hs : Accounted s) {task : Task α β} {e : Executor (Task α β)}
    (hnext : (s.executors x).next = some (task, e)) :
    Accounted ({ s with executors := Function.update s.executors x e }.runTask x task) := by
  cases task with
  | request handler msgInfo request =>
    obtain ⟨i, hi⟩ : ∃ i, Task.invocation x (.request handler msgInfo request : Task α β) = some i := ⟨_, rfl⟩
    have hpath : i.executor = some x := by
      obtain rfl := Option.some.inj hi
      rfl
    have hfront := queueOf_next (f := Task.invocation) hnext
    rw [hi] at hfront
    have hstart := Books.start hs (queueOf Task.invocation (Function.update s.executors x e)) i (by rw [hpath, hfront]; rfl)
      (fun p hp => queueOf_of_ne (hpath ▸ hp))
    have hbooks := hstart.congr (fun _ => rfl) (queueOf_next_none (f := Task.delivers) hnext rfl)
    obtain rfl := Option.some.inj hi
    simpa [Accounted, runTask, startHandler, record, List.map_append] using hbooks
  | response response =>
    obtain ⟨r, hr⟩ : ∃ r, Task.delivers x (.response response : Task α β) = some r := ⟨_, rfl⟩
    have hpath : r.executor = some x := by
      obtain rfl := Option.some.inj hr
      rfl
    have hfront := queueOf_next (f := Task.delivers) hnext
    rw [hr] at hfront
    have hdeliver := Books.deliver hs (queueOf Task.delivers (Function.update s.executors x e)) r (by rw [hpath, hfront]; rfl)
      (fun p hp => queueOf_of_ne (hpath ▸ hp))
    have hbooks := hdeliver.congr (queueOf_next_none (f := Task.invocation) hnext rfl) (fun _ => rfl)
    obtain rfl := Option.some.inj hr
    exact hbooks

/-- A result is invoked: the value is handed over at once, or enqueued. -/
theorem accounted_operatorCall (hs : Accounted s) {i : Nat} {r : CallbackResult} (hr : s.outstanding[i]? = some r) (value : β) :
    Accounted ({ s with outstanding := s.outstanding.eraseIdx i }.operatorCall r value) := by
  obtain ⟨hlt, hget⟩ := List.getElem?_eq_some_iff.mp hr
  obtain ⟨response, hresponse⟩ : ∃ response : Response β, response = ⟨r.receivingExecutor, value, r.callback, r.lifetime⟩ :=
    ⟨_, rfl⟩
  have hticket : (s.outstanding.map CallbackResult.ticket).Perm
      (response.ticket :: (s.outstanding.eraseIdx i).map CallbackResult.ticket) := by
    have hperm := (List.getElem_cons_eraseIdx_perm hlt).map CallbackResult.ticket
    rw [hget] at hperm
    rw [hresponse]
    exact hperm.symm
  cases hx : r.receivingExecutor with
  | none =>
    have hpath : response.executor = none := by rw [hresponse, ← hx]
    have hresolve := Books.resolve hs (Function.update (queueOf Task.delivers s.executors) none [response]) response hticket
      (by rw [hpath, Function.update_self]; rfl) (fun p hp => Function.update_of_ne (hpath ▸ hp) ..)
    have hbooks := hresolve.deliver (queueOf Task.delivers s.executors) response
      (by rw [hpath, Function.update_self]; rfl) (fun p hp => (Function.update_of_ne (hpath ▸ hp) ..).symm)
    rw [hresponse, hx] at hbooks
    simp only [operatorCall, AnswerPorts.operatorCall, hx]
    split <;> exact hbooks
  | some x =>
    have hpath : response.executor = some x := by rw [hresponse, ← hx]
    obtain ⟨task, htask⟩ : ∃ task : Task α β, task = .response ⟨value, r.callback, r.lifetime⟩ := ⟨_, rfl⟩
    have hdelivers : Task.delivers x task = some response := by rw [htask, hresponse, hx]; rfl
    have hresolve := Books.resolve hs (queueOf Task.delivers (Function.update s.executors x
      ((s.executors x).enqueueWork task))) response hticket (by rw [hpath, queueOf_enqueue, hdelivers]; rfl)
      (fun p hp => queueOf_of_ne (hpath ▸ hp))
    have hnone : Task.invocation x task = none := by rw [htask]; rfl
    have hbooks := hresolve.congr (queueOf_enqueue_none hnone) (fun _ => rfl)
    rw [htask, hresponse, hx] at hbooks
    simp only [operatorCall, AnswerPorts.operatorCall, hx]
    exact hbooks

theorem accounted_step {a : AsyncAction α β} (hs : Accounted s) (h : s.step a = some s') : Accounted s' := by
  cases a with
  | call sender found msgInfo arguments lifetime =>
    simp only [step] at h
    split at h
    · rename_i hepoch
      exact accounted_execute hs hepoch h
    · cases h
  | startBatch x =>
    simp only [step] at h
    split at h
    · rename_i hempty
      obtain rfl := Option.some.inj h
      exact accounted_pending hs (Executor.pending_swap (List.isEmpty_iff.mp hempty))
    · cases h
  | runNext x =>
    simp only [step] at h
    split at h
    · rename_i task e hnext
      obtain rfl := Option.some.inj h
      exact accounted_runNext hs hnext
    · cases h
  | finishBatch x =>
    simp only [step] at h
    split at h
    · cases h
    · rename_i hnone
      obtain rfl := Option.some.inj h
      exact accounted_pending hs (Executor.pending_clear hnone)
  | resolve i value =>
    simp only [step] at h
    split at h
    · rename_i r hr
      obtain rfl := Option.some.inj h
      exact accounted_operatorCall hs hr value
    · cases h
  | reset l =>
    obtain rfl := Option.some.inj h
    exact Books.reset hs l
  | setListener c listener =>
    obtain rfl := Option.some.inj h
    exact hs

/-! ## What the accounts say -/

section Books

variable {h : List (HistoryEntry α β)} {lifetimes : Lifetimes} {callbacks : Nat}
  {requests : Option ExecutorId → List (Invocation α)} {outstanding : List Ticket}
  {responses : Option ExecutorId → List (Response β)}

theorem nodup_issued (hb : Books h lifetimes callbacks requests outstanding responses) :
    ((issued h).map fun i => i.result.callback).Nodup := by
  rw [hb.callbacks]
  exact List.nodup_range

theorem nodup_started (hb : Books h lifetimes callbacks requests outstanding responses) :
    ((started h).map fun i => i.result.callback).Nodup :=
  hb.requests.nodup_map_left (nodup_issued hb)

theorem nodup_resolved (hb : Books h lifetimes callbacks requests outstanding responses) :
    ((resolved h).map Response.callback).Nodup := by
  have htickets := hb.results.map Ticket.callback
  have hstarted := nodup_started hb
  rw [List.map_map, List.map_append, List.map_map] at htickets
  exact (List.nodup_append.mp (htickets.nodup_iff.mp hstarted)).2.1

theorem nodup_callbacksStarted (hb : Books h lifetimes callbacks requests outstanding responses) :
    ((callbacksStarted h).map Response.callback).Nodup :=
  ((callbacksStarted_sublist h).map Response.callback).nodup (hb.responses.nodup_map_left (nodup_resolved hb))

/-- A result, outstanding or invoked, is bound to the lifetime of the call whose callback it carries. -/
theorem lifetime_of_ticket (hb : Books h lifetimes callbacks requests outstanding responses) {k : Ticket} {c : Call α}
    (hk : k ∈ outstanding ++ (resolved h).map Response.ticket) (hc : .issued c ∈ h) (heq : k.callback = c.callback) :
    k.lifetime = c.lifetime := by
  obtain ⟨i, hi, rfl⟩ := List.mem_map.mp (hb.results.mem_iff.mpr hk)
  have hsame : i = c.invocation := List.inj_on_of_nodup_map (nodup_issued hb) (hb.requests.entered_of_left hi)
    (mem_issued.mpr ⟨c, hc, rfl⟩) heq
  rw [hsame]
  rfl

theorem resets_append (h h' : List (HistoryEntry α β)) (l : LifetimeId) : resets (h ++ h') l = resets h l + resets h' l :=
  List.countP_append

theorem resets_eq_zero {l : LifetimeId} : resets h l = 0 ↔ .reset l ∉ h := by
  rw [resets, List.countP_eq_zero]
  constructor
  · intro hall hmem
    exact hall _ hmem (by simp)
  · intro hnot e he
    cases e with
    | reset l' =>
      have hne : l' ≠ l := fun heq => hnot (heq ▸ he)
      simp [hne]
    | issued | handlerStarted | resolved | delivered => exact Bool.false_ne_true

/-- Whether a delivered response starts the callback, told from the resets between the call and the delivery. -/
theorem callbackStarted_iff (hb : Books h lifetimes callbacks requests outstanding responses)
    {pre mid post : List (HistoryEntry α β)} {c : Call α} {r : Response β} {b : Bool}
    (hh : h = pre ++ .issued c :: mid ++ .delivered r b :: post) (heq : r.callback = c.callback) :
    b = true ↔ resets pre c.lifetime.lifetime + resets mid c.lifetime.lifetime ≤ c.lifetime.epoch := by
  obtain ⟨hresolved, hb'⟩ := hb.justified (pre ++ .issued c :: mid) _ post hh
  have hmem : .resolved r ∈ h := by
    rw [hh]
    exact List.mem_append_left _ hresolved
  have hlife : r.lifetime = c.lifetime :=
    lifetime_of_ticket hb (k := r.ticket) (List.mem_append_right _ (List.mem_map_of_mem (mem_resolved.mpr hmem)))
      (by rw [hh]; simp) heq
  have hmid : resets (pre ++ .issued c :: mid) c.lifetime.lifetime =
      resets pre c.lifetime.lifetime + resets mid c.lifetime.lifetime := by
    rw [resets_append]
    rfl
  rw [hb', hlife, hmid, decide_eq_true_eq]

end Books

theorem reliable_of_accounted (hs : Accounted s) : Reliable s where
  justified := hs.justified
  distinct := nodup_issued hs
  handler_once := nodup_started hs
  drained := hs.requests
  resolved_once := nodup_resolved hs
  callback_once := nodup_callbacksStarted hs
  canceled pre c mid r post hh heq := by
    have hepoch : c.lifetime.epoch ≤ resets pre c.lifetime.lifetime :=
      hs.justified pre (.issued c) (mid ++ .delivered r true :: post) (by rw [hh]; simp)
    have hle := (callbackStarted_iff hs hh heq).mp rfl
    exact resets_eq_zero.mp (by omega)
  not_lost r hr := by
    rcases hs.responses.left_or_queued (mem_resolved.mpr hr) with hleft | hqueue
    · exact Or.inl (mem_delivered.mp hleft)
    · exact Or.inr hqueue
  in_order client x := by
    have hprefix := (hs.requests.isPrefix (some x)).filter fun i => decide (i.result.targetComponent = client)
    rwa [List.filter_filter, List.filter_filter] at hprefix

end AsyncAux

open AsyncSystem AsyncAux

/-- In every state of every run: each handler was started at most once, with the tuple its call was given, and has been started unless
its request is still pending; each callback was started at most once, with the one value its result was given before, and not
after its lifetime was reset; a value that was given to a result has been delivered or is pending, and when it is delivered with
the lifetime unexpired the callback is started; and the requests of a client to an executor start in order. -/
theorem asyncQuery_reliable (component : ComponentId → Component) {acts : List (AsyncAction α β)} {s : AsyncSystem α β}
    (h : run step (init component) acts = some s) : Reliable s :=
  reliable_of_accounted (run_invariant (fun _ _ _ => accounted_step) (accounted_init component) h)

/-- A call from executor 0 to executor 1 and back. -/
def roundTrip : List (AsyncAction Nat Nat) :=
  [.call 0 (some ⟨1, 70, 1, false⟩) 7 5 ⟨0, 0⟩, .startBatch 1, .runNext 1, .resolve 0 10, .finishBatch 1, .startBatch 0,
    .runNext 0, .finishBatch 0]

/-- On that run the callback is started with the answer. -/
example : ((run step (init fun c => { defaultExecutor := c }) roundTrip).map fun s => (callbacksStarted s.history).map Response.result) =
    some [10] := rfl

end Minicomps
