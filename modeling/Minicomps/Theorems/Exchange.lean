import Minicomps.Exchange
import Minicomps.Theorems.QueryArguments

/-!
# Direct and enqueued calls agree

At any point of a run the calls that have been made are split into those that have been answered, the one the handler is running
for, and those that wait on the receiver's executor; and the answers into those whose callbacks have been called and those that wait
on the client's. Once nothing waits any more, what can be seen of the run is what the handler does to the lists of values it has read. These
are those of the calls, if no variable has changed while a request waited.
-/

namespace Minicomps

namespace Exchange

open Transition

variable {σ α β γ : Type*} {x : Exchange σ α β} {component : ComponentId → Component} {memory : VariableId → α} {start : σ}
  {s s' : ExchangeState σ α β}

/-- What can be seen of a run: the invocations of the handler, the receiver's state, and the values the callbacks were called
with, all in order. -/
structure Outcome (σ α β : Type*) where
  invocations : List (HandlerId × List α)
  state : σ
  callbackValues : List (CallbackId × β)

/-- What can be seen of the run so far. -/
def outcome (s : ExchangeState σ α β) : Outcome σ α β where
  invocations := ((started s.system.system.history).map Invocation.handler).zip s.system.received
  state := s.state
  callbackValues := (callbacksStarted s.system.system.history).map fun r => (r.callback, r.result)

/-- What the handler does to the arguments of calls. -/
def expected (x : Exchange σ α β) (start : σ) (args : List (List α)) : Outcome σ α β where
  invocations := args.map fun a => (x.handlerId, a)
  state := (x.serve start args).1
  callbackValues := (List.range args.length).zip (x.serve start args).2

namespace ExchangeAux

/-! ## The handler, on a list of calls -/

theorem length_serve (state : σ) (args : List (List α)) : (x.serve state args).2.length = args.length := by
  induction args generalizing state with
  | nil => rfl
  | cons a rest ih => simp [serve, ih]

/-- One more call is handled in the state the others have left. -/
theorem serve_snoc (state : σ) (args : List (List α)) (a : List α) :
    x.serve state (args ++ [a]) = ((x.handler (x.serve state args).1 a).1,
      (x.serve state args).2 ++ [(x.handler (x.serve state args).1 a).2]) := by
  induction args generalizing state with
  | nil => rfl
  | cons b rest ih => simp [serve, ih]

/-! ## The invariant -/

/-- A call that has been made: its arguments, and its number. -/
abbrev MadeCall (α : Type*) := List (PassedArgument α) × Nat

/-- The values it was given. -/
def MadeCall.values (call : MadeCall α) : List α := call.1.map PassedArgument.value

/-- The executor of the client, and that of the receiver. -/
def clientExecutor (x : Exchange σ α β) (component : ComponentId → Component) : ExecutorId :=
  (component x.client).defaultExecutor

def receiverExecutor (x : Exchange σ α β) (component : ComponentId → Component) : ExecutorId :=
  (component x.receiver).defaultExecutor

/-- The `callback_result` of a call. -/
def result (x : Exchange σ α β) (component : ComponentId → Component) (call : MadeCall α) : CallbackResult where
  receivingExecutor := if (x.found component).mutualExecutor then none else some (clientExecutor x component)
  lifetime := ⟨x.lifetime, 0⟩
  targetComponent := x.client
  senderComponent := x.receiver
  msgInfo := x.msgInfo
  callback := call.2

/-- The request of a call that is enqueued. -/
def request (x : Exchange σ α β) (component : ComponentId → Component) (call : MadeCall α) : Task (List (PassedArgument α)) β :=
  .request x.handlerId x.msgInfo
    { arguments := call.1, callback := call.2, receiverExecutor := clientExecutor x component, lifetime := ⟨x.lifetime, 0⟩,
      receiver := x.client, sender := x.receiver }

/-- The response that carries a call's answer back. -/
def response (x : Exchange σ α β) (answer : Nat × β) : Task (List (PassedArgument α)) β :=
  .response { result := answer.2, callback := answer.1, lifetime := ⟨x.lifetime, 0⟩ }

/-- What waits on an executor, with these calls and these answers on their way. -/
def waits (x : Exchange σ α β) (component : ComponentId → Component) (queued : List (MadeCall α)) (waiting : List (Nat × β))
    (e : ExecutorId) : List (Task (List (PassedArgument α)) β) :=
  (if e = receiverExecutor x component then queued.map (request x component) else []) ++
    if e = clientExecutor x component then waiting.map (response x) else []

/-- The calls that have been made, numbered, are those that have been answered, the one the handler is running for, and those that
are queued; the answers are those that have been delivered and those that wait. -/
structure Ledger (x : Exchange σ α β) (component : ComponentId → Component) (start : σ) (s : ExchangeState σ α β)
    (answered hand queued : List (MadeCall α)) (values : List β) (delivered waiting : List (Nat × β)) : Prop where
  components : s.system.system.component = component
  lifetimes : ∀ l, s.system.system.lifetimes l = 0
  callbacks : s.system.system.callbacks = s.sent
  calls : (answered ++ hand ++ queued).map MadeCall.values = x.calls.take s.sent
  numbers : (answered ++ hand ++ queued).map Prod.snd = List.range s.sent
  received : s.system.received.length = (answered ++ hand).length
  served : x.serve start s.system.received = (s.state, values ++ s.answering.toList)
  valued : values.length = answered.length
  outstanding : s.system.system.outstanding = hand.map (result x component)
  pending : ∀ e, (s.system.system.executors e).pending = waits x component queued waiting e
  direct : (x.found component).mutualExecutor = true → queued = [] ∧ waiting = []
  handlers : (started s.system.system.history).map Invocation.handler = s.system.received.map fun _ => x.handlerId
  callbackValues : (outcome s).callbackValues = delivered
  answers : delivered ++ waiting = (answered.map Prod.snd).zip values

/-- The invariant of a run. -/
def Inv (x : Exchange σ α β) (component : ComponentId → Component) (start : σ) (s : ExchangeState σ α β) : Prop :=
  ∃ answered hand queued values delivered waiting, Ledger x component start s answered hand queued values delivered waiting

theorem inv_init : Inv x component start (init component memory start) := by
  refine ⟨[], [], [], [], [], [], ?_⟩
  exact { components := rfl, lifetimes := fun _ => rfl, callbacks := rfl, calls := rfl, numbers := rfl, received := rfl, served := rfl,
          valued := rfl, outstanding := rfl,
          pending := fun e => by simp [waits, init, ArgumentSystem.init, AsyncSystem.init, Executor.pending, Executor.rest],
          direct := fun _ => ⟨rfl, rfl⟩, handlers := rfl, callbackValues := rfl, answers := rfl }

section Steps

variable {answered hand queued : List (MadeCall α)} {values : List β} {delivered waiting : List (Nat × β)}

/-- The handler is running for a call exactly when it has not answered it yet. -/
theorem Ledger.length_hand (h : Ledger x component start s answered hand queued values delivered waiting) :
    hand.length = s.answering.toList.length := by
  have hlen := length_serve (x := x) start s.system.received
  rw [h.served, h.received, List.length_append, List.length_append, h.valued] at hlen
  omega

theorem Ledger.hand_nil (h : Ledger x component start s answered hand queued values delivered waiting) (hs : s.answering = none) :
    hand = [] := by
  have hlen := h.length_hand
  rw [hs] at hlen
  exact List.eq_nil_of_length_eq_zero hlen

/-- The arguments of the first queued call are those of the call that comes after the ones received. -/
theorem Ledger.next_call {call : MadeCall α} (h : Ledger x component start s answered hand (call :: queued) values delivered waiting) :
    x.calls[s.system.received.length]? = some call.values := by
  have hcalls := congrArg (·[s.system.received.length]?) h.calls
  have hnext : s.system.received.length < s.sent ∧ x.calls[s.system.received.length]? = some call.values := by
    simpa [h.received, List.getElem?_take] using hcalls.symm
  exact hnext.2

/-- Where calls are direct, each has been received. -/
theorem Ledger.sent_of_direct (h : Ledger x component start s answered hand queued values delivered waiting)
    (hmutual : (x.found component).mutualExecutor = true) : s.system.received.length = s.sent := by
  have hlen := congrArg List.length h.numbers
  rw [(h.direct hmutual).1, List.append_nil, List.length_map, List.length_range] at hlen
  exact h.received.trans hlen

/-- An executor changes its vectors, but not what is pending. -/
theorem inv_pending (h : Inv x component start s) {e : ExecutorId} {q : Executor (Task (List (PassedArgument α)) β)}
    (hq : q.pending = (s.system.system.executors e).pending) :
    Inv x component start
      { s with system := { s.system with
          system := { s.system.system with executors := Function.update s.system.system.executors e q } } } := by
  obtain ⟨answered, hand, queued, values, delivered, waiting, h⟩ := h
  refine ⟨answered, hand, queued, values, delivered, waiting, { h with pending := ?_ }⟩
  intro e'
  by_cases he : e' = e
  · subst he
    simpa [hq] using h.pending e'
  · simpa [he] using h.pending e'

/-- The handler starts on a call when it has answered all earlier ones. -/
theorem Ledger.served_runHandler (h : Ledger x component start s answered [] queued values delivered waiting)
    (hidle : s.answering = none) (args : List α) :
    x.serve start (s.system.received ++ [args]) =
      ((x.handler s.state args).1, values ++ [(x.handler s.state args).2]) := by
  rw [serve_snoc, h.served, hidle]
  simp

/-- The client's next call. -/
theorem take_sent {n : Nat} {a : List α} (ha : x.calls[n]? = some a) : x.calls.take (n + 1) = x.calls.take n ++ [a] := by
  rw [List.take_add_one, ha]
  rfl

/-- What waits on the executors without the first of the requests, or the first of the responses. -/
theorem pending_next (h : Ledger x component start s answered hand queued values delivered waiting) {e : ExecutorId}
    {task : Task (List (PassedArgument α)) β} {q : Executor (Task (List (PassedArgument α)) β)}
    (hnext : (s.system.system.executors e).next = some (task, q)) :
    (∃ call rest, queued = call :: rest ∧ e = receiverExecutor x component ∧ task = request x component call ∧
      ∀ e', (Function.update s.system.system.executors e q e').pending = waits x component rest waiting e') ∨
    ∃ answer rest, waiting = answer :: rest ∧ task = response x answer ∧
      ∀ e', (Function.update s.system.system.executors e q e').pending = waits x component queued rest e' := by
  have hfront : waits x component queued waiting e = task :: q.pending := by rw [← h.pending e, Executor.pending_next hnext]
  have hne : receiverExecutor x component ≠ clientExecutor x component := by
    intro heq
    obtain ⟨rfl, rfl⟩ := h.direct (decide_eq_true heq.symm)
    simp [waits] at hfront
  by_cases hr : e = receiverExecutor x component
  · subst hr
    left
    simp only [waits, if_true, if_neg hne, List.append_nil] at hfront
    obtain ⟨call, rest, rfl, hcall, hrest⟩ := List.map_eq_cons_iff.mp hfront
    refine ⟨call, rest, rfl, rfl, hcall.symm, ?_⟩
    intro e'
    by_cases he : e' = receiverExecutor x component
    · subst he
      simp [waits, hne, hrest]
    · rw [Function.update_of_ne he, h.pending e']
      simp [waits, he]
  · right
    by_cases hc : e = clientExecutor x component
    · subst hc
      simp only [waits, if_true, if_neg hr, List.nil_append] at hfront
      obtain ⟨answer, rest, rfl, hanswer, hrest⟩ := List.map_eq_cons_iff.mp hfront
      refine ⟨answer, rest, rfl, hanswer.symm, ?_⟩
      intro e'
      by_cases he : e' = clientExecutor x component
      · subst he
        simp [waits, hr, hrest]
      · rw [Function.update_of_ne he, h.pending e']
        simp [waits, he]
    · simp [waits, hr, hc] at hfront

/-- Where calls are not direct, the two executors are different ones. -/
theorem receiverExecutor_ne (hmutual : ¬(x.found component).mutualExecutor = true) :
    receiverExecutor x component ≠ clientExecutor x component := fun heq => hmutual (decide_eq_true heq.symm)

variable {executors : ExecutorId → Executor (Task (List (PassedArgument α)) β)}

/-- A request is enqueued. -/
theorem pending_request (h : ∀ e, (executors e).pending = waits x component queued waiting e)
    (hmutual : ¬(x.found component).mutualExecutor = true) (call : MadeCall α) (e : ExecutorId) :
    (Function.update executors (receiverExecutor x component)
        ((executors (receiverExecutor x component)).enqueueWork (request x component call)) e).pending =
      waits x component (queued ++ [call]) waiting e := by
  by_cases he : e = receiverExecutor x component
  · subst he
    have hpending := h (receiverExecutor x component)
    simp only [waits, if_true, if_neg (receiverExecutor_ne hmutual), List.append_nil] at hpending ⊢
    rw [Function.update_self, Executor.pending_enqueueWork, hpending, List.map_append, List.map_singleton]
  · rw [Function.update_of_ne he, h e]
    simp only [waits, if_neg he]

/-- A response is enqueued. -/
theorem pending_response (h : ∀ e, (executors e).pending = waits x component queued waiting e)
    (hmutual : ¬(x.found component).mutualExecutor = true) (answer : Nat × β) (e : ExecutorId) :
    (Function.update executors (clientExecutor x component)
        ((executors (clientExecutor x component)).enqueueWork (response x answer)) e).pending =
      waits x component queued (waiting ++ [answer]) e := by
  by_cases he : e = clientExecutor x component
  · subst he
    have hpending := h (clientExecutor x component)
    simp only [waits, if_true, if_neg (receiverExecutor_ne hmutual).symm, List.nil_append] at hpending ⊢
    rw [Function.update_self, Executor.pending_enqueueWork, hpending, List.map_append, List.map_singleton]
  · rw [Function.update_of_ne he, h e]
    simp only [waits, if_neg he]

/-- One more call has been made. -/
theorem Ledger.made_call (h : Ledger x component start s answered hand queued values delivered waiting) {call : MadeCall α}
    (hcall : x.calls[s.sent]? = some call.values) (hnumber : call.2 = s.sent) :
    (answered ++ hand ++ queued ++ [call]).map MadeCall.values = x.calls.take (s.sent + 1) ∧
      (answered ++ hand ++ queued ++ [call]).map Prod.snd = List.range (s.sent + 1) := by
  refine ⟨?_, ?_⟩
  · rw [List.map_append, h.calls, take_sent hcall, List.map_singleton]
  · rw [List.map_append, h.numbers, List.range_succ, List.map_singleton, hnumber]

/-- The call in hand has been answered. -/
theorem Ledger.answered_call {call : MadeCall α} {value : β}
    (h : Ledger x component start s answered [call] queued values delivered waiting) (hans : s.answering = some value) :
    x.serve start s.system.received = (s.state, values ++ [value]) ∧
      delivered ++ waiting ++ [(call.2, value)] = ((answered ++ [call]).map Prod.snd).zip (values ++ [value]) := by
  have hlen : (answered.map Prod.snd).length = values.length := by rw [List.length_map, h.valued]
  refine ⟨?_, ?_⟩
  · rw [h.served, hans, Option.toList_some]
  · rw [List.map_append, List.zip_append hlen, h.answers, List.map_singleton]
    rfl

/-- The request that an executor runs next is that of the first queued call. -/
theorem next_call_of_nextRequest (h : Inv x component start s) {e : ExecutorId} {passed : List (PassedArgument α)}
    (hnext : s.system.nextRequest e = some passed) :
    x.calls[s.system.received.length]? = some (passed.map PassedArgument.value) ∧ (x.found component).mutualExecutor = false := by
  obtain ⟨answered, hand, queued, values, delivered, waiting, h⟩ := h
  unfold ArgumentSystem.nextRequest at hnext
  split at hnext
  swap
  · cases hnext
  rename_i hq
  rcases pending_next h hq with ⟨call, rest, rfl, -, htask, -⟩ | ⟨answer, rest, -, htask, -⟩
  · cases htask
    obtain rfl := Option.some.inj hnext
    refine ⟨h.next_call, ?_⟩
    by_contra hmutual
    cases (h.direct (Bool.not_eq_false _ ▸ hmutual)).1
  · cases htask

/-- The handler starts on the client's next call. -/
theorem inv_callDirectly (h : Ledger x component start s answered hand queued values delivered waiting) {arguments : List Argument}
    {system : AsyncSystem (List (PassedArgument α)) β}
    (ha : x.calls[s.sent]? = some (arguments.map fun a => s.system.memory a.storage)) (hidle : s.answering = none)
    (hmutual : (x.found component).mutualExecutor = true)
    (hexec : s.system.system.execute x.client (some (x.found component)) x.msgInfo (passArguments s.system.memory arguments)
      ⟨x.lifetime, 0⟩ = some system) :
    Inv x component start (x.runHandler
      { s with
        system := { s.system with system }.receive (passArguments s.system.memory arguments)
        sent := s.sent + 1 } (readArguments s.system.memory (passArguments s.system.memory arguments))) := by
  obtain rfl := h.components
  obtain ⟨rfl, rfl⟩ := h.direct hmutual
  obtain rfl := h.hand_nil hidle
  have hvalues : MadeCall.values (passArguments s.system.memory arguments, s.sent) = arguments.map fun a => s.system.memory a.storage :=
    values_passArguments s.system.memory arguments
  obtain ⟨hcalls, hnumbers⟩ := h.made_call (hvalues ▸ ha) rfl
  simp only [AsyncSystem.execute, RequestPorts.execute, if_pos hmutual] at hexec
  obtain rfl := Option.some.inj hexec
  refine ⟨answered, [(passArguments s.system.memory arguments, s.sent)], [], values, delivered, [], ?_⟩
  exact {
    components := rfl
    lifetimes := h.lifetimes
    callbacks := congrArg (· + 1) h.callbacks
    calls := by simpa using hcalls
    numbers := by simpa using hnumbers
    received := by simpa [runHandler, ArgumentSystem.receive] using h.received
    served := h.served_runHandler hidle _
    valued := h.valued
    outstanding := by
      simp [runHandler, ArgumentSystem.receive, AsyncSystem.startHandler, AsyncSystem.notifyListener, AsyncSystem.record,
        h.outstanding, result, hmutual, h.callbacks]
    pending := h.pending
    direct := fun _ => ⟨rfl, rfl⟩
    handlers := by
      have hold := h.handlers
      simp [runHandler, ArgumentSystem.receive, AsyncSystem.startHandler, AsyncSystem.notifyListener, AsyncSystem.record, started,
        ← hold]
    callbackValues := by
      rw [← h.callbackValues]
      simp [outcome, runHandler, ArgumentSystem.receive, AsyncSystem.startHandler, AsyncSystem.notifyListener, AsyncSystem.record,
        callbacksStarted]
    answers := h.answers }

/-- The request of the client's next call is enqueued behind the others. -/
theorem inv_callEnqueued (h : Ledger x component start s answered hand queued values delivered waiting) {arguments : List Argument}
    {system : AsyncSystem (List (PassedArgument α)) β}
    (ha : x.calls[s.sent]? = some (arguments.map fun a => s.system.memory a.storage))
    (hmutual : ¬(x.found component).mutualExecutor = true)
    (hexec : s.system.system.execute x.client (some (x.found component)) x.msgInfo (passArguments s.system.memory arguments)
      ⟨x.lifetime, 0⟩ = some system) :
    Inv x component start { s with system := { s.system with system }, sent := s.sent + 1 } := by
  obtain rfl := h.components
  have hvalues : MadeCall.values (passArguments s.system.memory arguments, s.sent) = arguments.map fun a => s.system.memory a.storage :=
    values_passArguments s.system.memory arguments
  obtain ⟨hcalls, hnumbers⟩ := h.made_call (hvalues ▸ ha) rfl
  have hpending := pending_request h.pending hmutual (passArguments s.system.memory arguments, s.sent)
  simp only [AsyncSystem.execute, RequestPorts.execute, if_neg hmutual] at hexec
  obtain rfl := Option.some.inj hexec
  refine ⟨answered, hand, queued ++ [(passArguments s.system.memory arguments, s.sent)], values, delivered, waiting, ?_⟩
  exact {
    components := rfl
    lifetimes := h.lifetimes
    callbacks := congrArg (· + 1) h.callbacks
    calls := by simpa using hcalls
    numbers := by simpa using hnumbers
    received := h.received
    served := h.served
    valued := h.valued
    outstanding := h.outstanding
    pending := by
      rw [← h.callbacks] at hpending ⊢
      exact hpending
    direct := fun hm => absurd hm hmutual
    handlers := by
      rw [← h.handlers]
      simp [AsyncSystem.notifyListener, AsyncSystem.enqueueWork, AsyncSystem.record, started]
    callbackValues := by
      rw [← h.callbackValues]
      simp [outcome, AsyncSystem.notifyListener, AsyncSystem.enqueueWork, AsyncSystem.record, callbacksStarted]
    answers := h.answers }

/-- The handler starts on the first queued call. -/
theorem inv_runRequest {call : MadeCall α} {e : ExecutorId} {q : Executor (Task (List (PassedArgument α)) β)}
    (h : Ledger x component start s answered hand (call :: queued) values delivered waiting) (hidle : s.answering = none)
    (hpending : ∀ e', (Function.update s.system.system.executors e q e').pending = waits x component queued waiting e') :
    Inv x component start (x.runHandler
      { s with
        system := { s.system with
          system := { s.system.system with executors := Function.update s.system.system.executors e q }.runTask e
            (request x component call) }.receive call.1 }
      (readArguments s.system.memory call.1)) := by
  obtain rfl := h.components
  obtain rfl := h.hand_nil hidle
  have hqueued : ¬(x.found s.system.system.component).mutualExecutor = true := fun hm => by
    cases (h.direct hm).1
  refine ⟨answered, [call], queued, values, delivered, waiting, ?_⟩
  exact {
    components := rfl
    lifetimes := h.lifetimes
    callbacks := h.callbacks
    calls := by simpa using h.calls
    numbers := by simpa using h.numbers
    received := by simpa [runHandler, ArgumentSystem.receive] using h.received
    served := h.served_runHandler hidle _
    valued := h.valued
    outstanding := by
      simp [runHandler, ArgumentSystem.receive, AsyncSystem.runTask, AsyncSystem.startHandler, AsyncSystem.record, h.outstanding,
        request, result, hqueued]
    pending := hpending
    direct := fun hm => absurd hm hqueued
    handlers := by
      have hold := h.handlers
      simp [runHandler, ArgumentSystem.receive, request, AsyncSystem.runTask, AsyncSystem.startHandler, AsyncSystem.record, started,
        ← hold]
    callbackValues := by
      rw [← h.callbackValues]
      simp [outcome, runHandler, ArgumentSystem.receive, request, AsyncSystem.runTask, AsyncSystem.startHandler, AsyncSystem.record,
        callbacksStarted]
    answers := h.answers }

/-- The first waiting answer is delivered. -/
theorem inv_runResponse {answer : Nat × β} {e : ExecutorId} {q : Executor (Task (List (PassedArgument α)) β)}
    (h : Ledger x component start s answered hand queued values delivered (answer :: waiting))
    (hpending : ∀ e', (Function.update s.system.system.executors e q e').pending = waits x component queued waiting e') :
    Inv x component start
      { s with
        system := { s.system with
          system := { s.system.system with executors := Function.update s.system.system.executors e q }.runTask e (response x answer) } } := by
  obtain rfl := h.components
  have halive : s.system.system.lifetimes.expired ⟨x.lifetime, 0⟩ = false := by simp [Lifetimes.expired, h.lifetimes]
  refine ⟨answered, hand, queued, values, delivered ++ [answer], waiting, ?_⟩
  exact {
    components := rfl
    lifetimes := h.lifetimes
    callbacks := h.callbacks
    calls := h.calls
    numbers := h.numbers
    received := h.received
    served := h.served
    valued := h.valued
    outstanding := h.outstanding
    pending := hpending
    direct := fun hm => by cases (h.direct hm).2
    handlers := by
      rw [← h.handlers]
      simp [response, AsyncSystem.runTask, AsyncSystem.deliver, AsyncSystem.record, started]
    callbackValues := by
      rw [← h.callbackValues]
      simp [outcome, response, AsyncSystem.runTask, AsyncSystem.deliver, AsyncSystem.record, callbacksStarted, halive]
    answers := by rw [List.append_assoc]; exact h.answers }

/-- The answer to the call in hand waits behind the others. -/
theorem inv_answerEnqueued {call : MadeCall α} {value : β}
    (h : Ledger x component start s answered [call] queued values delivered waiting) (hans : s.answering = some value)
    (hmutual : ¬(x.found component).mutualExecutor = true) :
    Inv x component start
      { s with
        system := { s.system with system := { s.system.system with outstanding := [] }.operatorCall (result x component call) value }
        answering := none } := by
  obtain rfl := h.components
  obtain ⟨hserved, hanswers⟩ := h.answered_call hans
  have hpending := pending_response h.pending hmutual (call.2, value)
  simp only [AsyncSystem.operatorCall, AnswerPorts.operatorCall, result, if_neg hmutual]
  refine ⟨answered ++ [call], [], queued, values ++ [value], delivered, waiting ++ [(call.2, value)], ?_⟩
  exact {
    components := rfl
    lifetimes := h.lifetimes
    callbacks := h.callbacks
    calls := by simpa using h.calls
    numbers := by simpa using h.numbers
    received := by simpa using h.received
    served := by rw [hserved]; simp
    valued := by simp [h.valued]
    outstanding := rfl
    pending := hpending
    direct := fun hm => absurd hm hmutual
    handlers := by
      rw [← h.handlers]
      simp [AsyncSystem.notifyListener, AsyncSystem.enqueueWork, AsyncSystem.record, started]
    callbackValues := by
      rw [← h.callbackValues]
      simp [outcome, AsyncSystem.notifyListener, AsyncSystem.enqueueWork, AsyncSystem.record, callbacksStarted]
    answers := by rw [← List.append_assoc, hanswers] }

/-- The callback is called with the answer to the call in hand. -/
theorem inv_answerDirectly {call : MadeCall α} {value : β}
    (h : Ledger x component start s answered [call] queued values delivered waiting) (hans : s.answering = some value)
    (hmutual : (x.found component).mutualExecutor = true) :
    Inv x component start
      { s with
        system := { s.system with system := { s.system.system with outstanding := [] }.operatorCall (result x component call) value }
        answering := none } := by
  obtain rfl := h.components
  obtain ⟨rfl, rfl⟩ := h.direct hmutual
  obtain ⟨hserved, hanswers⟩ := h.answered_call hans
  have halive : s.system.system.lifetimes.expired ⟨x.lifetime, 0⟩ = false := by simp [Lifetimes.expired, h.lifetimes]
  simp only [AsyncSystem.operatorCall, AnswerPorts.operatorCall, result, if_pos hmutual, AsyncSystem.record, halive, Bool.false_eq_true,
    if_false]
  refine ⟨answered ++ [call], [], [], values ++ [value], delivered ++ [(call.2, value)], [], ?_⟩
  exact {
    components := rfl
    lifetimes := h.lifetimes
    callbacks := h.callbacks
    calls := by simpa using h.calls
    numbers := by simpa using h.numbers
    received := by simpa using h.received
    served := by rw [hserved]; simp
    valued := by simp [h.valued]
    outstanding := rfl
    pending := h.pending
    direct := fun _ => ⟨rfl, rfl⟩
    handlers := by
      rw [← h.handlers]
      simp [AsyncSystem.notifyListener, AsyncSystem.deliver, AsyncSystem.record, started]
    callbackValues := by
      rw [← h.callbackValues]
      simp [outcome, AsyncSystem.notifyListener, AsyncSystem.deliver, AsyncSystem.record, callbacksStarted, halive]
    answers := by rw [List.append_nil, ← hanswers, List.append_nil] }

variable [DecidableEq α]

/-- A call that can be made is the next one of the list. -/
theorem next_of_call {arguments : List Argument} (hs : x.step s (.call arguments) = some s') :
    x.calls[s.sent]? = some (arguments.map fun a => s.system.memory a.storage) := by
  simp only [step, call] at hs
  split at hs
  · cases hs
  split at hs
  · assumption
  · cases hs

/-- The client makes its next call: the handler starts on it, or the request is enqueued behind the others. -/
theorem inv_call (h : Inv x component start s) {arguments : List Argument} (hs : x.step s (.call arguments) = some s') :
    Inv x component start s' := by
  obtain ⟨answered, hand, queued, values, delivered, waiting, h⟩ := h
  obtain rfl := h.components
  have ha := next_of_call hs
  simp only [step, call, if_pos ha] at hs
  split at hs
  · cases hs
  rename_i hbusy
  obtain ⟨_, hlift, rfl⟩ := Option.map_eq_some_iff.mp hs
  obtain ⟨_, hstep, rfl⟩ := Option.map_eq_some_iff.mp hlift
  obtain ⟨_, hcall, rfl⟩ := Option.map_eq_some_iff.mp hstep
  obtain ⟨system, hexec, rfl⟩ := Option.map_eq_some_iff.mp hcall
  have hepoch : s.system.system.lifetimes.createWeakPtr x.lifetime = ⟨x.lifetime, 0⟩ := by
    rw [Lifetimes.createWeakPtr, h.lifetimes]
  simp only [AsyncSystem.step, hepoch, h.lifetimes, le_refl, if_true] at hexec
  by_cases hmutual : (x.found s.system.system.component).mutualExecutor = true
  · have hsame : (s.system.system.component x.receiver).defaultExecutor = (s.system.system.component x.client).defaultExecutor :=
      (of_decide_eq_true hmutual).symm
    have hidle : s.answering = none := by
      by_contra hans
      exact hbusy (by simp [busy, hsame, Option.isSome_iff_ne_none.mpr hans])
    have hany : (some (x.found s.system.system.component)).any Resolution.mutualExecutor = true := hmutual
    rw [if_pos hmutual, if_pos hany]
    exact inv_callDirectly h ha hidle hmutual hexec
  · have hany : ¬(some (x.found s.system.system.component)).any Resolution.mutualExecutor = true := hmutual
    rw [if_neg hmutual, if_neg hany]
    exact inv_callEnqueued h ha hmutual hexec

/-- The loop of an `execute` takes its next item: the handler starts on the first queued call, or the first waiting answer is
delivered. -/
theorem inv_runNext (h : Inv x component start s) {e : ExecutorId} (hs : x.step s (.runNext e) = some s') :
    Inv x component start s' := by
  obtain ⟨answered, hand, queued, values, delivered, waiting, h⟩ := h
  obtain rfl := h.components
  simp only [step] at hs
  split at hs
  · cases hs
  rename_i hbusy
  obtain ⟨_, hlift, rfl⟩ := Option.map_eq_some_iff.mp hs
  obtain ⟨_, hstep, rfl⟩ := Option.map_eq_some_iff.mp hlift
  obtain ⟨_, hrun, rfl⟩ := Option.map_eq_some_iff.mp hstep
  obtain ⟨system, hnext, rfl⟩ := Option.map_eq_some_iff.mp hrun
  simp only [AsyncSystem.step] at hnext
  split at hnext
  swap
  · cases hnext
  rename_i task q hq
  obtain rfl := Option.some.inj hnext
  rcases pending_next h hq with ⟨call, rest, rfl, rfl, rfl, hpending⟩ | ⟨answer, rest, rfl, rfl, hpending⟩
  · have hrequest : s.system.nextRequest (receiverExecutor x s.system.system.component) = some call.1 := by
      rw [ArgumentSystem.nextRequest, hq]
      rfl
    have hidle : s.answering = none := by
      by_contra hans
      exact hbusy (by simp [busy, receiverExecutor, Option.isSome_iff_ne_none.mpr hans])
    rw [hrequest]
    exact inv_runRequest h hidle hpending
  · have hrequest : s.system.nextRequest e = none := by
      rw [ArgumentSystem.nextRequest, hq]
      rfl
    rw [hrequest]
    exact inv_runResponse h hpending

/-- The handler answers: the callback is called with the answer, or the answer waits behind the others. -/
theorem inv_answer (h : Inv x component start s) (hs : x.step s .answer = some s') : Inv x component start s' := by
  obtain ⟨answered, hand, queued, values, delivered, waiting, h⟩ := h
  simp only [step] at hs
  split at hs
  · cases hs
  rename_i value hans
  obtain ⟨_, hlift, rfl⟩ := Option.map_eq_some_iff.mp hs
  obtain ⟨_, hstep, rfl⟩ := Option.map_eq_some_iff.mp hlift
  obtain ⟨system, hresolve, rfl⟩ := Option.map_eq_some_iff.mp hstep
  obtain ⟨call, rfl⟩ : ∃ call, hand = [call] := List.length_eq_one_iff.mp (by rw [h.length_hand, hans]; rfl)
  simp only [AsyncSystem.step, h.outstanding, List.map_cons, List.getElem?_cons_zero, List.eraseIdx_cons_zero, List.map_nil] at hresolve
  obtain rfl := Option.some.inj hresolve
  by_cases hmutual : (x.found component).mutualExecutor = true
  · exact inv_answerDirectly h hans hmutual
  · exact inv_answerEnqueued h hans hmutual

theorem inv_step (h : Inv x component start s) {a : ExchangeAction α} (hs : x.step s a = some s') : Inv x component start s' := by
  cases a with
  | assign v value =>
    simp only [step] at hs
    obtain ⟨_, hassign, rfl⟩ := Option.map_eq_some_iff.mp hs
    obtain rfl := Option.some.inj hassign
    obtain ⟨answered, hand, queued, values, delivered, waiting, h⟩ := h
    exact ⟨answered, hand, queued, values, delivered, waiting, { h with }⟩
  | call => exact inv_call h hs
  | answer => exact inv_answer h hs
  | startBatch e =>
    simp only [step] at hs
    split at hs
    · cases hs
    obtain ⟨_, hlift, rfl⟩ := Option.map_eq_some_iff.mp hs
    obtain ⟨system, hbatch, rfl⟩ := Option.map_eq_some_iff.mp hlift
    simp only [AsyncSystem.step] at hbatch
    split at hbatch
    · rename_i hempty
      obtain rfl := Option.some.inj hbatch
      exact inv_pending h (Executor.pending_swap (List.isEmpty_iff.mp hempty))
    · cases hbatch
  | runNext e => exact inv_runNext h hs
  | finishBatch e =>
    simp only [step] at hs
    split at hs
    · cases hs
    obtain ⟨_, hlift, rfl⟩ := Option.map_eq_some_iff.mp hs
    obtain ⟨system, hbatch, rfl⟩ := Option.map_eq_some_iff.mp hlift
    simp only [AsyncSystem.step] at hbatch
    split at hbatch
    · cases hbatch
    · rename_i hnext
      obtain rfl := Option.some.inj hbatch
      exact inv_pending h (Executor.pending_clear hnext)

theorem inv_run {acts : List (ExchangeAction α)} (h : run x.step (init component memory start) acts = some s) : Inv x component start s :=
  run_invariant (fun _ _ _ h hs => inv_step h hs) inv_init h

/-! ## What the handler has read -/

/-- The tuples that are read in a step. -/
def reads (x : Exchange σ α β) (s : ExchangeState σ α β) : ExchangeAction α → List (List (PassedArgument α))
  | .call arguments => if (x.found s.system.system.component).mutualExecutor then [passArguments s.system.memory arguments] else []
  | .runNext e => (s.system.nextRequest e).toList
  | _ => []

omit [DecidableEq α] in
theorem received_lift {b : ArgumentAction α β} (hs : lift s b = some s') (hread : ∀ c ∈ ArgumentsAux.systemAction s.system.memory b,
    ArgumentsAux.startedWith s.system.system c = []) : s'.system.received = s.system.received := by
  obtain ⟨system, hstep, rfl⟩ := Option.map_eq_some_iff.mp hs
  rcases ArgumentsAux.step_cases hstep with ⟨c, hc, -, -, hreceived⟩ | ⟨v, value, rfl, rfl⟩
  · rw [hreceived, hread c hc]
    exact List.append_nil _
  · rfl

theorem received_step {a : ExchangeAction α} (hs : x.step s a = some s') :
    s'.system.received = s.system.received ++ (reads x s a).map (readArguments s.system.memory) := by
  cases a with
  | assign v value => exact (received_lift hs (by rintro c ⟨⟩)).trans (List.append_nil _).symm
  | call arguments =>
    simp only [step, call] at hs
    split at hs
    · cases hs
    split at hs
    · obtain ⟨_, hlift, rfl⟩ := Option.map_eq_some_iff.mp hs
      obtain ⟨_, hstep, rfl⟩ := Option.map_eq_some_iff.mp hlift
      obtain ⟨_, hcall, rfl⟩ := Option.map_eq_some_iff.mp hstep
      obtain ⟨system, hexec, rfl⟩ := Option.map_eq_some_iff.mp hcall
      cases hmutual : (x.found s.system.system.component).mutualExecutor <;> simp [reads, hmutual, runHandler, ArgumentSystem.receive]
    · cases hs
  | answer =>
    simp only [step] at hs
    split at hs
    · cases hs
    obtain ⟨_, hlift, rfl⟩ := Option.map_eq_some_iff.mp hs
    exact (received_lift hlift (by rintro c ⟨⟩; rfl)).trans (List.append_nil _).symm
  | startBatch e | finishBatch e =>
    simp only [step] at hs
    split at hs
    · cases hs
    · exact (received_lift hs (by rintro c ⟨⟩; rfl)).trans (List.append_nil _).symm
  | runNext e =>
    simp only [step] at hs
    split at hs
    · cases hs
    obtain ⟨_, hlift, rfl⟩ := Option.map_eq_some_iff.mp hs
    obtain ⟨_, hstep, rfl⟩ := Option.map_eq_some_iff.mp hlift
    obtain ⟨_, hrun, rfl⟩ := Option.map_eq_some_iff.mp hstep
    obtain ⟨system, hnext, rfl⟩ := Option.map_eq_some_iff.mp hrun
    cases hrequest : s.system.nextRequest e <;> simp [reads, hrequest, runHandler, ArgumentSystem.receive]

/-- What a run has received it keeps. -/
theorem received_run {acts : List (ExchangeAction α)} (h : run x.step s acts = some s') : s.system.received <+: s'.system.received :=
  run_relates (R := fun s s' => s.system.received <+: s'.system.received) (fun _ => List.prefix_rfl) (fun _ _ _ => List.IsPrefix.trans)
    (fun _ _ _ hs => received_step hs ▸ List.prefix_append _ _) h

/-- The lists of values received so far are those of the first calls. -/
def Kept (x : Exchange σ α β) (s : ExchangeState σ α β) : Prop := s.system.received <+: x.calls

/-- One more is received. -/
theorem snoc_prefix_iff {l m : List γ} {a : γ} (h : l <+: m) : l ++ [a] <+: m ↔ m[l.length]? = some a := by
  obtain ⟨rest, rfl⟩ := h
  rw [List.prefix_append_right_inj, List.getElem?_append_right (le_refl _), Nat.sub_self]
  cases rest <;> simp [eq_comm]

/-- A step keeps what has been received in agreement with the calls exactly if it meets the condition. -/
theorem kept_iff (h : Inv x component start s) (hkept : Kept x s) {a : ExchangeAction α} (hs : x.step s a = some s') :
    Kept x s' ↔ KeepsArguments s a := by
  rw [Kept, received_step hs]
  cases a with
  | assign | answer | startBatch | finishBatch => exact iff_of_true ((List.append_nil _).symm ▸ hkept) trivial
  | call arguments =>
    refine iff_of_true ?_ trivial
    rw [reads]
    split
    · rename_i hmutual
      obtain ⟨_, _, _, _, _, _, h⟩ := h
      have hvalues := (readArguments_eq_iff _).mpr (argumentsKept_passArguments s.system.memory arguments)
      rw [List.map_singleton, snoc_prefix_iff hkept, hvalues, values_passArguments, h.sent_of_direct (h.components ▸ hmutual)]
      exact next_of_call hs
    · exact (List.append_nil _).symm ▸ hkept
  | runNext e =>
    rw [reads, KeepsArguments]
    cases hnext : s.system.nextRequest e with
    | none => exact iff_of_true ((List.append_nil _).symm ▸ hkept) (by simp)
    | some passed =>
      have hcall := (next_call_of_nextRequest h hnext).1
      rw [Option.toList_some, List.map_singleton, snoc_prefix_iff hkept, hcall, Option.some_inj, eq_comm, readArguments_eq_iff]
      simp

/-! ## Complete runs -/

omit [DecidableEq α] in
/-- A complete run comes to what the handler does to the values it has read, as often as there are calls. -/
theorem outcome_of_complete (h : Inv x component start s) (hc : x.Complete s) :
    outcome s = x.expected start s.system.received ∧ s.system.received.length = x.calls.length := by
  obtain ⟨answered, hand, queued, values, delivered, waiting, h⟩ := h
  obtain rfl := h.components
  obtain rfl := h.hand_nil hc.answered
  have hrequests := (h.pending _).symm.trans hc.requests
  have hresponses := (h.pending _).symm.trans hc.responses
  obtain rfl : queued = [] := by simpa [waits, receiverExecutor] using (List.append_eq_nil_iff.mp hrequests).1
  obtain rfl : waiting = [] := by simpa [waits, clientExecutor] using (List.append_eq_nil_iff.mp hresponses).2
  have hnumbers := h.numbers
  have hreceived := h.received
  have hserved := h.served
  rw [List.append_nil, List.append_nil, hc.sent] at hnumbers
  rw [List.append_nil] at hreceived
  rw [hc.answered, Option.toList_none, List.append_nil] at hserved
  have hlength : s.system.received.length = x.calls.length := by
    rw [hreceived, ← List.length_map (f := Prod.snd), hnumbers, List.length_range]
  have hcallbacks := h.answers
  rw [List.append_nil, hnumbers] at hcallbacks
  have hinvocations : (outcome s).invocations = s.system.received.map fun a => (x.handlerId, a) := by
    rw [outcome, h.handlers]
    simpa using List.zip_map' (f := fun _ => x.handlerId) (g := id) (l := s.system.received)
  refine ⟨?_, hlength⟩
  rw [expected, hserved, hlength, ← hcallbacks, ← h.callbackValues, ← hinvocations]
  rfl

omit [DecidableEq α] in
theorem eq_of_expected_eq {a b : List (List α)} (h : x.expected start a = x.expected start b) : a = b :=
  List.map_injective_iff.mpr (fun _ _ hcall => congrArg Prod.snd hcall) (congrArg Outcome.invocations h)

/-- In a complete run the handler has read what was passed exactly if every request was run with its variables unchanged. -/
theorem received_eq_iff {acts : List (ExchangeAction α)} (h : run x.step (init component memory start) acts = some s)
    (hc : x.Complete s) : s.system.received = x.calls ↔ AllSteps x.step KeepsArguments (init component memory start) acts := by
  constructor
  · intro hreceived
    refine allSteps_iff.mpr fun pre a post t hacts hpre => ?_
    rw [hacts, run_append, hpre, Option.bind_some] at h
    obtain ⟨t', hstep, hpost⟩ := run_cons_some h
    have hkept' : Kept x t' := (received_run hpost).trans (hreceived ▸ List.prefix_rfl)
    have hkept : Kept x t := (received_step hstep ▸ List.prefix_append _ _).trans hkept'
    exact (kept_iff (inv_run hpre) hkept hstep).mp hkept'
  · intro hC
    have hinv : Inv x component start s ∧ Kept x s :=
      AllSteps.run_invariant (P := fun s => Inv x component start s ∧ Kept x s)
        (fun _ _ _ hs hC h1 => ⟨inv_step hs.1 h1, (kept_iff hs.1 hs.2 h1).mpr hC⟩) ⟨inv_init, List.nil_prefix⟩ hC h
    exact hinv.2.eq_of_length (outcome_of_complete hinv.1 hc).2

/-- On one executor every run keeps its arguments. -/
theorem keepsArguments_direct (hsame : (component x.client).defaultExecutor = (component x.receiver).defaultExecutor)
    (acts : List (ExchangeAction α)) : AllSteps x.step KeepsArguments (init component memory start) acts := by
  refine allSteps_of_invariant (P := Inv x component start) (fun _ _ _ hs h1 => inv_step hs h1) (fun s a hs => ?_) inv_init
  cases a with
  | assign | call | answer | startBatch | finishBatch => trivial
  | runNext e =>
    intro passed hpassed
    have hdirect := (next_call_of_nextRequest hs hpassed).2
    exact absurd (decide_eq_true hsame) (Bool.eq_false_iff.mp hdirect)

/-! ## The direct run -/

/-- The client can put any values into variables. -/
theorem exists_assigned (s : ExchangeState σ α β) (values : List α) : ∃ (acts : List (ExchangeAction α)) (memory : VariableId → α)
    (arguments : List Argument), run x.step s acts = some { s with system := { s.system with memory } } ∧
      arguments.map (fun a => memory a.storage) = values := by
  -- the value that comes before `n` others is put into variable `n`
  suffices h : ∃ (acts : List (ExchangeAction α)) (memory : VariableId → α),
      run x.step s acts = some { s with system := { s.system with memory } } ∧
        ((List.range values.length).reverse.map fun v => memory v) = values by
    obtain ⟨acts, memory, hrun, hvalues⟩ := h
    refine ⟨acts, memory, (List.range values.length).reverse.map fun v => ⟨v, false⟩, hrun, ?_⟩
    rw [List.map_map]
    exact hvalues
  induction values with
  | nil => exact ⟨[], s.system.memory, rfl, rfl⟩
  | cons value rest ih =>
    obtain ⟨acts, memory, hrun, hvalues⟩ := ih
    refine ⟨acts ++ [.assign rest.length value], Function.update memory rest.length value, ?_, ?_⟩
    · rw [run_append, hrun]
      rfl
    · rw [List.length_cons, List.range_succ, List.reverse_append, List.reverse_singleton, List.singleton_append, List.map_cons,
        Function.update_self]
      refine congrArg (value :: ·) (Eq.trans (List.map_congr_left fun v hv => ?_) hvalues)
      exact Function.update_of_ne (Nat.ne_of_lt (List.mem_range.mp (List.mem_reverse.mp hv))) value memory

/-- On one executor, a call that is made while no handler runs is answered before it returns. -/
theorem direct_round (h : Inv x component start s)
    (hsame : (component x.client).defaultExecutor = (component x.receiver).defaultExecutor) (hidle : s.answering = none)
    {arguments : List Argument} (ha : x.calls[s.sent]? = some (arguments.map fun a => s.system.memory a.storage)) :
    ∃ s', run x.step s [.call arguments, .answer] = some s' ∧ s'.sent = s.sent + 1 ∧ s'.answering = none := by
  have hmutual : (x.found s.system.system.component).mutualExecutor = true := by
    obtain ⟨_, _, _, _, _, _, hl⟩ := h
    rw [hl.components]
    exact decide_eq_true hsame
  obtain ⟨s₁, hcall, hsent, value, hans⟩ :
      ∃ s₁, x.step s (.call arguments) = some s₁ ∧ s₁.sent = s.sent + 1 ∧ ∃ value, s₁.answering = some value := by
    simp only [step, busy, hidle, Option.isSome_none, Bool.false_and, Bool.false_eq_true, if_false, call, if_pos ha, lift,
      ArgumentSystem.step, ArgumentSystem.call, ArgumentSystem.lift, AsyncSystem.step, Lifetimes.createWeakPtr, le_refl, if_true,
      AsyncSystem.execute, if_pos hmutual, Option.map_some]
    exact ⟨_, rfl, rfl, _, rfl⟩
  obtain ⟨answered, hand, queued, values, delivered, waiting, hl⟩ := inv_call h hcall
  obtain ⟨c, rfl⟩ : ∃ c, hand = [c] := List.length_eq_one_iff.mp (by rw [hl.length_hand, hans]; rfl)
  have hanswer : ∃ s', x.step s₁ .answer = some s' ∧ s'.sent = s₁.sent ∧ s'.answering = none := by
    simp only [step, hans, lift, ArgumentSystem.step, ArgumentSystem.lift, AsyncSystem.step, hl.outstanding, List.map_cons,
      List.getElem?_cons_zero, Option.map_some]
    exact ⟨_, rfl, rfl, rfl⟩
  obtain ⟨s₂, hs₂, hsent₂, hans₂⟩ := hanswer
  refine ⟨s₂, ?_, hsent₂.trans hsent, hans₂⟩
  rw [run_cons, hcall, Option.bind_some, run_cons, hs₂]
  rfl

/-- On one executor, the client can make all the calls that are left. -/
theorem direct_run (hsame : (component x.client).defaultExecutor = (component x.receiver).defaultExecutor) (left : Nat)
    {s : ExchangeState σ α β} (h : Inv x component start s) (hidle : s.answering = none) (hleft : s.sent + left = x.calls.length) :
    ∃ acts s', run x.step s acts = some s' ∧ x.Complete s' := by
  induction left generalizing s with
  | zero =>
    refine ⟨[], s, rfl, hleft, hidle, ?_, ?_⟩ <;>
      obtain ⟨answered, hand, queued, values, delivered, waiting, hl⟩ := h <;>
      obtain ⟨rfl, rfl⟩ := hl.direct (decide_eq_true hsame) <;>
      rw [hl.pending] <;>
      simp [waits]
  | succ left ih =>
    have hlt : s.sent < x.calls.length := by omega
    obtain ⟨assigns, memory, arguments, hassigned, hvalues⟩ := exists_assigned (x := x) s x.calls[s.sent]
    have h₁ : Inv x component start { s with system := { s.system with memory } } :=
      run_invariant (fun _ _ _ h hs => inv_step h hs) h hassigned
    have hcall : x.calls[s.sent]? = some (arguments.map fun a => memory a.storage) := by rw [List.getElem?_eq_getElem hlt, hvalues]
    obtain ⟨s₂, hround, hsent, hidle₂⟩ := direct_round h₁ hsame hidle hcall
    have hleft₂ : s₂.sent + left = x.calls.length := by
      rw [hsent, Nat.add_assoc, Nat.add_comm 1 left]
      exact hleft
    obtain ⟨acts, s', hrun, hc⟩ := ih (run_invariant (fun _ _ _ h hs => inv_step h hs) h₁ hround) hidle₂ hleft₂
    refine ⟨assigns ++ ([.call arguments, .answer] ++ acts), s', ?_, hc⟩
    rw [run_append, hassigned, Option.bind_some, run_append, hround, Option.bind_some, hrun]

end Steps

end ExchangeAux

open ExchangeAux

/-- For every handler that answers once before it returns, and every list of calls: where client and receiver are on the same executor there
is a run that makes all the calls. What can be seen of it, or of any other such run, can be seen of a run with the components on any
executors, however `execute()` of the two executors is mixed with the calls, that makes all the calls and leaves both queues empty, exactly
if every request was run while the variables among its arguments had the values of the call. -/
theorem direct_enqueued_agree_iff [DecidableEq α] (x : Exchange σ α β) (start : σ) (same : ComponentId → Component)
    (hsame : (same x.client).defaultExecutor = (same x.receiver).defaultExecutor) :
    (∀ memory, ∃ acts s, run x.step (init same memory start) acts = some s ∧ x.Complete s) ∧
      ∀ memory acts s, run x.step (init same memory start) acts = some s → x.Complete s →
        ∀ component memory' acts' s', run x.step (init component memory' start) acts' = some s' → x.Complete s' →
          (outcome s' = outcome s ↔ AllSteps x.step KeepsArguments (init component memory' start) acts') := by
  refine ⟨fun memory => direct_run hsame x.calls.length inv_init rfl (Nat.zero_add _), ?_⟩
  intro memory acts s hs hc component memory' acts' s' hs' hc'
  have hdirect : s.system.received = x.calls := (received_eq_iff hs hc).mpr (keepsArguments_direct hsame acts)
  rw [(outcome_of_complete (inv_run hs) hc).1, (outcome_of_complete (inv_run hs') hc').1, hdirect, ← received_eq_iff hs' hc']
  exact ⟨eq_of_expected_eq, congrArg (x.expected start)⟩

/-- Three calls of a receiver that adds to its state and answers with the sum. -/
def adding : Exchange Nat Nat Nat where
  client := 0
  receiver := 1
  handlerId := 70
  msgInfo := 7
  lifetime := 0
  handler state args := (args.foldl (· + ·) state, args.foldl (· + ·) state)
  calls := [[5], [6], [7]]

/-- Those calls, each made directly. The memory is taken to hold at each address the address itself. -/
def addingDirect : List (ExchangeAction Nat) :=
  [.call [⟨5, true⟩], .answer, .call [⟨6, true⟩], .answer, .call [⟨7, false⟩], .answer]

/-- `direct_enqueued_agree_iff` on those calls, and on the same calls made while the two executors are pumped in between. A variable is written
to when its request has been run, and what was in a temporary's place is overwritten before. -/
theorem direct_enqueued_agree_adding :
    ∃ s s', run adding.step (init (fun _ => { defaultExecutor := 0 }) id 0) addingDirect = some s ∧
      run adding.step (init (fun c => { defaultExecutor := c }) id 0)
        [.call [⟨5, true⟩], .call [⟨6, false⟩], .assign 6 0, .startBatch 1, .runNext 1, .assign 5 0, .answer, .startBatch 0, .runNext 1,
          .call [⟨7, true⟩], .runNext 0, .answer, .finishBatch 1, .startBatch 1, .runNext 1, .finishBatch 0, .startBatch 0, .runNext 0,
          .answer, .finishBatch 0, .startBatch 0, .runNext 0, .finishBatch 1] = some s' ∧
      (outcome s').callbackValues = [(0, 5), (1, 11), (2, 18)] ∧ outcome s' = outcome s := by
  obtain ⟨s, hs, hc⟩ : ∃ s, run adding.step (init (fun _ => { defaultExecutor := 0 }) id 0) addingDirect = some s ∧
      adding.Complete s := ⟨_, rfl, rfl, rfl, rfl, rfl⟩
  obtain ⟨s', hs', hc', hvalues⟩ : ∃ s', run adding.step (init (fun c => { defaultExecutor := c }) id 0)
      [.call [⟨5, true⟩], .call [⟨6, false⟩], .assign 6 0, .startBatch 1, .runNext 1, .assign 5 0, .answer, .startBatch 0, .runNext 1,
        .call [⟨7, true⟩], .runNext 0, .answer, .finishBatch 1, .startBatch 1, .runNext 1, .finishBatch 0, .startBatch 0, .runNext 0,
        .answer, .finishBatch 0, .startBatch 0, .runNext 0, .finishBatch 1] = some s' ∧ adding.Complete s' ∧
      (outcome s').callbackValues = [(0, 5), (1, 11), (2, 18)] :=
    ⟨_, rfl, ⟨rfl, rfl, rfl, rfl⟩, rfl⟩
  exact ⟨s, s', hs, hs', hvalues, ((direct_enqueued_agree_iff adding 0 _ rfl).2 _ _ s hs hc _ _ _ s' hs' hc').mpr (by decide)⟩

/-- A variable that is 5 is passed by the first of the calls, and set to 50 before the receiver's executor gets to the request. -/
theorem direct_enqueued_differ :
    ∃ s s', run adding.step (init (fun _ => { defaultExecutor := 0 }) id 0) addingDirect = some s ∧ adding.Complete s ∧
      run adding.step (init (fun c => { defaultExecutor := c }) id 0)
        [.call [⟨5, true⟩], .call [⟨6, false⟩], .call [⟨7, false⟩], .assign 5 50, .startBatch 1, .runNext 1, .answer, .runNext 1,
          .answer, .runNext 1, .answer, .finishBatch 1, .startBatch 0, .runNext 0, .runNext 0, .runNext 0, .finishBatch 0] = some s' ∧
      adding.Complete s' ∧ (outcome s).callbackValues = [(0, 5), (1, 11), (2, 18)] ∧
      (outcome s').callbackValues = [(0, 50), (1, 56), (2, 63)] :=
  ⟨_, _, rfl, ⟨rfl, rfl, rfl, rfl⟩, rfl, ⟨rfl, rfl, rfl, rfl⟩, rfl, rfl⟩

end Exchange

end Minicomps
