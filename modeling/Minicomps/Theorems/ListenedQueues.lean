import Minicomps.Lib.Transition
import Minicomps.ListenedQueues
import Minicomps.RequestProtocol

/-!
# When requests are announced before their responses

A call whose notification is still to come is the one that the client thread is at. Everything else that is queued, held or answered has
been announced, so it is enough to look at the one step that announces a response.
-/

namespace Minicomps

open Transition History

namespace ListenedQueuesAux

open ListenedQueues

structure Inv (s : ListenedQueues) : Prop where
  requestFirst : s.RequestFirst
  /-- The listener has been told of all calls, but for the one that the client is at. -/
  told : ∀ i, .request i ∈ s.notified ↔ i < s.calls ∧ s.calling ≠ some i
  calling : ∀ i, s.calling = some i → i < s.calls
  queued : ∀ t, (s.executors t).All (· < s.calls)
  outstanding : ∀ i ∈ s.outstanding, i < s.calls
  responding : ∀ i, s.responding = some i → i < s.calls

variable {s s' : ListenedQueues}

theorem inv_init : Inv init where
  requestFirst := allJustified_nil
  told _ := ⟨nofun, fun h => absurd h.1 (Nat.not_lt_zero _)⟩
  calling := nofun
  queued _ := nofun
  outstanding := nofun
  responding := nofun

/-! ## The two steps of a call and of an answer -/

/-- The client's two steps are `execute`, of a call that goes to a queue. -/
theorem call_notifyRequest (hidle : s.calling = none) :
    let ports : RequestPorts ListenedQueues ListenedQueues :=
      { callHandler := fun s => s
        enqueueWork := fun s =>
          { s with
            executors := Function.update s.executors .receiver ((s.executors .receiver).enqueueWork s.calls)
            calls := s.calls + 1 }
        onEnqueue := fun s' => { s' with notified := s'.notified ++ [.request s.calls] } }
    (s.step .call).bind (fun s' => s'.step .notifyRequest) = some (ports.execute false s) := by
  have hbusy : s.busy .client = false := congrArg Option.isSome hidle
  simp [step, hbusy, hidle, RequestPorts.execute]

/-- The receiver's two steps are `callback_result::operator()`, of a result that has an executor. -/
theorem respond_notifyResponse {i call : Nat} (hidle : s.responding = none) (hcall : s.outstanding[i]? = some call) :
    let ports : AnswerPorts QueueThread ListenedQueues ListenedQueues :=
      { enqueueWork := fun x s =>
          { s with
            executors := Function.update s.executors x ((s.executors x).enqueueWork call)
            outstanding := s.outstanding.eraseIdx i }
        onEnqueue := fun s => { s with notified := s.notified ++ [.response call] }
        expired := fun _ => false
        drop := fun s => s
        callback := fun s => s }
    (s.step (.respond i)).bind (fun s' => s'.step .notifyResponse) = some (ports.operatorCall (some .client) s) := by
  have hbusy : s.busy .receiver = false := congrArg Option.isSome hidle
  simp [step, hbusy, hcall, hidle, AnswerPorts.operatorCall]

/-! ## Steps -/

theorem queued_setExecutor {calls : Nat} (h : ∀ t, (s.executors t).All (· < calls)) {t : QueueThread} {e : Executor Nat}
    (he : e.All (· < calls)) : ∀ t', ((s.setExecutor t e).executors t').All (· < calls) :=
  Executor.all_update h he

/-- An executor gets along with the items it has. -/
theorem Inv.setExecutor (h : Inv s) {t : QueueThread} {e : Executor Nat} (he : e.All (· < s.calls)) : Inv (s.setExecutor t e) :=
  ⟨h.requestFirst, h.told, h.calling, queued_setExecutor h.queued he, h.outstanding, h.responding⟩

theorem inv_call (h : Inv s) (hs : s.step .call = some s') : Inv s' := by
  simp only [step, Option.ite_none_left_eq_some] at hs
  obtain ⟨hbusy, hs⟩ := hs
  obtain rfl := Option.some.inj hs
  have hidle : s.calling = none := Option.not_isSome_iff_eq_none.mp hbusy
  refine ⟨h.requestFirst, fun i => ?_, ?_, fun t => ?_, fun i hi => Nat.lt_succ_of_lt (h.outstanding i hi),
    fun i hi => Nat.lt_succ_of_lt (h.responding i hi)⟩
  · show _ ↔ i < s.calls + 1 ∧ some s.calls ≠ some i
    rw [h.told i, hidle, Nat.lt_succ_iff_lt_or_eq]
    constructor
    · rintro ⟨hlt, -⟩
      exact ⟨Or.inl hlt, fun heq => Nat.ne_of_gt hlt (Option.some.inj heq)⟩
    · rintro ⟨hor, hne⟩
      exact ⟨hor.resolve_right fun heq => hne (congrArg some heq.symm), nofun⟩
  · rintro i ⟨⟩
    exact Nat.lt_succ_self _
  · have hmore : ∀ t, (s.executors t).All (· < s.calls + 1) := fun t => (h.queued t).imp fun _ hlt => Nat.lt_succ_of_lt hlt
    exact queued_setExecutor hmore ((hmore .receiver).enqueueWork (Nat.lt_succ_self _)) t

theorem inv_notifyRequest (h : Inv s) (hs : s.step .notifyRequest = some s') : Inv s' := by
  obtain ⟨call, hcall, rfl⟩ := Option.map_eq_some_iff.mp hs
  refine ⟨h.requestFirst.snoc trivial, fun i => ?_, nofun, h.queued, h.outstanding, h.responding⟩
  show .request i ∈ s.notified ++ [.request call] ↔ i < s.calls ∧ none ≠ some i
  rw [List.mem_append, List.mem_singleton, h.told i, hcall, QueueNotification.request.injEq]
  constructor
  · rintro (⟨hlt, -⟩ | rfl)
    · exact ⟨hlt, nofun⟩
    · exact ⟨h.calling i hcall, nofun⟩
  · rintro ⟨hlt, -⟩
    by_cases hi : i = call
    · exact Or.inr hi
    · exact Or.inl ⟨hlt, fun heq => hi (Option.some.inj heq).symm⟩

theorem inv_respond (h : Inv s) {i : Nat} (hs : s.step (.respond i) = some s') : Inv s' := by
  simp only [step, Option.ite_none_left_eq_some] at hs
  obtain ⟨-, hs⟩ := hs
  obtain ⟨call, hcall, rfl⟩ := Option.map_eq_some_iff.mp hs
  have hlt : call < s.calls := h.outstanding call (List.mem_of_getElem? hcall)
  refine ⟨h.requestFirst, h.told, h.calling, queued_setExecutor h.queued ((h.queued .client).enqueueWork hlt),
    fun j hj => h.outstanding j (List.mem_of_mem_eraseIdx hj), ?_⟩
  rintro j ⟨⟩
  exact hlt

/-- The receiver announces a response that the client has been ahead of. -/
theorem inv_notifyResponse (h : Inv s) (hahead : s.ClientAhead .notifyResponse) (hs : s.step .notifyResponse = some s') : Inv s' := by
  obtain ⟨call, hcall, rfl⟩ := Option.map_eq_some_iff.mp hs
  have hne : s.calling ≠ some call := hcall ▸ hahead (hcall ▸ rfl)
  have htold : .request call ∈ s.notified := (h.told call).mpr ⟨h.responding call hcall, hne⟩
  refine ⟨h.requestFirst.snoc htold, fun i => ?_, h.calling, h.queued, h.outstanding, nofun⟩
  rw [List.mem_append, List.mem_singleton, h.told i]
  exact or_iff_left (by rintro ⟨⟩)

theorem inv_runNext (h : Inv s) {t : QueueThread} (hs : s.step (.runNext t) = some s') : Inv s' := by
  simp only [step, Option.ite_none_left_eq_some] at hs
  obtain ⟨-, hs⟩ := hs
  obtain ⟨⟨call, e⟩, hnext, rfl⟩ := Option.map_eq_some_iff.mp hs
  obtain ⟨hlt, he⟩ := (h.queued t).next hnext
  have hset := h.setExecutor (t := t) he
  cases t with
  | client => exact hset
  | receiver =>
    refine ⟨hset.requestFirst, hset.told, hset.calling, hset.queued, fun j hj => ?_, hset.responding⟩
    rcases List.mem_append.mp hj with hold | hnew
    · exact h.outstanding j hold
    · obtain rfl := List.mem_singleton.mp hnew
      exact hlt

theorem inv_step (h : Inv s) {a : QueueAction} (ha : s.ClientAhead a) (hs : s.step a = some s') : Inv s' := by
  cases a with
  | call => exact inv_call h hs
  | notifyRequest => exact inv_notifyRequest h hs
  | respond i => exact inv_respond h hs
  | notifyResponse => exact inv_notifyResponse h ha hs
  | runNext t => exact inv_runNext h hs
  | startBatch t =>
    simp only [step, Option.ite_none_right_eq_some] at hs
    obtain ⟨-, hs⟩ := hs
    obtain rfl := Option.some.inj hs
    exact h.setExecutor (h.queued t).swap
  | finishBatch t =>
    simp only [step, Option.ite_none_right_eq_some] at hs
    obtain ⟨-, hs⟩ := hs
    obtain rfl := Option.some.inj hs
    exact h.setExecutor (h.queued t).clear

/-- Where the client is not ahead, the response is announced first. -/
theorem not_requestFirst (h : Inv s) {a : QueueAction} (ha : ¬s.ClientAhead a) : ∃ s', s.step a = some s' ∧ ¬s'.RequestFirst := by
  cases a with
  | call | notifyRequest | respond | runNext | startBatch | finishBatch => exact absurd trivial ha
  | notifyResponse =>
    simp only [ClientAhead, Classical.not_imp, not_not] at ha
    obtain ⟨hsome, hsame⟩ := ha
    obtain ⟨call, hcall⟩ := Option.isSome_iff_exists.mp hsome
    refine ⟨{ s with notified := s.notified ++ [.response call], responding := none }, by simp [step, hcall], fun hfirst => ?_⟩
    have htold : .request call ∈ s.notified := hfirst s.notified (.response call) [] rfl
    exact ((h.told call).mp htold).2 (hsame.trans hcall)

/-! ## Batches that keep apart -/

/-- The receiver has not come to the call that the client is at. -/
structure Apart (s : ListenedQueues) : Prop where
  back : ∀ call, s.calling = some call → call ∉ (s.executors .receiver).workItemsBackBuffer
  outstanding : ∀ call, s.calling = some call → call ∉ s.outstanding
  responding : ∀ call, s.calling = some call → s.responding ≠ some call

theorem clientAhead_of_apart (h : Apart s) (a : QueueAction) : s.ClientAhead a := by
  cases a with
  | call | notifyRequest | respond | runNext | startBatch | finishBatch => trivial
  | notifyResponse =>
    intro hsome hsame
    obtain ⟨call, hcall⟩ := Option.isSome_iff_exists.mp hsome
    exact h.responding call (hsame.trans hcall) hcall

/-- An executor whose back buffer has nothing new in it. -/
theorem Apart.setExecutor (h : Apart s) {t : QueueThread} {e : Executor Nat}
    (he : t = .receiver → ∀ call, s.calling = some call → call ∉ e.workItemsBackBuffer) : Apart (s.setExecutor t e) := by
  refine ⟨fun call hcall => ?_, h.outstanding, h.responding⟩
  show call ∉ (Function.update s.executors t e .receiver).workItemsBackBuffer
  by_cases ht : .receiver = t
  · subst ht
    rw [Function.update_self]
    exact he rfl call hcall
  · rw [Function.update_of_ne ht]
    exact h.back call hcall

theorem apart_call (h : Inv s) (hs : s.step .call = some s') : Apart s' := by
  simp only [step, Option.ite_none_left_eq_some] at hs
  obtain ⟨-, hs⟩ := hs
  obtain rfl := Option.some.inj hs
  refine ⟨?_, ?_, ?_⟩ <;> rintro call ⟨⟩
  · intro hmem
    simp only [Function.update_self] at hmem
    exact Nat.lt_irrefl _ (h.queued .receiver s.calls (List.mem_append_right _ hmem))
  · exact fun hmem => Nat.lt_irrefl _ (h.outstanding s.calls hmem)
  · exact fun hresponding => Nat.lt_irrefl _ (h.responding s.calls hresponding)

theorem apart_respond (h : Apart s) {i : Nat} (hs : s.step (.respond i) = some s') : Apart s' := by
  simp only [step, Option.ite_none_left_eq_some] at hs
  obtain ⟨-, hs⟩ := hs
  obtain ⟨answered, hanswered, rfl⟩ := Option.map_eq_some_iff.mp hs
  have hclient : Apart (s.setExecutor .client ((s.executors .client).enqueueWork answered)) := h.setExecutor nofun
  refine ⟨hclient.back, fun call hcall hmem => h.outstanding call hcall (List.mem_of_mem_eraseIdx hmem), ?_⟩
  rintro call hcall ⟨⟩
  exact h.outstanding answered hcall (List.mem_of_getElem? hanswered)

theorem apart_runNext (h : Apart s) {t : QueueThread} (hs : s.step (.runNext t) = some s') : Apart s' := by
  simp only [step, Option.ite_none_left_eq_some] at hs
  obtain ⟨-, hs⟩ := hs
  obtain ⟨⟨started, e⟩, hnext, rfl⟩ := Option.map_eq_some_iff.mp hs
  obtain ⟨-, hback⟩ := Executor.vectors_next hnext
  cases t with
  | client => exact h.setExecutor nofun
  | receiver =>
    have hset : Apart (s.setExecutor .receiver e) := h.setExecutor fun _ call hcall => hback ▸ h.back call hcall
    refine ⟨hset.back, fun call hcall hmem => ?_, hset.responding⟩
    rcases List.mem_append.mp hmem with hold | hnew
    · exact h.outstanding call hcall hold
    · obtain rfl := List.mem_singleton.mp hnew
      have hrest : call ∈ (s.executors .receiver).rest := (Executor.next_eq_some hnext).1 ▸ List.mem_cons_self
      exact h.back call hcall (List.mem_of_mem_drop hrest)

theorem apart_step (h : Inv s) (hapart : Apart s) {a : QueueAction} (ha : s.BatchesApart a) (hs : s.step a = some s') : Apart s' := by
  cases a with
  | call => exact apart_call h hs
  | notifyRequest =>
    obtain ⟨call, -, rfl⟩ := Option.map_eq_some_iff.mp hs
    exact ⟨nofun, nofun, nofun⟩
  | respond i => exact apart_respond hapart hs
  | notifyResponse =>
    obtain ⟨call, -, rfl⟩ := Option.map_eq_some_iff.mp hs
    exact ⟨hapart.back, hapart.outstanding, fun _ _ => nofun⟩
  | runNext t => exact apart_runNext hapart hs
  | startBatch t =>
    simp only [step, Option.ite_none_right_eq_some] at hs
    obtain ⟨-, hs⟩ := hs
    obtain rfl := Option.some.inj hs
    refine hapart.setExecutor ?_
    rintro rfl call hcall
    exact absurd (hcall.symm.trans ha) (Option.some_ne_none call)
  | finishBatch t =>
    simp only [step, Option.ite_none_right_eq_some] at hs
    obtain ⟨-, hs⟩ := hs
    obtain rfl := Option.some.inj hs
    refine hapart.setExecutor fun _ _ _ hmem => ?_
    cases hmem

end ListenedQueuesAux

namespace ListenedQueues

open ListenedQueuesAux

/-- The listener is told of every request before it is told of the response, in every state of a run, if and only if the receiver never gets
to the notification of a response while the client is between the `enqueue_work` of that very call and the notification of the request. -/
theorem requestFirst_iff (acts : List QueueAction) :
    (∀ pre t, pre <+: acts → run step init pre = some t → t.RequestFirst) ↔ AllSteps step ClientAhead init acts :=
  (allSteps_iff_safe (fun _ h => h.requestFirst) (fun _ _ _ h ha hs => inv_step h ha hs)
    (fun _ _ h ha => not_requestFirst h ha) inv_init).symm

/-- It is enough that no exchange of the receiver's vectors comes between the two steps of the client. -/
theorem clientAhead_of_batchesApart {acts : List QueueAction} (h : AllSteps step BatchesApart init acts) :
    AllSteps step ClientAhead init acts :=
  AllSteps.imp (P := fun s => Inv s ∧ Apart s)
    (fun _ a _ h ha hs => ⟨inv_step h.1 (clientAhead_of_apart h.2 a) hs, apart_step h.1 h.2 ha hs⟩)
    (fun _ a h _ => clientAhead_of_apart h.2 a) ⟨inv_init, ⟨nofun, nofun, nofun⟩⟩ h

/-- The receiver runs a whole batch between the two steps of the client. -/
theorem response_announcedFirst : ¬∀ acts pre t, pre <+: acts → run step init pre = some t → t.RequestFirst := by
  intro h
  have hfirst := h [.call, .startBatch .receiver, .runNext .receiver, .respond 0, .notifyResponse] _ _ (List.prefix_refl _) rfl
  have hmem := hfirst [] (.response 0) [] rfl
  cases hmem

end ListenedQueues

end Minicomps
