import Minicomps.Deliveries
import Minicomps.Lib.Transition

/-!
# Executors receive their messages in the order of causes

The queue of an executor is a mailbox. So an executor has received a message from elsewhere when its components do anything that the sending
of the message has led to, by whatever way over other executors.
-/

namespace Minicomps

namespace Context

open Causality

variable {defaultExecutor : ComponentId → ExecutorId}

namespace DeliveryAux

/-! ## What a step does to the queues -/

/-- The step enqueues a work item on this executor, and does nothing else to the queues. -/
def Enqueues (s s' : System) : Option ExecutorId → Prop
  | some x => ∃ item, s'.executors = Function.update s.executors x ((s.executors x).enqueueWork item)
  | none => s'.executors = s.executors

variable {s s' : System} {t : ThreadId}

theorem startCallback_queues (s : System) (t : ThreadId) (callback : Callback) (success : Bool) :
    (s.startCallback t callback success).executors = s.executors ∧ (s.startCallback t callback success).executing = s.executing := by
  unfold System.startCallback
  split <;> exact ⟨rfl, rfl⟩

theorem operatorCall_queues (s : System) (t : ThreadId) (r : CallbackResult) (success spent : Bool) :
    Enqueues s (s.operatorCall t r success spent) r.receivingExecutor ∧ (s.operatorCall t r success spent).executing = s.executing := by
  simp only [System.operatorCall, AnswerPorts.operatorCall]
  split
  · rename_i x hx
    rw [hx]
    exact ⟨⟨_, rfl⟩, rfl⟩
  · rename_i hx
    rw [hx]
    split
    · exact ⟨rfl, rfl⟩
    · exact startCallback_queues s t r.callback success

theorem runItem_queues (s : System) (t : ThreadId) (item : WorkItem) :
    (s.runItem t item).executors = s.executors ∧ (s.runItem t item).executing = s.executing := by
  cases item with
  | response data =>
    simp only [System.runItem]
    split
    · exact ⟨rfl, rfl⟩
    · exact startCallback_queues s t data.callback data.success
  | _ => exact ⟨rfl, rfl⟩

/-- The action is one of the loop of `execute`. -/
def ofLoop : Action → Bool
  | .execute .. | .runNext _ | .finishBatch _ => true
  | _ => false

/-- What components do besides. -/
theorem step_queues {a : Action} (ha : ofLoop a = false) (h : s.step defaultExecutor a = some s') :
    Enqueues s s' (s.enqueuesOn defaultExecutor a) ∧ s'.executing = s.executing := by
  cases a with
  | execute t x => cases ha
  | runNext t => cases ha
  | finishBatch t => cases ha
  | enter t c =>
    simp only [System.step] at h
    split at h
    · cases h
    · obtain rfl := Option.some.inj h
      exact ⟨rfl, rfl⟩
  | post t x c =>
    simp only [System.step] at h
    split at h
    · cases h
    · obtain rfl := Option.some.inj h
      exact ⟨⟨_, rfl⟩, rfl⟩
  | call t handler allowDirectCall lifetime outerResult =>
    simp only [System.step] at h
    split at h
    · obtain ⟨sender, hsender, rfl⟩ := Option.map_eq_some_iff.mp h
      simp only [System.enqueuesOn, hsender]
      change Enqueues _ _ (if _ then none else some (System.executor defaultExecutor handler)) ∧ _
      simp only [System.call, RequestPorts.execute]
      split
      · exact ⟨rfl, rfl⟩
      · exact ⟨⟨_, rfl⟩, rfl⟩
    · cases h
  | event t subscriber =>
    obtain ⟨sender, hsender, rfl⟩ := Option.map_eq_some_iff.mp h
    simp only [System.enqueuesOn, hsender]
    change Enqueues _ _ (if _ then none else some (defaultExecutor subscriber)) ∧ _
    unfold System.sendTo
    split
    · exact ⟨rfl, rfl⟩
    · exact ⟨⟨_, rfl⟩, rfl⟩
  | resolve t i success spent =>
    simp only [System.step] at h
    split at h
    · cases h
    · obtain ⟨r, hr, rfl⟩ := Option.map_eq_some_iff.mp h
      simp only [System.enqueuesOn, hr]
      exact operatorCall_queues s t r success spent
  | handOn t spent =>
    simp only [System.step] at h
    split at h
    · rename_i c outer hhand
      obtain ⟨r, hr, rfl⟩ := Option.map_eq_some_iff.mp h
      simp only [System.enqueuesOn, hhand]
      change Enqueues _ _ ((s.results[outer]?).bind _) ∧ _
      rw [hr]
      exact operatorCall_queues ((s.pop t).push t (.code c)) t r false spent
    · cases h
  | ret t =>
    obtain ⟨c, -, rfl⟩ := Option.map_eq_some_iff.mp h
    exact ⟨rfl, rfl⟩
  | reset l =>
    obtain rfl := Option.some.inj h
    exact ⟨rfl, rfl⟩

/-! ## Numbers beside the work items -/

/-- The vectors of the one executor are as long as those of the other, and their loops have come as far. -/
structure Beside {α β : Type*} (e : Executor α) (e' : Executor β) : Prop where
  workItems : e.workItems.length = e'.workItems.length
  workItemsBackBuffer : e.workItemsBackBuffer.length = e'.workItemsBackBuffer.length
  position : e.position = e'.position

namespace Beside

variable {α β : Type*} {e : Executor α} {e' : Executor β}

theorem enqueueWork (h : Beside e e') (item : α) (item' : β) : Beside (e.enqueueWork item) (e'.enqueueWork item') where
  workItems := by
    rw [Executor.workItems_enqueueWork, Executor.workItems_enqueueWork, List.length_append, List.length_append, h.workItems]
    rfl
  workItemsBackBuffer := h.workItemsBackBuffer
  position := h.position

theorem swap (h : Beside e e') : Beside e.swap e'.swap := ⟨h.workItemsBackBuffer, h.workItems, rfl⟩

theorem clear (h : Beside e e') : Beside e.clear e'.clear := ⟨h.workItems, rfl, rfl⟩

/-- Both loops come to an item, or neither. -/
theorem next (h : Beside e e') :
    (∃ item item' f f', e.next = some (item, f) ∧ e'.next = some (item', f') ∧ Beside f f') ∨ e.next = none ∧ e'.next = none := by
  rcases e.next_cases with ⟨item, hitem, hnext⟩ | ⟨hle, hnext⟩
  · have hlt : e'.position < e'.workItemsBackBuffer.length := by
      rw [← h.position, ← h.workItemsBackBuffer]
      exact (List.getElem?_eq_some_iff.mp hitem).1
    rcases e'.next_cases with ⟨item', -, hnext'⟩ | ⟨hle', -⟩
    · refine Or.inl ⟨item, item', _, _, hnext, hnext', h.workItems, h.workItemsBackBuffer, ?_⟩
      exact congrArg (· + 1) h.position
    · omega
  · rcases e'.next_cases with ⟨item', hitem', -⟩ | ⟨-, hnext'⟩
    · have hlt := (List.getElem?_eq_some_iff.mp hitem').1
      rw [← h.position, ← h.workItemsBackBuffer] at hlt
      omega
    · exact Or.inr ⟨hnext, hnext'⟩

end Beside

/-! ## The invariant -/

/-- The numbers are beside the work items, and the history is that of mailboxes with these numbers in them. Between two batches of an
executor its back buffer is empty. -/
structure DeliveryInv (s : Deliveries) : Prop where
  beside : ∀ x, Beside (s.numbers x) (s.system.executors x)
  cleared : ∀ x, s.system.executing x = false → (s.system.executors x).workItemsBackBuffer = []
  boxes : Mailboxes s.history s.sent fun x => (s.numbers x).pending

theorem deliveryInv_init : DeliveryInv Deliveries.init where
  beside _ := ⟨rfl, rfl, rfl⟩
  cleared _ _ := rfl
  boxes := Mailboxes.nil

theorem mailboxes_own {history : List (Event ExecutorId)} {sent : Nat} {box : ExecutorId → List Nat} (h : Mailboxes history sent box)
    (x : Option ExecutorId) : Mailboxes (history ++ x.toList.map Event.own) sent box := by
  cases x with
  | none => exact (List.append_nil history).symm ▸ h
  | some x => exact h.own x

/-- Both vectors of vectors change in the same place. -/
theorem beside_update {numbers : ExecutorId → Executor Nat} {executors : ExecutorId → Executor WorkItem}
    (h : ∀ x, Beside (numbers x) (executors x)) {x : ExecutorId} {e : Executor Nat} {e' : Executor WorkItem} (hx : Beside e e')
    (y : ExecutorId) : Beside (Function.update numbers x e y) (Function.update executors x e' y) := by
  by_cases hy : y = x
  · subst hy
    rwa [Function.update_self, Function.update_self]
  · rw [Function.update_of_ne hy, Function.update_of_ne hy]
    exact h y

/-- The boxes, where the numbers of one executor have changed and what is pending there has not. -/
theorem mailboxes_update {numbers : ExecutorId → Executor Nat} {history : List (Event ExecutorId)} {sent : Nat}
    (h : Mailboxes history sent fun x => (numbers x).pending) {x : ExecutorId} {e : Executor Nat} (he : e.pending = (numbers x).pending) :
    Mailboxes history sent fun y => (Function.update numbers x e y).pending := by
  refine h.congr fun y => ?_
  by_cases hy : y = x
  · subst hy
    rw [Function.update_self, he]
  · rw [Function.update_of_ne hy]

theorem backBuffer_update {executors : ExecutorId → Executor WorkItem} {x : ExecutorId} {e : Executor WorkItem}
    (he : e.workItemsBackBuffer = (executors x).workItemsBackBuffer) (y : ExecutorId) :
    (Function.update executors x e y).workItemsBackBuffer = (executors y).workItemsBackBuffer := by
  by_cases hy : y = x
  · subst hy
    rw [Function.update_self, he]
  · rw [Function.update_of_ne hy]

theorem step_ofLoop {s s' : Deliveries} {a : Action} (hs : DeliveryInv s) (ha : ofLoop a = true)
    (h : s.step defaultExecutor a = some s') : DeliveryInv s' := by
  obtain ⟨system, hsystem, rfl⟩ := Option.map_eq_some_iff.mp h
  cases a with
  | execute t x =>
    simp only [System.step] at hsystem
    split at hsystem
    · cases hsystem
    · rename_i hfree
      obtain rfl := Option.some.inj hsystem
      have hempty : (s.numbers x).workItemsBackBuffer = [] := by
        have hidle : s.system.executing x = false := (Bool.or_eq_false_iff.mp (Bool.eq_false_iff.mpr hfree)).1
        rw [← List.length_eq_zero_iff, (hs.beside x).workItemsBackBuffer, hs.cleared x hidle]
        rfl
      refine ⟨fun y => beside_update hs.beside (hs.beside x).swap y, fun y hy => ?_, ?_⟩
      · by_cases hyx : y = x
        · subst hyx
          simp [System.push, System.setExecutor] at hy
        · simp only [System.push, System.setExecutor, Function.update_of_ne hyx] at hy ⊢
          exact hs.cleared y hy
      · exact mailboxes_update hs.boxes (Executor.pending_swap hempty)
  | runNext t =>
    simp only [System.step] at hsystem
    split at hsystem
    · cases hsystem
    rename_i x hx
    split at hsystem
    · rename_i item e hnext
      obtain rfl := Option.some.inj hsystem
      have hqueues := runItem_queues (s.system.setExecutor x e) t item
      rcases (hs.beside x).next with ⟨m, item', f, f', hm, hitem, hff'⟩ | ⟨-, hnone⟩
      · obtain ⟨rfl, rfl⟩ := Prod.mk.inj (Option.some.inj (hnext.symm.trans hitem))
        simp only [Deliveries.note, hx, hm]
        refine ⟨fun y => ?_, fun y hy => ?_, ?_⟩
        · rw [hqueues.1]
          exact beside_update hs.beside hff' y
        · rw [hqueues.1]
          rw [hqueues.2] at hy
          exact (backBuffer_update (Executor.vectors_next hnext).2 y).trans (hs.cleared y hy)
        · refine hs.boxes.receive (p := x) ?_ fun y hy => congrArg Executor.pending (Function.update_of_ne hy ..)
          change _ = m :: (Function.update s.numbers x f x).pending
          rw [Function.update_self]
          exact Executor.pending_next hm
      · cases hnone.symm.trans hnext
    · cases hsystem
  | finishBatch t =>
    simp only [System.step] at hsystem
    split at hsystem
    · cases hsystem
    rename_i x hx
    split at hsystem
    · cases hsystem
    · rename_i hnext
      obtain rfl := Option.some.inj hsystem
      have hnone : (s.numbers x).next = none := by
        rcases (hs.beside x).next with ⟨_, _, _, _, -, hsome, -⟩ | ⟨hnone, -⟩
        · cases hsome.symm.trans hnext
        · exact hnone
      simp only [Deliveries.note, hx]
      refine ⟨fun y => beside_update hs.beside (hs.beside x).clear y, fun y hy => ?_, ?_⟩
      · by_cases hyx : y = x
        · subst hyx
          simp [System.pop, System.setExecutor]
        · simp only [System.pop, System.setExecutor, Function.update_of_ne hyx] at hy ⊢
          exact hs.cleared y hy
      · exact mailboxes_update hs.boxes (Executor.pending_clear hnone)
  | _ => cases ha

/-- What is noted of an action that is not one of the loop. -/
theorem note_eq {s : Deliveries} {a : Action} (ha : ofLoop a = false) :
    s.note defaultExecutor a = match s.system.enqueuesOn defaultExecutor a with
      | some x => { s with
          numbers := Function.update s.numbers x ((s.numbers x).enqueueWork s.sent)
          sent := s.sent + 1
          history := s.history ++ [.sent (s.system.actsOn a) x s.sent] }
      | none => { s with history := s.history ++ (s.system.actsOn a).toList.map .own } := by
  cases a <;> first | rfl | cases ha

theorem step_other {s s' : Deliveries} {a : Action} (hs : DeliveryInv s) (ha : ofLoop a = false)
    (h : s.step defaultExecutor a = some s') : DeliveryInv s' := by
  obtain ⟨system, hsystem, rfl⟩ := Option.map_eq_some_iff.mp h
  obtain ⟨hqueues, hexecuting⟩ := step_queues ha hsystem
  rw [note_eq ha]
  cases hx : s.system.enqueuesOn defaultExecutor a with
  | none =>
    rw [hx] at hqueues
    have hsame : system.executors = s.system.executors := hqueues
    refine ⟨fun y => ?_, fun y hy => ?_, mailboxes_own hs.boxes _⟩
    · exact hsame ▸ hs.beside y
    · exact hsame ▸ hs.cleared y (hexecuting ▸ hy)
  | some x =>
    rw [hx] at hqueues
    obtain ⟨item, hqueue⟩ := hqueues
    refine ⟨fun y => ?_, fun y hy => ?_, ?_⟩
    · rw [hqueue]
      exact beside_update hs.beside ((hs.beside x).enqueueWork s.sent item) y
    · have hback : ((s.system.executors x).enqueueWork item).workItemsBackBuffer = (s.system.executors x).workItemsBackBuffer := rfl
      rw [hqueue]
      exact (backBuffer_update hback y).trans (hs.cleared y (hexecuting ▸ hy))
    · refine hs.boxes.send ?_ fun y hy => congrArg Executor.pending (Function.update_of_ne hy ..)
      change (Function.update s.numbers x ((s.numbers x).enqueueWork s.sent) x).pending = _
      rw [Function.update_self]
      exact Executor.pending_enqueueWork ..

theorem deliveryInv_step {s s' : Deliveries} {a : Action} (hs : DeliveryInv s) (h : s.step defaultExecutor a = some s') :
    DeliveryInv s' := by
  cases ha : ofLoop a with
  | true => exact step_ofLoop hs ha h
  | false => exact step_other hs ha h

end DeliveryAux

namespace Deliveries

open DeliveryAux

/-- Whatever an executor does after the sending of a message to it from elsewhere, in the order of causes, which runs along each executor
and from the sending of a message to its receipt, it does not do before it has received the message: no later message overtakes an earlier
one, by whatever other executors it comes. -/
theorem received_in_order_of_causes (defaultExecutor : ComponentId → ExecutorId) (acts : List Action) (s : Deliveries)
    (h : Transition.run (step defaultExecutor) init acts = some s) {i j : Nat} {source : Option ExecutorId} {x : ExecutorId} {m : Nat}
    {e : Event ExecutorId} (hsource : source ≠ some x) (hij : HappensBefore s.history i j)
    (hi : s.history[i]? = some (.sent source x m)) (hj : s.history[j]? = some e) (he : e.process = some x) :
    ∃ k ≤ j, s.history[k]? = some (.received x m) := by
  have hinv : DeliveryInv s := Transition.run_invariant (fun _ _ _ hs h1 => deliveryInv_step hs h1) deliveryInv_init h
  exact received_of_happensBefore hinv.boxes.inOrder hsource hij hi hj he

/-- Each component is on an executor of its own. Component 0 enqueues a work item for 2 and sends an event to 1, which sends one to 2 in
turn. -/
def aroundACorner : List Action :=
  [.post 9 0 0, .execute 5 0, .runNext 5, .post 5 2 2, .event 5 1, .execute 6 1, .runNext 6, .event 6 2, .execute 7 2, .runNext 7, .ret 7,
    .runNext 7]

/-- `received_in_order_of_causes` for the work item of 2, which is received before the event that came by 1. -/
theorem received_in_order_of_causes_aroundACorner :
    ∃ s, Transition.run (step id) init aroundACorner = some s ∧ HappensBefore s.history 2 7 ∧
      s.history[2]? = some (.sent (some 0) 2 1) ∧ s.history[7]? = some (.received 2 3) ∧
      ∃ k ≤ 7, s.history[k]? = some (.received 2 1) := by
  obtain ⟨s, hs, hhistory⟩ : ∃ s, Transition.run (step id) init aroundACorner = some s ∧
      s.history = [.sent none 0 0, .received 0 0, .sent (some 0) 2 1, .sent (some 0) 1 2, .received 1 2, .sent (some 1) 2 3,
        .received 2 1, .received 2 3] := ⟨_, rfl, rfl⟩
  have hi : s.history[2]? = some (.sent (some 0) 2 1) := by rw [hhistory]; rfl
  have hcall : s.history[3]? = some (.sent (some 0) 1 2) := by rw [hhistory]; rfl
  have hcalled : s.history[4]? = some (.received 1 2) := by rw [hhistory]; rfl
  have hpassed : s.history[5]? = some (.sent (some 1) 2 3) := by rw [hhistory]; rfl
  have hj : s.history[7]? = some (.received 2 3) := by rw [hhistory]; rfl
  have hij : HappensBefore s.history 2 7 :=
    (((Relation.TransGen.single (Leads.order (by decide) hi hcall rfl rfl)).tail (Leads.message (by decide) hcall hcalled)).tail
      (Leads.order (by decide) hcalled hpassed rfl rfl)).tail (Leads.message (by decide) hpassed hj)
  exact ⟨s, hs, hij, hi, hj, received_in_order_of_causes id aroundACorner s hs (by decide) hij hi hj rfl⟩

end Deliveries

end Context

end Minicomps
