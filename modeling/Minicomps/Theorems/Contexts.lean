import Minicomps.Contexts
import Minicomps.Lib.Transition

/-!
# Components stay on their executors

The executor of each piece of code, of each work item and of each `callback_result` is carried along a run: what is enqueued is on
the default executor of the component whose code it starts, and a `callback_result` without an executor was handed to a component
that shares the default executor of the caller. So direct calls and direct responses, however deeply nested, stay where they are.
-/

namespace Minicomps

namespace Context

variable {defaultExecutor : ComponentId → ExecutorId}

namespace ContextAux

/-- Each frame of the stack that runs code of a component is in an `execute` of the component's default executor. -/
def WellPlaced (defaultExecutor : ComponentId → ExecutorId) : List Frame → Prop
  | [] => True
  | f :: rest => (∀ c, f.component = some c → context rest = some (defaultExecutor c)) ∧ WellPlaced defaultExecutor rest

/-- The work item starts code of a component whose default executor is `x`, and a request takes the executor of its callback
along. -/
def Placed (defaultExecutor : ComponentId → ExecutorId) (x : ExecutorId) : WorkItem → Prop
  | .entry c => defaultExecutor c = x
  | .request data => defaultExecutor data.sender = x ∧ defaultExecutor data.callback.component = data.receiverExecutor
  | .event subscriber => defaultExecutor subscriber = x
  | .response data => defaultExecutor data.callback.component = x

/-- The callback of the result belongs on the executor it is enqueued on, or else on that of the component that holds the result. -/
def Routed (defaultExecutor : ComponentId → ExecutorId) (r : CallbackResult) : Prop :=
  defaultExecutor r.callback.component = r.receivingExecutor.getD (defaultExecutor r.senderComponent)

/-- The invariant. -/
structure Inv (defaultExecutor : ComponentId → ExecutorId) (s : System) : Prop where
  frames : ∀ t, WellPlaced defaultExecutor (s.stack t)
  items : ∀ x, (s.executors x).All (Placed defaultExecutor x)
  results : ∀ r ∈ s.results, Routed defaultExecutor r

theorem inv_init : Inv defaultExecutor System.init where
  frames := fun _ => trivial
  items := fun _ _ h => absurd h List.not_mem_nil
  results := fun _ h => absurd h List.not_mem_nil

/-! ## Reading the stack -/

theorem wellPlaced_suffix {above below : List Frame} {f : Frame} (h : WellPlaced defaultExecutor (above ++ f :: below)) :
    ∀ c, f.component = some c → context below = some (defaultExecutor c) := by
  induction above with
  | nil => exact h.1
  | cons g above ih => exact ih h.2

variable {s : System} {t : ThreadId} {c : ComponentId}

/-- The running component is on its default executor. -/
theorem context_of_running (hs : Inv defaultExecutor s) (h : s.running t = some c) :
    context (s.stack t) = some (defaultExecutor c) := by
  unfold System.running at h
  split at h
  · rename_i c' rest hstack
    obtain rfl := Option.some.inj h
    have hplaced := hs.frames t
    rw [hstack] at hplaced ⊢
    exact hplaced.1 c' rfl
  · cases h

/-- A thread that is between two work items is in the `execute` of their executor. -/
theorem context_of_inLoop {x : ExecutorId} (h : s.inLoop t = some x) : context (s.stack t) = some x := by
  unfold System.inLoop at h
  split at h
  · rename_i x' rest hstack
    obtain rfl := Option.some.inj h
    rw [hstack]
    rfl
  · cases h

theorem stack_of_handingOn {outer : ResultId} (h : s.handingOn t = some (c, outer)) :
    ∃ rest, s.stack t = .handOn c outer :: rest := by
  unfold System.handingOn at h
  split at h
  · rename_i c' outer' rest hstack
    obtain ⟨rfl, rfl⟩ := Prod.mk.inj (Option.some.inj h)
    exact ⟨rest, hstack⟩
  · cases h

/-! ## What the pieces of a step keep -/

theorem inv_push (hs : Inv defaultExecutor s) {f : Frame}
    (hf : ∀ c, f.component = some c → context (s.stack t) = some (defaultExecutor c)) : Inv defaultExecutor (s.push t f) where
  frames := by
    intro u
    by_cases hu : u = t
    · subst hu
      simpa [System.push, WellPlaced] using And.intro hf (hs.frames u)
    · simpa [System.push, hu] using hs.frames u
  items := hs.items
  results := hs.results

/-- Code of a component starts in the context of its default executor. -/
theorem inv_push_code (hs : Inv defaultExecutor s) (hc : context (s.stack t) = some (defaultExecutor c)) :
    Inv defaultExecutor (s.push t (.code c)) := by
  refine inv_push hs ?_
  intro c' h
  obtain rfl := Option.some.inj h
  exact hc

theorem inv_pop (hs : Inv defaultExecutor s) : Inv defaultExecutor (s.pop t) where
  frames := by
    intro u
    by_cases hu : u = t
    · subst hu
      have hplaced := hs.frames u
      cases hstack : s.stack u with
      | nil => simp [System.pop, hstack, WellPlaced]
      | cons f rest =>
        rw [hstack] at hplaced
        simpa [System.pop, hstack] using hplaced.2
    · simpa [System.pop, hu] using hs.frames u
  items := hs.items
  results := hs.results

theorem inv_setExecutor (hs : Inv defaultExecutor s) {x : ExecutorId} {e : Executor WorkItem} (he : e.All (Placed defaultExecutor x)) :
    Inv defaultExecutor (s.setExecutor x e) where
  frames := hs.frames
  items := Executor.all_update hs.items he
  results := hs.results

theorem inv_enqueueWork (hs : Inv defaultExecutor s) {x : ExecutorId} {item : WorkItem} (hitem : Placed defaultExecutor x item) :
    Inv defaultExecutor (s.enqueueWork x item) :=
  inv_setExecutor hs ((hs.items x).enqueueWork hitem)

theorem inv_startHandler (hs : Inv defaultExecutor s) (hc : context (s.stack t) = some (defaultExecutor c)) {r : CallbackResult}
    (hr : Routed defaultExecutor r) : Inv defaultExecutor (s.startHandler t c r) := by
  refine inv_push_code (s := { s with results := s.results ++ [r] }) ⟨hs.frames, hs.items, ?_⟩ hc
  intro r' hr'
  rcases List.mem_append.mp hr' with hmem | hmem
  · exact hs.results r' hmem
  · obtain rfl := List.mem_singleton.mp hmem
    exact hr

theorem inv_startCallback (hs : Inv defaultExecutor s) {callback : Callback} {success : Bool}
    (hc : context (s.stack t) = some (defaultExecutor callback.component)) :
    Inv defaultExecutor (s.startCallback t callback success) := by
  unfold System.startCallback
  split
  · refine inv_push hs ?_
    intro c h
    cases success <;> exact Option.some.inj h ▸ hc
  · exact inv_push_code hs hc

/-- An answer, given by code on the default executor of the component that holds the result. -/
theorem inv_operatorCall (hs : Inv defaultExecutor s) {r : CallbackResult} {success spent : Bool} (hr : Routed defaultExecutor r)
    (hc : context (s.stack t) = some (defaultExecutor r.senderComponent)) :
    Inv defaultExecutor (s.operatorCall t r success spent) := by
  simp only [System.operatorCall, AnswerPorts.operatorCall]
  unfold Routed at hr
  split
  · rename_i x hx
    rw [hx, Option.getD_some] at hr
    exact inv_enqueueWork hs hr
  · rename_i hx
    rw [hx, Option.getD_none] at hr
    split
    · exact hs
    · exact inv_startCallback hs (by rw [hr]; exact hc)

/-- The loop of the executor's `execute` runs a work item. -/
theorem inv_runItem (hs : Inv defaultExecutor s) {x : ExecutorId} {item : WorkItem} (hitem : Placed defaultExecutor x item)
    (hc : context (s.stack t) = some x) : Inv defaultExecutor (s.runItem t item) := by
  cases item with
  | entry c =>
    refine inv_push_code hs ?_
    rw [hc, show defaultExecutor c = x from hitem]
  | request data =>
    obtain ⟨hsender, hcallback⟩ := hitem
    exact inv_startHandler hs (by rw [hc, hsender]) hcallback
  | event subscriber =>
    refine inv_push_code hs ?_
    rw [hc, show defaultExecutor subscriber = x from hitem]
  | response data =>
    simp only [System.runItem]
    split
    · exact hs
    · refine inv_startCallback hs ?_
      rw [hc, show defaultExecutor data.callback.component = x from hitem]

/-- A call without an executor override, by a component on its default executor. -/
theorem inv_call (hs : Inv defaultExecutor s) {sender : ComponentId} {h : Handler} {allowDirectCall : Bool}
    {lifetime : LifetimeWeakPtr} {outerResult : Option ResultId} (hsender : context (s.stack t) = some (defaultExecutor sender))
    (hoverride : h.executorOverride = none) :
    Inv defaultExecutor (s.call defaultExecutor t sender h allowDirectCall lifetime outerResult) := by
  have hexec : System.executor defaultExecutor h = defaultExecutor h.component := by rw [System.executor, hoverride]; rfl
  simp only [System.call, RequestPorts.execute]
  rw [hexec]
  split
  · rename_i hdirect
    have hmutual : defaultExecutor sender = defaultExecutor h.component := of_decide_eq_true (Bool.and_eq_true_iff.mp hdirect).2
    exact inv_startHandler hs (by rw [hsender, hmutual]) hmutual
  · exact inv_enqueueWork hs ⟨rfl, rfl⟩

/-- A step that keeps the discipline keeps the invariant. -/
theorem inv_step {a : Action} {s' : System} (hs : Inv defaultExecutor s) (hC : s.Disciplined defaultExecutor a)
    (h : s.step defaultExecutor a = some s') : Inv defaultExecutor s' := by
  cases a with
  | execute t x =>
    simp only [System.step] at h
    split at h
    · cases h
    · obtain rfl := Option.some.inj h
      have hmark : Inv defaultExecutor { s with executing := Function.update s.executing x true } :=
        ⟨hs.frames, hs.items, hs.results⟩
      refine inv_push (inv_setExecutor hmark (hs.items x).swap) ?_
      intro c hc
      cases hc
  | runNext t =>
    simp only [System.step] at h
    split at h
    · cases h
    rename_i x hx
    split at h
    · rename_i item e hnext
      obtain rfl := Option.some.inj h
      obtain ⟨hitem, he⟩ := (hs.items x).next hnext
      exact inv_runItem (inv_setExecutor hs he) hitem (context_of_inLoop hx)
    · cases h
  | finishBatch t =>
    simp only [System.step] at h
    split at h
    · cases h
    rename_i x hx
    split at h
    · cases h
    · obtain rfl := Option.some.inj h
      have hmark : Inv defaultExecutor { s with executing := Function.update s.executing x false } :=
        ⟨hs.frames, hs.items, hs.results⟩
      exact inv_pop (inv_setExecutor hmark (hs.items x).clear)
  | enter t c =>
    simp only [System.step] at h
    split at h
    · cases h
    · obtain rfl := Option.some.inj h
      exact inv_push_code hs hC
  | post t x c =>
    simp only [System.step] at h
    split at h
    · cases h
    · obtain rfl := Option.some.inj h
      exact inv_enqueueWork hs (Eq.symm hC)
  | call t handler allowDirectCall lifetime outerResult =>
    simp only [System.step] at h
    split at h
    · obtain ⟨sender, hsender, rfl⟩ := Option.map_eq_some_iff.mp h
      exact inv_call hs (context_of_running hs hsender) hC
    · cases h
  | event t subscriber =>
    obtain ⟨sender, hsender, rfl⟩ := Option.map_eq_some_iff.mp h
    have hcontext := context_of_running hs hsender
    unfold System.sendTo
    split
    · rename_i hsame
      exact inv_push_code hs (by rw [hcontext, hsame])
    · exact inv_enqueueWork hs rfl
  | resolve t i success spent =>
    simp only [System.step] at h
    split at h
    · cases h
    · obtain ⟨r, hr, rfl⟩ := Option.map_eq_some_iff.mp h
      have hrunning : s.running t = some r.senderComponent := by rw [show s.running t = _ from hC, hr]; rfl
      exact inv_operatorCall hs (hs.results r (List.mem_of_getElem? hr)) (context_of_running hs hrunning)
  | handOn t spent =>
    simp only [System.step] at h
    split at h
    · rename_i c outer hhand
      obtain ⟨r, hr, rfl⟩ := Option.map_eq_some_iff.mp h
      have hsender : c = r.senderComponent := by
        have hheld := hC (c, outer) hhand
        rw [hr] at hheld
        exact Option.some.inj hheld
      obtain ⟨rest, hstack⟩ := stack_of_handingOn hhand
      have hrest : context rest = some (defaultExecutor c) := by
        have hplaced := hs.frames t
        rw [hstack] at hplaced
        exact hplaced.1 c rfl
      have hpop : context ((s.pop t).stack t) = some (defaultExecutor c) := by simpa [System.pop, hstack] using hrest
      refine inv_operatorCall (inv_push_code (inv_pop hs) hpop) (hs.results r (List.mem_of_getElem? hr)) ?_
      rw [← hsender]
      simpa [System.push, context] using hpop
    · cases h
  | ret t =>
    obtain ⟨c, -, rfl⟩ := Option.map_eq_some_iff.mp h
    exact inv_pop hs
  | reset l =>
    obtain rfl := Option.some.inj h
    exact ⟨hs.frames, hs.items, hs.results⟩

end ContextAux

open ContextAux

/-- In every run of async queries and events without executor overrides, in which components are entered from outside in an
`execute` of their default executor and each `callback_result` is invoked by code of the component it was handed to: all code of a
component, that is its handlers, its event handlers and its callbacks, runs in an `execute` of its default executor. -/
theorem code_runs_at_home (defaultExecutor : ComponentId → ExecutorId) (acts : List Action) (s : System)
    (h : Transition.run (System.step defaultExecutor) System.init acts = some s)
    (hdisciplined : Transition.AllSteps (System.step defaultExecutor) (System.Disciplined defaultExecutor) System.init acts) :
    s.AtHome defaultExecutor := by
  have hinv := Transition.AllSteps.run_invariant (fun _ _ _ => inv_step) inv_init hdisciplined h
  intro t above f below c hstack hc
  have hplaced := hinv.frames t
  rw [hstack] at hplaced
  exact wellPlaced_suffix hplaced c hc

/-- Components 0 and 2 are on executor 0, and 1 and 3 on executor 1. Component 0 calls 1, which calls 3 with the result it has to
give as the outer one; 3 fails directly, and the failure is handed on to 0 through executor 0. -/
def failureHandedOn : List Action :=
  [.post 9 0 0, .execute 5 0, .runNext 5, .call 5 ⟨1, none⟩ true ⟨0, 0⟩ none, .ret 5, .finishBatch 5, .execute 6 1, .runNext 6,
    .call 6 ⟨3, none⟩ true ⟨0, 0⟩ (some 0), .resolve 6 1 false false, .handOn 6 false, .execute 5 0, .runNext 5]

/-- `code_runs_at_home` on that run: the callback of component 1 runs inside the direct call of 3, and that of 0 on executor 0. -/
theorem code_runs_at_home_failureHandedOn :
    ∃ s, Transition.run (System.step (· % 2)) System.init failureHandedOn = some s ∧
      s.stack 5 = [.code 0, .execute 0] ∧ s.stack 6 = [.code 1, .code 3, .code 1, .execute 1] ∧ s.AtHome (· % 2) := by
  obtain ⟨s, hs, h5, h6⟩ : ∃ s, Transition.run (System.step (· % 2)) System.init failureHandedOn = some s ∧
      s.stack 5 = [.code 0, .execute 0] ∧ s.stack 6 = [.code 1, .code 3, .code 1, .execute 1] := ⟨_, rfl, rfl, rfl⟩
  exact ⟨s, hs, h5, h6, code_runs_at_home _ _ s hs (by decide)⟩

end Context

end Minicomps
