import Minicomps.ChainedCalls
import Minicomps.Lib.Transition

/-!
# A chain of calls answers once

While a chain is under way there is one place where its outer result is: the closure of one stage, which belongs to a task, to a result that
a handler has, or to a response. It gets from one place to the next, and each stage hands it on.
-/

namespace Minicomps

open Transition

namespace ChainedCalls

variable {α β φ : Type*}

namespace ChainAux

/-! ## What waits on the executors -/

/-- The tasks of the chain that an executor has. -/
def own (e : Executor (Task α β φ)) : List (Task α β φ) := e.pending.filter fun task => !task.isOther

/-- One executor has this task of the chain, and there is no other. -/
def OnlyTask (executors : ExecutorId → Executor (Task α β φ)) (x : ExecutorId) (task : Task α β φ) : Prop :=
  own (executors x) = [task] ∧ ∀ y, y ≠ x → own (executors y) = []

/-- There is no task of the chain. -/
def NoTask (executors : ExecutorId → Executor (Task α β φ)) : Prop := ∀ x, own (executors x) = []

variable {executors : ExecutorId → Executor (Task α β φ)} {x : ExecutorId} {task : Task α β φ} {e : Executor (Task α β φ)}

theorem noTask_of_quiet (h : ∀ x, ∀ task ∈ (executors x).pending, task.isOther) : NoTask executors := by
  intro x
  refine List.filter_eq_nil_iff.mpr fun task htask => ?_
  simp [h x task htask]

theorem not_noTask (h : OnlyTask executors x task) : ¬NoTask executors := by
  intro hno
  have hnil := h.1.symm.trans (hno x)
  cases hnil

/-- An executor is replaced by one with the same tasks of the chain. -/
theorem own_update (h : own e = own (executors x)) (y : ExecutorId) : own (Function.update executors x e y) = own (executors y) := by
  by_cases hy : y = x
  · subst hy
    rw [Function.update_self, h]
  · rw [Function.update_of_ne hy]

theorem own_enqueueWork (e : Executor (Task α β φ)) (task : Task α β φ) :
    own (e.enqueueWork task) = own e ++ if task.isOther then [] else [task] := by
  rw [own, Executor.pending_enqueueWork, List.filter_append]
  cases h : task.isOther <;> simp [own, h]

theorem own_swap (h : e.workItemsBackBuffer = []) : own e.swap = own e := by
  rw [own, Executor.pending_swap h, own]

theorem own_clear (h : e.next = none) : own e.clear = own e := by
  rw [own, Executor.pending_clear h, own]

theorem own_next {e' : Executor (Task α β φ)} (h : e.next = some (task, e')) :
    own e = (if task.isOther then [] else [task]) ++ own e' := by
  rw [own, Executor.pending_next h]
  cases ho : task.isOther <;> simp [own, ho]

theorem own_ne_nil {e' : Executor (Task α β φ)} (h : e.next = some (task, e')) (htask : task.isOther = false) : own e ≠ [] := by
  rw [own_next h, htask]
  exact List.cons_ne_nil task _

/-- A task is enqueued where there was none. -/
theorem NoTask.enqueueWork (h : NoTask executors) (htask : task.isOther = false) :
    OnlyTask (Function.update executors x ((executors x).enqueueWork task)) x task := by
  refine ⟨?_, fun y hy => ?_⟩
  · rw [Function.update_self, own_enqueueWork, h x, htask]
    rfl
  · rw [Function.update_of_ne hy, h y]

/-- The task that is there is run. -/
theorem OnlyTask.next {y : ExecutorId} {first : Task α β φ} (h : OnlyTask executors x task) (hnext : (executors y).next = some (first, e))
    (hfirst : first.isOther = false) : first = task ∧ NoTask (Function.update executors y e) := by
  have hown := own_next hnext
  rw [hfirst] at hown
  have hy : y = x := by
    by_contra hne
    rw [h.2 y hne] at hown
    cases hown
  subst hy
  rw [h.1] at hown
  obtain ⟨htask, hrest⟩ := List.cons.inj hown
  refine ⟨htask.symm, fun z => ?_⟩
  by_cases hz : z = y
  · subst hz
    rw [Function.update_self]
    exact hrest.symm
  · rw [Function.update_of_ne hz, h.2 z hz]

/-! ## The calls of the stages -/

variable {c : Chain α β} {values : List β}

theorem length_callsFor (c : Chain α β) (values : List β) : (c.callsFor values).length = c.stages.length := List.length_mapIdx

/-- A stage calls with the values of those before it, whatever comes after. -/
theorem take_callsFor_concat (c : Chain α β) (values : List β) (v : β) :
    (c.callsFor (values ++ [v])).take (values.length + 1) = (c.callsFor values).take (values.length + 1) := by
  refine List.ext_getElem? fun i => ?_
  by_cases hi : i < values.length + 1
  · rw [List.getElem?_take_of_lt hi, List.getElem?_take_of_lt hi, Chain.callsFor, Chain.callsFor, List.getElem?_mapIdx,
      List.getElem?_mapIdx, List.take_append_of_le_length (Nat.lt_succ_iff.mp hi)]
  · rw [List.getElem?_take_eq_none (Nat.not_lt.mp hi), List.getElem?_take_eq_none (Nat.not_lt.mp hi)]

theorem take_callsFor_succ {stage : Stage α β} {rest : List (Stage α β)} (h : c.stages.drop values.length = stage :: rest) :
    (c.callsFor values).take (values.length + 1) = (c.callsFor values).take values.length ++ [stage values] := by
  have hstage : c.stages[values.length]? = some stage := by
    rw [← Nat.add_zero values.length, ← List.getElem?_drop, h]
    rfl
  rw [List.take_add_one, Chain.callsFor, List.getElem?_mapIdx, hstage, Option.map_some, List.take_length]
  rfl

/-! ## Where the outer result is -/

/-- A stage has been called, and its callback has not been. -/
structure Called (c : Chain α β) (s : System α β φ) (values : List β) (stage : Stage α β) (rest : List (Stage α β)) : Prop where
  started : s.started = true
  stages : c.stages.drop values.length = stage :: rest
  calls : s.calls = (c.callsFor values).take (values.length + 1)
  answers : s.answers = []

/-- The place of the outer result. -/
inductive Phase (c : Chain α β) (s : System α β φ) : Prop
  | idle (hstarted : s.started = false) (hcalls : s.calls = []) (hresults : s.results = []) (hanswers : s.answers = [])
    (hout : s.outstanding = []) (hno : NoTask s.executors)
  | requested (values : List β) (stage : Stage α β) (rest : List (Stage α β)) (x : ExecutorId) (arguments : α)
    (executor : Option ExecutorId) (hcalled : Called c s values stage rest) (hresults : s.results = values.map .value)
    (hout : s.outstanding = [])
    (honly : OnlyTask s.executors x (.request arguments
      { receivingExecutor := executor, lifetime := (stage values).lifetime, callback := .successful c.outerResult rest values }))
  | held (values : List β) (stage : Stage α β) (rest : List (Stage α β)) (executor : Option ExecutorId)
    (hcalled : Called c s values stage rest) (hresults : s.results = values.map .value)
    (hout : s.outstanding =
      [{ receivingExecutor := executor, lifetime := (stage values).lifetime, callback := .successful c.outerResult rest values }])
    (hno : NoTask s.executors)
  | responding (values : List β) (stage : Stage α β) (rest : List (Stage α β)) (x : ExecutorId) (result : ConcreteResult β φ)
    (hcalled : Called c s values stage rest) (hresults : s.results = values.map .value ++ [result]) (hout : s.outstanding = [])
    (honly : OnlyTask s.executors x (.response result (.successful c.outerResult rest values) (stage values).lifetime))
  | answered (r : ConcreteResult β φ) (hstarted : s.started = true) (hended : c.Ended s r) (hanswers : s.answers = [r])
    (hout : s.outstanding = []) (hno : NoTask s.executors)
  | passedOn (r : ConcreteResult β φ) (x : ExecutorId) (hstarted : s.started = true) (hended : c.Ended s r) (hanswers : s.answers = [r])
    (hout : s.outstanding = []) (honly : OnlyTask s.executors x (.response r .outer c.outerResult.lifetime))

structure Inv (c : Chain α β) (s : System α β φ) : Prop where
  alive : c.Alive s.lifetimes
  phase : Phase c s

variable {s s' : System α β φ}

theorem inv_init {lifetimes : Lifetimes} (h : c.Alive lifetimes) : Inv c (Chain.init lifetimes : System α β φ) :=
  ⟨h, .idle rfl rfl rfl rfl rfl fun _ => rfl⟩

/-- The end of a chain is a matter of what was called and what was answered. -/
theorem ended_congr {r : ConcreteResult β φ} (h : c.Ended s r) (hcalls : s'.calls = s.calls) (hresults : s'.results = s.results) :
    c.Ended s' r := by
  cases h with
  | failed values f hf hlength hc => exact .failed values f (hresults.trans hf) hlength (hcalls.trans hc)
  | succeeded values hv hlength hc => exact .succeeded values (hresults.trans hv) hlength (hcalls.trans hc)

theorem Called.lt (h : Called c s values stage rest) : values.length < c.stages.length := by
  have hlength := congrArg List.length h.stages
  rw [List.length_drop, List.length_cons] at hlength
  omega

theorem Called.mem (h : Called c s values stage rest) : stage ∈ c.stages :=
  List.mem_of_mem_drop (h.stages ▸ List.mem_cons_self)

theorem Called.length_calls (h : Called c s values stage rest) : s.calls.length = values.length + 1 := by
  rw [h.calls, List.length_take, length_callsFor]
  exact Nat.min_eq_left h.lt

/-- Where a stage has been called, its handler may have answered. -/
theorem Called.bounded (h : Called c s values stage rest) (hresults : s.results.length ≤ values.length + 1) :
    s.results.length ≤ s.calls.length ∧ s.calls.length ≤ c.stages.length := by
  rw [h.length_calls]
  exact ⟨hresults, h.lt⟩

theorem bounded_of_ended {r : ConcreteResult β φ} (h : c.Ended s r) :
    s.results.length ≤ s.calls.length ∧ s.calls.length ≤ c.stages.length := by
  cases h with
  | failed values f hresults hlength hcalls =>
    rw [hresults, hcalls, List.length_take, length_callsFor, Nat.min_eq_left hlength]
    simp [Nat.succ_le_of_lt hlength]
  | succeeded values hresults hlength hcalls =>
    rw [hresults, hcalls, length_callsFor, List.length_map, hlength]
    exact ⟨Nat.le_refl _, Nat.le_refl _⟩

theorem answeredOnce (h : Inv c s) : c.AnsweredOnce s := by
  cases h.phase with
  | idle hstarted hcalls hresults hanswers =>
    refine ⟨?_, Or.inl hanswers, fun hs => absurd (hstarted.symm.trans hs) Bool.false_ne_true⟩
    rw [hcalls, hresults]
    exact ⟨Nat.le_refl 0, Nat.zero_le _⟩
  | requested _ _ _ _ _ _ hcalled hresults _ honly =>
    refine ⟨hcalled.bounded (by simp [hresults]), Or.inl hcalled.answers, fun _ hquiet => ?_⟩
    exact absurd (noTask_of_quiet hquiet.2) (not_noTask honly)
  | responding _ _ _ _ _ hcalled hresults _ honly =>
    refine ⟨hcalled.bounded (by simp [hresults]), Or.inl hcalled.answers, fun _ hquiet => ?_⟩
    exact absurd (noTask_of_quiet hquiet.2) (not_noTask honly)
  | held _ _ _ _ hcalled hresults hout =>
    refine ⟨hcalled.bounded (by simp [hresults]), Or.inl hcalled.answers, fun _ hquiet => ?_⟩
    have hnil := hout.symm.trans hquiet.1
    cases hnil
  | answered r _ hended hanswers | passedOn r _ _ hended hanswers =>
    refine ⟨bounded_of_ended hended, Or.inr ⟨r, hanswers, hended⟩, fun _ _ => ?_⟩
    rw [hanswers]
    exact List.cons_ne_nil r []

/-! ## Steps -/

/-- The outer result is answered, where it is not kept anywhere any more. -/
theorem phase_answerOuter {r : ConcreteResult β φ} (hstarted : s.started = true) (hended : c.Ended s r) (hanswers : s.answers = [])
    (hout : s.outstanding = []) (hno : NoTask s.executors) : Phase c (s.answerOuter c.outerResult r) := by
  have hone : s.answers ++ [r] = [r] := by rw [hanswers]; rfl
  simp only [System.answerOuter, System.operatorCall, AnswerPorts.operatorCall]
  cases c.outerResult.receivingExecutor with
  | some x => exact .passedOn r x hstarted (ended_congr hended rfl rfl) hone hout (hno.enqueueWork rfl)
  | none =>
    dsimp only
    split
    · exact .answered r hstarted (ended_congr hended rfl rfl) hone hout hno
    · exact .answered r hstarted (ended_congr hended rfl rfl) hone hout hno

/-- The next stage is called, or the outer result is answered. -/
theorem phase_proceed (hstarted : s.started = true) (hcalls : s.calls = (c.callsFor values).take values.length)
    (hresults : s.results = values.map .value) (hlength : values.length ≤ c.stages.length) (hanswers : s.answers = [])
    (hout : s.outstanding = []) (hno : NoTask s.executors) :
    Phase c (s.proceed c.answer c.outerResult (c.stages.drop values.length) values) := by
  cases hstages : c.stages.drop values.length with
  | nil =>
    have hlast : values.length = c.stages.length := Nat.le_antisymm hlength (List.drop_eq_nil_iff.mp hstages)
    rw [hlast, ← length_callsFor c values, List.take_length] at hcalls
    exact phase_answerOuter hstarted (.succeeded values hresults hlast hcalls) hanswers hout hno
  | cons stage rest =>
    have hcalled : s.calls ++ [stage values] = (c.callsFor values).take (values.length + 1) := by
      rw [take_callsFor_succ hstages, hcalls]
    -- both kinds of queries do the same with what they have found
    have hexecute : ∀ direct x, Phase c (s.executeOn direct x (stage values) (.successful c.outerResult rest values)) := by
      intro direct x
      cases direct with
      | true =>
        refine .held values stage rest none ⟨hstarted, hstages, hcalled, hanswers⟩ hresults ?_ hno
        show s.outstanding ++ _ = _
        rw [hout]
        rfl
      | false =>
        exact .requested values stage rest x (stage values).arguments (some (stage values).senderExecutor)
          ⟨hstarted, hstages, hcalled, hanswers⟩ hresults hout (hno.enqueueWork rfl)
    simp only [System.proceed, System.execute]
    cases (stage values).query with
    | asyncQuery mutualExecutor receiverExecutor => exact hexecute mutualExecutor receiverExecutor
    | ifAsyncQuery callDirectly linkedExecutor => exact hexecute callDirectly linkedExecutor

/-- The closure of a stage hands the outer result on. -/
theorem phase_invoke {stage : Stage α β} {rest : List (Stage α β)} {result : ConcreteResult β φ}
    (hcalled : Called c s values stage rest) (hresults : s.results = values.map .value ++ [result]) (hout : s.outstanding = [])
    (hno : NoTask s.executors) : Phase c (s.invoke c.answer (.successful c.outerResult rest values) result) := by
  cases result with
  | failure f => exact phase_answerOuter hcalled.started (.failed values f hresults hcalled.lt hcalled.calls) hcalled.answers hout hno
  | value v =>
    have hlength : (values ++ [v]).length = values.length + 1 := List.length_append
    have hrest : c.stages.drop (values ++ [v]).length = rest := by
      rw [hlength, ← List.drop_drop, hcalled.stages]
      rfl
    have hcalls : s.calls = (c.callsFor (values ++ [v])).take (values ++ [v]).length := by
      rw [hlength, take_callsFor_concat, hcalled.calls]
    have hle : (values ++ [v]).length ≤ c.stages.length := by
      rw [hlength]
      exact hcalled.lt
    have hmore : s.results = (values ++ [v]).map .value := by rw [hresults, List.map_append]; rfl
    have hphase := phase_proceed hcalled.started hcalls hmore hle hcalled.answers hout hno
    rwa [hrest] at hphase

/-- The executors get other tasks, or change their vectors, and the chain stays where it is. -/
theorem Phase.withExecutors {executors : ExecutorId → Executor (Task α β φ)} (h : Phase c s)
    (hown : ∀ x, own (executors x) = own (s.executors x)) : Phase c { s with executors } := by
  have hno : NoTask s.executors → NoTask executors := fun hno x => (hown x).trans (hno x)
  have honly : ∀ {x task}, OnlyTask s.executors x task → OnlyTask executors x task :=
    fun h => ⟨(hown _).trans h.1, fun y hy => (hown y).trans (h.2 y hy)⟩
  have hcalled : ∀ {values stage rest}, Called c s values stage rest → Called c { s with executors } values stage rest :=
    fun h => ⟨h.started, h.stages, h.calls, h.answers⟩
  cases h with
  | idle hstarted hcalls hresults hanswers hout h => exact .idle hstarted hcalls hresults hanswers hout (hno h)
  | requested values stage rest x arguments executor h hresults hout htask =>
    exact .requested values stage rest x arguments executor (hcalled h) hresults hout (honly htask)
  | held values stage rest executor h hresults hout htask => exact .held values stage rest executor (hcalled h) hresults hout (hno htask)
  | responding values stage rest x result h hresults hout htask =>
    exact .responding values stage rest x result (hcalled h) hresults hout (honly htask)
  | answered r hstarted h hanswers hout htask => exact .answered r hstarted (ended_congr h rfl rfl) hanswers hout (hno htask)
  | passedOn r x hstarted h hanswers hout htask => exact .passedOn r x hstarted (ended_congr h rfl rfl) hanswers hout (honly htask)

theorem phase_start (h : Phase c s) (hs : c.step s .start = some s') : Phase c s' := by
  simp only [Chain.step, Option.ite_none_left_eq_some] at hs
  obtain ⟨hnot, hs⟩ := hs
  obtain rfl := Option.some.inj hs
  cases h with
  | idle _ hcalls hresults hanswers hout hno =>
    have hnone : s.calls = (c.callsFor []).take ([] : List β).length := by
      rw [List.length_nil, List.take_zero]
      exact hcalls
    exact phase_proceed (s := { s with started := true }) rfl hnone hresults (Nat.zero_le _) hanswers hout hno
  | requested _ _ _ _ _ _ hcalled | held _ _ _ _ hcalled | responding _ _ _ _ _ hcalled => exact absurd hcalled.started hnot
  | answered _ hstarted | passedOn _ _ hstarted => exact absurd hstarted hnot

/-- A handler answers. -/
theorem phase_respond (h : Inv c s) {i : Nat} {result : ConcreteResult β φ} (hs : c.step s (.respond i result) = some s') : Phase c s' := by
  obtain ⟨r, hr, hs⟩ := Option.map_eq_some_iff.mp hs
  cases h.phase with
  | held values stage rest executor hcalled hresults hout hno =>
    have hi : i = 0 := by
      have hlt := (List.getElem?_eq_some_iff.mp hr).1
      rw [hout] at hlt
      exact Nat.lt_one_iff.mp hlt
    subst hi
    rw [hout] at hr hs
    obtain rfl := Option.some.inj hr
    have hcalled' : Called c { s with outstanding := [], results := s.results ++ [result] } values stage rest :=
      ⟨hcalled.started, hcalled.stages, hcalled.calls, hcalled.answers⟩
    have hmore : s.results ++ [result] = values.map .value ++ [result] := by rw [hresults]
    cases executor with
    | some x =>
      obtain rfl := hs
      exact .responding values stage rest x result ⟨hcalled.started, hcalled.stages, hcalled.calls, hcalled.answers⟩ hmore rfl
        (hno.enqueueWork rfl)
    | none =>
      simp only [System.operatorCall, AnswerPorts.operatorCall, h.alive.2 stage hcalled.mem values, Bool.false_eq_true, if_false] at hs
      obtain rfl := hs
      exact phase_invoke hcalled' hmore rfl hno
  | idle _ _ _ _ hout | requested _ _ _ _ _ _ _ _ hout | responding _ _ _ _ _ _ _ hout | answered _ _ _ _ hout
  | passedOn _ _ _ _ _ hout =>
    rw [hout] at hr
    cases hr

/-- An executor runs a task. -/
theorem phase_runNext (h : Inv c s) {x : ExecutorId} (hs : c.step s (.runNext x) = some s') : Phase c s' := by
  obtain ⟨⟨task, e⟩, hnext, hs⟩ := Option.map_eq_some_iff.mp hs
  obtain rfl := hs
  cases task with
  | other =>
    have hown : own e = own (s.executors x) := (own_next hnext).symm
    exact h.phase.withExecutors (own_update hown)
  | request arguments result =>
    cases h.phase with
    | requested values stage rest y arguments executor hcalled hresults hout honly =>
      obtain ⟨htask, hno⟩ := honly.next hnext rfl
      cases htask
      refine .held values stage rest executor ⟨hcalled.started, hcalled.stages, hcalled.calls, hcalled.answers⟩ hresults ?_ hno
      show s.outstanding ++ _ = _
      rw [hout]
      rfl
    | responding _ _ _ _ _ _ _ _ honly | passedOn _ _ _ _ _ _ honly => exact absurd (honly.next hnext rfl).1 (by rintro ⟨⟩)
    | idle _ _ _ _ _ hno | held _ _ _ _ _ _ _ hno | answered _ _ _ _ _ hno => exact absurd (hno x) (own_ne_nil hnext rfl)
  | response result callback lifetime =>
    cases h.phase with
    | responding values stage rest y result hcalled hresults hout honly =>
      obtain ⟨htask, hno⟩ := honly.next hnext rfl
      cases htask
      simp only [System.runTask, h.alive.2 stage hcalled.mem values, Bool.false_eq_true, if_false]
      exact phase_invoke ⟨hcalled.started, hcalled.stages, hcalled.calls, hcalled.answers⟩ hresults hout hno
    | passedOn r y hstarted hended hanswers hout honly =>
      obtain ⟨htask, hno⟩ := honly.next hnext rfl
      cases htask
      simp only [System.runTask, h.alive.1, Bool.false_eq_true, if_false]
      exact .answered _ hstarted (ended_congr hended rfl rfl) hanswers hout hno
    | requested _ _ _ _ _ _ _ _ _ honly => exact absurd (honly.next hnext rfl).1 (by rintro ⟨⟩)
    | idle _ _ _ _ _ hno | held _ _ _ _ _ _ _ hno | answered _ _ _ _ _ hno => exact absurd (hno x) (own_ne_nil hnext rfl)

theorem phase_step (h : Inv c s) {a : Action β φ} (hs : c.step s a = some s') : Phase c s' := by
  cases a with
  | start => exact phase_start h.phase hs
  | respond i result => exact phase_respond h hs
  | enqueueOther x =>
    obtain rfl := Option.some.inj hs
    exact h.phase.withExecutors (own_update ((own_enqueueWork _ _).trans (List.append_nil _)))
  | startBatch x =>
    simp only [Chain.step, Option.ite_none_right_eq_some, List.isEmpty_iff] at hs
    obtain ⟨hback, hs⟩ := hs
    obtain rfl := Option.some.inj hs
    exact h.phase.withExecutors (own_update (own_swap hback))
  | runNext x => exact phase_runNext h hs
  | finishBatch x =>
    simp only [Chain.step, Option.ite_none_right_eq_some, Option.isNone_iff_eq_none] at hs
    obtain ⟨hnext, hs⟩ := hs
    obtain rfl := Option.some.inj hs
    exact h.phase.withExecutors (own_update (own_clear hnext))

/-! ## The lifetimes stay -/

theorem lifetimes_operatorCall (s : System α β φ) (receivingExecutor : Option ExecutorId) (lifetime : LifetimeWeakPtr)
    (response : Task α β φ) (callback : System α β φ → System α β φ) (h : ∀ s, (callback s).lifetimes = s.lifetimes) :
    (s.operatorCall receivingExecutor lifetime response callback).lifetimes = s.lifetimes := by
  simp only [System.operatorCall, AnswerPorts.operatorCall]
  cases receivingExecutor with
  | some x => rfl
  | none =>
    dsimp only
    split
    · rfl
    · exact h s

theorem lifetimes_answerOuter (s : System α β φ) (outerResult : OuterResult) (result : ConcreteResult β φ) :
    (s.answerOuter outerResult result).lifetimes = s.lifetimes :=
  lifetimes_operatorCall _ _ _ _ _ fun _ => rfl

theorem lifetimes_proceed (s : System α β φ) (answer : List β → β) (outerResult : OuterResult) (rest : List (Stage α β))
    (values : List β) : (s.proceed answer outerResult rest values).lifetimes = s.lifetimes := by
  cases rest with
  | nil => exact lifetimes_answerOuter s _ _
  | cons stage rest =>
    have hexecute : ∀ direct x callback, (s.executeOn direct x (stage values) callback).lifetimes = s.lifetimes := by
      intro direct x callback
      cases direct <;> rfl
    simp only [System.proceed, System.execute]
    cases (stage values).query <;> exact hexecute _ _ _

theorem lifetimes_invoke (s : System α β φ) (answer : List β → β) (callback : Callback α β) (result : ConcreteResult β φ) :
    (s.invoke answer callback result).lifetimes = s.lifetimes := by
  cases callback with
  | outer => cases result <;> rfl
  | successful outerResult rest values =>
    cases result with
    | failure f => exact lifetimes_answerOuter s _ _
    | value v => exact lifetimes_proceed s _ _ _ _

theorem lifetimes_step {a : Action β φ} (hs : c.step s a = some s') : s'.lifetimes = s.lifetimes := by
  cases a with
  | start =>
    simp only [Chain.step, Option.ite_none_left_eq_some] at hs
    obtain ⟨-, hs⟩ := hs
    obtain rfl := Option.some.inj hs
    exact lifetimes_proceed _ _ _ _ _
  | respond i result =>
    obtain ⟨r, -, rfl⟩ := Option.map_eq_some_iff.mp hs
    exact lifetimes_operatorCall _ _ _ _ _ fun s => lifetimes_invoke s _ _ _
  | enqueueOther x =>
    obtain rfl := Option.some.inj hs
    rfl
  | startBatch x | finishBatch x =>
    simp only [Chain.step, Option.ite_none_right_eq_some] at hs
    obtain ⟨-, hs⟩ := hs
    obtain rfl := Option.some.inj hs
    rfl
  | runNext x =>
    obtain ⟨⟨task, e⟩, -, rfl⟩ := Option.map_eq_some_iff.mp hs
    cases task with
    | other | request => rfl
    | response result callback lifetime =>
      simp only [System.runTask]
      split
      · rfl
      · exact lifetimes_invoke _ _ _ _

theorem inv_step (h : Inv c s) {a : Action β φ} (hs : c.step s a = some s') : Inv c s' :=
  ⟨lifetimes_step hs ▸ h.alive, phase_step h hs⟩

end ChainAux

namespace Chain

open ChainAux

/-- A chain of calls answers its outer result once, whatever the executors are and whenever the handlers answer: with the failure of the
first stage that fails, after which no stage is called, or with what the last stage makes of its value. -/
theorem answersOnce (c : Chain α β) {lifetimes : Lifetimes} (halive : c.Alive lifetimes) {acts : List (Action β φ)} {s : System α β φ}
    (h : run c.step (Chain.init lifetimes) acts = some s) : c.AnsweredOnce s :=
  answeredOnce (run_invariant (fun _ _ _ hs h1 => inv_step hs h1) (inv_init halive) h)

/-- Two calls, one of them through the executors, whose values are added. -/
def twoCalls : Chain Nat Nat where
  outerResult := { receivingExecutor := none, lifetime := ⟨0, 0⟩ }
  stages :=
    [fun _ => { query := .asyncQuery false 1, arguments := 4, senderExecutor := 0, lifetime := ⟨0, 0⟩ },
      fun _ => { query := .ifAsyncQuery true 0, arguments := 5, senderExecutor := 0, lifetime := ⟨0, 0⟩ }]
  answer := List.foldr Nat.add 0

theorem alive_twoCalls : twoCalls.Alive fun _ => 0 := by
  refine ⟨rfl, fun stage hstage values => ?_⟩
  rcases List.mem_pair.mp hstage with rfl | rfl <;> rfl

def twoCallsRun : List (Action Nat Nat) :=
  [.start, .startBatch 1, .runNext 1, .respond 0 (.value 8), .startBatch 0, .runNext 0, .respond 0 (.value 10)]

theorem answersOnce_twoCalls :
    ∃ s, run twoCalls.step (Chain.init fun _ => 0) twoCallsRun = some s ∧ s.answers = [.value 18] ∧ twoCalls.AnsweredOnce s := by
  have hrun : (run twoCalls.step (Chain.init fun _ => 0) twoCallsRun).map System.answers = some [.value 18] := rfl
  obtain ⟨s, hs, hanswers⟩ := Option.map_eq_some_iff.mp hrun
  exact ⟨s, hs, hanswers, answersOnce twoCalls alive_twoCalls hs⟩

end Chain

end ChainedCalls

end Minicomps
