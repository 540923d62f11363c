import Minicomps.QueryArguments
import Minicomps.Theorems.AsyncQuery

/-!
# When handlers get the arguments that were passed

The accounts of `AsyncQuery` say that each handler is started with the tuple its call has made. What it reads of the tuple is what was
passed as long as no variable that the tuple refers to has been written to in between.
-/

namespace Minicomps

open Transition

variable {α β : Type*}

/-- What is asked of a state: that of `AsyncSystem.Reliable`, and that each handler has found the values that were passed to its call. -/
structure ArgumentSystem.Reliable (s : ArgumentSystem α β) : Prop where
  system : s.system.Reliable
  arguments : s.received = (started s.system.history).map fun i => i.arguments.map PassedArgument.value

namespace ArgumentsAux

open ArgumentSystem AsyncAux

/-! ## Which handlers a step starts -/

section System

variable {s s' : AsyncSystem α β}

/-- The tuples of the handlers that an action starts. -/
def startedWith (s : AsyncSystem α β) : AsyncAction α β → List α
  | .call _ found _ arguments _ => if found.any Resolution.mutualExecutor then [arguments] else []
  | .runNext x =>
    match (s.executors x).next with
    | some (.request _ _ data, _) => [data.arguments]
    | _ => []
  | _ => []

/-- The tuples of all handlers that were started. -/
def tuples (s : AsyncSystem α β) : List α := (started s.history).map Invocation.arguments

theorem tuples_execute {sender : ComponentId} {found : Option Resolution} {msgInfo : MessageId} {arguments : α}
    {lifetime : LifetimeWeakPtr} (h : s.execute sender found msgInfo arguments lifetime = some s') :
    tuples s' = tuples s ++ if found.any Resolution.mutualExecutor then [arguments] else [] := by
  cases found with
  | none => cases h
  | some found =>
    simp only [AsyncSystem.execute, RequestPorts.execute] at h
    cases hmutual : found.mutualExecutor with
    | true =>
      rw [hmutual, if_pos rfl] at h
      obtain rfl := Option.some.inj h
      simp [tuples, started, AsyncSystem.startHandler, AsyncSystem.notifyListener, AsyncSystem.record, hmutual]
    | false =>
      rw [hmutual, if_neg Bool.false_ne_true] at h
      obtain rfl := Option.some.inj h
      simp [tuples, started, AsyncSystem.enqueueWork, AsyncSystem.notifyListener, AsyncSystem.record, hmutual]

theorem tuples_operatorCall (s : AsyncSystem α β) (r : CallbackResult) (value : β) : tuples (s.operatorCall r value) = tuples s := by
  simp only [AsyncSystem.operatorCall, AnswerPorts.operatorCall]
  split
  · simp [tuples, started, AsyncSystem.enqueueWork, AsyncSystem.notifyListener, AsyncSystem.record]
  · split <;> simp [tuples, started, AsyncSystem.deliver, AsyncSystem.notifyListener, AsyncSystem.record]

theorem tuples_step {a : AsyncAction α β} (h : s.step a = some s') : tuples s' = tuples s ++ startedWith s a := by
  cases a with
  | call sender found msgInfo arguments lifetime =>
    simp only [AsyncSystem.step] at h
    split at h
    · exact tuples_execute h
    · cases h
  | runNext x =>
    simp only [AsyncSystem.step] at h
    split at h
    · rename_i task e hnext
      obtain rfl := Option.some.inj h
      rw [startedWith, hnext]
      cases task with
      | request => simp [tuples, started, AsyncSystem.runTask, AsyncSystem.startHandler, AsyncSystem.record]
      | response => simp [tuples, started, AsyncSystem.runTask, AsyncSystem.deliver, AsyncSystem.record]
    · cases h
  | startBatch x =>
    simp only [AsyncSystem.step] at h
    split at h
    · obtain rfl := Option.some.inj h
      exact (List.append_nil _).symm
    · cases h
  | finishBatch x =>
    simp only [AsyncSystem.step] at h
    split at h
    · cases h
    · obtain rfl := Option.some.inj h
      exact (List.append_nil _).symm
  | resolve i value =>
    simp only [AsyncSystem.step] at h
    split at h
    · obtain rfl := Option.some.inj h
      exact (tuples_operatorCall _ _ value).trans (List.append_nil _).symm
    · cases h
  | reset l =>
    obtain rfl := Option.some.inj h
    simp [tuples, started, AsyncSystem.record, startedWith]
  | setListener c listener =>
    obtain rfl := Option.some.inj h
    exact (List.append_nil _).symm

end System

/-! ## What they read -/

variable {s s' : ArgumentSystem α β}

/-- What an action is for the system beside the memory. -/
def systemAction (memory : VariableId → α) : ArgumentAction α β → Option (AsyncAction (List (PassedArgument α)) β)
  | .assign .. => none
  | .call sender found msgInfo arguments lifetime => some (.call sender found msgInfo (passArguments memory arguments) lifetime)
  | .startBatch x => some (.startBatch x)
  | .runNext x => some (.runNext x)
  | .finishBatch x => some (.finishBatch x)
  | .resolve i value => some (.resolve i value)
  | .reset l => some (.reset l)
  | .setListener c listener => some (.setListener c listener)

/-- An executor's next task starts a handler if it is a request. -/
theorem startedWith_runNext (s : ArgumentSystem α β) (x : ExecutorId) :
    startedWith s.system (.runNext x) = (s.nextRequest x).toList := by
  rw [startedWith, nextRequest]
  rcases (s.system.executors x).next with _ | ⟨_ | _, _⟩ <;> rfl

/-- A step is one of the system, and whatever handler it starts reads its tuple; or somebody writes to a variable. -/
theorem step_cases {a : ArgumentAction α β} (h : s.step a = some s') :
    (∃ b, systemAction s.memory a = some b ∧ s.system.step b = some s'.system ∧ s'.memory = s.memory ∧
      s'.received = s.received ++ (startedWith s.system b).map (readArguments s.memory)) ∨
    ∃ x value, a = .assign x value ∧ s' = { s with memory := Function.update s.memory x value } := by
  have hlift : ∀ {b}, systemAction s.memory a = some b → startedWith s.system b = [] → s.lift b = some s' →
      ∃ b, systemAction s.memory a = some b ∧ s.system.step b = some s'.system ∧ s'.memory = s.memory ∧
        s'.received = s.received ++ (startedWith s.system b).map (readArguments s.memory) := by
    intro b hb hnone hs
    obtain ⟨system, hsystem, rfl⟩ := Option.map_eq_some_iff.mp hs
    exact ⟨b, hb, hsystem, rfl, by rw [hnone]; exact (List.append_nil _).symm⟩
  cases a with
  | assign x value => exact Or.inr ⟨x, value, rfl, (Option.some.inj h).symm⟩
  | startBatch | finishBatch | resolve | reset | setListener => exact Or.inl (hlift rfl rfl h)
  | call sender found msgInfo arguments lifetime =>
    obtain ⟨_, hs, rfl⟩ := Option.map_eq_some_iff.mp h
    obtain ⟨system, hsystem, rfl⟩ := Option.map_eq_some_iff.mp hs
    refine Or.inl ⟨_, rfl, ?_⟩
    rw [startedWith]
    split
    · exact ⟨hsystem, rfl, rfl⟩
    · exact ⟨hsystem, rfl, (List.append_nil _).symm⟩
  | runNext x =>
    obtain ⟨_, hs, rfl⟩ := Option.map_eq_some_iff.mp h
    obtain ⟨system, hsystem, rfl⟩ := Option.map_eq_some_iff.mp hs
    refine Or.inl ⟨_, rfl, ?_⟩
    rw [startedWith_runNext]
    cases s.nextRequest x with
    | some passed => exact ⟨hsystem, rfl, rfl⟩
    | none => exact ⟨hsystem, rfl, (List.append_nil _).symm⟩

/-- The variables a started handler reads have their values, where the step meets the condition. -/
theorem kept_of_keepsArguments {a : ArgumentAction α β} {b : AsyncAction (List (PassedArgument α)) β}
    (hb : systemAction s.memory a = some b) (hC : s.KeepsArguments a) : ∀ passed ∈ startedWith s.system b, ArgumentsKept s.memory passed := by
  cases a with
  | assign => cases hb
  | startBatch | finishBatch | resolve | reset | setListener =>
    obtain rfl := Option.some.inj hb
    exact fun _ h => absurd h List.not_mem_nil
  | call sender found msgInfo arguments lifetime =>
    obtain rfl := Option.some.inj hb
    rw [startedWith]
    split
    · intro passed hpassed
      rw [List.mem_singleton.mp hpassed]
      exact argumentsKept_passArguments s.memory arguments
    · exact fun _ h => absurd h List.not_mem_nil
  | runNext x =>
    obtain rfl := Option.some.inj hb
    rw [startedWith_runNext]
    exact fun passed hpassed => hC passed (Option.mem_toList.mp hpassed)

/-- The invariant: the accounts of the system, and every handler has read what was passed. -/
structure Inv (s : ArgumentSystem α β) : Prop where
  accounted : s.system.Accounted
  received : s.received = (tuples s.system).map fun passed => passed.map PassedArgument.value

theorem inv_init (component : ComponentId → Component) (memory : VariableId → α) : Inv (init component memory : ArgumentSystem α β) :=
  ⟨accounted_init component, rfl⟩

theorem inv_step {a : ArgumentAction α β} (hs : Inv s) (hC : s.KeepsArguments a) (h : s.step a = some s') : Inv s' := by
  rcases step_cases h with ⟨b, hb, hsystem, -, hreceived⟩ | ⟨x, value, rfl, rfl⟩
  · refine ⟨accounted_step hs.accounted hsystem, ?_⟩
    rw [hreceived, tuples_step hsystem, List.map_append, hs.received]
    congr 1
    exact List.map_congr_left fun passed hpassed => (readArguments_eq_iff passed).mpr (kept_of_keepsArguments hb hC passed hpassed)
  · exact ⟨hs.accounted, hs.received⟩

theorem received_of_reliable (h : s.Reliable) : s.received = (tuples s.system).map fun passed => passed.map PassedArgument.value := by
  rw [h.arguments, tuples, List.map_map]
  rfl

/-- A request that is next can be run. -/
theorem runNext_isSome {x : ExecutorId} {passed : List (PassedArgument α)} (h : s.nextRequest x = some passed) :
    ∃ s', s.step (.runNext x) = some s' := by
  unfold nextRequest at h
  split at h
  · rename_i hnext
    simp only [ArgumentSystem.step, lift, AsyncSystem.step, hnext, Option.map_some]
    exact ⟨_, rfl⟩
  · cases h

theorem reliable_of_inv (hs : Inv s) : s.Reliable where
  system := reliable_of_accounted hs.accounted
  arguments := by rw [hs.received, tuples, List.map_map]; rfl

/-- A request that is run when one of its variables has been written to starts its handler on other values than those passed. -/
theorem misread (hs : Inv s) {a : ArgumentAction α β} (hC : ¬s.KeepsArguments a) : ∃ s', s.step a = some s' ∧ ¬s'.Reliable := by
  cases a with
  | assign | call | startBatch | finishBatch | resolve | reset | setListener => exact absurd trivial hC
  | runNext x =>
    simp only [KeepsArguments, not_forall] at hC
    obtain ⟨passed, hpassed, hchanged⟩ := hC
    obtain ⟨s', hs'⟩ := runNext_isSome hpassed
    refine ⟨s', hs', fun hreliable => hchanged ?_⟩
    rcases step_cases hs' with ⟨b, hb, hsystem, -, hreceived⟩ | ⟨_, _, hassign, -⟩
    · obtain rfl := Option.some.inj hb
      have htuples := tuples_step hsystem
      have hread := received_of_reliable hreliable
      rw [startedWith_runNext, hpassed] at hreceived htuples
      rw [hreceived, htuples, List.map_append, hs.received] at hread
      exact (readArguments_eq_iff passed).mp (List.singleton_inj.mp (List.append_cancel_left hread))
    · cases hassign

end ArgumentsAux

namespace ArgumentSystem

open ArgumentsAux

/-- Exactly as long as the variables of every request that is run still have the values they had at the call, the calls are reliable: each
handler is started at most once, with the values that were passed, and has been started unless its request is still pending; and results and
callbacks are as `AsyncSystem.Reliable` says. -/
theorem asyncQuery_reliable_iff (component : ComponentId → Component) (memory : VariableId → α) (acts : List (ArgumentAction α β)) :
    AllSteps step KeepsArguments (init component memory) acts ↔
      ∀ pre s, pre <+: acts → run step (init component memory) pre = some s → s.Reliable :=
  allSteps_iff_safe (fun _ => reliable_of_inv) (fun _ _ _ => inv_step) (fun _ _ hs hC => misread hs hC) (inv_init component memory)

/-- A variable that is 5 is passed to a component on another executor, and set to 6 before that executor runs the request. -/
def overwritten : List (ArgumentAction Nat Nat) :=
  [.call 0 (some ⟨1, 70, 1, false⟩) 7 [⟨3, true⟩] ⟨0, 0⟩, .assign 3 6, .startBatch 1, .runNext 1]

/-- The handler is started with 6. -/
theorem overwritten_misread :
    ∃ s, run step (init (fun c => { defaultExecutor := c }) fun _ => 5) overwritten = some s ∧ s.received = [[6]] ∧ ¬s.Reliable :=
  ⟨_, rfl, rfl, fun h => absurd h.arguments (by decide)⟩

end ArgumentSystem

end Minicomps
