import Mathlib.Order.WithBot
import Minicomps.Theorems.Threads
import Minicomps.WaitingThreads

/-!
# When threads can come to rest

A thread that waits for nobody can let everything that it is inside of return. So the threads can all come to rest unless some of them
wait in a circle, and where locks are only taken in the order of some ranks of the components, they never do.
-/

namespace Minicomps

open Transition Acyclic WaitFor

namespace WaitingThreads

open ThreadSystem

variable {d : Deployment} {s s' : WaitingThreads} {t u : ThreadId} {c : ComponentId}

/-! ## What a step of a thread leaves alone -/

theorem stack_push {s : ThreadSystem} {f : Frame} (hu : u ≠ t) : (s.push t f).stack u = s.stack u := Function.update_of_ne hu ..

theorem stack_callLocked {s s' : ThreadSystem} {h : Handler} (hs : s.callLocked t h = some s') :
    s'.stack = Function.update s.stack t (.handler ⟨h, true⟩ :: s.stack t) := by
  obtain ⟨m, -, rfl⟩ := Option.map_eq_some_iff.mp hs
  rfl

/-- The frames that a step puts on stacks. -/
theorem stack_step {s s' : ThreadSystem} {a : ThreadAction} (hs : s.step d a = some s') :
    (∃ h locked, s'.stack = Function.update s.stack (a.thread d) (.handler ⟨h, locked⟩ :: s.stack (a.thread d))) ∨
      (∃ x, a.thread d = d.pump x ∧ s'.stack = Function.update s.stack (a.thread d) (.execute x :: s.stack (a.thread d))) ∨
      s'.stack = Function.update s.stack (a.thread d) (s.stack (a.thread d)).tail ∨ s'.stack = s.stack := by
  cases a with
  | execute x =>
    simp only [ThreadSystem.step] at hs
    split at hs
    · cases hs
    · split at hs
      · cases hs
      · obtain rfl := Option.some.inj hs
        exact Or.inr (Or.inl ⟨x, rfl, rfl⟩)
  | runNext x =>
    simp only [ThreadSystem.step] at hs
    split at hs
    · rename_i h e hnext
      obtain rfl := Option.some.inj hs
      exact Or.inl ⟨h, false, rfl⟩
    · cases hs
  | finishBatch x =>
    simp only [ThreadSystem.step] at hs
    split at hs
    · obtain rfl := Option.some.inj hs
      exact Or.inr (Or.inr (Or.inl rfl))
    · cases hs
  | send v sender m =>
    simp only [ThreadSystem.step] at hs
    split at hs
    · obtain ⟨delivery, -, hs⟩ := Option.bind_eq_some_iff.mp hs
      cases delivery with
      | direct =>
        obtain rfl := Option.some.inj hs
        exact Or.inl ⟨m.handler, false, rfl⟩
      | locked => exact Or.inl ⟨m.handler, true, stack_callLocked hs⟩
      | enqueued =>
        obtain rfl := Option.some.inj hs
        exact Or.inr (Or.inr (Or.inr rfl))
    · cases hs
  | ret v =>
    simp only [ThreadSystem.step] at hs
    split at hs
    · obtain rfl := Option.some.inj hs
      refine Or.inr (Or.inr (Or.inl ?_))
      split <;> rfl
    · cases hs

/-- What other threads are inside of, and what they wait for, has not changed. -/
structure Apart (t : ThreadId) (s s' : WaitingThreads) : Prop where
  stack : ∀ u, u ≠ t → s'.system.stack u = s.system.stack u
  waiting : ∀ u, u ≠ t → s'.waiting u = s.waiting u

theorem Apart.refl (t : ThreadId) (s : WaitingThreads) : Apart t s s := ⟨fun _ _ => rfl, fun _ _ => rfl⟩

theorem Apart.trans {s'' : WaitingThreads} (h : Apart t s s') (h' : Apart t s' s'') : Apart t s s'' :=
  ⟨fun u hu => (h'.stack u hu).trans (h.stack u hu), fun u hu => (h'.waiting u hu).trans (h.waiting u hu)⟩

theorem apart_system {system : ThreadSystem} (hstack : ∀ u, u ≠ t → system.stack u = s.system.stack u) :
    Apart t s { s with system } := ⟨hstack, fun _ _ => rfl⟩

theorem apart_setWaiting (s : WaitingThreads) (t : ThreadId) (w : Option LockWait) : Apart t s (s.setWaiting t w) :=
  ⟨fun _ _ => rfl, fun _ hu => Function.update_of_ne hu ..⟩

theorem apart_step {system : ThreadSystem} {a : ThreadAction} (hs : s.system.step d a = some system) :
    Apart (a.thread d) s { s with system } := by
  refine apart_system fun u hu => ?_
  rcases stack_step hs with ⟨h, locked, hstack⟩ | ⟨x, -, hstack⟩ | hstack | hstack
  all_goals simp [hstack, hu]

/-! ## The invariant -/

/-- What a run keeps. -/
structure Inv (d : Deployment) (s : WaitingThreads) : Prop where
  locks : LocksCounted s.system
  /-- The loop of `execute` is only on the executor's own thread. -/
  loops : ∀ t x, .execute x ∈ s.system.stack t → t = d.pump x

theorem inv_init : Inv d init := ⟨locksCounted_init, fun _ _ => nofun⟩

/-- A handler is put on a stack. -/
theorem loops_handler {s' : ThreadSystem} {e : Activation} (hs : Inv d s)
    (hstack : s'.stack = Function.update s.system.stack t (.handler e :: s.system.stack t)) :
    ∀ u x, .execute x ∈ s'.stack u → u = d.pump x := by
  intro u x hx
  rw [hstack] at hx
  by_cases hu : u = t
  · subst hu
    rw [Function.update_self, List.mem_cons] at hx
    exact hs.loops u x (hx.resolve_left nofun)
  · rw [Function.update_of_ne hu] at hx
    exact hs.loops u x hx

theorem loops_step {system : ThreadSystem} {a : ThreadAction} (hs : Inv d s) (h1 : s.system.step d a = some system) :
    ∀ u x, .execute x ∈ system.stack u → u = d.pump x := by
  rcases stack_step h1 with ⟨h, locked, hstack⟩ | ⟨y, hy, hstack⟩ | hstack | hstack
  · exact loops_handler hs hstack
  all_goals
    intro u x hx
    rw [hstack] at hx
  · by_cases hu : u = a.thread d
    · subst hu
      rw [Function.update_self, List.mem_cons] at hx
      rcases hx with hx | hx
      · exact Frame.execute.inj hx ▸ hy
      · exact hs.loops _ x hx
    · rw [Function.update_of_ne hu] at hx
      exact hs.loops u x hx
  · by_cases hu : u = a.thread d
    · subst hu
      rw [Function.update_self] at hx
      exact hs.loops _ x (List.mem_of_mem_tail hx)
    · rw [Function.update_of_ne hu] at hx
      exact hs.loops u x hx
  · exact hs.loops u x hx

theorem thread_of_starts {s : ThreadSystem} {a : ThreadAction} {e : Activation} (h : s.starts d a = some (t, e)) : a.thread d = t := by
  cases a with
  | execute x | finishBatch x | ret v => cases h
  | runNext x =>
    obtain ⟨p, -, heq⟩ := Option.map_eq_some_iff.mp h
    exact congrArg Prod.fst heq
  | send v sender m =>
    simp only [starts] at h
    split at h
    · split at h
      · exact congrArg Prod.fst (Option.some.inj h)
      · exact congrArg Prod.fst (Option.some.inj h)
      · cases h
    · cases h

theorem act_spec {a : ThreadAction} (hs : Inv d s) (h1 : s.act d a = some s') : Apart (a.thread d) s s' ∧ Inv d s' := by
  unfold act at h1
  split at h1
  · rename_i system hsystem
    obtain rfl := Option.some.inj h1
    exact ⟨apart_step hsystem, locksCounted_step hs.locks hsystem, loops_step hs hsystem⟩
  · obtain ⟨⟨t, e⟩, hstarts, rfl⟩ := Option.map_eq_some_iff.mp h1
    exact ⟨thread_of_starts hstarts ▸ apart_setWaiting s t _, hs.locks, hs.loops⟩

theorem guard_spec (hs : Inv d s) (t : ThreadId) (c : ComponentId) : Apart t s (s.guard t c) ∧ Inv d (s.guard t c) := by
  unfold guard
  split
  · exact ⟨Apart.refl t s, hs⟩
  · exact ⟨apart_setWaiting s t _, hs.locks, hs.loops⟩

theorem wake_spec {w : LockWait} (hs : Inv d s) (h1 : s.wake t w = some s') : Apart t s s' ∧ Inv d s' := by
  cases w with
  | call h =>
    obtain ⟨system, hsystem, rfl⟩ := Option.map_eq_some_iff.mp h1
    have hstack := stack_callLocked hsystem
    have hothers : ∀ u, u ≠ t → system.stack u = s.system.stack u := fun u hu => by simp [hstack, hu]
    exact ⟨(apart_system hothers).trans (apart_setWaiting _ t none), hs.locks.started (started_callLocked hsystem),
      loops_handler hs hstack⟩
  | guard c =>
    obtain ⟨-, -, rfl⟩ := Option.map_eq_some_iff.mp h1
    exact ⟨apart_setWaiting s t none, hs.locks, hs.loops⟩

theorem idle_of_wake {w : LockWait} (h1 : s.wake t w = some s') : s'.waiting t = none := by
  cases w with
  | call h =>
    obtain ⟨system, -, rfl⟩ := Option.map_eq_some_iff.mp h1
    exact Function.update_self ..
  | guard c =>
    obtain ⟨m, -, rfl⟩ := Option.map_eq_some_iff.mp h1
    exact Function.update_self ..

/-- A thread that waits for nobody gets its lock. -/
theorem exists_wake_iff {w : LockWait} (hw : s.waiting t = some w) : (∃ s', s.wake t w = some s') ↔ ∀ u, ¬s.WaitsFor t u := by
  have hlock : (∃ m, (s.system.lock w.component).lock t = some m) ↔ ∀ u, ¬s.WaitsFor t u := by
    rw [← Option.isSome_iff_exists, ← not_iff_not, Option.not_isSome_iff_eq_none, RecursiveMutex.lock_eq_none_iff]
    simp [WaitsFor, hw, ThreadSystem.Holds, Nat.pos_iff_ne_zero]
  rw [← hlock]
  cases w with
  | call h => simp [wake, callLocked, LockWait.component]
  | guard c => simp [wake, LockWait.component]

theorem not_waitsFor_of_idle (h : s.waiting t = none) (u : ThreadId) : ¬s.WaitsFor t u := by
  rintro ⟨w, hw, -⟩
  cases h.symm.trans hw

theorem waiting_of_runsCode (h : s.runsCode t = true) : s.waiting t = none := by
  unfold runsCode at h
  split at h
  · cases h
  · cases h
  · assumption

/-- What the thread that takes a step does to the others, and why it can take it: it does not wait for any of them. -/
theorem step_cases {a : WaitingAction} (hs : Inv d s) (h1 : s.step d a = some s') :
    ∃ t, Apart t s s' ∧ (∀ u, ¬s.WaitsFor t u) ∧ Inv d s' := by
  cases a with
  | thread a =>
    simp only [step, Option.ite_none_left_eq_some] at h1
    obtain ⟨hidle, h1⟩ := h1
    obtain ⟨hapart, hinv⟩ := act_spec hs h1
    exact ⟨a.thread d, hapart, not_waitsFor_of_idle (Option.not_isSome_iff_eq_none.mp hidle), hinv⟩
  | guard t c =>
    simp only [step, Option.ite_none_right_eq_some] at h1
    obtain ⟨hruns, h1⟩ := h1
    obtain rfl := Option.some.inj h1
    obtain ⟨hapart, hinv⟩ := guard_spec hs t c
    exact ⟨t, hapart, not_waitsFor_of_idle (waiting_of_runsCode hruns), hinv⟩
  | callback t c =>
    simp only [step, Option.ite_none_right_eq_some] at h1
    obtain ⟨hruns, h1⟩ := h1
    obtain rfl := Option.some.inj h1
    exact ⟨t, apart_system fun u hu => stack_push hu, not_waitsFor_of_idle (waiting_of_runsCode hruns),
      hs.locks.started (started_push _), loops_handler hs rfl⟩
  | wake t =>
    obtain ⟨w, hw, h1⟩ := Option.bind_eq_some_iff.mp h1
    obtain ⟨hapart, hinv⟩ := wake_spec hs h1
    exact ⟨t, hapart, (exists_wake_iff hw).mp ⟨s', h1⟩, hinv⟩

theorem inv_step {a : WaitingAction} (hs : Inv d s) (h1 : s.step d a = some s') : Inv d s' := by
  obtain ⟨-, -, -, hinv⟩ := step_cases hs h1
  exact hinv

/-! ## How a thread comes to rest -/

/-- Steps of the thread lead from one state to the other, and it does not wait in the end. -/
structure Leads (d : Deployment) (t : ThreadId) (s s' : WaitingThreads) : Prop where
  run : ∃ acts, run (step d) s acts = some s'
  apart : Apart t s s'
  idle : s'.waiting t = none

theorem Leads.inv (h : Leads d t s s') (hs : Inv d s) : Inv d s' := by
  obtain ⟨acts, hrun⟩ := h.run
  exact run_invariant (fun _ _ _ hs h1 => inv_step hs h1) hs hrun

theorem Leads.trans {s'' : WaitingThreads} (h : Leads d t s s') (h' : Leads d t s' s'') : Leads d t s s'' := by
  obtain ⟨acts, hrun⟩ := h.run
  obtain ⟨acts', hrun'⟩ := h'.run
  exact ⟨⟨acts ++ acts', by rw [run_append, hrun, Option.bind_some, hrun']⟩, h.apart.trans h'.apart, h'.idle⟩

theorem leads_refl (h : s.waiting t = none) : Leads d t s s := ⟨⟨[], rfl⟩, Apart.refl t s, h⟩

/-- A step of a thread that does not wait. -/
theorem leads_thread {system : ThreadSystem} {a : ThreadAction} (hidle : s.waiting (a.thread d) = none)
    (h1 : s.system.step d a = some system) : Leads d (a.thread d) s { s with system } := by
  refine ⟨⟨[.thread a], ?_⟩, apart_step h1, hidle⟩
  simp [run_cons, step, hidle, act, h1]

theorem leads_ret {e : Activation} {rest : List Frame} (hidle : s.waiting t = none) (hstack : s.system.stack t = .handler e :: rest) :
    ∃ s', Leads d t s s' ∧ s'.system.stack t = rest ∧ s'.system.executors = s.system.executors := by
  obtain ⟨system, h1, htop, hexecutors⟩ :
      ∃ system, s.system.step d (.ret t) = some system ∧ system.stack t = rest ∧ system.executors = s.system.executors := by
    refine ⟨_, by rw [ThreadSystem.step, hstack], ?_, ?_⟩
    · split <;> simp [pop, setLock, hstack]
    · split <;> rfl
  exact ⟨_, leads_thread (d := d) (a := .ret t) hidle h1, htop, hexecutors⟩

/-- The batch that the thread is in ends, after the handlers of its items have returned. -/
theorem leads_finishBatch {x : ExecutorId} {rest : List Frame} (hidle : s.waiting (d.pump x) = none)
    (hstack : s.system.stack (d.pump x) = .execute x :: rest) :
    ∃ s', Leads d (d.pump x) s s' ∧ s'.system.stack (d.pump x) = rest := by
  induction hitems : (s.system.executors x).rest generalizing s with
  | nil =>
    have hnext : (s.system.executors x).next = none := by
      cases hnext : (s.system.executors x).next with
      | none => rfl
      | some p => cases (Executor.next_eq_some hnext).1.symm.trans hitems
    have h1 : s.system.step d (.finishBatch x) =
        some ((s.system.setExecutor x (s.system.executors x).clear).pop (d.pump x)) := by
      rw [ThreadSystem.step, if_pos ⟨by rw [hstack, List.head?_cons], by rw [hnext, Option.isNone_none]⟩]
    exact ⟨_, leads_thread (d := d) (a := .finishBatch x) hidle h1, by simp [pop, setExecutor, hstack]⟩
  | cons item items ih =>
    obtain ⟨⟨h, e⟩, hnext⟩ : ∃ p, (s.system.executors x).next = some p := by
      cases hnext : (s.system.executors x).next with
      | none => cases (Executor.next_eq_none hnext).symm.trans hitems
      | some p => exact ⟨p, rfl⟩
    have hrest : e.rest = items := (List.cons.inj ((Executor.next_eq_some hnext).1.symm.trans hitems)).2
    -- the item is run, and its handler returns
    have h1 : s.system.step d (.runNext x) = some ((s.system.setExecutor x e).push (d.pump x) (.handler ⟨h, false⟩)) := by
      rw [ThreadSystem.step, nextItem, if_pos (by rw [hstack, List.head?_cons]), hnext]
    have hrun : Leads d (d.pump x) s _ := leads_thread (d := d) (a := .runNext x) hidle h1
    have hpushed : ((s.system.setExecutor x e).push (d.pump x) (.handler ⟨h, false⟩)).stack (d.pump x) =
        .handler ⟨h, false⟩ :: .execute x :: rest := by
      simp [push, setExecutor, hstack]
    obtain ⟨s', hret, hstack', hexecutors⟩ := leads_ret (d := d) hrun.idle hpushed
    obtain ⟨s'', hend, htop⟩ := ih hret.idle hstack' (by rw [hexecutors]; simp [push, setExecutor, hrest])
    exact ⟨s'', (hrun.trans hret).trans hend, htop⟩

/-- A thread that does not wait can let everything return. -/
theorem leads_rest (hs : Inv d s) (hidle : s.waiting t = none) : ∃ s', Leads d t s s' ∧ s'.AtRest t := by
  induction hstack : s.system.stack t generalizing s with
  | nil => exact ⟨s, leads_refl hidle, hstack, hidle⟩
  | cons f rest ih =>
    obtain ⟨s', hleads, hrest⟩ : ∃ s', Leads d t s s' ∧ s'.system.stack t = rest := by
      cases f with
      | handler e =>
        obtain ⟨s', hleads, hrest, -⟩ := leads_ret (d := d) hidle hstack
        exact ⟨s', hleads, hrest⟩
      | execute x =>
        obtain rfl := hs.loops t x (hstack ▸ List.mem_cons_self)
        exact leads_finishBatch hidle hstack
    obtain ⟨s'', hleads', hatRest⟩ := ih (hleads.inv hs) hleads.idle hrest
    exact ⟨s'', hleads.trans hleads', hatRest⟩

/-- A thread that waits for nobody comes to rest, and leaves the others as they are. -/
theorem exists_rest (hs : Inv d s) (hfree : ∀ u, ¬s.WaitsFor t u) : ∃ s', Leads d t s s' ∧ s'.AtRest t := by
  cases hw : s.waiting t with
  | none => exact leads_rest hs hw
  | some w =>
    obtain ⟨s', hwake⟩ := (exists_wake_iff hw).mpr hfree
    obtain ⟨hapart, hinv⟩ := wake_spec hs hwake
    have hidle : s'.waiting t = none := idle_of_wake hwake
    have hleads : Leads d t s s' := ⟨⟨[.wake t], by simp [run_cons, step, hw, hwake]⟩, hapart, hidle⟩
    obtain ⟨s'', hleads', hrest⟩ := leads_rest hinv hidle
    exact ⟨s'', hleads.trans hleads', hrest⟩

/-! ## Who holds what -/

theorem activations_of_apart (h : Apart t s s') (hu : u ≠ t) : s'.system.activations u = s.system.activations u :=
  congrArg (List.filterMap Frame.activation) (h.stack u hu)

/-- Other threads hold the locks they held. -/
theorem holds_of_apart (hs : Inv d s) (hs' : Inv d s') (h : Apart t s s') (hu : u ≠ t) :
    s'.system.Holds u c ↔ s.system.Holds u c := by
  rw [hs'.locks.holds_iff, hs.locks.holds_iff, activations_of_apart h hu]

theorem not_holds_of_rest (hs : Inv d s) (h : s.AtRest t) (c : ComponentId) : ¬s.system.Holds t c := by
  rw [hs.locks.holds_iff, activations, h.1]
  rintro ⟨e, he, -⟩
  cases he

theorem not_rest_of_waitsFor (hs : Inv d s) (h : s.WaitsFor t u) : ¬s.AtRest t ∧ ¬s.AtRest u := by
  obtain ⟨w, hw, -, hholds⟩ := h
  refine ⟨fun hrest => ?_, fun hrest => not_holds_of_rest hs hrest _ hholds⟩
  cases hw.symm.trans hrest.2

/-- A thread that came to rest made way for others. -/
theorem restsAlone (hs : Inv d s) (hs' : Inv d s') (h : Apart t s s') (hrest : s'.AtRest t) : RestsAlone AtRest WaitsFor s s' t where
  self := hrest
  others u hu := by
    by_cases hut : u = t
    · exact hut ▸ hrest
    · exact ⟨(h.stack u hut).trans hu.1, (h.waiting u hut).trans hu.2⟩
  waits u v := by
    rintro ⟨w, hw, hvu, hholds⟩
    have hu : u ≠ t := fun hut => nomatch (hut ▸ hw).symm.trans hrest.2
    have hv : v ≠ t := fun hvt => not_holds_of_rest hs' hrest _ (hvt ▸ hholds)
    exact ⟨w, (h.waiting u hu).symm.trans hw, hvu, (holds_of_apart hs hs' h hv).mp hholds⟩

/-- A thread waits on as long as the one it waits for does. -/
theorem waitsFor_step {a : WaitingAction} (hs : Inv d s) (h1 : s.step d a = some s') {v : ThreadId} (htu : s.WaitsFor t u)
    (huv : s.WaitsFor u v) : s'.WaitsFor t u := by
  obtain ⟨x, hapart, hfree, hs'⟩ := step_cases hs h1
  have ht : t ≠ x := fun htx => hfree u (htx ▸ htu)
  have hu : u ≠ x := fun hux => hfree v (hux ▸ huv)
  obtain ⟨w, hw, hne, hholds⟩ := htu
  exact ⟨w, (hapart.waiting t ht).trans hw, hne, (holds_of_apart hs hs' hapart hu).mpr hholds⟩

/-- Only finitely many threads have done anything. -/
theorem exists_threads {acts : List WaitingAction} (h : run (step d) init acts = some s) : ∃ l : List ThreadId, ∀ t, s.AtRest t ∨ t ∈ l := by
  have hinv : Inv d s ∧ ∃ l : List ThreadId, ∀ t, s.AtRest t ∨ t ∈ l := by
    refine run_invariant (P := fun s => Inv d s ∧ ∃ l : List ThreadId, ∀ t, s.AtRest t ∨ t ∈ l) ?_
      ⟨inv_init, [], fun _ => Or.inl ⟨rfl, rfl⟩⟩ h
    rintro s a s' ⟨hs, l, hl⟩ h1
    obtain ⟨x, hapart, -, hs'⟩ := step_cases hs h1
    refine ⟨hs', x :: l, fun t => ?_⟩
    by_cases ht : t = x
    · exact Or.inr (ht ▸ List.mem_cons_self)
    · refine (hl t).imp (fun hrest => ?_) (List.mem_cons_of_mem x)
      exact ⟨(hapart.stack t ht).trans hrest.1, (hapart.waiting t ht).trans hrest.2⟩
  exact hinv.2

/-! ## The results -/

theorem inv_run {acts : List WaitingAction} (h : run (step d) init acts = some s) : Inv d s :=
  run_invariant (fun _ _ _ hs h1 => inv_step hs h1) inv_init h

theorem comesToRest_iff {acts : List WaitingAction} (h : run (step d) init acts = some s) :
    ComesToRest (step d) AtRest s ↔ NoCycle s.WaitsFor := by
  obtain ⟨l, hl⟩ := exists_threads h
  refine WaitFor.comesToRest_iff (fun _ _ _ hs h1 => inv_step hs h1) ?_ (fun _ _ _ hs => not_rest_of_waitsFor hs)
    (fun _ _ _ hs h1 _ _ _ => waitsFor_step hs h1) (inv_run h) hl
  intro s t hs hfree
  obtain ⟨s', hleads, hrest⟩ := exists_rest hs hfree
  obtain ⟨acts, hrun⟩ := hleads.run
  exact ⟨acts, s', hrun, restsAlone hs (hleads.inv hs) hleads.apart hrest⟩

/-- From any state that can be reached the threads can come to rest, by letting everything that they are inside of return, exactly when no
threads wait for each other in a circle. -/
theorem threads_comeToRest_iff (d : Deployment) (acts : List WaitingAction) (h : run (step d) init acts = some s) :
    ComesToRest (step d) AtRest s ↔ NoCycle s.WaitsFor := comesToRest_iff h

/-- Component 0 is on executor 0, every other one on executor 1, and each executor is pumped by the thread of its number. -/
def twoExecutors : Deployment where
  defaultExecutor
    | 0 => 0
    | _ => 1
  pump x := x

/-- Two threads call components 1 and 0 with their locks, and the handlers call each other. -/
def callsEachOther : List WaitingAction :=
  [.thread (.send 0 0 (.syncQuery { component := 1 })), .thread (.send 1 1 (.syncQuery { component := 0 })),
    .thread (.send 0 1 (.syncQuery { component := 0 })), .thread (.send 1 0 (.syncQuery { component := 1 }))]

theorem callsEachOther_stuck :
    ∃ s, run (step twoExecutors) init callsEachOther = some s ∧ ¬ComesToRest (step twoExecutors) AtRest s := by
  obtain ⟨s, hs, hzero, hone⟩ :
      ∃ s, run (step twoExecutors) init callsEachOther = some s ∧ s.WaitsFor 0 1 ∧ s.WaitsFor 1 0 :=
    ⟨_, rfl, by decide, by decide⟩
  refine ⟨s, hs, fun h => ?_⟩
  exact (threads_comeToRest_iff twoExecutors callsEachOther hs).mp h 0 ((Relation.TransGen.single hzero).tail hone)

/-! ## Ranks -/

section Ranks

variable {ρ : Type*} [Preorder ρ] {rank : ComponentId → ρ}

/-- Whoever waits for somebody holds only locks that rank below the one it waits for. -/
def Ranked (rank : ComponentId → ρ) (s : WaitingThreads) : Prop :=
  ∀ t w b, s.waiting t = some w → s.system.Holds t b → rank b < rank w.component

/-- A thread that comes to wait does not hold the lock that it waits for. -/
theorem ranked_setWaiting {w : LockWait} (h : Ranked rank s) (hblocked : (s.system.lock w.component).lock t = none)
    (hup : s.Upward rank t w.component) : Ranked rank (s.setWaiting t (some w)) := by
  intro u w' b hw' hb
  by_cases hu : u = t
  · subst hu
    change Function.update s.waiting u (some w) u = some w' at hw'
    rw [Function.update_self] at hw'
    obtain rfl := Option.some.inj hw'
    refine hup.resolve_left (fun hheld => ?_) b hb
    obtain ⟨v, hv, hholds⟩ := RecursiveMutex.lock_eq_none_iff.mp hblocked
    exact hv (RecursiveMutex.depth_exclusive hholds hheld)
  · exact h u w' b ((Function.update_of_ne hu ..).symm.trans hw') hb

/-- A step of a thread that does not wait afterwards. -/
theorem ranked_apart (hs : Inv d s) (hs' : Inv d s') (h : Ranked rank s) (hapart : Apart t s s') (hidle : s'.waiting t = none) :
    Ranked rank s' := by
  intro u w b hw hb
  have hu : u ≠ t := fun hut => nomatch (hut ▸ hw).symm.trans hidle
  exact h u w b ((hapart.waiting u hu).symm.trans hw) ((holds_of_apart hs hs' hapart hu).mp hb)

theorem ranked_step {a : WaitingAction} (hs : Inv d s) (h : Ranked rank s) (hup : s.LocksUpward rank d a)
    (h1 : s.step d a = some s') : Ranked rank s' := by
  have hs' : Inv d s' := inv_step hs h1
  cases a with
  | thread a =>
    simp only [step, Option.ite_none_left_eq_some] at h1
    obtain ⟨hidle, h1⟩ := h1
    rw [Option.not_isSome_iff_eq_none] at hidle
    unfold act at h1
    split at h1
    · rename_i system hsystem
      obtain rfl := Option.some.inj h1
      exact ranked_apart hs hs' h (apart_step hsystem) hidle
    · rename_i hnone
      obtain ⟨⟨t, e⟩, hstarts, rfl⟩ := Option.map_eq_some_iff.mp h1
      have hlocked : e.locked = true := by
        by_contra hunlocked
        obtain ⟨system, hsystem, -⟩ := step_of_starts_unlocked hstarts (Bool.eq_false_of_not_eq_true hunlocked)
        cases hnone.symm.trans hsystem
      rw [step_of_starts_locked hstarts hlocked, callLocked, Option.map_eq_none_iff] at hnone
      exact ranked_setWaiting h hnone (hup t e hstarts hlocked)
  | guard t c =>
    simp only [step, Option.ite_none_right_eq_some] at h1
    obtain ⟨-, h1⟩ := h1
    obtain rfl := Option.some.inj h1
    unfold guard
    split
    · exact h
    · rename_i hnone
      exact ranked_setWaiting (w := .guard c) h hnone hup
  | callback t c =>
    simp only [step, Option.ite_none_right_eq_some] at h1
    obtain ⟨hruns, h1⟩ := h1
    obtain rfl := Option.some.inj h1
    have hidle : s.waiting t = none := waiting_of_runsCode hruns
    exact ranked_apart hs hs' h (apart_system fun u hu => stack_push hu) hidle
  | wake t =>
    obtain ⟨w, hw, h1⟩ := Option.bind_eq_some_iff.mp h1
    exact ranked_apart hs hs' h (wake_spec hs h1).1 (idle_of_wake h1)

/-- Along a chain of waiting threads the ranks go up. -/
theorem noCycle_of_ranked (h : Ranked rank s) : NoCycle s.WaitsFor := by
  -- a thread that does not wait is above all others
  refine noCycle_of_lt (fun t => (s.waiting t).elim ⊤ fun w => (rank w.component : WithTop ρ)) ?_
  rintro t u ⟨w, hw, -, hholds⟩
  simp only [hw, Option.elim_some]
  cases hw' : s.waiting u with
  | none => exact WithTop.coe_lt_top _
  | some w' => exact WithTop.coe_lt_coe.mpr (h u w' _ hw' hholds)

/-- Where locks are taken in the order of the components' ranks, the threads can come to rest from every state of the run. -/
theorem comesToRest_of_locksUpward (rank : ComponentId → ρ) (d : Deployment) (acts : List WaitingAction)
    (hup : AllSteps (step d) (LocksUpward rank d) init acts) (h : run (step d) init acts = some s) :
    ComesToRest (step d) AtRest s := by
  have hinv : Inv d s ∧ Ranked rank s := by
    refine AllSteps.run_invariant (P := fun s => Inv d s ∧ Ranked rank s) ?_ ⟨inv_init, fun _ _ _ => nofun⟩ hup h
    exact fun s a s' hs hC h1 => ⟨inv_step hs.1 h1, ranked_step hs.1 hs.2 hC h1⟩
  exact (comesToRest_iff h).mpr (noCycle_of_ranked hinv.2)

/-- Two threads call the same component with its lock, and the one that waits for it comes to rest in the end. -/
def callsSame : List WaitingAction :=
  [.thread (.send 0 0 (.syncQuery { component := 1 })), .thread (.send 1 0 (.syncQuery { component := 1 }))]

theorem callsSame_comesToRest :
    ∃ s, run (step twoExecutors) init callsSame = some s ∧ s.WaitsFor 1 0 ∧ ComesToRest (step twoExecutors) AtRest s := by
  obtain ⟨s, hs, hwaits⟩ : ∃ s, run (step twoExecutors) init callsSame = some s ∧ s.WaitsFor 1 0 := ⟨_, rfl, by decide⟩
  refine ⟨s, hs, hwaits, comesToRest_of_locksUpward (id : ComponentId → ℕ) twoExecutors callsSame ?_ hs⟩
  refine ⟨?_, fun s' hs' => ⟨?_, fun _ _ => trivial⟩⟩
  · rintro t e - -
    exact Or.inr fun b hb => absurd hb (Nat.lt_irrefl 0)
  · obtain rfl := Option.some.inj hs'
    rintro t e hstarts -
    obtain ⟨rfl, rfl⟩ := Prod.mk.inj (Option.some.inj hstarts)
    refine Or.inr fun b hb => absurd hb ?_
    by_cases hb1 : b = 1
    · subst hb1
      decide
    · have hfree : (Function.update (fun _ => {}) 1 ⟨some (0, 0)⟩ : ComponentId → RecursiveMutex ThreadId) b = {} :=
        Function.update_of_ne hb1 ..
      exact fun h => Nat.lt_irrefl 0 (h.trans_eq (congrArg (RecursiveMutex.depth · 1) hfree))

end Ranks

end WaitingThreads

end Minicomps
