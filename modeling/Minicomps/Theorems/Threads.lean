import Minicomps.Lib.Transition
import Minicomps.RequestProtocol
import Minicomps.Threads

/-!
# What threads do to components

Along any run the depth of a component's lock in a thread is the number of the component's handlers that the thread runs with
the lock. What else a run keeps depends on the messages that are delivered without a lock, and the two main results say on which:
for handlers to be run on the right thread or under the lock, and for threads to exclude each other from a component.
-/

namespace Minicomps

open Transition

/-! ## The decisions are those of the references -/

/-- What a query's reference resolves to is run on the executor of its handler, and the reference is mutual when the sender's
executor is that one. -/
theorem delivery_of_resolve {d : Deployment} {w : World} {kind : QueryKind} {id : MessageId} {owner : ComponentId} {res : Resolution}
    (hd : ∀ c, d.defaultExecutor c = (w.component c).defaultExecutor) (h : w.resolve kind id owner = some res) :
    let handler : Handler := ⟨res.receiver, (w.component res.receiver).lookupExecutorOverride id⟩
    res.executor = d.executor handler ∧ res.mutualExecutor = d.mutualExecutor owner handler := by
  obtain ⟨⟨c, handler⟩, -, rfl⟩ := Option.map_eq_some_iff.mp h
  have hexec : w.handlerExecutor c id = d.executor ⟨c, (w.component c).lookupExecutorOverride id⟩ := by
    rw [World.handlerExecutor, Deployment.executor, hd]
  exact ⟨hexec, decide_eq_decide.mpr (by rw [hexec, hd])⟩

/-- An event's entry for a subscriber is on the sender's executor when the two default executors are the same. -/
theorem delivery_of_receiverHandler {d : Deployment} {w : World} {id : MessageId} {owner c : ComponentId} {entry : ReceiverHandler}
    (hd : ∀ c, d.defaultExecutor c = (w.component c).defaultExecutor) (h : w.receiverHandler id owner c = some entry) :
    entry.sameExecutor = d.mutualExecutor owner { component := entry.receivingComponent } := by
  obtain ⟨handler, -, rfl⟩ := Option.map_eq_some_iff.mp h
  simp [Deployment.executor, Deployment.mutualExecutor, hd, eq_comm]

/-- A handler is called directly only where it is to be run on the sender's default executor. -/
theorem executor_of_direct {d : Deployment} {sender : ComponentId} {m : Message} (h : d.delivery sender m = some .direct) :
    d.executor m.handler = d.defaultExecutor sender := by
  have hmutual : d.mutualExecutor sender m.handler = true := by
    cases m <;> simp only [Deployment.delivery, Message.handler] at h ⊢ <;> split at h <;> simp_all
  exact (of_decide_eq_true hmutual).symm

namespace ThreadSystem

variable {d : Deployment} {s s' : ThreadSystem} {a : ThreadAction} {t u : ThreadId} {c : ComponentId} {e : Activation}

/-- An async query is sent as `execute` does it: its handler is called there and then or enqueued. -/
theorem step_asyncQuery {sender : ComponentId} {h : Handler} {allowDirectCall : Bool} (hruns : s.runsCodeOf t sender = true) :
    let ports : RequestPorts ThreadSystem (Option ThreadSystem) :=
      { callHandler := fun s => s.deliver d t h .direct
        enqueueWork := fun s => s.deliver d t h .enqueued }
    s.step d (.send t sender (.asyncQuery h allowDirectCall)) = ports.execute (allowDirectCall && d.mutualExecutor sender h) s := by
  simp only [step, if_pos hruns, Deployment.delivery, Option.bind_some, RequestPorts.execute, Message.handler]
  cases allowDirectCall && d.mutualExecutor sender h <;> rfl

/-! ## Frames -/

@[simp] theorem activations_setExecutor (x : ExecutorId) (q : Executor Handler) :
    (s.setExecutor x q).activations = s.activations := rfl

theorem activations_push (f : Frame) :
    (s.push t f).activations = Function.update s.activations t (f.activation.toList ++ s.activations t) := by
  funext u
  by_cases hu : u = t
  · subst hu
    cases hf : f.activation <;> simp [activations, push, hf]
  · simp [activations, push, hu]

theorem activations_pop {f : Frame} {rest : List Frame} (h : s.stack t = f :: rest) :
    (s.pop t).activations = Function.update s.activations t (rest.filterMap Frame.activation) := by
  funext u
  by_cases hu : u = t
  · subst hu
    simp [activations, pop, h]
  · simp [activations, pop, hu]

/-! ## What a step does to the handlers that run and to the locks -/

/-- A thread has started a handler, and has taken the component's lock for it if it was to. -/
structure Started (s : ThreadSystem) (t : ThreadId) (e : Activation) (s' : ThreadSystem) : Prop where
  activations : s'.activations = Function.update s.activations t (e :: s.activations t)
  unlocked : e.locked = false → s'.lock = s.lock
  locked : e.locked = true → ∃ m, (s.lock e.handler.component).lock t = some m ∧
    s'.lock = Function.update s.lock e.handler.component m

/-- A thread has returned from a handler, and has unlocked the component's lock if it had taken it for the handler. -/
structure Returned (s : ThreadSystem) (t : ThreadId) (e : Activation) (s' : ThreadSystem) : Prop where
  running : s.activations t = e :: s'.activations t
  others : ∀ u, u ≠ t → s'.activations u = s.activations u
  unlocked : e.locked = false → s'.lock = s.lock
  locked : e.locked = true → s'.lock =
    Function.update s.lock e.handler.component (s.lock e.handler.component).unlock

theorem started_push {q : ExecutorId → Executor Handler} (h : Handler) :
    Started s t ⟨h, false⟩ ({ s with executors := q }.push t (.handler ⟨h, false⟩)) where
  activations := activations_push _
  unlocked _ := rfl
  locked hl := nomatch hl

theorem started_callLocked {h : Handler} (hc : s.callLocked t h = some s') : Started s t ⟨h, true⟩ s' := by
  obtain ⟨m, hm, rfl⟩ := Option.map_eq_some_iff.mp hc
  exact {
    activations := activations_push _
    unlocked := fun hl => nomatch hl
    locked := fun _ => ⟨m, hm, rfl⟩ }

/-- An action that starts a handler without a lock can be taken. -/
theorem step_of_starts_unlocked (hst : s.starts d a = some (t, e)) (he : e.locked = false) :
    ∃ s', s.step d a = some s' ∧ Started s t e s' := by
  cases a with
  | execute x => cases hst
  | runNext x =>
    obtain ⟨⟨h, q⟩, hnext, heq⟩ := Option.map_eq_some_iff.mp hst
    obtain ⟨rfl, rfl⟩ := Prod.mk.inj heq
    exact ⟨(s.setExecutor x q).push (d.pump x) (.handler ⟨h, false⟩), by rw [step, hnext], started_push h⟩
  | finishBatch x => cases hst
  | send v sender m =>
    simp only [starts] at hst
    split at hst
    · rename_i hruns
      split at hst
      · rename_i hdirect
        obtain ⟨rfl, rfl⟩ := Prod.mk.inj (Option.some.inj hst)
        refine ⟨s.push v (.handler ⟨m.handler, false⟩), ?_, started_push m.handler⟩
        rw [step, if_pos hruns, hdirect]
        rfl
      · obtain ⟨rfl, rfl⟩ := Prod.mk.inj (Option.some.inj hst)
        cases he
      · cases hst
    · cases hst
  | ret v => cases hst

/-- An action that starts a handler with a lock is a call that waits for the lock. -/
theorem step_of_starts_locked (hst : s.starts d a = some (t, e)) (he : e.locked = true) :
    s.step d a = s.callLocked t e.handler := by
  cases a with
  | execute x => cases hst
  | runNext x =>
    obtain ⟨⟨h, q⟩, hnext, heq⟩ := Option.map_eq_some_iff.mp hst
    obtain ⟨rfl, rfl⟩ := Prod.mk.inj heq
    cases he
  | finishBatch x => cases hst
  | send v sender m =>
    simp only [starts] at hst
    split at hst
    · rename_i hruns
      split at hst
      · obtain ⟨rfl, rfl⟩ := Prod.mk.inj (Option.some.inj hst)
        cases he
      · rename_i hlocked
        obtain ⟨rfl, rfl⟩ := Prod.mk.inj (Option.some.inj hst)
        rw [step, if_pos hruns, hlocked]
        rfl
      · cases hst
    · cases hst
  | ret v => cases hst

theorem started_of_starts (hst : s.starts d a = some (t, e)) (hs : s.step d a = some s') : Started s t e s' := by
  rcases e with ⟨h, _ | _⟩
  · obtain ⟨s'', hs'', hstarted⟩ := step_of_starts_unlocked hst rfl
    obtain rfl := Option.some.inj (hs''.symm.trans hs)
    exact hstarted
  · exact started_callLocked (step_of_starts_locked hst rfl ▸ hs)

theorem returned_of_ret (hs : s.step d (.ret t) = some s') : ∃ e, Returned s t e s' := by
  simp only [step] at hs
  split at hs
  · rename_i e rest hstack
    obtain rfl := Option.some.inj hs
    have hrunning : s.activations t = e :: rest.filterMap Frame.activation := by simp [activations, hstack, Frame.activation]
    have hpop := activations_pop hstack
    refine ⟨e, ?_⟩
    cases hl : e.locked with
    | false =>
      refine ⟨?_, ?_, fun _ => rfl, fun h => nomatch hl.symm.trans h⟩
      · simpa [hpop] using hrunning
      · intro u hu
        simp [hpop, hu]
    | true =>
      have hpop' : ((s.setLock e.handler.component (s.lock e.handler.component).unlock).pop t).activations =
          Function.update s.activations t (rest.filterMap Frame.activation) := hpop
      refine ⟨?_, ?_, fun h => (nomatch hl.symm.trans h), fun _ => rfl⟩
      · simp [hpop', hrunning]
      · intro u hu
        simp [hpop', hu]
  · cases hs

/-- A step starts a handler, returns from one, or leaves the running handlers and the locks as they are. -/
theorem step_cases (hs : s.step d a = some s') :
    (∃ t e, s.starts d a = some (t, e) ∧ Started s t e s') ∨ (∃ t e, Returned s t e s') ∨
      (s'.activations = s.activations ∧ s'.lock = s.lock) := by
  cases hst : s.starts d a with
  | some p => exact .inl ⟨p.1, p.2, rfl, started_of_starts hst hs⟩
  | none =>
    cases a with
    | execute x =>
      simp only [step] at hs
      split at hs
      · cases hs
      · split at hs
        · cases hs
        · obtain rfl := Option.some.inj hs
          exact .inr (.inr ⟨by simp [activations_push, Frame.activation], rfl⟩)
    | runNext x =>
      have hnext : s.nextItem d x = none := Option.map_eq_none_iff.mp hst
      rw [step, hnext] at hs
      cases hs
    | finishBatch x =>
      simp only [step] at hs
      split at hs
      · rename_i hloop
        obtain rfl := Option.some.inj hs
        obtain ⟨rest, hstack⟩ := List.head?_eq_some_iff.mp hloop.1
        have hpop : ((s.setExecutor x (s.executors x).clear).pop (d.pump x)).activations =
            Function.update s.activations (d.pump x) (rest.filterMap Frame.activation) := activations_pop hstack
        have hsame : s.activations (d.pump x) = rest.filterMap Frame.activation := by
          rw [activations, hstack, List.filterMap_cons_none rfl]
        exact .inr (.inr ⟨by rw [hpop, ← hsame, Function.update_eq_self], rfl⟩)
      · cases hs
    | send v sender m =>
      simp only [step] at hs
      split at hs
      · rename_i hruns
        obtain ⟨delivery, hdelivery, hs⟩ := Option.bind_eq_some_iff.mp hs
        cases delivery with
        | direct => simp [starts, hruns, hdelivery] at hst
        | locked => simp [starts, hruns, hdelivery] at hst
        | enqueued =>
          obtain rfl := Option.some.inj hs
          exact .inr (.inr ⟨rfl, rfl⟩)
      · cases hs
    | ret v =>
      obtain ⟨e, he⟩ := returned_of_ret hs
      exact .inr (.inl ⟨v, e, he⟩)

/-! ## Locks and the handlers they are held for -/

/-- How many of the running handlers are the component's, and were called with its lock. -/
def lockedCalls (running : List Activation) (c : ComponentId) : Nat :=
  running.countP fun e => e.locked && decide (e.handler.component = c)

theorem lockedCalls_cons (running : List Activation) :
    lockedCalls (e :: running) c =
      lockedCalls running c + if e.locked = true ∧ e.handler.component = c then 1 else 0 := by
  simp [lockedCalls, List.countP_cons]

theorem lockedCalls_pos {running : List Activation} :
    0 < lockedCalls running c ↔ ∃ e ∈ running, e.locked = true ∧ e.handler.component = c := by
  simp [lockedCalls, List.countP_pos_iff]

/-- Each thread has each component's lock as many times as it runs handlers for which it took it. -/
def LocksCounted (s : ThreadSystem) : Prop := ∀ t c, (s.lock c).depth t = lockedCalls (s.activations t) c

theorem locksCounted_init : LocksCounted init := fun _ _ => rfl

theorem LocksCounted.holds_iff (hs : LocksCounted s) :
    s.Holds t c ↔ ∃ e ∈ s.activations t, e.locked = true ∧ e.handler.component = c := by
  rw [Holds, hs t c, lockedCalls_pos]

/-- A thread that holds a component's lock is inside the component. -/
theorem LocksCounted.inside (hs : LocksCounted s) (h : s.Holds t c) : s.Inside t c := by
  obtain ⟨e, he, -, hc⟩ := hs.holds_iff.mp h
  exact ⟨e, he, hc⟩

theorem LocksCounted.started (hs : LocksCounted s) (h : Started s t e s') : LocksCounted s' := by
  intro u c
  rw [h.activations]
  cases he : e.locked with
  | false =>
    rw [h.unlocked he, hs u c]
    by_cases hu : u = t
    · simp [hu, lockedCalls_cons, he]
    · simp [hu]
  | true =>
    obtain ⟨m, hm, hlock⟩ := h.locked he
    rw [hlock]
    by_cases hc : c = e.handler.component
    · rw [hc, Function.update_self, RecursiveMutex.depth_lock hm]
      by_cases hu : u = t
      · simp [hu, lockedCalls_cons, he, hs t]
      · simp [hu, hs u]
    · rw [Function.update_of_ne hc, hs u c]
      by_cases hu : u = t
      · simp [hu, lockedCalls_cons, Ne.symm hc]
      · simp [hu]

theorem LocksCounted.returned (hs : LocksCounted s) (h : Returned s t e s') : LocksCounted s' := by
  intro u c
  have hcount : lockedCalls (s.activations t) c =
      lockedCalls (s'.activations t) c + if e.locked = true ∧ e.handler.component = c then 1 else 0 := by
    rw [h.running, lockedCalls_cons]
  cases he : e.locked with
  | false =>
    rw [h.unlocked he, hs u c]
    by_cases hu : u = t
    · simp [hu, hcount, he]
    · rw [h.others u hu]
  | true =>
    rw [h.locked he]
    by_cases hc : c = e.handler.component
    · have hheld : 0 < (s.lock e.handler.component).depth t := by
        rw [hs t, ← hc, hcount]
        simp [he, hc]
      rw [hc, Function.update_self, RecursiveMutex.depth_unlock hheld]
      by_cases hu : u = t
      · simp [hu, hs t, ← hc, hcount, he]
      · simp [hu, hs u, h.others u hu]
    · rw [Function.update_of_ne hc, hs u c]
      by_cases hu : u = t
      · simp [hu, hcount, Ne.symm hc]
      · rw [h.others u hu]

theorem locksCounted_step (hs : LocksCounted s) (h : s.step d a = some s') : LocksCounted s' := by
  rcases step_cases h with ⟨t, e, -, hstarted⟩ | ⟨t, e, hreturned⟩ | ⟨hact, hlock⟩
  · exact hs.started hstarted
  · exact hs.returned hreturned
  · intro t c
    rw [hact, hlock]
    exact hs t c

/-- Handlers that are called with the lock exclude each other in every run, however else their component is entered. -/
theorem lockedCalls_exclusive (d : Deployment) (acts : List ThreadAction) (h : run (step d) init acts = some s)
    {e e' : Activation} (he : e ∈ s.activations t) (he' : e' ∈ s.activations u) (hlocked : e.locked = true)
    (hlocked' : e'.locked = true) (hc : e.handler.component = e'.handler.component) : t = u := by
  have hs : LocksCounted s := run_invariant (fun _ _ _ hs hstep => locksCounted_step hs hstep) locksCounted_init h
  have ht : s.Holds t e'.handler.component := hs.holds_iff.mpr ⟨e, he, hlocked, hc⟩
  have hu : s.Holds u e'.handler.component := hs.holds_iff.mpr ⟨e', he', hlocked', rfl⟩
  exact RecursiveMutex.depth_exclusive ht hu

/-! ## Who is inside a component -/

theorem Started.inside_iff (h : Started s t e s') :
    s'.Inside u c ↔ s.Inside u c ∨ (u = t ∧ e.handler.component = c) := by
  simp only [Inside, h.activations]
  by_cases hu : u = t
  · subst hu
    simp [or_comm]
  · simp [hu]

theorem Returned.inside (h : Returned s t e s') (hin : s'.Inside u c) : s.Inside u c := by
  obtain ⟨b, hb, hc⟩ := hin
  refine ⟨b, ?_, hc⟩
  by_cases hu : u = t
  · subst hu
    exact h.running ▸ List.mem_cons_of_mem e hb
  · exact h.others u hu ▸ hb

/-- A thread that gets a component's lock finds no other thread that holds it. -/
theorem Started.not_holds (h : Started s t e s') (he : e.locked = true) (hu : u ≠ t) : ¬s.Holds u e.handler.component := by
  intro hholds
  obtain ⟨m, hm, -⟩ := h.locked he
  exact nomatch (RecursiveMutex.lock_eq_none_iff.mpr ⟨u, hu, hholds⟩).symm.trans hm

/-- What a run keeps as long as no thread passes another by without the lock. -/
structure ExclusiveInv (s : ThreadSystem) : Prop where
  locks : LocksCounted s
  exclusive : s.Exclusive

theorem exclusive_started (hs : s.Exclusive) (hothers : ∀ u, u ≠ t → ¬s.Inside u e.handler.component)
    (h : Started s t e s') : s'.Exclusive := by
  intro u v c hu hv
  rcases h.inside_iff.mp hu with hu | ⟨rfl, rfl⟩
  · rcases h.inside_iff.mp hv with hv | ⟨rfl, rfl⟩
    · exact hs u v c hu hv
    · by_contra hne
      exact hothers u hne hu
  · rcases h.inside_iff.mp hv with hv | ⟨rfl, -⟩
    · by_contra hne
      exact hothers v (Ne.symm hne) hv
    · rfl

theorem exclusive_step (hs : ExclusiveInv s) (hC : s.OthersHoldLock d a) (h : s.step d a = some s') : ExclusiveInv s' := by
  refine ⟨locksCounted_step hs.locks h, ?_⟩
  rcases step_cases h with ⟨t, e, hst, hstarted⟩ | ⟨t, e, hreturned⟩ | ⟨hact, -⟩
  · refine exclusive_started hs.exclusive ?_ hstarted
    intro u hu hin
    obtain ⟨hlocked, hholds⟩ := hC t e hst u hu hin
    exact hstarted.not_holds hlocked hu hholds
  · exact fun u v c hu hv => hs.exclusive u v c (hreturned.inside hu) (hreturned.inside hv)
  · intro u v c hu hv
    simp only [Inside, hact] at hu hv
    exact hs.exclusive u v c hu hv

/-- A handler that is started past another thread, without the lock or while the other is inside without it, can be started. -/
theorem step_past_other (hs : ExclusiveInv s) (hst : s.starts d a = some (t, e)) (hu : u ≠ t)
    (hin : s.Inside u e.handler.component) (hpast : ¬(e.locked = true ∧ s.Holds u e.handler.component)) :
    ∃ s', s.step d a = some s' := by
  cases he : e.locked with
  | false =>
    obtain ⟨s', hs', -⟩ := step_of_starts_unlocked hst he
    exact ⟨s', hs'⟩
  | true =>
    rw [step_of_starts_locked hst he, callLocked]
    cases hm : (s.lock e.handler.component).lock t with
    | some m => exact ⟨_, rfl⟩
    | none =>
      obtain ⟨v, -, hholds⟩ := RecursiveMutex.lock_eq_none_iff.mp hm
      -- Whoever holds the lock is inside, so it is the thread that was found there.
      obtain rfl := hs.exclusive v u _ (hs.locks.inside hholds) hin
      exact absurd ⟨he, hholds⟩ hpast

/-- The threads of a run exclude each other from every component, in every state the run passes through, exactly when a thread
that starts a handler never finds another thread inside the component, except behind the lock that it then waits for. -/
theorem handlers_exclusive_iff (d : Deployment) (acts : List ThreadAction) :
    AllSteps (step d) (OthersHoldLock d) init acts ↔
      ∀ pre s, pre <+: acts → run (step d) init pre = some s → s.Exclusive := by
  refine allSteps_iff_safe (P := ExclusiveInv) (fun s hs => hs.exclusive) (fun s a s' hs hC h => exclusive_step hs hC h) ?_ ?_
  · intro s a hs hC
    simp only [OthersHoldLock, not_forall] at hC
    obtain ⟨t, e, hst, u, hu, hin, hpast⟩ := hC
    obtain ⟨s', hs'⟩ := step_past_other hs hst hu hin hpast
    have hstarted := started_of_starts hst hs'
    refine ⟨s', hs', fun hexclusive => hu ?_⟩
    exact hexclusive u t _ (hstarted.inside_iff.mpr (.inl hin)) (hstarted.inside_iff.mpr (.inr ⟨rfl, rfl⟩))
  · refine ⟨locksCounted_init, ?_⟩
    intro t u c ht
    obtain ⟨e, he, -⟩ := ht
    cases he

/-- Component 0 has executor 1, components 1 and 2 share executor 2, and any other has executor 3. Each executor is pumped by the
thread of its number. -/
def threeExecutors : Deployment where
  defaultExecutor
    | 0 => 1
    | 1 | 2 => 2
    | _ => 3
  pump x := x

/-- Thread 2 runs an async query of component 1 from its queue, without the lock; thread 1 gets the lock for a sync query. -/
theorem queued_meets_locked :
    ¬∀ (d : Deployment) (acts : List ThreadAction) (s : ThreadSystem), run (step d) init acts = some s → s.Exclusive := by
  intro h
  have hrun := h threeExecutors
    [.send 3 3 (.asyncQuery { component := 1 } true), .execute 2, .runNext 2, .send 1 0 (.syncQuery { component := 1 })] _ rfl
  exact absurd (hrun 1 2 1 ⟨⟨{ component := 1 }, true⟩, by decide, rfl⟩ ⟨⟨{ component := 1 }, false⟩, by decide, rfl⟩) (by decide)

/-! ## Which thread a handler runs on -/

theorem all_nextItem {Q : ExecutorId → Handler → Prop} (hs : ∀ x, (s.executors x).All (Q x)) {x : ExecutorId} {h : Handler}
    {q : Executor Handler} (hnext : s.nextItem d x = some (h, q)) : Q x h ∧ q.All (Q x) := by
  unfold ThreadSystem.nextItem at hnext
  split at hnext
  · exact (hs x).next hnext
  · cases hnext

/-- What is true of the work items of an executor stays true, if it is of those that are enqueued. -/
theorem items_step {Q : ExecutorId → Handler → Prop} (hs : ∀ x, (s.executors x).All (Q x)) (h : s.step d a = some s')
    (hsend : ∀ v sender m, a = .send v sender m → s.runsCodeOf v sender = true → d.delivery sender m = some .enqueued →
      Q (d.executor m.handler) m.handler) (x : ExecutorId) : (s'.executors x).All (Q x) := by
  have hset : ∀ {y : ExecutorId} {q : Executor Handler}, q.All (Q y) → ∀ x, ((s.setExecutor y q).executors x).All (Q x) :=
    fun hq => Executor.all_update hs hq
  cases a with
  | execute y =>
    simp only [step] at h
    split at h
    · cases h
    · split at h
      · cases h
      · obtain rfl := Option.some.inj h
        exact hset (hs y).swap x
  | runNext y =>
    simp only [step] at h
    split at h
    · rename_i item q hnext
      obtain rfl := Option.some.inj h
      exact hset (all_nextItem hs hnext).2 x
    · cases h
  | finishBatch y =>
    simp only [step] at h
    split at h
    · obtain rfl := Option.some.inj h
      exact hset (hs y).clear x
    · cases h
  | send v sender m =>
    simp only [step] at h
    split at h
    · rename_i hruns
      obtain ⟨delivery, hdelivery, h⟩ := Option.bind_eq_some_iff.mp h
      cases delivery with
      | direct =>
        obtain rfl := Option.some.inj h
        exact hs x
      | locked =>
        obtain ⟨m', -, rfl⟩ := Option.map_eq_some_iff.mp h
        exact hs x
      | enqueued =>
        obtain rfl := Option.some.inj h
        exact hset ((hs _).enqueueWork (hsend v sender m rfl hruns hdelivery)) x
    · cases h
  | ret v =>
    simp only [step] at h
    split at h
    · obtain rfl := Option.some.inj h
      split <;> exact hs x
    · cases h

/-- What is true of each handler that runs inside those that called it stays true, if it is of one that is started. -/
theorem nested_step {P : ThreadId → Activation → List Activation → Prop} (hs : ∀ t e rest, e :: rest <:+ s.activations t → P t e rest)
    (h : s.step d a = some s') (hstart : ∀ t e, s.starts d a = some (t, e) → P t e (s.activations t)) (u : ThreadId) (b : Activation)
    (rest : List Activation) (hsuffix : b :: rest <:+ s'.activations u) : P u b rest := by
  rcases step_cases h with ⟨t, e, hst, hstarted⟩ | ⟨t, e, hreturned⟩ | ⟨hact, -⟩
  · rw [hstarted.activations] at hsuffix
    by_cases hu : u = t
    · subst hu
      rw [Function.update_self] at hsuffix
      rcases List.suffix_cons_iff.mp hsuffix with heq | hold
      · obtain ⟨rfl, rfl⟩ := List.cons.inj heq
        exact hstart u _ hst
      · exact hs u b rest hold
    · rw [Function.update_of_ne hu] at hsuffix
      exact hs u b rest hsuffix
  · by_cases hu : u = t
    · subst hu
      exact hs u b rest (hreturned.running ▸ hsuffix.trans (List.suffix_cons _ _))
    · exact hs u b rest (hreturned.others u hu ▸ hsuffix)
  · exact hs u b rest (hact ▸ hsuffix)

/-- Each work item is on the executor its handler is to be run on. -/
def QueuedAtHome (d : Deployment) (s : ThreadSystem) : Prop := ∀ x, (s.executors x).All fun h => d.executor h = x

/-- The handler of the activation runs on the thread of its executor, or one of the given activations has the lock of its
component. -/
def GuardedBy (d : Deployment) (t : ThreadId) (running : List Activation) (e : Activation) : Prop :=
  t = d.pump (d.executor e.handler) ∨ ∃ b ∈ running, b.locked = true ∧ b.handler.component = e.handler.component

/-- What a run keeps as long as direct calls are made at home. A handler's guard is no further in than the handler itself, so it
stays as long as the handler does. -/
structure GuardedInv (d : Deployment) (s : ThreadSystem) : Prop where
  locks : LocksCounted s
  queued : QueuedAtHome d s
  nested : ∀ t e rest, e :: rest <:+ s.activations t → GuardedBy d t (e :: rest) e

theorem guarded_of_inv (hs : GuardedInv d s) : s.Guarded d := by
  intro t e he
  obtain ⟨inner, rest, hsplit⟩ := List.append_of_mem he
  rcases hs.nested t e rest ⟨inner, hsplit.symm⟩ with ht | ⟨b, hb, hlocked, hc⟩
  · exact .inl ht
  · refine .inr (hs.locks.holds_iff.mpr ⟨b, ?_, hlocked, hc⟩)
    rw [hsplit]
    exact List.mem_append_right _ hb

/-- A handler that is started is guarded: from the queue or called directly at home by its thread, and otherwise by the lock. -/
theorem guardedBy_of_starts (hs : GuardedInv d s) (hC : s.DirectAtHome d a) (hst : s.starts d a = some (t, e)) :
    GuardedBy d t (e :: s.activations t) e := by
  cases a with
  | execute x => cases hst
  | runNext x =>
    obtain ⟨⟨h, q⟩, hnext, heq⟩ := Option.map_eq_some_iff.mp hst
    obtain ⟨rfl, rfl⟩ := Prod.mk.inj heq
    exact .inl (congrArg d.pump (all_nextItem hs.queued hnext).1.symm)
  | finishBatch x => cases hst
  | send v sender m =>
    simp only [starts] at hst
    split at hst
    · rename_i hruns
      split at hst
      · rename_i hdirect
        obtain ⟨rfl, rfl⟩ := Prod.mk.inj (Option.some.inj hst)
        rcases hC hruns hdirect with ht | hholds
        · exact .inl (by rw [executor_of_direct hdirect]; exact ht)
        · obtain ⟨b, hb, hlocked, hc⟩ := hs.locks.holds_iff.mp hholds
          exact .inr ⟨b, List.mem_cons_of_mem _ hb, hlocked, hc⟩
      · obtain ⟨rfl, rfl⟩ := Prod.mk.inj (Option.some.inj hst)
        exact .inr ⟨_, List.mem_cons_self, rfl, rfl⟩
      · cases hst
    · cases hst
  | ret v => cases hst

theorem guarded_step (hs : GuardedInv d s) (hC : s.DirectAtHome d a) (h : s.step d a = some s') : GuardedInv d s' where
  locks := locksCounted_step hs.locks h
  queued := items_step hs.queued h fun _ _ _ _ _ _ => rfl
  nested := nested_step (P := fun t e rest => GuardedBy d t (e :: rest) e) hs.nested h fun _ _ => guardedBy_of_starts hs hC

/-- In every state a run passes through, each handler runs on the thread of its executor or under its component's lock, exactly
when every direct call of the run is made on the thread of the sender's default executor or under the receiver's lock. -/
theorem handlers_guarded_iff (d : Deployment) (acts : List ThreadAction) :
    AllSteps (step d) (DirectAtHome d) init acts ↔
      ∀ pre s, pre <+: acts → run (step d) init pre = some s → s.Guarded d := by
  refine allSteps_iff_safe (P := GuardedInv d) (fun s hs => guarded_of_inv hs) (fun s a s' hs hC h => guarded_step hs hC h) ?_ ?_
  · intro s a hs hC
    cases a with
    | send t sender m =>
      simp only [DirectAtHome, Classical.not_imp, not_or] at hC
      obtain ⟨hruns, hdirect, ht, hholds⟩ := hC
      have hst : s.starts d (.send t sender m) = some (t, ⟨m.handler, false⟩) := by simp [starts, hruns, hdirect]
      obtain ⟨s', hs', hstarted⟩ := step_of_starts_unlocked hst rfl
      refine ⟨s', hs', ?_⟩
      intro hguarded
      rcases hguarded t ⟨m.handler, false⟩ (by simp [hstarted.activations]) with hhome | hlocked
      · exact ht (executor_of_direct hdirect ▸ hhome)
      · rw [Holds, hstarted.unlocked rfl] at hlocked
        exact hholds hlocked
    | _ => exact absurd trivial hC
  · refine ⟨locksCounted_init, ?_, ?_⟩
    · intro x h hh
      cases hh
    · intro t e rest hsuffix
      cases List.suffix_nil.mp hsuffix

/-- A handler of component 1 runs on thread 1 under its lock, and calls component 2 directly, since the two share an executor;
neither is that executor thread 1's, nor is component 2 locked. -/
theorem direct_call_away :
    ¬∀ (d : Deployment) (acts : List ThreadAction) (s : ThreadSystem), run (step d) init acts = some s → s.Guarded d := by
  intro h
  have hrun := h threeExecutors
    [.send 3 3 (.asyncQuery { component := 0 } true), .execute 1, .runNext 1, .send 1 0 (.syncQuery { component := 1 }),
      .send 1 1 (.syncQuery { component := 2 })] _ rfl
  rcases hrun 1 ⟨{ component := 2 }, false⟩ (by decide) with ht | hholds
  · exact absurd ht (by decide)
  · exact absurd hholds (by decide)

/-! ## One way into each component -/

/-- A handler of a component that is called with its lock runs inside one that was; any other runs on its component's home thread. -/
def EnteredOneWay (d : Deployment) (locked : ComponentId → Bool) (t : ThreadId) (e : Activation) (rest : List Activation) : Prop :=
  if locked e.handler.component then ∃ b ∈ e :: rest, b.locked = true ∧ b.handler.component = e.handler.component
  else t = d.homeThread e.handler.component

/-- A work item is of a component that is not called with its lock, and is run on its home thread. -/
def QueuedOneWay (d : Deployment) (locked : ComponentId → Bool) (x : ExecutorId) (h : Handler) : Prop :=
  locked h.component = false ∧ d.pump x = d.homeThread h.component

/-- What a run keeps as long as each component is called in one way only. -/
structure OneWayInv (d : Deployment) (locked : ComponentId → Bool) (s : ThreadSystem) : Prop where
  locks : LocksCounted s
  queued : ∀ x, (s.executors x).All (QueuedOneWay d locked x)
  nested : ∀ t e rest, e :: rest <:+ s.activations t → EnteredOneWay d locked t e rest

section OneWay

variable {locked : ComponentId → Bool}

theorem oneWayInv_init : OneWayInv d locked init where
  locks := locksCounted_init
  queued _ _ hh := absurd hh List.not_mem_nil
  nested _ _ _ hsuffix := by cases List.suffix_nil.mp hsuffix

/-- Whoever is inside a component that is called with its lock holds it, and whoever is inside another one is its home thread. -/
theorem OneWayInv.inside (hs : OneWayInv d locked s) (h : s.Inside u c) : if locked c then s.Holds u c else u = d.homeThread c := by
  obtain ⟨e, he, rfl⟩ := h
  obtain ⟨inner, rest, hsplit⟩ := List.append_of_mem he
  have hentered := hs.nested u e rest ⟨inner, hsplit.symm⟩
  unfold EnteredOneWay at hentered
  split at hentered
  · rename_i hlocked
    obtain ⟨b, hb, hb'⟩ := hentered
    rw [if_pos hlocked]
    refine hs.locks.holds_iff.mpr ⟨b, ?_, hb'⟩
    rw [hsplit]
    exact List.mem_append_right _ hb
  · rename_i hlocked
    rwa [if_neg hlocked]

/-- How a handler is started: with the lock, by the thread that holds it, or on the home thread. -/
theorem starts_oneWay (hs : OneWayInv d locked s) (hC : s.OneWay d locked a) (hst : s.starts d a = some (t, e)) :
    if locked e.handler.component then e.locked = true ∨ s.Holds t e.handler.component
    else e.locked = false ∧ t = d.homeThread e.handler.component := by
  cases a with
  | runNext x =>
    obtain ⟨⟨h, q⟩, hnext, heq⟩ := Option.map_eq_some_iff.mp hst
    obtain ⟨rfl, rfl⟩ := Prod.mk.inj heq
    obtain ⟨hlocked, hhome⟩ := (all_nextItem hs.queued hnext).1
    rw [if_neg (Bool.eq_false_iff.mp hlocked)]
    exact ⟨rfl, hhome⟩
  | send v sender m =>
    simp only [starts] at hst
    split at hst
    · rename_i hruns
      split at hst
      · rename_i hdirect
        obtain ⟨rfl, rfl⟩ := Prod.mk.inj (Option.some.inj hst)
        have hcall := hC hruns _ hdirect
        cases hlocked : locked m.handler.component with
        | true =>
          simp only [hlocked] at hcall
          exact .inr hcall
        | false =>
          simp only [hlocked] at hcall
          exact ⟨rfl, hcall⟩
      · rename_i hcalled
        obtain ⟨rfl, rfl⟩ := Prod.mk.inj (Option.some.inj hst)
        have hlocked : locked m.handler.component = true := hC hruns _ hcalled
        rw [if_pos hlocked]
        exact .inl rfl
      · cases hst
    · cases hst
  | _ => cases hst

theorem oneWayInv_step (hs : OneWayInv d locked s) (hC : s.OneWay d locked a) (h : s.step d a = some s') : OneWayInv d locked s' where
  locks := locksCounted_step hs.locks h
  queued := items_step hs.queued h fun v sender m ha hruns hdelivery => by
    subst ha
    exact hC hruns _ hdelivery
  nested := nested_step hs.nested h fun t e hst => by
    have hstarts := starts_oneWay hs hC hst
    unfold EnteredOneWay
    split at hstarts
    · rename_i hlocked
      rw [if_pos hlocked]
      rcases hstarts with he | hholds
      · exact ⟨e, List.mem_cons_self, he, rfl⟩
      · obtain ⟨b, hb, hb'⟩ := hs.locks.holds_iff.mp hholds
        exact ⟨b, List.mem_cons_of_mem e hb, hb'⟩
    · rename_i hlocked
      rw [if_neg hlocked]
      exact hstarts.2

/-- The home thread finds only itself inside, and whoever takes the lock finds only threads that hold it. -/
theorem othersHoldLock_of_oneWayInv (hs : OneWayInv d locked s) (hC : s.OneWay d locked a) : s.OthersHoldLock d a := by
  intro t e hst u hu hin
  have hstarts := starts_oneWay hs hC hst
  have hinside := hs.inside hin
  split at hstarts
  · rename_i hlocked
    rw [if_pos hlocked] at hinside
    exact ⟨hstarts.resolve_right fun hholds => hu (RecursiveMutex.depth_exclusive hinside hholds), hinside⟩
  · rename_i hlocked
    rw [if_neg hlocked] at hinside
    exact absurd (hinside.trans hstarts.2.symm) hu

/-- It is enough for `handlers_exclusive_iff` that each component is called in one way only. -/
theorem othersHoldLock_of_oneWay {acts : List ThreadAction} (h : AllSteps (step d) (OneWay d locked) init acts) :
    AllSteps (step d) (OthersHoldLock d) init acts :=
  AllSteps.imp (P := OneWayInv d locked) (fun _ _ _ hs hC h => oneWayInv_step hs hC h)
    (fun _ _ hs hC => othersHoldLock_of_oneWayInv hs hC) oneWayInv_init h

end OneWay

end ThreadSystem

end Minicomps
