import Minicomps.Answers

/-!
# How often the callback of a call is called

Each answer that goes through an object with an unexpired lifetime will call the callback, unless the lifetime expires before the
client's executor gets to it. So the callback is called at most once, with the first answer, where no later answer goes through
such an object. The object of an enqueued call is none any more after its first answer; that of a direct call stays one.
-/

namespace Minicomps

namespace CallState

open Transition

variable {β : Type*} {s s' : CallState β}

namespace AnswerAux

/-! ## Who has a lifetime has the callback too -/

/-- The callback and the lifetime of an object are moved together. -/
structure Intact (s : CallState β) : Prop where
  objects : ∀ o ∈ s.objects, o.lifetime.isSome = true → o.callback = true
  tasks : s.executor.All fun task => task.lifetime.isSome = true → task.callback = true

theorem intact_init (direct : Bool) (lifetimes : Lifetimes) (lifetime : LifetimeWeakPtr) :
    Intact (init direct lifetimes lifetime : CallState β) where
  objects := by
    intro o ho
    obtain rfl := List.mem_singleton.mp ho
    exact fun _ => rfl
  tasks := fun _ h => absurd h List.not_mem_nil

theorem intact_callCallback {callback : Bool} {number : Nat} {value : β} (h : Intact s)
    (hs : s.callCallback callback number value = some s') : Intact s' := by
  unfold callCallback at hs
  split at hs
  · obtain rfl := Option.some.inj hs
    exact ⟨h.objects, h.tasks⟩
  · cases hs

theorem intact_objects (h : Intact s) {objects : List ResultObject}
    (hnew : ∀ o ∈ objects, o ∈ s.objects ∨ o.lifetime = none) : Intact { s with objects } where
  objects := by
    intro o ho hlifetime
    rcases hnew o ho with hold | hnone
    · exact h.objects o hold hlifetime
    · rw [hnone] at hlifetime
      cases hlifetime
  tasks := h.tasks

theorem mem_set {o o' : ResultObject} {i : Nat} {objects : List ResultObject} (h : o ∈ objects.set i o') (ho' : o'.lifetime = none) :
    o ∈ objects ∨ o.lifetime = none := by
  rcases List.mem_or_eq_of_mem_set h with hmem | rfl
  · exact Or.inl hmem
  · exact Or.inr ho'

theorem intact_step (h : Intact s) {a : AnswerAction β} (hs : s.step a = some s') : Intact s' := by
  cases a with
  | answer i value =>
    obtain ⟨o, ho, hs⟩ := Option.bind_eq_some_iff.mp hs
    have hmem := List.mem_of_getElem? ho
    simp only [operatorCall, AnswerPorts.operatorCall] at hs
    split at hs
    · obtain rfl := Option.some.inj hs
      have hspent : ∀ o' ∈ s.objects.set i { o with lifetime := none, callback := false }, o' ∈ s.objects ∨ o'.lifetime = none :=
        fun _ ho' => mem_set ho' rfl
      have hset := intact_objects h hspent
      exact ⟨hset.objects, h.tasks.enqueueWork (h.objects o hmem)⟩
    · split at hs
      · obtain rfl := Option.some.inj hs
        exact ⟨h.objects, h.tasks⟩
      · exact intact_callCallback (s := { s with answers := s.answers ++ [value] }) ⟨h.objects, h.tasks⟩ hs
  | copy i =>
    obtain ⟨o, ho, rfl⟩ := Option.map_eq_some_iff.mp hs
    refine intact_objects h fun o' ho' => Or.inl ?_
    rcases List.mem_append.mp ho' with hold | hnew
    · exact hold
    · exact List.mem_singleton.mp hnew ▸ List.mem_of_getElem? ho
  | move i =>
    obtain ⟨o, ho, rfl⟩ := Option.map_eq_some_iff.mp hs
    refine intact_objects h ?_
    intro o' ho'
    rcases List.mem_append.mp ho' with hold | hnew
    · exact mem_set hold rfl
    · exact Or.inl (List.mem_singleton.mp hnew ▸ List.mem_of_getElem? ho)
  | reset l =>
    obtain rfl := Option.some.inj hs
    exact ⟨h.objects, h.tasks⟩
  | startBatch =>
    simp only [step] at hs
    split at hs
    · obtain rfl := Option.some.inj hs
      exact ⟨h.objects, h.tasks.swap⟩
    · cases hs
  | runNext =>
    simp only [step] at hs
    split at hs
    · rename_i task e hnext
      have hnew : Intact { s with executor := e } := ⟨h.objects, (h.tasks.next hnext).2⟩
      simp only [runTask] at hs
      split at hs
      · obtain rfl := Option.some.inj hs
        exact hnew
      · exact intact_callCallback hnew hs
    · cases hs
  | finishBatch =>
    simp only [step] at hs
    split at hs
    · cases hs
    · obtain rfl := Option.some.inj hs
      exact ⟨h.objects, h.tasks.clear⟩

/-! ## The answers that call the callback -/

/-- The answers that have called the callback, and those that will when the client's executor goes on. -/
def calling (s : CallState β) : List (Nat × β) :=
  s.callbackCalls ++
    (s.executor.pending.filter fun task => !s.lifetimes.expiredOrEmpty task.lifetime).map fun task => (task.number, task.value)

/-- Where nothing is pending, the callback has been called with all of them. -/
theorem calling_of_pending (h : s.executor.pending = []) : calling s = s.callbackCalls := by
  rw [calling, h, List.filter_nil, List.map_nil, List.append_nil]

/-- The executor's next task calls the callback if its lifetime has not expired, and nothing else changes. -/
theorem runNext_spec (h : Intact s) {task : AnswerTask β} {e : Executor (AnswerTask β)} (hnext : s.executor.next = some (task, e)) :
    ∃ t, s.step .runNext = some t ∧ t.executor = e ∧ t.answers = s.answers ∧ calling t = calling s := by
  have hpending := Executor.pending_next hnext
  simp only [step, hnext, runTask]
  by_cases hexpired : s.lifetimes.expiredOrEmpty task.lifetime = true
  · rw [if_pos hexpired]
    refine ⟨_, rfl, rfl, rfl, ?_⟩
    simp [calling, hpending, hexpired]
  · have hlive : s.lifetimes.expiredOrEmpty task.lifetime = false := by simpa using hexpired
    rw [if_neg hexpired, callCallback, if_pos ((h.tasks.next hnext).1 (Lifetimes.isSome_of_not_expired hlive))]
    refine ⟨_, rfl, rfl, rfl, ?_⟩
    simp [calling, hpending, hlive]

/-- The client's executor decides when the callback is called, but not with what. -/
theorem calling_of_executor (h : Intact s) {a : AnswerAction β} (ha : a.ofExecutor = true) (hs : s.step a = some s') :
    s'.answers = s.answers ∧ calling s' = calling s := by
  cases a with
  | startBatch =>
    simp only [step] at hs
    split at hs
    · rename_i hempty
      obtain rfl := Option.some.inj hs
      rw [calling, Executor.pending_swap (List.isEmpty_iff.mp hempty)]
      exact ⟨rfl, rfl⟩
    · cases hs
  | runNext =>
    cases hnext : s.executor.next with
    | none =>
      simp only [step, hnext] at hs
      cases hs
    | some p =>
      obtain ⟨t, ht, -, hanswers, hcalling⟩ := runNext_spec h hnext
      obtain rfl := Option.some.inj (ht.symm.trans hs)
      exact ⟨hanswers, hcalling⟩
  | finishBatch =>
    simp only [step] at hs
    split at hs
    · cases hs
    · rename_i hnext
      obtain rfl := Option.some.inj hs
      rw [calling, Executor.pending_clear hnext]
      exact ⟨rfl, rfl⟩
  | answer | copy | move | reset => cases ha

/-- The client's executor gets to its next task. -/
theorem drain_one (h : Intact s) {task : AnswerTask β} {rest : List (AnswerTask β)} (hpending : s.executor.pending = task :: rest) :
    ∃ acts t, (∀ a ∈ acts, AnswerAction.ofExecutor a = true) ∧ run step s acts = some t ∧ t.executor.pending = rest := by
  cases hnext : s.executor.next with
  | some p =>
    obtain ⟨t, ht, hexec, -, -⟩ := runNext_spec h hnext
    refine ⟨[.runNext], t, by simp [AnswerAction.ofExecutor], by rw [run_cons, ht]; rfl, ?_⟩
    rw [Executor.pending_next hnext] at hpending
    rw [hexec, (List.cons.inj hpending).2]
  | none =>
    -- the batch is over, and the next one starts with the task
    obtain ⟨u, hu⟩ : ∃ u : CallState β, u = { s with executor := s.executor.clear.swap } := ⟨_, rfl⟩
    have hstart : run step s [.finishBatch, .startBatch] = some u := by
      simp only [run_cons, step, hnext, Option.bind_some, Executor.workItemsBackBuffer_clear, List.isEmpty_nil, if_true, run_nil, hu]
    have hintact : Intact u := run_invariant (fun _ _ _ hi hs => intact_step hi hs) h hstart
    have hpending' : u.executor.pending = task :: rest := by
      rw [hu, ← hpending, ← Executor.pending_clear hnext]
      exact Executor.pending_swap rfl
    cases hnext' : u.executor.next with
    | none =>
      have hrest := Executor.next_eq_none hnext'
      have hwork : u.executor.workItems = [] := by rw [hu]; rfl
      rw [Executor.pending, hrest, hwork] at hpending'
      cases hpending'
    | some p =>
      obtain ⟨t, ht, hexec, -, -⟩ := runNext_spec hintact hnext'
      refine ⟨[.finishBatch, .startBatch] ++ [.runNext], t, by simp [AnswerAction.ofExecutor], ?_, ?_⟩
      · rw [run_append, hstart, Option.bind_some, run_cons, ht]
        rfl
      · rw [Executor.pending_next hnext'] at hpending'
        rw [hexec, (List.cons.inj hpending').2]

/-- Steps of the client's executor keep what is going to call the callback. -/
theorem calling_run (h : Intact s) {acts : List (AnswerAction β)} (hacts : ∀ a ∈ acts, AnswerAction.ofExecutor a = true)
    (hs : run step s acts = some s') : Intact s' ∧ s'.answers = s.answers ∧ calling s' = calling s := by
  induction acts generalizing s with
  | nil =>
    obtain rfl := Option.some.inj hs
    exact ⟨h, rfl, rfl⟩
  | cons a acts ih =>
    obtain ⟨u, hu, hs⟩ := run_cons_some hs
    obtain ⟨hanswers, hcalling⟩ := calling_of_executor h (hacts a List.mem_cons_self) hu
    obtain ⟨hintact, hanswers', hcalling'⟩ := ih (intact_step h hu) (fun b hb => hacts b (List.mem_cons_of_mem a hb)) hs
    exact ⟨hintact, hanswers'.trans hanswers, hcalling'.trans hcalling⟩

/-- The client's executor can get to all that is pending. -/
theorem drain (h : Intact s) : ∃ acts t, (∀ a ∈ acts, AnswerAction.ofExecutor a = true) ∧ run step s acts = some t ∧
    t.callbackCalls = calling s := by
  generalize hpending : s.executor.pending = pending
  induction pending generalizing s with
  | nil => exact ⟨[], s, fun _ h => absurd h List.not_mem_nil, rfl, (calling_of_pending hpending).symm⟩
  | cons task rest ih =>
    obtain ⟨acts, u, hacts, hu, hrest⟩ := drain_one h hpending
    obtain ⟨hintact, -, hcalling⟩ := calling_run h hacts hu
    obtain ⟨acts', t, hacts', ht, hcalls⟩ := ih hintact hrest
    refine ⟨acts ++ acts', t, ?_, by rw [run_append, hu, Option.bind_some, ht], hcalls.trans hcalling⟩
    intro a ha
    rcases List.mem_append.mp ha with ha | ha
    · exact hacts a ha
    · exact hacts' a ha

/-! ## The first answer and the others -/

/-- The first answer, with its number. -/
def firstAnswer (s : CallState β) : List (Nat × β) := (s.answers.take 1).map fun value => (0, value)

/-- The invariant: only the first answer has called the callback or is going to. -/
structure Inv (s : CallState β) : Prop where
  intact : Intact s
  once : (calling s).Sublist (firstAnswer s)

theorem inv_init (direct : Bool) (lifetimes : Lifetimes) (lifetime : LifetimeWeakPtr) :
    Inv (init direct lifetimes lifetime : CallState β) := ⟨intact_init direct lifetimes lifetime, List.Sublist.refl _⟩

theorem atMostFirst_of_inv (h : Inv s) : s.AtMostFirst := by
  have hsub : s.callbackCalls.Sublist (firstAnswer s) := (List.sublist_append_left ..).trans h.once
  cases hanswers : s.answers with
  | nil =>
    rw [firstAnswer, hanswers] at hsub
    exact Or.inl (List.sublist_nil.mp hsub)
  | cons value rest =>
    rw [firstAnswer, hanswers] at hsub
    rcases List.sublist_singleton.mp hsub with hnil | hone
    · exact Or.inl hnil
    · exact Or.inr ⟨value, by rw [hanswers]; rfl, hone⟩

theorem settles_of_inv (h : Inv s) : s.Settles := by
  intro acts t hacts ht
  obtain ⟨hintact, hanswers, hcalling⟩ := calling_run h.intact hacts ht
  exact atMostFirst_of_inv ⟨hintact, by rw [hcalling, firstAnswer, hanswers]; exact h.once⟩

/-- Where another answer than the first is going to call the callback, it can come to that. -/
theorem not_settles (h : Intact s) (number : Nat) (value : β) (hmem : (number, value) ∈ calling s) (hnumber : number ≠ 0) :
    ¬s.Settles := by
  intro hs
  obtain ⟨acts, t, hacts, ht, hcalls⟩ := drain h
  rcases hs acts t hacts ht with hnil | ⟨first, -, hone⟩
  · rw [← hcalls, hnil] at hmem
    cases hmem
  · rw [← hcalls, hone] at hmem
    exact hnumber (Prod.mk.inj (List.mem_singleton.mp hmem)).1

/-- An answer is added to those that are going to call the callback if its object's lifetime is unexpired, and otherwise
changes nothing. -/
theorem calling_answer (h : Intact s) (value : β) {i : Nat} {o : ResultObject} (ho : s.objects[i]? = some o) :
    ∃ t, s.step (.answer i value) = some t ∧ t.answers = s.answers ++ [value] ∧
      (s.lifetimes.expiredOrEmpty o.lifetime = true → calling t = calling s) ∧
      (s.lifetimes.expiredOrEmpty o.lifetime = false → (calling t).Perm ((s.answers.length, value) :: calling s)) := by
  simp only [step, ho, Option.bind_some, operatorCall, AnswerPorts.operatorCall]
  by_cases hexec : o.receivingExecutor = true
  · rw [if_pos hexec]
    refine ⟨_, rfl, rfl, ?_, ?_⟩
    · intro hexpired
      simp [calling, Executor.pending_enqueueWork, hexpired]
    · intro hlive
      simp only [calling, Executor.pending_enqueueWork, List.filter_append, List.map_append, ← List.append_assoc]
      simp only [hlive, List.filter_cons, List.filter_nil, Bool.not_false, if_true, List.map_cons, List.map_nil]
      exact List.perm_append_singleton ..
  · rw [if_neg hexec]
    by_cases hexpired : s.lifetimes.expiredOrEmpty o.lifetime = true
    · rw [if_pos hexpired]
      refine ⟨_, rfl, rfl, fun _ => rfl, ?_⟩
      intro hlive
      rw [hexpired] at hlive
      cases hlive
    · have hlive : s.lifetimes.expiredOrEmpty o.lifetime = false := by simpa using hexpired
      have hcallback := h.objects o (List.mem_of_getElem? ho) (Lifetimes.isSome_of_not_expired hlive)
      rw [if_neg hexpired, callCallback, if_pos hcallback]
      refine ⟨_, rfl, rfl, fun h' => absurd h' hexpired, ?_⟩
      intro _
      rw [calling, List.append_assoc]
      exact List.perm_middle

/-- A step that lets no later answer get anywhere keeps the invariant. -/
theorem inv_step (h : Inv s) {a : AnswerAction β} (hC : s.FirstOnly a) (hs : s.step a = some s') : Inv s' := by
  refine ⟨intact_step h.intact hs, ?_⟩
  by_cases ha : a.ofExecutor = true
  · obtain ⟨hanswers, hcalling⟩ := calling_of_executor h.intact ha hs
    rw [hcalling, firstAnswer, hanswers]
    exact h.once
  cases a with
  | answer i value =>
    obtain ⟨o, ho, -⟩ := Option.bind_eq_some_iff.mp hs
    obtain ⟨t, ht, hanswers, hdead, hlive⟩ := calling_answer h.intact value ho
    obtain rfl := Option.some.inj (ht.symm.trans hs)
    by_cases hexpired : s.lifetimes.expiredOrEmpty o.lifetime = true
    · rw [hdead hexpired]
      refine h.once.trans ?_
      rw [firstAnswer, firstAnswer, hanswers]
      cases s.answers <;> simp
    · have hunexpired : s.lifetimes.expiredOrEmpty o.lifetime = false := by simpa using hexpired
      have hfirst := hC o ho hunexpired
      have honce := h.once
      rw [firstAnswer, hfirst] at honce
      have hperm := hlive hunexpired
      rw [List.sublist_nil.mp honce, hfirst, List.perm_singleton] at hperm
      rw [hperm, firstAnswer, hanswers, hfirst]
      exact List.Sublist.refl _
  | copy i =>
    obtain ⟨o, -, rfl⟩ := Option.map_eq_some_iff.mp hs
    exact h.once
  | move i =>
    obtain ⟨o, -, rfl⟩ := Option.map_eq_some_iff.mp hs
    exact h.once
  | reset l =>
    obtain rfl := Option.some.inj hs
    refine List.Sublist.trans ?_ h.once
    refine List.Sublist.append_left (List.Sublist.map _ (List.monotone_filter_right _ ?_)) _
    intro task hlive
    by_contra hdead
    have hexpired : s.lifetimes.expiredOrEmpty task.lifetime = true := by simpa using hdead
    rw [Lifetimes.expiredOrEmpty_reset hexpired] at hlive
    cases hlive
  | startBatch | runNext | finishBatch => exact absurd rfl ha

/-- A later answer that gets somewhere can come to call the callback. -/
theorem bad_step (h : Inv s) {a : AnswerAction β} (hC : ¬s.FirstOnly a) : ∃ s', s.step a = some s' ∧ ¬s'.Settles := by
  cases a with
  | answer i value =>
    simp only [FirstOnly, Option.mem_def, not_forall] at hC
    obtain ⟨o, ho, hlive, hanswers⟩ := hC
    obtain ⟨t, ht, -, -, hcalling⟩ := calling_answer h.intact value ho
    refine ⟨t, ht, not_settles (intact_step h.intact ht) s.answers.length value ?_ ?_⟩
    · exact (hcalling hlive).mem_iff.mpr List.mem_cons_self
    · exact fun hzero => hanswers (List.eq_nil_of_length_eq_zero hzero)
  | copy | move | reset | startBatch | runNext | finishBatch => exact absurd trivial hC

end AnswerAux

open AnswerAux

/-- For every call, direct or enqueued, and whatever the filters and the handler do with its `callback_result`: at every point of a
run it is settled that the client's callback is called at most once, and with the value of the first answer, if and only if no
answer but the first has gone through an object with an unexpired lifetime. -/
theorem callback_atMostFirst_iff (direct : Bool) (lifetimes : Lifetimes) (lifetime : LifetimeWeakPtr)
    (acts : List (AnswerAction β)) :
    AllSteps step FirstOnly (init direct lifetimes lifetime) acts ↔
      ∀ pre t, pre <+: acts → run step (init direct lifetimes lifetime) pre = some t → t.Settles :=
  allSteps_iff_safe (fun _ => settles_of_inv) (fun _ _ _ h hC hs => inv_step h hC hs) (fun _ _ h hC => bad_step h hC)
    (inv_init direct lifetimes lifetime)

/-! ## The path that keeps the promise -/

/-- The call has one object, which is enqueued through, and which has lost its lifetime if it has been answered. -/
def Single (s : CallState β) : Prop :=
  ∃ o, s.objects = [o] ∧ o.receivingExecutor = true ∧ (s.answers ≠ [] → o.lifetime = none)

theorem Single.of_same (h : Single s) (hobjects : s'.objects = s.objects) (hanswers : s'.answers = s.answers) : Single s' := by
  obtain ⟨o, ho, hexec, hnone⟩ := h
  exact ⟨o, hobjects.trans ho, hexec, by rw [hanswers]; exact hnone⟩

theorem single_callCallback (h : Single s) {callback : Bool} {number : Nat} {value : β}
    (hs : s.callCallback callback number value = some s') : Single s' := by
  unfold callCallback at hs
  split at hs
  · obtain rfl := Option.some.inj hs
    exact h.of_same rfl rfl
  · cases hs

theorem single_step (h : Single s) {a : AnswerAction β} (hcopy : ∀ i, a ≠ .copy i) (hmove : ∀ i, a ≠ .move i)
    (hs : s.step a = some s') : Single s' := by
  cases a with
  | answer i value =>
    obtain ⟨o, ho, hexec, -⟩ := h
    obtain ⟨o', ho', hs⟩ := Option.bind_eq_some_iff.mp hs
    rw [ho, List.getElem?_singleton] at ho'
    split at ho'
    · rename_i hi
      obtain rfl := Option.some.inj ho'
      simp only [operatorCall, AnswerPorts.operatorCall, if_pos hexec] at hs
      obtain rfl := Option.some.inj hs
      exact ⟨{ o with lifetime := none, callback := false }, by rw [ho, hi]; rfl, hexec, fun _ => rfl⟩
    · cases ho'
  | copy i => exact absurd rfl (hcopy i)
  | move i => exact absurd rfl (hmove i)
  | reset l =>
    obtain rfl := Option.some.inj hs
    exact h.of_same rfl rfl
  | startBatch =>
    simp only [step] at hs
    split at hs
    · obtain rfl := Option.some.inj hs
      exact h.of_same rfl rfl
    · cases hs
  | runNext =>
    simp only [step] at hs
    split at hs
    · rename_i task e hnext
      have hnew : Single { s with executor := e } := h.of_same rfl rfl
      simp only [runTask] at hs
      split at hs
      · obtain rfl := Option.some.inj hs
        exact hnew
      · exact single_callCallback hnew hs
    · cases hs
  | finishBatch =>
    simp only [step] at hs
    split at hs
    · cases hs
    · obtain rfl := Option.some.inj hs
      exact h.of_same rfl rfl

/-- A call that is enqueued keeps the promise, however often it is answered, unless its object is copied or moved: once it has been
answered, the object has no lifetime any more. -/
theorem enqueued_atMostFirst (lifetimes : Lifetimes) (lifetime : LifetimeWeakPtr) {acts : List (AnswerAction β)}
    (hacts : ∀ i, .copy i ∉ acts ∧ .move i ∉ acts) (hs : run step (init false lifetimes lifetime) acts = some s) :
    s.AtMostFirst := by
  suffices hall : ∀ (acts : List (AnswerAction β)) (u : CallState β), (∀ i, .copy i ∉ acts ∧ .move i ∉ acts) → Single u →
      AllSteps step FirstOnly u acts by
    have hstart : Single (init false lifetimes lifetime : CallState β) := ⟨_, rfl, rfl, fun hne => absurd rfl hne⟩
    exact atMostFirst_of_inv
      (AllSteps.run_invariant (fun _ _ _ h hC hs => inv_step h hC hs) (inv_init false lifetimes lifetime)
        (hall acts _ hacts hstart) hs)
  intro acts
  induction acts with
  | nil => exact fun _ _ _ => trivial
  | cons a acts ih =>
    intro u hacts hu
    refine ⟨?_, fun u' hu' => ih u' ?_ (single_step hu ?_ ?_ hu')⟩
    · cases a with
      | answer i value =>
        intro o ho hlive
        by_contra hanswers
        obtain ⟨o', ho', -, hnone⟩ := hu
        rw [ho', List.getElem?_singleton] at ho
        split at ho
        · obtain rfl := Option.some.inj ho
          rw [hnone hanswers] at hlive
          cases hlive
        · cases ho
      | copy | move | reset | startBatch | runNext | finishBatch => trivial
    · intro i
      exact ⟨fun hmem => (hacts i).1 (List.mem_cons_of_mem a hmem), fun hmem => (hacts i).2 (List.mem_cons_of_mem a hmem)⟩
    · intro i ha
      exact (hacts i).1 (ha ▸ List.mem_cons_self)
    · intro i ha
      exact (hacts i).2 (ha ▸ List.mem_cons_self)

/-! ## A direct call that is answered twice -/

/-- A filter answers a direct call and lets the handler answer too: the callback is called with both answers. -/
theorem callback_calledTwice :
    ¬∀ (direct : Bool) (filters : List (Filter Nat)) (handler : List (AnswerAction Nat)) (s : CallState Nat),
      run step (init direct (fun _ => 0) ⟨0, 0⟩) (invokeFilters handler filters) = some s → s.AtMostFirst := by
  intro h
  rcases h true [{ actions := [.answer 0 5], proceed := true }] [.answer 0 6] _ rfl with hnil | ⟨value, -, hone⟩
  · cases hnil
  · cases hone

end CallState

end Minicomps
