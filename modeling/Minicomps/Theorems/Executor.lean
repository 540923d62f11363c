import Minicomps.Lib.Transition
import Minicomps.ExecutorThreads

/-!
# An executor runs every item once, in the order of the mutex

The mutex invariant says which thread has the mutex; with it, the accounting invariant follows every item from the moment its
`enqueue_work` took the mutex: it is in the hand of the thread that has it, in the waiting vector, in the rest of the batch, or
started. From the exchange of the vectors on, an `execute` has a fixed number of steps left, whatever is enqueued meanwhile.
-/

namespace Minicomps

open Transition

namespace ExecutorThreads

variable {τ : Type*}

/-- The code of the thread is between taking the mutex and releasing it. -/
def Holding (consumer : ThreadId) (s : ExecutorThreads τ) (t : ThreadId) : Prop :=
  (s.enqueuing t).holdsMutex = true ∨ t = consumer ∧ s.executing.holdsMutex = true

/-- The mutex is held by the one thread whose code is past taking it, and the consumer is in one of the two calls only. -/
structure Exclusive (consumer : ThreadId) (s : ExecutorThreads τ) : Prop where
  holder : ∀ t, s.Holding consumer t ↔ s.mutex = some t
  outside : (s.enqueuing consumer).isIdle = true ∨ s.executing = .idle ∨ s.executing = .item

/-- Every item is in exactly one place, and the places are in order. -/
structure Accounted (s : ExecutorThreads τ) : Prop where
  order : s.started ++ s.executor.rest ++ s.executor.workItems ++ s.inHand = s.order
  /-- What a batch has started and what is left of it is what was enqueued before its exchange. -/
  batch : s.started ++ s.executor.rest = s.swapped
  cleared : s.executing.swapped = false → s.executor.workItemsBackBuffer = []

end ExecutorThreads

namespace ExecutorAux

open ExecutorThreads

variable {τ : Type*} {consumer : ThreadId} {s s' : ExecutorThreads τ} {t : ThreadId} {fails : Bool}

theorem isIdle_iff {pc : EnqueuePc τ} : pc.isIdle = true ↔ pc = .idle := by
  cases pc <;> simp [EnqueuePc.isIdle]

/-! ## What the steps do -/

/-- The steps of `enqueue_work`: it finds the mutex taken, takes it, appends, or releases it. -/
theorem enqueue_cases (h : s.enqueue t fails = some s') :
    (∃ item, s.enqueuing t = .tryLock item ∧
      s' = { s with numLockFailures := s.numLockFailures + 1 }.setEnqueuing t (.lock item)) ∨
    (∃ item, (s.enqueuing t = .tryLock item ∨ s.enqueuing t = .lock item) ∧ s.mutex = none ∧ s' = s.takeEnqueue t item) ∨
    (∃ item, s.enqueuing t = .emplace item ∧
      s' = { s with executor := s.executor.enqueueWork item }.setEnqueuing t .unlock) ∨
    (s.enqueuing t = .unlock ∧ s' = { s with mutex := none }.setEnqueuing t .idle) := by
  unfold enqueue at h
  cases hpc : s.enqueuing t with
  | idle => rw [hpc] at h; cases h
  | tryLock item =>
    simp only [hpc] at h
    split at h
    · exact Or.inl ⟨item, rfl, (Option.some.inj h).symm⟩
    · rename_i hfree
      simp only [Bool.or_eq_true, not_or, Option.not_isSome_iff_eq_none] at hfree
      exact Or.inr (Or.inl ⟨item, Or.inl rfl, hfree.1, (Option.some.inj h).symm⟩)
  | lock item =>
    simp only [hpc] at h
    split at h
    · cases h
    · rename_i hfree
      exact Or.inr (Or.inl ⟨item, Or.inr rfl, Option.not_isSome_iff_eq_none.mp hfree, (Option.some.inj h).symm⟩)
  | emplace item =>
    simp only [hpc] at h
    exact Or.inr (Or.inr (Or.inl ⟨item, rfl, (Option.some.inj h).symm⟩))
  | unlock =>
    simp only [hpc] at h
    exact Or.inr (Or.inr (Or.inr ⟨rfl, (Option.some.inj h).symm⟩))

/-- The steps of `execute`. -/
theorem advance_cases (h : s.advance consumer fails = some s') :
    (s.executing = .tryLock ∧ s' = { s with executing := .lock, numLockFailures := s.numLockFailures + 1 }) ∨
    ((s.executing = .tryLock ∨ s.executing = .lock) ∧ s.mutex = none ∧
      s' = { s with executing := .swap, mutex := some consumer }) ∨
    (s.executing = .swap ∧ s' = { s with executing := .unlock, executor := s.executor.swap, swapped := s.order }) ∨
    (s.executing = .unlock ∧ s' = { s with executing := .loop, mutex := none }) ∨
    (∃ item executor, s.executing = .loop ∧ s.executor.next = some (item, executor) ∧
      s' = { s with executing := .item, executor := executor, started := s.started ++ [item] }) ∨
    (s.executing = .loop ∧ s.executor.next = none ∧ s' = { s with executing := .idle, executor := s.executor.clear }) ∨
    (s.executing = .item ∧ s' = { s with executing := .loop }) := by
  unfold advance at h
  cases hpc : s.executing with
  | idle => rw [hpc] at h; cases h
  | tryLock =>
    simp only [hpc] at h
    split at h
    · exact Or.inl ⟨rfl, (Option.some.inj h).symm⟩
    · rename_i hfree
      simp only [Bool.or_eq_true, not_or, Option.not_isSome_iff_eq_none] at hfree
      exact Or.inr (Or.inl ⟨Or.inl rfl, hfree.1, (Option.some.inj h).symm⟩)
  | lock =>
    simp only [hpc] at h
    split at h
    · cases h
    · rename_i hfree
      exact Or.inr (Or.inl ⟨Or.inr rfl, Option.not_isSome_iff_eq_none.mp hfree, (Option.some.inj h).symm⟩)
  | swap =>
    simp only [hpc] at h
    exact Or.inr (Or.inr (Or.inl ⟨rfl, (Option.some.inj h).symm⟩))
  | unlock =>
    simp only [hpc] at h
    exact Or.inr (Or.inr (Or.inr (Or.inl ⟨rfl, (Option.some.inj h).symm⟩)))
  | loop =>
    simp only [hpc] at h
    cases hnext : s.executor.next with
    | some x =>
      obtain ⟨item, executor⟩ := x
      simp only [hnext] at h
      exact Or.inr (Or.inr (Or.inr (Or.inr (Or.inl ⟨item, executor, rfl, rfl, (Option.some.inj h).symm⟩))))
    | none =>
      simp only [hnext] at h
      exact Or.inr (Or.inr (Or.inr (Or.inr (Or.inr (Or.inl ⟨rfl, rfl, (Option.some.inj h).symm⟩)))))
  | item =>
    simp only [hpc] at h
    exact Or.inr (Or.inr (Or.inr (Or.inr (Or.inr (Or.inr ⟨rfl, (Option.some.inj h).symm⟩)))))

/-! ## The mutex -/

theorem holding_setEnqueuing_of_ne {u : ThreadId} (pc : EnqueuePc τ) (h : u ≠ t) :
    (s.setEnqueuing t pc).Holding consumer u ↔ s.Holding consumer u := by
  simp [Holding, setEnqueuing, h]

/-- A step that neither takes nor releases the mutex. -/
theorem holder_setEnqueuing (h : Exclusive consumer s) {pc : EnqueuePc τ}
    (hpc : pc.holdsMutex = (s.enqueuing t).holdsMutex) (u : ThreadId) :
    (s.setEnqueuing t pc).Holding consumer u ↔ s.mutex = some u := by
  rw [← h.holder u]
  by_cases hu : u = t
  · subst hu
    simp [Holding, setEnqueuing, hpc]
  · exact holding_setEnqueuing_of_ne pc hu

/-- A thread outside of `execute` has the mutex only between taking and releasing it in `enqueue_work`. -/
theorem mutex_ne (h : Exclusive consumer s) (hpc : (s.enqueuing t).holdsMutex = false)
    (hout : t = consumer → s.executing = .idle ∨ s.executing = .item) : s.mutex ≠ some t := by
  intro hmutex
  rcases (h.holder t).mpr hmutex with hhold | ⟨hcons, hhold⟩
  · rw [hpc] at hhold
    cases hhold
  · rcases hout hcons with hidle | hitem
    · rw [hidle] at hhold
      cases hhold
    · rw [hitem] at hhold
      cases hhold

theorem exclusive_enqueue (h : Exclusive consumer s) (hs : s.enqueue t fails = some s') : Exclusive consumer s' := by
  have hbusy : (s.enqueuing t).isIdle = false → ∀ pc : EnqueuePc τ,
      ((s.setEnqueuing t pc).enqueuing consumer).isIdle = true ∨ s.executing = .idle ∨ s.executing = .item := by
    intro hbusy pc
    by_cases ht : consumer = t
    · subst ht
      rcases h.outside with hidle | hout
      · rw [hbusy] at hidle
        cases hidle
      · exact Or.inr hout
    · simpa [setEnqueuing, ht] using h.outside
  rcases enqueue_cases hs with ⟨item, hpc, rfl⟩ | ⟨item, hpc, hfree, rfl⟩ | ⟨item, hpc, rfl⟩ | ⟨hpc, rfl⟩
  · exact ⟨holder_setEnqueuing h (by rw [hpc]; rfl), hbusy (by rw [hpc]; rfl) _⟩
  · have hnone : ∀ u, ¬s.Holding consumer u := fun u hu => by
      rw [h.holder u, hfree] at hu
      cases hu
    refine ⟨?_, hbusy (by rcases hpc with hpc | hpc <;> rw [hpc] <;> rfl) _⟩
    intro u
    by_cases hu : u = t
    · subst hu
      simp [Holding, takeEnqueue, setEnqueuing, EnqueuePc.holdsMutex]
    · have hother : (s.takeEnqueue t item).Holding consumer u ↔ s.Holding consumer u := holding_setEnqueuing_of_ne _ hu
      rw [hother]
      simp [hnone u, takeEnqueue, setEnqueuing, Ne.symm hu]
  · exact ⟨holder_setEnqueuing h (by rw [hpc]; rfl), hbusy (by rw [hpc]; rfl) _⟩
  · have hmine : s.mutex = some t := (h.holder t).mp (Or.inl (by rw [hpc]; rfl))
    refine ⟨?_, hbusy (by rw [hpc]; rfl) _⟩
    intro u
    have hgone : ¬(s.setEnqueuing t .idle).Holding consumer u := by
      by_cases hu : u = t
      · subst hu
        rintro (hidle | ⟨rfl, hswap⟩)
        · simp [setEnqueuing, EnqueuePc.holdsMutex] at hidle
        · -- the consumer is not inside `execute` with the mutex while it is in `enqueue_work`
          have hswap : s.executing.holdsMutex = true := hswap
          rcases h.outside with hout | hout | hout
          · rw [hpc] at hout
            cases hout
          · rw [hout] at hswap
            cases hswap
          · rw [hout] at hswap
            cases hswap
      · rw [holding_setEnqueuing_of_ne _ hu, h.holder u, hmine]
        exact fun heq => hu (Option.some.inj heq).symm
    exact ⟨fun hu => absurd hu hgone, nofun⟩

/-- The consumer is outside of `enqueue_work` when it takes a step of `execute`, so it is the one that has the mutex. -/
theorem exclusive_advance (h : Exclusive consumer s) (hidle : (s.enqueuing consumer).isIdle = true)
    (hs : s.advance consumer fails = some s') : Exclusive consumer s' := by
  have hkeep : ∀ {u : ExecutorThreads τ}, u.enqueuing = s.enqueuing → u.mutex = s.mutex →
      u.executing.holdsMutex = s.executing.holdsMutex → Exclusive consumer u := by
    intro u henq hmutex hpc
    refine ⟨?_, Or.inl (by rw [henq]; exact hidle)⟩
    intro v
    rw [hmutex, ← h.holder v, Holding, Holding, henq, hpc]
  rcases advance_cases hs with ⟨hpc, rfl⟩ | ⟨hpc, hfree, rfl⟩ | ⟨hpc, rfl⟩ | ⟨hpc, rfl⟩ | ⟨item, executor, hpc, -, rfl⟩ |
    ⟨hpc, -, rfl⟩ | ⟨hpc, rfl⟩
  · exact hkeep rfl rfl (by rw [hpc]; rfl)
  · refine ⟨?_, Or.inl hidle⟩
    intro u
    have hnone : ¬s.Holding consumer u := by
      rw [h.holder u, hfree]
      exact nofun
    constructor
    · rintro (hu | ⟨rfl, -⟩)
      · exact absurd (Or.inl hu) hnone
      · rfl
    · intro hu
      exact Or.inr ⟨(Option.some.inj hu).symm, rfl⟩
  · exact hkeep rfl rfl (by rw [hpc]; rfl)
  · have hmine : s.mutex = some consumer := (h.holder consumer).mp (Or.inr ⟨rfl, by rw [hpc]; rfl⟩)
    refine ⟨fun u => ⟨?_, nofun⟩, Or.inl hidle⟩
    rintro (hu | ⟨rfl, hswap⟩)
    · have heq := (h.holder u).mp (Or.inl hu)
      rw [hmine] at heq
      obtain rfl := Option.some.inj heq
      rw [isIdle_iff.mp hidle] at hu
      cases hu
    · cases hswap
  · exact hkeep rfl rfl (by rw [hpc]; rfl)
  · exact hkeep rfl rfl (by rw [hpc]; rfl)
  · exact hkeep rfl rfl (by rw [hpc]; rfl)

theorem exclusive_step {a : ExecutorAction τ} (h : Exclusive consumer s) (hs : step consumer s a = some s') :
    Exclusive consumer s' := by
  cases a with
  | enqueueWork u item =>
    simp only [step] at hs
    split at hs
    · rename_i hcall
      obtain rfl := Option.some.inj hs
      refine ⟨holder_setEnqueuing h (by rw [isIdle_iff.mp hcall.1]; rfl), ?_⟩
      by_cases hu : consumer = u
      · exact Or.inr (hcall.2 hu.symm)
      · simpa [setEnqueuing, hu] using h.outside
    · cases hs
  | enqueue u fails => exact exclusive_enqueue h hs
  | execute =>
    simp only [step] at hs
    split at hs
    · rename_i hcall
      obtain rfl := Option.some.inj hs
      refine ⟨?_, Or.inl hcall.1⟩
      intro u
      rw [← h.holder u]
      simp [Holding, hcall.2, ExecutePc.holdsMutex]
    · cases hs
  | advance fails =>
    simp only [step] at hs
    split at hs
    · rename_i hidle
      exact exclusive_advance h hidle hs
    · cases hs

/-! ## The items -/

/-- A thread that does not have the mutex has nothing in its hand. -/
theorem inHand_setEnqueuing (pc : EnqueuePc τ) (h : s.mutex ≠ some t) : (s.setEnqueuing t pc).inHand = s.inHand := by
  simp only [inHand, setEnqueuing]
  cases hm : s.mutex with
  | none => rfl
  | some u =>
    have hu : u ≠ t := fun heq => h (by rw [hm, heq])
    simp [hu]

theorem inHand_of_mutex (h : s.mutex = some t) (ht : ∀ item, s.enqueuing t ≠ .emplace item) : s.inHand = [] := by
  unfold inHand
  rw [h]
  cases hpc : s.enqueuing t with
  | emplace item => exact absurd hpc (ht item)
  | idle | tryLock | lock | unlock => simp only [hpc]

theorem accounted_enqueue (hx : Exclusive consumer s) (h : Accounted s) (hs : s.enqueue t fails = some s') :
    Accounted s' := by
  have hnot : (s.enqueuing t).holdsMutex = false → (s.enqueuing t).isIdle = false → s.mutex ≠ some t := by
    intro hpc hbusy
    refine mutex_ne hx hpc ?_
    rintro rfl
    rcases hx.outside with hout | hout
    · rw [hbusy] at hout
      cases hout
    · exact hout
  rcases enqueue_cases hs with ⟨item, hpc, rfl⟩ | ⟨item, hpc, hfree, rfl⟩ | ⟨item, hpc, rfl⟩ | ⟨hpc, rfl⟩
  · refine ⟨?_, h.batch, h.cleared⟩
    have hhand : (s.setEnqueuing t (.lock item)).inHand = s.inHand :=
      inHand_setEnqueuing _ (hnot (by rw [hpc]; rfl) (by rw [hpc]; rfl))
    exact (congrArg (s.started ++ s.executor.rest ++ s.executor.workItems ++ ·) hhand).trans h.order
  · refine ⟨?_, h.batch, h.cleared⟩
    have hbefore : s.inHand = [] := by rw [inHand, hfree]
    have hafter : (s.takeEnqueue t item).inHand = [item] := by simp [inHand, takeEnqueue, setEnqueuing]
    have horder := h.order
    rw [hbefore, List.append_nil] at horder
    rw [hafter]
    exact congrArg (· ++ [item]) horder
  · have hmine : s.mutex = some t := (hx.holder t).mp (Or.inl (by rw [hpc]; rfl))
    have hbefore : s.inHand = [item] := by simp [inHand, hmine, hpc]
    have hafter : ({ s with executor := s.executor.enqueueWork item }.setEnqueuing t .unlock).inHand = [] := by
      simp [inHand, setEnqueuing, hmine]
    refine ⟨?_, h.batch, fun hbatch => h.cleared hbatch⟩
    have horder := h.order
    rw [hbefore] at horder
    rw [hafter]
    simpa [setEnqueuing] using horder
  · have hmine : s.mutex = some t := (hx.holder t).mp (Or.inl (by rw [hpc]; rfl))
    have hbefore : s.inHand = [] := inHand_of_mutex hmine (by simp [hpc])
    refine ⟨?_, h.batch, h.cleared⟩
    have horder := h.order
    rw [hbefore] at horder
    exact horder

theorem accounted_advance (hx : Exclusive consumer s) (hidle : (s.enqueuing consumer).isIdle = true) (h : Accounted s)
    (hs : s.advance consumer fails = some s') : Accounted s' := by
  have hempty : ∀ u : ExecutorThreads τ, u.enqueuing = s.enqueuing → u.mutex = some consumer → u.inHand = [] := by
    intro u henq hmutex
    refine inHand_of_mutex hmutex ?_
    intro item hitem
    rw [henq, isIdle_iff.mp hidle] at hitem
    cases hitem
  rcases advance_cases hs with ⟨hpc, rfl⟩ | ⟨hpc, hfree, rfl⟩ | ⟨hpc, rfl⟩ | ⟨hpc, rfl⟩ | ⟨item, executor, hpc, hnext, rfl⟩ |
    ⟨hpc, hnext, rfl⟩ | ⟨hpc, rfl⟩
  · exact ⟨h.order, h.batch, fun _ => h.cleared (by rw [hpc]; rfl)⟩
  · refine ⟨?_, h.batch, fun _ => h.cleared (by rcases hpc with hpc | hpc <;> rw [hpc] <;> rfl)⟩
    have horder := h.order
    rw [inHand, hfree] at horder
    rw [hempty { s with executing := .swap, mutex := some consumer } rfl rfl]
    exact horder
  · -- the exchange: what waited becomes the batch, and nobody has an item in hand
    have hmine : s.mutex = some consumer := (hx.holder consumer).mp (Or.inr ⟨rfl, by rw [hpc]; rfl⟩)
    have hcleared : s.executor.workItemsBackBuffer = [] := h.cleared (by rw [hpc]; rfl)
    have hrest : s.executor.rest = [] := by rw [Executor.rest, hcleared, List.drop_nil]
    have horder := h.order
    rw [hempty s rfl hmine, hrest, List.append_nil, List.append_nil] at horder
    refine ⟨?_, ?_, fun hnot => by cases hnot⟩
    · rw [hempty { s with executing := .unlock, executor := s.executor.swap, swapped := s.order } rfl hmine]
      simpa [hcleared] using horder
    · simpa using horder
  · have hmine : s.mutex = some consumer := (hx.holder consumer).mp (Or.inr ⟨rfl, by rw [hpc]; rfl⟩)
    have horder := h.order
    rw [hempty s rfl hmine] at horder
    exact ⟨horder, h.batch, fun hnot => by cases hnot⟩
  · obtain ⟨hrest, hwork⟩ := Executor.next_eq_some hnext
    have horder := h.order
    have hbatch := h.batch
    rw [hrest] at horder hbatch
    have hhand : ({ s with executing := .item, executor := executor, started := s.started ++ [item] } :
        ExecutorThreads τ).inHand = s.inHand := rfl
    refine ⟨?_, ?_, fun hnot => by cases hnot⟩
    · rw [hhand]
      simpa [hwork] using horder
    · simpa using hbatch
  · have hrest := Executor.next_eq_none hnext
    have horder := h.order
    have hbatch := h.batch
    rw [hrest] at horder hbatch
    have hhand : ({ s with executing := .idle, executor := s.executor.clear } : ExecutorThreads τ).inHand = s.inHand := rfl
    refine ⟨?_, by simpa using hbatch, fun _ => rfl⟩
    rw [hhand]
    simpa using horder
  · exact ⟨h.order, h.batch, fun hnot => by cases hnot⟩

theorem accounted_step {a : ExecutorAction τ} (hx : Exclusive consumer s) (h : Accounted s)
    (hs : step consumer s a = some s') : Accounted s' := by
  cases a with
  | enqueueWork u item =>
    simp only [step] at hs
    split at hs
    · rename_i hcall
      obtain rfl := Option.some.inj hs
      refine ⟨?_, h.batch, h.cleared⟩
      have hpc : (s.enqueuing u).holdsMutex = false := by rw [isIdle_iff.mp hcall.1]; rfl
      have hhand : (s.setEnqueuing u (.tryLock item)).inHand = s.inHand :=
        inHand_setEnqueuing _ (mutex_ne hx hpc hcall.2)
      exact (congrArg (s.started ++ s.executor.rest ++ s.executor.workItems ++ ·) hhand).trans h.order
    · cases hs
  | enqueue u fails => exact accounted_enqueue hx h hs
  | execute =>
    simp only [step] at hs
    split at hs
    · rename_i hcall
      obtain rfl := Option.some.inj hs
      exact ⟨h.order, h.batch, fun _ => h.cleared (by rw [hcall.2]; rfl)⟩
    · cases hs
  | advance fails =>
    simp only [step] at hs
    split at hs
    · rename_i hidle
      exact accounted_advance hx hidle h hs
    · cases hs

/-! ## The steps of a batch -/

/-- What other threads do leaves a batch as it is: until the exchange they wait for the mutex, and then they append to the other
vector. -/
theorem batch_enqueue (hx : Exclusive consumer s) (hbatch : s.executing.inBatch = true) (hs : s.enqueue t fails = some s') :
    s'.executing = s.executing ∧ s'.stepsLeft = s.stepsLeft ∧ s'.batchEnd = s.batchEnd := by
  -- before the exchange the consumer has the mutex
  have hswap : s.executing = .swap → s.mutex = some consumer := fun hpc =>
    (hx.holder consumer).mp (Or.inr ⟨rfl, by rw [hpc]; rfl⟩)
  have hnot : (s.enqueuing t).holdsMutex = true → s.executing ≠ .swap := by
    intro hhold hpc
    have heq := hswap hpc
    rw [(hx.holder t).mp (Or.inl hhold)] at heq
    obtain rfl := Option.some.inj heq
    rcases hx.outside with hidle | hout | hout
    · rw [isIdle_iff.mp hidle] at hhold
      cases hhold
    · rw [hpc] at hout
      cases hout
    · rw [hpc] at hout
      cases hout
  have hsame : s'.executing = s.executing ∧ s'.executor.rest = s.executor.rest ∧ s'.swapped = s.swapped ∧
      (s.executing = .swap → s'.order = s.order ∧ s'.executor.workItems = s.executor.workItems) := by
    rcases enqueue_cases hs with ⟨item, hpc, rfl⟩ | ⟨item, hpc, hfree, rfl⟩ | ⟨item, hpc, rfl⟩ | ⟨hpc, rfl⟩
    · exact ⟨rfl, rfl, rfl, fun _ => ⟨rfl, rfl⟩⟩
    · refine ⟨rfl, rfl, rfl, ?_⟩
      intro hpc
      rw [hswap hpc] at hfree
      cases hfree
    · exact ⟨rfl, rfl, rfl, fun hswap => absurd hswap (hnot (by rw [hpc]; rfl))⟩
    · exact ⟨rfl, rfl, rfl, fun _ => ⟨rfl, rfl⟩⟩
  obtain ⟨hpc, hrest, hswapped, horder⟩ := hsame
  refine ⟨hpc, ?_, ?_⟩
  · cases he : s.executing with
    | swap => simp only [stepsLeft, hpc, he, (horder he).2]
    | unlock | loop | item => simp only [stepsLeft, hpc, he, hrest]
    | idle | tryLock | lock =>
      rw [he] at hbatch
      cases hbatch
  · cases he : s.executing with
    | swap => simp only [batchEnd, hpc, he, (horder he).1]
    | unlock | loop | item => simp only [batchEnd, hpc, he, hswapped]
    | idle | tryLock | lock =>
      rw [he] at hbatch
      cases hbatch

/-- Each step of `execute` brings the batch nearer to its end. -/
theorem batch_advance (hbatch : s.executing.inBatch = true) (hs : s.advance consumer fails = some s') :
    s.stepsLeft = s'.stepsLeft + 1 ∧ s'.batchEnd = s.batchEnd ∧
      (s'.executing.inBatch = true ∨ s'.executing = .idle ∧ s'.executor.rest = []) := by
  rcases advance_cases hs with ⟨hpc, rfl⟩ | ⟨hpc, -, rfl⟩ | ⟨hpc, rfl⟩ | ⟨hpc, rfl⟩ | ⟨item, executor, hpc, hnext, rfl⟩ |
    ⟨hpc, hnext, rfl⟩ | ⟨hpc, rfl⟩
  · rw [hpc] at hbatch
    cases hbatch
  · rcases hpc with hpc | hpc <;> rw [hpc] at hbatch <;> cases hbatch
  · exact ⟨by simp [stepsLeft, hpc], by simp [batchEnd, hpc], Or.inl rfl⟩
  · refine ⟨?_, by simp [batchEnd, hpc], Or.inl rfl⟩
    simp only [stepsLeft, hpc]
  · have hrest := (Executor.next_eq_some hnext).1
    refine ⟨?_, by simp [batchEnd, hpc], Or.inl rfl⟩
    simp only [stepsLeft, hpc, hrest, List.length_cons]
    omega
  · have hrest := Executor.next_eq_none hnext
    refine ⟨?_, by simp [batchEnd, hpc], Or.inr ⟨rfl, rfl⟩⟩
    simp only [stepsLeft, hpc, hrest, List.length_nil]
  · refine ⟨?_, by simp [batchEnd, hpc], Or.inl rfl⟩
    simp only [stepsLeft, hpc]

theorem batch_step {a : ExecutorAction τ} (hx : Exclusive consumer s) (hbatch : s.executing.inBatch = true)
    (hs : step consumer s a = some s') :
    s.stepsLeft = s'.stepsLeft + (if a.isAdvance then 1 else 0) ∧ s'.batchEnd = s.batchEnd ∧
      (s'.executing.inBatch = true ∨ s'.executing = .idle ∧ s'.executor.rest = []) := by
  cases a with
  | enqueueWork u item =>
    simp only [step] at hs
    split at hs
    · obtain rfl := Option.some.inj hs
      exact ⟨rfl, rfl, Or.inl hbatch⟩
    · cases hs
  | enqueue u fails =>
    obtain ⟨hpc, hleft, hend⟩ := batch_enqueue hx hbatch hs
    exact ⟨hleft.symm, hend, Or.inl (by rw [hpc]; exact hbatch)⟩
  | execute =>
    simp only [step] at hs
    split at hs
    · rename_i hcall
      rw [hcall.2] at hbatch
      cases hbatch
    · cases hs
  | advance fails =>
    simp only [step] at hs
    split at hs
    · exact batch_advance hbatch hs
    · cases hs

/-- The two invariants along a run. -/
theorem inv_run {acts : List (ExecutorAction τ)} (hx : Exclusive consumer s) (h : Accounted s)
    (hrun : run (step consumer) s acts = some s') : Exclusive consumer s' ∧ Accounted s' := by
  have hinv : Exclusive consumer s ∧ Accounted s := ⟨hx, h⟩
  exact run_invariant (P := fun s => Exclusive consumer s ∧ Accounted s)
    (fun s a s' hs hstep => ⟨exclusive_step hs.1 hstep, accounted_step hs.1 hs.2 hstep⟩) hinv hrun

/-- A batch that takes as many steps as it had left has returned on the way, and has started what it should. -/
theorem batch_ends {more : List (ExecutorAction τ)} {u : ExecutorThreads τ} (hx : Exclusive consumer s) (h : Accounted s)
    (hbatch : s.executing.inBatch = true) (hrun : run (step consumer) s more = some u)
    (hsteps : s.stepsLeft ≤ more.countP ExecutorAction.isAdvance) :
    ∃ pre v, pre <+: more ∧ run (step consumer) s pre = some v ∧ v.executing = .idle ∧ v.started = s.batchEnd := by
  induction more generalizing s with
  | nil =>
    have hzero : s.stepsLeft = 0 := Nat.le_zero.mp hsteps
    cases hpc : s.executing with
    | swap | unlock | loop | item => simp [stepsLeft, hpc] at hzero
    | idle | tryLock | lock =>
      rw [hpc] at hbatch
      cases hbatch
  | cons a more ih =>
    obtain ⟨s', hs, hrest⟩ := run_cons_some hrun
    obtain ⟨hleft, hend, hnext⟩ := batch_step hx hbatch hs
    have hx' := exclusive_step hx hs
    have h' := accounted_step hx h hs
    rcases hnext with hin | ⟨hidle, hnil⟩
    · rw [List.countP_cons] at hsteps
      obtain ⟨pre, v, hpre, hv, hvidle, hvstarted⟩ := ih hx' h' hin hrest (by omega)
      refine ⟨a :: pre, v, List.cons_prefix_cons.mpr ⟨rfl, hpre⟩, ?_, hvidle, hvstarted.trans hend⟩
      rw [run_cons, hs, Option.bind_some, hv]
    · refine ⟨[a], s', by simp, by rw [run_cons, hs]; rfl, hidle, ?_⟩
      have hall := h'.batch
      rw [hnil, List.append_nil] at hall
      rw [hall, ← hend, batchEnd, hidle]

/-! ## Nobody waits for ever -/

/-- The thread that has the mutex can go on. -/
theorem holder_steps (hx : Exclusive consumer s) (hmutex : s.mutex = some t) :
    (s.enqueue t false).isSome = true ∨ t = consumer ∧ (step consumer s (.advance false)).isSome = true := by
  rcases (hx.holder t).mpr hmutex with hhold | ⟨rfl, hhold⟩
  · left
    cases hpc : s.enqueuing t with
    | emplace item => simp [enqueue, hpc]
    | unlock => simp [enqueue, hpc]
    | idle | tryLock | lock =>
      rw [hpc] at hhold
      cases hhold
  · refine Or.inr ⟨rfl, ?_⟩
    have hidle : (s.enqueuing t).isIdle = true := by
      rcases hx.outside with hidle | hout | hout
      · exact hidle
      · rw [hout] at hhold
        cases hhold
      · rw [hout] at hhold
        cases hhold
    simp only [step, hidle, if_true]
    cases hpc : s.executing with
    | swap | unlock => simp [advance, hpc]
    | idle | tryLock | lock | loop | item =>
      rw [hpc] at hhold
      cases hhold

/-- From the exchange on, `execute` waits for nothing but the work item it runs. -/
theorem batch_steps (hbatch : s.executing.inBatch = true) (hidle : (s.enqueuing consumer).isIdle = true) :
    (step consumer s (.advance false)).isSome = true := by
  simp only [step, hidle, if_true]
  cases hpc : s.executing with
  | swap | unlock | item => simp [advance, hpc]
  | loop =>
    cases hnext : s.executor.next with
    | none => simp [advance, hpc, hnext]
    | some x => simp [advance, hpc, hnext]
  | idle | tryLock | lock =>
    rw [hpc] at hbatch
    cases hbatch

end ExecutorAux

open ExecutorThreads ExecutorAux

/-- At every moment of every run, with any number of threads and with items that enqueue further items: the items already
started, the rest of the running batch, the waiting queue and the item in the hand of the thread that has the mutex are all
items enqueued so far, in the order their `enqueue_work` took the mutex. Between two calls of `execute` the started items are
those enqueued before the last exchange. And from its exchange on, an `execute` can always go on, unless its work item waits for
the mutex, which some thread can then release; and after `2 * n + 3` steps of its own, for the `n` items that were waiting, it has
returned, having started exactly the items enqueued before its exchange, whatever was enqueued meanwhile. -/
theorem executor_runs_in_order {τ : Type*} (consumer : ThreadId) {acts : List (ExecutorAction τ)} {s : ExecutorThreads τ}
    (h : run (step consumer) {} acts = some s) :
    s.started ++ s.executor.rest ++ s.executor.workItems ++ s.inHand = s.order ∧
      s.started ++ s.executor.rest = s.swapped ∧
      (s.executing = .idle → s.started = s.swapped) ∧
      (s.executing = .swap → ∀ more u, run (step consumer) s more = some u →
        2 * s.executor.workItems.length + 3 ≤ more.countP ExecutorAction.isAdvance →
        ∃ pre v, pre <+: more ∧ run (step consumer) s pre = some v ∧ v.executing = .idle ∧ v.started = s.order) ∧
      (s.executing.inBatch = true → (s.enqueuing consumer).isIdle = true →
        (step consumer s (.advance false)).isSome = true) ∧
      (∀ t, s.mutex = some t →
        (s.enqueue t false).isSome = true ∨ t = consumer ∧ (step consumer s (.advance false)).isSome = true) := by
  have hinit : Exclusive consumer ({} : ExecutorThreads τ) :=
    ⟨fun t => by simp [Holding, EnqueuePc.holdsMutex, ExecutePc.holdsMutex], Or.inl rfl⟩
  have hempty : Accounted ({} : ExecutorThreads τ) := ⟨rfl, rfl, fun _ => rfl⟩
  obtain ⟨hx, hacc⟩ := inv_run hinit hempty h
  refine ⟨hacc.order, hacc.batch, ?_, ?_, batch_steps, fun t => holder_steps hx⟩
  · intro hidle
    have hcleared := hacc.cleared (by rw [hidle]; rfl)
    have hbatch := hacc.batch
    rwa [Executor.rest, hcleared, List.drop_nil, List.append_nil] at hbatch
  · intro hpc more u hrun hsteps
    have hleft : s.stepsLeft = 2 * s.executor.workItems.length + 3 := by rw [stepsLeft, hpc]
    have hend : s.batchEnd = s.order := by rw [batchEnd, hpc]
    rw [← hend]
    exact batch_ends hx hacc (by rw [hpc]; rfl) hrun (by rw [hleft]; exact hsteps)

/-- A producer enqueues an item, and the consumer takes the mutex to run it. -/
def toSwap : List (ExecutorAction Nat) :=
  [.enqueueWork 1 5, .enqueue 1 false, .enqueue 1 false, .enqueue 1 false, .execute, .advance false]

/-- The batch that follows; its one item enqueues itself again. -/
def repostingBatch : List (ExecutorAction Nat) :=
  [.advance false, .advance false, .advance false, .enqueueWork 0 5, .enqueue 0 false, .enqueue 0 false, .enqueue 0 false,
    .advance false, .advance false]

/-- `executor_runs_in_order` on an item that enqueues itself: the batch ends, and leaves the second copy waiting. -/
theorem executor_runs_in_order_reposting :
    ∃ s u, run (step 0) {} toSwap = some s ∧ run (step 0) s repostingBatch = some u ∧ u.executor.workItems = [5] ∧
      ∃ pre v, pre <+: repostingBatch ∧ run (step 0) s pre = some v ∧ v.executing = .idle ∧ v.started = [5] := by
  obtain ⟨s, u, hs, hu, hwaiting, hpc, hlength, horder⟩ : ∃ s u, run (step 0) {} toSwap = some s ∧
      run (step 0) s repostingBatch = some u ∧ u.executor.workItems = [5] ∧ s.executing = .swap ∧
      s.executor.workItems.length = 1 ∧ s.order = [5] := ⟨_, _, rfl, rfl, rfl, rfl, rfl, rfl⟩
  have hbatch := (executor_runs_in_order 0 hs).2.2.2.1 hpc repostingBatch u hu (by rw [hlength]; decide)
  rw [horder] at hbatch
  exact ⟨s, u, hs, hu, hwaiting, hbatch⟩

end Minicomps
