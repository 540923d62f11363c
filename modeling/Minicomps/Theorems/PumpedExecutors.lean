import Mathlib.Data.Set.Insert
import Minicomps.Lib.Transition
import Minicomps.PumpedExecutors

/-!
# Executors that are pumped get to the end of their work

A batch runs what was there when it started. So once every executor has started a batch and come to the end of it, whatever waits then was
enqueued by an item that had waited before, and ranks below it: each round takes the work down by one rank, whichever way the executors
take turns in it.
-/

namespace Minicomps

open Transition

namespace PumpedExecutors

namespace PumpedAux

variable {τ : Type*} {rank : τ → Nat} {pumped : Set ExecutorId} {s s' : PumpedExecutors τ} {n : Nat} {x y : ExecutorId}

/-! ## Steps -/

/-- What a step does. -/
theorem step_cases {a : PumpAction τ} (h : s.step a = some s') :
    (∃ x item, a = .post x item ∧ s' = s.enqueueOn x item) ∨
    (∃ x, a = .startBatch x ∧ s.executing x = false ∧
      s' = { s with
        executors := Function.update s.executors x (s.executors x).swap
        executing := Function.update s.executing x true }) ∨
    (∃ x spawned item e, a = .runNext x spawned ∧ s.executing x = true ∧ s.spawning x = [] ∧ (s.executors x).next = some (item, e) ∧
      s' = { s with
        executors := Function.update s.executors x e
        spawning := Function.update s.spawning x spawned }) ∨
    (∃ x y item spawned, a = .enqueueWork x ∧ s.spawning x = (y, item) :: spawned ∧
      s' = { s with spawning := Function.update s.spawning x spawned }.enqueueOn y item) ∨
    (∃ x, a = .finishBatch x ∧ s.executing x = true ∧ s.spawning x = [] ∧ (s.executors x).next = none ∧
      s' = { s with
        executors := Function.update s.executors x (s.executors x).clear
        executing := Function.update s.executing x false }) := by
  cases a with
  | post x item => exact Or.inl ⟨x, item, rfl, (Option.some.inj h).symm⟩
  | startBatch x =>
    simp only [step] at h
    split at h
    · cases h
    · rename_i hidle
      exact Or.inr (Or.inl ⟨x, rfl, Bool.not_eq_true _ ▸ hidle, (Option.some.inj h).symm⟩)
  | runNext x spawned =>
    simp only [step] at h
    split at h
    · rename_i hready
      rw [Bool.and_eq_true, List.isEmpty_iff] at hready
      split at h
      · rename_i item e hnext
        exact Or.inr (Or.inr (Or.inl ⟨x, spawned, item, e, rfl, hready.1, hready.2, hnext, (Option.some.inj h).symm⟩))
      · cases h
    · cases h
  | enqueueWork x =>
    simp only [step] at h
    split at h
    · rename_i y item spawned hspawning
      exact Or.inr (Or.inr (Or.inr (Or.inl ⟨x, y, item, spawned, rfl, hspawning, (Option.some.inj h).symm⟩)))
    · cases h
  | finishBatch x =>
    simp only [step] at h
    split at h
    · rename_i hready
      rw [Bool.and_eq_true, List.isEmpty_iff] at hready
      split at h
      · cases h
      · rename_i hnext
        exact Or.inr (Or.inr (Or.inr (Or.inr ⟨x, rfl, hready.1, hready.2, hnext, (Option.some.inj h).symm⟩)))
    · cases h

/-- An item comes to the end of one queue. -/
theorem executors_enqueueOn (s : PumpedExecutors τ) (x : ExecutorId) (item : τ) (y : ExecutorId) :
    (s.enqueueOn x item).executors y = if y = x then (s.executors x).enqueueWork item else s.executors y :=
  Function.update_apply ..

theorem mem_pending_enqueueOn {item item' : τ} (h : item' ∈ ((s.enqueueOn x item).executors y).pending) :
    item' ∈ (s.executors y).pending ∨ y = x ∧ item' = item := by
  rw [executors_enqueueOn] at h
  split at h
  · rename_i hyx
    rw [Executor.pending_enqueueWork, List.mem_append, List.mem_singleton] at h
    exact h.imp (fun hold => hyx ▸ hold) fun hnew => ⟨hyx, hnew⟩
  · exact Or.inl h

theorem mem_workItems_enqueueOn {item item' : τ} (h : item' ∈ ((s.enqueueOn x item).executors y).workItems) :
    item' ∈ (s.executors y).workItems ∨ y = x ∧ item' = item := by
  rw [executors_enqueueOn] at h
  split at h
  · rename_i hyx
    rw [Executor.workItems_enqueueWork, List.mem_append, List.mem_singleton] at h
    exact h.imp (fun hold => hyx ▸ hold) fun hnew => ⟨hyx, hnew⟩
  · exact Or.inl h

/-- The back buffer is empty between batches. -/
def Cleared (s : PumpedExecutors τ) : Prop := ∀ x, s.executing x = false → (s.executors x).workItemsBackBuffer = []

theorem cleared_enqueueOn (h : Cleared s) (x : ExecutorId) (item : τ) : Cleared (s.enqueueOn x item) := by
  intro y hy
  rw [executors_enqueueOn]
  split
  · rename_i hyx
    exact h x (hyx ▸ hy)
  · exact h y hy

/-- An executor is changed that executes afterwards, or that has cleared its back buffer. -/
theorem cleared_update (x : ExecutorId) (e : Executor τ) (running : Bool) (h : Cleared s)
    (he : running = false → e.workItemsBackBuffer = []) :
    Cleared { s with executors := Function.update s.executors x e, executing := Function.update s.executing x running } := by
  intro y hy
  by_cases hyx : y = x
  · subst hyx
    simp only [Function.update_self] at hy ⊢
    exact he hy
  · simp only [Function.update_of_ne hyx] at hy ⊢
    exact h y hy

theorem cleared_step {a : PumpAction τ} (h : Cleared s) (hs : s.step a = some s') : Cleared s' := by
  rcases step_cases hs with ⟨x, item, -, rfl⟩ | ⟨x, -, -, rfl⟩ | ⟨x, spawned, item, e, -, hrunning, -, -, rfl⟩ |
    ⟨x, y, item, spawned, -, -, rfl⟩ | ⟨x, -, -, -, -, rfl⟩
  · exact cleared_enqueueOn h x item
  · exact cleared_update x _ true h nofun
  · have hupdate := cleared_update x e true h nofun
    rwa [← hrunning, Function.update_eq_self] at hupdate
  · exact @cleared_enqueueOn τ { s with spawning := Function.update s.spawning x spawned } h y item
  · exact cleared_update x _ false h fun _ => rfl

/-- Where all that is there after a step comes from. -/
structure Sources (rank : τ → Nat) (pumped : Set ExecutorId) (s s' : PumpedExecutors τ) : Prop where
  pending : ∀ y, ∀ item ∈ (s'.executors y).pending, item ∈ (s.executors y).pending ∨ ∃ z, (y, item) ∈ s.spawning z
  workItems : ∀ y, ∀ item ∈ (s'.executors y).workItems, item ∈ (s.executors y).workItems ∨ ∃ z, (y, item) ∈ s.spawning z
  /-- An item enqueues what ranks below it. -/
  spawning : ∀ y, ∀ p ∈ s'.spawning y,
    p ∈ s.spawning y ∨ ∃ item ∈ (s.executors y).pending, p.1 ∈ pumped ∧ rank p.2 < rank item

/-- An executor is changed, and has no more to do than it had. -/
theorem sources_update (x : ExecutorId) (e : Executor τ) (executing : ExecutorId → Bool) (spawned : List (ExecutorId × τ))
    (hpending : ∀ item ∈ e.pending, item ∈ (s.executors x).pending) (hwork : ∀ item ∈ e.workItems, item ∈ (s.executors x).workItems)
    (hspawned : ∀ p ∈ spawned, p ∈ s.spawning x ∨ ∃ item ∈ (s.executors x).pending, p.1 ∈ pumped ∧ rank p.2 < rank item) :
    Sources rank pumped s
      { executors := Function.update s.executors x e, executing, spawning := Function.update s.spawning x spawned } := by
  refine ⟨fun y item hitem => Or.inl ?_, fun y item hitem => Or.inl ?_, fun y p hp => ?_⟩
  · simp only [Function.update_apply] at hitem
    split at hitem
    · rename_i hyx
      exact hyx ▸ hpending item hitem
    · exact hitem
  · simp only [Function.update_apply] at hitem
    split at hitem
    · rename_i hyx
      exact hyx ▸ hwork item hitem
    · exact hitem
  · simp only [Function.update_apply] at hp
    split at hp
    · rename_i hyx
      exact hyx ▸ hspawned p hp
    · exact Or.inl hp

theorem step_sources {a : PumpAction τ} (hcleared : Cleared s) (ha : Descends rank pumped s a) (hs : s.step a = some s') :
    Sources rank pumped s s' := by
  rcases step_cases hs with ⟨x, item, rfl, -⟩ | ⟨x, -, hidle, rfl⟩ | ⟨x, spawned, item, e, rfl, -, -, hnext, rfl⟩ |
    ⟨x, y, item, spawned, -, hspawning, rfl⟩ | ⟨x, -, -, hspawning, hnext, rfl⟩
  · exact absurd ha not_false
  · have hback := hcleared x hidle
    have hsources : Sources rank pumped s _ := sources_update x (s.executors x).swap (Function.update s.executing x true) (s.spawning x)
      ?_ ?_ fun p hp => Or.inl hp
    · rwa [Function.update_eq_self] at hsources
    · intro item hitem
      rwa [Executor.pending_swap hback] at hitem
    · intro item hitem
      rw [Executor.workItems_swap, hback] at hitem
      cases hitem
  · have hpending := Executor.pending_next hnext
    refine sources_update x e s.executing spawned ?_ ?_ fun p hp => Or.inr ⟨item, ?_, ha item e hnext p hp⟩
    · intro item' hitem'
      rw [hpending]
      exact List.mem_cons_of_mem item hitem'
    · intro item' hitem'
      rwa [(Executor.vectors_next hnext).1] at hitem'
    · rw [hpending]
      exact List.mem_cons_self
  · have hfirst : (y, item) ∈ s.spawning x := hspawning ▸ List.mem_cons_self
    refine ⟨fun z item' hitem' => ?_, fun z item' hitem' => ?_, fun z p hp => Or.inl ?_⟩
    · rcases mem_pending_enqueueOn hitem' with hold | ⟨rfl, rfl⟩
      · exact Or.inl hold
      · exact Or.inr ⟨x, hfirst⟩
    · rcases mem_workItems_enqueueOn hitem' with hold | ⟨rfl, rfl⟩
      · exact Or.inl hold
      · exact Or.inr ⟨x, hfirst⟩
    · change p ∈ Function.update s.spawning x spawned z at hp
      rw [Function.update_apply] at hp
      split at hp
      · rename_i hzx
        rw [hzx, hspawning]
        exact List.mem_cons_of_mem _ hp
      · exact hp
  · have hsources : Sources rank pumped s _ := sources_update x (s.executors x).clear (Function.update s.executing x false)
      (s.spawning x) ?_ ?_ fun p hp => Or.inl hp
    · rwa [Function.update_eq_self] at hsources
    · intro item hitem
      rwa [Executor.pending_clear hnext] at hitem
    · exact fun item hitem => hitem

/-! ## One round -/

theorem below_step {s' : PumpedExecutors τ} (h : Below rank pumped n s) (hsources : Sources rank pumped s s') : Below rank pumped n s' where
  pending y item hitem := by
    rcases hsources.pending y item hitem with hold | ⟨z, hz⟩
    · exact h.pending y item hold
    · obtain ⟨-, hy, hrank⟩ := h.spawning z (y, item) hz
      exact ⟨hy, Nat.lt_of_succ_lt hrank⟩
  spawning y p hp := by
    rcases hsources.spawning y p hp with hold | ⟨item, hitem, hpumped, hrank⟩
    · exact h.spawning y p hold
    · obtain ⟨hy, hlt⟩ := h.pending y item hitem
      exact ⟨hy, hpumped, Nat.lt_of_le_of_lt hrank hlt⟩

/-- What will wait for the next batch of the executor ranks below `n`. -/
def LaterBelow (rank : τ → Nat) (n : Nat) (x : ExecutorId) (s : PumpedExecutors τ) : Prop :=
  ∀ item ∈ (s.executors x).workItems, rank item < n

theorem laterBelow_step (hbelow : Below rank pumped (n + 1) s) (h : LaterBelow rank n x s) (hsources : Sources rank pumped s s') :
    LaterBelow rank n x s' := by
  intro item hitem
  rcases hsources.workItems x item hitem with hold | ⟨z, hz⟩
  · exact h item hold
  · exact Nat.lt_of_succ_lt_succ (hbelow.spawning z (x, item) hz).2.2

/-- All the executor has to do ranks below `n`, and what its item has still to enqueue ranks below that. -/
structure BelowAt (rank : τ → Nat) (n : Nat) (x : ExecutorId) (s : PumpedExecutors τ) : Prop where
  pending : ∀ item ∈ (s.executors x).pending, rank item < n
  spawning : ∀ p ∈ s.spawning x, rank p.2 + 1 < n

theorem belowAt_step (hbelow : Below rank pumped (n + 1) s) (h : BelowAt rank n x s) (hsources : Sources rank pumped s s') :
    BelowAt rank n x s' where
  pending item hitem := by
    rcases hsources.pending x item hitem with hold | ⟨z, hz⟩
    · exact h.pending item hold
    · exact Nat.lt_of_succ_lt_succ (hbelow.spawning z (x, item) hz).2.2
  spawning p hp := by
    rcases hsources.spawning x p hp with hold | ⟨item, hitem, -, hrank⟩
    · exact h.spawning p hold
    · exact Nat.lt_of_le_of_lt hrank (h.pending item hitem)

/-- An invariant that steps keep which descend from below a rank. -/
theorem run_keeps {P : PumpedExecutors τ → Prop}
    (hP : ∀ t t', Below rank pumped n t → P t → Sources rank pumped t t' → P t') {acts : List (PumpAction τ)} (hcleared : Cleared s)
    (hbelow : Below rank pumped n s) (hs : P s) (hacts : AllSteps step (Descends rank pumped) s acts) (hrun : run step s acts = some s') :
    Cleared s' ∧ Below rank pumped n s' ∧ P s' := by
  refine AllSteps.run_invariant (P := fun t => Cleared t ∧ Below rank pumped n t ∧ P t) ?_ ⟨hcleared, hbelow, hs⟩ hacts hrun
  rintro t a t' ⟨hc, hb, hp⟩ ha ht
  have hsources := step_sources hc ha ht
  exact ⟨cleared_step hc ht, below_step hb hsources, hP t t' hb hp hsources⟩

theorem workItems_startBatch (hcleared : Cleared s) (h : s.step (.startBatch x) = some s') : (s'.executors x).workItems = [] := by
  simp only [step] at h
  split at h
  · cases h
  · rename_i hidle
    obtain rfl := Option.some.inj h
    simp only [Function.update_self, Executor.workItems_swap]
    exact hcleared x (Bool.not_eq_true _ ▸ hidle)

theorem finishBatch_spec (h : s.step (.finishBatch x) = some s') :
    (s'.executors x).pending = (s.executors x).workItems ∧ s'.spawning x = [] := by
  simp only [step] at h
  split at h
  · rename_i hready
    rw [Bool.and_eq_true, List.isEmpty_iff] at hready
    split at h
    · cases h
    · obtain rfl := Option.some.inj h
      refine ⟨?_, hready.2⟩
      simp only [Function.update_self]
      rfl
  · cases h

/-- In a round the executor completes a batch, which leaves nothing of what was there before. -/
theorem belowAt_of_completes {acts : List (PumpAction τ)} (hcleared : Cleared s) (hbelow : Below rank pumped (n + 1) s)
    (hacts : AllSteps step (Descends rank pumped) s acts) (hrun : run step s acts = some s') (hx : Completes x acts) :
    BelowAt rank n x s' := by
  obtain ⟨before, between, after, rfl⟩ := hx
  rw [run_append] at hrun
  obtain ⟨s₁, h₁, hrun⟩ := Option.bind_eq_some_iff.mp hrun
  obtain ⟨hacts₁, hacts⟩ := (allSteps_append_iff h₁).mp hacts
  obtain ⟨hcleared₁, hbelow₁, -⟩ := run_keeps (P := fun _ => True) (fun _ _ _ _ _ => trivial) hcleared hbelow trivial hacts₁ h₁
  -- The batch takes all that waits.
  obtain ⟨s₂, h₂, hrun⟩ := run_cons_some hrun
  have hlater₂ : LaterBelow rank n x s₂ := by
    intro item hitem
    rw [workItems_startBatch hcleared₁ h₂] at hitem
    cases hitem
  have hbelow₂ := below_step hbelow₁ (step_sources hcleared₁ hacts.1 h₂)
  have hcleared₂ := cleared_step hcleared₁ h₂
  -- What comes meanwhile ranks below `n`.
  rw [run_append] at hrun
  obtain ⟨s₃, h₃, hrun⟩ := Option.bind_eq_some_iff.mp hrun
  obtain ⟨hacts₃, hacts⟩ := (allSteps_append_iff h₃).mp (hacts.2 s₂ h₂)
  obtain ⟨hcleared₃, hbelow₃, hlater₃⟩ :=
    run_keeps (fun _ _ => laterBelow_step) hcleared₂ hbelow₂ hlater₂ hacts₃ h₃
  -- When the batch is over, nothing else is there.
  obtain ⟨s₄, h₄, hrun⟩ := run_cons_some hrun
  obtain ⟨hpending, hspawning⟩ := finishBatch_spec h₄
  have hat₄ : BelowAt rank n x s₄ := by
    refine ⟨fun item hitem => hlater₃ item (hpending ▸ hitem), fun p hp => ?_⟩
    rw [hspawning] at hp
    cases hp
  have hbelow₄ := below_step hbelow₃ (step_sources hcleared₃ hacts.1 h₄)
  exact (run_keeps (fun _ _ => belowAt_step) (cleared_step hcleared₃ h₄) hbelow₄ hat₄ (hacts.2 s₄ h₄) hrun).2.2

/-- A round in which all executors that have work complete a batch. -/
theorem below_round {acts : List (PumpAction τ)} (hcleared : Cleared s) (hbelow : Below rank pumped (n + 1) s)
    (hacts : AllSteps step (Descends rank pumped) s acts) (hrun : run step s acts = some s') (hround : ∀ x ∈ pumped, Completes x acts) :
    Cleared s' ∧ Below rank pumped n s' := by
  obtain ⟨hcleared', hbelow', -⟩ := run_keeps (P := fun _ => True) (fun _ _ _ _ _ => trivial) hcleared hbelow trivial hacts hrun
  refine ⟨hcleared', fun x item hitem => ?_, fun x p hp => ?_⟩
  · have hx := (hbelow'.pending x item hitem).1
    exact ⟨hx, (belowAt_of_completes hcleared hbelow hacts hrun (hround x hx)).pending item hitem⟩
  · obtain ⟨hx, hpumped, -⟩ := hbelow'.spawning x p hp
    exact ⟨hx, hpumped, (belowAt_of_completes hcleared hbelow hacts hrun (hround x hx)).spawning p hp⟩

/-- Each round takes the work down by one rank. -/
theorem below_rounds (rounds : List (List (PumpAction τ))) : ∀ s : PumpedExecutors τ, Cleared s → Below rank pumped (n + rounds.length) s →
    (∀ round ∈ rounds, ∀ x ∈ pumped, Completes x round) → AllSteps step (Descends rank pumped) s rounds.flatten →
    run step s rounds.flatten = some s' → Below rank pumped n s' := by
  induction rounds with
  | nil =>
    rintro s - hbelow - - hrun
    exact Option.some.inj hrun ▸ hbelow
  | cons round rounds ih =>
    intro s hcleared hbelow hrounds hacts hrun
    rw [List.flatten_cons] at hacts hrun
    rw [run_append] at hrun
    obtain ⟨t, ht, hrun⟩ := Option.bind_eq_some_iff.mp hrun
    obtain ⟨hfirst, hrest⟩ := (allSteps_append_iff ht).mp hacts
    obtain ⟨hround, hrounds⟩ := List.forall_mem_cons.mp hrounds
    obtain ⟨hcleared', hbelow'⟩ := below_round hcleared hbelow hfirst ht hround
    exact ih t hcleared' hbelow' hrounds hrest hrun

theorem cleared_init : Cleared (init (τ := τ)) := fun _ _ => rfl

end PumpedAux

open PumpedAux

variable {τ : Type*}

/-- From any state that has been reached, once each executor that has work has completed as many batches, round by round, as the work
ranks high, nothing is left to do anywhere: no item waits, and none is in the middle of enqueueing. It takes that no work comes from
outside, that it stays on these executors, and that what an item enqueues ranks below it. -/
theorem pumped_drained (rank : τ → Nat) (pumped : Set ExecutorId) {acts : List (PumpAction τ)} {s s' : PumpedExecutors τ}
    (hs : run step init acts = some s) {rounds : List (List (PumpAction τ))} (hbelow : Below rank pumped rounds.length s)
    (hrounds : ∀ round ∈ rounds, ∀ x ∈ pumped, Completes x round) (hdescends : AllSteps step (Descends rank pumped) s rounds.flatten)
    (hrun : run step s rounds.flatten = some s') : s'.Drained := by
  have hcleared : Cleared s := run_invariant (fun _ _ _ => cleared_step) cleared_init hs
  have hnone := below_rounds (n := 0) rounds s hcleared (by rwa [Nat.zero_add]) hrounds hdescends hrun
  intro x
  refine ⟨List.eq_nil_iff_forall_not_mem.mpr fun item hitem => ?_, List.eq_nil_iff_forall_not_mem.mpr fun p hp => ?_⟩
  · exact Nat.not_lt_zero _ (hnone.pending x item hitem).2
  · exact Nat.not_lt_zero _ (hnone.spawning x p hp).2.2

/-- A request on executor 1, and its answer on executor 0, which has started its first batch too early for it. The items are their ranks. -/
def answerRounds : List (List (PumpAction Nat)) :=
  [[.startBatch 1, .startBatch 0, .finishBatch 0, .runNext 1 [(0, 0)], .enqueueWork 1, .finishBatch 1],
    [.startBatch 0, .startBatch 1, .runNext 0 [], .finishBatch 1, .finishBatch 0]]

theorem pumped_drained_answered :
    ∃ s s', run step init [.post 1 1] = some s ∧ run step s answerRounds.flatten = some s' ∧ s'.Drained := by
  refine ⟨_, _, rfl, rfl, @pumped_drained _ id {0, 1} [.post 1 1] _ _ rfl answerRounds ?_ ?_ ?_ rfl⟩
  · refine ⟨fun x item hitem => ?_, nofun⟩
    rcases mem_pending_enqueueOn hitem with hold | ⟨rfl, rfl⟩
    · cases hold
    · exact ⟨Or.inr rfl, Nat.one_lt_two⟩
  · intro round hround x hx
    simp only [answerRounds, List.mem_cons, List.not_mem_nil, or_false] at hround
    rcases hround with rfl | rfl <;> rcases hx with rfl | rfl
    · exact ⟨[.startBatch 1], [], [.runNext 1 [(0, 0)], .enqueueWork 1, .finishBatch 1], rfl⟩
    · exact ⟨[], [.startBatch 0, .finishBatch 0, .runNext 1 [(0, 0)], .enqueueWork 1], [], rfl⟩
    · exact ⟨[], [.startBatch 1, .runNext 0 [], .finishBatch 1], [], rfl⟩
    · exact ⟨[.startBatch 0], [.runNext 0 []], [.finishBatch 0], rfl⟩
  · simp [AllSteps, answerRounds, Descends, step, enqueueOn, init, Executor.next, Executor.enqueueWork, Executor.swap, Executor.clear]

end PumpedExecutors

end Minicomps
