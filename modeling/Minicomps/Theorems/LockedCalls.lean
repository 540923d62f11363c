import Minicomps.Lib.Transition
import Minicomps.LockedCalls
import Mathlib.Data.List.Basic

/-!
# Calls with the lock are serializable

Where no client is on the receiver's executor, every call of a client runs between a lock and the unlock that belongs to it, result
handler and nested calls included. So at any time at most one thread is inside the receiver, the calls that have returned are the
first ones that got the lock, and what they did is what they do when they are run alone, one after another.
-/

namespace Minicomps

namespace SyncSystem

variable {θ γ α κ ν ρ : Type*} [DecidableEq θ] [DecidableEq κ] {d : SyncReceiver γ α κ ν ρ} {store store₁ : κ → ν}
  {s s' : SyncSystem θ γ α κ ν ρ} {outcomes : List (ρ × List ν)} {t : θ} {q : LockedCall γ α κ ν ρ}
  {a a' : SyncActivation γ α κ ν ρ}

/-- The calls that have returned are the first ones that started, in that order; run alone one after another from the state `store`
they give the results they have returned, read what they have read, and leave the receiver in the state `store₁`. -/
structure Serialized (d : SyncReceiver γ α κ ν ρ) (store : κ → ν) (s : SyncSystem θ γ α κ ν ρ) (outcomes : List (ρ × List ν))
    (store₁ : κ → ν) : Prop where
  sequential : Program.Sequential d.handle ((s.order.take s.completed.length).map d.body) store outcomes store₁
  completed : s.completed = outcomes.mapIdx fun n o => { number := n, result := o.1, reads := o.2 }

namespace SyncAux

/-- The thread has locked the lock once for each call it is in. -/
structure HoldsLock (s : SyncSystem θ γ α κ ν ρ) (t : θ) (a : SyncActivation γ α κ ν ρ) : Prop where
  innermost : a.locked = true
  callers : ∀ k ∈ a.callers, k.locked = true
  depth : s.lock.depth t = a.callers.length + 1

/-- The invariant: the calls are serialized, and the lock is free or held by the thread that is in a call. -/
def Inv (d : SyncReceiver γ α κ ν ρ) (store : κ → ν) (s : SyncSystem θ γ α κ ν ρ) : Prop :=
  ∃ outcomes store₁, s.Serialized d store outcomes store₁ ∧
    ((s.AtRest store₁ ∧ ∀ t, s.lock.depth t = 0) ∨ ∃ t q a, s.InCall d store₁ t q a ∧ HoldsLock s t a)

theorem inv_init (d : SyncReceiver γ α κ ν ρ) (store : κ → ν) : Inv d store (init store : SyncSystem θ γ α κ ν ρ) :=
  ⟨[], store, ⟨.nil, rfl⟩, Or.inl ⟨⟨fun _ => rfl, rfl, rfl⟩, fun _ => rfl⟩⟩

omit [DecidableEq κ] in
/-- A client's call takes the lock. -/
theorem acquire_eq (hclients : ∀ c, d.clientExecutor c ≠ d.executor) (s : SyncSystem θ γ α κ ν ρ) (t : θ) (sender : γ) :
    s.acquire d t sender = (s.lock.lock t).map fun m => (true, m) := by
  unfold acquire SyncReceiver.mutualExecutor
  rw [if_neg (by simp [hclients sender])]

omit [DecidableEq θ] in
/-- While a call runs, it is the only one that has started and not returned. -/
theorem length_order (h : s.InCall d store₁ t q a) : s.order.length = s.completed.length + 1 := by
  have hlen := congrArg List.length h.last
  rw [List.length_append, List.length_take, List.length_singleton] at hlen
  omega

omit [DecidableEq θ] in
/-- A state that differs in the store, the lock and what one thread runs has the same calls. -/
theorem serialized_congr (h : s.Serialized d store outcomes store₁) (horder : s'.order = s.order)
    (hcompleted : s'.completed = s.completed) : s'.Serialized d store outcomes store₁ := by
  obtain ⟨hseq, hcomp⟩ := h
  refine ⟨?_, hcompleted.trans hcomp⟩
  rwa [horder, hcompleted]

/-- The running call takes an instruction. -/
theorem inCall_next (h : s.InCall d store₁ t q a) (horder : s'.order = s.order) (hcompleted : s'.completed = s.completed)
    (hrunning : s'.running = Function.update s.running t (some a')) (hnumber : a'.number = a.number)
    (hnext : (s.config a).next d.handle = some (s'.config a')) : s'.InCall d store₁ t q a' where
  running := by rw [hrunning, Function.update_self]
  others := by
    intro u hu
    rw [hrunning, Function.update_of_ne hu]
    exact h.others u hu
  number := by rw [hnumber, hcompleted, h.number]
  last := by rw [horder, hcompleted]; exact h.last
  reaches := h.reaches.tail hnext

/-- A client's call starts when no thread is in a call, and gets the lock. -/
theorem inv_call (hclients : ∀ c, d.clientExecutor c ≠ d.executor) (h : Inv d store s) (hs : s.step d (.call t q) = some s') :
    Inv d store s' := by
  simp only [step] at hs
  split at hs
  · cases hs
  rename_i hnone
  rw [acquire_eq hclients, Option.map_map] at hs
  obtain ⟨m, hm, rfl⟩ := Option.map_eq_some_iff.mp hs
  obtain ⟨outcomes, store₁, hser, ⟨hrest, hfree⟩ | ⟨u, p, b, hcall, hlock⟩⟩ := h
  · have htake : (s.order ++ [q]).take s.completed.length = s.order.take s.completed.length :=
      List.take_append_of_le_length (Nat.le_of_eq hrest.returned.symm)
    refine ⟨outcomes, store₁, ⟨?_, hser.completed⟩, Or.inr ⟨t, q, { number := s.order.length, code := d.body q, locked := true },
      ⟨?_, ?_, hrest.returned, ?_, ?_⟩, ?_⟩⟩
    · change Program.Sequential d.handle (((s.order ++ [q]).take s.completed.length).map d.body) store outcomes store₁
      rw [htake]
      exact hser.sequential
    · exact Function.update_self ..
    · intro u hu
      exact (Function.update_of_ne hu ..).trans (hrest.running u)
    · change s.order ++ [q] = (s.order ++ [q]).take s.completed.length ++ [q]
      rw [htake, ← hrest.returned, List.take_length]
    · rw [← hrest.store]
      exact Relation.ReflTransGen.refl
    · refine ⟨rfl, fun k hk => absurd hk List.not_mem_nil, ?_⟩
      change m.depth t = 0 + 1
      rw [RecursiveMutex.depth_lock hm, Function.update_self, hfree t]
  · -- another thread is in a call, so this one has to wait
    exfalso
    have hut : u ≠ t := by
      rintro rfl
      rw [hcall.running] at hnone
      cases hnone
    have hwait : s.lock.lock t = none := RecursiveMutex.lock_eq_none_iff.mpr ⟨u, hut, by rw [hlock.depth]; omega⟩
    rw [hwait] at hm
    cases hm

/-- The thread that is in a call takes an instruction, returns from a nested call, or returns to the client. -/
theorem inv_advance (hclients : ∀ c, d.clientExecutor c ≠ d.executor) (hser : s.Serialized d store outcomes store₁)
    (hcall : s.InCall d store₁ t q a) (hlock : HoldsLock s t a) (hs : s.advance d t a = some s') : Inv d store s' := by
  unfold advance at hs
  split at hs
  · rename_i r hcode
    have hunlock : s.unlock a.locked = s.lock.unlock := by rw [unlock, if_pos hlock.innermost]
    have hdepth : s.lock.unlock.depth t = a.callers.length := by
      rw [RecursiveMutex.depth_unlock (by rw [hlock.depth]; omega), Function.update_self, hlock.depth, Nat.add_sub_cancel]
    simp only [hunlock] at hs
    split at hs
    · -- the client's call returns
      rename_i hcallers
      obtain rfl := Option.some.inj hs
      have heval : Program.Evaluates d.handle (d.body q) store₁ r a.reads s.store := by
        have hreach := hcall.reaches
        rw [config, hcode, hcallers] at hreach
        exact Program.Config.evaluates_of_reaches hreach
      have hlen := length_order hcall
      have hall : s.order.take (s.completed.length + 1) = s.order := by rw [← hlen, List.take_length]
      have hout : s.completed.length = outcomes.length := by rw [hser.completed, List.length_mapIdx]
      refine ⟨outcomes ++ [(r, a.reads)], s.store, ⟨?_, ?_⟩, Or.inl ⟨⟨?_, ?_, rfl⟩, ?_⟩⟩
      · change Program.Sequential d.handle ((s.order.take (s.completed ++ [_]).length).map d.body) store _ s.store
        rw [List.length_append, List.length_singleton, hall, hcall.last, List.map_append]
        exact hser.sequential.snoc heval
      · change s.completed ++ [_] = _
        rw [List.mapIdx_append, hcall.number, ← hser.completed, hout]
        simp
      · intro u
        by_cases hu : u = t
        · exact hu ▸ Function.update_self ..
        · exact (Function.update_of_ne hu ..).trans (hcall.others u hu)
      · change s.order.length = (s.completed ++ [_]).length
        rw [List.length_append, List.length_singleton, hlen]
      · intro u
        by_cases hu : u = t
        · subst hu
          exact hdepth.trans (by rw [hcallers, List.length_nil])
        · change s.lock.unlock.depth u = 0
          rw [RecursiveMutex.depth_unlock (by rw [hlock.depth]; omega), Function.update_of_ne hu]
          by_contra hpos
          exact hu (RecursiveMutex.depth_exclusive (Nat.pos_of_ne_zero hpos) (by rw [hlock.depth]; omega))
    · -- a nested call returns to the code that made it
      rename_i k callers hcallers
      obtain rfl := Option.some.inj hs
      refine ⟨outcomes, store₁, serialized_congr hser rfl rfl, Or.inr ⟨t, q, _, inCall_next hcall rfl rfl rfl rfl ?_, ?_⟩⟩
      · simp [config, Program.Config.next, hcode, hcallers, setRunning]
      · refine ⟨hlock.callers k (by simp [hcallers]), fun k' hk' => hlock.callers k' (by simp [hcallers, hk']), ?_⟩
        change s.lock.unlock.depth t = _
        rw [hdepth, hcallers, List.length_cons]
  · rename_i k next hcode
    obtain rfl := Option.some.inj hs
    refine ⟨outcomes, store₁, serialized_congr hser rfl rfl, Or.inr ⟨t, q, _, inCall_next hcall rfl rfl rfl rfl ?_, ?_⟩⟩
    · simp [config, Program.Config.next, hcode, setRunning]
    · exact ⟨hlock.innermost, hlock.callers, hlock.depth⟩
  · rename_i k v next hcode
    obtain rfl := Option.some.inj hs
    refine ⟨outcomes, store₁, serialized_congr hser rfl rfl, Or.inr ⟨t, q, _, inCall_next hcall rfl rfl rfl rfl ?_, ?_⟩⟩
    · simp [config, Program.Config.next, hcode, setRunning]
    · exact ⟨hlock.innermost, hlock.callers, hlock.depth⟩
  · -- a nested call takes the lock once more
    rename_i call after next hcode
    rw [acquire_eq hclients, Option.map_map] at hs
    obtain ⟨m, hm, rfl⟩ := Option.map_eq_some_iff.mp hs
    refine ⟨outcomes, store₁, serialized_congr hser rfl rfl, Or.inr ⟨t, q, _, inCall_next hcall rfl rfl rfl rfl ?_, ?_⟩⟩
    · simp [config, Program.Config.next, hcode, setRunning]
    · refine ⟨rfl, ?_, ?_⟩
      · intro k hk
        rcases List.mem_cons.mp hk with rfl | hk
        · exact hlock.innermost
        · exact hlock.callers k hk
      · change m.depth t = _
        rw [RecursiveMutex.depth_lock hm, Function.update_self, hlock.depth]
        rfl

/-- Every step of every thread keeps the invariant. -/
theorem inv_step (hclients : ∀ c, d.clientExecutor c ≠ d.executor) {act : SyncAction θ γ α κ ν ρ} (h : Inv d store s)
    (hs : s.step d act = some s') : Inv d store s' := by
  cases act with
  | call t q => exact inv_call hclients h hs
  | advance t =>
    obtain ⟨a, ha, hadv⟩ := Option.bind_eq_some_iff.mp hs
    obtain ⟨outcomes, store₁, hser, ⟨hrest, -⟩ | ⟨u, q, b, hcall, hlock⟩⟩ := h
    · rw [hrest.running t] at ha
      cases ha
    · have htu : t = u := by
        by_contra hne
        rw [hcall.others t hne] at ha
        cases ha
      subst htu
      obtain rfl := Option.some.inj (hcall.running.symm.trans ha)
      exact inv_advance hclients hser hcall hlock hadv

end SyncAux

open SyncAux

/-- For any number of threads whose components are not on the receiver's executor, and handlers and result handlers that are any
programs over the receiver's state: after every run, the calls that have returned are serialized in the order in which they got
the lock, and the receiver's state is the one they leave, or what the one call inside has made of it. -/
theorem lockedCalls_serializable (d : SyncReceiver γ α κ ν ρ) (hclients : ∀ c, d.clientExecutor c ≠ d.executor) (store : κ → ν)
    (acts : List (SyncAction θ γ α κ ν ρ)) (s : SyncSystem θ γ α κ ν ρ)
    (h : Transition.run (step d) (init store) acts = some s) :
    ∃ outcomes store₁, s.Serialized d store outcomes store₁ ∧
      (∀ outcomes' store₁', s.Serialized d store outcomes' store₁' → outcomes' = outcomes ∧ store₁' = store₁) ∧
      (s.AtRest store₁ ∨ ∃ t q a, s.InCall d store₁ t q a) := by
  obtain ⟨outcomes, store₁, hser, hphase⟩ := Transition.run_invariant (fun _ _ _ hs hstep => inv_step hclients hs hstep)
    (inv_init d store) h
  refine ⟨outcomes, store₁, hser, fun _ _ h' => h'.sequential.unique hser.sequential, ?_⟩
  rcases hphase with ⟨hrest, -⟩ | ⟨t, q, a, hcall, -⟩
  · exact Or.inl hrest
  · exact Or.inr ⟨t, q, a, hcall⟩

/-- A receiver on executor 0 with two counters. Its first handler adds to both, and its second one calls the first through another
locked call. Client `c` is on executor `c + 1`. -/
def counters : SyncReceiver Nat Nat Nat Nat Nat where
  executor := 0
  clientExecutor c := c + 1
  handlers
    | 0, n => .read 0 fun v => .write 0 (v + n) (.read 1 fun w => .write 1 (w + n) (.ret (v + n)))
    | _, n => .call ⟨1, 0, n⟩ .ret fun r => .write 2 r (.ret r)

/-- Thread 1 makes a call with a nested one; then thread 2 is in a `call_locking` whose result handler reads the second counter. -/
def twoClients : List (SyncAction Nat Nat Nat Nat Nat Nat) :=
  .call 1 (syncQuery ⟨0, 1, 5⟩) :: List.replicate 8 (.advance 1) ++
    .call 2 (callLocking ⟨1, 0, 3⟩ fun _ => .read 1 .ret) :: List.replicate 3 (.advance 2)

/-- `lockedCalls_serializable` on that run: one call has returned, and the other one is halfway through. -/
theorem lockedCalls_serializable_twoClients :
    ∃ s, Transition.run (step counters) (init fun _ => 0) twoClients = some s ∧
      s.completed.map SyncReturn.result = [5] ∧ (s.store 0, s.store 1, s.store 2) = (8, 5, 5) ∧
      ∃ outcomes store₁, s.Serialized counters (fun _ => 0) outcomes store₁ ∧
        (∀ outcomes' store₁', s.Serialized counters (fun _ => 0) outcomes' store₁' → outcomes' = outcomes ∧ store₁' = store₁) ∧
        (s.AtRest store₁ ∨ ∃ t q a, s.InCall counters store₁ t q a) := by
  obtain ⟨s, hs, hresult, hstore⟩ : ∃ s, Transition.run (step counters) (init fun _ => 0) twoClients = some s ∧
      s.completed.map SyncReturn.result = [5] ∧ (s.store 0, s.store 1, s.store 2) = (8, 5, 5) := ⟨_, rfl, rfl, rfl⟩
  have hclients : ∀ c, counters.clientExecutor c ≠ counters.executor := Nat.succ_ne_zero
  exact ⟨s, hs, hresult, hstore, lockedCalls_serializable counters hclients _ _ s hs⟩

end SyncSystem

end Minicomps
