import Minicomps.CallFlags
import Minicomps.Lib.Transition

/-!
# When the flags of a component are honoured

The decision how to call is made by comparing executors. One of the two flags has a say in it on one path, at the moment a proxy is
copied; the other one nowhere, and neither in a lookup. So a run honours the flags exactly if none of its calls is one that a flag would have
had to change.
-/

namespace Minicomps

open Transition

namespace FlagSystem

/-- What the proxies have kept is what their copy constructors computed. -/
structure Inv (d : Deployment) (s : FlagSystem) : Prop where
  async : ∀ q ∈ s.asyncProxies, q.callDirectly = (q.allowed && d.mutualExecutor q.sendingComponent q.handler)
  sync : ∀ q ∈ s.syncProxies, q.mutualExecutor = d.mutualExecutor q.sendingComponent q.handler

end FlagSystem

namespace CallFlagsAux

open FlagSystem

variable {d : Deployment} {s s' : FlagSystem} {t : ThreadId} {sender : ComponentId} {r : HandlerRefId} {found : Found} {h : Handler}
  {allows : ComponentId → Bool}

/-! ## What a lookup does -/

/-- Nothing but references and locks has a part in the step, and no lock is held longer than before. -/
structure OnlyLooksUp (s s' : FlagSystem) : Prop where
  threads : s'.threads = s.threads
  asyncProxies : s'.asyncProxies = s.asyncProxies
  syncProxies : s'.syncProxies = s.syncProxies

theorem lookupTable_eq_some {c : ComponentId} (hs : s.lookupTable t c = some s') : s' = s.recordLocking c := by
  unfold lookupTable at hs
  split at hs
  · exact (Option.some.inj hs).symm
  · cases hs

/-- The locks that have been taken by the end: those of before, and `n` times that of one component. -/
def addLockings (lockings : ComponentId → Nat) (c : ComponentId) (n : Nat) : ComponentId → Nat :=
  Function.update lockings c (lockings c + n)

/-- The tables of a receiver are read under its lock. -/
theorem readTables_eq_some (hs : s.readTables t found = some s') : OnlyLooksUp s s' ∧
    s'.lockings = match found with
      | .nobody | .gone => s.lockings
      | .unpublished c => addLockings s.lockings c 1
      | .handler h => addLockings s.lockings h.component 2 := by
  cases found with
  | nobody | gone =>
    obtain rfl := Option.some.inj hs
    exact ⟨⟨rfl, rfl, rfl⟩, rfl⟩
  | unpublished c =>
    obtain rfl := lookupTable_eq_some hs
    exact ⟨⟨rfl, rfl, rfl⟩, rfl⟩
  | handler h =>
    obtain ⟨s₁, h₁, h₂⟩ := Option.bind_eq_some_iff.mp hs
    obtain rfl := lookupTable_eq_some h₁
    obtain rfl := lookupTable_eq_some h₂
    refine ⟨⟨rfl, rfl, rfl⟩, ?_⟩
    simp [recordLocking, addLockings]

theorem lookup_onlyLooksUp (hs : s.lookup t sender r found = some s') : OnlyLooksUp s s' := by
  simp only [FlagSystem.lookup] at hs
  split at hs
  · obtain rfl := Option.some.inj hs
    exact ⟨rfl, rfl, rfl⟩
  · obtain ⟨s₁, h₁, rfl⟩ := Option.map_eq_some_iff.mp hs
    have hread := (readTables_eq_some h₁).1
    exact ⟨hread.threads, hread.asyncProxies, hread.syncProxies⟩

/-- No lock of a component that does not allow it is taken more often. -/
def Spares (allows : ComponentId → Bool) (s s' : FlagSystem) : Prop := ∀ c, allows c = false → s'.lockings c = s.lockings c

theorem Spares.trans {s'' : FlagSystem} (h : Spares allows s s') (h' : Spares allows s' s'') : Spares allows s s'' :=
  fun c hc => (h' c hc).trans (h c hc)

theorem le_addLockings (lockings : ComponentId → Nat) (c : ComponentId) (n : Nat) (d : ComponentId) :
    lockings d ≤ addLockings lockings c n d := by
  by_cases hd : d = c
  · subst hd
    simp [addLockings]
  · simp [addLockings, hd]

theorem spares_addLockings_iff {c : ComponentId} {n : Nat} (hs : s'.lockings = addLockings s.lockings c (n + 1)) :
    Spares allows s s' ↔ allows c = true := by
  constructor
  · intro hspares
    by_contra hc
    have hsame := hspares c (Bool.eq_false_iff.mpr hc)
    rw [hs, addLockings, Function.update_self] at hsame
    omega
  · intro hallows c' hc'
    have hne : c' ≠ c := fun heq => by rw [heq, hallows] at hc'; cases hc'
    rw [hs, addLockings, Function.update_of_ne hne]

theorem spares_of_eq (hs : s'.lockings = s.lockings) : Spares allows s s' := fun c _ => congrFun hs c

theorem readTables_spares_iff (hs : s.readTables t found = some s') : Spares allows s s' ↔ ∀ c ∈ found.receiver, allows c = true := by
  have hlockings := (readTables_eq_some hs).2
  cases found with
  | nobody | gone => exact iff_of_true (spares_of_eq hlockings) (by rintro c ⟨⟩)
  | unpublished c => simpa [Found.receiver] using spares_addLockings_iff (n := 0) hlockings
  | handler h => simpa [Found.receiver] using spares_addLockings_iff (n := 1) hlockings

/-- A lookup takes the receiver's lock exactly if it goes to the broker and finds one. -/
theorem lookup_spares_iff (hs : s.lookup t sender r found = some s') :
    Spares allows s s' ↔ ((s.refs sender r).cached = false → ∀ c ∈ found.receiver, allows c = true) := by
  simp only [FlagSystem.lookup] at hs
  split at hs
  · rename_i hcached
    obtain rfl := Option.some.inj hs
    exact iff_of_true (spares_of_eq rfl) fun hmiss => by rw [hcached] at hmiss; cases hmiss
  · rename_i hmiss
    obtain ⟨s₁, h₁, rfl⟩ := Option.map_eq_some_iff.mp hs
    rw [Bool.not_eq_true] at hmiss
    have hread : Spares allows s s₁ ↔ ∀ c ∈ found.receiver, allows c = true := readTables_spares_iff h₁
    exact hread.trans ⟨fun h _ => h, fun h => h hmiss⟩

/-! ## What a call does -/

/-- A call that is made. -/
theorem call_eq_some {how : Delivery} (hs : s.call d t sender h how = some s') :
    ∃ threads, s.threads.deliver d t h how = some threads ∧
      s' = { (if how = .locked then s.recordLocking h.component else s) with threads } := by
  unfold call at hs
  split at hs
  · obtain ⟨threads, hthreads, rfl⟩ := Option.map_eq_some_iff.mp hs
    exact ⟨threads, hthreads, rfl⟩
  · cases hs

/-- A call that is either direct or enqueued runs something exactly if it is direct. -/
theorem stack_iff {direct : Bool} (hs : s.call d t sender h (if direct then .direct else .enqueued) = some s') :
    s'.threads.stack = s.threads.stack ↔ direct = false := by
  obtain ⟨threads, hthreads, rfl⟩ := call_eq_some hs
  cases direct with
  | true =>
    obtain rfl := Option.some.inj hthreads
    refine iff_of_false (fun heq => ?_) (fun htrue => by cases htrue)
    have htop := congrArg List.length (congrFun heq t)
    simp [ThreadSystem.push] at htop
  | false =>
    obtain rfl := Option.some.inj hthreads
    exact iff_of_true rfl rfl

/-- A call that is either direct or locking takes the handler's lock exactly if it is not direct. -/
theorem call_spares_iff {direct : Bool} (hs : s.call d t sender h (if direct then .direct else .locked) = some s') :
    Spares allows s s' ↔ (direct = false → allows h.component = true) := by
  obtain ⟨threads, hthreads, rfl⟩ := call_eq_some hs
  cases direct with
  | true => exact iff_of_true (spares_of_eq rfl) fun hfalse => by cases hfalse
  | false =>
    have hlock : Spares allows s { s.recordLocking h.component with threads } ↔ allows h.component = true :=
      spares_addLockings_iff (n := 0) rfl
    exact hlock.trans ⟨fun h _ => h, fun h => h rfl⟩

theorem callFound_eq_call {how : Delivery} (hs : s.callFound d t sender r h how = some s') : s.call d t sender h how = some s' := by
  unfold callFound at hs
  split at hs
  · cases hs
  · exact hs

/-- No call takes a lock less often than it was taken before. -/
theorem lockings_call {how : Delivery} (hs : s.call d t sender h how = some s') (c : ComponentId) : s.lockings c ≤ s'.lockings c := by
  obtain ⟨threads, -, rfl⟩ := call_eq_some hs
  split
  · exact le_addLockings s.lockings h.component 1 c
  · exact le_refl _

theorem lockings_lookup (hs : s.lookup t sender r found = some s') (c : ComponentId) : s.lockings c ≤ s'.lockings c := by
  simp only [FlagSystem.lookup] at hs
  split at hs
  · obtain rfl := Option.some.inj hs
    exact le_refl _
  · obtain ⟨s₁, h₁, rfl⟩ := Option.map_eq_some_iff.mp hs
    have hlockings : (s₁.setRef sender r ((s.refs sender r).lookup found).2).lockings = _ := (readTables_eq_some h₁).2
    rw [hlockings]
    cases found with
    | nobody | gone => exact le_refl _
    | unpublished c' => exact le_addLockings s.lockings c' 1 c
    | handler h => exact le_addLockings s.lockings h.component 2 c

/-- Two steps one after the other spare the locks that both of them spare. -/
theorem spares_trans_iff {s'' : FlagSystem} (hle : ∀ c, s.lockings c ≤ s'.lockings c) (hle' : ∀ c, s'.lockings c ≤ s''.lockings c) :
    Spares allows s s'' ↔ Spares allows s' s'' ∧ Spares allows s s' := by
  constructor
  · intro h
    refine ⟨fun c hc => ?_, fun c hc => ?_⟩
    · exact Nat.le_antisymm (h c hc ▸ hle c) (hle' c)
    · exact Nat.le_antisymm (h c hc ▸ hle' c) (hle c)
  · exact fun ⟨h', h⟩ => h.trans h'

/-! ## Queries through references -/

/-- An async query that is made: the lookup, and the call of what it has found. -/
theorem asyncQuery_eq_some (hs : s.asyncQuery d t sender r found = some s') : ∃ s₁ h, s.lookup t sender r found = some s₁ ∧
    ((s.refs sender r).lookup found).1 = some h ∧
    s₁.call d t sender h (if d.mutualExecutor sender h then .direct else .enqueued) = some s' := by
  obtain ⟨s₁, hlookup, hs⟩ := Option.bind_eq_some_iff.mp hs
  split at hs
  · cases hs
  · rename_i h hfound
    exact ⟨s₁, h, hlookup, hfound, callFound_eq_call hs⟩

/-- A sync query that is made: the lookup, and the call of what it has found, or of the fallback handler. -/
theorem syncQuery_eq_some (hs : s.syncQuery d t sender r found = some s') : ∃ s₁, s.lookup t sender r found = some s₁ ∧
    (((s.refs sender r).lookup found).1 = none ∧ s' = s₁ ∨
      ∃ h, ((s.refs sender r).lookup found).1 = some h ∧
        s₁.call d t sender h (if d.mutualExecutor sender h then .direct else .locked) = some s') := by
  obtain ⟨s₁, hlookup, hs⟩ := Option.bind_eq_some_iff.mp hs
  refine ⟨s₁, hlookup, ?_⟩
  split at hs
  · rename_i hnone
    split at hs
    · exact Or.inl ⟨hnone, (Option.some.inj hs).symm⟩
    · cases hs
  · rename_i h hfound
    exact Or.inr ⟨h, hfound, callFound_eq_call hs⟩

/-! ## The proxies -/

/-- A step of the threads leaves the proxies as they are. -/
theorem inv_threads (hi : Inv d s) (threads : ThreadSystem) : Inv d { s with threads } := ⟨hi.async, hi.sync⟩

theorem inv_thread (hi : Inv d s) {a : ThreadAction} (hs : s.thread d a = some s') : Inv d s' := by
  obtain ⟨threads, -, rfl⟩ := Option.map_eq_some_iff.mp hs
  exact inv_threads hi threads

theorem inv_of_onlyLooksUp (hi : Inv d s) (hs : OnlyLooksUp s s') : Inv d s' where
  async := hs.asyncProxies ▸ hi.async
  sync := hs.syncProxies ▸ hi.sync

theorem inv_call (hi : Inv d s) {how : Delivery} (hs : s.call d t sender h how = some s') : Inv d s' := by
  obtain ⟨threads, -, rfl⟩ := call_eq_some hs
  split <;> exact ⟨hi.async, hi.sync⟩

theorem callDirectly_copyAsyncQuery (d : Deployment) (s : FlagSystem) (sender : ComponentId) (h : Handler) :
    (s.copyAsyncQuery d sender h).callDirectly =
      ((s.copyAsyncQuery d sender h).allowed && d.mutualExecutor sender h) := by
  simp only [copyAsyncQuery]
  cases (s.flags h.component).allowDirectCallAsync <;> rfl

theorem inv_lookupInterface (hi : Inv d s) {c : ComponentId} {async sync : List Handler}
    (hs : s.lookupInterface d t sender c async sync = some s') : Inv d s' := by
  obtain ⟨s₁, h₁, rfl⟩ := Option.map_eq_some_iff.mp hs
  obtain rfl := lookupTable_eq_some h₁
  refine ⟨?_, ?_⟩
  · intro q hq
    rcases List.mem_append.mp hq with hq | hq
    · exact hi.async q hq
    · obtain ⟨h, -, rfl⟩ := List.mem_map.mp hq
      exact callDirectly_copyAsyncQuery d _ sender h
  · intro q hq
    rcases List.mem_append.mp hq with hq | hq
    · exact hi.sync q hq
    · obtain ⟨h, -, rfl⟩ := List.mem_map.mp hq
      rfl

theorem inv_step (hi : Inv d s) {a : FlagAction} (hs : s.step d a = some s') : Inv d s' := by
  cases a with
  | setAllowDirectCallAsync | setAllowLockingCallsSync | setFallbackHandler | expire =>
    obtain rfl := Option.some.inj hs
    exact ⟨hi.async, hi.sync⟩
  | lookup t owner r found => exact inv_of_onlyLooksUp hi (lookup_onlyLooksUp hs)
  | lookupInterface t sender c async sync => exact inv_lookupInterface hi hs
  | asyncQuery t sender r found =>
    obtain ⟨s₁, h, hlookup, -, hcall⟩ := asyncQuery_eq_some hs
    exact inv_call (inv_of_onlyLooksUp hi (lookup_onlyLooksUp hlookup)) hcall
  | syncQuery t sender r found =>
    obtain ⟨s₁, hlookup, hcall⟩ := syncQuery_eq_some hs
    have hi₁ := inv_of_onlyLooksUp hi (lookup_onlyLooksUp hlookup)
    rcases hcall with ⟨-, rfl⟩ | ⟨h, -, hcall⟩
    · exact hi₁
    · exact inv_call hi₁ hcall
  | callAsyncProxy t i | callSyncProxy t i =>
    obtain ⟨q, -, hs⟩ := Option.bind_eq_some_iff.mp hs
    exact inv_call hi hs
  | event | execute | runNext | finishBatch | ret => exact inv_thread hi hs

theorem inv_init (d : Deployment) : Inv d init :=
  ⟨fun _ hq => absurd hq List.not_mem_nil, fun _ hq => absurd hq List.not_mem_nil⟩

/-! ## The flags -/

/-- An async query that is made honours the flag exactly if it is not direct or the flag is set. -/
theorem async_honoured_iff (flag : Bool) {direct : Bool} (hs : s.call d t sender h (if direct then .direct else .enqueued) = some s') :
    (flag = false → s'.threads.stack = s.threads.stack) ↔ (direct = true → flag = true) := by
  rw [stack_iff hs]
  cases flag <;> cases direct <;> simp

theorem syncQuery_honoured_iff (hs : s.syncQuery d t sender r found = some s') : Spares allows s s' ↔
    (∀ h ∈ ((s.refs sender r).lookup found).1, d.mutualExecutor sender h = false → allows h.component = true) ∧
      ((s.refs sender r).cached = false → ∀ c ∈ found.receiver, allows c = true) := by
  obtain ⟨s₁, hlookup, ⟨hnone, rfl⟩ | ⟨h, hfound, hcall⟩⟩ := syncQuery_eq_some hs
  · rw [← lookup_spares_iff hlookup, hnone]
    exact ⟨fun h => ⟨by rintro h ⟨⟩, h⟩, And.right⟩
  · rw [← lookup_spares_iff hlookup, spares_trans_iff (lockings_lookup hlookup) (lockings_call hcall), call_spares_iff hcall, hfound]
    simp

theorem flagsHonoured_iff (hi : Inv d s) (a : FlagAction) : s.FlagsHonoured d a ↔ s.CallsPermitted d a := by
  unfold FlagsHonoured CallsPermitted
  cases hs : s.step d a with
  | none => simp
  | some s' =>
    simp only [Option.some.injEq, forall_eq', Option.isSome_some, forall_const]
    cases a with
    | asyncQuery t sender r found =>
      obtain ⟨s₁, h, hlookup, hfound, hcall⟩ := asyncQuery_eq_some hs
      have hhonoured := async_honoured_iff (s.flags h.component).allowDirectCallAsync hcall
      rw [(lookup_onlyLooksUp hlookup).threads] at hhonoured
      simpa [asyncCallTo, isSyncCall, hfound] using hhonoured
    | callAsyncProxy t i =>
      obtain ⟨q, hq, hs⟩ := Option.bind_eq_some_iff.mp hs
      have hcall := async_honoured_iff (s.flags q.handler.component).allowDirectCallAsync hs
      rw [hi.async q (List.mem_of_getElem? hq), Bool.and_eq_true, and_comm, and_imp] at hcall
      simpa [asyncCallTo, isSyncCall, hq] using hcall
    | syncQuery t sender r found =>
      have hhonoured : Spares (fun c => (s.flags c).allowLockingCallsSync) s s' ↔ _ := syncQuery_honoured_iff hs
      simpa [asyncCallTo, isSyncCall, Spares] using hhonoured
    | callSyncProxy t i =>
      obtain ⟨q, hq, hs⟩ := Option.bind_eq_some_iff.mp hs
      have hcall : Spares (fun c => (s.flags c).allowLockingCallsSync) s s' ↔ _ := call_spares_iff hs
      rw [hi.sync q (List.mem_of_getElem? hq)] at hcall
      simpa [asyncCallTo, isSyncCall, hq, Spares] using hcall
    | _ => simp [asyncCallTo, isSyncCall]

/-! ## The threads -/

/-- A call is the sending of a message that is delivered in this way. -/
theorem send_of_call {m : Message} {how : Delivery} (hm : d.delivery sender m = some how) (hs : s.call d t sender m.handler how = some s') :
    s.threads.step d (.send t sender m) = some s'.threads := by
  unfold call at hs
  split at hs
  · rename_i hruns
    obtain ⟨threads, hthreads, rfl⟩ := Option.map_eq_some_iff.mp hs
    simp only [ThreadSystem.step, if_pos hruns, hm, Option.bind_some, hthreads]
  · cases hs

/-- A step is one of the threads, or no thread does anything in it. -/
theorem threads_step (hi : Inv d s) {a : FlagAction} (hs : s.step d a = some s') :
    s'.threads = s.threads ∨ ∃ a', s.threads.step d a' = some s'.threads := by
  have hthread : ∀ {a'}, s.thread d a' = some s' → s.threads.step d a' = some s'.threads := fun hs => by
    obtain ⟨threads, hthreads, rfl⟩ := Option.map_eq_some_iff.mp hs
    exact hthreads
  cases a with
  | setAllowDirectCallAsync | setAllowLockingCallsSync | setFallbackHandler | expire => exact Or.inl (Option.some.inj hs ▸ rfl)
  | lookup t owner r found => exact Or.inl (lookup_onlyLooksUp hs).threads
  | lookupInterface t sender c async sync =>
    obtain ⟨s₁, h₁, rfl⟩ := Option.map_eq_some_iff.mp hs
    exact Or.inl (lookupTable_eq_some h₁ ▸ rfl)
  | asyncQuery t sender r found =>
    obtain ⟨s₁, h, hlookup, -, hcall⟩ := asyncQuery_eq_some hs
    have hsent := send_of_call (m := .asyncQuery h true) (by simp [Deployment.delivery]) hcall
    exact Or.inr ⟨_, (lookup_onlyLooksUp hlookup).threads ▸ hsent⟩
  | syncQuery t sender r found =>
    obtain ⟨s₁, hlookup, hcall⟩ := syncQuery_eq_some hs
    have hsame := (lookup_onlyLooksUp hlookup).threads
    rcases hcall with ⟨-, rfl⟩ | ⟨h, -, hcall⟩
    · exact Or.inl hsame
    · have hsent := send_of_call (m := .syncQuery h) (by simp [Deployment.delivery]) hcall
      exact Or.inr ⟨_, hsame ▸ hsent⟩
  | callAsyncProxy t i =>
    obtain ⟨q, hq, hs⟩ := Option.bind_eq_some_iff.mp hs
    have hq := hi.async q (List.mem_of_getElem? hq)
    exact Or.inr ⟨_, send_of_call (m := .asyncQuery q.handler q.allowed) (by rw [Deployment.delivery, ← hq]) hs⟩
  | callSyncProxy t i =>
    obtain ⟨q, hq, hs⟩ := Option.bind_eq_some_iff.mp hs
    have hq := hi.sync q (List.mem_of_getElem? hq)
    exact Or.inr ⟨_, send_of_call (m := .syncQuery q.handler) (by rw [Deployment.delivery, ← hq]) hs⟩
  | event | execute | runNext | finishBatch | ret => exact Or.inr ⟨_, hthread hs⟩

end CallFlagsAux

namespace FlagSystem

open CallFlagsAux

/-- The references, proxies and flags change nothing about what the threads can do: what they do in a run, the threads alone can do. -/
theorem exists_threads_run {d : Deployment} {acts : List FlagAction} {s : FlagSystem} (h : run (step d) init acts = some s) :
    ∃ acts', run (ThreadSystem.step d) .init acts' = some s.threads :=
  exists_run_of_steps (f := threads) (fun _ _ _ hi hs => inv_step hi hs) (fun _ _ _ hi hs => threads_step hi hs) (inv_init d) h

/-- Every call of a run honours the flags of the component it is made to if and only if every async query that is made from the
handler's own executor finds direct calls allowed, or is made through a proxy that was copied when they were not, and every sync query
that is made from another executor, or through a reference that has to look its handler up, finds locking calls allowed. -/
theorem flags_honoured_iff (d : Deployment) (acts : List FlagAction) :
    AllSteps (step d) (FlagsHonoured d) init acts ↔ AllSteps (step d) (CallsPermitted d) init acts :=
  allSteps_congr (fun _ _ _ hi hs => inv_step hi hs) (fun _ a hi => flagsHonoured_iff hi a) (inv_init d)

/-- A component that allows neither direct nor locking calls gets an async query from its own executor, which runs its handler inside
the call. -/
theorem direct_call_not_allowed :
    ¬∀ (d : Deployment) (acts : List FlagAction), AllSteps (step d) (FlagsHonoured d) init acts := by
  intro h
  have hlast := allSteps_iff.mp
    (h ⟨fun _ => 1, fun x => x⟩ [.setAllowDirectCallAsync 2 false, .asyncQuery 1 1 0 (.handler { component := 2 })])
    [.setAllowDirectCallAsync 2 false] (.asyncQuery 1 1 0 (.handler { component := 2 })) [] _ rfl rfl
  have hstack := (hlast _ rfl).1 2 rfl rfl
  exact absurd (congrFun hstack 1) (by decide)

/-- A component that allows no locking calls has its lock taken by the first sync query from its own executor, which looks its handler up. -/
theorem locking_call_not_allowed :
    ¬∀ (d : Deployment) (acts : List FlagAction), AllSteps (step d) (FlagsHonoured d) init acts := by
  intro h
  have hlast := allSteps_iff.mp
    (h ⟨fun _ => 1, fun x => x⟩ [.setAllowLockingCallsSync 2 false, .syncQuery 1 1 0 (.handler { component := 2 })])
    [.setAllowLockingCallsSync 2 false] (.syncQuery 1 1 0 (.handler { component := 2 })) [] _ rfl rfl
  have hlock := (hlast _ rfl).2 rfl 2 rfl
  exact absurd hlock (by decide)

end FlagSystem

end Minicomps
