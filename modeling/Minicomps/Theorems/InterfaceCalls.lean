import Minicomps.InterfaceCalls
import Minicomps.Theorems.AsyncQuery

/-!
# When a reset cancels exactly the calls already issued

No callback is started after its lifetime was reset. But a call that is made through a proxy carries a weak pointer that may be
older than the call: once the lifetime the reference was made for has been reset, all later calls through it are canceled from the
start, also through proxies that are made later.
-/

namespace Minicomps

open Transition History

variable {α β : Type*}

/-- What is asked of a history: a response that is delivered starts its callback exactly if the lifetime of the call has not been
reset since the call was issued. -/
def CancelsExactly (h : List (HistoryEntry α β)) : Prop :=
  ∀ pre c mid r callbackStarted post, h = pre ++ .issued c :: mid ++ .delivered r callbackStarted :: post →
    r.callback = c.callback → (callbackStarted = true ↔ .reset c.lifetime.lifetime ∉ mid)

/-- A call is issued with a weak pointer that has not expired. -/
def IssuedFresh (pre : List (HistoryEntry α β)) (e : HistoryEntry α β) : Prop :=
  ∀ c, e = .issued c → c.lifetime.epoch = resets pre c.lifetime.lifetime

/-- The action is a call. -/
def AsyncAction.isCall : AsyncAction α β → Bool
  | .call .. => true
  | _ => false

namespace ClientSystem

/-- No call is made through a proxy whose weak pointer has expired. -/
def FreshProxy (s : ClientSystem α β) : ClientAction α β → Prop
  | .callProxy i _ none => ∀ r q, s.interfaceRefs[i]? = some r → r.localInterfaceProxy = some q →
      s.system.lifetimes.expired q.sendingLifetime = false
  | _ => True

/-- What holds in every run: the accounts of the system, and no reference has a weak pointer from the future. -/
structure Sound (s : ClientSystem α β) : Prop where
  accounted : s.system.Accounted
  refs : ∀ r ∈ s.interfaceRefs, r.lifetime.epoch ≤ s.system.lifetimes r.lifetime.lifetime
  proxies : ∀ r ∈ s.interfaceRefs, ∀ q, r.localInterfaceProxy = some q → q.sendingLifetime = r.lifetime

end ClientSystem

namespace InterfaceCallsAux

open ClientSystem AsyncAux

variable {s s' : ClientSystem α β} {t t' : AsyncSystem α β}

/-! ## What a step does -/

/-- The entry is about a call that is issued. -/
def isIssued : HistoryEntry α β → Bool
  | .issued _ => true
  | _ => false

/-- A stretch in which no call is issued, and lifetimes are at most reset. -/
structure Quiet (t t' : AsyncSystem α β) : Prop where
  history : ∃ added, t'.history = t.history ++ added ∧ ∀ e ∈ added, isIssued e = false
  lifetimes_le : ∀ l, t.lifetimes l ≤ t'.lifetimes l

/-- Entries that are not about calls are added, and the lifetimes stay. -/
theorem quiet_of_history (added : List (HistoryEntry α β)) (hh : t'.history = t.history ++ added)
    (hadded : added.all (fun e => !isIssued e) = true) (hl : t'.lifetimes = t.lifetimes) : Quiet t t' := by
  refine ⟨⟨added, hh, ?_⟩, fun l => by rw [hl]⟩
  intro e he
  exact Bool.not_eq_true' _ ▸ List.all_eq_true.mp hadded e he

/-- A step that is not a call. -/
theorem quiet_step {a : AsyncAction α β} (ha : a.isCall = false) (h : t.step a = some t') : Quiet t t' := by
  cases a with
  | call sender found msgInfo arguments lifetime => cases ha
  | startBatch x =>
    simp only [AsyncSystem.step] at h
    split at h
    · obtain rfl := Option.some.inj h
      exact quiet_of_history [] (List.append_nil _).symm rfl rfl
    · cases h
  | runNext x =>
    simp only [AsyncSystem.step] at h
    split at h
    · rename_i task e hnext
      obtain rfl := Option.some.inj h
      cases task with
      | request handler msgInfo request => exact quiet_of_history [_] rfl rfl rfl
      | response response => exact quiet_of_history [_] rfl rfl rfl
    · cases h
  | finishBatch x =>
    simp only [AsyncSystem.step] at h
    split at h
    · cases h
    · obtain rfl := Option.some.inj h
      exact quiet_of_history [] (List.append_nil _).symm rfl rfl
  | resolve i value =>
    simp only [AsyncSystem.step] at h
    split at h
    · rename_i r hr
      obtain rfl := Option.some.inj h
      simp only [AsyncSystem.operatorCall, AnswerPorts.operatorCall]
      split
      · exact quiet_of_history [_] rfl rfl rfl
      · -- a direct response is delivered at once
        obtain ⟨response, hresponse⟩ : ∃ response : Response β, response =
          { executor := r.receivingExecutor, result := value, callback := r.callback, lifetime := r.lifetime } := ⟨_, rfl⟩
        have hboth : ∀ b, t.history ++ [.resolved response] ++ [.delivered response b] =
            t.history ++ [HistoryEntry.resolved response, .delivered response b] := by
          intro b
          rw [List.append_assoc]
          rfl
        rw [← hresponse]
        split <;> exact quiet_of_history _ (hboth _) rfl rfl
    · cases h
  | reset l =>
    obtain rfl := Option.some.inj h
    exact ⟨⟨[.reset l], rfl, by simp [isIssued]⟩, fun l' => Lifetimes.le_reset t.lifetimes l l'⟩
  | setListener c listener =>
    obtain rfl := Option.some.inj h
    exact quiet_of_history [] (List.append_nil _).symm rfl rfl

/-- A call leaves the lifetimes as they are. -/
theorem execute_lifetimes {sender : ComponentId} {found : Option Resolution} {msgInfo : MessageId} {arguments : α}
    {lifetime : LifetimeWeakPtr} (h : t.execute sender found msgInfo arguments lifetime = some t') :
    t'.lifetimes = t.lifetimes := by
  cases found with
  | none => cases h
  | some found =>
    simp only [AsyncSystem.execute, RequestPorts.execute] at h
    split at h <;> exact Option.some.inj h ▸ rfl

/-- The weak pointer of a call: made from the lifetime for the call, or stored in the proxy that the call goes through. -/
def Binds (s : ClientSystem α β) (a : ClientAction α β) (lifetime : LifetimeWeakPtr) : Prop :=
  lifetime.epoch = s.system.lifetimes lifetime.lifetime ∨
    ∃ i arguments r q, a = .callProxy i arguments none ∧ s.interfaceRefs[i]? = some r ∧ r.localInterfaceProxy = some q ∧
      lifetime = q.sendingLifetime

/-- A step is one of the system under the clients that is not a call, or a call, or makes a reference, or makes a proxy. -/
theorem step_cases {a : ClientAction α β} (hs : s.step a = some s') :
    (∃ b t, b.isCall = false ∧ s.system.step b = some t ∧ s' = { s with system := t }) ∨
      (∃ sender found msgInfo arguments lifetime t, s.system.execute sender found msgInfo arguments lifetime = some t ∧
        Binds s a lifetime ∧ s' = { s with system := t }) ∨
      (∃ r : ClientRef, r.lifetime.epoch = s.system.lifetimes r.lifetime.lifetime ∧ r.localInterfaceProxy = none ∧
        s' = { s with interfaceRefs := s.interfaceRefs ++ [r] }) ∨
      ∃ i r linked msgInfo, s.interfaceRefs[i]? = some r ∧
        s' = { s with interfaceRefs := s.interfaceRefs.set i { r with localInterfaceProxy := some (r.copyQuery linked msgInfo) } } := by
  have hsystem : ∀ b : AsyncAction α β, b.isCall = false → (s.system.step b).map ({ s with system := · }) = some s' →
      ∃ b t, b.isCall = false ∧ s.system.step b = some t ∧ s' = { s with system := t } := by
    intro b hb hmap
    obtain ⟨t, ht, rfl⟩ := Option.map_eq_some_iff.mp hmap
    exact ⟨b, t, hb, ht, rfl⟩
  cases a with
  | lookupInterface owner defaultLifetime =>
    obtain rfl := Option.some.inj hs
    exact .inr (.inr (.inl ⟨_, rfl, rfl, rfl⟩))
  | clone i life =>
    simp only [step] at hs
    split at hs
    · split at hs
      · obtain rfl := Option.some.inj hs
        exact .inr (.inr (.inl ⟨_, rfl, rfl, rfl⟩))
      · cases hs
    · cases hs
  | resolve i linked msgInfo =>
    simp only [step] at hs
    split at hs
    · rename_i r hr
      obtain rfl := Option.some.inj hs
      exact .inr (.inr (.inr ⟨i, r, linked, msgInfo, hr, rfl⟩))
    · cases hs
  | callQuery sender found msgInfo arguments life =>
    obtain ⟨t, ht, rfl⟩ := Option.map_eq_some_iff.mp hs
    exact .inr (.inl ⟨_, _, _, _, _, t, ht, .inl rfl, rfl⟩)
  | callProxy i arguments withLifetime =>
    simp only [step] at hs
    split at hs
    · rename_i r hr
      split at hs
      · rename_i q hq
        obtain ⟨t, ht, rfl⟩ := Option.map_eq_some_iff.mp hs
        refine .inr (.inl ⟨_, _, _, _, _, t, ht, ?_, rfl⟩)
        cases withLifetime with
        | none => exact .inr ⟨i, arguments, r, q, rfl, hr, hq, rfl⟩
        | some life => exact .inl rfl
      · cases hs
    · cases hs
  | startBatch x => exact .inl (hsystem (.startBatch x) rfl hs)
  | runNext x => exact .inl (hsystem (.runNext x) rfl hs)
  | finishBatch x => exact .inl (hsystem (.finishBatch x) rfl hs)
  | resolveResult i value => exact .inl (hsystem (.resolve i value) rfl hs)
  | reset l => exact .inl (hsystem (.reset l) rfl hs)

/-! ## The accounts -/

theorem sound_init (component : ComponentId → Component) : Sound (init component : ClientSystem α β) :=
  ⟨accounted_init component, nofun, nofun⟩

/-- A step of the system under the clients. -/
theorem sound_system (h : Sound s) (hacc : t.Accounted) (hle : ∀ l, s.system.lifetimes l ≤ t.lifetimes l) :
    Sound { s with system := t } :=
  ⟨hacc, fun r hr => Nat.le_trans (h.refs r hr) (hle _), h.proxies⟩

/-- No call is bound to a weak pointer from the future. -/
theorem Binds.epoch_le {a : ClientAction α β} {lifetime : LifetimeWeakPtr} (h : Sound s) (hb : Binds s a lifetime) :
    lifetime.epoch ≤ s.system.lifetimes lifetime.lifetime := by
  rcases hb with hnew | ⟨i, arguments, r, q, -, hr, hq, rfl⟩
  · exact Nat.le_of_eq hnew
  · have hmem := List.mem_of_getElem? hr
    rw [h.proxies r hmem q hq]
    exact h.refs r hmem

theorem sound_step {a : ClientAction α β} (h : Sound s) (hs : s.step a = some s') : Sound s' := by
  rcases step_cases hs with ⟨b, t, hb, ht, rfl⟩ | ⟨sender, found, msgInfo, arguments, lifetime, t, ht, hbinds, rfl⟩ |
    ⟨r, hr, hnone, rfl⟩ | ⟨i, r, linked, msgInfo, hr, rfl⟩
  · exact sound_system h (accounted_step h.accounted ht) (quiet_step hb ht).lifetimes_le
  · refine sound_system h (accounted_execute h.accounted (hbinds.epoch_le h) ht) ?_
    intro l
    rw [execute_lifetimes ht]
  · refine ⟨h.accounted, ?_, ?_⟩
    · intro r' hr'
      rcases List.mem_append.mp hr' with hold | hlast
      · exact h.refs r' hold
      · rw [List.mem_singleton.mp hlast]
        exact Nat.le_of_eq hr
    · intro r' hr' q hq
      rcases List.mem_append.mp hr' with hold | hlast
      · exact h.proxies r' hold q hq
      · rw [List.mem_singleton.mp hlast, hnone] at hq
        cases hq
  · refine ⟨h.accounted, ?_, ?_⟩
    · intro r' hr'
      rcases List.mem_or_eq_of_mem_set hr' with hold | rfl
      · exact h.refs r' hold
      · exact h.refs r (List.mem_of_getElem? hr)
    · intro r' hr' q hq
      rcases List.mem_or_eq_of_mem_set hr' with hold | rfl
      · exact h.proxies r' hold q hq
      · obtain rfl := Option.some.inj hq
        rfl

/-! ## Calls with unexpired weak pointers -/

/-- A quiet stretch issues nothing. -/
theorem issuedFresh_quiet (hh : AllJustified IssuedFresh t.history) (hq : Quiet t t') : AllJustified IssuedFresh t'.history := by
  obtain ⟨added, heq, hadded⟩ := hq.history
  rw [heq]
  refine hh.append ?_
  intro e he pre c hc
  have hissued := hadded e he
  rw [hc] at hissued
  cases hissued

/-- A call with an unexpired weak pointer. -/
theorem issuedFresh_execute (hacc : t.Accounted) {sender : ComponentId} {found : Option Resolution} {msgInfo : MessageId}
    {arguments : α} {lifetime : LifetimeWeakPtr} (hfresh : lifetime.epoch = t.lifetimes lifetime.lifetime)
    (hh : AllJustified IssuedFresh t.history) (h : t.execute sender found msgInfo arguments lifetime = some t') :
    AllJustified IssuedFresh t'.history := by
  cases found with
  | none => cases h
  | some found =>
    have hissued : ∀ c : Call α, c.lifetime = lifetime → AllJustified IssuedFresh (t.history ++ [.issued c]) := by
      rintro c rfl
      refine hh.snoc ?_
      intro c' hc'
      obtain rfl := HistoryEntry.issued.inj hc'
      rw [hfresh, hacc.lifetimes]
    simp only [AsyncSystem.execute, RequestPorts.execute] at h
    split at h
    · obtain rfl := Option.some.inj h
      refine (hissued _ rfl).snoc ?_
      intro c hc
      cases hc
    · obtain rfl := Option.some.inj h
      exact hissued _ rfl

theorem issuedFresh_client {a : ClientAction α β} (h : Sound s) (hh : AllJustified IssuedFresh s.system.history)
    (hfresh : FreshProxy s a) (hs : s.step a = some s') : AllJustified IssuedFresh s'.system.history := by
  rcases step_cases hs with ⟨b, t, hb, ht, rfl⟩ | ⟨sender, found, msgInfo, arguments, lifetime, t, ht, hbinds, rfl⟩ |
    ⟨r, -, -, rfl⟩ | ⟨i, r, linked, msgInfo, -, rfl⟩
  · exact issuedFresh_quiet hh (quiet_step hb ht)
  · refine issuedFresh_execute h.accounted (Nat.le_antisymm (hbinds.epoch_le h) ?_) hh ht
    rcases hbinds with hnew | ⟨i, arguments, r, q, rfl, hr, hq, rfl⟩
    · exact Nat.le_of_eq hnew.symm
    · have hvalid := hfresh r q hr hq
      simpa only [Lifetimes.expired, decide_eq_false_iff_not, Nat.not_lt] using hvalid
  · exact hh
  · exact hh

/-- Where every call was issued with an unexpired weak pointer, a reset cancels exactly the calls before it. -/
theorem cancelsExactly_of_fresh (hacc : t.Accounted) (hh : AllJustified IssuedFresh t.history) :
    CancelsExactly t.history := by
  intro pre c mid r b post heq hcallback
  have hepoch : c.lifetime.epoch = resets pre c.lifetime.lifetime :=
    hh pre (.issued c) (mid ++ .delivered r b :: post) (by rw [heq]; simp) c rfl
  rw [callbackStarted_iff hacc heq hcallback, hepoch, ← resets_eq_zero]
  omega

end InterfaceCallsAux

open ClientSystem AsyncAux InterfaceCallsAux

/-- In every run: no callback is started after its lifetime was reset; and if no call is made through a proxy whose weak pointer
has expired, then a reset cancels exactly the calls that were issued before it. -/
theorem reset_cancels_exactly (component : ComponentId → Component) {acts : List (ClientAction α β)} {s : ClientSystem α β}
    (h : run step (init component) acts = some s) :
    (∀ pre c mid r post, s.system.history = pre ++ .issued c :: mid ++ .delivered r true :: post →
      r.callback = c.callback → .reset c.lifetime.lifetime ∉ mid) ∧
      (AllSteps step FreshProxy (init component) acts → CancelsExactly s.system.history) := by
  have hsound := run_invariant (fun _ _ _ => sound_step) (sound_init component) h
  refine ⟨(reliable_of_accounted hsound.accounted).canceled, ?_⟩
  intro hfresh
  have hinv : ∀ (s : ClientSystem α β) a s', Sound s ∧ AllJustified IssuedFresh s.system.history → FreshProxy s a →
      step s a = some s' → Sound s' ∧ AllJustified IssuedFresh s'.system.history :=
    fun s a s' hs ha hstep => ⟨sound_step hs.1 hstep, issuedFresh_client hs.1 hs.2 ha hstep⟩
  obtain ⟨-, hall⟩ := hfresh.run_invariant hinv ⟨sound_init component, allJustified_nil⟩ h
  exact cancelsExactly_of_fresh hsound.accounted hall

/-- A call through a proxy that is answered: the lookup, the proxy, the call, the answer. -/
def proxiedCall : List (ClientAction Nat Nat) :=
  [.lookupInterface 0 0, .resolve 0 ⟨1, 70, 0, true⟩ 7, .callProxy 0 5 none, .resolveResult 0 10]

/-- `reset_cancels_exactly` on that run: the callback is started. -/
theorem reset_cancels_exactly_proxiedCall :
    ∃ s : ClientSystem Nat Nat, run step (init fun c => { defaultExecutor := c }) proxiedCall = some s ∧
      (callbacksStarted s.system.history).map Response.result = [10] ∧ CancelsExactly s.system.history := by
  obtain ⟨s, hs, hvalue⟩ : ∃ s : ClientSystem Nat Nat,
      run step (init fun c => { defaultExecutor := c }) proxiedCall = some s ∧
        (callbacksStarted s.system.history).map Response.result = [10] := ⟨_, rfl, rfl⟩
  refine ⟨s, hs, hvalue, (reset_cancels_exactly _ hs).2 ?_⟩
  refine ⟨trivial, fun _ h₁ => ⟨trivial, fun _ h₂ => ⟨?_, fun _ _ => ⟨trivial, fun _ _ => trivial⟩⟩⟩⟩
  obtain rfl := Option.some.inj h₁
  obtain rfl := Option.some.inj h₂
  intro r q hr hq
  obtain rfl := Option.some.inj hr
  obtain rfl := Option.some.inj hq
  rfl

/-- A run on which the condition fails: the lifetime is reset between the lookup of the interface and the call. -/
def callAfterReset : List (ClientAction Nat Nat) :=
  [.lookupInterface 0 0, .resolve 0 ⟨1, 70, 0, true⟩ 7, .reset 0, .callProxy 0 5 none, .resolveResult 0 10]

/-- Not in every run does a reset cancel the calls before it only. -/
theorem reset_cancels_later_call :
    ¬∀ acts (s : ClientSystem Nat Nat), run step (init fun c => { defaultExecutor := c }) acts = some s →
      CancelsExactly s.system.history := by
  intro h
  have hexact := h callAfterReset _ rfl
  have hiff := hexact [.reset 0] ⟨0, 0, ⟨1, 70, 0, true⟩, 7, 5, ⟨0, 0⟩, 0⟩
    [.handlerStarted ⟨none, 70, 5, ⟨none, ⟨0, 0⟩, 0, 1, 7, 0⟩⟩, .resolved ⟨none, 10, 0, ⟨0, 0⟩⟩]
    ⟨none, 10, 0, ⟨0, 0⟩⟩ false [] rfl rfl
  exact Bool.false_ne_true (hiff.mpr (by decide))

end Minicomps
