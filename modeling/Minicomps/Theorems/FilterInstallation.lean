import Minicomps.FilterInstallation
import Minicomps.Lib.Transition

/-!
# Calls while a filter is installed

The lock keeps every call inside one handler. The test before the lock is not kept apart from an installation: a call aborts exactly
where its test comes between the two steps in which the handler is replaced.
-/

namespace Minicomps

open Transition

/-- The thread has the lock. -/
def InstallStage.holdsLock : InstallStage → Bool
  | .lock _ => false
  | _ => true

/-- The call has the lock. -/
def CallStage.holdsLock : CallStage → Bool
  | .check | .lock => false
  | _ => true

/-- The functions called so far, and those that are still inside the running ones, are of one handler that the query had during the
call. -/
def ProxyCall.ByOne (c : ProxyCall) (handlers : List SyncHandler) (nextHandlers : List SyncHandler) : Prop :=
  ∃ v handler, handlers[v]? = some handler ∧ c.since ≤ v + 1 ∧ c.visits.head? = some handler ∧
    (∀ visit ∈ c.visits, visit ≠ [] ∧ visit <:+ handler) ∧ ∀ next ∈ nextHandlers, next <:+ handler

/-- What a call has called, as far as it got. -/
def ProxyCall.Proper (c : ProxyCall) (handlers : List SyncHandler) : Prop :=
  c.since ≤ handlers.length ∧
    match c.stage with
    | .check | .lock | .invoke => c.visits = []
    | .running nextHandlers => c.ByOne handlers nextHandlers
    | .result | .unlock => c.ByOne handlers []

namespace FilterInstallation

/-- How many times the code of the thread has locked the lock and not unlocked it. -/
def held (s : FilterInstallation) (t : ThreadId) : Nat :=
  (s.calls t).countP (fun c => c.stage.holdsLock) + if (s.installing t).any InstallStage.holdsLock then 1 else 0

/-- No thread is between moving the handler out and storing the new one. -/
def Complete (s : FilterInstallation) : Prop := ∀ u f previousHandler, s.installing u ≠ some (.store f previousHandler)

/-- The query's last handler is in it, or in the hand of the thread that is replacing it. -/
def Current (s : FilterInstallation) : Prop :=
  s.Complete ∧ s.handlers.getLast? = some s.handler ∨
    ∃ u f previousHandler, s.installing u = some (.store f previousHandler) ∧ s.handler = [] ∧
      s.handlers.getLast? = some previousHandler

/-- What holds in every run. -/
structure Inv (s : FilterInstallation) : Prop where
  depth : ∀ t, s.lock.depth t = s.held t
  apart : ∀ t, s.installing t ≠ none → s.calls t = []
  current : s.Current
  nonempty : ∀ handler ∈ s.handlers, handler ≠ []
  calls : ∀ t, ∀ c ∈ s.calls t, c.Proper s.handlers
  handled : s.EachByOne

end FilterInstallation

namespace FilterInstallationAux

open FilterInstallation

variable {s s' : FilterInstallation} {t u : ThreadId}

/-! ## Who has the lock -/

theorem held_congr (hcalls : s'.calls u = s.calls u) (hinstalling : s'.installing u = s.installing u) : s'.held u = s.held u := by
  rw [held, held, hcalls, hinstalling]

/-- A step of one thread that locks, unlocks or does neither. -/
theorem depth_of (h : s.Inv) {n : Nat} (hlock : s'.lock.depth = Function.update s.lock.depth t n) (hself : s'.held t = n)
    (hcalls : ∀ u, u ≠ t → s'.calls u = s.calls u) (hinstalling : ∀ u, u ≠ t → s'.installing u = s.installing u) :
    ∀ u, s'.lock.depth u = s'.held u := by
  intro u
  rw [hlock]
  by_cases hu : u = t
  · subst hu
    rw [Function.update_self, hself]
  · rw [Function.update_of_ne hu, h.depth u, held_congr (hcalls u hu) (hinstalling u hu)]

/-- A step that leaves the lock alone. -/
theorem update_depth (h : s.Inv) (t : ThreadId) : s.lock.depth = Function.update s.lock.depth t (s.held t) := by
  rw [← h.depth t, Function.update_eq_self]

theorem held_of_installing {stage : InstallStage} (h : s.Inv) (hstage : s.installing t = some stage) :
    s.held t = if stage.holdsLock then 1 else 0 := by
  rw [held, h.apart t (by rw [hstage]; exact Option.some_ne_none _), hstage]
  simp

/-- A thread that has stored nothing yet for what it has moved out is alone with the lock. -/
theorem store_alone (h : s.Inv) {f : FunctionId} {previousHandler : SyncHandler} (hstore : s.installing u = some (.store f previousHandler))
    (hheld : 0 < s.held t) : t = u := by
  have hu : 0 < s.lock.depth u := by
    rw [h.depth u, held_of_installing h hstore]
    exact Nat.one_pos
  exact RecursiveMutex.depth_exclusive ((h.depth t).symm ▸ hheld) hu

/-- Where a thread has the lock and is not replacing the handler, the last handler is there. -/
theorem handler_of_held (h : s.Inv) (hheld : 0 < s.held t)
    (hstage : ∀ f previousHandler, s.installing t ≠ some (.store f previousHandler)) :
    s.Complete ∧ s.handlers.getLast? = some s.handler := by
  rcases h.current with hcomplete | ⟨u, f, previousHandler, hstore, -⟩
  · exact hcomplete
  · exact absurd (store_alone h hstore hheld ▸ hstore) (hstage f previousHandler)

/-- Where a thread replaces the handler, it has the last one in its hand. -/
theorem previous_of_store (h : s.Inv) {f : FunctionId} {previousHandler : SyncHandler}
    (hstore : s.installing t = some (.store f previousHandler)) :
    s.handler = [] ∧ s.handlers.getLast? = some previousHandler ∧ ∀ u, u ≠ t → ∀ f p, s.installing u ≠ some (.store f p) := by
  have hheld : 0 < s.held t := by
    rw [held_of_installing h hstore]
    exact Nat.one_pos
  rcases h.current with ⟨hcomplete, -⟩ | ⟨u, f', p, hstore', hempty, hlast⟩
  · exact absurd hstore (hcomplete t f previousHandler)
  · obtain rfl := store_alone h hstore' hheld
    obtain ⟨-, rfl⟩ := InstallStage.store.inj (Option.some.inj (hstore.symm.trans hstore'))
    refine ⟨hempty, hlast, ?_⟩
    intro u hu f'' p' hstore''
    exact hu (store_alone h hstore'' hheld).symm

/-! ## More handlers -/

theorem getElem?_append_of_some {α : Type*} {xs : List α} {v : Nat} {x : α} (h : xs[v]? = some x) (y : α) : (xs ++ [y])[v]? = some x :=
  (List.getElem?_append_left (List.getElem?_eq_some_iff.mp h).1).trans h

theorem byOne_append {c : ProxyCall} {handlers nextHandlers : List SyncHandler} (h : c.ByOne handlers nextHandlers) (x : SyncHandler) :
    c.ByOne (handlers ++ [x]) nextHandlers := by
  obtain ⟨v, handler, hv, hrest⟩ := h
  exact ⟨v, handler, getElem?_append_of_some hv x, hrest⟩

theorem proper_append {c : ProxyCall} {handlers : List SyncHandler} (h : c.Proper handlers) (x : SyncHandler) :
    c.Proper (handlers ++ [x]) := by
  obtain ⟨hsince, hvisits⟩ := h
  refine ⟨by rw [List.length_append]; omega, ?_⟩
  cases hstage : c.stage with
  | check | lock | invoke =>
    rw [hstage] at hvisits
    exact hvisits
  | running nextHandlers | result | unlock =>
    rw [hstage] at hvisits
    exact byOne_append hvisits x

/-! ## Steps of an installation -/

theorem eachByOne_append (h : s.EachByOne) (x : SyncHandler) :
    ∀ c ∈ s.handled, ∃ v handler, (s.handlers ++ [x])[v]? = some handler ∧ c.since ≤ v + 1 ∧ v < c.till ∧
      c.visits.head? = some handler ∧ ∀ visit ∈ c.visits, visit ≠ [] ∧ visit <:+ handler := by
  intro c hc
  obtain ⟨v, handler, hv, hrest⟩ := h c hc
  exact ⟨v, handler, getElem?_append_of_some hv x, hrest⟩

/-- A step of `prepend_filter` on a thread that is in no call. -/
theorem inv_installing (h : s.Inv) {stage : Option InstallStage} (hnocalls : s.calls t = [])
    (hinstalling : s'.installing = Function.update s.installing t stage) (hcalls : s'.calls = s.calls) (hhandled : s'.handled = s.handled)
    (hlock : s'.lock.depth = Function.update s.lock.depth t (if stage.any InstallStage.holdsLock then 1 else 0)) (hcurrent : s'.Current)
    (hhandlers : s'.handlers = s.handlers ∨ ∃ f previous, s'.handlers = s.handlers ++ [f :: previous]) : s'.Inv where
  depth := by
    refine depth_of h hlock ?_ (fun _ _ => by rw [hcalls]) fun u hu => by rw [hinstalling, Function.update_of_ne hu]
    rw [held, hcalls, hnocalls, hinstalling, Function.update_self]
    simp
  apart u hu := by
    rw [hcalls]
    by_cases heq : u = t
    · rw [heq, hnocalls]
    · rw [hinstalling, Function.update_of_ne heq] at hu
      exact h.apart u hu
  current := hcurrent
  nonempty := by
    rcases hhandlers with hsame | ⟨f, previous, hmore⟩
    · rw [hsame]
      exact h.nonempty
    · rw [hmore]
      intro handler hmem
      rcases List.mem_append.mp hmem with hold | hnew
      · exact h.nonempty handler hold
      · rw [List.mem_singleton.mp hnew]
        exact List.cons_ne_nil f previous
  calls u c hc := by
    rw [hcalls] at hc
    rcases hhandlers with hsame | ⟨f, previous, hmore⟩
    · rw [hsame]
      exact h.calls u c hc
    · rw [hmore]
      exact proper_append (h.calls u c hc) _
  handled := by
    unfold EachByOne
    rw [hhandled]
    rcases hhandlers with hsame | ⟨f, previous, hmore⟩
    · rw [hsame]
      exact h.handled
    · rw [hmore]
      exact eachByOne_append h.handled _

/-- A thread that is not storing a handler goes to a stage in which it does not either. -/
theorem current_installing (h : s.Current) {stage : Option InstallStage} (hinstalling : s'.installing = Function.update s.installing t stage)
    (hhandler : s'.handler = s.handler) (hhandlers : s'.handlers = s.handlers) (hbefore : ∀ f p, s.installing t ≠ some (.store f p))
    (hafter : ∀ f p, stage ≠ some (.store f p)) : s'.Current := by
  rcases h with ⟨hcomplete, hlast⟩ | ⟨u, f, p, hstore, hempty, hlast⟩
  · refine Or.inl ⟨?_, by rw [hhandlers, hhandler, hlast]⟩
    intro u f p
    rw [hinstalling]
    by_cases hu : u = t
    · rw [hu, Function.update_self]
      exact hafter f p
    · rw [Function.update_of_ne hu]
      exact hcomplete u f p
  · refine Or.inr ⟨u, f, p, ?_, hhandler.trans hempty, by rw [hhandlers, hlast]⟩
    have hu : u ≠ t := fun heq => hbefore f p (heq ▸ hstore)
    rw [hinstalling, Function.update_of_ne hu, hstore]

theorem inv_install (h : s.Inv) {stage : InstallStage} (hstage : s.installing t = some stage) (hs : s.install t stage = some s') :
    s'.Inv := by
  have hnocalls : s.calls t = [] := h.apart t (by rw [hstage]; exact Option.some_ne_none _)
  have hheld : s.held t = if stage.holdsLock then 1 else 0 := held_of_installing h hstage
  cases stage with
  | lock f =>
    obtain ⟨m, hm, rfl⟩ := Option.map_eq_some_iff.mp hs
    refine inv_installing h hnocalls rfl rfl rfl ?_ ?_ (Or.inl rfl)
    · have hfree : s.lock.depth t = 0 := (h.depth t).trans hheld
      exact (RecursiveMutex.depth_lock hm).trans (by rw [hfree]; rfl)
    · exact current_installing h.current rfl rfl rfl (by simp [hstage]) (by simp)
  | moveOut f =>
    obtain rfl := Option.some.inj hs
    obtain ⟨hcomplete, hlast⟩ := handler_of_held h (by rw [hheld]; exact Nat.one_pos) (by simp [hstage])
    refine inv_installing h hnocalls rfl rfl rfl ?_ (Or.inr ⟨t, f, s.handler, Function.update_self .., rfl, hlast⟩) (Or.inl rfl)
    exact (update_depth h t).trans (by rw [hheld]; rfl)
  | store f previousHandler =>
    obtain rfl := Option.some.inj hs
    obtain ⟨-, -, halone⟩ := previous_of_store h hstage
    refine inv_installing h hnocalls rfl rfl rfl ?_ (Or.inl ⟨?_, List.getLast?_concat ..⟩) (Or.inr ⟨f, previousHandler, rfl⟩)
    · exact (update_depth h t).trans (by rw [hheld]; rfl)
    · intro u f' p
      by_cases hu : u = t
      · subst hu
        simp [setInstalling]
      · simp only [setInstalling, Function.update_of_ne hu]
        exact halone u hu f' p
  | unlock =>
    obtain rfl := Option.some.inj hs
    have hlocked : s.lock.depth t = 1 := (h.depth t).trans hheld
    refine inv_installing h hnocalls rfl rfl rfl ?_ ?_ (Or.inl rfl)
    · exact (RecursiveMutex.depth_unlock (by rw [hlocked]; exact Nat.one_pos)).trans (by rw [hlocked]; rfl)
    · exact current_installing h.current rfl rfl rfl (by simp [hstage]) (by simp)

theorem inv_prependFilter (h : s.Inv) {f : FunctionId} (hnone : s.installing t = none) (hnocalls : s.calls t = []) :
    (s.setInstalling t (some (.lock f))).Inv := by
  have hheld : s.held t = 0 := by simp [held, hnone, hnocalls]
  refine inv_installing h hnocalls rfl rfl rfl ?_ ?_ (Or.inl rfl)
  · exact (update_depth h t).trans (by rw [hheld]; rfl)
  · exact current_installing h.current rfl rfl rfl (by simp [hnone]) (by simp)

/-! ## Steps of a call -/

/-- A step of a thread's calls. -/
theorem inv_calls (h : s.Inv) {calls : List ProxyCall} (hnone : s.installing t = none)
    (hcalls : s'.calls = Function.update s.calls t calls) (hinstalling : s'.installing = s.installing)
    (hhandler : s'.handler = s.handler) (hhandlers : s'.handlers = s.handlers)
    (hlock : s'.lock.depth = Function.update s.lock.depth t (calls.countP fun c => c.stage.holdsLock))
    (hproper : ∀ c ∈ calls, c.Proper s.handlers) (hhandled : s'.EachByOne) : s'.Inv where
  depth := by
    refine depth_of h hlock ?_ (fun u hu => by rw [hcalls, Function.update_of_ne hu]) fun _ _ => by rw [hinstalling]
    rw [held, hcalls, Function.update_self, hinstalling, hnone]
    simp
  apart u hu := by
    rw [hinstalling] at hu
    have hne : u ≠ t := fun heq => hu (heq ▸ hnone)
    rw [hcalls, Function.update_of_ne hne]
    exact h.apart u hu
  current := by
    unfold Current Complete
    rw [hinstalling, hhandler, hhandlers]
    exact h.current
  nonempty := by
    rw [hhandlers]
    exact h.nonempty
  calls u c hc := by
    rw [hhandlers]
    rw [hcalls] at hc
    by_cases hu : u = t
    · subst hu
      rw [Function.update_self] at hc
      exact hproper c hc
    · rw [Function.update_of_ne hu] at hc
      exact h.calls u c hc
  handled := hhandled

/-- A step of the innermost call that leaves the lock alone. -/
theorem inv_setCalls (h : s.Inv) {c c' : ProxyCall} {calls : List ProxyCall} (hc : s.calls t = c :: calls)
    (hlocked : c'.stage.holdsLock = c.stage.holdsLock) (hproper : c'.Proper s.handlers) : (s.setCalls t (c' :: calls)).Inv := by
  have hnone : s.installing t = none := by
    by_contra hne
    rw [h.apart t hne] at hc
    cases hc
  have hheld : s.held t = (c' :: calls).countP fun c => c.stage.holdsLock := by
    simp [held, hc, hnone, List.countP_cons, hlocked]
  refine inv_calls h hnone rfl rfl rfl rfl ?_ ?_ h.handled
  · exact (update_depth h t).trans (by rw [hheld])
  · intro c'' hc''
    rcases List.mem_cons.mp hc'' with rfl | hrest
    · exact hproper
    · exact h.calls t c'' (hc ▸ List.mem_cons_of_mem c hrest)

/-- A thread that makes a call is not in `prepend_filter`. -/
theorem installing_of_call (h : s.Inv) {c : ProxyCall} {calls : List ProxyCall} (hc : s.calls t = c :: calls) : s.installing t = none := by
  by_contra hne
  rw [h.apart t hne] at hc
  cases hc

/-- Where a call calls the handler, it has the lock, so the last handler is there. -/
theorem handler_of_invoke (h : s.Inv) {c : ProxyCall} {calls : List ProxyCall} (hc : s.calls t = c :: calls) (hstage : c.stage = .invoke) :
    s.handlers.getLast? = some s.handler := by
  have hheld : 0 < s.held t := by
    rw [held, hc, List.countP_cons_of_pos (by rw [hstage]; rfl)]
    omega
  exact (handler_of_held h hheld (by simp [installing_of_call h hc])).2

theorem inv_advance (h : s.Inv) {c : ProxyCall} {calls : List ProxyCall} (hc : s.calls t = c :: calls)
    (hs : s.advance t c calls = some s') : s'.Inv := by
  have hnone := installing_of_call h hc
  obtain ⟨hsince, hvisits⟩ : c.Proper s.handlers := h.calls t c (hc ▸ List.mem_cons_self)
  have hothers : ∀ c' ∈ calls, c'.Proper s.handlers := fun c' hc' => h.calls t c' (hc ▸ List.mem_cons_of_mem c hc')
  have hdepth : s.lock.depth t = (calls.countP fun c => c.stage.holdsLock) + if c.stage.holdsLock then 1 else 0 := by
    simp [h.depth t, held, hc, hnone, List.countP_cons]
  cases hstage : c.stage with
  | check =>
    rw [hstage] at hvisits
    simp only [advance, hstage] at hs
    split at hs
    · obtain rfl := Option.some.inj hs
      exact ⟨h.depth, h.apart, h.current, h.nonempty, h.calls, h.handled⟩
    · obtain rfl := Option.some.inj hs
      exact inv_setCalls h hc (by rw [hstage]; rfl) ⟨hsince, hvisits⟩
  | lock =>
    rw [hstage] at hvisits hdepth
    simp only [advance, hstage] at hs
    obtain ⟨m, hm, rfl⟩ := Option.map_eq_some_iff.mp hs
    refine inv_calls h hnone rfl rfl rfl rfl ?_ ?_ h.handled
    · refine (RecursiveMutex.depth_lock hm).trans ?_
      rw [hdepth, List.countP_cons]
      rfl
    · intro c' hc'
      rcases List.mem_cons.mp hc' with rfl | hrest
      · exact ⟨hsince, hvisits⟩
      · exact hothers c' hrest
  | invoke =>
    rw [hstage] at hvisits
    have hlast := handler_of_invoke h hc hstage
    simp only [advance, hstage] at hs
    split at hs
    · obtain rfl := Option.some.inj hs
      exact ⟨h.depth, h.apart, h.current, h.nonempty, h.calls, h.handled⟩
    · rename_i f next hhandler
      obtain rfl := Option.some.inj hs
      rw [hhandler, List.getLast?_eq_getElem?] at hlast
      have hle : c.since ≤ s.handlers.length - 1 + 1 := by omega
      refine inv_setCalls h hc (by rw [hstage]; rfl) ⟨hsince, s.handlers.length - 1, f :: next, hlast, hle, ?_, ?_, ?_⟩
      · rw [hvisits]
        rfl
      · intro visit hvisit
        rw [hvisits, List.nil_append, List.mem_singleton] at hvisit
        rw [hvisit]
        exact ⟨List.cons_ne_nil f next, List.suffix_refl _⟩
      · intro next' hnext'
        rw [List.mem_singleton.mp hnext']
        exact List.suffix_cons f next
  | running nextHandlers =>
    simp only [advance, hstage] at hs
    cases hs
  | result =>
    rw [hstage] at hvisits
    simp only [advance, hstage] at hs
    obtain rfl := Option.some.inj hs
    exact inv_setCalls h hc (by rw [hstage]; rfl) ⟨hsince, hvisits⟩
  | unlock =>
    rw [hstage] at hvisits hdepth
    simp only [advance, hstage] at hs
    obtain rfl := Option.some.inj hs
    refine inv_calls h hnone rfl rfl rfl rfl ?_ hothers ?_
    · refine (RecursiveMutex.depth_unlock (by rw [hdepth]; exact Nat.succ_pos _)).trans ?_
      rw [hdepth]
      rfl
    · intro c' hc'
      rcases List.mem_append.mp hc' with hold | hnew
      · exact h.handled c' hold
      · rw [List.mem_singleton.mp hnew]
        obtain ⟨v, handler, hv, hle, hhead, hall, -⟩ := hvisits
        exact ⟨v, handler, hv, hle, (List.getElem?_eq_some_iff.mp hv).1, hhead, hall⟩

theorem inv_callNext (h : s.Inv) {c : ProxyCall} {calls : List ProxyCall} (hc : s.calls t = c :: calls)
    (hs : s.callNext t c calls = some s') : s'.Inv := by
  have hproper : c.Proper s.handlers := h.calls t c (hc ▸ List.mem_cons_self)
  unfold callNext at hs
  split at hs
  · rename_i f next nextHandlers hstage
    obtain rfl := Option.some.inj hs
    obtain ⟨hsince, hvisits⟩ := hproper
    rw [hstage] at hvisits
    obtain ⟨v, handler, hv, hle, hhead, hall, hnext⟩ := hvisits
    have hinside : f :: next <:+ handler := hnext _ List.mem_cons_self
    refine inv_setCalls h hc (by rw [hstage]; rfl) ⟨hsince, v, handler, hv, hle, ?_, ?_, ?_⟩
    · rw [List.head?_append, hhead]
      rfl
    · intro visit hvisit
      rcases List.mem_append.mp hvisit with hold | hnew
      · exact hall visit hold
      · rw [List.mem_singleton.mp hnew]
        exact ⟨List.cons_ne_nil f next, hinside⟩
    · intro next' hnext'
      rcases List.mem_cons.mp hnext' with rfl | hold
      · exact (List.suffix_cons f next').trans hinside
      · exact hnext next' hold
  · cases hs

theorem inv_finish (h : s.Inv) {c : ProxyCall} {calls : List ProxyCall} (hc : s.calls t = c :: calls)
    (hs : s.finish t c calls = some s') : s'.Inv := by
  obtain ⟨hsince, hvisits⟩ : c.Proper s.handlers := h.calls t c (hc ▸ List.mem_cons_self)
  unfold finish at hs
  split at hs
  · rename_i next hstage
    obtain rfl := Option.some.inj hs
    rw [hstage] at hvisits
    obtain ⟨v, handler, hv, hle, hhead, hall, -⟩ := hvisits
    have hby : c.ByOne s.handlers [] := ⟨v, handler, hv, hle, hhead, hall, fun _ hnext => absurd hnext List.not_mem_nil⟩
    cases c.locking with
    | true => exact inv_setCalls h hc (by rw [hstage]; rfl) ⟨hsince, hby⟩
    | false => exact inv_setCalls h hc (by rw [hstage]; rfl) ⟨hsince, hby⟩
  · rename_i next nextHandlers hstage
    obtain rfl := Option.some.inj hs
    rw [hstage] at hvisits
    obtain ⟨v, handler, hv, hle, hhead, hall, hnext⟩ := hvisits
    exact inv_setCalls h hc (by rw [hstage]; rfl)
      ⟨hsince, v, handler, hv, hle, hhead, hall, fun next' hnext' => hnext next' (List.mem_cons_of_mem _ hnext')⟩
  · cases hs

theorem inv_call (h : s.Inv) {locking : Bool} (hnone : s.installing t = none) :
    (s.setCalls t ({ locking, since := s.handlers.length } :: s.calls t)).Inv := by
  have hheld : s.held t = (s.calls t).countP fun c => c.stage.holdsLock := by simp [held, hnone]
  refine inv_calls h hnone rfl rfl rfl rfl ?_ ?_ h.handled
  · refine (update_depth h t).trans ?_
    rw [hheld, List.countP_cons]
    rfl
  · intro c hc
    rcases List.mem_cons.mp hc with rfl | hrest
    · exact ⟨Nat.le_refl _, rfl⟩
    · exact h.calls t c hrest

/-! ## Runs -/

theorem inv_step {a : InstallationAction} (h : s.Inv) (hs : s.step a = some s') : s'.Inv := by
  unfold step at hs
  split at hs
  · cases hs
  cases a with
  | prependFilter t f =>
    dsimp only at hs
    split at hs
    · rename_i hidle
      obtain rfl := Option.some.inj hs
      rw [Bool.and_eq_true, Option.isNone_iff_eq_none, List.isEmpty_iff] at hidle
      exact inv_prependFilter h hidle.1 hidle.2
    · cases hs
  | install t =>
    obtain ⟨stage, hstage, hs⟩ := Option.bind_eq_some_iff.mp hs
    exact inv_install h hstage hs
  | call t locking =>
    dsimp only at hs
    split at hs
    · rename_i hidle
      obtain rfl := Option.some.inj hs
      rw [Bool.and_eq_true, Option.isNone_iff_eq_none] at hidle
      exact inv_call h hidle.1
    · cases hs
  | advance t =>
    dsimp only [innermost] at hs
    split at hs
    · cases hs
    · rename_i c calls hc
      exact inv_advance h hc hs
  | callNext t =>
    dsimp only [innermost] at hs
    split at hs
    · cases hs
    · rename_i c calls hc
      exact inv_callNext h hc hs
  | finish t =>
    dsimp only [innermost] at hs
    split at hs
    · cases hs
    · rename_i c calls hc
      exact inv_finish h hc hs

/-- A call aborts nowhere but at its test, when the handler is being replaced. -/
theorem advance_aborted (h : s.Inv) {c : ProxyCall} {calls : List ProxyCall} (hc : s.calls t = c :: calls)
    (hs : s.advance t c calls = some s') : s'.aborted = s.aborted ∨ c.stage = .check ∧ ¬s.Complete := by
  cases hstage : c.stage with
  | check =>
    simp only [advance, hstage] at hs
    split at hs
    · rename_i hempty
      refine Or.inr ⟨rfl, fun hcomplete => ?_⟩
      rcases h.current with ⟨-, hlast⟩ | ⟨u, f, p, hstore, -⟩
      · exact h.nonempty s.handler (List.mem_of_getLast? hlast) (List.isEmpty_iff.mp hempty)
      · exact hcomplete u f p hstore
    · exact Or.inl (Option.some.inj hs ▸ rfl)
  | lock =>
    simp only [advance, hstage] at hs
    obtain ⟨m, -, rfl⟩ := Option.map_eq_some_iff.mp hs
    exact Or.inl rfl
  | invoke =>
    simp only [advance, hstage] at hs
    split at hs
    · rename_i hempty
      exact absurd hempty (h.nonempty s.handler (List.mem_of_getLast? (handler_of_invoke h hc hstage)))
    · exact Or.inl (Option.some.inj hs ▸ rfl)
  | running nextHandlers =>
    simp only [advance, hstage] at hs
    cases hs
  | result | unlock =>
    simp only [advance, hstage] at hs
    exact Or.inl (Option.some.inj hs ▸ rfl)

/-- A step in which no test comes while the handler is being replaced aborts nothing. -/
theorem not_aborted (h : s.Inv) (hlive : s.aborted = false) {a : InstallationAction} (hC : s.ChecksOutside a)
    (hs : s.step a = some s') : s'.aborted = false := by
  unfold step at hs
  rw [hlive, if_neg Bool.false_ne_true] at hs
  cases a with
  | prependFilter t f =>
    dsimp only at hs
    split at hs
    · exact Option.some.inj hs ▸ hlive
    · cases hs
  | install t =>
    obtain ⟨stage, -, hs⟩ := Option.bind_eq_some_iff.mp hs
    cases stage with
    | lock f =>
      obtain ⟨m, -, rfl⟩ := Option.map_eq_some_iff.mp hs
      exact hlive
    | moveOut | store | unlock => exact Option.some.inj hs ▸ hlive
  | call t locking =>
    dsimp only at hs
    split at hs
    · exact Option.some.inj hs ▸ hlive
    · cases hs
  | advance t =>
    dsimp only [innermost] at hs
    split at hs
    · cases hs
    · rename_i c calls hc
      rcases advance_aborted h hc hs with hsame | ⟨hcheck, hreplacing⟩
      · rw [hsame, hlive]
      · exact absurd (hC t c rfl (by rw [hc]; rfl) hcheck) hreplacing
  | callNext t =>
    dsimp only [innermost, callNext] at hs
    split at hs
    · cases hs
    · split at hs
      · exact Option.some.inj hs ▸ hlive
      · cases hs
  | finish t =>
    dsimp only [innermost, finish] at hs
    split at hs
    · cases hs
    · split at hs
      · exact Option.some.inj hs ▸ hlive
      · exact Option.some.inj hs ▸ hlive
      · cases hs

/-- A test that comes while the handler is being replaced finds none. -/
theorem aborts (h : s.Inv) (hlive : s.aborted = false) {a : InstallationAction} (hC : ¬s.ChecksOutside a) :
    ∃ s', s.step a = some s' ∧ s'.aborted = true := by
  unfold ChecksOutside at hC
  push Not at hC
  obtain ⟨t, c, rfl, hc, hcheck, u, f, previousHandler, hstore⟩ := hC
  obtain ⟨calls, hcalls⟩ : ∃ calls, s.calls t = c :: calls := by
    cases hcalls : s.calls t with
    | nil =>
      rw [hcalls] at hc
      cases hc
    | cons c' calls =>
      rw [hcalls] at hc
      exact ⟨calls, by rw [Option.some.inj hc]⟩
  have hempty : s.handler = [] := (previous_of_store h hstore).1
  refine ⟨{ s with aborted := true }, ?_, rfl⟩
  simp [step, hlive, innermost, hcalls, advance, hcheck, hempty]

theorem inv_init (f : FunctionId) : (init f).Inv where
  depth _ := rfl
  apart _ _ := rfl
  current := Or.inl ⟨fun _ _ _ hstore => Option.some_ne_none _ hstore.symm, rfl⟩
  nonempty := by
    intro handler hmem
    rw [List.mem_singleton.mp hmem]
    exact List.cons_ne_nil f []
  calls _ _ hc := absurd hc List.not_mem_nil
  handled _ hc := absurd hc List.not_mem_nil

end FilterInstallationAux

open FilterInstallationAux

/-- Whatever is installed and called, and in whatever order the threads take their steps: no call aborts exactly in the runs in which
no call tests the handler while it is being replaced, and in every run each call that returns was handled by one handler. -/
theorem FilterInstallation.noneAborted_iff (f : FunctionId) (acts : List InstallationAction) :
    (AllSteps FilterInstallation.step FilterInstallation.ChecksOutside (FilterInstallation.init f) acts ↔
      ∀ pre s, pre <+: acts → run FilterInstallation.step (FilterInstallation.init f) pre = some s → s.aborted = false) ∧
    ∀ s, run FilterInstallation.step (FilterInstallation.init f) acts = some s → s.EachByOne := by
  refine ⟨?_, fun s hs => (run_invariant (fun _ _ _ h hs => inv_step h hs) (inv_init f) hs).handled⟩
  have hstep : ∀ s a s', FilterInstallation.Inv s ∧ s.aborted = false → s.ChecksOutside a → s.step a = some s' →
      s'.Inv ∧ s'.aborted = false := fun s a s' h hC hs => ⟨inv_step h.1 hs, not_aborted h.1 h.2 hC hs⟩
  refine allSteps_iff_safe (fun s h => h.2) hstep ?_ ⟨inv_init f, rfl⟩
  intro s a h hC
  obtain ⟨s', hs, haborted⟩ := aborts h.1 h.2 hC
  exact ⟨s', hs, by rw [haborted]; exact Bool.noConfusion⟩

/-- A call that tests the handler after another thread has moved it out, and before it has stored the new one, aborts. -/
theorem FilterInstallation.call_aborted :
    ∃ s, run FilterInstallation.step (FilterInstallation.init 0)
        [.call 1 false, .prependFilter 2 7, .install 2, .install 2, .advance 1] = some s ∧ s.aborted = true :=
  ⟨_, rfl, rfl⟩

end Minicomps
