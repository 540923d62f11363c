import Minicomps.BrokerThreads
import Minicomps.Lib.Transition

/-!
# Which entries a destructor leaves behind

A destructor takes its component out of every list. The only thing that puts it back is a walk further down on the same thread's
stack which has passed the entry already and writes its copy back afterwards: that thread has dropped the last pointer to the
component in the middle of the walk, most simply the pointer the walk itself had taken. On any other thread the destructor waits for
the mutex until the walk is over.
-/

namespace Minicomps

open Transition

namespace BrokerSystem

variable {s s' : BrokerSystem} {t : ThreadId} {c : ComponentId} {id : MessageId} {a : BrokerAction}

/-- No walk will write an entry for the component. -/
def Unkept (s : BrokerSystem) (c : ComponentId) : Prop := ∀ t, ∀ f ∈ s.stack t, c ∉ f.kept

/-- The component is dead, is in no list, and will be in none. -/
structure Unlisted (s : BrokerSystem) (c : ComponentId) : Prop where
  dead : s.alive c = false
  unkept : s.Unkept c
  unlisted : ∀ id, c ∉ s.broker.receivers id

/-- A destructor's walk through the lists has taken the component out of those it has been through. -/
structure Swept (s : BrokerSystem) (sweep : Sweep) : Prop where
  dead : s.alive sweep.comp = false
  unkept : s.Unkept sweep.comp
  unlisted : ∀ id, id ∉ sweep.remaining → (∀ loop, sweep.current = some loop → loop.msgId ≠ id) → sweep.comp ∉ s.broker.receivers id

/-- What a frame says about the component that is being destroyed in it. -/
def FrameOk (s : BrokerSystem) (t : ThreadId) : BrokerFrame → Prop
  | .entering c => s.alive c = false ∧ (s.published c = true → ∀ f ∈ s.stack t, c ∉ f.kept)
  | .sweep .destructor sweep => s.Swept sweep
  | .leaving c true => s.Unlisted c
  | _ => True

/-- What holds in every history. -/
structure Inv (s : BrokerSystem) : Prop where
  depth : ∀ t, s.mutex.depth t = (s.stack t).countP BrokerFrame.holdsMutex
  frames : ∀ t, ∀ f ∈ s.stack t, s.FrameOk t f
  destroyed : ∀ c, s.destroyed c = true → s.Unlisted c

/-- What a step leaves of a component that is dead: it stays dead, and gets into a walk, or a list, from a walk or a list only. -/
structure Carries (s s' : BrokerSystem) (c : ComponentId) : Prop where
  dead : s'.alive c = false
  published : s'.published c = true → s.published c = true
  kept : ∀ t, ∀ f' ∈ s'.stack t, c ∈ f'.kept → ∃ f ∈ s.stack t, c ∈ f.kept
  receivers : ∀ id, c ∈ s'.broker.receivers id → c ∈ s.broker.receivers id ∨ ∃ t, ∃ f ∈ s.stack t, c ∈ f.kept

namespace BrokerThreadsAux

theorem alive_eq_false : s.alive c = false ↔ s.held c + s.temporary c = 0 := by
  simp only [alive, decide_eq_false_iff_not, Nat.not_lt, Nat.le_zero]

/-! ## What is carried along -/

theorem unkept_carried (hc : Carries s s' c) (h : s.Unkept c) : s'.Unkept c := by
  intro t f' hf' hmem
  obtain ⟨f, hf, hkept⟩ := hc.kept t f' hf' hmem
  exact h t f hf hkept

theorem unlisted_carried (hc : Carries s s' c) (h : s.Unlisted c) : s'.Unlisted c where
  dead := hc.dead
  unkept := unkept_carried hc h.unkept
  unlisted id hmem := by
    rcases hc.receivers id hmem with hold | ⟨t, f, hf, hkept⟩
    · exact h.unlisted id hold
    · exact h.unkept t f hf hkept

theorem swept_carried {sweep : Sweep} (hc : Carries s s' sweep.comp) (h : s.Swept sweep) : s'.Swept sweep where
  dead := hc.dead
  unkept := unkept_carried hc h.unkept
  unlisted id hremaining hcurrent hmem := by
    rcases hc.receivers id hmem with hold | ⟨t, f, hf, hkept⟩
    · exact h.unlisted id hremaining hcurrent hold
    · exact h.unkept t f hf hkept

theorem frameOk_carried {f : BrokerFrame} (hcarries : ∀ c, s.alive c = false → Carries s s' c) (h : s.FrameOk t f) :
    s'.FrameOk t f := by
  cases f with
  | entering c =>
    have hc := hcarries c h.1
    refine ⟨hc.dead, ?_⟩
    intro hpublished f' hf' hmem
    obtain ⟨f, hf, hkept⟩ := hc.kept t f' hf' hmem
    exact h.2 (hc.published hpublished) f hf hkept
  | sweep caller sweep =>
    cases caller with
    | destructor => exact swept_carried (hcarries _ h.dead) h
    | other | unpublish => trivial
  | leaving c wasPublished =>
    cases wasPublished with
    | true => exact unlisted_carried (hcarries c h.dead) h
    | false => trivial

/-- The frames of a step that has put `frames` in the place of a thread's stack. -/
theorem frames_of_carries {frames : List BrokerFrame} (h : Inv s) (hcarries : ∀ c, s.alive c = false → Carries s s' c)
    (hstack : s'.stack = Function.update s.stack t frames) (hnew : ∀ f ∈ frames, f ∈ s.stack t ∨ s'.FrameOk t f) :
    ∀ u, ∀ f ∈ s'.stack u, s'.FrameOk u f := by
  intro u f hf
  rw [hstack] at hf
  by_cases hu : u = t
  · subst hu
    rw [Function.update_self] at hf
    rcases hnew f hf with hold | hok
    · exact frameOk_carried hcarries (h.frames u f hold)
    · exact hok
  · rw [Function.update_of_ne hu] at hf
    exact frameOk_carried hcarries (h.frames u f hf)

theorem kept_of_stack {frames : List BrokerFrame} (hstack : s'.stack = Function.update s.stack t frames)
    (hnew : ∀ f' ∈ frames, c ∈ f'.kept → ∃ f ∈ s.stack t, c ∈ f.kept) :
    ∀ u, ∀ f' ∈ s'.stack u, c ∈ f'.kept → ∃ f ∈ s.stack u, c ∈ f.kept := by
  intro u f' hf' hmem
  rw [hstack] at hf'
  by_cases hu : u = t
  · subst hu
    rw [Function.update_self] at hf'
    exact hnew f' hf' hmem
  · rw [Function.update_of_ne hu] at hf'
    exact ⟨f', hf', hmem⟩

theorem inv_of_carries {frames : List BrokerFrame} (h : Inv s) (hcarries : ∀ c, s.alive c = false → Carries s s' c)
    (hdepth : ∀ u, s'.mutex.depth u = (s'.stack u).countP BrokerFrame.holdsMutex)
    (hstack : s'.stack = Function.update s.stack t frames) (hnew : ∀ f ∈ frames, f ∈ s.stack t ∨ s'.FrameOk t f)
    (hdestroyed : s'.destroyed = s.destroyed) : Inv s' where
  depth := hdepth
  frames := frames_of_carries h hcarries hstack hnew
  destroyed c hc := by
    rw [hdestroyed] at hc
    exact unlisted_carried (hcarries c (h.destroyed c hc).dead) (h.destroyed c hc)

/-! ## The mutex -/

theorem depth_same {frames : List BrokerFrame} (h : Inv s) (hmutex : s'.mutex = s.mutex)
    (hstack : s'.stack = Function.update s.stack t frames)
    (hcount : frames.countP BrokerFrame.holdsMutex = (s.stack t).countP BrokerFrame.holdsMutex) :
    ∀ u, s'.mutex.depth u = (s'.stack u).countP BrokerFrame.holdsMutex := by
  intro u
  rw [hmutex, hstack, h.depth u]
  by_cases hu : u = t
  · subst hu
    rw [Function.update_self, hcount]
  · rw [Function.update_of_ne hu]

theorem depth_locked {frames : List BrokerFrame} {m : RecursiveMutex ThreadId} (h : Inv s) (hm : s.mutex.lock t = some m)
    (hmutex : s'.mutex = m) (hstack : s'.stack = Function.update s.stack t frames)
    (hcount : frames.countP BrokerFrame.holdsMutex = (s.stack t).countP BrokerFrame.holdsMutex + 1) :
    ∀ u, s'.mutex.depth u = (s'.stack u).countP BrokerFrame.holdsMutex := by
  intro u
  rw [hmutex, hstack, RecursiveMutex.depth_lock hm]
  by_cases hu : u = t
  · subst hu
    rw [Function.update_self, Function.update_self, hcount, h.depth u]
  · rw [Function.update_of_ne hu, Function.update_of_ne hu, h.depth u]

theorem depth_unlocked {frames : List BrokerFrame} (h : Inv s) (hmutex : s'.mutex = s.mutex.unlock)
    (hstack : s'.stack = Function.update s.stack t frames)
    (hcount : (s.stack t).countP BrokerFrame.holdsMutex = frames.countP BrokerFrame.holdsMutex + 1) :
    ∀ u, s'.mutex.depth u = (s'.stack u).countP BrokerFrame.holdsMutex := by
  intro u
  have hpos : 0 < s.mutex.depth t := by
    rw [h.depth t, hcount]
    exact Nat.succ_pos _
  rw [hmutex, hstack, RecursiveMutex.depth_unlock hpos]
  by_cases hu : u = t
  · subst hu
    rw [Function.update_self, Function.update_self, h.depth u, hcount, Nat.add_sub_cancel]
  · rw [Function.update_of_ne hu, Function.update_of_ne hu, h.depth u]

/-- A thread that gets the mutex finds no other thread in the broker. -/
theorem kept_of_others {m : RecursiveMutex ThreadId} (h : Inv s) (hm : s.mutex.lock t = some m) {u : ThreadId} (hu : u ≠ t) :
    ∀ f ∈ s.stack u, f.kept = [] := by
  have hfree : s.mutex.depth u = 0 := by
    by_contra hne
    have hwait := RecursiveMutex.lock_eq_none_iff.mpr ⟨u, hu, Nat.pos_of_ne_zero hne⟩
    rw [hwait] at hm
    cases hm
  intro f hf
  have hnone := List.countP_eq_zero.mp ((h.depth u).symm.trans hfree) f hf
  cases f with
  | sweep => exact absurd rfl hnone
  | entering | leaving => rfl

/-! ## What is done at once -/

theorem mem_receivers_store {b : Broker} {kept : List ComponentId} {id' : MessageId}
    (h : c ∈ Broker.receivers ⟨b.activeLookups.store id kept⟩ id') : (id' ≠ id ∧ c ∈ b.receivers id') ∨ (id' = id ∧ c ∈ kept) := by
  by_cases hid : id' = id
  · subst hid
    rw [Broker.receivers_store_self] at h
    exact Or.inr ⟨rfl, h⟩
  · rw [Broker.receivers_store_of_ne _ _ hid] at h
    exact Or.inl ⟨hid, h⟩

/-- A change of the lists that enters no dead component. -/
theorem inv_locked {b : Broker} (h : Inv s)
    (hb : ∀ c, s.alive c = false → ∀ id, c ∈ b.receivers id → c ∈ s.broker.receivers id) (hs : s.locked t b = some s') : Inv s' := by
  unfold locked at hs
  split at hs
  · obtain ⟨m, -, rfl⟩ := Option.map_eq_some_iff.mp hs
    have hstack : s.stack = Function.update s.stack t (s.stack t) := (Function.update_eq_self ..).symm
    exact inv_of_carries h
      (fun c hc => ⟨hc, fun hp => hp, fun _ f hf hmem => ⟨f, hf, hmem⟩, fun id hmem => Or.inl (hb c hc id hmem)⟩)
      (depth_same h rfl hstack rfl) hstack (fun _ hf => Or.inl hf) rfl
  · cases hs

/-- A change of the pointers, and of what is published, that only live components gain by. -/
theorem inv_counts {held temporary : ComponentId → Nat} {published : ComponentId → Bool} (h : Inv s)
    (hdead : ∀ c, s.alive c = false → held c + temporary c = 0)
    (hpublished : ∀ c, s.alive c = false → published c = true → s.published c = true) :
    Inv { s with held := held, temporary := temporary, published := published } := by
  have hstack : s.stack = Function.update s.stack 0 (s.stack 0) := (Function.update_eq_self ..).symm
  exact inv_of_carries h
    (fun c hc => ⟨alive_eq_false.mpr (hdead c hc), hpublished c hc, fun _ f hf hmem => ⟨f, hf, hmem⟩, fun _ hmem => Or.inl hmem⟩)
    (depth_same h rfl hstack rfl) hstack (fun _ hf => Or.inl hf) rfl

/-- The destructor starts where the last pointer has been dropped, and no walk on the thread has kept the component. -/
theorem inv_dropped (h : Inv s) (hC : s.alive c = false → s.published c = true → ∀ f ∈ s.stack t, c ∉ f.kept) :
    Inv (s.dropped t c) := by
  unfold dropped
  split
  · exact h
  · rename_i hdead
    rw [Bool.not_eq_true] at hdead
    have hkept : ∀ d, ∀ u, ∀ f' ∈ (s.setStack t (.entering c :: s.stack t)).stack u, d ∈ f'.kept → ∃ f ∈ s.stack u, d ∈ f.kept := by
      intro d
      refine kept_of_stack rfl ?_
      intro f' hf' hmem
      rcases List.mem_cons.mp hf' with rfl | hf'
      · cases hmem
      · exact ⟨f', hf', hmem⟩
    refine inv_of_carries h (fun d hd => ⟨hd, fun hp => hp, hkept d, fun _ hmem => Or.inl hmem⟩) (depth_same h rfl rfl rfl) rfl
      ?_ rfl
    intro f hf
    rcases List.mem_cons.mp hf with rfl | hf
    · refine Or.inr ⟨hdead, ?_⟩
      intro hpublished f' hf' hmem
      obtain ⟨f, hf, hkeep⟩ := hkept c t f' hf' hmem
      exact hC hdead hpublished f hf hkeep
    · exact Or.inl hf

/-! ## The steps of a walk -/

/-- A walk begins. -/
theorem inv_startSweep {caller : SweepCaller} {sweep : Sweep} (h : Inv s) (hcaller : caller ≠ .destructor)
    (hkept : (BrokerFrame.sweep caller sweep).kept = []) (hs : s.startSweep t caller sweep = some s') : Inv s' := by
  unfold startSweep at hs
  split at hs
  · obtain ⟨m, hm, rfl⟩ := Option.map_eq_some_iff.mp hs
    refine inv_of_carries h
      (fun d hd => ⟨hd, fun hp => hp, kept_of_stack rfl ?_, fun _ hmem => Or.inl hmem⟩)
      (depth_locked h hm rfl rfl (List.countP_cons_of_pos rfl)) rfl ?_ rfl
    · intro f' hf' hmem
      rcases List.mem_cons.mp hf' with rfl | hf'
      · rw [hkept] at hmem
        cases hmem
      · exact ⟨f', hf', hmem⟩
    · intro f hf
      rcases List.mem_cons.mp hf with rfl | hf
      · refine Or.inr ?_
        cases caller with
        | destructor => exact absurd rfl hcaller
        | other | unpublish => trivial
      · exact Or.inl hf
  · cases hs

/-- A step of the walk on top of a thread's stack. -/
theorem inv_walk {caller : SweepCaller} {old new : Sweep} {frames : List BrokerFrame} (h : Inv s)
    (htop : s.stack t = .sweep caller old :: frames) (hmutex : s'.mutex = s.mutex)
    (hstack : s'.stack = Function.update s.stack t (.sweep caller new :: frames)) (hdestroyed : s'.destroyed = s.destroyed)
    (hpublished : s'.published = s.published) (hdead : ∀ c, s.alive c = false → s'.alive c = false)
    (hkept : ∀ c, s.alive c = false → c ∈ (BrokerFrame.sweep caller new).kept → c ∈ (BrokerFrame.sweep caller old).kept)
    (hreceivers : ∀ c, s.alive c = false → ∀ id, c ∈ s'.broker.receivers id →
      c ∈ s.broker.receivers id ∨ c ∈ (BrokerFrame.sweep caller old).kept)
    (hcomp : new.comp = old.comp)
    (hswept : caller = .destructor → s.Swept old → ∀ id, id ∉ new.remaining → (∀ loop, new.current = some loop → loop.msgId ≠ id) →
      new.comp ∉ s'.broker.receivers id) : Inv s' := by
  have hmem : BrokerFrame.sweep caller old ∈ s.stack t := htop ▸ List.mem_cons_self
  have hcarries : ∀ c, s.alive c = false → Carries s s' c := by
    intro c hc
    refine ⟨hdead c hc, fun hp => hpublished ▸ hp, kept_of_stack hstack ?_, ?_⟩
    · intro f' hf' hkeep
      rcases List.mem_cons.mp hf' with rfl | hf'
      · exact ⟨_, hmem, hkept c hc hkeep⟩
      · exact ⟨f', htop ▸ List.mem_cons_of_mem _ hf', hkeep⟩
    · intro id hrec
      exact (hreceivers c hc id hrec).imp_right fun hkeep => ⟨t, _, hmem, hkeep⟩
  refine inv_of_carries h hcarries (depth_same h hmutex hstack (by rw [htop]; rfl)) hstack ?_ hdestroyed
  intro f hf
  rcases List.mem_cons.mp hf with rfl | hf
  · refine Or.inr ?_
    cases caller with
    | destructor =>
      have hold : s.Swept old := h.frames t _ hmem
      have hcarry : Carries s s' new.comp := hcarries new.comp (hcomp ▸ hold.dead)
      exact ⟨hcarry.dead, unkept_carried hcarry (hcomp ▸ hold.unkept), hswept rfl hold⟩
    | other | unpublish => trivial
  · exact Or.inl (htop ▸ List.mem_cons_of_mem _ hf)

/-- A walk that goes on with the same list has come as far as it had. -/
theorem unlisted_of_loop (s : BrokerSystem) {remaining : List MessageId} {loop loop' : ReceiverLoop}
    (h : s.Swept ⟨c, remaining, some loop⟩) (hremaining : id ∉ remaining)
    (hcurrent : ∀ l, some loop' = some l → l.msgId ≠ id) (hid : loop'.msgId = loop.msgId) :
    c ∉ s.broker.receivers id := by
  refine h.unlisted id hremaining ?_
  intro l hl
  obtain rfl := Option.some.inj hl
  exact hid ▸ hcurrent loop' rfl

theorem inv_nextMessage (h : Inv s) (hs : s.step (.nextMessage t) = some s') : Inv s' := by
  simp only [step] at hs
  split at hs
  · rename_i caller comp id ids frames htop
    obtain rfl := Option.some.inj hs
    refine inv_walk h htop rfl rfl rfl rfl (fun _ hc => hc) (fun _ _ hkeep => hkeep) (fun _ _ _ hrec => Or.inl hrec) rfl ?_
    intro _ hold id' hremaining hcurrent
    refine hold.unlisted id' ?_ (fun loop hloop => by cases hloop)
    intro hmem
    rcases List.mem_cons.mp hmem with rfl | hmem
    · exact hcurrent _ rfl rfl
    · exact hremaining hmem
  · cases hs

theorem inv_lockEntry (h : Inv s) (hs : s.step (.lockEntry t) = some s') : Inv s' := by
  simp only [step] at hs
  split at hs
  · rename_i caller comp remaining msgId kept d rest frames htop
    split at hs
    · rename_i halive
      obtain rfl := Option.some.inj hs
      have hne : ∀ c, s.alive c = false → c ≠ d := by
        rintro c hc rfl
        rw [halive] at hc
        cases hc
      refine inv_walk h htop rfl rfl rfl rfl ?_ ?_ (fun _ _ _ hrec => Or.inl hrec) rfl
        fun _ hold _ hremaining hcurrent => unlisted_of_loop s hold hremaining hcurrent rfl
      · intro c hc
        rw [alive_eq_false] at hc ⊢
        change s.held c + Function.update s.temporary d _ c = 0
        rwa [Function.update_of_ne (hne c (alive_eq_false.mpr hc))]
      · intro c hc hkeep
        have hmem : c ∈ (if d = comp then kept else kept ++ [d]) := hkeep
        split at hmem
        · exact hmem
        · exact (List.mem_append.mp hmem).resolve_right fun hd => hne c hc (List.mem_singleton.mp hd)
    · obtain rfl := Option.some.inj hs
      exact inv_walk h htop rfl rfl rfl rfl (fun _ hc => hc) (fun _ _ hkeep => hkeep) (fun _ _ _ hrec => Or.inl hrec) rfl
        fun _ hold _ hremaining hcurrent => unlisted_of_loop s hold hremaining hcurrent rfl
  · cases hs

theorem inv_dropEntry (h : Inv s) (hC : s.NoKeptDies (.dropEntry t)) (hs : s.step (.dropEntry t) = some s') : Inv s' := by
  simp only [step] at hs
  split at hs
  · rename_i caller comp remaining msgId kept rest d frames htop
    obtain rfl := Option.some.inj hs
    have hless : ∀ c, s.alive c = false →
        s.held c + Function.update s.temporary d (s.temporary d - 1) c = 0 := by
      intro c hc
      rw [alive_eq_false] at hc
      by_cases hcd : c = d
      · subst hcd
        rw [Function.update_self]
        omega
      · rwa [Function.update_of_ne hcd]
    refine inv_dropped ?_ ?_
    · exact inv_walk h htop rfl rfl rfl rfl (fun c hc => alive_eq_false.mpr (hless c hc)) (fun _ _ hkeep => hkeep)
        (fun _ _ _ hrec => Or.inl hrec) rfl fun _ hold _ hremaining hcurrent => unlisted_of_loop s hold hremaining hcurrent rfl
    · intro hdead hpublished f hf
      have hlast : s.held d + s.temporary d ≤ 1 := by
        have hcount := alive_eq_false.mp hdead
        change s.held d + Function.update s.temporary d (s.temporary d - 1) d = 0 at hcount
        rw [Function.update_self] at hcount
        omega
      have hnone := hC t d (by simp only [drops, htop]) hlast hpublished
      -- the frames are those of before, up to the pointer that has gone
      simp only [setStack, Function.update_self] at hf
      rcases List.mem_cons.mp hf with rfl | hf
      · exact hnone (.sweep caller ⟨comp, remaining, some ⟨msgId, kept, rest, some d⟩⟩) (htop ▸ List.mem_cons_self)
      · exact hnone f (htop ▸ List.mem_cons_of_mem _ hf)
  · cases hs

theorem inv_writeBack (h : Inv s) (hs : s.step (.writeBack t) = some s') : Inv s' := by
  simp only [step] at hs
  split at hs
  · rename_i caller comp remaining msgId kept frames htop
    obtain rfl := Option.some.inj hs
    have hmem : BrokerFrame.sweep caller ⟨comp, remaining, some ⟨msgId, kept, [], none⟩⟩ ∈ s.stack t := htop ▸ List.mem_cons_self
    refine inv_walk h htop rfl rfl rfl rfl (fun _ hc => hc) (fun _ _ hkeep => by cases hkeep) ?_ rfl
      ?_
    · intro c _ id' hrec
      rcases mem_receivers_store hrec with ⟨-, hrec⟩ | ⟨-, hkeep⟩
      · exact Or.inl hrec
      · exact Or.inr hkeep
    · intro _ hold id' hremaining _ hrec
      rcases mem_receivers_store hrec with ⟨hne, hrec⟩ | ⟨-, hkeep⟩
      · refine hold.unlisted id' hremaining ?_ hrec
        intro loop hloop
        obtain rfl := Option.some.inj hloop
        exact Ne.symm hne
      · exact hold.unkept t _ hmem hkeep
  · cases hs

/-! ## The end of a walk, and of a destructor -/

/-- A frame is taken from a thread's stack, and perhaps one put in its place that keeps nothing. -/
theorem carries_pop {old : BrokerFrame} {frames frames' : List BrokerFrame} (htop : s.stack t = old :: frames)
    (hstack : s'.stack = Function.update s.stack t frames')
    (hframes : ∀ f ∈ frames', f ∈ frames ∨ f.kept = []) (halive : s'.alive = s.alive)
    (hpublished : ∀ c, s'.published c = true → s.published c = true) (hbroker : s'.broker = s.broker) (c : ComponentId)
    (hc : s.alive c = false) : Carries s s' c where
  dead := halive ▸ hc
  published := hpublished c
  kept := kept_of_stack hstack fun f' hf' hmem => by
    rcases hframes f' hf' with hf' | hnil
    · exact ⟨f', htop ▸ List.mem_cons_of_mem _ hf', hmem⟩
    · rw [hnil] at hmem
      cases hmem
  receivers _ hrec := Or.inl (hbroker ▸ hrec)

/-- Unpublishing only takes from what is published. -/
theorem published_update_false {d : ComponentId} (h : Function.update s.published d false c = true) : s.published c = true := by
  by_cases hcd : c = d
  · subst hcd
    rw [Function.update_self] at h
    cases h
  · rwa [Function.update_of_ne hcd] at h

theorem inv_finishSweep (h : Inv s) (hs : s.step (.finishSweep t) = some s') : Inv s' := by
  simp only [step] at hs
  split at hs
  · rename_i caller comp frames htop
    have hmem : BrokerFrame.sweep caller ⟨comp, [], none⟩ ∈ s.stack t := htop ▸ List.mem_cons_self
    have htail : ∀ f ∈ frames, f ∈ s.stack t := fun f hf => htop ▸ List.mem_cons_of_mem _ hf
    have hcount : (s.stack t).countP BrokerFrame.holdsMutex = frames.countP BrokerFrame.holdsMutex + 1 := by
      rw [htop, List.countP_cons_of_pos rfl]
    cases caller with
    | other =>
      obtain rfl := Option.some.inj hs
      exact inv_of_carries h (carries_pop htop rfl (fun _ hf => Or.inl hf) rfl (fun _ hp => hp) rfl)
        (depth_unlocked h rfl rfl hcount) rfl (fun f hf => Or.inl (htail f hf)) rfl
    | unpublish =>
      obtain rfl := Option.some.inj hs
      exact inv_of_carries h (carries_pop htop rfl (fun _ hf => Or.inl hf) rfl (fun _ hp => published_update_false hp) rfl)
        (depth_unlocked h rfl rfl hcount) rfl (fun f hf => Or.inl (htail f hf)) rfl
    | destructor =>
      obtain rfl := Option.some.inj hs
      have hold : s.Swept ⟨comp, [], none⟩ := h.frames t _ hmem
      have hcarries : ∀ c, s.alive c = false → Carries s ({ s with
          mutex := s.mutex.unlock
          published := Function.update s.published comp false }.setStack t (.leaving comp true :: frames)) c := carries_pop htop rfl
        (fun f hf => (List.mem_cons.mp hf).elim (fun heq => Or.inr (heq ▸ rfl)) Or.inl) rfl (fun _ hp => published_update_false hp) rfl
      refine inv_of_carries h hcarries (depth_unlocked h rfl rfl hcount) rfl ?_ rfl
      intro f hf
      rcases List.mem_cons.mp hf with rfl | hf
      · refine Or.inr (unlisted_carried (hcarries comp hold.dead) ⟨hold.dead, hold.unkept, ?_⟩)
        intro id
        exact hold.unlisted id List.not_mem_nil fun loop hloop => by cases hloop
      · exact Or.inl (htail f hf)
  · cases hs

/-- A message the broker has no list for has no receivers. -/
theorem receivers_of_not_mem_keys {b : Broker} (h : id ∉ b.activeLookups.keys) : b.receivers id = [] := by
  rw [CellStore.mem_keys, Bool.not_eq_true, Option.isSome_eq_false_iff, Option.isNone_iff_eq_none] at h
  rw [Broker.receivers, h]

theorem inv_destruct (h : Inv s) (hs : s.step (.destruct t) = some s') : Inv s' := by
  simp only [step] at hs
  split at hs
  · rename_i d frames htop
    have hmem : BrokerFrame.entering d ∈ s.stack t := htop ▸ List.mem_cons_self
    have htail : ∀ f ∈ frames, f ∈ s.stack t := fun f hf => htop ▸ List.mem_cons_of_mem _ hf
    obtain ⟨hdead, hown⟩ : s.alive d = false ∧ (s.published d = true → ∀ f ∈ s.stack t, d ∉ f.kept) := h.frames t _ hmem
    split at hs
    · rename_i hpublished
      obtain ⟨m, hm, rfl⟩ := Option.map_eq_some_iff.mp hs
      have hcarries : ∀ c, s.alive c = false → Carries s ({ s with mutex := m }.setStack t
          (.sweep .destructor { comp := d, remaining := s.broker.activeLookups.keys } :: frames)) c := carries_pop htop rfl
        (fun f hf => (List.mem_cons.mp hf).elim (fun heq => Or.inr (heq ▸ rfl)) Or.inl) rfl (fun _ hp => hp) rfl
      have hcount : (BrokerFrame.sweep .destructor { comp := d, remaining := s.broker.activeLookups.keys } :: frames).countP
          BrokerFrame.holdsMutex = (s.stack t).countP BrokerFrame.holdsMutex + 1 := by
        rw [htop, List.countP_cons_of_pos rfl, List.countP_cons_of_neg (by simp [BrokerFrame.holdsMutex])]
      -- nobody else is in the broker, and the walks below on this stack have not kept the component
      have hunkept : s.Unkept d := by
        intro u f hf
        by_cases hu : u = t
        · exact hown hpublished f (hu ▸ hf)
        · rw [kept_of_others h hm hu f hf]
          exact List.not_mem_nil
      refine inv_of_carries h hcarries (depth_locked h hm rfl rfl hcount) rfl ?_ rfl
      intro f hf
      rcases List.mem_cons.mp hf with rfl | hf
      · refine Or.inr (swept_carried (hcarries d hdead) ⟨hdead, hunkept, ?_⟩)
        intro id hremaining _
        rw [receivers_of_not_mem_keys hremaining]
        exact List.not_mem_nil
      · exact Or.inl (htail f hf)
    · obtain rfl := Option.some.inj hs
      have hcarries : ∀ c, s.alive c = false → Carries s (s.setStack t (.leaving d false :: frames)) c := carries_pop htop rfl
        (fun f hf => (List.mem_cons.mp hf).elim (fun heq => Or.inr (heq ▸ rfl)) Or.inl) rfl (fun _ hp => hp) rfl
      refine inv_of_carries h hcarries (depth_same h rfl rfl (by rw [htop]; rfl)) rfl ?_ rfl
      intro f hf
      rcases List.mem_cons.mp hf with rfl | hf
      · exact Or.inr trivial
      · exact Or.inl (htail f hf)
  · cases hs

theorem inv_finishDestructor (h : Inv s) (hs : s.step (.finishDestructor t) = some s') : Inv s' := by
  simp only [step] at hs
  split at hs
  · rename_i d wasPublished frames htop
    obtain rfl := Option.some.inj hs
    have hmem : BrokerFrame.leaving d wasPublished ∈ s.stack t := htop ▸ List.mem_cons_self
    have hcarries : ∀ c, s.alive c = false → Carries s ({ s with
        destroyed := Function.update s.destroyed d (s.destroyed d || wasPublished) }.setStack t frames) c := carries_pop htop rfl
      (fun _ hf => Or.inl hf) rfl (fun _ hp => hp) rfl
    refine ⟨depth_same h rfl rfl (by rw [htop]; rfl),
      frames_of_carries h hcarries rfl fun f hf => Or.inl (htop ▸ List.mem_cons_of_mem _ hf), ?_⟩
    intro c hc
    have hc' : Function.update s.destroyed d (s.destroyed d || wasPublished) c = true := hc
    have hunlisted : s.Unlisted c := by
      by_cases hcd : c = d
      · subst hcd
        rw [Function.update_self] at hc'
        cases wasPublished with
        | true => exact h.frames t _ hmem
        | false => exact h.destroyed c (by rwa [Bool.or_false] at hc')
      · rw [Function.update_of_ne hcd] at hc'
        exact h.destroyed c hc'
    exact unlisted_carried (hcarries c hunlisted.dead) hunlisted
  · cases hs

/-! ## The invariant -/

theorem inv_init (held : ComponentId → Nat) : Inv (init held) where
  depth _ := rfl
  frames _ _ hf := by cases hf
  destroyed _ hc := by cases hc

theorem inv_step (h : Inv s) (hC : s.NoKeptDies a) (hs : s.step a = some s') : Inv s' := by
  cases a with
  | associate t id c =>
    simp only [step] at hs
    split at hs
    · rename_i halive
      refine inv_locked h (fun d hd id' hmem => (Broker.mem_receivers_associate hmem).resolve_right ?_) hs
      intro heq
      rw [heq, halive] at hd
      cases hd
    · cases hs
  | invalidate t id => exact inv_locked h (fun c _ id' hmem => by rwa [Broker.receivers_invalidate] at hmem) hs
  | lookup t id => exact inv_locked h (fun c _ id' hmem => by rwa [Broker.receivers_lookup] at hmem) hs
  | disassociate t id c =>
    simp only [step] at hs
    split at hs
    · exact inv_startSweep h (by intro heq; cases heq) rfl hs
    · cases hs
  | disassociateEverything t c => exact inv_startSweep h (by intro heq; cases heq) rfl hs
  | unpublishDependencies t c => exact inv_startSweep h (by intro heq; cases heq) rfl hs
  | publishDependencies t c =>
    simp only [step] at hs
    split at hs
    · rename_i hguard
      obtain rfl := Option.some.inj hs
      refine inv_counts h (fun d hd => alive_eq_false.mp hd) ?_
      intro d hd hp
      have hne : d ≠ c := by
        rintro rfl
        rw [(Bool.and_eq_true_iff.mp hguard).2] at hd
        cases hd
      rwa [Function.update_of_ne hne] at hp
    · cases hs
  | acquire t c =>
    simp only [step] at hs
    split at hs
    · rename_i hguard
      obtain rfl := Option.some.inj hs
      refine inv_counts h ?_ fun _ _ hp => hp
      intro d hd
      have hne : d ≠ c := by
        rintro rfl
        rw [(Bool.and_eq_true_iff.mp hguard).2] at hd
        cases hd
      rw [Function.update_of_ne hne]
      exact alive_eq_false.mp hd
    · cases hs
  | release t c =>
    simp only [step] at hs
    split at hs
    · rename_i hguard
      obtain rfl := Option.some.inj hs
      refine inv_dropped (inv_counts h ?_ fun _ _ hp => hp) ?_
      · intro d hd
        rw [alive_eq_false] at hd
        by_cases hdc : d = c
        · subst hdc
          rw [Function.update_self]
          omega
        · rwa [Function.update_of_ne hdc]
      · intro hdead hpublished
        refine hC t c rfl ?_ hpublished
        have hcount := alive_eq_false.mp hdead
        change Function.update s.held c (s.held c - 1) c + s.temporary c = 0 at hcount
        rw [Function.update_self] at hcount
        omega
    · cases hs
  | nextMessage t => exact inv_nextMessage h hs
  | lockEntry t => exact inv_lockEntry h hs
  | dropEntry t => exact inv_dropEntry h hC hs
  | writeBack t => exact inv_writeBack h hs
  | finishSweep t => exact inv_finishSweep h hs
  | destruct t => exact inv_destruct h hs
  | finishDestructor t => exact inv_finishDestructor h hs

end BrokerThreadsAux

open BrokerThreadsAux

instance (s : BrokerSystem) (a : BrokerAction) : Decidable (s.NoKeptDies a) :=
  decidable_of_iff (∀ p ∈ s.drops a, s.held p.2 + s.temporary p.2 ≤ 1 → s.published p.2 = true → ∀ f ∈ s.stack p.1, p.2 ∉ f.kept)
    ⟨fun h t c hd => h (t, c) hd, fun h p hp => h p.1 p.2 hp⟩

/-- In every run in which no thread drops the last strong pointer to a published component inside a walk that has kept it, no receiver
list has an entry for a published component whose destructor has finished. -/
theorem no_dead_entries (held : ComponentId → Nat) (acts : List BrokerAction) (s : BrokerSystem)
    (h : AllSteps step NoKeptDies (init held) acts) (hs : run step (init held) acts = some s) : s.NoDeadEntries := by
  have hinv : Inv s := AllSteps.run_invariant (fun _ _ _ hi hC hstep => inv_step hi hC hstep) (inv_init held) h hs
  exact fun c hc => (hinv.destroyed c hc).unlisted

/-- Component 1 has published something, on thread 0. -/
def publishOne : List BrokerAction := [.associate 0 7 1, .publishDependencies 0 1]

/-- The destructor's walk over the list of one message, through `n` entries that are dead. -/
def sweepDead (t : ThreadId) (n : Nat) : List BrokerAction :=
  [.destruct t, .nextMessage t] ++ List.replicate n (.lockEntry t) ++ [.writeBack t, .finishSweep t, .finishDestructor t]

/-- Thread 1 drops the last pointer to component 1 while thread 0 is in a walk that has kept it: the destructor waits for the walk,
and then takes the component out. -/
theorem no_dead_entries_waited :
    ∃ s, run step (init fun _ => 1) (publishOne ++
        [.disassociate 0 7 2, .lockEntry 0, .dropEntry 0, .release 1 1, .writeBack 0, .finishSweep 0] ++ sweepDead 1 1) = some s ∧
      s.destroyed 1 = true ∧ s.NoDeadEntries :=
  ⟨_, rfl, rfl, no_dead_entries (fun _ => 1) (publishOne ++
    [.disassociate 0 7 2, .lockEntry 0, .dropEntry 0, .release 1 1, .writeBack 0, .finishSweep 0] ++ sweepDead 1 1) _ (by decide) rfl⟩

/-- Thread 1 drops its pointer to component 1 while thread 0 is in a walk that has locked the entry, so that the walk has the last
pointer: the destructor runs in the walk, which then writes the entry back. -/
def writtenBack : List BrokerAction :=
  publishOne ++ [.disassociate 0 7 2, .lockEntry 0, .release 1 1, .dropEntry 0] ++ sweepDead 0 1 ++ [.writeBack 0, .finishSweep 0]

/-- Not every run leaves no entry of a destroyed component in the lists. -/
theorem dead_entry_written_back :
    ¬∀ (held : ComponentId → Nat) (acts : List BrokerAction) (s : BrokerSystem), run step (init held) acts = some s →
      s.NoDeadEntries := by
  intro h
  obtain ⟨s, hs⟩ : ∃ s, run step (init fun _ => 1) writtenBack = some s := ⟨_, rfl⟩
  have hnone := h (fun _ => 1) writtenBack s hs 1
  obtain rfl := Option.some.inj hs
  exact hnone rfl 7 (by decide)

end BrokerSystem

end Minicomps
