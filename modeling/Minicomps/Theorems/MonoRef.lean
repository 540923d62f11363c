import Minicomps.Lib.Transition
import Minicomps.Lemmas.World
import Minicomps.MonoRef

/-!
# When a `mono_ref` answers what a fresh resolution would

`mono_ref_base::lookup` does not clear its handler before it resolves again. A resolution that fails early therefore leaves the
old handler next to a handle on the new list, and the next lookup takes that pair for a valid cache. Apart from this the cache
is sound: `correct_iff_notStale` says exactly when a lookup answers right, and the run theorem carries it to every history.
-/

namespace Minicomps

open Transition

namespace MonoRef

/-- A run of a world and one reference to the message, looked up by `owner`. -/
abbrev step (kind : QueryKind) (id : MessageId) (owner : ComponentId) :
    RefState MonoRef → RefAction → Option (RefState MonoRef) :=
  RefState.step fun lost w r => some (lookup kind id owner lost w r)

/-- A new reference in a new world. -/
def init (component : ComponentId → Component) (others : ComponentId → Nat) : RefState MonoRef :=
  ⟨World.new component others, {}⟩

/-- What is asked of a lookup: it answers what a fresh resolution finds, before the lookup and after it alike; and when that is
a handler, the reference's accessors describe its component. -/
def Correct (kind : QueryKind) (id : MessageId) (owner : ComponentId) (s : RefState MonoRef) : RefAction → Prop
  | .world _ => True
  | .lookup lost =>
    let (answer, r, w) := lookup kind id owner lost s.world s.ref
    w.resolve kind id owner = s.world.resolve kind id owner ∧
      answer = (s.world.resolve kind id owner).map Resolution.handler ∧
      ∀ res, s.world.resolve kind id owner = some res → r.Describes res

/-- The cache is taken for valid, but the list it belongs to does not hold exactly one live component. -/
def Stale (id : MessageId) (s : RefState MonoRef) : Prop :=
  s.ref.handler.isSome = true ∧ s.world.expired s.ref.receivers = false ∧ ¬s.world.SoleLive id

/-- No lookup is made on a stale cache. -/
def NotStale (id : MessageId) (s : RefState MonoRef) : RefAction → Prop
  | .world _ => True
  | .lookup _ => ¬Stale id s

/-- What holds of a reference and its world in every history. -/
structure Sound (kind : QueryKind) (id : MessageId) (owner : ComponentId) (s : RefState MonoRef) : Prop where
  holds : s.world.Holds s.ref.receiver
  handle : ∀ l, s.ref.receivers = some l → s.world.HandleOf id l
  /-- A cache that passes for valid is right whenever the list holds exactly one live component. -/
  coherent : s.ref.handler.isSome = true → s.world.expired s.ref.receivers = false → s.world.SoleLive id →
    ∃ res, s.world.resolve kind id owner = some res ∧ s.ref.Describes res

end MonoRef

namespace MonoRefAux

open MonoRef World

variable {kind : QueryKind} {id : MessageId} {owner : ComponentId}

theorem asks_lookupHandler : Asks kind.lookupHandler id := by
  intro a b h
  cases kind with
  | sync => exact h.syncHandlers
  | async => exact h.asyncHandlers

theorem resolve_of_receivers {w : World} {c : ComponentId} (h : w.broker.receivers id = [c]) (hc : w.alive c = true) :
    w.resolve kind id owner = (kind.lookupHandler (w.component c) id).map fun h =>
      { receiver := c
        handler := h
        executor := w.handlerExecutor c id
        mutualExecutor := decide ((w.component owner).defaultExecutor = w.handlerExecutor c id) } := by
  rw [resolve, sole_of_receivers h hc, Option.map_map]
  rfl

theorem resolve_eq_none {w : World} (h : ¬w.SoleLive id) : w.resolve kind id owner = none := by
  rw [resolve, sole_eq_none h]
  rfl

/-- Two worlds that find the same component, with the same tables under the message, resolve the same. -/
theorem resolve_congr {w w' : World} (hsole : w'.sole kind.lookupHandler id = w.sole kind.lookupHandler id)
    (howner : (w'.component owner).defaultExecutor = (w.component owner).defaultExecutor)
    (hsame : ∀ c, w.broker.receivers id = [c] → (w.component c).SameAt id (w'.component c)) :
    w'.resolve kind id owner = w.resolve kind id owner := by
  rw [resolve, resolve, hsole]
  cases h : w.sole kind.lookupHandler id with
  | none => rfl
  | some x =>
    obtain ⟨c, x⟩ := x
    have hc := hsame c (sole_eq_some h).1
    simp only [Option.map_some, handlerExecutor, Component.lookupExecutorOverride, hc.asyncExecutorOverrides,
      hc.defaultExecutor, howner]
    rfl

/-! ## Resolving again -/

/-- What resolving again does, whichever way it returns. -/
structure Refetched (kind : QueryKind) (id : MessageId) (owner : ComponentId) (w : World)
    (out : Option HandlerId × MonoRef × World) : Prop where
  holds : out.2.2.Holds out.2.1.receiver
  handle : ∀ l, out.2.1.receivers = some l → out.2.2.HandleOf id l
  resolve : out.2.2.resolve kind id owner = w.resolve kind id owner
  answer : out.1 = (w.resolve kind id owner).map Resolution.handler
  describes : ∀ res, w.resolve kind id owner = some res → out.2.1.Describes res
  /-- A handler left over from before stands next to a list that is not one live component. -/
  leftOver : w.resolve kind id owner = none → out.2.1.handler.isSome = true → ¬out.2.2.SoleLive id

theorem refetched (kind : QueryKind) (id : MessageId) (owner : ComponentId) (lost : ComponentId → List ComponentId)
    {w : World} {r : MonoRef} (hholds : w.Holds r.receiver) :
    Refetched kind id owner w (refetch kind id owner lost w r) := by
  have hf : w.Fetches id (w.fetchReceiver id lost r.receiver) := fetches lost hholds
  obtain ⟨f, hfetch⟩ : ∃ f, w.fetchReceiver id lost r.receiver = f := ⟨_, rfl⟩
  rw [hfetch] at hf
  have hsole : f.world.sole kind.lookupHandler id = w.sole kind.lookupHandler id := hf.sole_eq asks_lookupHandler
  have hresolve : f.world.resolve kind id owner = w.resolve kind id owner :=
    resolve_congr hsole (hf.drops.sameAt id owner).defaultExecutor fun c _ => hf.drops.sameAt id c
  have hhandle : ∀ l, some f.receivers = some l → f.world.HandleOf id l := by
    intro l hl
    obtain rfl := Option.some.inj hl
    exact hf.handleOf
  simp only [refetch, hfetch]
  cases hfound : f.found with
  | none =>
    -- not exactly one entry, or one that cannot be locked: the old handler stays
    have hnone : w.resolve kind id owner = none := resolve_eq_none (hf.none_before hfound)
    exact ⟨hf.holds, hhandle, hresolve, by rw [hnone]; rfl, by simp [hnone], fun _ _ => hf.none_after hfound⟩
  | some c =>
    have hfresh := hresolve.symm.trans (resolve_of_receivers (hf.after c hfound).1 (hf.after c hfound).2)
    cases hh : kind.lookupHandler (f.world.component c) id with
    | none =>
      simp only [hh]
      rw [hh] at hfresh
      exact ⟨hf.holds, hhandle, hresolve, by rw [hfresh]; rfl, by simp [hfresh], nofun⟩
    | some h =>
      simp only [hh]
      rw [hh] at hfresh
      refine ⟨hf.holds, hhandle, hresolve, by rw [hfresh]; rfl, ?_, by simp [hfresh]⟩
      intro res hr
      obtain rfl := Option.some.inj (hfresh.symm.trans hr)
      exact ⟨rfl, hf.receiver c hfound, rfl, rfl⟩

/-! ## The invariant -/

theorem sound_init (component : ComponentId → Component) (others : ComponentId → Nat) :
    Sound kind id owner (init component others) :=
  ⟨fun _ => rfl, nofun, nofun⟩

/-- A cache that is coherent stays so while the message keeps its list. -/
theorem sound_of_frame {s : RefState MonoRef} {w : World} (h : Sound kind id owner s) (hf : Frame id s.world w)
    (hcached : w.cached = s.world.cached) : Sound kind id owner { s with world := w } where
  holds c := by rw [hcached]; exact h.holds c
  handle l hl := (h.handle l hl).extends_ hf.extends_
  coherent hhandler hvalid hsole := by
    cases hl : s.ref.receivers with
    | none =>
      simp only [hl] at hvalid
      cases hvalid
    | some l =>
      simp only [hl] at hvalid
      obtain ⟨hvalid₀, hfind, hfind', -⟩ := (h.handle l hl).valid_of_frame hf hvalid
      obtain ⟨hsole₀, heq⟩ := hf.sole_eq asks_lookupHandler (h.handle l hl) hvalid hsole
      obtain ⟨res, hres, hdesc⟩ := h.coherent hhandler (hl ▸ hvalid₀) hsole₀
      refine ⟨res, ?_, hdesc⟩
      rw [← hres]
      exact resolve_congr heq (hf.defaultExecutor owner) fun c _ => hf.sameAt l hfind hfind' c

/-- The state resolving again leaves. -/
theorem sound_of_refetched {w : World} {out : Option HandlerId × MonoRef × World} (h : Refetched kind id owner w out) :
    Sound kind id owner ⟨out.2.2, out.2.1⟩ := by
  refine ⟨h.holds, h.handle, ?_⟩
  intro hhandler hvalid hsole
  cases hres : w.resolve kind id owner with
  | some res => exact ⟨res, h.resolve.trans hres, h.describes res hres⟩
  | none => exact absurd hsole (h.leftOver hres hhandler)

theorem sound_step {s s' : RefState MonoRef} {a : RefAction} (h : Sound kind id owner s)
    (hs : step kind id owner s a = some s') : Sound kind id owner s' := by
  cases a with
  | world op =>
    obtain ⟨w, hw, rfl⟩ := Option.map_eq_some_iff.mp hs
    exact sound_of_frame h (step_frame hw id) (step_cached hw)
  | lookup lost =>
    obtain rfl := Option.some.inj hs
    unfold lookup
    split
    · exact h
    · exact sound_of_refetched (refetched kind id owner lost h.holds)

/-- In a sound state, a lookup is right exactly when it is not made on a stale cache. -/
theorem correct_iff_notStale {s : RefState MonoRef} {a : RefAction} (h : Sound kind id owner s) :
    Correct kind id owner s a ↔ NotStale id s a := by
  cases a with
  | world op => exact Iff.rfl
  | lookup lost =>
    simp only [Correct, NotStale, Stale, lookup]
    by_cases hhit : (s.ref.handler.isSome && !s.world.expired s.ref.receivers) = true
    · rw [if_pos hhit]
      simp only [Bool.and_eq_true, Bool.not_eq_true'] at hhit
      obtain ⟨hhandler, hvalid⟩ := hhit
      constructor
      · rintro ⟨-, hanswer, -⟩ ⟨-, -, hnot⟩
        rw [resolve_eq_none hnot] at hanswer
        have hgone : s.ref.handler = none := hanswer
        rw [hgone] at hhandler
        cases hhandler
      · intro hfine
        have hsole : s.world.SoleLive id := by
          by_contra hnot
          exact hfine ⟨hhandler, hvalid, hnot⟩
        obtain ⟨res, hres, hdesc⟩ := h.coherent hhandler hvalid hsole
        refine ⟨rfl, by rw [hres, hdesc.handler]; rfl, ?_⟩
        intro res' hres'
        obtain rfl := Option.some.inj (hres.symm.trans hres')
        exact hdesc
    · rw [if_neg hhit]
      have hout := refetched kind id owner lost h.holds
      simp only [Bool.and_eq_true, Bool.not_eq_true'] at hhit
      exact ⟨fun _ ⟨hhandler, hvalid, _⟩ => hhit ⟨hhandler, hvalid⟩, fun _ => ⟨hout.resolve, hout.answer, hout.describes⟩⟩

end MonoRefAux

open MonoRef MonoRefAux

/-- Every lookup of a run answers what a fresh resolution finds if and only if none of them is made while the reference's
handler is set, its handle has not expired, and the broker's list for the message does not hold exactly one live component.
In particular the answer depends on the world alone, not on how many lookups came before. -/
theorem monoRef_correct_iff (kind : QueryKind) (id : MessageId) (owner : ComponentId)
    (component : ComponentId → Component) (others : ComponentId → Nat) (acts : List RefAction) :
    AllSteps (step kind id owner) (Correct kind id owner) (init component others) acts ↔
      AllSteps (step kind id owner) (NotStale id) (init component others) acts :=
  allSteps_congr (fun _ _ _ => sound_step) (fun _ _ => correct_iff_notStale) (sound_init component others)

/-- A run on which the condition fails: a component publishes a query, the reference resolves it, the component unpublishes,
and the reference looks the query up twice. The first of these lookups answers rightly that there is no receiver and leaves the
old handler next to the new list; the second returns that handler. -/
def staleRun : List RefAction :=
  [.world (.publishSyncQuery 1 7 70), .world (.publishDependencies 1), .lookup fun _ => [], .world (.unpublishDependencies 1),
    .lookup fun _ => [], .lookup fun _ => []]

/-- Not every lookup of every run answers what a fresh resolution finds. -/
theorem monoRef_stale_lookup :
    ¬∀ acts, AllSteps (step .sync 7 0) (Correct .sync 7 0)
      (init (fun c => { defaultExecutor := c }) (fun _ => 1)) acts := by
  intro h
  have hlast := allSteps_iff.mp (h staleRun) (staleRun.take 5) (.lookup fun _ => []) []
  obtain ⟨s, hs⟩ : ∃ s, run (step .sync 7 0) (init (fun c => { defaultExecutor := c }) (fun _ => 1))
      (staleRun.take 5) = some s := ⟨_, rfl⟩
  obtain ⟨-, hanswer, -⟩ := hlast s rfl hs
  obtain rfl := Option.some.inj hs
  revert hanswer
  decide

end Minicomps
