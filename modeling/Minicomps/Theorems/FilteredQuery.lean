import Mathlib.Logic.Function.Iterate
import Minicomps.FilteredQuery
import Minicomps.Theorems.Answers

/-!
# When filters are transparent

Filters that let a call proceed are to be noticed by nobody. The arguments reach the handler as the filters leave them, and the result
reaches it as an object that delivers exactly if no filter has moved it.
-/

namespace Minicomps

open Transition

variable {α β : Type*}

namespace FilteredQueryAux

open CallState CallState.AnswerAux

variable {s t : CallState β}

/-- A call that was not answered yet: the result that is passed on has its lifetime and callback, or else has been moved. -/
structure Unanswered (lifetimes : Lifetimes) (moved : Prop) (s : CallState β) : Prop where
  intact : Intact s
  answers : s.answers = []
  callbackCalls : s.callbackCalls = []
  executor : s.executor = {}
  lifetimes_eq : s.lifetimes = lifetimes
  result : ∃ o, s.objects[0]? = some o ∧ (lifetimes.expiredOrEmpty o.lifetime = true ↔ moved)

variable {lifetimes : Lifetimes} {moved : Prop}

theorem Unanswered.imp {moved' : Prop} (h : Unanswered lifetimes moved s) (hiff : moved ↔ moved') : Unanswered lifetimes moved' s :=
  ⟨h.intact, h.answers, h.callbackCalls, h.executor, h.lifetimes_eq, h.result.imp fun _ ho => ⟨ho.1, ho.2.trans hiff⟩⟩

/-! ## What a filter does to the result -/

/-- A filter copies an object. -/
theorem copy_spec (h : Unanswered lifetimes moved s) {i : Nat} (hi : i < s.objects.length) :
    ∃ t, s.step (.copy i) = some t ∧ Unanswered lifetimes moved t ∧ i < t.objects.length := by
  have hstep : s.step (.copy i) = some { s with objects := s.objects ++ [s.objects[i]] } := by
    simp [CallState.step, List.getElem?_eq_getElem hi]
  refine ⟨_, hstep, ⟨intact_step h.intact hstep, h.answers, h.callbackCalls, h.executor, h.lifetimes_eq, ?_⟩, ?_⟩
  · obtain ⟨o, ho, hmoved⟩ := h.result
    exact ⟨o, (List.getElem?_append_left (by omega)).trans ho, hmoved⟩
  · rw [List.length_append]
    omega

/-- A filter moves from an object, which may be the one that is passed on. -/
theorem move_spec (h : Unanswered lifetimes moved s) {i : Nat} (hi : i < s.objects.length) :
    ∃ t, s.step (.move i) = some t ∧ Unanswered lifetimes (moved ∨ i = 0) t ∧ t.objects.length = s.objects.length + 1 := by
  have hstep : s.step (.move i) = some { s with objects := s.objects.set i .movedFrom ++ [s.objects[i]] } := by
    simp [CallState.step, List.getElem?_eq_getElem hi]
  refine ⟨_, hstep, ⟨intact_step h.intact hstep, h.answers, h.callbackCalls, h.executor, h.lifetimes_eq, ?_⟩, by simp⟩
  have hfront : (s.objects.set i .movedFrom ++ [s.objects[i]])[0]? = (s.objects.set i .movedFrom)[0]? :=
    List.getElem?_append_left (by rw [List.length_set]; omega)
  obtain ⟨o, ho, hmoved⟩ := h.result
  by_cases hzero : i = 0
  · subst hzero
    refine ⟨.movedFrom, hfront.trans ?_, by simp [ResultObject.movedFrom, Lifetimes.expiredOrEmpty]⟩
    rw [List.getElem?_set_self hi]
  · refine ⟨o, hfront.trans ?_, by simp [hmoved, hzero]⟩
    rw [List.getElem?_set_ne hzero, ho]

/-- A filter that does not answer uses the object at `i`. -/
theorem uses_spec {uses : List (ResultUse β)} (huses : ∀ value, .answer value ∉ uses) (h : Unanswered lifetimes moved s) {i : Nat}
    (hi : i < s.objects.length) :
    ∃ t, run CallState.step s (uses.map (ResultUse.action i)) = some t ∧ Unanswered lifetimes (moved ∨ i = 0 ∧ .move ∈ uses) t := by
  induction uses generalizing s moved with
  | nil => exact ⟨s, rfl, h.imp (by simp)⟩
  | cons use uses ih =>
    have hrest : ∀ value, .answer value ∉ uses := fun value hmem => huses value (List.mem_cons_of_mem use hmem)
    cases use with
    | answer value => exact absurd List.mem_cons_self (huses value)
    | copy =>
      obtain ⟨t, ht, hunanswered, hi'⟩ := copy_spec h hi
      obtain ⟨u, hu, hunanswered'⟩ := ih hrest hunanswered hi'
      refine ⟨u, ?_, hunanswered'.imp (by simp)⟩
      rw [List.map_cons, run_cons, ResultUse.action, ht]
      exact hu
    | move =>
      obtain ⟨t, ht, hunanswered, hlength⟩ := move_spec h hi
      obtain ⟨u, hu, hunanswered'⟩ := ih hrest hunanswered (by omega)
      refine ⟨u, ?_, hunanswered'.imp ?_⟩
      · rw [List.map_cons, run_cons, ResultUse.action, ht]
        exact hu
      · simp only [List.mem_cons, true_or, and_true]
        tauto

/-- A filter is called. -/
theorem useResult_spec {f : FilterFunction α β} {args : List α} (hf : f.Passes args) (h : Unanswered lifetimes moved s) :
    ∃ t, f.useResult args s = some t ∧ Unanswered lifetimes (moved ∨ f.movesResult args) t := by
  have hlength : 0 < s.objects.length := by
    obtain ⟨o, ho, -⟩ := h.result
    exact (List.getElem?_eq_some_iff.mp ho).1
  cases hresult : f.result with
  | byReference =>
    obtain ⟨t, ht, hunanswered⟩ := uses_spec hf.2 h hlength
    refine ⟨t, ?_, hunanswered.imp (by simp [FilterFunction.movesResult, hresult])⟩
    rw [FilterFunction.useResult, hresult]
    exact ht
  | byValue =>
    obtain ⟨t, ht, hunanswered, hlength'⟩ := move_spec h hlength
    obtain ⟨u, hu, hunanswered'⟩ := uses_spec hf.2 hunanswered (i := s.objects.length) (by omega)
    refine ⟨u, ?_, hunanswered'.imp (by simp [FilterFunction.movesResult, hresult])⟩
    rw [FilterFunction.useResult, hresult]
    simp only [ht, Option.bind_some]
    exact hu

/-- Where all filters pass, the handler is called with what they left. -/
theorem invoke_spec {movedFrom : Nat → α → α} {kinds : Nat → ArgumentKind} {h : AsyncHandler α β} {args : List α}
    (hpass : h.AllPass movedFrom kinds args) (hs : Unanswered lifetimes moved s) :
    ∃ c, h.invoke movedFrom kinds args s = some c ∧ c.handledWith = some (h.leave movedFrom kinds args) ∧
      Unanswered lifetimes (moved ∨ ¬h.KeepsResult movedFrom kinds args) c.call := by
  induction h generalizing args s moved with
  | handler => exact ⟨{ call := s, handledWith := some args }, rfl, rfl, hs.imp (by simp [AsyncHandler.KeepsResult])⟩
  | filter f previous ih =>
    obtain ⟨hf, hprevious⟩ := hpass
    obtain ⟨t, ht, hunanswered⟩ := useResult_spec hf hs
    obtain ⟨c, hc, hargs, hunanswered'⟩ := ih hprevious hunanswered
    refine ⟨c, ?_, hargs, hunanswered'.imp ?_⟩
    · rw [AsyncHandler.invoke, ht, Option.bind_some, if_pos hf.1]
      exact hc
    · rw [AsyncHandler.KeepsResult]
      tauto

/-! ## What is left of the arguments -/

theorem leave_filter {movedFrom : Nat → α → α} {kinds : Nat → ArgumentKind} {f : FilterFunction α β}
    (hf : ∀ args i v, (f.body args).leaves i v = v) (args : List α) :
    f.leave movedFrom kinds args =
      args.mapIdx fun i v => (movedFrom i)^[if kinds i ≠ .constReference ∧ f.arguments i = .byValue then 1 else 0] v := by
  refine congrArg (args.mapIdx ·) (funext fun i => funext fun v => ?_)
  cases hkind : kinds i <;> cases harg : f.arguments i <;> simp [hf]

/-- Filters that change nothing by themselves leave what so many moves leave. -/
theorem leave_eq (movedFrom : Nat → α → α) (kinds : Nat → ArgumentKind) {h : AsyncHandler α β} (honly : h.OnlyMoves)
    (args : List α) : h.leave movedFrom kinds args = args.mapIdx fun i v => (movedFrom i)^[h.moves kinds i] v := by
  induction h generalizing args with
  | handler => exact (List.ext_getElem? fun i => by simp [AsyncHandler.leave, AsyncHandler.moves]).symm
  | filter f previous ih =>
    rw [AsyncHandler.leave, ih honly.2, leave_filter honly.1, List.mapIdx_mapIdx]
    refine congrArg (args.mapIdx ·) (funext fun i => funext fun v => ?_)
    rw [Function.comp_apply, AsyncHandler.moves, Function.iterate_add_apply]

/-! ## What the result is good for -/

/-- The caller gets the answer if and only if the result has not been moved. -/
theorem delivers_iff [Inhabited β] (h : Unanswered lifetimes moved s) : s.Delivers ↔ ¬moved := by
  obtain ⟨o, ho, hmoved⟩ := h.result
  have hcalling : calling s = [] := by
    rw [calling_of_pending (by rw [h.executor]; rfl), h.callbackCalls]
  constructor
  · intro hdelivers hmoved'
    have hexpired : s.lifetimes.expiredOrEmpty o.lifetime = true := h.lifetimes_eq ▸ hmoved.mpr hmoved'
    obtain ⟨acts, u, hacts, hrun, hmem⟩ := hdelivers default
    obtain ⟨t, ht, -, hnothing, -⟩ := calling_answer h.intact (default : β) ho
    rw [run_cons, ht, Option.bind_some] at hrun
    obtain ⟨-, -, hsame⟩ := calling_run (intact_step h.intact ht) hacts hrun
    have hempty : calling u = [] := (hsame.trans (hnothing hexpired)).trans hcalling
    have hcalled : u.callbackCalls = [] := (List.append_eq_nil_iff.mp hempty).1
    rw [hcalled] at hmem
    cases hmem
  · intro hkept value
    have hlive : s.lifetimes.expiredOrEmpty o.lifetime = false := by
      rw [h.lifetimes_eq]
      exact Bool.eq_false_iff.mpr (mt hmoved.mp hkept)
    obtain ⟨t, ht, -, -, hadded⟩ := calling_answer h.intact value ho
    obtain ⟨acts, u, hacts, hrun, hcalls⟩ := drain (intact_step h.intact ht)
    refine ⟨acts, u, hacts, by rw [run_cons, ht]; exact hrun, ?_⟩
    rw [hcalls]
    exact (hadded hlive).mem_iff.mpr List.mem_cons_self

theorem unanswered_init (direct : Bool) (lifetimes : Lifetimes) (l : LifetimeId) :
    Unanswered lifetimes False (CallState.init direct lifetimes (lifetimes.createWeakPtr l) : CallState β) := by
  refine ⟨intact_init _ _ _, rfl, rfl, rfl, rfl, _, rfl, ?_⟩
  simp [Lifetimes.expiredOrEmpty, Lifetimes.expired, Lifetimes.createWeakPtr]

end FilteredQueryAux

open FilteredQueryAux

/-- Filters that change nothing by themselves leave equal arguments if each argument survives being moved into as many of them as take
it by value. -/
theorem AsyncHandler.leave_eq_self_iff (movedFrom : Nat → α → α) (kinds : Nat → ArgumentKind) {h : AsyncHandler α β}
    (honly : h.OnlyMoves) (args : List α) :
    h.leave movedFrom kinds args = args ↔ ∀ i v, args[i]? = some v → (movedFrom i)^[h.moves kinds i] v = v := by
  rw [leave_eq movedFrom kinds honly]
  constructor
  · intro hleft i v hv
    have hat : (args.mapIdx fun i v => (movedFrom i)^[h.moves kinds i] v)[i]? = args[i]? := by rw [hleft]
    rw [List.getElem?_mapIdx, hv] at hat
    exact Option.some.inj hat
  · intro hsurvives
    refine List.ext_getElem? fun i => ?_
    rw [List.getElem?_mapIdx]
    cases hv : args[i]? with
    | none => rfl
    | some v => exact congrArg some (hsurvives i v hv)

/-- Where every filter leaves `proceed` true without answering, the handler is called with the caller's arguments and a result that
delivers its answer if and only if the filters leave equal arguments and none moves the result. -/
theorem AsyncHandler.transparent_iff [Inhabited β] (movedFrom : Nat → α → α) (kinds : Nat → ArgumentKind) (h : AsyncHandler α β)
    (args : List α) (direct : Bool) (lifetimes : Lifetimes) (l : LifetimeId) (hpass : h.AllPass movedFrom kinds args) :
    h.Transparent movedFrom kinds args (CallState.init direct lifetimes (lifetimes.createWeakPtr l)) ↔
      h.leave movedFrom kinds args = args ∧ h.KeepsResult movedFrom kinds args := by
  obtain ⟨c, hc, hargs, hunanswered⟩ := invoke_spec hpass (unanswered_init direct lifetimes l)
  have hdelivers := delivers_iff hunanswered
  rw [false_or, not_not] at hdelivers
  constructor
  · rintro ⟨c', hc', hargs', hdelivers'⟩
    obtain rfl := Option.some.inj (hc.symm.trans hc')
    exact ⟨Option.some.inj (hargs.symm.trans hargs'), hdelivers.mp hdelivers'⟩
  · rintro ⟨hleft, hkept⟩
    exact ⟨c, hc, by rw [hargs, hleft], hdelivers.mpr hkept⟩

section Emptied

/-- A filter that lets every call proceed, with an argument that it takes so, and the result by reference. -/
private def lookingOn (passing : Passing) : FilterFunction String Nat where
  arguments _ := passing
  result := .byReference
  body _ := { proceed := true }

/-- A move empties a string. -/
private def emptied : Nat → String → String := fun _ _ => ""

/-- Where the filter takes the string by reference, the handler gets it, and its answer is delivered. -/
theorem AsyncHandler.transparent_lookingOn :
    (AsyncHandler.filter (lookingOn .byReference) .handler).Transparent emptied (fun _ => .value) ["key"]
      (CallState.init true (fun _ => 0) ⟨0, 0⟩) :=
  (AsyncHandler.transparent_iff emptied (fun _ => .value) (.filter (lookingOn .byReference) .handler) ["key"] true (fun _ => 0) 0
    ⟨⟨rfl, fun _ => List.not_mem_nil⟩, trivial⟩).mpr ⟨rfl, by simp [FilterFunction.movesResult, lookingOn], trivial⟩

/-- A filter that takes a string by value lets the call proceed and does not answer, but the handler gets an empty string. -/
theorem AsyncHandler.emptied_argument :
    ∃ h : AsyncHandler String Nat, AsyncHandler.prependAsyncQueryFilter (some .handler) (lookingOn .byValue) = some h ∧
      h.AllPass emptied (fun _ => .value) ["key"] ∧
        ¬h.Transparent emptied (fun _ => .value) ["key"] (CallState.init true (fun _ => 0) ⟨0, 0⟩) := by
  refine ⟨_, rfl, ⟨⟨rfl, fun _ => List.not_mem_nil⟩, trivial⟩, ?_⟩
  rintro ⟨c, hc, hargs, -⟩
  obtain rfl := Option.some.inj hc
  exact absurd hargs (by decide)

end Emptied

end Minicomps
