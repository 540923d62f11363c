import Mathlib.Data.List.Basic
import Mathlib.Data.List.Induction
import Mathlib.Tactic.Common

/-!
# Runs of a partial step function

A system is a function `step : σ → α → Option σ`: what an action does to a state, `none` where the action cannot be taken there
or ends the program. `run` takes a list of actions one after another. The rules below are the ones a proof about every run
needs: an invariant is carried along a run, a condition on each step is read at any point of the run or weighed against the
states it passes through, and a simulation of one system by another lifts from a step to a run.
-/

namespace Transition

variable {σ τ α β : Type*}

/-- The state a list of actions leads to, `none` when one of them cannot be taken. -/
def run (step : σ → α → Option σ) : σ → List α → Option σ
  | s, [] => some s
  | s, a :: acts => (step s a).bind (fun s' => run step s' acts)

section Runs

variable {step : σ → α → Option σ}

@[simp] theorem run_nil (s : σ) : run step s [] = some s := rfl

theorem run_cons (s : σ) (a : α) (acts : List α) :
    run step s (a :: acts) = (step s a).bind (fun s' => run step s' acts) := rfl

/-- A run that starts with an action: the action can be taken, and the rest runs from where it leads. -/
theorem run_cons_some {s t : σ} {a : α} {acts : List α} (h : run step s (a :: acts) = some t) :
    ∃ s', step s a = some s' ∧ run step s' acts = some t :=
  Option.bind_eq_some_iff.mp h

theorem run_append (s : σ) (acts acts' : List α) :
    run step s (acts ++ acts') = (run step s acts).bind (fun t => run step t acts') := by
  induction acts generalizing s with
  | nil => rfl
  | cons a acts ih =>
    rw [List.cons_append, run_cons, run_cons]
    cases step s a with
    | none => rfl
    | some s' => exact ih s'

/-- What one step preserves, a run preserves. -/
theorem run_invariant {P : σ → Prop} (hstep : ∀ s a s', P s → step s a = some s' → P s') {s t : σ} {acts : List α}
    (hs : P s) (h : run step s acts = some t) : P t := by
  induction acts generalizing s with
  | nil => exact Option.some.inj h ▸ hs
  | cons a acts ih =>
    obtain ⟨s', h1, h2⟩ := run_cons_some h
    exact ih (hstep s a s' hs h1) h2

/-- An invariant of the state together with the actions that have led to it. -/
theorem run_invariant_history {P : List α → σ → Prop} (hstep : ∀ acts s a s', P acts s → step s a = some s' → P (acts ++ [a]) s')
    {s t : σ} (hs : P [] s) {acts : List α} (h : run step s acts = some t) : P acts t := by
  induction acts using List.reverseRecOn generalizing t with
  | nil => exact Option.some.inj h ▸ hs
  | append_singleton acts a ih =>
    rw [run_append] at h
    obtain ⟨u, hu, hlast⟩ := Option.bind_eq_some_iff.mp h
    obtain ⟨t', ht', hnil⟩ := run_cons_some hlast
    exact Option.some.inj hnil ▸ hstep acts u a t' (ih hu) ht'

/-- A relation that is reflexive and transitive, and relates the two ends of each step, relates the two ends of each run. -/
theorem run_relates {R : σ → σ → Prop} (hrefl : ∀ s, R s s) (htrans : ∀ s t u, R s t → R t u → R s u)
    (hstep : ∀ s a s', step s a = some s' → R s s') {s t : σ} {acts : List α} (h : run step s acts = some t) : R s t := by
  induction acts generalizing s with
  | nil => exact Option.some.inj h ▸ hrefl s
  | cons a acts ih =>
    obtain ⟨s', h1, h2⟩ := run_cons_some h
    exact htrans s s' t (hstep s a s' h1) (ih h2)

end Runs

/-! ## Conditions on the steps of a run -/

/-- Every action of the list is taken in a state that meets the condition `C` for it, as far as the run goes. -/
def AllSteps (step : σ → α → Option σ) (C : σ → α → Prop) : σ → List α → Prop
  | _, [] => True
  | s, a :: acts => C s a ∧ ∀ s', step s a = some s' → AllSteps step C s' acts

section AllSteps

variable {step : σ → α → Option σ} {C D : σ → α → Prop}

/-- The first action of a list and what follows where it can be taken. -/
theorem allSteps_cons_iff {s : σ} {a : α} {acts : List α} :
    AllSteps step C s (a :: acts) ↔ C s a ∧ match step s a with
      | some s' => AllSteps step C s' acts
      | none => True := by
  cases h : step s a <;> simp [AllSteps, h]

instance [∀ s a, Decidable (C s a)] : ∀ s acts, Decidable (AllSteps step C s acts)
  | _, [] => isTrue trivial
  | s, a :: acts =>
    have : Decidable (match step s a with
      | some s' => AllSteps step C s' acts
      | none => True) :=
      match step s a with
      | some s' => instDecidableAllSteps s' acts
      | none => isTrue trivial
    decidable_of_iff' _ allSteps_cons_iff

/-- `AllSteps`, read at any point of the run. -/
theorem allSteps_iff {s : σ} {acts : List α} :
    AllSteps step C s acts ↔
      ∀ pre a post t, acts = pre ++ a :: post → run step s pre = some t → C t a := by
  induction acts generalizing s with
  | nil => simp [AllSteps]
  | cons b acts ih =>
    constructor
    · rintro ⟨hb, hrest⟩ pre a post t hacts hrun
      cases pre with
      | nil =>
        obtain ⟨rfl, -⟩ := List.cons.inj hacts
        exact Option.some.inj hrun ▸ hb
      | cons c pre =>
        obtain ⟨rfl, htail⟩ := List.cons.inj hacts
        obtain ⟨s', h1, h2⟩ := run_cons_some hrun
        exact ih.mp (hrest s' h1) pre a post t htail h2
    · intro h
      refine ⟨h [] b acts s rfl rfl, fun s' hs' => ih.mpr ?_⟩
      intro pre a post t hacts hrun
      refine h (b :: pre) a post t (by rw [hacts, List.cons_append]) ?_
      rw [run_cons, hs', Option.bind_some, hrun]

/-- The steps of a run, and those that follow it. -/
theorem allSteps_append_iff {s t : σ} {acts acts' : List α} (h : run step s acts = some t) :
    AllSteps step C s (acts ++ acts') ↔ AllSteps step C s acts ∧ AllSteps step C t acts' := by
  induction acts generalizing s with
  | nil =>
    obtain rfl := Option.some.inj h
    exact ⟨fun hC => ⟨trivial, hC⟩, And.right⟩
  | cons a acts ih =>
    obtain ⟨s', h1, h2⟩ := run_cons_some h
    constructor
    · rintro ⟨ha, hrest⟩
      obtain ⟨hfirst, hlast⟩ := (ih h2).mp (hrest s' h1)
      exact ⟨⟨ha, fun u hu => Option.some.inj (h1.symm.trans hu) ▸ hfirst⟩, hlast⟩
    · rintro ⟨⟨ha, hfirst⟩, hlast⟩
      exact ⟨ha, fun u hu => Option.some.inj (h1.symm.trans hu) ▸ (ih h2).mpr ⟨hfirst s' h1, hlast⟩⟩

/-- What a step that meets the condition preserves, a run whose steps all meet it preserves. -/
theorem AllSteps.run_invariant {P : σ → Prop} (hstep : ∀ s a s', P s → C s a → step s a = some s' → P s')
    {s t : σ} {acts : List α} (hs : P s) (hC : AllSteps step C s acts) (h : run step s acts = some t) : P t := by
  induction acts generalizing s with
  | nil => exact Option.some.inj h ▸ hs
  | cons a acts ih =>
    obtain ⟨s', h1, h2⟩ := run_cons_some h
    exact ih (hstep s a s' hs hC.1 h1) (hC.2 s' h1) h2

/-- A condition that follows from another one wherever an invariant holds, which the steps that meet the other one keep. -/
theorem AllSteps.imp {P : σ → Prop} (hstep : ∀ s a s', P s → C s a → step s a = some s' → P s')
    (hCD : ∀ s a, P s → C s a → D s a) {s : σ} {acts : List α} (hs : P s) (hC : AllSteps step C s acts) :
    AllSteps step D s acts := by
  induction acts generalizing s with
  | nil => trivial
  | cons a acts ih =>
    exact ⟨hCD s a hs hC.1, fun s' hs' => ih (hstep s a s' hs hC.1 hs') (hC.2 s' hs')⟩

/-- A condition that an invariant implies is met by every run from a state where the invariant holds. -/
theorem allSteps_of_invariant {P : σ → Prop} (hstep : ∀ s a s', P s → step s a = some s' → P s')
    (hPC : ∀ s a, P s → C s a) {s : σ} {acts : List α} (hs : P s) : AllSteps step C s acts := by
  induction acts generalizing s with
  | nil => trivial
  | cons a acts ih => exact ⟨hPC s a hs, fun s' hs' => ih (hstep s a s' hs hs')⟩

/-- Two conditions that agree wherever an invariant holds, which the steps that meet the second one keep, are met by the same runs from a
state where it holds. -/
theorem allSteps_congr_of {P : σ → Prop} (hstep : ∀ s a s', P s → D s a → step s a = some s' → P s')
    (hCD : ∀ s a, P s → (C s a ↔ D s a)) {s : σ} {acts : List α} (hs : P s) :
    AllSteps step C s acts ↔ AllSteps step D s acts := by
  induction acts generalizing s with
  | nil => exact Iff.rfl
  | cons a acts ih =>
    constructor
    · rintro ⟨ha, hrest⟩
      have hD := (hCD s a hs).mp ha
      exact ⟨hD, fun s' hs' => (ih (hstep s a s' hs hD hs')).mp (hrest s' hs')⟩
    · rintro ⟨ha, hrest⟩
      exact ⟨(hCD s a hs).mpr ha, fun s' hs' => (ih (hstep s a s' hs ha hs')).mpr (hrest s' hs')⟩

/-- Two conditions that agree wherever an invariant holds are met by the same runs from a state where it holds. -/
theorem allSteps_congr {P : σ → Prop} (hstep : ∀ s a s', P s → step s a = some s' → P s')
    (hCD : ∀ s a, P s → (C s a ↔ D s a)) {s : σ} {acts : List α} (hs : P s) :
    AllSteps step C s acts ↔ AllSteps step D s acts :=
  allSteps_congr_of (fun s a s' hP _ h1 => hstep s a s' hP h1) hCD hs

/-- Where a step that meets the condition keeps an invariant, which implies that the state is safe, and any other step leads to an
unsafe state, the steps of a run meet the condition exactly when all states it passes through are safe. -/
theorem allSteps_iff_safe {P Safe : σ → Prop} (hsafe : ∀ s, P s → Safe s)
    (hstep : ∀ s a s', P s → C s a → step s a = some s' → P s')
    (hbad : ∀ s a, P s → ¬C s a → ∃ s', step s a = some s' ∧ ¬Safe s') {s : σ} {acts : List α} (hs : P s) :
    AllSteps step C s acts ↔ ∀ pre t, pre <+: acts → run step s pre = some t → Safe t := by
  induction acts generalizing s with
  | nil =>
    refine ⟨?_, fun _ => trivial⟩
    intro _ pre t hpre hrun
    rw [List.prefix_nil.mp hpre] at hrun
    exact Option.some.inj hrun ▸ hsafe s hs
  | cons a acts ih =>
    constructor
    · rintro ⟨ha, hrest⟩ pre t hpre hrun
      rcases List.prefix_cons_iff.mp hpre with rfl | ⟨pre, rfl, hpre'⟩
      · exact Option.some.inj hrun ▸ hsafe s hs
      · obtain ⟨s', h1, h2⟩ := run_cons_some hrun
        exact (ih (hstep s a s' hs ha h1)).mp (hrest s' h1) pre t hpre' h2
    · intro h
      have ha : C s a := by
        by_contra hna
        obtain ⟨s', h1, h2⟩ := hbad s a hs hna
        refine h2 (h [a] s' (List.prefix_cons_inj a |>.mpr (List.nil_prefix)) ?_)
        rw [run_cons, h1]
        rfl
      refine ⟨ha, fun s' h1 => (ih (hstep s a s' hs ha h1)).mpr ?_⟩
      intro pre t hpre hrun
      refine h (a :: pre) t (List.prefix_cons_inj a |>.mpr hpre) ?_
      rw [run_cons, h1, Option.bind_some, hrun]

end AllSteps

/-! ## Simulation -/

/-- `R` is a simulation: each step of the first system, on an action, is matched by the second on the action's image. -/
def Simulates (step : σ → α → Option σ) (step' : τ → β → Option τ) (f : α → β) (R : σ → τ → Prop) : Prop :=
  ∀ s u a s', R s u → step s a = some s' → ∃ u', step' u (f a) = some u' ∧ R s' u'

/-- A simulation of steps is a simulation of runs. -/
theorem Simulates.run {step : σ → α → Option σ} {step' : τ → β → Option τ} {f : α → β} {R : σ → τ → Prop}
    (hR : Simulates step step' f R) {s t : σ} {u : τ} {acts : List α} (hs : R s u) (h : run step s acts = some t) :
    ∃ v, Transition.run step' u (acts.map f) = some v ∧ R t v := by
  induction acts generalizing s u with
  | nil => exact ⟨u, rfl, Option.some.inj h ▸ hs⟩
  | cons a acts ih =>
    obtain ⟨s', h1, h2⟩ := run_cons_some h
    obtain ⟨u', h3, h4⟩ := hR s u a s' hs h1
    obtain ⟨v, h5, h6⟩ := ih h4 h2
    refine ⟨v, ?_, h6⟩
    rw [List.map_cons, run_cons, h3, Option.bind_some, h5]

/-- Where each step of the first system is a step of the second or changes nothing there, whatever the first comes to, so does the second. -/
theorem exists_run_of_steps {step : σ → α → Option σ} {step' : τ → β → Option τ} {f : σ → τ} {P : σ → Prop}
    (hP : ∀ s a s', P s → step s a = some s' → P s')
    (hmatch : ∀ s a s', P s → step s a = some s' → f s' = f s ∨ ∃ b, step' (f s) b = some (f s')) {s t : σ} {acts : List α} (hs : P s)
    (h : run step s acts = some t) : ∃ acts', Transition.run step' (f s) acts' = some (f t) := by
  induction acts generalizing s with
  | nil => exact ⟨[], congrArg (fun u => some (f u)) (Option.some.inj h)⟩
  | cons a acts ih =>
    obtain ⟨s', h1, h2⟩ := run_cons_some h
    obtain ⟨acts', hrun⟩ := ih (hP s a s' hs h1) h2
    rcases hmatch s a s' hs h1 with hsame | ⟨b, hb⟩
    · exact ⟨acts', hsame ▸ hrun⟩
    · refine ⟨b :: acts', ?_⟩
      rw [run_cons, hb, Option.bind_some, hrun]

/-! ## Two systems in step -/

theorem rel_cases {R : σ → τ → Prop} {x : Option σ} {y : Option τ} (h : Option.Rel R x y) :
    (x = none ∧ y = none) ∨ ∃ s u, x = some s ∧ y = some u ∧ R s u := by
  cases h with
  | none => exact Or.inl ⟨rfl, rfl⟩
  | some h => exact Or.inr ⟨_, _, rfl, rfl, h⟩

/-- Where a step that meets the condition keeps two related systems related, and any other step is seen to differ, the two look the same
after every part of a run exactly when its steps meet the condition. -/
theorem lockstep_iff {ω : Type*} {step : σ → α → Option σ} {step' : τ → α → Option τ} {obs : σ → ω} {obs' : τ → ω} {R : σ → τ → Prop}
    {C : σ → α → Prop} (hobs : ∀ s u, R s u → obs s = obs' u)
    (hstep : ∀ s u a, R s u → C s a → Option.Rel R (step s a) (step' u a))
    (hdiffer : ∀ s u a, R s u → ¬C s a → (step s a).map obs ≠ (step' u a).map obs') {s : σ} {u : τ} {acts : List α} (hs : R s u) :
    (∀ pre, pre <+: acts → (run step s pre).map obs = (run step' u pre).map obs') ↔ AllSteps step C s acts := by
  induction acts generalizing s u with
  | nil =>
    refine ⟨fun _ => trivial, fun _ pre hpre => ?_⟩
    obtain rfl := List.prefix_nil.mp hpre
    exact congrArg some (hobs s u hs)
  | cons a acts ih =>
    constructor
    · intro h
      have ha : C s a := by
        by_contra hna
        have hone := h [a] ((List.prefix_cons_inj a).mpr List.nil_prefix)
        simp only [run_cons, run_nil, Option.bind_fun_some] at hone
        exact hdiffer s u a hs hna hone
      refine ⟨ha, fun s' h1 => ?_⟩
      rcases rel_cases (hstep s u a hs ha) with ⟨hnone, -⟩ | ⟨s'', u', h1', h2, hs'⟩
      · exact absurd (h1.symm.trans hnone) (Option.some_ne_none s')
      · obtain rfl := Option.some.inj (h1.symm.trans h1')
        refine (ih hs').mp fun pre hpre => ?_
        have hmore := h (a :: pre) ((List.prefix_cons_inj a).mpr hpre)
        rwa [run_cons, run_cons, h1, h2, Option.bind_some, Option.bind_some] at hmore
    · rintro ⟨ha, hrest⟩ pre hpre
      rcases List.prefix_cons_iff.mp hpre with rfl | ⟨pre, rfl, hpre'⟩
      · exact congrArg some (hobs s u hs)
      rw [run_cons, run_cons]
      rcases rel_cases (hstep s u a hs ha) with ⟨h1, h2⟩ | ⟨s', u', h1, h2, hs'⟩
      · rw [h1, h2]
        rfl
      · rw [h1, h2]
        exact (ih hs').mpr (hrest s' h1) pre hpre'

end Transition
