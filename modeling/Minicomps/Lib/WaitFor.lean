import Minicomps.Lib.Acyclic
import Minicomps.Lib.Transition

/-!
# Agents that wait for one another

Agents of a system wait for others to come to rest. Where an agent that waits for nobody can be brought to rest without a change to
the others, all of them can be, one after another, as long as nobody waits in a circle; and where nobody that waits for somebody who
waits stops waiting, a circle is for good.
-/

namespace WaitFor

open Transition Acyclic

variable {σ α θ : Type*} {step : σ → α → Option σ} {rests : σ → θ → Prop} {waitsFor : σ → θ → θ → Prop} {s s' : σ}

/-- The agent has come to rest. Whoever rested still does, and nobody waits who did not wait before. -/
structure RestsAlone (rests : σ → θ → Prop) (waitsFor : σ → θ → θ → Prop) (s s' : σ) (t : θ) : Prop where
  self : rests s' t
  others : ∀ u, rests s u → rests s' u
  waits : ∀ u v, waitsFor s' u v → waitsFor s u v

/-- Some run leads to a state where everybody rests. -/
def ComesToRest (step : σ → α → Option σ) (rests : σ → θ → Prop) (s : σ) : Prop :=
  ∃ acts s', run step s acts = some s' ∧ ∀ t, rests s' t

theorem noCycle_flip {r : θ → θ → Prop} (h : NoCycle r) : NoCycle (flip r) := by
  intro x hx
  exact h x (Relation.transGen_swap.mp hx)

/-- Those on the list are all that do not rest. They are brought to rest in an order in which nobody waits for those that are left. -/
theorem comesToRest_of_noCycle {P : σ → Prop} (hstep : ∀ s a s', P s → step s a = some s' → P s')
    (halone : ∀ s t, P s → (∀ u, ¬waitsFor s t u) → ∃ acts s', run step s acts = some s' ∧ RestsAlone rests waitsFor s s' t)
    (hwaits : ∀ s t u, P s → waitsFor s t u → ¬rests s u)
    {l : List θ} (hs : P s) (hl : ∀ t, rests s t ∨ t ∈ l) (h : NoCycle (waitsFor s)) : ComesToRest step rests s := by
  classical
  induction hlength : l.length generalizing l s with
  | zero =>
    obtain rfl := List.length_eq_zero_iff.mp hlength
    exact ⟨[], s, rfl, fun t => (hl t).resolve_right List.not_mem_nil⟩
  | succ n ih =>
    have hne : l ≠ [] := List.ne_nil_of_length_eq_add_one hlength
    obtain ⟨t, ht, hnobody⟩ := (noCycle_flip h).exists_source hne
    have hfree : ∀ u, ¬waitsFor s t u := by
      intro u htu
      exact hnobody u ((hl u).resolve_left (hwaits s t u hs htu)) htu
    obtain ⟨acts, s', hrun, hrest⟩ := halone s t hs hfree
    have hs' : P s' := run_invariant hstep hs hrun
    have hl' : ∀ u, rests s' u ∨ u ∈ l.erase t := by
      intro u
      by_cases hu : u = t
      · exact Or.inl (hu ▸ hrest.self)
      · exact (hl u).imp (hrest.others u) fun hmem => (List.mem_erase_of_ne hu).mpr hmem
    have hlength' : (l.erase t).length = n := by rw [List.length_erase_of_mem ht, hlength, Nat.add_sub_cancel]
    obtain ⟨acts', s'', hrun', hall⟩ := ih hs' hl' (h.mono hrest.waits) hlength'
    refine ⟨acts ++ acts', s'', ?_, hall⟩
    rw [run_append, hrun, Option.bind_some, hrun']

/-- On a circle everybody waits for somebody who waits. -/
theorem transGen_waiting {r : θ → θ → Prop} {x y : θ} (h : Relation.TransGen r x y) (hy : ∃ z, r y z) :
    Relation.TransGen (fun t u => r t u ∧ ∃ v, r u v) x y := by
  induction h with
  | single hxy => exact Relation.TransGen.single ⟨hxy, hy⟩
  | tail _ hyz ih => exact (ih ⟨_, hyz⟩).tail ⟨hyz, hy⟩

/-- A circle stays. -/
theorem cycle_step {t : θ} (hstays : ∀ t u v, waitsFor s t u → waitsFor s u v → waitsFor s' t u)
    (h : Relation.TransGen (waitsFor s) t t) : Relation.TransGen (waitsFor s') t t := by
  obtain ⟨u, htu, -⟩ := Relation.TransGen.head'_iff.mp h
  refine Relation.TransGen.mono ?_ _ _ (transGen_waiting h ⟨u, htu⟩)
  rintro x y ⟨hxy, z, hyz⟩
  exact hstays x y z hxy hyz

/-- Everybody can be brought to rest exactly as long as nobody waits in a circle. -/
theorem comesToRest_iff {P : σ → Prop} (hstep : ∀ s a s', P s → step s a = some s' → P s')
    (halone : ∀ s t, P s → (∀ u, ¬waitsFor s t u) → ∃ acts s', run step s acts = some s' ∧ RestsAlone rests waitsFor s s' t)
    (hwaits : ∀ s t u, P s → waitsFor s t u → ¬rests s t ∧ ¬rests s u)
    (hstays : ∀ s a s', P s → step s a = some s' → ∀ t u v, waitsFor s t u → waitsFor s u v → waitsFor s' t u)
    {l : List θ} (hs : P s) (hl : ∀ t, rests s t ∨ t ∈ l) : ComesToRest step rests s ↔ NoCycle (waitsFor s) := by
  constructor
  · rintro ⟨acts, s', hrun, hall⟩ t hcycle
    have hinv : P s' ∧ Relation.TransGen (waitsFor s') t t :=
      run_invariant (P := fun s => P s ∧ Relation.TransGen (waitsFor s) t t)
        (fun s a s' h h1 => ⟨hstep s a s' h.1 h1, cycle_step (hstays s a s' h.1 h1) h.2⟩) ⟨hs, hcycle⟩ hrun
    obtain ⟨u, htu, -⟩ := Relation.TransGen.head'_iff.mp hinv.2
    exact (hwaits s' t u hinv.1 htu).1 (hall t)
  · exact fun h => comesToRest_of_noCycle hstep halone (fun s t u hs htu => (hwaits s t u hs htu).2) hs hl h

end WaitFor
