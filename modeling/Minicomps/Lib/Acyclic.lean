import Mathlib.Data.Set.Finite.Basic
import Mathlib.Logic.Relation
import Mathlib.Order.WellFounded

/-!
# Relations without cycles

A relation has no cycle when nothing is related to itself over one or more steps. Among finitely many things that all have a
predecessor among themselves there is a cycle, and a new pair makes a cycle only if it leads back to where it starts.
-/

namespace Acyclic

variable {α : Type*} {r r' : α → α → Prop}

/-- No path along the relation comes back to where it starts. -/
def NoCycle (r : α → α → Prop) : Prop := ∀ x, ¬Relation.TransGen r x x

/-- A relation within one that has no cycle has none. -/
theorem NoCycle.mono (h : NoCycle r) (hle : ∀ x y, r' x y → r x y) : NoCycle r' :=
  fun x hx => h x (Relation.TransGen.mono hle x x hx)

/-- Nobody in an empty relation is on a cycle. -/
theorem noCycle_of_empty (h : ∀ x y, ¬r x y) : NoCycle r := by
  intro x hx
  obtain ⟨y, hxy, -⟩ := Relation.TransGen.head'_iff.mp hx
  exact h x y hxy

/-- A relation along which something grows has no cycle. -/
theorem noCycle_of_lt {β : Type*} [Preorder β] (f : α → β) (h : ∀ x y, r x y → f x < f y) : NoCycle r := by
  have hlt : ∀ x y, Relation.TransGen r x y → f x < f y := by
    intro x y hxy
    induction hxy with
    | single hxy => exact h _ _ hxy
    | tail _ hyz ih => exact ih.trans (h _ _ hyz)
  exact fun x hx => lt_irrefl (f x) (hlt x x hx)

/-- Where nothing on a finite list is without a predecessor on it, there is a cycle. -/
theorem NoCycle.exists_source (h : NoCycle r) {l : List α} (hne : l ≠ []) : ∃ x ∈ l, ∀ y ∈ l, ¬r y x := by
  -- along the relation the list is well-founded, so it has a least member
  let R : {x // x ∈ l} → {x // x ∈ l} → Prop := fun x y => Relation.TransGen r x y
  have : IsTrans _ R := ⟨fun _ _ _ hxy hyz => Relation.TransGen.trans hxy hyz⟩
  have : Std.Irrefl R := ⟨fun x hx => h x hx⟩
  have : Finite {x // x ∈ l} := Set.finite_coe_iff.mpr (List.finite_toSet l)
  obtain ⟨c, hc⟩ := List.exists_mem_of_ne_nil l hne
  obtain ⟨x, -, hmin⟩ := (Finite.wellFounded_of_trans_of_irrefl R).has_min Set.univ ⟨⟨c, hc⟩, trivial⟩
  exact ⟨x, x.2, fun y hy hyx => hmin ⟨y, hy⟩ trivial (Relation.TransGen.single hyx)⟩

/-- A path along a relation and one more pair: it does without the pair, or it comes to its start and goes on from its end. -/
theorem transGen_insert {a b : α} (hle : ∀ x y, r' x y → r x y ∨ x = a ∧ y = b) {x y : α} (h : Relation.TransGen r' x y) :
    Relation.TransGen r x y ∨ Relation.ReflTransGen r x a ∧ Relation.ReflTransGen r b y := by
  induction h with
  | single hxy =>
    rcases hle _ _ hxy with hr | ⟨rfl, rfl⟩
    · exact Or.inl (Relation.TransGen.single hr)
    · exact Or.inr ⟨Relation.ReflTransGen.refl, Relation.ReflTransGen.refl⟩
  | tail _ hyz ih =>
    rcases hle _ _ hyz with hr | ⟨rfl, rfl⟩
    · rcases ih with hxy | ⟨hxa, hby⟩
      · exact Or.inl (hxy.tail hr)
      · exact Or.inr ⟨hxa, hby.tail hr⟩
    · rcases ih with hxy | ⟨hxa, -⟩
      · exact Or.inr ⟨hxy.to_reflTransGen, Relation.ReflTransGen.refl⟩
      · exact Or.inr ⟨hxa, Relation.ReflTransGen.refl⟩

/-- One more pair makes no cycle, unless its end leads back to its start. -/
theorem NoCycle.insert (h : NoCycle r) {a b : α} (hba : ¬Relation.ReflTransGen r b a)
    (hle : ∀ x y, r' x y → r x y ∨ x = a ∧ y = b) : NoCycle r' := by
  intro x hx
  rcases transGen_insert hle hx with hx | ⟨hxa, hbx⟩
  · exact h x hx
  · exact hba (hbx.trans hxa)

end Acyclic
