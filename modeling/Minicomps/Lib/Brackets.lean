import Mathlib.Data.List.Basic
import Mathlib.Tactic.Common

/-!
# Brackets

A list in which everything that opens is closed by what matches it, and what is between the two is closed within. `Closes o c` says that
`c` closes `o`.
-/

namespace Brackets

variable {α : Type*}

/-- Pairs that nest or follow one another. -/
inductive Bracketed (Closes : α → α → Prop) : List α → Prop
  | nil : Bracketed Closes []
  | nest {o c : α} {inner rest : List α} (hclose : Closes o c) (hinner : Bracketed Closes inner) (hrest : Bracketed Closes rest) :
    Bracketed Closes (o :: (inner ++ c :: rest))

variable {Closes : α → α → Prop} {l l' : List α} {o c : α}

theorem Bracketed.append (h : Bracketed Closes l) (h' : Bracketed Closes l') : Bracketed Closes (l ++ l') := by
  induction h with
  | nil => exact h'
  | nest hclose hinner hrest ihinner ihrest =>
    rw [List.cons_append, List.append_assoc, List.cons_append]
    exact .nest hclose hinner ihrest

theorem Bracketed.wrap (h : Bracketed Closes l) (hclose : Closes o c) : Bracketed Closes (o :: (l ++ [c])) :=
  .nest hclose h .nil

/-- A list that becomes bracketed when some pairs are closed at the end of it; where `whole` holds, it is bracketed already. -/
def Unfinished (Closes : α → α → Prop) (whole : Prop) (l : List α) : Prop :=
  ∃ closings, Bracketed Closes (l ++ closings) ∧ (whole → closings = [])

variable {whole : Prop}

theorem Bracketed.unfinished (h : Bracketed Closes l) : Unfinished Closes whole l :=
  ⟨[], (List.append_nil l).symm ▸ h, fun _ => rfl⟩

theorem Unfinished.bracketed (h : Unfinished Closes whole l) (hwhole : whole) : Bracketed Closes l := by
  obtain ⟨closings, hl, hnil⟩ := h
  rwa [hnil hwhole, List.append_nil] at hl

/-- What comes after a bracketed list may be unfinished. -/
theorem Bracketed.append_unfinished (h : Bracketed Closes l) (h' : Unfinished Closes whole l') : Unfinished Closes whole (l ++ l') := by
  obtain ⟨closings, hl', hnil⟩ := h'
  exact ⟨closings, (List.append_assoc l l' closings).symm ▸ h.append hl', hnil⟩

/-- Where a pair is not closed, the list is not whole. -/
theorem Unfinished.open (h : Unfinished Closes whole l) (hclose : Closes o c) (hnot : ¬whole) : Unfinished Closes whole (o :: l) := by
  obtain ⟨closings, hl, -⟩ := h
  refine ⟨closings ++ [c], ?_, fun hwhole => absurd hwhole hnot⟩
  rw [List.cons_append, ← List.append_assoc]
  exact hl.wrap hclose

end Brackets
