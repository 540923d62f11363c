import Mathlib.Logic.Function.Basic
import Mathlib.Logic.Relation
import Mathlib.Tactic.Common

/-!
# Programs over a store

Code that reads and writes the cells of a store and calls procedures that work on the same store. What a program does when it runs
alone is said twice: in one go, with everything it has read on the way (`Evaluates`), and one instruction at a time on a stack of
callers (`Config.next`). A run that takes one instruction after another ends with what `Evaluates` says.
-/

/-- Code over a store with cells `κ` and values `ν` that may call the procedures `π`; results are `ρ`. -/
inductive Program (κ ν π ρ : Type*) where
  | ret (r : ρ)
  | read (k : κ) (next : ν → Program κ ν π ρ)
  | write (k : κ) (v : ν) (next : Program κ ν π ρ)
  /-- Call a procedure, and run `after` on its result as a part of the call. -/
  | call (p : π) (after : ρ → Program κ ν π ρ) (next : ρ → Program κ ν π ρ)

namespace Program

variable {κ ν π ρ : Type*}

/-- Run a program, and another one on its result. -/
def bind : Program κ ν π ρ → (ρ → Program κ ν π ρ) → Program κ ν π ρ
  | .ret r, after => after r
  | .read k next, after => .read k fun v => (next v).bind after
  | .write k v next, after => .write k v (next.bind after)
  | .call p a next, after => .call p a fun r => (next r).bind after

section Evaluates

variable [DecidableEq κ]

/-- The program, run alone from the store `s`, gives the result, has read the values in that order, and leaves the last store. -/
inductive Evaluates (procedure : π → Program κ ν π ρ) : Program κ ν π ρ → (κ → ν) → ρ → List ν → (κ → ν) → Prop
  | ret {s : κ → ν} {r : ρ} : Evaluates procedure (.ret r) s r [] s
  | read {s s' : κ → ν} {k : κ} {next : ν → Program κ ν π ρ} {r : ρ} {vs : List ν} :
      Evaluates procedure (next (s k)) s r vs s' → Evaluates procedure (.read k next) s r (s k :: vs) s'
  | write {s s' : κ → ν} {k : κ} {v : ν} {next : Program κ ν π ρ} {r : ρ} {vs : List ν} :
      Evaluates procedure next (Function.update s k v) r vs s' → Evaluates procedure (.write k v next) s r vs s'
  | call {s s' s'' : κ → ν} {p : π} {after next : ρ → Program κ ν π ρ} {r r' : ρ} {vs vs' : List ν} :
      Evaluates procedure ((procedure p).bind after) s r vs s' → Evaluates procedure (next r) s' r' vs' s'' →
        Evaluates procedure (.call p after next) s r' (vs ++ vs') s''

variable {procedure : π → Program κ ν π ρ}

/-- A program does one thing only. -/
theorem Evaluates.unique {c : Program κ ν π ρ} {s s₁ s₂ : κ → ν} {r₁ r₂ : ρ} {vs₁ vs₂ : List ν}
    (h₁ : Evaluates procedure c s r₁ vs₁ s₁) (h₂ : Evaluates procedure c s r₂ vs₂ s₂) : r₁ = r₂ ∧ vs₁ = vs₂ ∧ s₁ = s₂ := by
  induction h₁ generalizing r₂ vs₂ s₂ with
  | ret =>
    cases h₂
    exact ⟨rfl, rfl, rfl⟩
  | read _ ih =>
    cases h₂ with
    | read h =>
      obtain ⟨rfl, rfl, rfl⟩ := ih h
      exact ⟨rfl, rfl, rfl⟩
  | write _ ih =>
    cases h₂ with
    | write h => exact ih h
  | call _ _ ih ih' =>
    cases h₂ with
    | call h h' =>
      obtain ⟨rfl, rfl, rfl⟩ := ih h
      obtain ⟨rfl, rfl, rfl⟩ := ih' h'
      exact ⟨rfl, rfl, rfl⟩

/-- The programs, run alone one after another from the store `s`, give these results and reads, and leave the last store. -/
inductive Sequential (procedure : π → Program κ ν π ρ) : List (Program κ ν π ρ) → (κ → ν) → List (ρ × List ν) → (κ → ν) → Prop
  | nil {s : κ → ν} : Sequential procedure [] s [] s
  | cons {s s' s'' : κ → ν} {c : Program κ ν π ρ} {cs : List (Program κ ν π ρ)} {r : ρ} {vs : List ν} {os : List (ρ × List ν)} :
      Evaluates procedure c s r vs s' → Sequential procedure cs s' os s'' →
        Sequential procedure (c :: cs) s ((r, vs) :: os) s''

/-- One more program is run after the others. -/
theorem Sequential.snoc {cs : List (Program κ ν π ρ)} {c : Program κ ν π ρ} {s s' s'' : κ → ν} {os : List (ρ × List ν)} {r : ρ}
    {vs : List ν} (h : Sequential procedure cs s os s') (hc : Evaluates procedure c s' r vs s'') :
    Sequential procedure (cs ++ [c]) s (os ++ [(r, vs)]) s'' := by
  induction h with
  | nil => exact .cons hc .nil
  | cons h' _ ih => exact .cons h' (ih hc)

/-- Programs that are run one after another do one thing only. -/
theorem Sequential.unique {cs : List (Program κ ν π ρ)} {s s₁ s₂ : κ → ν} {os₁ os₂ : List (ρ × List ν)}
    (h₁ : Sequential procedure cs s os₁ s₁) (h₂ : Sequential procedure cs s os₂ s₂) : os₁ = os₂ ∧ s₁ = s₂ := by
  induction h₁ generalizing os₂ s₂ with
  | nil =>
    cases h₂
    exact ⟨rfl, rfl⟩
  | cons h _ ih =>
    cases h₂ with
    | cons h' hrest =>
      obtain ⟨rfl, rfl, rfl⟩ := h.unique h'
      obtain ⟨rfl, rfl⟩ := ih hrest
      exact ⟨rfl, rfl⟩

/-! ## One instruction at a time -/

/-- A program that is running: what is left of it, the callers that wait for its result, what has been read, and the store. -/
structure Config (κ ν π ρ : Type*) where
  code : Program κ ν π ρ
  callers : List (ρ → Program κ ν π ρ) := []
  reads : List ν := []
  store : κ → ν

namespace Config

/-- The next instruction; `none` when the program has ended. -/
def next (procedure : π → Program κ ν π ρ) (c : Config κ ν π ρ) : Option (Config κ ν π ρ) :=
  match c.code with
  | .ret r =>
    match c.callers with
    | [] => none
    | k :: callers => some { c with code := k r, callers := callers }
  | .read k next => some { c with code := next (c.store k), reads := c.reads ++ [c.store k] }
  | .write k v next => some { c with code := next, store := Function.update c.store k v }
  | .call p after next => some { c with code := (procedure p).bind after, callers := next :: c.callers }

/-- Some instructions lead from one configuration to the other. -/
def Reaches (procedure : π → Program κ ν π ρ) : Config κ ν π ρ → Config κ ν π ρ → Prop :=
  Relation.ReflTransGen fun c c' => c.next procedure = some c'

/-- The callers, run on the result of the program one after another, end like this. -/
def Finishes (procedure : π → Program κ ν π ρ) : Program κ ν π ρ → List (ρ → Program κ ν π ρ) → (κ → ν) → ρ → List ν → (κ → ν) → Prop
  | code, [], s, r, vs, s' => Evaluates procedure code s r vs s'
  | code, k :: callers, s, r, vs, s' => ∃ r₁ vs₁ s₁ vs₂, Evaluates procedure code s r₁ vs₁ s₁ ∧
      Finishes procedure (k r₁) callers s₁ r vs₂ s' ∧ vs = vs₁ ++ vs₂

/-- What the rest of a program does follows from what its first instruction does and what is left after it. -/
theorem finishes_of_code {code code' : Program κ ν π ρ} {s t : κ → ν} {added : List ν}
    (hcode : ∀ r vs s', Evaluates procedure code' t r vs s' → Evaluates procedure code s r (added ++ vs) s')
    {callers : List (ρ → Program κ ν π ρ)} {r : ρ} {vs : List ν} {s' : κ → ν}
    (h : Finishes procedure code' callers t r vs s') : Finishes procedure code callers s r (added ++ vs) s' := by
  cases callers with
  | nil => exact hcode r vs s' h
  | cons k callers =>
    obtain ⟨r₁, vs₁, s₁, vs₂, h₁, h₂, rfl⟩ := h
    exact ⟨r₁, added ++ vs₁, s₁, vs₂, hcode r₁ vs₁ s₁ h₁, h₂, (List.append_assoc ..).symm⟩

/-- A program goes on with one instruction: the rest of it has read what that read, and what is read after it. -/
theorem finishes_of_next {c c' : Config κ ν π ρ} (hn : c.next procedure = some c') :
    ∃ added, c'.reads = c.reads ++ added ∧ ∀ r vs s', Finishes procedure c'.code c'.callers c'.store r vs s' →
      Finishes procedure c.code c.callers c.store r (added ++ vs) s' := by
  obtain ⟨code, callers, reads, store⟩ := c
  cases code with
  | ret x =>
    cases callers with
    | nil => cases hn
    | cons k callers =>
      obtain rfl := Option.some.inj hn
      exact ⟨[], (List.append_nil _).symm, fun r vs s' h => ⟨x, [], store, vs, .ret, h, rfl⟩⟩
  | read k next =>
    obtain rfl := Option.some.inj hn
    exact ⟨[store k], rfl, fun r vs s' h => finishes_of_code (fun _ _ _ he => .read he) h⟩
  | write k v next =>
    obtain rfl := Option.some.inj hn
    exact ⟨[], (List.append_nil _).symm, fun r vs s' h => finishes_of_code (fun _ _ _ he => .write he) h⟩
  | call p after next =>
    obtain rfl := Option.some.inj hn
    refine ⟨[], (List.append_nil _).symm, ?_⟩
    intro r vs s' h
    obtain ⟨r₁, vs₁, s₁, vs₂, h₁, h₂, rfl⟩ := h
    -- the result goes to the caller that was pushed
    have hcode : ∀ r vs s', Evaluates procedure (next r₁) s₁ r vs s' → Evaluates procedure (.call p after next) store r (vs₁ ++ vs) s' :=
      fun _ _ _ he => .call h₁ he
    exact finishes_of_code hcode h₂

/-- A program that has been run instruction by instruction until it ended has done what `Evaluates` says. -/
theorem evaluates_of_reaches {code : Program κ ν π ρ} {s s' : κ → ν} {r : ρ} {vs : List ν}
    (h : Reaches procedure { code, store := s } { code := .ret r, callers := [], reads := vs, store := s' }) :
    Evaluates procedure code s r vs s' := by
  suffices hrest : ∀ c : Config κ ν π ρ,
      Reaches procedure c { code := .ret r, callers := [], reads := vs, store := s' } →
        ∃ added, vs = c.reads ++ added ∧ Finishes procedure c.code c.callers c.store r added s' by
    obtain ⟨added, rfl, hfin⟩ := hrest _ h
    exact hfin
  intro c hc
  induction hc using Relation.ReflTransGen.head_induction_on with
  | refl => exact ⟨[], (List.append_nil _).symm, .ret⟩
  | head hn _ ih =>
    obtain ⟨later, hvs, hfin⟩ := ih
    obtain ⟨added, hreads, hback⟩ := finishes_of_next hn
    exact ⟨added ++ later, by rw [hvs, hreads, List.append_assoc], hback r later s' hfin⟩

end Config

end Evaluates

end Program
