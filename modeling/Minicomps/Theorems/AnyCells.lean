import Minicomps.AnyCells
import Minicomps.Lib.Transition

/-!
# Objects in cells

The test in `assign` leaves space for the largest padding, so an object fits into any storage, and a move that keeps its offset keeps it
inside. Whether the offset is good for the alignment at another address is another matter: it is exactly where the two addresses leave
the same remainder, as they do unless the type is aligned more strictly than the storages are.
-/

namespace Minicomps

open Transition

variable {α : Type*}

/-- What a `fixed_any` can be: empty, with an object in its storage, or with one on the heap. -/
inductive AnyCell.Sound (length storage : Nat) : AnyCell α → Prop
  | empty : Sound length storage {}
  | inStorage (o : StoredObject α) (aligned : o.type.align ∣ o.address) (ge : storage ≤ o.address)
    (le : o.address + o.type.size ≤ storage + length) :
    Sound length storage
      { alignedPtr := some o.address, objectPtr := some o, functions := some { type := o.type, inStorage := true } }
  | onHeap (o : StoredObject α) (aligned : o.type.align ∣ o.address) :
    Sound length storage { alignedPtr := none, objectPtr := some o, functions := some { type := o.type, inStorage := false } }

/-- Every cell is one of these. -/
def AnyCells.Sound (L : CellLayout) (s : AnyCells α) : Prop := ∀ c a, s.cells c = some a → a.Sound L.length (L.storage c)

namespace AnyCellsAux

/-! ## Addresses -/

theorem align_pos (type : ObjectType) : 0 < type.align := by
  obtain ⟨k, hk⟩ := type.align_pow
  rw [hk]
  exact Nat.two_pow_pos k

theorem checkAlignment_iff {type : ObjectType} {address : Nat} : type.checkAlignment address = true ↔ type.align ∣ address := by
  simp [ObjectType.checkAlignment, Nat.dvd_iff_mod_eq_zero]

/-- The first multiple from an address on. -/
theorem roundUp_spec {n : Nat} (hn : 0 < n) (address : Nat) :
    address ≤ (address + n - 1) / n * n ∧ (address + n - 1) / n * n ≤ address + n - 1 := by
  have hdiv := Nat.div_add_mod (address + n - 1) n
  have hmod := Nat.mod_lt (address + n - 1) hn
  rw [Nat.mul_comm] at hdiv
  omega

/-- Where `std::align` puts an object. -/
theorem align_spec {n size address space p : Nat} (hn : 0 < n) (h : align n size address space = some p) :
    n ∣ p ∧ address ≤ p ∧ p + size ≤ address + space := by
  simp only [align] at h
  split at h
  · rename_i hspace
    obtain rfl := Option.some.inj h
    obtain ⟨hge, -⟩ := roundUp_spec hn address
    exact ⟨Nat.dvd_mul_left n _, hge, by omega⟩
  · cases h

/-- With space for the largest padding, `std::align` succeeds. -/
theorem align_of_fits {type : ObjectType} {length : Nat} (h : type.fits length = true) (address : Nat) :
    ∃ p, align type.align type.size address length = some p := by
  have hfits : type.size + type.align - 1 ≤ length := of_decide_eq_true h
  have hpos := align_pos type
  obtain ⟨hge, hle⟩ := roundUp_spec hpos address
  exact ⟨_, if_pos (by omega)⟩

/-- An aligned object that keeps its offset is aligned in another storage if the two are congruent, and only then. -/
theorem dvd_moved_iff {n p storage otherStorage : Nat} (hp : n ∣ p) (hge : otherStorage ≤ p) :
    n ∣ storage + (p - otherStorage) ↔ storage ≡ otherStorage [MOD n] := by
  have hsum : otherStorage + (p - otherStorage) ≡ 0 [MOD n] := by
    rw [Nat.add_sub_cancel' hge]
    exact (Nat.modEq_zero_iff_dvd).mpr hp
  rw [← Nat.modEq_zero_iff_dvd]
  constructor
  · intro h
    exact Nat.ModEq.add_right_cancel' _ (h.trans hsum.symm)
  · intro h
    exact (h.add_right _).trans hsum

/-! ## One cell -/

section Cell

variable {length storage otherStorage : Nat} {a b : AnyCell α} {fresh : ObjectType → Nat}

theorem destroy_sound (h : a.Sound length storage) :
    a.destroy = .ok { a with objectPtr := none, alignedPtr := none } := by
  cases h with
  | empty => rfl
  | inStorage o aligned => exact if_pos (checkAlignment_iff.mpr aligned)
  | onHeap o aligned => exact if_pos (checkAlignment_iff.mpr aligned)

/-- An assignment of a value succeeds, wherever the storage is. -/
theorem assign_sound (h : a.Sound length storage) (hfresh : ∀ type : ObjectType, type.align ∣ fresh type) (type : ObjectType)
    (value : α) :
    ∃ a' o, a.assign length storage fresh type value = .ok a' ∧ a'.Sound length storage ∧ a'.objectPtr = some o ∧
      o.type = type ∧ o.value = value := by
  unfold AnyCell.assign
  rw [destroy_sound h]
  cases hfits : type.fits length with
  | false => exact ⟨_, _, rfl, .onHeap { type, value, address := fresh type } (hfresh type), rfl, rfl, rfl⟩
  | true =>
    obtain ⟨p, hp⟩ := align_of_fits hfits storage
    obtain ⟨hdvd, hge, hle⟩ := align_spec (align_pos type) hp
    simp only [Except.bind, if_true, hp]
    exact ⟨_, _, rfl, .inStorage { type, value, address := p } hdvd hge hle, rfl, rfl, rfl⟩

/-- A move from an empty cell calls an empty function. -/
theorem assignAny_empty (h : a.Sound length storage) :
    a.assignAny storage {} otherStorage fresh = .error .badFunctionCall := by
  unfold AnyCell.assignAny
  rw [destroy_sound h]
  rfl

/-- A move of an object on the heap makes one elsewhere on the heap. -/
theorem assignAny_onHeap (h : a.Sound length storage) {o : StoredObject α} (aligned : o.type.align ∣ o.address) :
    a.assignAny storage { alignedPtr := none, objectPtr := some o, functions := some { type := o.type, inStorage := false } } otherStorage
        fresh =
      .ok ({ alignedPtr := none
             objectPtr := some { o with address := fresh o.type }
             functions := some { type := o.type, inStorage := false } }, {}) := by
  unfold AnyCell.assignAny
  rw [destroy_sound h]
  simp [Except.bind, Except.map, TypedFunctions.moveConstruct, AnyCell.destroy, checkAlignment_iff.mpr aligned]

/-- A move of an object in a storage puts it at the same offset, or aborts there. -/
theorem assignAny_inStorage (h : a.Sound length storage) {o : StoredObject α} (aligned : o.type.align ∣ o.address) :
    a.assignAny storage { alignedPtr := some o.address, objectPtr := some o, functions := some { type := o.type, inStorage := true } }
        otherStorage fresh =
      if o.type.checkAlignment (storage + (o.address - otherStorage)) then
        .ok ({ alignedPtr := some (storage + (o.address - otherStorage))
               objectPtr := some { o with address := storage + (o.address - otherStorage) }
               functions := some { type := o.type, inStorage := true } }, {})
      else .error .misaligned := by
  unfold AnyCell.assignAny
  rw [destroy_sound h]
  cases hc : o.type.checkAlignment (storage + (o.address - otherStorage)) with
  | true => simp [Except.bind, Except.map, TypedFunctions.moveConstruct, AnyCell.destroy, checkAlignment_iff.mpr aligned, hc]
  | false => simp [Except.bind, TypedFunctions.moveConstruct, hc]

end Cell

/-! ## What an operation can come to -/

variable {L : CellLayout} {s : AnyCells α}

/-- The ways an operation on sound cells ends: each with what it says about the condition on moves, and about optional values. -/
inductive Outcome (L : CellLayout) (s : AnyCells α) (a : CellAction α) : Except CellError (AnyCells α) → Prop
  | noSuchCell (moves : s.MovesObjects L a) (reference : s.contents.step a = none) : Outcome L s a (.error .noSuchCell)
  | badFunctionCall (moves : ¬s.MovesObjects L a) (congruent : s.MovesCongruently L a) (reference : (s.contents.step a).isSome = true) :
    Outcome L s a (.error .badFunctionCall)
  | misaligned (congruent : ¬s.MovesCongruently L a) (reference : (s.contents.step a).isSome = true) : Outcome L s a (.error .misaligned)
  | ok (s' : AnyCells α) (sound : s'.Sound L) (moves : s.MovesObjects L a) (reference : s.contents.step a = some s'.contents) :
    Outcome L s a (.ok s')

theorem movesCongruently_of_movesObjects {a : CellAction α} (h : s.MovesObjects L a) : s.MovesCongruently L a := by
  cases a with
  | construct | assign => trivial
  | moveConstruct c other => exact fun hc => (h hc).2
  | moveAssign c other => exact fun hc hne => (h hc hne).2

theorem sound_update (hs : s.Sound L) {c : CellId} {a : AnyCell α} (ha : a.Sound L.length (L.storage c)) (filled : Nat) :
    AnyCells.Sound L { cells := Function.update s.cells c (some a), filled } := by
  intro d b hb
  by_cases hd : d = c
  · subst hd
    simp only [Function.update_self] at hb
    exact Option.some.inj hb ▸ ha
  · simp only [Function.update_of_ne hd] at hb
    exact hs d b hb

theorem contents_update (s : AnyCells α) (c : CellId) (a : AnyCell α) (filled : Nat) :
    AnyCells.contents { cells := Function.update s.cells c (some a), filled } =
      Function.update s.contents c (some (a.objectPtr.map fun o => (o.type, o.value))) := by
  funext d
  by_cases hd : d = c
  · subst hd
    simp [AnyCells.contents]
  · simp [AnyCells.contents, Function.update_of_ne hd]

/-- What a move into the cell `c` can come to; `a` is what is there. -/
inductive MoveOutcome (L : CellLayout) (s : AnyCells α) (c other : CellId) : Except CellError (AnyCells α) → Prop
  | noSuchCell (hother : s.cells other = none) : MoveOutcome L s c other (.error .noSuchCell)
  | badFunctionCall (hother : s.cells other = some {}) : MoveOutcome L s c other (.error .badFunctionCall)
  | misaligned (hother : (s.cells other).isSome = true) (congruent : ¬s.Congruent L c other) : MoveOutcome L s c other (.error .misaligned)
  | ok (s' : AnyCells α) (sound : s'.Sound L) (movable : s.Movable L c other) (reference : s.contents.move c other = some s'.contents) :
    MoveOutcome L s c other (.ok s')

theorem moveOutcome_ok (hs : s.Sound L) {c other : CellId} {b a' : AnyCell α} {o o' : StoredObject α} (hb : s.cells other = some b)
    (ho : b.objectPtr = some o) (ha' : a'.Sound L.length (L.storage c)) (ho' : a'.objectPtr = some o') (htype : o'.type = o.type)
    (hvalue : o'.value = o.value) (hcongruent : b.alignedPtr.isSome = true → L.storage c ≡ L.storage other [MOD o.type.align]) :
    MoveOutcome L s c other
      (.ok { cells := Function.update (Function.update s.cells other (some {})) c (some a'), filled := s.filled + 1 }) := by
  have hsound := sound_update (sound_update hs (c := other) .empty s.filled) ha' (s.filled + 1)
  refine .ok _ hsound ⟨?_, ?_⟩ ?_
  · intro b' hb'
    obtain rfl := Option.some.inj (hb.symm.trans hb')
    rw [ho]
    rfl
  · intro b' o'' hb' hin ho''
    obtain rfl := Option.some.inj (hb.symm.trans hb')
    obtain rfl := Option.some.inj (ho.symm.trans ho'')
    exact hcongruent hin
  · rw [contents_update { s with cells := Function.update s.cells other (some {}) }, contents_update s]
    simp [OptionalValues.move, AnyCells.contents, hb, ho, ho', htype, hvalue]

theorem moveOutcome (hs : s.Sound L) (c other : CellId) {a : AnyCell α} (ha : a.Sound L.length (L.storage c)) :
    MoveOutcome L s c other (s.moveInto L c other a) := by
  unfold AnyCells.moveInto
  cases hb : s.cells other with
  | none => exact .noSuchCell hb
  | some b =>
    cases hs other b hb with
    | empty =>
      simp only [assignAny_empty ha, Except.map]
      exact .badFunctionCall hb
    | inStorage o aligned ge le =>
      simp only [assignAny_inStorage ha aligned]
      have hiff : o.type.align ∣ L.storage c + (o.address - L.storage other) ↔ L.storage c ≡ L.storage other [MOD o.type.align] :=
        dvd_moved_iff aligned ge
      split
      · rename_i hcheck
        refine moveOutcome_ok hs hb rfl (.inStorage { o with address := _ } (checkAlignment_iff.mp hcheck) (Nat.le_add_right _ _) ?_)
          rfl rfl rfl fun _ => hiff.mp (checkAlignment_iff.mp hcheck)
        have hoffset : o.address - L.storage other + o.type.size ≤ L.length := by omega
        show L.storage c + (o.address - L.storage other) + o.type.size ≤ L.storage c + L.length
        omega
      · rename_i hcheck
        refine .misaligned (by rw [hb]; rfl) fun hcongruent => hcheck (checkAlignment_iff.mpr (hiff.mpr ?_))
        exact hcongruent _ o hb rfl rfl
    | onHeap o aligned =>
      simp only [assignAny_onHeap ha aligned, Except.map]
      exact moveOutcome_ok hs hb rfl (.onHeap { o with address := _ } (L.heap_aligned o.type s.filled)) rfl rfl rfl nofun

theorem contents_isSome (s : AnyCells α) (c : CellId) : (s.contents c).isSome = (s.cells c).isSome := by
  simp [AnyCells.contents]

/-- What a move comes to is what the operation that makes it comes to. -/
theorem outcome_of_move {a : CellAction α} {c other : CellId} {result : Except CellError (AnyCells α)} (h : MoveOutcome L s c other result)
    (hreference : s.contents.step a = s.contents.move c other) (hmoves : s.MovesObjects L a ↔ s.Movable L c other)
    (hcongruent : s.MovesCongruently L a ↔ s.Congruent L c other) : Outcome L s a result := by
  have hisSome : (s.contents.move c other).isSome = (s.cells other).isSome := by
    rw [OptionalValues.move, Option.isSome_map, contents_isSome]
  cases h with
  | noSuchCell hother =>
    refine .noSuchCell (hmoves.mpr ⟨fun b hb => ?_, fun b o hb => ?_⟩) ?_
    · cases hother.symm.trans hb
    · cases hother.symm.trans hb
    · rw [hreference, ← Option.not_isSome_iff_eq_none, hisSome, hother]
      simp
  | badFunctionCall hother =>
    refine .badFunctionCall (fun hm => ?_) (hcongruent.mpr fun b o hb hin ho => ?_) ?_
    · cases (hmoves.mp hm).1 _ hother
    · obtain rfl := Option.some.inj (hother.symm.trans hb)
      cases ho
    · rw [hreference, hisSome, hother]
      rfl
  | misaligned hother hnot =>
    refine .misaligned (fun hm => hnot (hcongruent.mp hm)) ?_
    rw [hreference, hisSome, hother]
  | ok s' sound movable reference => exact .ok s' sound (hmoves.mpr movable) (hreference.trans reference)

theorem outcome (hs : s.Sound L) (a : CellAction α) : Outcome L s a (s.perform L a) := by
  cases a with
  | construct c =>
    cases hc : s.cells c with
    | some a =>
      simp only [AnyCells.perform, hc]
      exact .noSuchCell trivial (by simp [OptionalValues.step, contents_isSome, hc])
    | none =>
      simp only [AnyCells.perform, hc]
      refine .ok _ (sound_update hs .empty s.filled) trivial ?_
      rw [contents_update]
      simp [OptionalValues.step, contents_isSome, hc]
  | assign c type value =>
    cases hc : s.cells c with
    | none =>
      simp only [AnyCells.perform, hc]
      exact .noSuchCell trivial (by simp [OptionalValues.step, contents_isSome, hc])
    | some a =>
      obtain ⟨a', o, ha', hsound, ho, htype, hvalue⟩ :=
        assign_sound (hs c a hc) (fun type => L.heap_aligned type s.filled) type value
      simp only [AnyCells.perform, hc, ha', Except.map]
      refine .ok _ (sound_update hs hsound (s.filled + 1)) trivial ?_
      rw [contents_update]
      simp [OptionalValues.step, contents_isSome, hc, ho, htype, hvalue]
  | moveConstruct c other =>
    cases hc : s.cells c with
    | some a =>
      simp only [AnyCells.perform, hc]
      refine .noSuchCell (fun hnone => ?_) (by simp [OptionalValues.step, contents_isSome, hc])
      cases hc.symm.trans hnone
    | none =>
      simp only [AnyCells.perform, hc]
      refine outcome_of_move (moveOutcome hs c other .empty) ?_ ?_ ?_
      · simp [OptionalValues.step, contents_isSome, hc]
      · exact ⟨fun h => h hc, fun h _ => h⟩
      · exact ⟨fun h => h hc, fun h _ => h⟩
  | moveAssign c other =>
    cases hc : s.cells c with
    | none =>
      simp only [AnyCells.perform, hc]
      refine .noSuchCell (fun hsome => ?_) (by simp [OptionalValues.step, contents_isSome, hc])
      rw [hc] at hsome
      cases hsome
    | some a =>
      by_cases hne : c = other
      · simp only [AnyCells.perform, hc, if_pos hne]
        exact .noSuchCell (fun _ h => absurd hne h) (by simp [OptionalValues.step, hne])
      · simp only [AnyCells.perform, hc, if_neg hne]
        have hsome : (s.cells c).isSome = true := by rw [hc]; rfl
        refine outcome_of_move (moveOutcome hs c other (hs c a hc)) ?_ ?_ ?_
        · simp [OptionalValues.step, contents_isSome, hc, hne]
        · exact ⟨fun h => h hsome hne, fun h _ _ => h⟩
        · exact ⟨fun h => h hsome hne, fun h _ _ => h⟩

theorem sound_init : AnyCells.Sound L (AnyCells.init : AnyCells α) := nofun

theorem sound_step {s' : AnyCells α} {a : CellAction α} (hs : s.Sound L) (h : s.step L a = some s') : s'.Sound L := by
  have houtcome := outcome hs a
  unfold AnyCells.step at h
  generalize s.perform L a = result at houtcome h
  cases houtcome with
  | noSuchCell | badFunctionCall | misaligned => cases h
  | ok s'' sound => exact Option.some.inj h ▸ sound

theorem aligned_of_sound (hs : s.Sound L) : s.Aligned := by
  intro c a o hc hin ho
  cases hs c a hc with
  | empty => cases ho
  | inStorage o' aligned => exact Option.some.inj ho ▸ aligned
  | onHeap => cases hin

theorem inside_of_sound (hs : s.Sound L) : s.Inside L := by
  intro c a o hc hin ho
  cases hs c a hc with
  | empty => cases ho
  | inStorage o' aligned ge le => exact Option.some.inj ho ▸ ⟨ge, le⟩
  | onHeap => cases hin

/-! ## Types that are aligned no more strictly than the storages -/

/-- The alignment of every type that is assigned divides `maxAlign`. -/
def AlignsWithin (maxAlign : Nat) : CellAction α → Prop
  | .assign _ type _ => type.align ∣ maxAlign
  | _ => True

/-- The alignment of every value's type divides `maxAlign`. -/
def Within (maxAlign : Nat) (v : OptionalValues α) : Prop := ∀ c type value, v c = some (some (type, value)) → type.align ∣ maxAlign

theorem within_update {maxAlign : Nat} {v : OptionalValues α} (hv : Within maxAlign v) (c : CellId) {content : Option (ObjectType × α)}
    (hcontent : ∀ type value, content = some (type, value) → type.align ∣ maxAlign) :
    Within maxAlign (Function.update v c (some content)) := by
  intro d type value hd
  by_cases hdc : d = c
  · subst hdc
    rw [Function.update_self] at hd
    exact hcontent type value (Option.some.inj hd)
  · rw [Function.update_of_ne hdc] at hd
    exact hv d type value hd

theorem within_move {maxAlign : Nat} {v v' : OptionalValues α} (hv : Within maxAlign v) {c other : CellId} (h : v.move c other = some v') :
    Within maxAlign v' := by
  obtain ⟨content, hcontent, rfl⟩ := Option.map_eq_some_iff.mp h
  refine within_update (within_update hv other fun type value heq => ?_) c fun type value heq => ?_
  · cases heq
  · exact hv other type value (hcontent.trans (congrArg some heq))

theorem within_step {maxAlign : Nat} {v v' : OptionalValues α} {a : CellAction α} (hv : Within maxAlign v) (ha : AlignsWithin maxAlign a)
    (h : v.step a = some v') : Within maxAlign v' := by
  cases a with
  | construct c =>
    obtain ⟨-, h⟩ := Option.ite_none_left_eq_some.mp h
    obtain rfl := Option.some.inj h
    refine within_update hv c fun type value heq => ?_
    cases heq
  | assign c type value =>
    obtain ⟨-, h⟩ := Option.ite_none_right_eq_some.mp h
    obtain rfl := Option.some.inj h
    refine within_update hv c fun type' value' heq => ?_
    cases heq
    exact ha
  | moveConstruct c other =>
    obtain ⟨-, hmove⟩ := Option.ite_none_left_eq_some.mp h
    exact within_move hv hmove
  | moveAssign c other =>
    obtain ⟨-, hmove⟩ := Option.ite_none_right_eq_some.mp h
    exact within_move hv hmove

theorem congruent_of_within {maxAlign : Nat} (hstorage : ∀ c, maxAlign ∣ L.storage c) (hs : Within maxAlign s.contents)
    (c other : CellId) : s.Congruent L c other := by
  intro b o hb _ ho
  have hdvd : o.type.align ∣ maxAlign := hs other o.type o.value (by simp [AnyCells.contents, hb, ho])
  have hzero : ∀ d, L.storage d ≡ 0 [MOD o.type.align] := fun d => (Nat.modEq_zero_iff_dvd).mpr (hdvd.trans (hstorage d))
  exact (hzero c).trans (hzero other).symm

/-! ## The cells as optional values -/

/-- A step that moves an object, to a congruent storage if need be, does to the cells what it does to optional values. -/
theorem step_agrees {a : CellAction α} (hs : s.Sound L) (hmoves : s.MovesObjects L a) :
    Option.Rel (fun s v => AnyCells.Sound L s ∧ s.contents = v) (s.step L a) (OptionalValues.step s.contents a) := by
  have houtcome := outcome hs a
  unfold AnyCells.step
  generalize s.perform L a = result at houtcome
  cases houtcome with
  | noSuchCell _ reference =>
    rw [reference]
    exact .none
  | badFunctionCall moves => exact absurd hmoves moves
  | misaligned congruent => exact absurd (movesCongruently_of_movesObjects hmoves) congruent
  | ok s' sound _ reference =>
    rw [reference]
    exact .some ⟨sound, rfl⟩

/-- Any other step fails, and would not on optional values. -/
theorem step_differs {a : CellAction α} (hs : s.Sound L) (hmoves : ¬s.MovesObjects L a) :
    (s.step L a).map AnyCells.contents ≠ (OptionalValues.step s.contents a).map id := by
  have houtcome := outcome hs a
  unfold AnyCells.step
  generalize s.perform L a = result at houtcome
  cases houtcome with
  | noSuchCell moves => exact absurd moves hmoves
  | badFunctionCall _ _ reference | misaligned _ reference =>
    intro hnone
    rw [Option.map_id, id_eq] at hnone
    rw [← hnone] at reference
    cases reference
  | ok s' sound moves => exact absurd moves hmoves

end AnyCellsAux

namespace AnyCells

open AnyCellsAux

/-- However the cells are filled and moved, an object in a storage stays inside of one, and the assertion never fails. -/
theorem objects_inside (L : CellLayout) (acts : List (CellAction α)) : AllSteps (step L) (StaysInside L) init acts := by
  refine allSteps_of_invariant (fun s a s' hs h => sound_step hs h) (fun s a hs => ?_) sound_init
  have houtcome := outcome hs a
  unfold StaysInside
  generalize s.perform L a = result at houtcome
  cases houtcome with
  | noSuchCell | badFunctionCall | misaligned => exact ⟨nofun, nofun⟩
  | ok s' sound => exact ⟨nofun, fun s'' h => Except.ok.inj h ▸ inside_of_sound sound⟩

/-- Objects stay aligned, and no check aborts, exactly as long as what is moved within the storages moves between congruent ones. -/
theorem objects_aligned_iff (L : CellLayout) (acts : List (CellAction α)) :
    AllSteps (step L) (StaysAligned L) init acts ↔ AllSteps (step L) (MovesCongruently L) init acts := by
  refine allSteps_congr (fun s a s' hs h => sound_step hs h) (fun s a hs => ?_) sound_init
  have houtcome := outcome hs a
  unfold StaysAligned
  generalize s.perform L a = result at houtcome
  cases houtcome with
  | noSuchCell moves => exact ⟨fun _ => movesCongruently_of_movesObjects moves, fun _ => ⟨nofun, nofun⟩⟩
  | badFunctionCall _ congruent => exact ⟨fun _ => congruent, fun _ => ⟨nofun, nofun⟩⟩
  | misaligned congruent => exact ⟨fun h => absurd rfl h.1, fun h => absurd h congruent⟩
  | ok s' sound moves =>
    exact ⟨fun _ => movesCongruently_of_movesObjects moves, fun _ => ⟨nofun, fun s'' h => Except.ok.inj h ▸ aligned_of_sound sound⟩⟩

/-- The length of a cell is 64 and its size 144, and the cells are one after another. -/
def layout : CellLayout where
  length := 64
  storage c := 4096 + 144 * c
  heap type k := type.align * k
  heap_aligned type k := Nat.dvd_mul_right type.align k

/-- Objects of 32 bytes that are to be at multiples of 32. -/
def overAligned : ObjectType := { size := 32, align := 32, align_pow := ⟨5, rfl⟩ }

/-- An object is put into the first cell, and moved to the second. -/
theorem move_misaligned :
    ¬∀ (L : CellLayout) (acts : List (CellAction Unit)), (∀ c, 16 ∣ L.storage c) → AllSteps (step L) (StaysAligned L) init acts := by
  intro h
  have hsteps := h layout [.construct 0, .construct 1, .assign 0 overAligned (), .moveAssign 1 0] fun c =>
    ⟨256 + 9 * c, by simp only [layout]; omega⟩
  have hlast := allSteps_iff.mp hsteps [.construct 0, .construct 1, .assign 0 overAligned ()] (.moveAssign 1 0) [] _ rfl rfl
  exact hlast.1 rfl

/-- Where the alignments of all types divide the addresses of the storages, all moves are between congruent ones. -/
theorem movesCongruently_of_within (L : CellLayout) {maxAlign : Nat} (hstorage : ∀ c, maxAlign ∣ L.storage c)
    {acts : List (CellAction α)} (h : AllSteps (step L) (fun _ a => AlignsWithin maxAlign a) init acts) :
    AllSteps (step L) (MovesCongruently L) init acts := by
  refine AllSteps.imp (P := fun s => Sound L s ∧ Within maxAlign s.contents) ?_ ?_ ⟨sound_init, nofun⟩ h
  · rintro s a s' ⟨hs, hwithin⟩ ha hstep
    refine ⟨sound_step hs hstep, ?_⟩
    have houtcome := outcome hs a
    unfold step at hstep
    generalize s.perform L a = result at houtcome hstep
    cases houtcome with
    | noSuchCell | badFunctionCall | misaligned => cases hstep
    | ok s'' _ _ reference => exact Option.some.inj hstep ▸ within_step hwithin ha reference
  · rintro s a ⟨-, hwithin⟩ -
    cases a with
    | construct | assign => trivial
    | moveConstruct c other => exact fun _ => congruent_of_within hstorage hwithin c other
    | moveAssign c other => exact fun _ _ => congruent_of_within hstorage hwithin c other

/-- The cells are optional values after every part of a run exactly as long as what is moved is an object, and between congruent storages
if it is in one. -/
theorem cells_optional_iff (L : CellLayout) (acts : List (CellAction α)) :
    (∀ pre, pre <+: acts → (run (step L) init pre).map contents = run OptionalValues.step (fun _ => none) pre) ↔
      AllSteps (step L) (MovesObjects L) init acts := by
  have h : (∀ pre, pre <+: acts → (run (step L) init pre).map contents = (run OptionalValues.step (fun _ => none) pre).map id) ↔
      AllSteps (step L) (MovesObjects L) init acts :=
    lockstep_iff (R := fun s v => Sound L s ∧ s.contents = v) (fun s v hR => hR.2)
      (fun s v a hR hmoves => hR.2 ▸ step_agrees hR.1 hmoves) (fun s v a hR hmoves => hR.2 ▸ step_differs hR.1 hmoves)
      ⟨sound_init, rfl⟩
  simpa only [Option.map_id, id_eq] using h

/-- A cell that has never been assigned to is moved from. -/
theorem move_from_empty_fails :
    ¬∀ (L : CellLayout) (acts : List (CellAction Unit)), ∀ pre, pre <+: acts →
      (run (step L) init pre).map contents = run OptionalValues.step (fun _ => none) pre := by
  intro h
  have hmove := h layout [.construct 0, .moveConstruct 1 0] _ (List.prefix_refl _)
  have hfails : (run (step layout) (init : AnyCells Unit) [.construct 0, .moveConstruct 1 0]).isSome = false := rfl
  have hsucceeds :
      (run OptionalValues.step (fun _ => none) ([.construct 0, .moveConstruct 1 0] : List (CellAction Unit))).isSome = true := rfl
  rw [← hmove, Option.isSome_map, hfails] at hsucceeds
  cases hsucceeds

end AnyCells

end Minicomps
