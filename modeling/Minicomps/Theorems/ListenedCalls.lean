import Minicomps.Lib.Brackets
import Minicomps.ListenedCalls

/-!
# The notifications of synchronous calls are well bracketed

What a piece of code adds to the notifications is well bracketed for each listener. One lemma says that a call around such a piece is such
a piece again, and another one that two of them in a row are; the three kinds of calls are put together from these.
-/

namespace Minicomps

open Brackets

namespace ListenedCalls

variable {ε ρ : Type*}

/-- The code adds pairs of notifications for each listener; where it aborts, some of them are not closed. -/
def Brackets (b : Behaviour ε ρ) : Prop := ∀ s, ∃ added, (b s).1.notified = s.notified ++ added ∧
  ∀ l, Unfinished Closes ((b s).2 ≠ .aborted) (added.filter fun n => decide (n.listener = l))

namespace ListenedAux

variable {b : Behaviour ε ρ}

/-- Code that tells no one. -/
theorem brackets_silent {f : State → State} {outcome : State → Outcome ε ρ} (h : ∀ s, (f s).notified = s.notified) :
    Brackets fun s => (f s, outcome s) := by
  intro s
  exact ⟨[], (h s).trans (List.append_nil _).symm, fun l => Bracketed.nil.unfinished⟩

/-- One piece of code, and another one after it if it has not aborted. -/
theorem brackets_goOn {next : Except ε ρ → Behaviour ε ρ} (hb : Brackets b) (hnext : ∀ r, Brackets (next r)) :
    Brackets (goOn b next) := by
  intro s
  obtain ⟨added, hadded, hfirst⟩ := hb s
  -- what comes next adds to what the first piece has added
  have hmore : ∀ r, (b s).2 ≠ .aborted → ∃ more, (next r (b s).1).1.notified = s.notified ++ more ∧
      ∀ l, Unfinished Closes ((next r (b s).1).2 ≠ .aborted) (more.filter fun n => decide (n.listener = l)) := by
    intro r hwhole
    obtain ⟨more, hmore, hsecond⟩ := hnext r (b s).1
    refine ⟨added ++ more, ?_, fun l => ?_⟩
    · rw [hmore, hadded, List.append_assoc]
    · rw [List.filter_append]
      exact ((hfirst l).bracketed hwhole).append_unfinished (hsecond l)
  unfold goOn
  rcases hs : b s with ⟨s', outcome⟩
  rw [hs] at hadded hfirst hmore
  cases outcome with
  | returned result => exact hmore (.ok result) nofun
  | threw exception => exact hmore (.error exception) nofun
  | aborted => exact ⟨added, hadded, hfirst⟩

theorem brackets_andThen {next : ρ → Behaviour ε ρ} (hb : Brackets b) (hnext : ∀ r, Brackets (next r)) :
    Brackets (andThen b next) := by
  have hsame : andThen b next = goOn b fun
      | .ok result => next result
      | .error exception => fun s => (s, .threw exception) := by
    funext s
    unfold andThen goOn
    rcases b s with ⟨s', outcome⟩
    cases outcome <;> rfl
  rw [hsame]
  refine brackets_goOn hb fun r => ?_
  cases r with
  | ok result => exact hnext result
  | error exception => exact brackets_silent fun _ => rfl

/-- Each listener is told of both ends of a call, or of neither. -/
theorem filter_notify {opening closing : MessageType} (htype : ClosesType opening closing) (listener : Option ListenerId)
    (sender receiver : ComponentId) (msgInfo : MessageId) (l : ListenerId) :
    ((notify listener .onInvoke sender receiver msgInfo opening).filter (fun n => decide (n.listener = l)) = [] ∧
        (notify listener .onInvoke receiver sender msgInfo closing).filter (fun n => decide (n.listener = l)) = []) ∨
      ∃ o c, Closes o c ∧ (notify listener .onInvoke sender receiver msgInfo opening).filter (fun n => decide (n.listener = l)) = [o] ∧
        (notify listener .onInvoke receiver sender msgInfo closing).filter (fun n => decide (n.listener = l)) = [c] := by
  cases listener with
  | none => exact Or.inl ⟨rfl, rfl⟩
  | some l' =>
    by_cases hl : l' = l
    · refine Or.inr ⟨⟨l', .onInvoke, sender, receiver, msgInfo, opening⟩, ⟨l', .onInvoke, receiver, sender, msgInfo, closing⟩,
        ⟨htype, rfl, rfl, rfl, rfl, rfl, rfl⟩, ?_, ?_⟩ <;> simp [notify, hl]
    · exact Or.inl ⟨by simp [notify, hl], by simp [notify, hl]⟩

/-- A listener is told of the beginning and of the end of a piece of code. -/
theorem brackets_listenerInvoker (hb : Brackets b) (listener : Option ListenerId) (sender receiver : ComponentId) (msgInfo : MessageId)
    {opening closing : MessageType} (htype : ClosesType opening closing) : Brackets fun s =>
      listenerInvoker listener receiver sender msgInfo closing b (s.onInvoke listener sender receiver msgInfo opening) := by
  intro s
  obtain ⟨inner, hinner, hbody⟩ := hb (s.onInvoke listener sender receiver msgInfo opening)
  rcases hs : b (s.onInvoke listener sender receiver msgInfo opening) with ⟨s', outcome⟩
  rw [hs] at hinner hbody
  have hbegin : s'.notified = s.notified ++ (notify listener .onInvoke sender receiver msgInfo opening ++ inner) := by
    rw [hinner, ← List.append_assoc]
    rfl
  by_cases hout : outcome = .aborted
  · -- no destructor runs
    subst hout
    simp only [listenerInvoker, hs]
    refine ⟨_, hbegin, fun l => ?_⟩
    rw [List.filter_append]
    rcases filter_notify htype listener sender receiver msgInfo l with ⟨ho, -⟩ | ⟨o, c, hcloses, ho, -⟩
    · rw [ho]
      exact hbody l
    · rw [ho]
      exact (hbody l).open hcloses (absurd rfl)
  · have hrun : listenerInvoker listener receiver sender msgInfo closing b (s.onInvoke listener sender receiver msgInfo opening) =
        (s'.onInvoke listener receiver sender msgInfo closing, outcome) := by
      unfold listenerInvoker
      rw [hs]
      cases outcome with
      | returned | threw => rfl
      | aborted => exact absurd rfl hout
    simp only [hrun]
    refine ⟨notify listener .onInvoke sender receiver msgInfo opening ++ inner ++ notify listener .onInvoke receiver sender msgInfo closing,
      ?_, fun l => ?_⟩
    · rw [← List.append_assoc, ← hbegin]
      rfl
    · rw [List.filter_append, List.filter_append]
      have hwhole := (hbody l).bracketed hout
      rcases filter_notify htype listener sender receiver msgInfo l with ⟨ho, hc⟩ | ⟨o, c, hcloses, ho, hc⟩
      · rw [ho, hc, List.nil_append, List.append_nil]
        exact hwhole.unfinished
      · rw [ho, hc]
        exact (hwhole.wrap hcloses).unfinished

/-! ## The three kinds of calls -/

theorem brackets_invoke (hb : Brackets b) (mutualExecutor : Bool) (sender receiver : ComponentId) (msgInfo : MessageId) :
    Brackets (invoke mutualExecutor sender receiver msgInfo b) := by
  intro s
  unfold invoke
  cases mutualExecutor with
  | true =>
    have htype : ClosesType .request .response := trivial
    exact brackets_listenerInvoker hb (s.listener receiver) sender receiver msgInfo htype s
  | false =>
    have htype : ClosesType .lockedRequest .lockedResponse := trivial
    exact brackets_listenerInvoker hb (s.listener receiver) sender receiver msgInfo htype s

theorem brackets_aborted : Brackets (fun s => (s, .aborted) : Behaviour ε ρ) := brackets_silent fun _ => rfl

theorem brackets_syncQuery (q : SyncQuery) {handler fallbackHandler : Behaviour ε ρ} (hhandler : Brackets handler)
    (hfallback : Brackets fallbackHandler) : Brackets (syncQuery q handler fallbackHandler) := by
  unfold syncQuery
  rcases q.found with _ | ⟨receiver, mutualExecutor⟩
  · cases q.hasFallback with
    | true => exact hfallback
    | false => exact brackets_aborted
  · exact brackets_invoke hhandler mutualExecutor _ receiver _

/-- A call through a proxy, whatever it does under the listener's eyes. -/
theorem brackets_linked (q : LinkedQuery) (hb : Brackets b) : Brackets fun s =>
    if q.implemented then invoke q.mutualExecutor q.sendingComponent q.linkedHandlingComponent q.msgInfo b s else (s, .aborted) := by
  cases q.implemented with
  | true => exact brackets_invoke hb _ _ _ _
  | false => exact brackets_aborted

/-- All code is of this kind, by induction on the tree of its calls. -/
theorem brackets_run (code : Code ε ρ) : Brackets code.run := by
  induction code with
  | ret | throw => exact brackets_silent fun _ => rfl
  | setListener c listener next ih => exact fun s => ih { s with listener := Function.update s.listener c listener }
  | syncQuery q handler fallbackHandler next ihhandler ihfallback ihnext =>
    exact brackets_goOn (brackets_syncQuery q ihhandler ihfallback) ihnext
  | ifSyncQuery q handler next ihhandler ihnext => exact brackets_goOn (brackets_linked q ihhandler) ihnext
  | callLocking q handler resultHandler next ihhandler ihresult ihnext =>
    exact brackets_goOn (brackets_linked q (brackets_andThen ihhandler ihresult)) ihnext

end ListenedAux

open ListenedAux

/-- What a listener is told of a tree of calls is well bracketed: every beginning is closed by an end of the same call, and the calls nest or
follow one another. Where the program aborts, the calls under way are not closed. -/
theorem notifications_bracketed (code : Code ε ρ) (listener : ComponentId → Option ListenerId) (l : ListenerId) :
    Unfinished Closes ((code.run { listener }).2 ≠ .aborted) ((code.run { listener }).1.notifiedTo l) := by
  obtain ⟨added, hadded, hbrackets⟩ := brackets_run code { listener }
  rw [List.nil_append] at hadded
  rw [State.notifiedTo, hadded]
  exact hbrackets l

end ListenedCalls

end Minicomps
