import Mathlib.Logic.Relation
import Mathlib.Order.Basic
import Mathlib.Order.Nat
import Minicomps.Lib.History

/-!
# Causality between processes with mailboxes

Processes that send each other messages. A message waits in the mailbox of the process that it is for, and each process receives its
messages in the order they are in; it may send some to itself. An event happens before another one when the first comes first in the same
process, or the first sends the message that the second receives, or there are events in between that lead from the one to the other like
this.
-/

namespace Causality

open History

variable {π : Type*}

/-- What happens. Messages have numbers. -/
inductive Event (π : Type*) where
  /-- A process sends a message, or somebody does who is none of them. -/
  | sent (source : Option π) (target : π) (m : Nat)
  | received (target : π) (m : Nat)
  /-- The process does something else. -/
  | own (p : π)
  deriving DecidableEq, Repr

/-- The process in which it happens. -/
def Event.process : Event π → Option π
  | .sent source _ _ => source
  | .received target _ => some target
  | .own p => some p

/-- The one event leads to the other at once. -/
inductive Leads (h : List (Event π)) (i j : Nat) : Prop where
  | order {e e' : Event π} {p : π} (hlt : i < j) (hi : h[i]? = some e) (hj : h[j]? = some e') (hp : e.process = some p)
    (hp' : e'.process = some p)
  | message {source : Option π} {p : π} {m : Nat} (hlt : i < j) (hi : h[i]? = some (.sent source p m))
    (hj : h[j]? = some (.received p m))

/-- The relation between the places in a history. -/
def HappensBefore (h : List (Event π)) : Nat → Nat → Prop := Relation.TransGen (Leads h)

theorem Leads.lt {h : List (Event π)} {i j : Nat} : Leads h i j → i < j
  | .order hlt .. => hlt
  | .message hlt .. => hlt

theorem HappensBefore.lt {h : List (Event π)} {i j : Nat} (hij : HappensBefore h i j) : i < j := by
  induction hij with
  | single hij => exact hij.lt
  | tail _ hjk ih => exact ih.trans hjk.lt

/-! ## Messages in order -/

/-- What came before an event: messages are numbered in the order they are sent, and when one is received all that were sent to the same
process before have been. -/
def InOrder (past : List (Event π)) : Event π → Prop
  | .sent _ _ m => ∀ source' p' m', .sent source' p' m' ∈ past → m' < m
  | .received p m => ∀ earlier source later, past = earlier ++ .sent source p m :: later →
      ∀ source' m', .sent source' p m' ∈ earlier → .received p m' ∈ past
  | .own _ => True

section Order

variable {h : List (Event π)}

/-- An event and what came before it. -/
theorem inOrder_at (hh : AllJustified InOrder h) {j : Nat} {e : Event π} (hj : h[j]? = some e) : InOrder (h.take j) e := by
  obtain ⟨hlt, rfl⟩ := List.getElem?_eq_some_iff.mp hj
  refine hh (h.take j) h[j] (h.drop (j + 1)) ?_
  rw [← List.drop_eq_getElem_cons hlt, List.take_append_drop]

theorem mem_take_of_getElem? {i j : Nat} {e : Event π} (hij : i < j) (hi : h[i]? = some e) : e ∈ h.take j := by
  refine List.mem_of_getElem? (i := i) ?_
  rw [List.getElem?_take, if_pos hij, hi]

theorem exists_lt_of_mem_take {j : Nat} {e : Event π} (he : e ∈ h.take j) : ∃ k < j, h[k]? = some e := by
  obtain ⟨k, hk⟩ := List.mem_iff_getElem?.mp he
  rw [List.getElem?_take] at hk
  split at hk
  · rename_i hlt
    exact ⟨k, hlt, hk⟩
  · cases hk

/-- Of two messages to a process, the one that was sent first is received first. -/
theorem received_of_sent_before (hh : AllJustified InOrder h) {i i' j : Nat} {source source' : Option π} {p : π} {m m' : Nat}
    (hii' : i < i') (hi : h[i]? = some (.sent source p m)) (hi' : h[i']? = some (.sent source' p m')) (hi'j : i' < j)
    (hj : h[j]? = some (.received p m')) : ∃ k < j, h[k]? = some (.received p m) := by
  have hpast : InOrder (h.take j) (.received p m') := inOrder_at hh hj
  obtain ⟨hlt, hget⟩ := List.getElem?_eq_some_iff.mp hi'
  have hsplit : h.take j = h.take i' ++ .sent source' p m' :: (h.take j).drop (i' + 1) := by
    have hlt' : i' < (h.take j).length := by
      rw [List.length_take]
      omega
    have htake : (h.take j).take i' = h.take i' := by rw [List.take_take, Nat.min_eq_left hi'j.le]
    have hget' : (h.take j)[i'] = .sent source' p m' := by rw [List.getElem_take, hget]
    rw [← htake, ← hget', ← List.drop_eq_getElem_cons hlt', List.take_append_drop]
  exact exists_lt_of_mem_take (hpast _ source' _ hsplit source m (mem_take_of_getElem? hii' hi))

/-- Whatever a process does after the sending of a message to it by somebody else, in the order of causes, it does not do before it has
received the message. -/
theorem received_of_happensBefore (hh : AllJustified InOrder h) {i j : Nat} {source : Option π} {p : π} {m : Nat} {e : Event π}
    (hsource : source ≠ some p) (hij : HappensBefore h i j) (hi : h[i]? = some (.sent source p m)) (hj : h[j]? = some e)
    (he : e.process = some p) : ∃ k ≤ j, h[k]? = some (.received p m) := by
  induction hij generalizing e with
  | single hij =>
    rcases hij with ⟨-, hi', hj', hp, hp'⟩ | ⟨-, hi', hj'⟩
    · -- the sender is the receiver
      obtain rfl := Option.some.inj (hi.symm.trans hi')
      obtain rfl := Option.some.inj (hj.symm.trans hj')
      exact absurd (hp.trans (hp'.symm.trans he)) hsource
    · obtain ⟨-, rfl, rfl⟩ := Event.sent.inj (Option.some.inj (hi.symm.trans hi'))
      exact ⟨_, le_rfl, hj'⟩
  | @tail j' j hij hjj' ih =>
    rcases hjj' with ⟨hlt, hi', hj', hp, hp'⟩ | ⟨hlt, hi', hj'⟩
    · obtain rfl := Option.some.inj (hj.symm.trans hj')
      obtain ⟨k, hk, hreceived⟩ := ih hi' (hp.trans (hp'.symm.trans he))
      exact ⟨k, hk.trans hlt.le, hreceived⟩
    · -- another message, which was sent later, brings the cause
      obtain rfl := Option.some.inj (hj.symm.trans hj')
      obtain rfl := Option.some.inj he
      obtain ⟨k, hk, hreceived⟩ := received_of_sent_before hh (HappensBefore.lt hij) hi hi' hlt hj'
      exact ⟨k, hk.le, hreceived⟩

end Order

/-! ## Mailboxes -/

/-- The history is in order, `next` is the number of the next message, and the boxes have what has been sent and not received. -/
structure Mailboxes (h : List (Event π)) (next : Nat) (box : π → List Nat) : Prop where
  inOrder : AllJustified InOrder h
  numbered : ∀ source p m, .sent source p m ∈ h → m < next
  waiting : ∀ source p m, .sent source p m ∈ h → .received p m ∈ h ∨ m ∈ box p
  sorted : ∀ p, (box p).Pairwise (· < ·)
  known : ∀ p, ∀ m ∈ box p, m < next

namespace Mailboxes

variable {h : List (Event π)} {next : Nat} {box box' : π → List Nat}

theorem nil : Mailboxes ([] : List (Event π)) 0 (fun _ => []) where
  inOrder := allJustified_nil
  numbered _ _ _ hm := absurd hm List.not_mem_nil
  waiting _ _ _ hm := absurd hm List.not_mem_nil
  sorted _ := List.Pairwise.nil
  known _ _ hm := absurd hm List.not_mem_nil

theorem congr (hh : Mailboxes h next box) (hbox : ∀ p, box' p = box p) : Mailboxes h next box' := by
  obtain rfl : box' = box := funext hbox
  exact hh

theorem own (hh : Mailboxes h next box) (p : π) : Mailboxes (h ++ [.own p]) next box where
  inOrder := hh.inOrder.snoc trivial
  numbered source q m hm := hh.numbered source q m (by simpa using hm)
  waiting source q m hm := (hh.waiting source q m (by simpa using hm)).imp_left (List.mem_append_left _)
  sorted := hh.sorted
  known := hh.known

/-- A message is sent. -/
theorem send (hh : Mailboxes h next box) {source : Option π} {p : π} (hself : box' p = box p ++ [next])
    (hother : ∀ q, q ≠ p → box' q = box q) : Mailboxes (h ++ [.sent source p next]) (next + 1) box' where
  inOrder := hh.inOrder.snoc hh.numbered
  numbered source' q m hm := by
    rcases List.mem_append.mp hm with hm | hm
    · exact (hh.numbered source' q m hm).trans (Nat.lt_succ_self next)
    · obtain ⟨-, -, rfl⟩ := Event.sent.inj (List.mem_singleton.mp hm)
      exact Nat.lt_succ_self m
  waiting source' q m hm := by
    rcases List.mem_append.mp hm with hm | hm
    · refine (hh.waiting source' q m hm).imp (List.mem_append_left _) fun hbox => ?_
      by_cases hq : q = p
      · subst hq
        rw [hself]
        exact List.mem_append_left _ hbox
      · rwa [hother q hq]
    · obtain ⟨-, rfl, rfl⟩ := Event.sent.inj (List.mem_singleton.mp hm)
      rw [hself]
      exact Or.inr (List.mem_append_right _ (List.mem_singleton_self m))
  sorted q := by
    by_cases hq : q = p
    · subst hq
      rw [hself]
      refine List.pairwise_append.mpr ⟨hh.sorted q, List.pairwise_singleton .., fun m hm m' hm' => ?_⟩
      rw [List.mem_singleton.mp hm']
      exact hh.known q m hm
    · rw [hother q hq]
      exact hh.sorted q
  known q m hm := by
    by_cases hq : q = p
    · subst hq
      rw [hself] at hm
      rcases List.mem_append.mp hm with hm | hm
      · exact (hh.known q m hm).trans (Nat.lt_succ_self next)
      · rw [List.mem_singleton.mp hm]
        exact Nat.lt_succ_self next
    · rw [hother q hq] at hm
      exact (hh.known q m hm).trans (Nat.lt_succ_self next)

/-- A process receives the first message of its box. -/
theorem receive (hh : Mailboxes h next box) {p : π} {m : Nat} (hself : box p = m :: box' p) (hother : ∀ q, q ≠ p → box' q = box q) :
    Mailboxes (h ++ [.received p m]) next box' where
  inOrder := by
    refine hh.inOrder.snoc fun earlier source later hsplit source' m' hm' => ?_
    have hsent : .sent source' p m' ∈ h := hsplit ▸ List.mem_append_left _ hm'
    have hlt : m' < m := hh.inOrder earlier _ later hsplit source' p m' hm'
    refine (hh.waiting source' p m' hsent).resolve_right fun hbox => ?_
    -- the box is sorted, so nothing in it is older than what is received
    have hsorted := hh.sorted p
    rw [hself] at hbox hsorted
    rcases List.mem_cons.mp hbox with rfl | hrest
    · exact Nat.lt_irrefl _ hlt
    · exact Nat.lt_asymm hlt ((List.pairwise_cons.mp hsorted).1 m' hrest)
  numbered source q m' hm := hh.numbered source q m' (by simpa using hm)
  waiting source q m' hm := by
    rcases hh.waiting source q m' (by simpa using hm) with hreceived | hbox
    · exact Or.inl (List.mem_append_left _ hreceived)
    · by_cases hq : q = p
      · subst hq
        rw [hself] at hbox
        rcases List.mem_cons.mp hbox with rfl | hrest
        · exact Or.inl (List.mem_append_right _ (List.mem_singleton_self _))
        · exact Or.inr hrest
      · rw [hother q hq]
        exact Or.inr hbox
  sorted q := by
    by_cases hq : q = p
    · subst hq
      have hsorted := hh.sorted q
      rw [hself] at hsorted
      exact (List.pairwise_cons.mp hsorted).2
    · rw [hother q hq]
      exact hh.sorted q
  known q m' hm := by
    by_cases hq : q = p
    · subst hq
      exact hh.known q m' (hself ▸ List.mem_cons_of_mem m hm)
    · exact hh.known q m' (hother q hq ▸ hm)

end Mailboxes

end Causality
