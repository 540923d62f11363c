import Minicomps.Ownership

/-!
# Shutting down

The components and threads of `OwnershipState`, where a component also has its references reset. `reset()` lets go of the strong pointers
that a reference holds, and forgets what the reference has resolved to. `component_base` keeps its references private and calls `reset()`
nowhere, so that whoever resets them does what the comment at `mono_refs_` asks for, with a strong pointer to the component.
-/

namespace Minicomps

/-- `reset()` of each kind of reference, up to the first pointer it drops. The rest of `mono_ref_base::reset` and of
`receiver_handlers_.clear()` is done here too: what is dropped does not lead back to the reference. -/
def OwnedRef.reset : OwnedRef → OwnedRef × List StackFrame
  | .mono kind id r =>
    (.mono kind id { r with handler := none, receivers := none, receiver := none, receiverExecutor := none },
      r.receiver.toList.map StackFrame.drop)
  | .poly id r => (.poly id {}, r.receiverHandlers.map fun h => StackFrame.drop h.receivingComponent)
  | .interface id life r => (.interface id life {}, r.receiver.toList.map StackFrame.drop)

/-- What happens to the components. -/
inductive TeardownAction (n : Nat) where
  | ownership (a : OwnershipAction n)
  /-- `reset()` of one of the owner's references. -/
  | reset (t : Fin n) (owner : ComponentId) (i : Nat)

/-- A shutdown does nothing else: no component is constructed or published, nothing is looked up. -/
def TeardownAction.tearsDown {n : Nat} : TeardownAction n → Bool
  | .reset .. => true
  | .ownership (.world (.unpublishDependencies _)) => true
  | .ownership (.acquire _) | .ownership (.release ..) | .ownership (.advance _) => true
  | .ownership _ => false

def TeardownAction.isReset {n : Nat} : TeardownAction n → Bool
  | .reset .. => true
  | .ownership _ => false

namespace OwnershipState

variable {n : Nat}

/-- `reset()` of a reference, by somebody who has a strong pointer to its component. -/
def resetReference (s : OwnershipState n) (t : Fin n) (owner : ComponentId) (i : Nat) : Option (OwnershipState n) :=
  if s.users owner = 0 then none
  else ((s.references owner)[i]?).map fun ref => (s.setReference owner i ref.reset.1).push t ref.reset.2

/-- A step, where references may be reset. -/
def teardownStep (s : OwnershipState n) : TeardownAction n → Option (OwnershipState n)
  | .ownership a => s.step a
  | .reset t owner i => s.resetReference t owner i

/-- No thread is in the middle of a lookup. -/
def NoLookups (s : OwnershipState n) : Prop := ∀ t, ∀ frame ∈ s.stack t, ∃ c, frame = .drop c

/-- Each reference of a component that is left has been reset in the course of these actions. -/
def ResetsAll (s : OwnershipState n) (acts : List (TeardownAction n)) (s' : OwnershipState n) : Prop :=
  ∀ c ∈ s.components, s'.destroyed c = false → ∀ i < (s.references c).length, ∃ t, .reset t c i ∈ acts

end OwnershipState

end Minicomps
