import Minicomps.Event
import Minicomps.Theorems.PolyRef

/-!
# When every subscriber gets the event that was sent

`enqueue_work` moves the event into the first task that is enqueued, so all later subscribers get what the move has left behind.
-/

namespace Minicomps

namespace EventAux

open Event

variable {α : Type*} {movedFrom : α → α} {id : MessageId} {owner : ComponentId} {w : World}

/-- The event each subscriber gets. -/
def values (movedFrom : α → α) : List ReceiverHandler → α → List (ReceiverHandler × α)
  | [], _ => []
  | h :: handlers, e => (h, e) :: values movedFrom handlers (if h.sameExecutor then e else movedFrom e)

end EventAux

open Event EventAux

end Minicomps
