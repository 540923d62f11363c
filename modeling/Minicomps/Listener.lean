import Minicomps.Component

/-!
# What a listener is told

A `component_listener` is told of every message: when it is put on a queue, and when its handler is invoked directly.
-/

namespace Minicomps

/-- `message_type`. -/
inductive MessageType where
  | request | response | lockedRequest | lockedResponse | event
  deriving DecidableEq, Repr

/-- Which function of a `component_listener` is called. -/
inductive ListenerCallback where
  | onEnqueue | onInvoke
  deriving DecidableEq, Repr

/-- A call of a listener. -/
structure Notification where
  listener : ListenerId
  callback : ListenerCallback
  sender : ComponentId
  receiver : ComponentId
  info : MessageId
  type : MessageType
  deriving DecidableEq, Repr

/-- `if (listener) listener->...`: the calls this makes. -/
def notify (listener : Option ListenerId) (callback : ListenerCallback) (sender receiver : ComponentId) (info : MessageId)
    (type : MessageType) : List Notification :=
  match listener with
  | some l => [{ listener := l, callback, sender, receiver, info, type }]
  | none => []

end Minicomps
