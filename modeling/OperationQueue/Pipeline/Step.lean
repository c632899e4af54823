/-
# Steps

Every change of a pipeline answers with a step: the operations that are to be
handed to the executor and the events that are to be published, in this order of
making and in the reverse order of carrying out.
-/
import OperationQueue.Pipeline

namespace OperationQueue

/-- What a pipeline tells those who watch it. -/
inductive Event
  /-- The queue changed. An operation that was added and finished by one commit is
  removed without having been added. -/
  | queueChanged (added inserted modified removed : List Identity)
  /-- The count of suspensions changed. -/
  | suspendCountChanged (count : Nat)
  /-- The pipeline became active or idle. -/
  | activeChanged (active : Bool)
deriving DecidableEq

/-- What has to happen outside after a change. -/
structure Step where
  /-- Operations to hand to the executor, in order. -/
  dispatch : List Operation
  /-- Events to publish, in order. -/
  events : List Event
deriving DecidableEq, Inhabited

namespace Step

/-- Nothing happens. -/
def empty : Step := ⟨[], []⟩

/-- Whether nothing happens. -/
def isEmpty (s : Step) : Bool := s.dispatch.isEmpty && s.events.isEmpty

end Step

end OperationQueue
