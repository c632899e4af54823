/-
# Stored operations

What is kept of an operation across restarts: the operation itself and the dates
until which it is held.
-/
import OperationQueue.HoldTable
import OperationQueue.Operation

namespace OperationQueue

/-- An operation together with its holds. -/
structure StoredOperation where
  /-- The operation. -/
  operation : Operation
  /-- The dates until which it is held. -/
  holds : Holds
deriving DecidableEq, Inhabited

end OperationQueue
