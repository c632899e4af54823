/-
# Row writes of a commit

What a store has to write for a commit. New operations are inserted with their
staged status, unless they finish at once; then modifications are written, and
last the statuses, where an operation that finishes loses its row. An identity
that is new or finishes has no other write.
-/
import OperationQueue.Commit

namespace OperationQueue

/-- One write to the rows of a store. -/
inductive RowWrite
  /-- Store a new operation. -/
  | insert (op : Operation)
  /-- Overwrite priority, dependencies and payload. -/
  | modify (op : Operation)
  /-- Overwrite the status. -/
  | status (id : Identity) (next : Status)
  /-- Remove the row and the holds. -/
  | delete (id : Identity)
deriving DecidableEq

/-- The operation that a write is about. -/
def RowWrite.id : RowWrite → Identity
  | .insert op | .modify op => op.id
  | .status id _ | .delete id => id

namespace Commit

/-- The write for a staged status. -/
def statusWrite (id : Identity) (next : Status) : RowWrite :=
  if next.isTerminal then .delete id else .status id next

/-- Whether a modification has to be written: the row is neither new nor about to
be removed. -/
def writesModification (c : Commit) (op : Operation) : Bool :=
  !(c.statuses.get? op.id).any Status.isTerminal && !c.isNew op.id

/-- The row writes of a commit, in the order in which they are made. -/
def changeset (c : Commit) : List RowWrite :=
  (c.newOperations.filter fun op => !op.finishesWhenApplied).map (fun op => .insert op.applyStaged)
    ++ (c.modified.filter c.writesModification).map .modify
    ++ c.statuses.entries.map fun (id, next) => statusWrite id next

end Commit

end OperationQueue
