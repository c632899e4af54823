/-
# Restoring a pipeline

After a restart the queue is built again from what was stored. The first record of
an identity counts, and a finished operation is not queued again. Nothing is
started: that is left to the next scheduling pass.
-/
import OperationQueue.Error
import OperationQueue.Pipeline
import OperationQueue.StoredOperation

namespace OperationQueue

namespace Pipeline

/-- Refuse to run a stored pipeline under another algorithm, unless the change was
asked for. -/
def checkAlgorithm (pipeline : String) (stored : Option Algorithm) (configured : Algorithm)
    (migrate : Bool) : Except Error Unit :=
  match stored with
  | some previous =>
    if previous ≠ configured ∧ !migrate then
      .error (.algorithmChanged pipeline previous configured)
    else .ok ()
  | none => .ok ()

/-- The records whose identity was not met before. -/
def firstRecords (seen : List Identity) : List StoredOperation → List StoredOperation
  | [] => []
  | r :: rest =>
    if r.operation.id ∈ seen then firstRecords seen rest
    else r :: firstRecords (r.operation.id :: seen) rest

/-- The records that are queued again, without what was staged. -/
def restorable (records : List StoredOperation) : List StoredOperation :=
  ((firstRecords [] records).filter fun r => !r.operation.isTerminal).map fun r =>
    { r with operation := { r.operation with staged := none } }

/-- Put an operation into the graph of its snapshot. -/
def intoGraph (graphs : OrderedMap Snapshot Graph) (op : Operation) : OrderedMap Snapshot Graph :=
  graphs.insert op.snapshot
    (((graphs.get? op.snapshot).getD (Graph.empty op.snapshot)).push op)

/-- Replace the queue and the holds by stored ones. Gives the number of operations
that are queued then. -/
def restore (p : Pipeline) (records : List StoredOperation) : Nat × Pipeline :=
  let kept := restorable records
  let p := relink { p with
    graphs := (kept.map (·.operation)).foldl intoGraph .empty
    holds := kept.foldl (fun holds r => holds.replace r.operation.id r.holds) .empty }
  (kept.length, { p with activeFlag := p.isActive })

/-- What has to be stored to restore the queue. -/
def stored (p : Pipeline) : List StoredOperation :=
  p.operations.map fun op => ⟨op, p.holds.ofOperation op.id⟩

end Pipeline

end OperationQueue
