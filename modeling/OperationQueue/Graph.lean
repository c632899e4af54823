/-
# Graphs

The operations that one commit added form a graph, known by the snapshot of that
commit. Under the flat algorithm a graph also remembers the graph before it, so
that a dependency can be looked up backwards through earlier commits.
-/
import OperationQueue.HoldTable
import OperationQueue.Operation

namespace OperationQueue

/-- The operations of one commit that are still queued. -/
structure Graph where
  /-- The snapshot of the commit. -/
  snapshot : Snapshot
  /-- The operations, in the order in which they were added. -/
  operations : List Operation
  /-- The snapshot of the graph before this one, where graphs are linked. -/
  previous : Option Snapshot
deriving DecidableEq, Inhabited

namespace Graph

/-- A graph without operations. -/
def empty (snapshot : Snapshot) : Graph := ⟨snapshot, [], none⟩

/-- Append an operation; it takes the snapshot of the graph. -/
def push (g : Graph) (op : Operation) : Graph :=
  { g with operations := g.operations ++ [{ op with snapshot := g.snapshot }] }

/-- A graph of some operations. -/
def ofOperations (snapshot : Snapshot) (ops : List Operation) : Graph :=
  ops.foldl push (empty snapshot)

/-- The operation with an identity. -/
def find? (g : Graph) (id : Identity) : Option Operation := g.operations.find? (·.id == id)

/-- Whether the graph has an operation. -/
def contains (g : Graph) (id : Identity) : Bool := (g.find? id).isSome

/-- Change the first operation with an identity. -/
def update (g : Graph) (id : Identity) (f : Operation → Operation) : Graph :=
  { g with operations := Operation.updateFirst id f g.operations }

/-- Whether some operation has not finished. -/
def hasUnfinished (g : Graph) : Bool := g.operations.any fun op => !op.isTerminal

/-- The number of operations that are running. -/
def activeCount (g : Graph) : Nat := g.operations.countP (·.status == .active)

/-- Whether an operation of the graph would keep one that depends on it waiting;
`none` if the graph has no such operation. -/
def blocks? (g : Graph) (id : Identity) : Option Bool :=
  (g.find? id).map fun op => !op.isTerminal

/-- The operations that have finished. -/
def finished (g : Graph) : List Operation := g.operations.filter Operation.isTerminal

/-- The graph without the operations that have finished. -/
def reap (g : Graph) : Graph :=
  { g with operations := g.operations.filter fun op => !op.isTerminal }

/-! ## The next operation to start -/

/-- An operation can start when it is waiting, is not held, and none of its
dependencies blocks. -/
def canStart (holds : HoldTable) (now : Instant) (blocked : Identity → Bool)
    (op : Operation) : Bool :=
  op.status == .pending && !holds.isHeld op.id now && !op.dependencies.toList.any blocked

/-- Of two candidates the one with the higher priority; the earlier on a tie. -/
def better (best : Option (Nat × Operation)) (index : Nat) (op : Operation) :
    Option (Nat × Operation) :=
  match best with
  | some (_, chosen) => if op.priority ≤ chosen.priority then best else some (index, op)
  | none => some (index, op)

/-- The best operation of a list that can start, with its position, given the
best one so far. -/
def bestFrom (startable : Operation → Bool) (index : Nat) (best : Option (Nat × Operation)) :
    List Operation → Option (Nat × Operation)
  | [] => best
  | op :: rest =>
    bestFrom startable (index + 1) (if startable op then better best index op else best) rest

/-- The operation to start next: of those that can start the one with the highest
priority, and of several the earliest. -/
def nextReady? (g : Graph) (holds : HoldTable) (now : Instant) (blocked : Identity → Bool) :
    Option (Nat × Operation) :=
  bestFrom (canStart holds now blocked) 0 none g.operations

end Graph

end OperationQueue
