/-
# Pipelines

A pipeline is a queue of operations together with the policy that decides which of
them runs next. The queue is a row of graphs, one for each commit that still has
operations, in the order of the commits. The policy is the algorithm, the limit on
running operations, the holds, and a count of the reasons to suspend.

Nothing here knows a clock, a store or an executor. The current time is an
argument, and what has to happen outside is an answer.
-/
import OperationQueue.Algorithm
import OperationQueue.Graph

namespace OperationQueue

/-- The state of a pipeline. -/
structure Pipeline where
  /-- The name under which everyone knows the pipeline. -/
  name : String
  /-- Which graphs may start operations. -/
  algorithm : Algorithm
  /-- How many operations may run at once; zero stands for any number. -/
  limit : Nat
  /-- How often the pipeline was suspended and not resumed. -/
  suspendCount : Nat
  /-- The graphs, by the snapshots of their commits. -/
  graphs : OrderedMap Snapshot Graph
  /-- The dates until which operations are held. -/
  holds : HoldTable
  /-- Whether the pipeline was last announced as active. -/
  activeFlag : Bool
deriving DecidableEq, Inhabited

namespace Pipeline

/-- The limit of a pipeline that is given none. -/
def defaultLimit : Nat := 8

/-- A pipeline with an empty queue. -/
def new (name : String) (algorithm : Algorithm) : Pipeline where
  name := name
  algorithm := algorithm
  limit := defaultLimit
  suspendCount := 0
  graphs := .empty
  holds := .empty
  activeFlag := false

/-! ## Questions -/

/-- All queued operations, graph by graph. -/
def operations (p : Pipeline) : List Operation := p.graphs.values.flatMap (·.operations)

/-- The queued operation with an identity. -/
def operation? (p : Pipeline) (id : Identity) : Option Operation :=
  p.operations.find? (·.id == id)

/-- Whether an operation is queued. -/
def isQueued (p : Pipeline) (id : Identity) : Bool := (p.operation? id).isSome

/-- The status of a queued operation. -/
def status? (p : Pipeline) (id : Identity) : Option Status := (p.operation? id).map (·.status)

/-- The status of a queued operation, and whether it is held now. -/
def statusAndHold? (p : Pipeline) (id : Identity) (now : Instant) : Option (Status × Bool) :=
  (p.status? id).map fun status => (status, p.holds.isHeld id now)

/-- The operations that are running. -/
def activeOperations (p : Pipeline) : List Operation :=
  p.operations.filter (·.status == .active)

/-- The number of operations that are running. -/
def activeCount (p : Pipeline) : Nat := p.activeOperations.length

/-- Whether there is a reason to start nothing. -/
def isSuspended (p : Pipeline) : Bool := 0 < p.suspendCount

/-- A pipeline is active while operations run, and while it may start some. -/
def isActive (p : Pipeline) : Bool :=
  0 < p.activeCount || (!p.isSuspended && p.graphs.values.any Graph.hasUnfinished)

/-- The number of graphs. -/
def graphCount (p : Pipeline) : Nat := p.graphs.size

/-- The snapshot of the graph at a position. -/
def snapshotAt? (p : Pipeline) (index : Nat) : Option Snapshot := p.graphs.keys[index]?

/-- The position of the graph of a snapshot. -/
def indexOf? (p : Pipeline) (snapshot : Snapshot) : Option Nat :=
  p.graphs.keys.idxOf? snapshot

/-- The operations of each graph. -/
def graphOperations (p : Pipeline) : List (List Operation) :=
  p.graphs.values.map (·.operations)

/-- The operations with the positions of their graphs. -/
def indexedOperations (p : Pipeline) : List (Nat × Operation) :=
  p.graphOperations.zipIdx.flatMap fun (ops, index) => ops.map fun op => (index, op)

/-- The first date at which a waiting operation stops being held. -/
def nextHoldExpiry (p : Pipeline) (now : Instant) : Option Instant :=
  p.holds.nextExpiry ((p.operations.filter (·.status == .pending)).map (·.id)) now

/-! ## Changes to the queue -/

/-- Change the queued operations with an identity. -/
def update (p : Pipeline) (id : Identity) (f : Operation → Operation) : Pipeline :=
  { p with graphs := p.graphs.map fun _ g => g.update id f }

/-- The snapshot of the graph before a snapshot. -/
def precedingSnapshot? (p : Pipeline) (snapshot : Snapshot) : Option Snapshot :=
  (p.graphs.keys.filter (· < snapshot)).getLast?

/-- Link each graph to the one before it, where the algorithm looks backwards. -/
def relink (p : Pipeline) : Pipeline :=
  { p with
    graphs := p.graphs.map fun snapshot g =>
      { g with
        previous := if p.algorithm = .flat then p.precedingSnapshot? snapshot else none } }

end Pipeline

end OperationQueue
