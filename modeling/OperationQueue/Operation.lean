/-
# Operations

The unit of work that a pipeline schedules. An operation carries what the
scheduler needs (priority, dependencies, status), an opaque payload for the
executor, and, once stored, its row number. A status may be *staged*: it takes
effect when the commit that holds it is applied.
-/
import OperationQueue.Identity
import OperationQueue.OrderedMap
import OperationQueue.Status

namespace OperationQueue

/-- Number of a commit, and of the graph that the commit created. -/
abbrev Snapshot := UInt64

/-- A unit of work. -/
structure Operation where
  /-- The identity by which everyone refers to the operation. -/
  id : Identity
  /-- The row that stores it, once it is stored. -/
  rowid : Option Int
  /-- The snapshot of the graph it belongs to. -/
  snapshot : Snapshot
  /-- Where it stands. -/
  status : Status
  /-- A status that has been asked for and not yet applied. -/
  staged : Option Status
  /-- The operations that have to finish first. -/
  dependencies : OrderedSet Identity
  /-- Larger runs earlier. -/
  priority : Int
  /-- Bytes for the executor. -/
  payload : List UInt8
deriving DecidableEq, Inhabited

namespace Operation

/-- A fresh operation: pending, without dependencies, priority zero. -/
def new (id : Identity) : Operation where
  id := id
  rowid := none
  snapshot := 0
  status := .pending
  staged := none
  dependencies := .empty
  priority := 0
  payload := []

/-- Wait for one more operation. An operation never waits for itself. -/
def addDependency (op : Operation) (dep : Identity) : Operation :=
  if dep = op.id then op else { op with dependencies := op.dependencies.add dep }

/-- Stop waiting for an operation. -/
def removeDependency (op : Operation) (dep : Identity) : Operation :=
  { op with dependencies := op.dependencies.erase dep }

/-- Wait for exactly these operations, itself excepted. -/
def setDependencies (op : Operation) (deps : List Identity) : Operation :=
  { op with dependencies := .ofMembers (deps.filter (· ≠ op.id)) }

/-- Keep only the dependencies that satisfy a condition. -/
def retainDependencies (op : Operation) (keep : Identity → Bool) : Operation :=
  { op with dependencies := op.dependencies.filter fun dep _ => keep dep }

/-- Whether the operation has finished. -/
def isTerminal (op : Operation) : Bool := op.status.isTerminal

/-- Whether the staged status would finish the operation. -/
def finishesWhenApplied (op : Operation) : Bool := op.staged.any Status.isTerminal

/-- The status that the operation will have once what is staged is applied. -/
def effectiveStatus (op : Operation) : Status := op.staged.getD op.status

/-- Let the staged status take effect. -/
def applyStaged (op : Operation) : Operation :=
  { op with status := op.effectiveStatus, staged := none }

/-- Take over what a modification may change: priority, dependencies and
payload. A row number is learnt if none was known; identity, status and snapshot
stay. -/
def mergeModification (op other : Operation) : Operation :=
  { op with
    priority := other.priority
    dependencies := other.dependencies
    payload := other.payload
    rowid := op.rowid.or other.rowid }

/-- Change the first operation of a list that has an identity. -/
def updateFirst (id : Identity) (f : Operation → Operation) : List Operation → List Operation
  | [] => []
  | op :: rest => if op.id = id then f op :: rest else op :: updateFirst id f rest

/-- Whether a list has an operation with an identity. -/
def occurs (id : Identity) (ops : List Operation) : Bool := ops.any (·.id == id)

end Operation

/-! ## Edits -/

/-- Changes that a caller may make to an operation it holds. Absent fields leave
the operation as it is. -/
structure Edit where
  /-- The new priority. -/
  priority : Option Int
  /-- The new set of dependencies. -/
  dependencies : Option (List Identity)
  /-- Dependencies to add afterwards. -/
  added : List Identity
  /-- Dependencies to remove last. -/
  removed : List Identity
  /-- The new payload. -/
  payload : Option (List UInt8)
deriving Inhabited

/-- Make the changes of an edit. -/
def Operation.edit (op : Operation) (e : Edit) : Operation :=
  let op := { op with priority := e.priority.getD op.priority }
  let op := e.dependencies.elim op op.setDependencies
  let op := e.added.foldl addDependency op
  let op := e.removed.foldl removeDependency op
  { op with payload := e.payload.getD op.payload }

/-- An operation named in a request: written out, or as an edit of the copy that
the queue holds. -/
structure Draft where
  /-- The operation as written out. -/
  written : Operation
  /-- The edit to make to the queued copy, when the request asks for that one. -/
  live : Option Edit

/-- The operation that a draft means, given the queue it refers to. -/
def Draft.resolve (draft : Draft) (queued : Identity → Option Operation) : Operation :=
  match draft.live, queued draft.written.id with
  | some e, some op => op.edit e
  | _, _ => draft.written

end OperationQueue
