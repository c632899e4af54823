/-
# Applying commits

A commit is applied to the queue in a fixed order. Modifications and statuses
change operations in place; then finished operations leave, with their holds; then
new operations join, those for earlier graphs first. References to operations that
nobody knows are dropped on the way in, because nothing could ever satisfy them.
-/
import OperationQueue.Pipeline.Scheduling
import OperationQueue.Transaction

namespace OperationQueue

namespace Pipeline

/-- Refuse a commit after which some operation would wait for itself. -/
def checkCommit (p : Pipeline) (c : Commit) : Except Error Unit := c.checkAgainst p.operations

/-- Whether an identity means something when a commit is applied: it is new in the
commit, or queued. -/
def knows (p : Pipeline) (c : Commit) (id : Identity) : Bool := c.isNew id || p.isQueued id

/-- An operation without the references that mean nothing. -/
def pruned (p : Pipeline) (c : Commit) (op : Operation) : Operation :=
  op.retainDependencies (p.knows c)

/-- Modify queued operations. Gives the identities of those that were queued. -/
def modifyAll (c : Commit) : List Operation → Pipeline → List Identity × Pipeline
  | [], p => ([], p)
  | op :: rest, p =>
    if p.isQueued op.id then
      let (ids, p) := modifyAll c rest
        (p.update op.id fun old => old.mergeModification (p.pruned c op))
      (op.id :: ids, p)
    else modifyAll c rest p

/-- Move queued operations to committed statuses, where their life cycle allows it.
Gives the identities of those that moved. -/
def moveAll : List (Identity × Status) → Pipeline → List Identity × Pipeline
  | [], p => ([], p)
  | (id, next) :: rest, p =>
    if (p.operation? id).any fun op => op.status != next && op.status.canBecome next then
      let (ids, p) := moveAll rest (p.update id fun op => { op with status := next })
      (id :: ids, p)
    else moveAll rest p

/-- The identities of finished operations. -/
def finishedIds (p : Pipeline) : List Identity :=
  (p.graphs.values.flatMap Graph.finished).map (·.id)

/-- Let finished operations leave, with their holds, and drop graphs that are empty
then. -/
def reap (p : Pipeline) : Pipeline :=
  { p with
    graphs := (p.graphs.map fun _ g => g.reap).filter fun _ g => !g.operations.isEmpty
    holds := p.finishedIds.foldl HoldTable.remove p.holds }

/-- What happens to the new operations of a commit. -/
structure Arrivals where
  /-- Those that joined the queue. -/
  joined : List Identity
  /-- Those that were finished before they could join. -/
  finished : List Identity

/-- Let one operation join the graph of a snapshot. -/
def join (p : Pipeline) (c : Commit) (snapshot : Snapshot) (op : Operation) : Pipeline :=
  { p with
    graphs := p.graphs.insert snapshot
      (((p.graphs.get? snapshot).getD (Graph.empty snapshot)).push (p.pruned c op)) }

/-- Let operations join the graphs of their snapshots. One that is queued already is
ignored, and one that is staged to finish never joins. -/
def enqueueAll (c : Commit) : List (Snapshot × Operation) → Pipeline → Arrivals × Pipeline
  | [], p => (⟨[], []⟩, p)
  | (snapshot, op) :: rest, p =>
    if p.isQueued op.id then enqueueAll c rest p
    else
      let op := op.applyStaged
      if op.isTerminal then
        let (arrivals, p) := enqueueAll c rest p
        ({ arrivals with finished := op.id :: arrivals.finished }, p)
      else
        let (arrivals, p) := enqueueAll c rest (p.join c snapshot op)
        ({ arrivals with joined := op.id :: arrivals.joined }, p)

/-- The operations that a commit puts into other graphs, with the snapshots of
those graphs. -/
def insertions (c : Commit) : List (Snapshot × Operation) :=
  c.inserted.entries.flatMap fun (snapshot, ops) => ops.map fun op => (snapshot, op)

/-- The operations that a commit puts into its own graph, with its snapshot. -/
def additions (c : Commit) : List (Snapshot × Operation) :=
  c.added.map fun op => (c.snapshot, op)

/-- The event of a change to the queue, if anything changed. -/
def queueEvent (added inserted modified removed : List Identity) : List Event :=
  if added.isEmpty && inserted.isEmpty && modified.isEmpty && removed.isEmpty then []
  else [.queueChanged added inserted modified removed]

/-- Change the queue as a commit says. Gives the events of the change. -/
def changeQueue (p : Pipeline) (c : Commit) : List Event × Pipeline :=
  let (modified, p) := modifyAll c c.modified p
  let (moved, p) := moveAll c.statuses.entries p
  let reaped := p.finishedIds
  let (inserted, p) := enqueueAll c (insertions c) p.reap
  let (added, p) := enqueueAll c (additions c) p
  (queueEvent added.joined inserted.joined
      (modified ++ moved.filter fun id => id ∉ modified)
      (reaped ++ inserted.finished ++ added.finished),
    p.relink)

/-- Apply a commit, and look for work. -/
def applyCommit (p : Pipeline) (c : Commit) (now : Instant) : Step × Pipeline :=
  let (events, p) := p.changeQueue c
  p.reschedule now events

end Pipeline

end OperationQueue
