/-
# Scheduling

A scheduling pass starts operations one at a time: as long as there is a free slot,
the best operation that can start is started. It is the one with the highest
priority; on a tie the graph of the older commit wins, and within a graph the
earlier place. A pass of a suspended pipeline starts nothing.

A dependency keeps an operation waiting while it is queued in the operation's own
graph or, where graphs are linked, in a graph before it.
-/
import OperationQueue.Pipeline.Step

namespace OperationQueue

namespace Pipeline

/-! ## Dependencies -/

/-- Look a dependency up along the links between graphs. The first graph that has
the operation decides. A chain of links passes each graph once, so its length is
bounded by their number. -/
def blocksAlong (p : Pipeline) (dep : Identity) : Nat → Option Snapshot → Bool
  | 0, _ => false
  | _ + 1, none => false
  | fuel + 1, some snapshot =>
    match p.graphs.get? snapshot with
    | none => false
    | some g =>
      match g.blocks? dep with
      | some blocks => blocks
      | none => blocksAlong p dep fuel g.previous

/-- Whether a dependency keeps the operations of a graph waiting. -/
def dependencyBlocks (p : Pipeline) (snapshot : Snapshot) (dep : Identity) : Bool :=
  p.blocksAlong dep (p.graphCount + 1) (some snapshot)

/-! ## The next operation -/

/-- The graphs that may start operations: all of them under the flat algorithm, and
the first that is not finished under the commit algorithm. -/
def eligibleGraphs (p : Pipeline) : List (Snapshot × Graph) :=
  match p.algorithm with
  | .commit => (p.graphs.find? fun _ g => g.hasUnfinished).toList
  | .flat => p.graphs.entries

/-- A place in the queue: the snapshot of a graph, a position in it, and the
operation that stands there. -/
structure Place where
  /-- The snapshot of the graph. -/
  snapshot : Snapshot
  /-- The position in the graph. -/
  index : Nat
  /-- The operation. -/
  operation : Operation

/-- Of the best place so far and the best place of one more graph the one with the
higher priority; the earlier on a tie. -/
def betterPlace (p : Pipeline) (now : Instant) (best : Option Place) :
    Snapshot × Graph → Option Place
  | (snapshot, g) =>
    match g.nextReady? p.holds now (p.dependencyBlocks snapshot) with
    | none => best
    | some (index, op) =>
      match best with
      | some place =>
        if op.priority ≤ place.operation.priority then best else some ⟨snapshot, index, op⟩
      | none => some ⟨snapshot, index, op⟩

/-- The operation to start next. -/
def nextReady? (p : Pipeline) (now : Instant) : Option Place :=
  p.eligibleGraphs.foldl (p.betterPlace now) none

/-- Whether one more operation may run. -/
def hasFreeSlot (p : Pipeline) : Bool := p.limit == 0 || p.activeCount < p.limit

/-! ## A pass -/

/-- Start at most a number of operations. -/
def startUpTo (now : Instant) : Nat → Pipeline → List Operation × Pipeline
  | 0, p => ([], p)
  | n + 1, p =>
    if p.hasFreeSlot then
      match p.nextReady? now with
      | none => ([], p)
      | some place =>
        let started := { place.operation with status := .active }
        let (more, p) := startUpTo now n
          (p.update started.id fun op => { op with status := .active })
        (started :: more, p)
    else ([], p)

/-- A scheduling pass. It starts no operation twice, so the length of the queue
bounds it. -/
def schedule (p : Pipeline) (now : Instant) : List Operation × Pipeline :=
  if p.isSuspended then ([], p) else startUpTo now p.operations.length p

/-- Announce whether the pipeline is active, if that changed. -/
def announce (p : Pipeline) (dispatch : List Operation) (events : List Event) : Step × Pipeline :=
  if p.isActive = p.activeFlag then (⟨dispatch, events⟩, p)
  else
    (⟨dispatch, events ++ [.activeChanged p.isActive]⟩, { p with activeFlag := p.isActive })

/-- Close a change with a scheduling pass. -/
def reschedule (p : Pipeline) (now : Instant) (events : List Event) : Step × Pipeline :=
  let (dispatch, p) := p.schedule now
  p.announce dispatch events

/-- Close a change without a scheduling pass. -/
def settle (p : Pipeline) (events : List Event) : Step × Pipeline := p.announce [] events

end Pipeline

end OperationQueue
