/-
# Commits

A commit collects what one transaction does to one pipeline: operations *added*,
which form the graph of the commit, operations *inserted* into the graph of an
earlier commit, operations *modified*, and statuses. A status is kept by
identity alone, so a stale copy of an operation cannot undo a newer modification.
An operation that is new in the commit carries its staged status itself.
-/
import OperationQueue.Dependencies
import OperationQueue.Operation

namespace OperationQueue

/-- The staged changes of one pipeline. -/
structure Commit where
  /-- The number of the commit. -/
  snapshot : Snapshot
  /-- New operations of this commit's graph, in order. -/
  added : List Operation
  /-- New operations of other graphs, by the snapshot of the graph. -/
  inserted : OrderedMap Snapshot (List Operation)
  /-- Modified operations that are not new, in order, each once. -/
  modified : List Operation
  /-- Statuses of operations that are not new. -/
  statuses : OrderedMap Identity Status
deriving DecidableEq, Inhabited

/-- One staging request, about operations given in the form `α`. -/
inductive Staging (α : Type)
  /-- Put an operation into the graph of the commit. -/
  | add (op : α)
  /-- Put an operation into the graph of a snapshot. -/
  | insert (op : α) (snapshot : Snapshot)
  /-- Change priority, dependencies and payload. -/
  | modify (op : α)
  /-- Move an operation to a status. -/
  | status (id : Identity) (next : Status)

/-- Replace the form in which operations are given. -/
def Staging.map {α β : Type} (f : α → β) : Staging α → Staging β
  | .add op => .add (f op)
  | .insert op snapshot => .insert (f op) snapshot
  | .modify op => .modify (f op)
  | .status id next => .status id next

namespace Commit

/-- A commit without changes. -/
def new (snapshot : Snapshot) : Commit where
  snapshot := snapshot
  added := []
  inserted := .empty
  modified := []
  statuses := .empty

/-- Whether nothing is staged. -/
def isEmpty (c : Commit) : Bool :=
  c.added.isEmpty && c.inserted.isEmpty && c.modified.isEmpty && c.statuses.isEmpty

/-- The operations inserted into other graphs, by graph. -/
def insertedOperations (c : Commit) : List Operation := c.inserted.values.flatten

/-- All new operations: those for other graphs, then those of this commit. -/
def newOperations (c : Commit) : List Operation := c.insertedOperations ++ c.added

/-- Whether an operation is new in the commit. -/
def isNew (c : Commit) (id : Identity) : Bool := Operation.occurs id c.newOperations

/-! ## Staging -/

/-- A new operation as it is staged: pending, in its graph, with a status that
was staged for it before. -/
def prepare (c : Commit) (op : Operation) (snapshot : Snapshot) : Operation :=
  { op with
    snapshot := snapshot
    status := .pending
    staged := (c.statuses.get? op.id).or op.staged }

/-- Stage an operation for the graph of the commit. -/
def add (c : Commit) (op : Operation) : Commit :=
  { c with
    added := c.added ++ [c.prepare op c.snapshot]
    statuses := c.statuses.erase op.id }

/-- Stage an operation for the graph of a snapshot. -/
def insert (c : Commit) (op : Operation) (snapshot : Snapshot) : Commit :=
  { c with
    inserted := c.inserted.insert snapshot
      ((c.inserted.get? snapshot).getD [] ++ [c.prepare op snapshot])
    statuses := c.statuses.erase op.id }

/-- Change the first new operation with an identity, looking first among those of
this commit's graph; `none` if there is none. -/
def updateNew? (c : Commit) (id : Identity) (f : Operation → Operation) : Option Commit :=
  if Operation.occurs id c.added then
    some { c with added := Operation.updateFirst id f c.added }
  else
    (c.inserted.find? fun _ ops => Operation.occurs id ops).map fun (snapshot, ops) =>
      { c with inserted := c.inserted.insert snapshot (Operation.updateFirst id f ops) }

/-- Stage new values of priority, dependencies and payload. For an operation that
is new in the commit they replace the ones it was staged with, and its graph and
staged status stay. -/
def modify (c : Commit) (op : Operation) : Commit :=
  let plain := { op with staged := none }
  let replace (old : Operation) : Operation :=
    { plain with snapshot := old.snapshot, status := .pending, staged := old.staged }
  match c.updateNew? op.id replace with
  | some c => c
  | none =>
    { c with
      modified :=
        if Operation.occurs op.id c.modified then
          Operation.updateFirst op.id (fun _ => plain) c.modified
        else c.modified ++ [plain] }

/-- Stage a status. -/
def setStatus (c : Commit) (id : Identity) (next : Status) : Commit :=
  match c.updateNew? id fun op => { op with staged := some next } with
  | some c => c
  | none => { c with statuses := c.statuses.insert id next }

/-- Carry out a staging request. -/
def stage (c : Commit) : Staging Operation → Commit
  | .add op => c.add op
  | .insert op snapshot => c.insert op snapshot
  | .modify op => c.modify op
  | .status id next => c.setStatus id next

/-- Carry out staging requests one after the other. -/
def stageAll (c : Commit) (items : List (Staging Operation)) : Commit := items.foldl stage c

/-! ## Numbering -/

/-- Give the commit its number; the operations of its graph take it over. -/
def stamp (c : Commit) (snapshot : Snapshot) : Commit :=
  { c with
    snapshot := snapshot
    added := c.added.map fun op => { op with snapshot := snapshot } }

/-- Tell the operations their row numbers. -/
def assignRowids (c : Commit) (rowids : OrderedMap Identity Int) : Commit :=
  let assign (op : Operation) : Operation :=
    { op with rowid := (rowids.get? op.id).or op.rowid }
  { c with
    added := c.added.map assign
    inserted := c.inserted.map fun _ ops => ops.map assign
    modified := c.modified.map assign }

/-! ## Cycles -/

/-- Whether an operation finishes by this commit. -/
def finishes (c : Commit) (id : Identity) : Bool :=
  (c.statuses.get? id).any Status.isTerminal ||
    c.newOperations.any fun op => op.id == id && op.finishesWhenApplied

/-- The operations of a queue as the commit leaves them: modified ones count as
modified, and new ones come after those that stay. -/
def resulting (c : Commit) (queued : List Operation) : List Operation :=
  queued.filter (fun op => !Operation.occurs op.id c.modified) ++ c.newOperations ++ c.modified

/-- An operation that would wait for itself once the commit is applied to a
queue. -/
def cycleMember? (c : Commit) (queued : List Operation) : Option Identity :=
  (Dependencies.ofOperations c.finishes (c.resulting queued)).cycleMember?

end Commit

end OperationQueue
