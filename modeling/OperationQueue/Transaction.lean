/-
# Transactions

A transaction stages changes of several pipelines, each by its name. Finishing it
checks every staged commit by itself, drops those that change nothing, and numbers
the others.
-/
import OperationQueue.Commit
import OperationQueue.Error

namespace OperationQueue

namespace Commit

/-- Refuse a commit after which some operation of a queue waits for itself. -/
def checkAgainst (c : Commit) (queued : List Operation) : Except Error Unit :=
  match c.cycleMember? queued with
  | some id => .error (.cycle c.snapshot id)
  | none => .ok ()

/-- Refuse a commit that has a cycle of its own. -/
def check (c : Commit) : Except Error Unit := c.checkAgainst []

end Commit

/-- Staged changes, by the name of the pipeline. -/
structure Transaction where
  /-- The staged commits. -/
  commits : OrderedMap String Commit
deriving DecidableEq, Inhabited

namespace Transaction

/-- A transaction without changes. -/
def empty : Transaction := ⟨.empty⟩

/-- The commit staged for a pipeline; a new one before the first change. -/
def commit (tx : Transaction) (pipeline : String) : Commit :=
  (tx.commits.get? pipeline).getD (Commit.new 0)

/-- Mention a pipeline without changing it. -/
def touch (tx : Transaction) (pipeline : String) : Transaction :=
  ⟨tx.commits.insert pipeline (tx.commit pipeline)⟩

/-- Stage one change for a pipeline. -/
def stage (tx : Transaction) (pipeline : String) (item : Staging Operation) : Transaction :=
  ⟨tx.commits.insert pipeline ((tx.commit pipeline).stage item)⟩

/-- The pipelines mentioned, ascending. -/
def pipelines (tx : Transaction) : List String := tx.commits.keys

/-- Whether nothing is staged for any pipeline. -/
def isEmpty (tx : Transaction) : Bool := tx.commits.values.all Commit.isEmpty

/-- The commits that change something, under their number. The first cycle, in
order of names, refuses them all; it is found before the commits are numbered. -/
def finish (tx : Transaction) (snapshot : Snapshot) : Except Error (OrderedMap String Commit) := do
  tx.commits.values.forM Commit.check
  return (tx.commits.filter fun _ c => !c.isEmpty).map fun _ c => c.stamp snapshot

end Transaction

end OperationQueue
