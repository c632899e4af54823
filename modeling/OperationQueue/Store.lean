/-
# Stores

A store keeps pipelines, their operations and the holds across restarts. What it
has to offer is a class, so that everything above works with any store. A store
that fails gives no new state: the caller goes on with the old one.
-/
import OperationQueue.Commit.Changeset
import OperationQueue.Error
import OperationQueue.StoredOperation

namespace OperationQueue

/-- What a store knows of a pipeline. -/
structure PipelineRecord where
  /-- The number of the row. -/
  rowid : Int
  /-- The name it is stored under. -/
  name : String
  /-- The algorithm it was stored with, if it was stored before. -/
  storedAlgorithm : Option Algorithm
deriving DecidableEq

/-- The row writes for one pipeline. -/
structure PipelineChangeset where
  /-- The row of the pipeline. -/
  rowid : Int
  /-- The writes, in order. -/
  writes : List RowWrite

/-- A place that keeps pipelines and their operations. -/
class Store (σ : Type) where
  /-- Find a pipeline by its name or else by a previous name. -/
  lookup : σ → String → OrderedSet String → Except Error (Option PipelineRecord)
  /-- Find a pipeline in this way and give it its name, or create it. -/
  register : σ → String → OrderedSet String → Algorithm → Except Error (PipelineRecord × σ)
  /-- Overwrite the algorithm of a pipeline. -/
  setAlgorithm : σ → Int → Algorithm → Except Error σ
  /-- The number of the last commit. -/
  lastSnapshot : σ → Except Error Snapshot
  /-- Make the writes of a commit, all or none. Gives the row numbers of the new
  operations. -/
  applyChangesets : σ → Snapshot → List PipelineChangeset →
    Except Error (OrderedMap Identity Int × σ)
  /-- Replace the holds of an operation. -/
  saveHolds : σ → Identity → Holds → Except Error σ
  /-- The operations of a pipeline by snapshot, and in the order of writing. -/
  load : σ → Int → Except Error (List StoredOperation)

namespace Store

/-- The number of the next commit. -/
def nextSnapshot {σ : Type} [Store σ] (s : σ) : Except Error Snapshot :=
  (lastSnapshot s).map (· + 1)

end Store

end OperationQueue
