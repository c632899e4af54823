/-
# Stores that cannot be written

A store that may only be read. Registering a pipeline that is there under its name
changes nothing, so that is possible; every write is refused.
-/
import OperationQueue.Store

namespace OperationQueue

/-- A store that may only be read. -/
structure ReadOnly (σ : Type) where
  /-- The store. -/
  store : σ

namespace ReadOnly

variable {σ : Type} [Store σ]

/-- Find a pipeline that need not be created or renamed. -/
def register (s : ReadOnly σ) (name : String) (previous : OrderedSet String) :
    Except Error PipelineRecord := do
  match ← Store.lookup s.store name previous with
  | some record => if record.name = name then return record else throw .storage
  | none => throw .storage

instance : Store (ReadOnly σ) where
  lookup s := Store.lookup s.store
  register s name previous _ := (s.register name previous).map fun record => (record, s)
  setAlgorithm _ _ _ := .error .storage
  lastSnapshot s := Store.lastSnapshot s.store
  applyChangesets _ _ _ := .error .storage
  saveHolds _ _ _ := .error .storage
  load s := Store.load s.store

end ReadOnly

end OperationQueue
