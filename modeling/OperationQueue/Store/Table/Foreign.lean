/-
# Foreign writes

The tables are open to other programs, which may overwrite any value. A write is
refused only where it would give two rows one identity.
-/
import OperationQueue.Store.Table

namespace OperationQueue

/-- A value that somebody else writes, and where. -/
inductive ForeignWrite
  /-- The written identity of an operation. -/
  | identity (id : Identity) (text : String)
  /-- The snapshot of an operation. -/
  | snapshot (id : Identity) (word : Cell)
  /-- The status of an operation. -/
  | status (id : Identity) (text : String)
  /-- The priority of an operation. -/
  | priority (id : Identity) (number : Cell)
  /-- The dependencies of an operation. -/
  | dependencies (id : Identity) (text : String)
  /-- The algorithm of the pipeline with a name. -/
  | algorithm (name : String) (code : Cell)
  /-- The date of a hold. -/
  | hold (id : Identity) (context text : String)
  /-- The number of the last commit. -/
  | lastSnapshot (word : Cell)

namespace TableStore

/-- The number of rows of an operation: none or one. -/
def rowCount (s : TableStore) (id : Identity) : Nat :=
  s.operations.countP (·.identity == id.text)

/-- Overwrite part of the row of an operation. -/
def overwriteRow (s : TableStore) (id : Identity) (f : OperationRow → OperationRow) :
    Except Error (Nat × TableStore) :=
  .ok (s.rowCount id, s.updateRow id f)

/-- Overwrite a value. Gives the number of rows that had it. -/
def overwrite (s : TableStore) : ForeignWrite → Except Error (Nat × TableStore)
  | .identity id text =>
    if 0 < s.rowCount id && id.text != text && s.operations.any (·.identity == text) then
      .error .storage
    else s.overwriteRow id fun row => { row with identity := text }
  | .snapshot id word => s.overwriteRow id fun row => { row with snapshot := word }
  | .status id text => s.overwriteRow id fun row => { row with status := text }
  | .priority id number => s.overwriteRow id fun row => { row with priority := number }
  | .dependencies id text => s.overwriteRow id fun row => { row with dependencies := text }
  | .algorithm name code =>
    .ok (s.pipelines.countP (·.name == name),
      { s with pipelines := s.pipelines.map fun row =>
          if row.name = name then { row with algorithm := code } else row })
  | .hold id context text =>
    let dates := (s.holds.get? id.text).getD .empty
    if dates.contains context then
      .ok (1, { s with holds := s.holds.insert id.text (dates.insert context text) })
    else .ok (0, s)
  | .lastSnapshot word =>
    .ok (if s.lastSnapshot.isSome then (1, { s with lastSnapshot := some word }) else (0, s))

end TableStore

end OperationQueue
