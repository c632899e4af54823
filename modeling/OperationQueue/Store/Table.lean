/-
# A store in tables

Pipelines, operations and holds are rows of tables, as another program may read and
write them: identities, statuses, dependencies and dates are texts, algorithms and
priorities are numbers, and snapshots are signed words. Every row is checked when it is
read, so a value that somebody else wrote is found out then.

Identities of operations are unique over all pipelines, and an operation needs the
row of a pipeline. A commit that breaks either rule is undone.
-/
import OperationQueue.Store
import OperationQueue.Store.Table.Cell
import OperationQueue.Text.JsonText

namespace OperationQueue

namespace Snapshot

/-- A snapshot as a signed word. -/
def toWord (s : Snapshot) : Int := s.toInt64.toInt

/-- The snapshot of a signed word; a negative one counts as zero. -/
def ofWord (n : Int) : Snapshot := UInt64.ofNat n.toNat

end Snapshot

/-- The row of a pipeline. -/
structure PipelineRow where
  /-- The name. -/
  name : String
  /-- The number of the algorithm. -/
  algorithm : Cell
deriving DecidableEq, Inhabited

/-- The row of an operation. -/
structure OperationRow where
  /-- The number of the row. -/
  rowid : Nat
  /-- The written identity. -/
  identity : String
  /-- The row of the pipeline. -/
  pipeline : Int
  /-- The snapshot of the graph. -/
  snapshot : Cell
  /-- The name of the status. -/
  status : String
  /-- The priority. -/
  priority : Cell
  /-- The list of written identities. -/
  dependencies : String
  /-- The bytes for the executor. -/
  payload : List UInt8
deriving DecidableEq, Inhabited

/-- The tables of a store. -/
structure TableStore where
  /-- The pipelines; the first has row number one. -/
  pipelines : List PipelineRow
  /-- The operations, in the order of their row numbers. -/
  operations : List OperationRow
  /-- The largest row number of an operation given out so far. -/
  lastRowid : Nat
  /-- Written dates by context, by written identity. -/
  holds : OrderedMap String (OrderedMap String String)
  /-- The number of the last commit, once there was one. -/
  lastSnapshot : Option Cell
deriving DecidableEq, Inhabited

namespace TableStore

/-- The number of this layout of the tables. -/
def layout : Nat := 1

/-- Tables without rows. -/
def empty : TableStore where
  pipelines := []
  operations := []
  lastRowid := 0
  holds := .empty
  lastSnapshot := none

/-! ## Pipelines -/

/-- The row number and the algorithm of the pipeline with a name. -/
def findNamed (s : TableStore) (name : String) : Except Error (Option (Nat × Algorithm)) :=
  match s.pipelines.findIdx? (·.name == name) with
  | none => .ok none
  | some index => do
    let code ← Cell.read ((s.pipelines[index]?.map PipelineRow.algorithm).getD (.number 0))
    match Algorithm.ofCode? code with
    | some algorithm => .ok (some (index + 1, algorithm))
    | none => .error (.storedAlgorithm name code)

/-- The first name of a list under which a pipeline is stored. -/
def findFirst (s : TableStore) : List String → Except Error (Option PipelineRecord)
  | [] => .ok none
  | name :: rest => do
    match ← s.findNamed name with
    | some (rowid, algorithm) => return some ⟨rowid, name, some algorithm⟩
    | none => s.findFirst rest

/-- Find a pipeline by its name, or else by the first of its previous names. -/
def lookup (s : TableStore) (name : String) (previous : OrderedSet String) :
    Except Error (Option PipelineRecord) :=
  s.findFirst (name :: previous.toList)

/-- Change the row of a pipeline. -/
def updatePipeline (s : TableStore) (rowid : Int) (f : PipelineRow → PipelineRow) : TableStore :=
  { s with pipelines := s.pipelines.modify (rowid.toNat - 1) f }

/-- Find a pipeline and give it its name, or create it. -/
def register (s : TableStore) (name : String) (previous : OrderedSet String)
    (algorithm : Algorithm) : Except Error (PipelineRecord × TableStore) := do
  match ← s.lookup name previous with
  | some record =>
    return ({ record with name := name },
      s.updatePipeline record.rowid fun row => { row with name := name })
  | none =>
    return (⟨s.pipelines.length + 1, name, none⟩,
      { s with pipelines := s.pipelines ++ [⟨name, .number algorithm.code⟩] })

/-- Whether there is a pipeline with this row number. -/
def hasPipeline (s : TableStore) (rowid : Int) : Bool :=
  1 ≤ rowid && rowid ≤ s.pipelines.length

/-- Overwrite the algorithm of a pipeline. -/
def setAlgorithm (s : TableStore) (rowid : Int) (algorithm : Algorithm) :
    Except Error TableStore :=
  if s.hasPipeline rowid then
    .ok (s.updatePipeline rowid fun row => { row with algorithm := .number algorithm.code })
  else .error (.unknownPipelineRow rowid)

/-! ## Writing operations -/

/-- The text of a set of dependencies. -/
def dependenciesText (dependencies : OrderedSet Identity) : String :=
  JsonText.listPlain (dependencies.toList.map Identity.text)

/-- The row of a new operation. -/
def rowOf (rowid : Nat) (pipeline : Int) (op : Operation) : OperationRow where
  rowid := rowid
  identity := op.id.text
  pipeline := pipeline
  snapshot := .number (Snapshot.toWord op.snapshot)
  status := op.status.name
  priority := .number op.priority
  dependencies := dependenciesText op.dependencies
  payload := op.payload

/-- Change the row of an operation. -/
def updateRow (s : TableStore) (id : Identity) (f : OperationRow → OperationRow) : TableStore :=
  { s with operations := s.operations.map fun row => if row.identity = id.text then f row else row }

/-- Tables in the middle of a commit, with the row numbers given out so far. -/
abbrev Writing := OrderedMap Identity Int × TableStore

/-- Make one write. -/
def write (pipeline : Int) : Writing → RowWrite → Except Error Writing
  | (assigned, s), .insert op =>
    if !s.hasPipeline pipeline || s.operations.any (·.identity == op.id.text) then .error .storage
    else
      let rowid := s.lastRowid + 1
      .ok (assigned.insert op.id rowid,
        { s with
          lastRowid := rowid
          operations := s.operations ++ [rowOf rowid pipeline op] })
  | (assigned, s), .modify op =>
    .ok (assigned, s.updateRow op.id fun row =>
      { row with
        priority := .number op.priority
        dependencies := dependenciesText op.dependencies
        payload := op.payload })
  | (assigned, s), .status id next =>
    .ok (assigned, s.updateRow id fun row => { row with status := next.name })
  | (assigned, s), .delete id =>
    .ok (assigned,
      { s with
        operations := s.operations.filter fun row => row.identity != id.text
        holds := s.holds.erase id.text })

/-- Make the writes of all pipelines. -/
def writeAll (s : TableStore) (changes : List PipelineChangeset) : Except Error Writing :=
  changes.foldlM (fun w change => change.writes.foldlM (write change.rowid) w) (.empty, s)

/-- Make the writes of a commit, all or none. -/
def applyChangesets (s : TableStore) (snapshot : Snapshot) (changes : List PipelineChangeset) :
    Except Error Writing := do
  let (assigned, written) ← s.writeAll changes
  let word := Snapshot.toWord snapshot
  return (assigned,
    { written with lastSnapshot := some (s.lastSnapshot.elim (.number word) (Cell.raise word)) })

/-- Replace the holds of an operation; it need not have a row. -/
def saveHolds (s : TableStore) (id : Identity) (holds : Holds) : TableStore :=
  { s with
    holds :=
      if holds.isEmpty then s.holds.erase id.text
      else s.holds.insert id.text (holds.map fun _ date => date.storedText) }

/-! ## Reading operations -/

/-- Read one date of a hold. -/
def readDate (text : String) : Except Error Instant :=
  match Instant.parse text with
  | .ok date => .ok date
  | .error fault => .error (.storedDate text fault)

/-- Read the holds stored under a written identity, in the order of contexts. -/
def readHolds (s : TableStore) (identity : String) : Except Error Holds := do
  let dates ← (((s.holds.get? identity).getD .empty).entries).mapM fun (context, text) => do
    return (context, ← readDate text)
  return .ofList dates

/-- Read one written identity. -/
def readIdentity (text : String) : Except Error Identity :=
  match Identity.parse text with
  | .ok id => .ok id
  | .error fault => .error (.storedIdentity text fault)

/-- Read a text of dependencies. -/
def readDependencies (text : String) : Except Error (List Identity) :=
  match JsonText.strings? text with
  | none => .error .storedDependencies
  | some texts => texts.mapM fun text =>
    match Identity.parse text with
    | .ok id => .ok id
    | .error _ => .error .storedDependencies

/-- Whether a number can be a priority: it fits in 32 bits. -/
def isPriority (n : Int) : Bool := -2147483648 ≤ n && n ≤ 2147483647

/-- Read one row and its holds. The first value that cannot be read decides: the
numbers, the dates, the identity, the status, the dependencies. -/
def readRow (s : TableStore) (row : OperationRow) : Except Error StoredOperation := do
  let word ← row.snapshot.read
  let priority ← row.priority.read
  if !isPriority priority then throw .storage
  let holds ← s.readHolds row.identity
  let id ← readIdentity row.identity
  match Status.ofName? row.status with
  | none => throw (.storedStatus id row.status)
  | some status =>
    let dependencies ← readDependencies row.dependencies
    let op : Operation :=
      { Operation.new id with
        rowid := some row.rowid
        snapshot := Snapshot.ofWord word
        status := status
        priority := priority
        payload := row.payload }
    return ⟨op.setDependencies dependencies, holds⟩

/-- The operations of a pipeline: by stored snapshot, and in the order of writing. -/
def load (s : TableStore) (pipeline : Int) : Except Error (List StoredOperation) :=
  ((s.operations.filter (·.pipeline == pipeline)).mergeSort fun a b =>
    a.snapshot.isBefore b.snapshot).mapM s.readRow

/-- The number of the last commit. -/
def readLastSnapshot (s : TableStore) : Except Error Snapshot :=
  match s.lastSnapshot with
  | none => .ok 0
  | some cell => cell.read.map Snapshot.ofWord

end TableStore

instance : Store TableStore where
  lookup := TableStore.lookup
  register := TableStore.register
  setAlgorithm := TableStore.setAlgorithm
  lastSnapshot := TableStore.readLastSnapshot
  applyChangesets := TableStore.applyChangesets
  saveHolds s id holds := .ok (s.saveHolds id holds)
  load := TableStore.load

end OperationQueue
