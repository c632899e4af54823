/-
# A store in memory

Everything is kept as it is. Pipelines are numbered in the order of their creation,
and so are rows, whose numbers are never given out twice.
-/
import OperationQueue.Store

namespace OperationQueue

/-- An operation and the pipeline it belongs to. -/
structure MemoryRow where
  /-- The row of the pipeline. -/
  pipeline : Int
  /-- The operation, with its row number. -/
  operation : Operation
deriving DecidableEq

/-- A store in memory. -/
structure MemoryStore where
  /-- Names and algorithms of the pipelines, in the order of their row numbers. -/
  pipelines : List (String × Algorithm)
  /-- The largest row number of an operation given out so far. -/
  lastRowid : Nat
  /-- The rows, in the order of their numbers. -/
  rows : List MemoryRow
  /-- The holds. -/
  holds : HoldTable
  /-- The number of the last commit. -/
  lastSnapshot : Snapshot
deriving DecidableEq, Inhabited

namespace MemoryStore

/-- A store that keeps nothing. -/
def empty : MemoryStore where
  pipelines := []
  lastRowid := 0
  rows := []
  holds := .empty
  lastSnapshot := 0

/-! ## Pipelines -/

/-- The position of the first pipeline whose name satisfies a condition. -/
def position? (s : MemoryStore) (p : String → Bool) : Option Nat :=
  s.pipelines.findIdx? fun (name, _) => p name

/-- The position of a pipeline: by its name, or else that of the oldest pipeline
that has one of the previous names. -/
def find? (s : MemoryStore) (name : String) (previous : OrderedSet String) : Option Nat :=
  (s.position? (· == name)).or (s.position? previous.contains)

/-- Find a pipeline. -/
def lookup (s : MemoryStore) (name : String) (previous : OrderedSet String) :
    Option PipelineRecord := do
  let index ← s.find? name previous
  let (stored, algorithm) ← s.pipelines[index]?
  return ⟨index + 1, stored, some algorithm⟩

/-- Find a pipeline and give it its name, or create it. -/
def register (s : MemoryStore) (name : String) (previous : OrderedSet String)
    (algorithm : Algorithm) : PipelineRecord × MemoryStore :=
  match s.lookup name previous with
  | some record =>
    ({ record with name := name },
      { s with
        pipelines := s.pipelines.modify (record.rowid.toNat - 1) fun (_, stored) =>
          (name, stored) })
  | none =>
    (⟨s.pipelines.length + 1, name, none⟩,
      { s with pipelines := s.pipelines ++ [(name, algorithm)] })

/-- Overwrite the algorithm of a pipeline. -/
def setAlgorithm (s : MemoryStore) (rowid : Int) (algorithm : Algorithm) :
    Except Error MemoryStore :=
  if 1 ≤ rowid ∧ rowid ≤ s.pipelines.length then
    .ok { s with
      pipelines := s.pipelines.modify (rowid.toNat - 1) fun (name, _) => (name, algorithm) }
  else .error (.unknownPipelineRow rowid)

/-! ## Operations -/

/-- Whether an operation has a row. -/
def isStored (s : MemoryStore) (id : Identity) : Bool := s.rows.any (·.operation.id == id)

/-- Change the operation of a row. -/
def updateRow (s : MemoryStore) (id : Identity) (f : Operation → Operation) : MemoryStore :=
  { s with
    rows := s.rows.map fun row =>
      if row.operation.id = id then { row with operation := f row.operation } else row }

/-- A store in the middle of a commit, with the row numbers given out so far. -/
abbrev Writing := OrderedMap Identity Int × MemoryStore

/-- Make one write. -/
def write (pipeline : Int) : Writing → RowWrite → Except Error Writing
  | (assigned, s), .insert op =>
    if s.isStored op.id then .error (.alreadyStored op.id)
    else
      let rowid := s.lastRowid + 1
      .ok (assigned.insert op.id rowid,
        { s with
          lastRowid := rowid
          rows := s.rows ++ [⟨pipeline, { op with rowid := some rowid }⟩] })
  | (assigned, s), .modify op =>
    .ok (assigned, s.updateRow op.id fun old => old.mergeModification op)
  | (assigned, s), .status id next =>
    .ok (assigned, s.updateRow id fun op => { op with status := next })
  | (assigned, s), .delete id =>
    .ok (assigned,
      { s with
        rows := s.rows.filter fun row => row.operation.id != id
        holds := s.holds.remove id })

/-- Make the writes of all pipelines. -/
def writeAll (s : MemoryStore) (changes : List PipelineChangeset) : Except Error Writing :=
  changes.foldlM (fun w change => change.writes.foldlM (write change.rowid) w) (.empty, s)

/-- Make the writes of a commit, all or none. -/
def applyChangesets (s : MemoryStore) (snapshot : Snapshot) (changes : List PipelineChangeset) :
    Except Error Writing := do
  let (assigned, written) ← s.writeAll changes
  return (assigned, { written with lastSnapshot := max s.lastSnapshot snapshot })

/-- The operations of a pipeline: by snapshot, and in the order of writing. -/
def load (s : MemoryStore) (pipeline : Int) : List StoredOperation :=
  ((s.rows.filter (·.pipeline == pipeline)).mergeSort fun a b =>
    a.operation.snapshot ≤ b.operation.snapshot).map fun row =>
      ⟨row.operation, s.holds.ofOperation row.operation.id⟩

end MemoryStore

instance : Store MemoryStore where
  lookup s name previous := .ok (s.lookup name previous)
  register s name previous algorithm := .ok (s.register name previous algorithm)
  setAlgorithm := MemoryStore.setAlgorithm
  lastSnapshot s := .ok s.lastSnapshot
  applyChangesets := MemoryStore.applyChangesets
  saveHolds s id holds := .ok { s with holds := s.holds.replace id holds }
  load s pipeline := .ok (s.load pipeline)

end OperationQueue
