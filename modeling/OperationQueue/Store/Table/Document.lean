/-
# Tables in a file

Between runs the tables are kept in a file, as a document with one part for each row.
The file begins with a byte that no text has, so that no text is taken for tables. A
file that is empty, or has one byte, stands for tables without rows.
-/
import OperationQueue.Store.Table
import OperationQueue.Toml.Document
import OperationQueue.Toml.Writing

namespace OperationQueue.TableStore

open Toml

/-! ## Writing -/

/-- The bytes of an operation in hexadecimal digits. -/
def payloadText (payload : List UInt8) : String :=
  String.ofList (payload.flatMap fun byte => Digits.write 16 2 byte.toNat)

/-- The value of a cell; a double is an array with the count of its units. -/
def cellText : Cell → String
  | .number n => toString n
  | .double units => "[" ++ toString units ++ "]"
  | .text content => quote content

/-- The part for the row of a pipeline. -/
def pipelinePart (row : PipelineRow) : String :=
  elementLine "pipelines" ++ entryLine "name" (quote row.name) ++
    entryLine "algorithm" (cellText row.algorithm)

/-- The part for the row of an operation. -/
def operationPart (row : OperationRow) : String :=
  elementLine "operations" ++ entryLine "rowid" (toString row.rowid) ++
    entryLine "identity" (quote row.identity) ++ entryLine "pipeline" (toString row.pipeline) ++
    entryLine "snapshot" (cellText row.snapshot) ++ entryLine "status" (quote row.status) ++
    entryLine "priority" (cellText row.priority) ++
    entryLine "dependencies" (quote row.dependencies) ++
    entryLine "payload" (quote (payloadText row.payload))

/-- The part for a hold. -/
def holdPart (identity context date : String) : String :=
  elementLine "holds" ++ entryLine "identity" (quote identity) ++
    entryLine "context" (quote context) ++ entryLine "date" (quote date)

/-- The document of tables. -/
def toDocument (s : TableStore) : String :=
  entryLine "layout" (toString layout) ++ entryLine "last_rowid" (toString s.lastRowid) ++
    (s.lastSnapshot.elim "" fun cell => entryLine "last_snapshot" (cellText cell)) ++
    String.join (s.pipelines.map pipelinePart) ++ String.join (s.operations.map operationPart) ++
    String.join (s.holds.entries.flatMap fun (identity, dates) =>
      dates.entries.map fun (context, date) => holdPart identity context date)

/-! ## Reading -/

/-- The text under a key. -/
def textUnder? (key : String) (entries : Entries) : Option String :=
  (find? key entries).bind Value.text?

/-- The whole number under a key. -/
def integerUnder? (key : String) (entries : Entries) : Option Int :=
  (find? key entries).bind Value.integer?

/-- The cell that a value stands for. -/
def cell? : Value → Option Cell
  | .integer n => some (.number n)
  | .array [.integer units] => some (.double units)
  | .string content => some (.text content)
  | _ => none

/-- The cell under a key. -/
def cellUnder? (key : String) (entries : Entries) : Option Cell :=
  (find? key entries).bind cell?

/-- The row number under a key. -/
def rowidUnder? (key : String) (entries : Entries) : Option Nat :=
  (integerUnder? key entries).map Int.toNat

/-- The bytes of pairs of hexadecimal digits. -/
def bytes? : List Char → Option (List UInt8)
  | [] => some []
  | a :: b :: rest => do return UInt8.ofNat (← Digits.read? 16 [a, b]) :: (← bytes? rest)
  | _ => none

/-- All parts of a kind, read one by one. -/
def partsUnder? {α : Type} (key : String) (read : Entries → Option α) (entries : Entries) :
    Option (List α) :=
  match find? key entries with
  | none => some []
  | some v => v.elements?.bind fun parts => parts.mapM fun part => part.entries?.bind read

/-- The row of a pipeline. -/
def pipelineRow? (entries : Entries) : Option PipelineRow := do
  return ⟨← textUnder? "name" entries, ← cellUnder? "algorithm" entries⟩

/-- The row of an operation. -/
def operationRow? (entries : Entries) : Option OperationRow := do
  return {
    rowid := ← rowidUnder? "rowid" entries
    identity := ← textUnder? "identity" entries
    pipeline := ← integerUnder? "pipeline" entries
    snapshot := ← cellUnder? "snapshot" entries
    status := ← textUnder? "status" entries
    priority := ← cellUnder? "priority" entries
    dependencies := ← textUnder? "dependencies" entries
    payload := ← (textUnder? "payload" entries).bind fun text => bytes? text.toList }

/-- A hold: an identity, a context and a date. -/
def hold? (entries : Entries) : Option (String × String × String) := do
  return (← textUnder? "identity" entries, ← textUnder? "context" entries,
    ← textUnder? "date" entries)

/-- Add a hold to those that are read. -/
def addHold (holds : OrderedMap String (OrderedMap String String))
    (hold : String × String × String) : OrderedMap String (OrderedMap String String) :=
  let (identity, context, date) := hold
  holds.insert identity (((holds.get? identity).getD .empty).insert context date)

/-- The tables of a document. -/
def ofEntries? (entries : Entries) : Option TableStore := do
  if (← rowidUnder? "layout" entries) ≠ layout then none
  return {
    pipelines := ← partsUnder? "pipelines" pipelineRow? entries
    operations := ← partsUnder? "operations" operationRow? entries
    lastRowid := ← rowidUnder? "last_rowid" entries
    holds := (← partsUnder? "holds" hold? entries).foldl addHold .empty
    lastSnapshot := cellUnder? "last_snapshot" entries }

/-- The byte at the beginning of a file. -/
def mark : UInt8 := 0xFF

/-- Whether a file has no tables yet. -/
def isNewFile (content : ByteArray) : Bool := content.size ≤ 1

/-- The tables in a file. -/
def ofFile (content : ByteArray) : Except Error TableStore :=
  if isNewFile content then .ok empty
  else if content.data[0]? ≠ some mark then .error .storage
  else
    match ((String.fromUTF8? (content.extract 1 content.size)).bind parse).bind ofEntries? with
    | some s => .ok s
    | none => .error .storage

/-- The file for tables. -/
def toFile (s : TableStore) : ByteArray := ⟨#[mark]⟩ ++ s.toDocument.toUTF8

end OperationQueue.TableStore
