/-
# Reading a configuration

A configuration is written as a TOML document. It has a section for the program, one
for what pipelines share, and one for each pipeline, and every option may be left
out. Unknown keys do not count, except that their numbers must be ones that can be
represented at all.

A section is a table of options. It may also be an array, which gives the options by
their place and may end early, or a date, which gives none of them.
-/
import OperationQueue.Config
import OperationQueue.Toml.Document

namespace OperationQueue.Config

open Toml

/-! ## Values of options -/

/-- A number that fits into 64 bits. -/
def number? (v : Value) : Option Nat :=
  v.integer?.bind fun n => if 0 ≤ n && n < 0x10000000000000000 then some n.toNat else none

/-- An array of texts. -/
def texts? (v : Value) : Option (List String) := v.elements?.bind fun vs => vs.mapM Value.text?

/-- Whether a value is a table or an array with nothing in it. -/
def isEmptyValue : Value → Bool
  | .array elements | .tables elements => elements.isEmpty
  | .table _ entries => entries.isEmpty
  | _ => false

/-- An algorithm: its name, or a table with the name as its only key and nothing
under it. -/
def algorithm? : Value → Option Algorithm
  | .string name => Algorithm.ofName? name
  | .table _ [(name, value)] => if isEmptyValue value then Algorithm.ofName? name else none
  | _ => none

/-! ## Sections -/

mutual

/-- Whether all numbers in a value can be represented. -/
def numbersFit : Value → Bool
  | .integer n => isRepresentable n
  | .float representable => representable
  | .array elements | .tables elements => numbersFitIn elements
  | .table _ entries => numbersFitUnder entries
  | _ => true

/-- Whether all numbers in the elements of an array can be represented. -/
def numbersFitIn : List Value → Bool
  | [] => true
  | v :: rest => numbersFit v && numbersFitIn rest

/-- Whether all numbers in the entries of a table can be represented. -/
def numbersFitUnder : List (String × Value) → Bool
  | [] => true
  | (_, v) :: rest => numbersFit v && numbersFitUnder rest

end

/-- Whether the entries under keys other than the given ones can be passed over. -/
def othersFit (keys : List String) (entries : Entries) : Bool :=
  numbersFitUnder (entries.filter fun entry => !keys.contains entry.1)

/-- Whether a value is a section with the given options. -/
def isSection (keys : List String) : Value → Bool
  | .table _ entries => othersFit keys entries
  | .array _ | .tables _ | .datetime => true
  | _ => false

/-- What a section with the given options says of one of them. -/
def optionOf? (keys : List String) (key : String) : Value → Option Value
  | .table _ entries => find? key entries
  | .array elements | .tables elements => elements[keys.idxOf key]?
  | _ => none

/-- Read an option that may be left out. -/
def readOr {α : Type} (absent : α) (read : Value → Option α) : Option Value → Option α
  | none => some absent
  | some v => read v

/-- The options of the section for the program. -/
def programKeys : List String := ["max_hold_wait_ms"]

/-- The options that pipelines share. -/
def sharedKeys : List String := ["max_concurrent_operation_count"]

/-- The options of a pipeline, in the order in which an array gives them. -/
def pipelineKeys : List String :=
  ["algorithm", "max_concurrent_operation_count", "previous_names", "migrate_algorithm"]

/-- The longest sleep that the section for the program gives. -/
def holdWait? (v : Value) : Option Nat :=
  if isSection programKeys v then
    readOr defaultHoldWait number? (optionOf? programKeys "max_hold_wait_ms" v)
  else none

/-- The limit that pipelines share. -/
def sharedLimit? (v : Value) : Option (Option Nat) :=
  if isSection sharedKeys v then
    readOr none (fun v => (number? v).map some)
      (optionOf? sharedKeys "max_concurrent_operation_count" v)
  else none

/-- The section of a pipeline. -/
def pipeline? (v : Value) : Option PipelineSection := do
  let option (key : String) : Option Value := optionOf? pipelineKeys key v
  if !isSection pipelineKeys v then none
  return {
    algorithm := ← readOr .commit algorithm? (option "algorithm")
    limit := ← readOr none (fun v => (number? v).map some) (option "max_concurrent_operation_count")
    previousNames := ← readOr [] texts? (option "previous_names")
    migrate := ← readOr false Value.boolean? (option "migrate_algorithm") }

/-- A pipeline and its section. -/
def named? (entry : String × Value) : Option (String × PipelineSection) :=
  (pipeline? entry.2).map fun options => (entry.1, options)

/-- The table of all pipelines. -/
def pipelines? (v : Value) : Option (OrderedMap String PipelineSection) :=
  (v.entries?.bind fun entries => entries.mapM named?).map OrderedMap.ofList

/-! ## Documents and files -/

/-- The keys of a document that have a meaning. -/
def documentKeys : List String := ["config", "default", "pipeline"]

/-- The configuration that a document stands for. -/
def ofEntries? (entries : Entries) : Option Config := do
  if !othersFit documentKeys entries then none
  return {
    maxHoldWait := ← readOr defaultHoldWait holdWait? (find? "config" entries)
    defaultLimit := ← readOr none sharedLimit? (find? "default" entries)
    pipelines := ← readOr OrderedMap.empty pipelines? (find? "pipeline" entries) }

/-- The configuration that a text stands for, whether it can be used or not. -/
def ofText (text : String) : Except Error Config :=
  match (Toml.parse text).bind ofEntries? with
  | some config => .ok config
  | none => .error .malformedConfig

/-- The configuration in a file; `none` stands for a file that is not there. A file
must be text in UTF-8. -/
def ofFile (content : Option ByteArray) : Except Error Config :=
  match content.bind String.fromUTF8? with
  | some text => ofText text
  | none => .error .unreadableFile

/-- The configuration in a file, if it can be used. -/
def load (content : Option ByteArray) : Except Error Config := do
  let config ← ofFile content
  config.check
  return config

end OperationQueue.Config
