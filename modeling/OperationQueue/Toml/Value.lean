/-
# Values of a TOML document

A document is a table of values. Tables remember how they came about, because that
decides who may add to them: a header may open a table that only an earlier header
mentioned, dotted keys may add to tables that dotted keys made, and a table written
in one piece is closed.
-/

namespace OperationQueue.Toml

/-- How a table came about. -/
inductive Origin
  /-- A header opened it. -/
  | header
  /-- A longer header mentioned it. -/
  | implied
  /-- A dotted key made it. -/
  | dotted
  /-- It was written in one piece. -/
  | closed
deriving DecidableEq

/-- A value of a document. Of numbers with a fraction and of dates only it matters
whether they can be represented. -/
inductive Value
  /-- A text. -/
  | string (content : String)
  /-- A whole number. -/
  | integer (n : Int)
  /-- A number with a fraction or an exponent. -/
  | float (representable : Bool)
  /-- A truth value. -/
  | boolean (b : Bool)
  /-- A date, a time, or both. -/
  | datetime
  /-- An array written in one piece. -/
  | array (elements : List Value)
  /-- An array of tables, each opened by a header of its own. -/
  | tables (elements : List Value)
  /-- A table. -/
  | table (origin : Origin) (entries : List (String × Value))

namespace Value

/-- The content of a text. -/
def text? : Value → Option String
  | string content => some content
  | _ => none

/-- The number of a whole number. -/
def integer? : Value → Option Int
  | integer n => some n
  | _ => none

/-- The truth value. -/
def boolean? : Value → Option Bool
  | boolean b => some b
  | _ => none

/-- The elements of an array of either kind. -/
def elements? : Value → Option (List Value)
  | array elements | tables elements => some elements
  | _ => none

/-- The entries of a table. -/
def entries? : Value → Option (List (String × Value))
  | table _ entries => some entries
  | _ => none

end Value

/-- The entries of a table, in the order of writing. -/
abbrev Entries := List (String × Value)

/-- The value of a key. -/
def find? (key : String) (entries : Entries) : Option Value :=
  (entries.find? (·.1 == key)).map (·.2)

/-- Set the value of a key, at its place or at the end. -/
def put (key : String) (value : Value) : Entries → Entries
  | [] => [(key, value)]
  | (k, v) :: rest => if k = key then (key, value) :: rest else (k, v) :: put key value rest

/-- Go down to the table under a key and change it. The key is made if it is new;
`passes` says which tables may be entered, and of an array of tables the last one is
entered. -/
def descend (made : Origin) (passes : Origin → Bool) (key : String)
    (change : Origin → Entries → Option (Origin × Entries)) (entries : Entries) :
    Option Entries := do
  let rebuilt ←
    match find? key entries with
    | none => (change made []).map fun (origin, inner) => Value.table origin inner
    | some (.table origin inner) =>
      if passes origin then
        (change origin inner).map fun (origin, inner) => Value.table origin inner
      else none
    | some (.tables elements) =>
      match elements.getLast? with
      | some (.table origin inner) =>
        (change origin inner).map fun (origin, inner) =>
          Value.tables (elements.dropLast ++ [.table origin inner])
      | _ => none
    | some _ => none
  return put key rebuilt entries

/-- Change the table that a row of headers leads to. -/
def underHeaders (change : Origin → Entries → Option (Origin × Entries)) :
    List String → Origin → Entries → Option (Origin × Entries)
  | [], origin, entries => change origin entries
  | key :: path, origin, entries =>
    (descend .implied (· ≠ .closed) key (underHeaders change path) entries).map
      fun entries => (origin, entries)

/-- Add a value that a dotted key names. A plain key needs a table that no dotted key
made, and a dotted key ends in one that a dotted key made. -/
def addDotted (dotted : Bool) (value : Value) : List String → Origin → Entries →
    Option (Origin × Entries)
  | [], _, _ => none
  | [key], origin, entries =>
    if dotted = (origin == .dotted) && (find? key entries).isNone then
      some (origin, entries ++ [(key, value)])
    else none
  | key :: path, origin, entries =>
    (descend .dotted (fun o => o = .dotted || o = .implied) key (addDotted dotted value path)
      entries).map fun entries => (origin, entries)

/-- Add a value under a key that may be dotted. -/
def add (path : List String) (value : Value) (origin : Origin) (entries : Entries) :
    Option (Origin × Entries) :=
  addDotted (1 < path.length) value path origin entries

/-- Open the table that a header names: a new one, or one that only longer headers
mentioned. -/
def openTable (key : String) (origin : Origin) (entries : Entries) : Option (Origin × Entries) :=
  match find? key entries with
  | none => some (origin, put key (.table .header []) entries)
  | some (.table .implied inner) => some (origin, put key (.table .header inner) entries)
  | some _ => none

/-- Open one more table of an array of tables. -/
def openElement (key : String) (origin : Origin) (entries : Entries) :
    Option (Origin × Entries) :=
  match find? key entries with
  | none => some (origin, put key (.tables [.table .header []]) entries)
  | some (.tables elements) =>
    some (origin, put key (.tables (elements ++ [.table .header []])) entries)
  | some _ => none

end OperationQueue.Toml
