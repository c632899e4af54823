/-
# Reading a TOML document

A document is read line by line: a header opens a table, and a key with a value adds
to the table that was opened last. A value may itself hold values; each takes at
least one character, so the length of the text bounds the depth and the number of
values. Brackets may be nested up to a fixed depth.
-/
import OperationQueue.Toml.Scalar
import OperationQueue.Toml.Text

namespace OperationQueue.Toml

/-! ## Blanks, comments and keys -/

/-- Skip blanks within a line. -/
def skipBlanks (cs : List Char) : List Char := cs.dropWhile isBlank

/-- The rest of a line that has nothing more than blanks and a comment, after the end
of the line. -/
def lineEnd (cs : List Char) : Option (List Char) :=
  let rest :=
    match skipBlanks cs with
    | '#' :: comment => comment.dropWhile isPrintable
    | rest => rest
  match rest with
  | [] => some []
  | '\n' :: rest => some rest
  | '\r' :: '\n' :: rest => some rest
  | _ => none

/-- Skip blanks, comments and ends of lines, as they may stand between brackets. -/
def skipLines : Nat → List Char → List Char
  | 0, cs => cs
  | fuel + 1, cs =>
    match skipBlanks cs with
    | '#' :: rest =>
      match lineEnd ('#' :: rest) with
      | some rest => skipLines fuel rest
      | none => '#' :: rest
    | '\n' :: rest => skipLines fuel rest
    | '\r' :: '\n' :: rest => skipLines fuel rest
    | rest => rest

/-- Skip all that may stand between brackets. -/
def skipAll (cs : List Char) : List Char := skipLines (cs.length + 1) cs

/-- Whether a character may stand in a key without quotes. -/
def isBareKeyChar (c : Char) : Bool := c.isAlphanum || c = '_' || c = '-'

/-- One part of a key. -/
def keyPart (cs : List Char) : Read String :=
  match cs with
  | '"' :: rest => (basic rest).map fun (content, rest) => (String.ofList content, rest)
  | '\'' :: rest => (literal rest).map fun (content, rest) => (String.ofList content, rest)
  | _ =>
    match cs.takeWhile isBareKeyChar with
    | [] => none
    | name => some (String.ofList name, cs.dropWhile isBareKeyChar)

/-- A key: parts with dots between them, and blanks around the dots. -/
def keyPath : Nat → List Char → Option (List String × List Char)
  | 0, _ => none
  | fuel + 1, cs => do
    let (part, rest) ← keyPart (skipBlanks cs)
    match skipBlanks rest with
    | '.' :: rest =>
      let (parts, rest) ← keyPath fuel rest
      return (part :: parts, rest)
    | rest => return ([part], rest)

/-- How deep brackets may be nested, and how many parts a key may have. -/
def maxDepth : Nat := 80

/-- A key up to the character after it. -/
def key (cs : List Char) : Read (List String) :=
  (keyPath (cs.length + 1) cs).filter fun (path, _) => path.length ≤ maxDepth

/-! ## Values -/

mutual

/-- A value, with the number of brackets that may still be opened. -/
def value : Nat → Nat → List Char → Read Value
  | 0, _, _ => none
  | fuel + 1, depth, cs =>
    match cs with
    | [] => none
    | c :: rest =>
      if c = '"' || c = '\'' then (quoted cs).map fun (text, rest) => (.string text, rest)
      else if c = '[' then
        if depth = 0 then none
        else (elements fuel (depth - 1) rest).map fun (vs, rest) => (.array vs, rest)
      else if c = '{' then
        if depth = 0 then none
        else (pairs fuel (depth - 1) [] rest).map fun (es, rest) => (.table .closed es, rest)
      else
        let (run, rest) := splitScalar cs
        (scalar? run).map fun v => (v, rest)

/-- The elements of an array up to its closing bracket. -/
def elements : Nat → Nat → List Char → Option (List Value × List Char)
  | 0, _, _ => none
  | fuel + 1, depth, cs =>
    match skipAll cs with
    | ']' :: rest => some ([], rest)
    | cs => do
      let (v, rest) ← value fuel depth cs
      match skipAll rest with
      | ']' :: rest => return ([v], rest)
      | ',' :: rest =>
        let (vs, rest) ← elements fuel depth rest
        return (v :: vs, rest)
      | _ => none

/-- The pairs of a table in braces up to its closing brace. Lines may end between any
two parts of it, except within a dotted key. -/
def pairs : Nat → Nat → Entries → List Char → Option (Entries × List Char)
  | 0, _, _, _ => none
  | fuel + 1, depth, read, cs =>
    match skipAll cs with
    | '}' :: rest => some (read, rest)
    | cs => do
      let (path, rest) ← key cs
      match skipAll rest with
      | '=' :: rest =>
        let (v, rest) ← value fuel depth (skipAll rest)
        let (_, read) ← add path v .closed read
        match skipAll rest with
        | '}' :: rest => return (read, rest)
        | ',' :: rest => pairs fuel depth read rest
        | _ => none
      | _ => none

end

/-! ## Lines -/

/-- A document as far as it is read. -/
structure Reading where
  /-- The entries of the whole document. -/
  root : Entries
  /-- The header of the table that is open. -/
  header : List String

/-- Change the table that a row of headers leads to. -/
def Reading.change (r : Reading) (path : List String)
    (f : Origin → Entries → Option (Origin × Entries)) : Option Reading :=
  (underHeaders f path .header r.root).map fun (_, root) => { r with root := root }

/-- Open the table or the element of an array of tables that a header names. -/
def Reading.open (r : Reading) (path : List String)
    (opening : String → Origin → Entries → Option (Origin × Entries)) : Option Reading :=
  match path.getLast? with
  | none => none
  | some last => (r.change path.dropLast (opening last)).map fun r => { r with header := path }

/-- A header between brackets, of which the opening ones are read. -/
def header (closing cs : List Char) : Option (List String × List Char) := do
  let (path, rest) ← key cs
  if closing.isPrefixOf rest then return (path, rest.drop closing.length) else none

/-- Read one line. -/
def line (r : Reading) (cs : List Char) : Option (Reading × List Char) := do
  match skipBlanks cs with
  | [] => return (r, [])
  | '#' :: rest => return (r, ← lineEnd ('#' :: rest))
  | '\n' :: rest => return (r, rest)
  | '\r' :: '\n' :: rest => return (r, rest)
  | '[' :: '[' :: rest =>
    let (path, rest) ← header [']', ']'] rest
    return (← r.open path openElement, ← lineEnd rest)
  | '[' :: rest =>
    let (path, rest) ← header [']'] rest
    return (← r.open path openTable, ← lineEnd rest)
  | cs =>
    let (path, rest) ← key cs
    match rest with
    | '=' :: rest =>
      let (v, rest) ← value (rest.length + 1) maxDepth (skipBlanks rest)
      return (← r.change r.header (add path v), ← lineEnd rest)
    | _ => none

/-- Read all lines. -/
def lines : Nat → Reading → List Char → Option Entries
  | 0, _, _ => none
  | _ + 1, r, [] => some r.root
  | fuel + 1, r, cs => do
    let (r, rest) ← line r cs
    lines fuel r rest

/-- Read a document; a byte order mark in front does not belong to it. -/
def parse (text : String) : Option Entries :=
  let cs :=
    match text.toList with
    | '\ufeff' :: rest => rest
    | cs => cs
  lines (cs.length + 1) ⟨[], []⟩ cs

end OperationQueue.Toml
