/-
# Texts in a TOML document

Four kinds of quotes: single quotes keep everything as it is, double quotes know
escapes, and either may be tripled to go over several lines. Every reader takes the
characters after the opening quotes and gives the content and what follows the
closing quotes.
-/
import OperationQueue.Text.Digits

namespace OperationQueue.Toml

/-- Blanks within a line. -/
def isBlank (c : Char) : Bool := c = ' ' || c = '\t'

/-- Whether a character may stand in a comment or between quotes on one line. -/
def isPrintable (c : Char) : Bool := c = '\t' || (0x20 ≤ c.toNat && c.toNat ≠ 0x7F)

/-- What is read, and what is left. -/
abbrev Read (α : Type) := Option (α × List Char)

/-- Put a character in front of what is read. -/
def prepend (c : Char) (result : Read (List Char)) : Read (List Char) :=
  result.map fun (content, rest) => (c :: content, rest)

/-- The character with a number written in hexadecimal digits. -/
def numbered? (digits : List Char) : Option Char :=
  (Digits.read? 16 digits).bind fun n =>
    if h : n.isValidChar then some (Char.ofNatAux n h) else none

/-- What a one-letter escape stands for. -/
def shortEscape? : Char → Option Char
  | 'b' => some '\x08'
  | 't' => some '\t'
  | 'n' => some '\n'
  | 'f' => some '\x0c'
  | 'r' => some '\r'
  | 'e' => some '\x1b'
  | '"' => some '"'
  | '\\' => some '\\'
  | _ => none

/-- Put an escaped character, if there is one, in front of what is read. -/
def prependEscape (c : Option Char) (result : Read (List Char)) : Read (List Char) :=
  c.bind fun c => prepend c result

/-- A text between single quotes, on one line. -/
def literal : List Char → Read (List Char)
  | [] => none
  | c :: rest =>
    if c = '\'' then some ([], rest)
    else if isPrintable c then prepend c (literal rest)
    else none

/-- A text between double quotes, on one line. -/
def basic : List Char → Read (List Char)
  | [] => none
  | '\\' :: 'x' :: a :: b :: rest => prependEscape (numbered? [a, b]) (basic rest)
  | '\\' :: 'u' :: a :: b :: c :: d :: rest => prependEscape (numbered? [a, b, c, d]) (basic rest)
  | '\\' :: 'U' :: a :: b :: c :: d :: e :: f :: g :: h :: rest =>
    prependEscape (numbered? [a, b, c, d, e, f, g, h]) (basic rest)
  | '\\' :: c :: rest => prependEscape (shortEscape? c) (basic rest)
  | c :: rest =>
    if c = '"' then some ([], rest)
    else if isPrintable c && c ≠ '\\' then prepend c (basic rest)
    else none

/-- A text between three single quotes. One or two more quotes before the closing
ones belong to it. -/
def multiLiteral : List Char → Read (List Char)
  | '\'' :: '\'' :: '\'' :: '\'' :: '\'' :: rest => some (['\'', '\''], rest)
  | '\'' :: '\'' :: '\'' :: '\'' :: rest => some (['\''], rest)
  | '\'' :: '\'' :: '\'' :: rest => some ([], rest)
  | '\r' :: '\n' :: rest => prepend '\r' (prepend '\n' (multiLiteral rest))
  | c :: rest => if isPrintable c || c = '\n' then prepend c (multiLiteral rest) else none
  | [] => none

/-- Where a reader stands after a backslash at the end of a line. -/
inductive Folding
  /-- No line is being folded. -/
  | none
  /-- Only blanks may follow up to the end of the line. -/
  | line
  /-- Blanks and ends of lines are skipped. -/
  | skip

/-- A text between three double quotes. A backslash at the end of a line folds it
together with the blanks that follow. -/
def multiBasic : Folding → List Char → Read (List Char)
  | .line, ' ' :: rest => multiBasic .line rest
  | .line, '\t' :: rest => multiBasic .line rest
  | .line, '\n' :: rest => multiBasic .skip rest
  | .line, '\r' :: '\n' :: rest => multiBasic .skip rest
  | .line, _ => .none
  | .skip, ' ' :: rest => multiBasic .skip rest
  | .skip, '\t' :: rest => multiBasic .skip rest
  | .skip, '\n' :: rest => multiBasic .skip rest
  | .skip, '\r' :: '\n' :: rest => multiBasic .skip rest
  | _, '"' :: '"' :: '"' :: '"' :: '"' :: rest => some (['"', '"'], rest)
  | _, '"' :: '"' :: '"' :: '"' :: rest => some (['"'], rest)
  | _, '"' :: '"' :: '"' :: rest => some ([], rest)
  | _, '\\' :: 'x' :: a :: b :: rest => prependEscape (numbered? [a, b]) (multiBasic .none rest)
  | _, '\\' :: 'u' :: a :: b :: c :: d :: rest =>
    prependEscape (numbered? [a, b, c, d]) (multiBasic .none rest)
  | _, '\\' :: 'U' :: a :: b :: c :: d :: e :: f :: g :: h :: rest =>
    prependEscape (numbered? [a, b, c, d, e, f, g, h]) (multiBasic .none rest)
  | _, '\\' :: '\n' :: rest => multiBasic .skip rest
  | _, '\\' :: '\r' :: '\n' :: rest => multiBasic .skip rest
  | _, '\\' :: ' ' :: rest => multiBasic .line rest
  | _, '\\' :: '\t' :: rest => multiBasic .line rest
  | _, '\\' :: c :: rest => prependEscape (shortEscape? c) (multiBasic .none rest)
  | _, '\r' :: '\n' :: rest => prepend '\r' (prepend '\n' (multiBasic .none rest))
  | _, c :: rest =>
    if (isPrintable c || c = '\n') && c ≠ '\\' then prepend c (multiBasic .none rest) else .none
  | _, [] => .none

/-- Skip the end of the line on which a text over several lines opens. -/
def skipFirstLineEnd : List Char → List Char
  | '\n' :: rest => rest
  | '\r' :: '\n' :: rest => rest
  | rest => rest

/-- A text in any quotes. -/
def quoted : List Char → Read String
  | '"' :: '"' :: '"' :: rest => text (multiBasic .none (skipFirstLineEnd rest))
  | '\'' :: '\'' :: '\'' :: rest => text (multiLiteral (skipFirstLineEnd rest))
  | '"' :: rest => text (basic rest)
  | '\'' :: rest => text (literal rest)
  | _ => .none
where
  /-- A content as a text. -/
  text (result : Read (List Char)) : Read String :=
    result.map fun (content, rest) => (String.ofList content, rest)

end OperationQueue.Toml
