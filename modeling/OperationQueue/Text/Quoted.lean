/-
# Quoted texts

A text between double quotes in which every character can be seen: the quote, the
backslash and the usual controls have short escapes, and any other character that
has no picture of its own is written by its number.
-/
import OperationQueue.Text.CharRange
import OperationQueue.Text.Quoted.Table

namespace OperationQueue.Quoted

/-- The number of a character in hexadecimal, as few digits as possible. -/
def hexNumber (n : Nat) : List Char := Nat.toDigits 16 n

/-- A character as it stands between quotes. -/
def escape (c : Char) : List Char :=
  match c with
  | '\x00' => ['\\', '0']
  | '\t' => ['\\', 't']
  | '\r' => ['\\', 'r']
  | '\n' => ['\\', 'n']
  | '"' => ['\\', '"']
  | '\\' => ['\\', '\\']
  | _ =>
    if CharRange.covers extenderRanges c || CharRange.covers hiddenRanges c then
      '\\' :: 'u' :: '{' :: hexNumber c.toNat ++ ['}']
    else [c]

/-- A text between quotes. -/
def quote (text : String) : String :=
  String.ofList ('"' :: text.toList.flatMap escape ++ ['"'])

/-- Quoted texts with commas between them. -/
def quoteAll (texts : List String) : String := String.intercalate ", " (texts.map quote)

/-- A list of texts. -/
def quoteList (texts : List String) : String := "[" ++ quoteAll texts ++ "]"

/-- A set of texts. -/
def quoteSet (texts : List String) : String := "\x7b" ++ quoteAll texts ++ "\x7d"

end OperationQueue.Quoted
