/-
# Writing TOML

What a document says can be written as lines with a key and a value. Texts are written
between double quotes, with escapes for what may not stand there.
-/
import OperationQueue.Toml.Text

namespace OperationQueue.Toml

/-- A character between double quotes: quotes and backslashes get a backslash, and what
may not stand there is written by its number. -/
def escapeChar (c : Char) : List Char :=
  if c = '"' || c = '\\' then ['\\', c]
  else if isPrintable c then [c]
  else '\\' :: 'u' :: Digits.write 16 4 c.toNat

/-- Characters between double quotes. -/
def escape (cs : List Char) : List Char := cs.flatMap escapeChar

/-- A text as a value. -/
def quote (text : String) : String := "\"" ++ String.ofList (escape text.toList) ++ "\""

/-- A line with a key and a value. -/
def entryLine (key value : String) : String := key ++ " = " ++ value ++ "\n"

/-- A line that opens one more table of an array of tables. -/
def elementLine (key : String) : String := "\n[[" ++ key ++ "]]\n"

end OperationQueue.Toml
