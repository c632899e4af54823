/-
# JSON texts of names

Stored dependencies are a JSON list of texts, and statuses and algorithms travel as
a JSON text or as an object whose only key is the name and whose value is null.
Nothing else of JSON is needed, so a text is cut into marks, strings and `null`,
and any other text is refused.
-/
import OperationQueue.Text.Digits

namespace OperationQueue.JsonText

/-- A piece of a JSON text. -/
inductive Token
  /-- A bracket, brace, colon or comma. -/
  | mark (c : Char)
  /-- A string, without quotes and escapes. -/
  | string (content : List Char)
  /-- The word for nothing. -/
  | null
deriving DecidableEq

/-- What a one-letter escape stands for. -/
def shortEscape? : Char → Option Char
  | '"' => some '"'
  | '\\' => some '\\'
  | '/' => some '/'
  | 'b' => some '\x08'
  | 'f' => some '\x0c'
  | 'n' => some '\n'
  | 'r' => some '\r'
  | 't' => some '\t'
  | _ => none

/-- Whether a number is the first half of a character in two units. -/
def isHighHalf (n : Nat) : Bool := 0xD800 ≤ n && n < 0xDC00

/-- Whether a number is the second half of a character in two units. -/
def isLowHalf (n : Nat) : Bool := 0xDC00 ≤ n && n < 0xE000

/-- Where a reader stands: between tokens, or inside a string of which some
characters are read, the last one first. A first half waits for its second. -/
inductive Mode
  /-- Between tokens. -/
  | between
  /-- Inside a string. -/
  | inside (read : List Char)
  /-- Inside a string, after the first half of a character. -/
  | half (high : Nat) (read : List Char)

/-- Cut a text into tokens; `none` if it has anything else. -/
def tokens? : Mode → List Char → Option (List Token)
  | .between, [] => some []
  | .between, 'n' :: 'u' :: 'l' :: 'l' :: rest => (tokens? .between rest).map (.null :: ·)
  | .between, c :: rest =>
    if c ∈ [' ', '\t', '\n', '\r'] then tokens? .between rest
    else if c = '"' then tokens? (.inside []) rest
    else if c ∈ ['[', ']', '{', '}', ':', ','] then (tokens? .between rest).map (.mark c :: ·)
    else none
  | .inside _, [] => none
  | .inside read, '\\' :: 'u' :: a :: b :: c :: d :: rest =>
    match Digits.read? 16 [a, b, c, d] with
    | none => none
    | some n =>
      if isHighHalf n then tokens? (.half n read) rest
      else if isLowHalf n then none
      else tokens? (.inside (Char.ofNat n :: read)) rest
  | .inside read, '\\' :: c :: rest =>
    match shortEscape? c with
    | none => none
    | some e => tokens? (.inside (e :: read)) rest
  | .inside read, c :: rest =>
    if c = '"' then (tokens? .between rest).map (.string read.reverse :: ·)
    else if c.toNat < 0x20 then none
    else if c = '\\' then none
    else tokens? (.inside (c :: read)) rest
  | .half high read, '\\' :: 'u' :: a :: b :: c :: d :: rest =>
    match Digits.read? 16 [a, b, c, d] with
    | none => none
    | some n =>
      if isLowHalf n then
        tokens? (.inside (Char.ofNat (0x10000 + (high - 0xD800) * 0x400 + (n - 0xDC00)) :: read))
          rest
      else none
  | .half _ _, _ => none

/-- The strings after the first of a list, up to its end. -/
def moreStrings? : List Token → Option (List String)
  | [.mark ']'] => some []
  | .mark ',' :: .string s :: rest => (moreStrings? rest).map (String.ofList s :: ·)
  | _ => none

/-- The strings of a JSON list of strings. -/
def strings? (text : String) : Option (List String) :=
  match tokens? .between text.toList with
  | some [.mark '[', .mark ']'] => some []
  | some (.mark '[' :: .string s :: rest) => (moreStrings? rest).map (String.ofList s :: ·)
  | _ => none

/-- The name of a JSON string, or of an object with one key and the value null. -/
def variant? (text : String) : Option String :=
  match tokens? .between text.toList with
  | some [.string s] => some (String.ofList s)
  | some [.mark '{', .string s, .mark ':', .null, .mark '}'] => some (String.ofList s)
  | _ => none

/-- A JSON string of a text that needs no escapes. -/
def quotePlain (text : String) : String := "\"" ++ text ++ "\""

/-- A JSON list of texts that need no escapes. -/
def listPlain (texts : List String) : String :=
  "[" ++ String.intercalate "," (texts.map quotePlain) ++ "]"

end OperationQueue.JsonText
