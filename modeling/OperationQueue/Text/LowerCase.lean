/-
# Small letters

The small form of a text, by the full mapping of the Unicode standard. Every
character has one small form, except that a capital I with a dot takes two
characters, and that a sigma that ends a word has a form of its own: some letter
stands before it and none after it, looking through accents and marks.
-/
import OperationQueue.Text.CharRange
import OperationQueue.Text.LowerCase.Table

namespace OperationQueue.LowerCase

/-- How far the small form of a character is away, if it has one. -/
def shift? (c : Char) : Option Int :=
  (shiftRuns.find? fun (first, last, step, _) =>
    first ≤ c.toNat && c.toNat ≤ last && (c.toNat - first) % step == 0).map fun r => r.2.2.2

/-- The small form of a character by itself. -/
def lowerChar (c : Char) : List Char :=
  if c = '\u0130' then ['i', '\u0307']
  else
    match shift? c with
    | some d => [Char.ofNat ((c.toNat : Int) + d).toNat]
    | none => [c]

/-- Whether the first character that counts is a letter with case. -/
def startsCased (cs : List Char) : Bool :=
  match cs.dropWhile (CharRange.covers ignorableRanges) with
  | [] => false
  | c :: _ => CharRange.covers casedRanges c

/-- The small form of characters, given those before them in reverse order. -/
def lowerFrom (before : List Char) : List Char → List Char
  | [] => []
  | c :: rest =>
    let small :=
      if c = 'Σ' then
        if startsCased before && !startsCased rest then ['ς'] else ['σ']
      else lowerChar c
    small ++ lowerFrom (c :: before) rest

/-- The small form of a text. -/
def lower (text : String) : String := String.ofList (lowerFrom [] text.toList)

end OperationQueue.LowerCase
