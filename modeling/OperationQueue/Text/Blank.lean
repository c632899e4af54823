/-
# Blank characters

The Unicode standard's white space, and texts without it at their ends. Trimming
leaves no blank at either end and nothing else is lost, so a text is blank
exactly if its trimmed form is empty.
-/
import OperationQueue.Text.CharRange

namespace OperationQueue.Blank

/-- The white space of the Unicode standard. -/
def ranges : List (Nat × Nat) := [
  (0x9, 0xD), (0x20, 0x20), (0x85, 0x85), (0xA0, 0xA0), (0x1680, 0x1680), (0x2000, 0x200A),
  (0x2028, 0x2029), (0x202F, 0x202F), (0x205F, 0x205F), (0x3000, 0x3000)]

/-- Whether a character is white space. -/
def isBlank (c : Char) : Bool := CharRange.covers ranges c

/-- The characters without blanks at either end. -/
def trimChars (cs : List Char) : List Char :=
  ((cs.dropWhile isBlank).reverse.dropWhile isBlank).reverse

/-- A text without blanks at either end. -/
def trim (text : String) : String := String.ofList (trimChars text.toList)

/-- Whether a text has nothing but blanks. -/
def isBlankText (text : String) : Bool := text.toList.all isBlank

/-- Nothing is left of a list exactly if all of it is dropped. -/
theorem dropWhile_eq_nil_iff (cs : List Char) :
    cs.dropWhile isBlank = [] ↔ cs.all isBlank = true := by
  induction cs with
  | nil => simp
  | cons c rest ih => by_cases h : isBlank c = true <;> simp_all

/-- A text is blank exactly if nothing is left of it by trimming. -/
theorem trimChars_eq_nil_iff (cs : List Char) : trimChars cs = [] ↔ cs.all isBlank = true := by
  unfold trimChars
  rw [List.reverse_eq_nil_iff, dropWhile_eq_nil_iff, List.all_reverse, ← dropWhile_eq_nil_iff cs]
  constructor
  · intro h
    cases hd : cs.dropWhile isBlank with
    | nil => rfl
    | cons c rest =>
      -- The first character kept by the left trim is no blank.
      have hc := List.head?_dropWhile_not isBlank cs
      simp_all
  · intro h
    simp [h]

/-- A text is blank exactly if its trimmed form is empty. -/
theorem isBlankText_iff (text : String) : isBlankText text = true ↔ trim text = "" := by
  rw [isBlankText, ← trimChars_eq_nil_iff, trim, String.ofList_eq_empty_iff]

end OperationQueue.Blank
