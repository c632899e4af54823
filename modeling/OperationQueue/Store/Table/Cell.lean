/-
# Cells for whole numbers

A column of whole numbers takes anything. A text that is a numeral becomes a number: a
whole one if it is that, and a double otherwise. Whatever is in a cell has its place in
one order: numbers by their value, then texts. Only whole numbers can be read.
-/
import OperationQueue.Error
import OperationQueue.Text.Numeral

namespace OperationQueue

/-- A value in a column of whole numbers. -/
inductive Cell
  /-- A whole number. -/
  | number (n : Int)
  /-- A double that is no whole number, or none of 64 bits. -/
  | double (units : Int)
  /-- A text that is no numeral. -/
  | text (content : String)
deriving DecidableEq, Inhabited

namespace Cell

/-- The whole number in a cell. -/
def read : Cell → Except Error Int
  | number n => .ok n
  | _ => .error .storage

/-- The number in a cell, counted in the smallest doubles. -/
def units? : Cell → Option Int
  | number n => some (n * Double.one)
  | double units => some units
  | text _ => none

/-- Whether a cell may stand before another one: numbers by their value, then texts by
their characters. -/
def isBefore (a b : Cell) : Bool :=
  match a.units?, b.units? with
  | some m, some n => m ≤ n
  | some _, none => true
  | none, some _ => false
  | none, none =>
    match a, b with
    | text s, text t => s ≤ t
    | _, _ => true

/-- A cell with at least a number in it; texts are beyond all numbers. -/
def raise (n : Int) (cell : Cell) : Cell :=
  match cell.units? with
  | some m => if m < n * Double.one then number n else cell
  | none => cell

/-! ## Texts in a column of numbers -/

/-- Whether a character is a blank that may stand around a number. -/
def isMargin (c : Char) : Bool := c = ' ' || ('\t' ≤ c && c ≤ '\r')

/-- A double in a cell. It becomes a whole number if it is one, the two ends of the 64
bit numbers excepted. -/
def ofUnits (units : Int) : Cell :=
  let n := units / Double.one
  if units % Double.one = 0 && -0x8000000000000000 < n && n < 0x7fffffffffffffff then number n
  else double units

/-- A numeral in a cell. -/
def ofNumeral (n : Numeral) : Cell :=
  if n.isPlain && -0x8000000000000000 ≤ n.integer && n.integer < 0x8000000000000000 then
    number n.integer
  else ofUnits n.double

/-- A text in a cell. -/
def ofText (content : String) : Cell :=
  let plain := ((content.toList.dropWhile isMargin).reverse.dropWhile isMargin).reverse
  match Numeral.parse? plain with
  | some n => ofNumeral n
  | none => text content

end Cell

end OperationQueue
