/-
# Decimal numerals

A numeral has a sign, digits, a point and an exponent, all of which may be missing except
that there is some digit before or after the point. Only its first digits count, about
nineteen of them; the others only tell how large the number is.
-/
import OperationQueue.Text.Digits
import OperationQueue.Text.Double

namespace OperationQueue

/-- A decimal numeral. -/
structure Numeral where
  /-- Whether there is a minus. -/
  negative : Bool
  /-- The digits before the point. -/
  whole : List Char
  /-- The digits after the point. -/
  fraction : List Char
  /-- The power of ten. -/
  exponent : Int
  /-- Whether there is neither a point nor an exponent. -/
  isPlain : Bool

namespace Numeral

/-! ## Reading -/

/-- Exponents beyond this one do not make a difference. -/
def maxExponent : Nat := 10000

/-- The exponent after its mark: digits with an optional sign. -/
def exponent? (cs : List Char) : Option Int :=
  let (negative, digits) := Digits.splitSign cs
  if digits.isEmpty then none
  else (Digits.read? 10 digits).map fun n =>
    let n : Int := min n maxExponent
    if negative then -n else n

/-- Read a numeral. -/
def parse? (cs : List Char) : Option Numeral :=
  let (negative, cs) := Digits.splitSign cs
  let isDigit := Digits.isDigit 10
  let whole := cs.takeWhile isDigit
  let rest := cs.dropWhile isDigit
  let (fraction, after, hasPoint) :=
    match rest with
    | '.' :: rest => (rest.takeWhile isDigit, rest.dropWhile isDigit, true)
    | rest => ([], rest, false)
  if whole.isEmpty && fraction.isEmpty then none
  else
    match after with
    | [] => some ⟨negative, whole, fraction, 0, !hasPoint⟩
    | mark :: digits =>
      if mark = 'e' || mark = 'E' then
        (exponent? digits).map fun e => ⟨negative, whole, fraction, e, false⟩
      else none

/-! ## Values -/

/-- Give a size the sign of a numeral. -/
def signed (n : Numeral) (size : Nat) : Int := if n.negative then -(size : Int) else size

/-- The value of a plain numeral. -/
def integer (n : Numeral) : Int := n.signed ((Digits.read? 10 n.whole).getD 0)

/-- A number that has enough digits to be known well. -/
def enough : Nat := 1844674407370955160

/-- Take one more digit into a number that has not enough of them, and count it. -/
def takeDigit (taken : Nat × Nat) (c : Char) : Nat × Nat :=
  if taken.1 < enough then (taken.1 * 10 + (Digits.digitValue? 10 c).getD 0, taken.2 + 1)
  else taken

/-- The number of the first digits, and how many they are. -/
def leading (digits : List Char) : Nat × Nat := digits.foldl takeDigit (0, 0)

/-- The double of a numeral. -/
def double (n : Numeral) : Int :=
  let (number, taken) := leading (n.whole ++ n.fraction)
  let power : Int := n.whole.length - taken + n.exponent
  n.signed <|
    if 0 ≤ power then Double.nearest (number * Nat.pow 10 power.toNat) 1
    else Double.nearest number (Nat.pow 10 (-power).toNat)

end Numeral

end OperationQueue
