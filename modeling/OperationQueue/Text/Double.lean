/-
# Doubles as whole numbers

Every double is a whole multiple of the smallest positive one, so doubles are counted in
it and compared as whole numbers. A quotient is represented by the double that is nearest
to it, and of two equally near ones by the one whose last digit is even.
-/

namespace OperationQueue.Double

/-- How many of the smallest doubles make one. -/
def one : Nat := Nat.pow 2 1074

/-- What stands for all that is too large: one digit beyond the largest double. -/
def infinite : Nat := Nat.pow 2 2098

/-- A quotient rounded to a whole number, a half to the even one. -/
def roundQuotient (a b : Nat) : Nat :=
  let q := a / b
  let twice := 2 * (a % b)
  if twice < b then q else if b < twice then q + 1 else q + q % 2

/-- The double nearest to a quotient. It has at most fifty-three binary digits. -/
def nearest (a b : Nat) : Nat :=
  let place := Nat.pow 2 ((a * one / b).log2 - 52)
  min (roundQuotient (a * one) (b * place) * place) infinite

end OperationQueue.Double
