/-
# Numbers, dates and truth values in a TOML document

A value without quotes is a run of letters, digits and a few marks, and its shape
says what it is. Digits may be grouped by single underscores.
-/
import OperationQueue.Instant.Calendar
import OperationQueue.Text.Digits
import OperationQueue.Toml.Value

namespace OperationQueue.Toml

/-- Whether a character may belong to a value without quotes. -/
def isScalarChar (c : Char) : Bool :=
  c.isAlphanum || c = '_' || c = '+' || c = '-' || c = '.' || c = ':'

/-- Digits of a base without the underscores between them. An underscore stands
between two digits. -/
def ungroup? (base : Nat) : List Char → Option (List Char)
  | [] => none
  | [c] => if Digits.isDigit base c then some [c] else none
  | c :: '_' :: rest => if Digits.isDigit base c then (ungroup? base rest).map (c :: ·) else none
  | c :: rest => if Digits.isDigit base c then (ungroup? base rest).map (c :: ·) else none

/-- Decimal digits without a needless zero in front. -/
def decimalDigits? (cs : List Char) : Option (List Char) :=
  if cs.head? = some '0' && 1 < cs.length then none else ungroup? 10 cs

/-! ## Whole numbers -/

/-- The number that grouped digits of a base stand for. -/
def grouped? (base : Nat) (cs : List Char) : Option Int :=
  ((ungroup? base cs).bind (Digits.read? base)).map Int.ofNat

/-- A whole number: decimal with an optional sign, or hexadecimal, octal or binary
after its mark. -/
def integer? : List Char → Option Int
  | '0' :: 'x' :: rest => grouped? 16 rest
  | '0' :: 'o' :: rest => grouped? 8 rest
  | '0' :: 'b' :: rest => grouped? 2 rest
  | cs =>
    let (negative, digits) := Digits.splitSign cs
    ((decimalDigits? digits).bind (Digits.read? 10)).map fun n => if negative then -n else n

/-- The numbers that some kind of whole number can represent: at most 128 bits, signed
or not. -/
def isRepresentable (n : Int) : Bool :=
  -0x80000000000000000000000000000000 ≤ n && n < 0x100000000000000000000000000000000

/-! ## Numbers with a fraction or an exponent -/

/-- Whether `digits` times the power of ten is below the largest double and a half of
its last place, so that a double can represent it. Numbers far from that bound are
decided by their count of digits. -/
def isFinite (digits : List Char) (exponent : Int) : Bool :=
  let significant := digits.dropWhile (· = '0')
  let magnitude := significant.length + exponent
  if significant.isEmpty || magnitude < 300 then true
  else if 310 < magnitude then false
  else
    let n := (Digits.read? 10 significant).getD 0
    let bound := (Nat.pow 2 54 - 1) * Nat.pow 2 970
    if 0 ≤ exponent then n * Nat.pow 10 exponent.toNat < bound
    else n < bound * Nat.pow 10 (-exponent).toNat

/-- An exponent: a sign and digits. -/
def exponent? (cs : List Char) : Option Int :=
  let (negative, digits) := Digits.splitSign cs
  ((ungroup? 10 digits).bind (Digits.read? 10)).map fun n => if negative then -n else n

/-- A number with a fraction, an exponent, or both; infinity; or no number. -/
def float? (cs : List Char) : Option Value := do
  let (_, unsigned) := Digits.splitSign cs
  if unsigned = ['i', 'n', 'f'] || unsigned = ['n', 'a', 'n'] then return .float true
  let isE (c : Char) : Bool := c = 'e' || c = 'E'
  let mantissa := unsigned.takeWhile fun c => !isE c
  let whole ← decimalDigits? (mantissa.takeWhile (· ≠ '.'))
  let fraction ←
    match mantissa.dropWhile (· ≠ '.') with
    | [] => some []
    | _ :: digits => ungroup? 10 digits
  let exponent ←
    match unsigned.dropWhile fun c => !isE c with
    | [] => some 0
    | _ :: cs => exponent? cs
  if mantissa.length = unsigned.length && mantissa.all (· ≠ '.') then none
  else return .float (isFinite (whole ++ fraction) (exponent - fraction.length))

/-! ## Dates and times -/

/-- The number of two decimal digits. -/
def two? (a b : Char) : Option Nat := Digits.read? 10 [a, b]

/-- A date, and what follows it. -/
def date? : List Char → Option (List Char)
  | y1 :: y2 :: y3 :: y4 :: '-' :: m1 :: m2 :: '-' :: d1 :: d2 :: rest => do
    let date : CalendarDate := ⟨(← two? y1 y2) * 100 + (← two? y3 y4), ← two? m1 m2, ← two? d1 d2⟩
    if date.isValid then some rest else none
  | _ => none

/-- The seconds of a time and their fraction, which may be missing. -/
def seconds? : List Char → Option (List Char)
  | ':' :: s1 :: s2 :: rest => do
    if 60 < (← two? s1 s2) then none
    else
      match rest with
      | '.' :: fraction =>
        if (fraction.takeWhile (Digits.isDigit 10)).isEmpty then none
        else some (fraction.dropWhile (Digits.isDigit 10))
      | _ => some rest
  | ':' :: _ => none
  | rest => some rest

/-- A time of day, and what follows it. -/
def time? : List Char → Option (List Char)
  | h1 :: h2 :: ':' :: m1 :: m2 :: rest => do
    if 23 < (← two? h1 h2) || 59 < (← two? m1 m2) then none else seconds? rest
  | _ => none

/-- Whether a text is a zone, or nothing. -/
def isZone : List Char → Bool
  | [] => true
  | [c] => c = 'Z' || c = 'z'
  | [sign, h1, h2, ':', m1, m2] =>
    (sign = '+' || sign = '-') && (two? h1 h2).any (· ≤ 23) && (two? m1 m2).any (· ≤ 59)
  | _ => false

/-- Whether a text is a date, a time, or a date and a time with or without a zone. -/
def isDatetime (cs : List Char) : Bool :=
  match date? cs with
  | some [] => true
  | some (c :: rest) => (c = 'T' || c = 't' || c = ' ') && (time? rest).any isZone
  | none => time? cs == some []

/-! ## Any value without quotes -/

/-- The value of a text without quotes. -/
def scalar? (cs : List Char) : Option Value :=
  if cs = ['t', 'r', 'u', 'e'] then some (.boolean true)
  else if cs = ['f', 'a', 'l', 's', 'e'] then some (.boolean false)
  else
    match integer? cs with
    | some n => some (.integer n)
    | none =>
      match float? cs with
      | some v => some v
      | none => if isDatetime cs then some .datetime else none

/-- The characters of a value without quotes. A single space may stand between a
date and a time. -/
def splitScalar (cs : List Char) : List Char × List Char :=
  let run := cs.takeWhile isScalarChar
  match date? run, cs.dropWhile isScalarChar with
  | some [], ' ' :: rest =>
    let more := rest.takeWhile isScalarChar
    if more.head?.any (Digits.isDigit 10) then (run ++ ' ' :: more, rest.dropWhile isScalarChar)
    else (run, ' ' :: rest)
  | _, rest => (run, rest)

end OperationQueue.Toml
