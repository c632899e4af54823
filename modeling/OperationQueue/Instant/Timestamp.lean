/-
# Written instants

The text of an instant follows RFC 3339: date, `T`, time of day, fraction, zone.
Stored instants have nine digits of fraction and the zone `Z`; reports show as
few groups of three digits as lose nothing, and the zone `+00:00`. Years outside
0 to 9999 are written with a sign, and such texts do not read back.
-/
import OperationQueue.Instant
import OperationQueue.Instant.Calendar
import OperationQueue.Text.Digits

namespace OperationQueue

namespace Instant

/-! ## Writing -/

/-- A year has four digits; outside 0 to 9999 it has a sign and at least four. -/
def yearChars (year : Int) : List Char :=
  if 0 ≤ year ∧ year ≤ 9999 then Digits.write 10 4 year.toNat
  else
    let digits := year.natAbs.repr.toList
    (if year < 0 then '-' else '+') :: (List.replicate (4 - digits.length) '0' ++ digits)

/-- Date and time of day of an instant, and what is left of the second. A leap
second shows as second sixty. -/
def dateTimeChars (t : Instant) : List Char × Nat :=
  let date := CalendarDate.ofDays (t.seconds / 86400)
  let ofDay := (t.seconds % 86400).toNat
  let leap := 1000000000 ≤ t.nanos
  let second := ofDay % 60 + if leap then 1 else 0
  (yearChars date.year ++ '-' :: Digits.write 10 2 date.month ++ '-' ::
    Digits.write 10 2 date.day ++ 'T' :: Digits.write 10 2 (ofDay / 3600) ++ ':' ::
    Digits.write 10 2 (ofDay / 60 % 60) ++ ':' :: Digits.write 10 2 second,
    if leap then t.nanos - 1000000000 else t.nanos)

/-- The stored form: nine digits of fraction, zone `Z`. -/
def storedChars (t : Instant) : List Char :=
  let (dateTime, nanos) := t.dateTimeChars
  dateTime ++ '.' :: Digits.write 10 9 nanos ++ ['Z']

/-- The stored form as a text. -/
def storedText (t : Instant) : String := String.ofList t.storedChars

/-- The shortest fraction of zero, three, six or nine digits that loses nothing. -/
def briefFraction (nanos : Nat) : List Char :=
  if nanos = 0 then []
  else if nanos % 1000000 = 0 then '.' :: Digits.write 10 3 (nanos / 1000000)
  else if nanos % 1000 = 0 then '.' :: Digits.write 10 6 (nanos / 1000)
  else '.' :: Digits.write 10 9 nanos

/-- The form shown in reports. -/
def reportText (t : Instant) : String :=
  let (dateTime, nanos) := t.dateTimeChars
  String.ofList (dateTime ++ briefFraction nanos ++ "+00:00".toList)

/-! ## Reading -/

/-- Why a text is not an instant. -/
inductive Fault
  /-- A part has a value that does not exist. -/
  | outOfRange
  /-- A character stands where it may not. -/
  | invalid
  /-- The text ends too early. -/
  | tooShort
  /-- Something follows the zone. -/
  | tooLong
deriving DecidableEq

/-- The words for a fault. -/
def Fault.message : Fault → String
  | .outOfRange => "input is out of range"
  | .invalid => "input contains invalid characters"
  | .tooShort => "premature end of input"
  | .tooLong => "trailing input"

/-- The value of one decimal digit. -/
def readDigit (c : Char) : Except Fault Nat :=
  match Digits.digitValue? 10 c with
  | some d => .ok d
  | none => .error .invalid

/-- Two digits from the front of a text. -/
def readPair (cs : List Char) : Except Fault (Nat × List Char) :=
  match cs with
  | a :: b :: rest => do return ((← readDigit a) * 10 + (← readDigit b), rest)
  | _ => .error .invalid

/-- One of some characters from the front of a text. -/
def readMark (allowed : List Char) (cs : List Char) : Except Fault (List Char) :=
  match cs with
  | c :: rest => if c ∈ allowed then .ok rest else .error .invalid
  | [] => .error .invalid

/-- Year, month and day with hyphens between them. The date has to exist. -/
def readDate (cs : List Char) : Except Fault (CalendarDate × List Char) := do
  let (century, cs) ← readPair cs
  let (year, cs) ← readPair cs
  let cs ← readMark ['-'] cs
  let (month, cs) ← readPair cs
  let cs ← readMark ['-'] cs
  let (day, cs) ← readPair cs
  let date : CalendarDate := ⟨century * 100 + year, month, day⟩
  if date.isValid then .ok (date, cs) else .error .outOfRange

/-- Nanoseconds of a fraction: the first nine digits count, and the others are
skipped. -/
def readFraction (cs : List Char) : Except Fault (Nat × List Char) :=
  match cs.takeWhile (Digits.isDigit 10) with
  | [] => .error (if cs.isEmpty then .tooShort else .invalid)
  | digits =>
    let counted := digits.take 9
    .ok ((Digits.read? 10 counted).getD 0 * Nat.pow 10 (9 - counted.length),
      cs.dropWhile (Digits.isDigit 10))

/-- Time of day: the second of the day and the nanoseconds after it. Second sixty
is the leap second of any minute. -/
def readTime (cs : List Char) : Except Fault ((Nat × Nat) × List Char) := do
  let (hour, cs) ← readPair cs
  let cs ← readMark [':'] cs
  let (minute, cs) ← readPair cs
  let cs ← readMark [':'] cs
  let (second, cs) ← readPair cs
  let (nanos, cs) ←
    match cs with
    | '.' :: fraction => readFraction fraction
    | _ => pure (0, cs)
  if 24 ≤ hour ∨ 60 ≤ minute ∨ 61 ≤ second then .error .outOfRange
  else
    let start := hour * 3600 + minute * 60
    .ok (if second = 60 then (start + 59, nanos + 1000000000) else (start + second, nanos), cs)

/-- Two digits of a zone. A text of fewer than two bytes is too short. -/
def readZonePair (cs : List Char) : Except Fault (Nat × List Char) :=
  match cs with
  | [] => .error .tooShort
  | [c] => .error (if c.utf8Size < 2 then .tooShort else .invalid)
  | _ => readPair cs

/-- The offset of the zone in seconds: `Z`, or a sign, hours and at most 59 minutes.
The minus sign of mathematics counts as a hyphen. -/
def readZone (cs : List Char) : Except Fault (Int × List Char) :=
  match cs with
  | [] => .error .tooShort
  | c :: rest =>
    if c ∈ ['Z', 'z'] then .ok (0, rest)
    else if c ∈ ['+', '-', '\u2212'] then do
      let (hours, rest) ← readZonePair rest
      let rest ← if rest.isEmpty then .error .tooShort else readMark [':'] rest
      let (minutes, rest) ← readZonePair rest
      let offset : Int := hours * 3600 + minutes * 60
      if 60 ≤ minutes then .error .outOfRange
      else .ok (if c = '+' then offset else -offset, rest)
    else .error .invalid

/-- Whether an offset in seconds is less than a day, as that of every zone is. -/
def isOffset (offset : Int) : Bool := -86400 < offset && offset < 86400

/-- Read an instant from its characters. The date is checked before anything that
follows it, the time of day before the zone, and the hours of the zone at the end. -/
def readChars (cs : List Char) : Except Fault Instant := do
  let (date, cs) ← readDate cs
  let cs ← readMark ['T', 't', ' '] cs
  let ((second, nanos), cs) ← readTime cs
  let (offset, cs) ← readZone cs
  if !cs.isEmpty then .error .tooLong
  else if isOffset offset then .ok ⟨date.toDays * 86400 + second - offset, nanos⟩
  else .error .outOfRange

/-- Read an instant. No instant has fewer than nineteen bytes. -/
def parse (text : String) : Except Fault Instant :=
  if text.utf8ByteSize < 19 then .error .tooShort else readChars text.toList

end Instant

end OperationQueue
