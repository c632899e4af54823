/-
# The written form of an identity

Identities are written in five groups of lower-case hexadecimal digits. Reading
is more generous: it takes either case, all digits in one run, and the five
groups between braces or after `urn:uuid:`. What cannot be read is reported by
the first thing that is wrong with it. Lengths are counted in bytes.
-/
import OperationQueue.Identity
import OperationQueue.Text.Digits

namespace OperationQueue

namespace Identity

/-- The lengths of the five groups. -/
def groupLengths : List Nat := [8, 4, 4, 4, 12]

/-- Cut a run of digits into groups of the given lengths, with a hyphen between
two groups. -/
def hyphenate : List Nat → List Char → List Char
  | [], _ => []
  | [_], digits => digits
  | n :: more, digits => digits.take n ++ '-' :: hyphenate more (digits.drop n)

/-- The characters of the written form. -/
def chars (id : Identity) : List Char := hyphenate groupLengths (Digits.write 16 32 id.value)

/-- The written form: groups of 8, 4, 4, 4 and 12 digits. -/
def text (id : Identity) : String := String.ofList id.chars

/-- What is wrong with a text that names no identity. -/
inductive Fault
  /-- A character that is neither a digit nor a hyphen, and where it stands. -/
  | character (found : Char) (index : Nat)
  /-- A run of digits of the wrong length. -/
  | length (found : Nat)
  /-- The wrong number of groups. -/
  | groupCount (found : Nat)
  /-- A group of the wrong length. -/
  | groupLength (group expected found : Nat)
deriving DecidableEq

/-- The words for a fault. -/
def Fault.message : Fault → String
  | .character found index =>
    "invalid character: found \x60" ++ String.singleton found ++ "\x60 at " ++ toString index
  | .length found => "invalid length: found " ++ toString found
  | .groupCount found => "invalid group count: expected 5, found " ++ toString found
  | .groupLength group expected found =>
    "invalid group length in group " ++ toString group ++ ": expected " ++ toString expected ++
      ", found " ++ toString found

/-- Split at every hyphen. -/
def splitHyphens : List Char → List (List Char)
  | [] => [[]]
  | '-' :: rest => [] :: splitHyphens rest
  | c :: rest =>
    match splitHyphens rest with
    | [] => [[c]]
    | group :: more => (c :: group) :: more

/-- What may stand before the five groups, in either case. -/
def scheme : String := "urn:uuid:"

/-- The length of the longest form: the five groups after the scheme. -/
def maxLength : Nat := 45

/-- Whether a text begins with the scheme. -/
def hasScheme (cs : List Char) : Bool :=
  (cs.take scheme.length).map Char.toLower == scheme.toList

/-- Whether a text stands between braces. -/
def isBraced (cs : List Char) : Bool :=
  cs.head? = some '{' && cs.getLast? = some '}' && 2 ≤ cs.length

/-- How a text is wrapped. -/
inductive Wrapping
  /-- As a run of digits, or in some shape that is none of the others. -/
  | run
  /-- As five groups with nothing around them. -/
  | groups
  /-- Between braces or after the scheme. -/
  | wrapped
deriving DecidableEq

/-- The part of a text that holds the digits, and how many characters are before it.
The lengths of the two plain forms leave no room for anything around the digits. -/
def unwrap (text : String) : Wrapping × Nat × List Char :=
  let cs := text.toList
  if text.utf8ByteSize = 32 then (.run, 0, cs)
  else if text.utf8ByteSize = 36 then (.groups, 0, cs)
  else if isBraced cs then (.wrapped, 1, (cs.drop 1).dropLast)
  else if hasScheme cs then (.wrapped, scheme.length, cs.drop scheme.length)
  else (.run, 0, cs)

/-- The identity that a text names, if it is well formed. -/
def ofText? (text : String) : Option Identity :=
  match unwrap text with
  | (.run, _, cs) => if cs.length = 32 then (Digits.read? 16 cs).map ofNat else none
  | (_, _, cs) =>
    let groups := splitHyphens cs
    if groups.map List.length = groupLengths then (Digits.read? 16 groups.flatten).map ofNat
    else none

/-- The first character that is neither a hexadecimal digit nor a hyphen, with
its position. -/
def firstStray (index : Nat) : List Char → Option (Char × Nat)
  | [] => none
  | c :: rest =>
    if c == '-' || Digits.isDigit 16 c then firstStray (index + 1) rest else some (c, index)

/-- The first group whose length is wrong, with its position. -/
def firstMisfit (index : Nat) : List (List Char) → List Nat → Option (Nat × Nat × Nat)
  | group :: groups, n :: more =>
    if group.length = n then firstMisfit (index + 1) groups more
    else some (index, n, group.length)
  | _, _ => none

/-- What is wrong with a text that names no identity: more than the longest form
before anything else, a stray character before a wrong length, and a wrong number of
groups before a wrong group. Where there is room for the five groups, a stray
character is counted from their start, and elsewhere from that of the text. The last
group takes in all that follows its start, the closing brace included. -/
def faultOf (text : String) : Fault :=
  if maxLength < text.utf8ByteSize then .length text.utf8ByteSize
  else
    let (wrapping, before, inner) := unwrap text
    let hasRoom := (String.ofList inner).utf8ByteSize = 36
    match firstStray (if hasRoom then 0 else before) inner with
    | some (c, index) => .character c index
    | none =>
      let groups := splitHyphens inner
      if groups.length = 1 && wrapping = .run then .length text.utf8ByteSize
      else if groups.length ≠ 5 then .groupCount groups.length
      else
        match firstMisfit 0 (groups.take 4) groupLengths with
        | some (group, expected, found) => .groupLength group expected found
        | none => .groupLength 4 12 (text.utf8ByteSize - 24)

/-- Read an identity. -/
def parse (text : String) : Except Fault Identity :=
  match ofText? text with
  | some id => .ok id
  | none => .error (faultOf text)

end Identity

end OperationQueue
