/-
# Addresses of tables

Tables lie under a path, or at an address that begins with `file:`. An address has a
path, in which any byte may be written as two hexadecimal digits after a percent sign,
and after a question mark options with ampersands between them. What follows a hash
mark does not count. Options that are not known are left alone; one that is known but
has no meaning makes the whole address useless.
-/
import OperationQueue.Text.Digits

namespace OperationQueue

/-- How tables are opened. -/
inductive Address.Mode
  /-- To be read only. -/
  | readOnly
  /-- To be read and written, if they are there. -/
  | existing
  /-- To be read and written, and made if they are not there. -/
  | create
  /-- In memory, so that they are gone afterwards. -/
  | memory
deriving DecidableEq

/-- How several programs that use the same tables are kept apart. -/
inductive Address.Sharing
  /-- By a log of what was written, which all of them see. -/
  | shared
  /-- Without a log. -/
  | unshared
  /-- Nobody else sees the tables, which are kept in memory. -/
  | hidden
deriving DecidableEq

/-- Where tables lie and how they are opened. -/
structure Address where
  /-- The path. -/
  path : String
  /-- The mode. -/
  mode : Address.Mode
  /-- The sharing. -/
  sharing : Address.Sharing
  /-- Whether nobody is going to change the tables. -/
  isImmutable : Bool
deriving DecidableEq

namespace Address

/-! ## Parts of an address -/

/-- The bytes of a part. A byte of zero ends it. -/
def decodeBytes : List Char → List UInt8
  | '%' :: a :: b :: rest =>
    match Digits.read? 16 [a, b] with
    | some 0 => []
    | some byte => UInt8.ofNat byte :: decodeBytes rest
    | none => String.utf8EncodeChar '%' ++ decodeBytes (a :: b :: rest)
  | c :: rest => String.utf8EncodeChar c ++ decodeBytes rest
  | [] => []

/-- The text of a part. If its bytes are no text, it stands for itself. -/
def decode (cs : List Char) : String :=
  (String.fromUTF8? ⟨(decodeBytes cs).toArray⟩).getD (String.ofList cs)

/-- An address without the name of a machine, which may only be this one. -/
def withoutHost? : List Char → Option (List Char)
  | '/' :: '/' :: rest =>
    let host := String.ofList (rest.takeWhile (· ≠ '/'))
    if host = "" || host = "localhost" then some (rest.dropWhile (· ≠ '/')) else none
  | cs => some cs

/-- An option: a name and a value with an equals sign between them. -/
def readOption (text : String) : String × String :=
  let cs := text.toList
  (decode (cs.takeWhile (· ≠ '=')), decode ((cs.dropWhile (· ≠ '=')).drop 1))

/-- The options of an address; those without a name do not count. -/
def readOptions (cs : List Char) : List (String × String) :=
  (((String.ofList cs).splitOn "&").map readOption).filter fun (name, _) => name ≠ ""

/-! ## Options -/

/-- The mode with a name. -/
def Mode.ofName? : String → Option Mode
  | "ro" => some .readOnly
  | "rw" => some .existing
  | "rwc" => some .create
  | "memory" => some .memory
  | _ => none

/-- Whether a later mode may replace an earlier one: it may not allow more. -/
def Mode.yieldsTo : Mode → Mode → Bool
  | .readOnly, next => next = .readOnly || next = .memory
  | .existing, next => next ≠ .create
  | _, _ => true

/-- The sharing that a way of locking files leads to. -/
def Sharing.ofName? : String → Option Sharing
  | "unix" | "unix-excl" => some .shared
  | "unix-none" | "unix-dotfile" => some .unshared
  | "memdb" => some .hidden
  | _ => none

/-- Whether the value of a switch turns it on: a word for it, or a number that is not
zero in its last eight bits. -/
def isOn (value : String) : Bool :=
  match value.toList.takeWhile (Digits.isDigit 10) with
  | [] => ["on", "yes", "true"].contains (String.ofList (value.toList.map Char.toLower))
  | digits => (Digits.read? 10 digits).any fun n => n < 0x80000000 && n % 256 ≠ 0

/-- Whether the first option with a name turns a switch on. -/
def isSwitchedOn (name : String) (options : List (String × String)) : Bool :=
  (options.find? fun option => option.1 = name).any fun option => isOn option.2

/-- The mode after one more option, if the option has a meaning. -/
def nextMode? (mode : Mode) : String × String → Option Mode
  | ("mode", value) =>
    (Mode.ofName? value).bind fun next => if mode.yieldsTo next then some next else none
  | ("cache", value) => if value = "shared" || value = "private" then some mode else none
  | _ => some mode

/-- The sharing that the last option about it leads to. -/
def sharing? (options : List (String × String)) : Option Sharing :=
  match (options.filter fun option => option.1 = "vfs").getLast? with
  | some (_, value) => Sharing.ofName? value
  | none => some .shared

/-- The sharing of tables that nobody locks: they have no log. -/
def Sharing.unlocked : Sharing → Sharing
  | .shared => .unshared
  | sharing => sharing

/-! ## Addresses -/

/-- The address of tables under a path. -/
def ofPath (path : String) : Address := ⟨path, .create, .shared, false⟩

/-- Read an address after its mark. -/
def ofMarked? (cs : List Char) : Option Address := do
  let cs := (← withoutHost? cs).takeWhile (· ≠ '#')
  let options := readOptions ((cs.dropWhile (· ≠ '?')).drop 1)
  let mode ← options.foldlM nextMode? .create
  let sharing ← sharing? options
  return {
    path := decode (cs.takeWhile (· ≠ '?'))
    mode := mode
    sharing := if isSwitchedOn "nolock" options then sharing.unlocked else sharing
    isImmutable := isSwitchedOn "immutable" options }

/-- Read an address. -/
def parse? (text : String) : Option Address :=
  if text.startsWith "file:" then ofMarked? (text.toList.drop 5) else some (ofPath text)

/-- Whether there is no file for the tables to be kept in. -/
def isNameless (address : Address) : Bool :=
  address.path = "" || address.path = ":memory:" || address.mode = .memory

/-- Whether the tables are gone afterwards. -/
def isTemporary (address : Address) : Bool := address.isNameless || address.sharing = .hidden

/-- Whether the tables cannot be written. -/
def isReadOnly (address : Address) : Bool :=
  address.mode = .readOnly || (address.isImmutable && !address.isNameless)

end Address

end OperationQueue
