/-
# Opening tables

Tables are opened under an address. The folder in which the address ends is made first,
whatever the address turns out to mean. Then its path is followed in its text alone:
a step back undoes the name before it, even one that is not there, but nothing can be
found below a file.
-/
import OperationQueue.Machine
import OperationQueue.Store.Table.Address
import OperationQueue.Store.Table.Document

namespace OperationQueue

/-- Tables that are open. -/
structure OpenTables where
  /-- The tables. -/
  tables : TableStore
  /-- The file in which changed tables are kept, unless they are temporary. -/
  file : Option String
  /-- Whether the tables cannot be written. -/
  isReadOnly : Bool

namespace OpenTables

variable {m : Type → Type} [Monad m]

/-- The number of bytes that the path of tables may have, counted from the root. -/
def maxPath : Nat := 504

/-- The names that lead from the root to the end of a path, which starts after some
names. -/
def locate (machine : Machine m) : List String → List String → m (Option (List String))
  | here, [] => return some here
  | here, part :: rest =>
    if Path.isIdle part then locate machine here rest
    else if Path.isBack part then locate machine here.dropLast rest
    else do
      let next := here ++ [part]
      if Path.isOverlong part || maxPath < (Path.absolute next).utf8ByteSize then return none
      match ← machine.find (Path.absolute here) with
      | some (.file _) => return none
      | _ => locate machine next rest

/-- What the name of a file ends with in which changes of it are prepared. -/
def journalEnd : String := "-journal"

/-- Whether there may be a second file beside the one under a path, in which changes of
it are prepared. -/
def hasJournal (path : String) : Bool :=
  (Path.parts path).getLast?.any fun name => !Path.isOverlong (name ++ journalEnd)

/-- Give a new file tables without rows. -/
def ofNewFile (machine : Machine m) (address : Address) (path : String) :
    m (Except Error OpenTables) := do
  if address.isReadOnly || !hasJournal path then return .error .storage
  else if ← machine.write path TableStore.empty.toFile then return .ok ⟨.empty, some path, false⟩
  else return .error .storage

/-- Open the tables in a file. Tables that are written with a log cannot be read
without one, unless nobody is going to change them. -/
def ofContent (machine : Machine m) (address : Address) (path : String) (content : ByteArray) :
    m (Except Error OpenTables) :=
  if TableStore.isNewFile content then ofNewFile machine address path
  else if address.sharing = .unshared && !address.isImmutable then return .error .storage
  else return (TableStore.ofFile content).map fun tables => ⟨tables, some path, address.isReadOnly⟩

/-- Open the tables under a path from the root. -/
def ofPath (machine : Machine m) (address : Address) (path : String) :
    m (Except Error OpenTables) := do
  match ← machine.find path with
  | some (.file content) => ofContent machine address path content
  | some .folder => return .error .storage
  | none =>
    if address.mode ≠ .create then return .error .storage
    else if ← machine.write path .empty then ofNewFile machine address path
    else return .error .storage

/-- Open the tables at an address. -/
def ofAddress (machine : Machine m) (address : Address) : m (Except Error OpenTables) := do
  if address.isTemporary then
    return if address.isReadOnly then .error .storage else .ok ⟨.empty, none, false⟩
  else
    let start ← if Path.isAbsolute address.path then pure [] else machine.home
    match ← locate machine start (Path.parts address.path) with
    | some names => ofPath machine address (Path.absolute names)
    | none => return .error .storage

/-- Make sure that the folder in which a path ends is there. -/
def prepareFolder (machine : Machine m) (path : String) : m Bool := do
  let folder := Path.parent path
  if folder = "" then return true
  match ← machine.find folder with
  | some _ => return true
  | none => machine.makeFolders folder

/-- Open the tables at a written address. -/
def ofText (machine : Machine m) (text : String) : m (Except Error OpenTables) := do
  if ← prepareFolder machine text then
    match Address.parse? text with
    | some address => ofAddress machine address
    | none => return .error .storage
  else return .error .unreadableFile

/-- Keep tables that were changed. -/
def save (machine : Machine m) (opened : OpenTables) (tables : TableStore) : m Unit :=
  match opened.file with
  | some path => discard (machine.write path tables.toFile)
  | none => return ()

end OpenTables

end OperationQueue
