/-
# Machines

What a program needs of the machine it runs on: to look at a file, to write one, and to
make folders. All of it is a parameter, so the same program runs on real files and on
files that are only a value.
-/
import OperationQueue.Path

namespace OperationQueue

/-- What lies under a path. -/
inductive FileEntry
  /-- A file with its content. -/
  | file (content : ByteArray)
  /-- A folder. -/
  | folder

namespace FileEntry

/-- The content of a file. -/
def content? : FileEntry → Option ByteArray
  | file content => some content
  | folder => none

/-- Whether an entry is a folder. -/
def isFolder : FileEntry → Bool
  | file _ => false
  | folder => true

end FileEntry

/-- What a program needs of the machine it runs on. -/
structure Machine (m : Type → Type) where
  /-- The names that lead from the root to the working folder. -/
  home : m (List String)
  /-- What lies under a path, if anything does. -/
  find : String → m (Option FileEntry)
  /-- Make the folder of a path and those on the way to it. Tells whether it is there
  afterwards. -/
  makeFolders : String → m Bool
  /-- Write a file into a folder that is there. Tells whether that worked. -/
  write : String → ByteArray → m Bool

namespace Machine

variable {m : Type → Type} [Monad m]

/-- The content of the file under a path. -/
def read (machine : Machine m) (path : String) : m (Option ByteArray) :=
  return (← machine.find path).bind FileEntry.content?

end Machine

end OperationQueue
