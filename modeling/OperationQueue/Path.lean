/-
# Paths

A path is a row of names with slashes between them. Some names lead nowhere, and two
dots lead one step back. A path that begins with a slash starts at the root of all
folders, and any other path at the working folder.
-/

namespace OperationQueue

namespace Path

/-- The parts of a path between slashes. -/
def parts (path : String) : List String := path.splitOn "/"

/-- Whether a part of a path leads nowhere. -/
def isIdle (part : String) : Bool := part = "" || part = "."

/-- Whether a part of a path leads one step back. -/
def isBack (part : String) : Bool := part = ".."

/-- Whether a path starts at the root of all folders. -/
def isAbsolute (path : String) : Bool := path.startsWith "/"

/-- Parts as a path. -/
def join (parts : List String) : String := String.intercalate "/" parts

/-- The path from the root along some names. -/
def absolute (names : List String) : String := "/" ++ join names

/-- The parts of a path that matter. A dot matters only where it is all that tells
the working folder from nothing. -/
def steps (path : String) : List String :=
  let parts := parts path
  let steps := parts.filter fun part => !isIdle part
  if parts.head? = some "." then "." :: steps else steps

/-- The folder in which a path ends; nothing for a single name. -/
def parent (path : String) : String :=
  (if isAbsolute path then "/" else "") ++ join (steps path).dropLast

/-- The number of bytes that a name may have. -/
def maxName : Nat := 255

/-- The number of bytes that a path may have. -/
def maxLength : Nat := 4095

/-- Whether a name has more bytes than any file can have. -/
def isOverlong (name : String) : Bool := maxName < name.utf8ByteSize

end Path

end OperationQueue
