/-
# Files as a value

Files and folders by the names that lead to them from the root. A machine starts with
the usual folders and a working folder with nothing in it. Following a path takes a
folder at every step, and a step back leads to the folder above.
-/
import OperationQueue.Machine
import OperationQueue.OrderedMap

namespace OperationQueue

/-- Files and folders by the names that lead to them, with slashes between them. -/
structure Files where
  /-- All that is there, the root excepted. -/
  entries : OrderedMap String FileEntry

namespace Files

/-- The names that lead to the working folder. -/
def home : List String := ["tmp", "work"]

/-- The folders of a machine. -/
def usualFolders : List String :=
  ["bin", "dev", "etc", "home", "lib", "media", "mnt", "opt", "proc", "proc/self", "root", "run",
    "sbin", "srv", "sys", "tmp", Path.join home, "usr", "var"]

/-- Files of a machine that have no content. -/
def usualFiles : List String := ["dev/null", "dev/stdin"]

/-- A machine at the start. -/
def empty : Files :=
  ⟨.ofList (usualFolders.map (·, .folder) ++ usualFiles.map (·, .file .empty))⟩

/-- Whether names lead into a part of the machine in which nothing can be written. -/
def isSealed (names : List String) : Bool :=
  names.head?.any fun name => name = "dev" || name = "proc" || name = "sys"

/-- What lies at the end of some names. -/
def entry? (fs : Files) (names : List String) : Option FileEntry :=
  if names.isEmpty then some .folder else fs.entries.get? (Path.join names)

/-- Whether some names lead to a folder. -/
def isFolder (fs : Files) (names : List String) : Bool := (fs.entry? names).any FileEntry.isFolder

/-- Put something at the end of some names. -/
def put (fs : Files) (names : List String) (entry : FileEntry) : Files :=
  ⟨fs.entries.insert (Path.join names) entry⟩

/-! ## Following paths -/

/-- Follow parts of a path from the end of some names. Nothing need be at the end. -/
def follow (fs : Files) (here : List String) : List String → Option (List String)
  | [] => some here
  | part :: rest =>
    if !fs.isFolder here then none
    else if Path.isIdle part then fs.follow here rest
    else if Path.isBack part then fs.follow here.dropLast rest
    else if Path.isOverlong part then none
    else fs.follow (here ++ [part]) rest

/-- The names from which a path starts; nothing can be found under an empty path or a
path that is too long. -/
def start? (path : String) : Option (List String) :=
  if path = "" || Path.maxLength < path.utf8ByteSize then none
  else some (if Path.isAbsolute path then [] else home)

/-- The names to which a path leads. -/
def resolve (fs : Files) (path : String) : Option (List String) :=
  (start? path).bind fun here => fs.follow here (Path.parts path)

/-- What lies under a path. -/
def find (fs : Files) (path : String) : Option FileEntry := (fs.resolve path).bind fs.entry?

/-! ## Writing -/

/-- Write a file into a folder that is there. -/
def write (fs : Files) (path : String) (content : ByteArray) : Bool × Files :=
  match fs.resolve path with
  | some names =>
    if isSealed names || fs.isFolder names then (false, fs)
    else (true, fs.put names (.file content))
  | none => (false, fs)

/-- Follow parts of a path and make the folders that are missing on the way. -/
def makeAll (fs : Files) (here : List String) : List String → Bool × Files
  | [] => (fs.isFolder here, fs)
  | part :: rest =>
    if !fs.isFolder here then (false, fs)
    else if Path.isIdle part then fs.makeAll here rest
    else if Path.isBack part then fs.makeAll here.dropLast rest
    else
      let next := here ++ [part]
      if (fs.entry? next).isSome then fs.makeAll next rest
      else if Path.isOverlong part || isSealed next then (false, fs)
      else (fs.put next .folder).makeAll next rest

/-- Make the folder of a path and those on the way to it. -/
def makeFolders (fs : Files) (path : String) : Bool × Files :=
  match start? path with
  | some here => fs.makeAll here (Path.parts path)
  | none => (false, fs)

/-- Write a file, and make its folder before. -/
def place (fs : Files) (path : String) (content : ByteArray) : Files :=
  ((fs.makeFolders (Path.parent path)).2.write path content).2

/-- A machine on which files are a value. -/
def machine : Machine (StateM Files) where
  home fs := (home, fs)
  find path fs := (fs.find path, fs)
  makeFolders path fs := fs.makeFolders path
  write path content fs := fs.write path content

end Files

end OperationQueue
