/-
# The command

The program on the files of the machine.
-/
import OperationQueue.Program

namespace OperationQueue.Command

/-- Whether something worked. -/
def succeeds (action : IO Unit) : IO Bool := do
  try
    action
    return true
  catch _ => return false

/-- What lies under a path. -/
def find (path : String) : IO (Option FileEntry) := do
  try
    return some (.file (← IO.FS.readBinFile path))
  catch _ =>
    try
      return if ← (← IO.FS.realPath path).isDir then some .folder else none
    catch _ => return none

/-- The names that lead from the root to the working folder. -/
def home : IO (List String) := do
  return Path.steps (← IO.currentDir).toString

/-- The machine on which the program runs. -/
def machine : Machine IO where
  home := home
  find := find
  makeFolders path := succeeds (IO.FS.createDirAll path)
  write path content := succeeds (IO.FS.writeBinFile path content)

/-- Run the program, show what it shows, and tell why it failed. A command line that
cannot be read is answered by how to write one. -/
def run (words : List String) : IO UInt32 := do
  let outcome ← Program.run machine (← IO.getEnv "CLOUDPIPE_CONFIG") words
  IO.print outcome.output
  match outcome.failure with
  | some words => IO.eprintln ("cloudpipe error: " ++ words)
  | none => if outcome.code ≠ 0 then IO.eprint Program.helpText
  return UInt32.ofNat outcome.code

end OperationQueue.Command

/-- The command. -/
def main (words : List String) : IO UInt32 := OperationQueue.Command.run words
