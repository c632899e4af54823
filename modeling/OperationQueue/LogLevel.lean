/-
# Log levels

A level says how much a program tells about its work. It is chosen on the command
line, or else by the environment, which is read leniently: what it does not
understand counts as not given.
-/
import OperationQueue.Text.Blank
import OperationQueue.Text.LowerCase

namespace OperationQueue

/-- How much a program tells about its work, the least first. -/
inductive LogLevel
  /-- Failures only. -/
  | error
  /-- Also what looks wrong. -/
  | warn
  /-- Also what happens. -/
  | info
  /-- Also how it happens. -/
  | debug
  /-- Everything. -/
  | trace
deriving DecidableEq, Inhabited

namespace LogLevel

/-- The name of a level on the command line. -/
def name : LogLevel → String
  | error => "error"
  | warn => "warn"
  | info => "info"
  | debug => "debug"
  | trace => "trace"

/-- The level of an exact name. -/
def ofName? (text : String) : Option LogLevel :=
  match text with
  | "error" => some error
  | "warn" => some warn
  | "info" => some info
  | "debug" => some debug
  | "trace" => some trace
  | _ => none

/-- The word for a level in a log. -/
def label : LogLevel → String
  | error => "ERROR"
  | warn => "WARN"
  | info => "INFO"
  | debug => "DEBUG"
  | trace => "TRACE"

/-- The level that the environment gives: blanks around the name and the case of its
letters do not matter, and one level has a longer name. -/
def ofEnvironment? (text : String) : Option LogLevel :=
  let plain := LowerCase.lower (Blank.trim text)
  if plain = "warning" then some warn else ofName? plain

/-- The level that applies: the chosen one, or else that of the environment, or else
the middle one. -/
def resolve (chosen : Option LogLevel) (environment : Option String) : LogLevel :=
  (chosen.or (environment.bind ofEnvironment?)).getD info

end LogLevel

end OperationQueue
