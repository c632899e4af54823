/-
# Command lines

A command line is a list of words. An option that takes a value finds it in the same
word, after an equals sign, or in the next one. Everything may be given once, and
what is not known is refused. Words are taken in order, and the first thing that
stops the program counts.

A value in a word of its own is judged only when something follows that is judged as
well, or at the end. So a later word that nobody knows is reported before it.
-/
import OperationQueue.LogLevel

namespace OperationQueue

/-- What a command line asks for. -/
structure CommandLine where
  /-- The path of the configuration, if it is given. -/
  config : Option String
  /-- The path of the tables. -/
  database : String
  /-- The level of logging, if it is given. -/
  logLevel : Option LogLevel
  /-- Whether to show the configuration only. -/
  dryRun : Bool
deriving DecidableEq, Inhabited

namespace CommandLine

/-- Why a command line is not carried out. -/
inductive Stop
  /-- It asks for help. -/
  | help
  /-- It asks for the version. -/
  | version
  /-- An option has no value, or none that it can have. -/
  | invalidValue
  /-- Something is given twice. -/
  | repeated
  /-- Something that takes no value has one. -/
  | unneededValue
  /-- A word that means nothing. -/
  | unknown
deriving DecidableEq

/-- The options that take a value. -/
inductive Setting
  /-- The path of the configuration. -/
  | config
  /-- The path of the tables. -/
  | database
  /-- The level of logging. -/
  | logLevel
deriving DecidableEq

/-- What takes no value. -/
inductive Switch
  /-- Show the configuration only. -/
  | dryRun
  /-- Ask for help. -/
  | help
  /-- Ask for the version. -/
  | version
deriving DecidableEq

/-- The option of a name. -/
def setting? (name : String) : Option Setting :=
  match name with
  | "config" => some .config
  | "db" => some .database
  | "log-level" => some .logLevel
  | _ => none

/-- The switch of a name. -/
def switch? (name : String) : Option Switch :=
  match name with
  | "dry-run" => some .dryRun
  | "help" => some .help
  | "version" => some .version
  | _ => none

/-- The switch of a letter. -/
def letter? (c : Char) : Option Switch :=
  if c = 'h' then some .help else if c = 'V' then some .version else none

/-- What the words taken so far have given. -/
structure Given where
  /-- The path of the configuration. -/
  config : Option String
  /-- The path of the tables. -/
  database : Option String
  /-- The level of logging. -/
  logLevel : Option LogLevel
  /-- Whether to show the configuration only. -/
  dryRun : Bool
  /-- An option that is not judged yet, with its value as far as there is one. -/
  pending : Option (Setting × Option String)

/-- Nothing is given. -/
def Given.none : Given := ⟨.none, .none, .none, false, .none⟩

/-- Give an option its value. -/
def Given.set (g : Given) (value : String) : Setting → Except Stop Given
  | .config => if g.config.isSome then .error .repeated else .ok { g with config := some value }
  | .database =>
    if g.database.isSome then .error .repeated else .ok { g with database := some value }
  | .logLevel =>
    if g.logLevel.isSome then .error .repeated
    else
      match LogLevel.ofName? value with
      | some level => .ok { g with logLevel := some level }
      | .none => .error .invalidValue

/-- Judge the option that is not judged yet. -/
def Given.settle (g : Given) : Except Stop Given :=
  match g.pending with
  | .none => .ok g
  | some (_, .none) => .error .invalidValue
  | some (setting, some value) => { g with pending := .none }.set value setting

/-- Turn a switch on. -/
def Given.turnOn (g : Given) : Switch → Except Stop Given
  | .help => .error .help
  | .version => .error .version
  | .dryRun => if g.dryRun then .error .repeated else .ok { g with dryRun := true }

/-- Take a word that starts with two dashes: a name, and perhaps a value after an
equals sign. -/
def Given.takeNamed (g : Given) (word : List Char) : Except Stop Given :=
  let name := String.ofList (word.takeWhile (· ≠ '='))
  let value :=
    match word.dropWhile (· ≠ '=') with
    | [] => Option.none
    | _ :: value => some (String.ofList value)
  match setting? name, switch? name, value with
  | some setting, _, some value => do (← g.settle).set value setting
  | some setting, _, .none => do return { ← g.settle with pending := some (setting, .none) }
  | .none, some _, some _ => .error .unneededValue
  | .none, some switch, .none => do (← g.settle).turnOn switch
  | .none, .none, _ => .error .unknown

/-- Take a word that starts with one dash: the first letter decides, as every known
one stops the program. -/
def Given.takeLetter (g : Given) (c : Char) : Except Stop Given :=
  match letter? c with
  | some switch => do (← g.settle).turnOn switch
  | .none => .error .unknown

/-- Take a word without a dash, which has to be the value of the option before it. -/
def Given.takePlain (g : Given) (word : String) : Except Stop Given :=
  match g.pending with
  | some (setting, .none) => .ok { g with pending := some (setting, some word) }
  | _ => .error .unknown

/-- Take all words. Two dashes alone end the options, and nothing may follow them. -/
def Given.takeAll (g : Given) : List String → Except Stop Given
  | [] => .ok g
  | word :: rest =>
    match word.toList with
    | ['-', '-'] => if rest.isEmpty then .ok g else .error .unknown
    | '-' :: '-' :: named => do (← g.takeNamed named).takeAll rest
    | '-' :: c :: _ => do (← g.takeLetter c).takeAll rest
    | _ => do (← g.takePlain word).takeAll rest

/-- The path of tables that are not given another. -/
def defaultDatabase : String := "cloudpipe.db"

/-- Read a command line. -/
def parse (words : List String) : Except Stop CommandLine := do
  let g ← (← Given.none.takeAll words).settle
  return ⟨g.config, g.database.getD defaultDatabase, g.logLevel, g.dryRun⟩

end CommandLine

end OperationQueue
