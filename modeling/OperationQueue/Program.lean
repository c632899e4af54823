/-
# The program

The program reads a configuration, brings the stored tables in line with it, and
reports what it finds.

Operations are reported here and never started: every pipeline gets a channel, and
nobody reads from it.
-/
import OperationQueue.CommandLine
import OperationQueue.Config.Path
import OperationQueue.Config.Reading
import OperationQueue.Report
import OperationQueue.Store.ReadOnly
import OperationQueue.Store.Table.Opening

namespace OperationQueue

namespace Program

/-- How a run ends. -/
inductive Outcome
  /-- With something to show. -/
  | shown (output : String)
  /-- With a failure. -/
  | failed (error : Error)
  /-- With the command line. -/
  | stopped (stop : CommandLine.Stop)

/-- What is shown when the program is asked for its version. -/
def versionText : String := "cloudpipe 0.1.0\n"

/-- What is shown when the program is asked for help. -/
def helpText : String :=
  "Usage: cloudpipe [--config PATH] [--db PATH] [--log-level LEVEL] [--dry-run]\n"

/-- The exit code of a run: asking for help or for the version is no mistake. -/
def Outcome.code : Outcome → Nat
  | shown _ | stopped .help | stopped .version => 0
  | failed _ => 1
  | stopped _ => 2

/-- What a run shows. -/
def Outcome.output : Outcome → String
  | shown output => output
  | failed _ => ""
  | stopped .help => helpText
  | stopped .version => versionText
  | stopped _ => ""

/-- The words for a failure of a run. -/
def Outcome.failure : Outcome → Option String
  | failed error => some error.message
  | shown _ | stopped _ => none

/-- Register the pipelines of a configuration on a store. The store keeps what was
changed before a failure. -/
def restore {σ : Type} [Store σ] (config : Config) (store : σ) : Outcome × σ :=
  let (result, registry) := (Registry.new store).registerConfigured config .channel
  match result with
  | .ok () => (.shown (Report.render (registry.members.values.map (·.pipeline))), registry.store)
  | .error e => (.failed e, registry.store)

variable {m : Type → Type} [Monad m]

/-- Register the pipelines of a configuration on open tables. -/
def restoreTables (machine : Machine m) (config : Config) (opened : OpenTables) : m Outcome := do
  if opened.isReadOnly then return (restore config (ReadOnly.mk opened.tables)).1
  else
    let (outcome, tables) := restore config opened.tables
    opened.save machine tables
    return outcome

/-- Carry out a command line. The environment may name the configuration. -/
def carryOut (machine : Machine m) (environment : Option String) (line : CommandLine) :
    m Outcome := do
  match Config.load (← machine.read (Config.resolvePath line.config environment)) with
  | .error e => return .failed e
  | .ok config =>
    if line.dryRun then return .shown (Report.renderDryRun config)
    else
      match ← OpenTables.ofText machine line.database with
      | .error e => return .failed e
      | .ok opened => restoreTables machine config opened

/-- Run the program on the words of a command line. -/
def run (machine : Machine m) (environment : Option String)
    (words : List String) : m Outcome :=
  match CommandLine.parse words with
  | .error stop => return .stopped stop
  | .ok line => carryOut machine environment line

end Program

end OperationQueue
