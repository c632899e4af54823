/-
# Configurations

A configuration names the pipelines of a program with their options, and says how
long the program sleeps at most while operations are held. It is used only if it is
unambiguous: no name stands for two pipelines, be it a name or a previous name.
-/
import OperationQueue.Error
import OperationQueue.Pipeline
import OperationQueue.Text.Blank

namespace OperationQueue

/-- What a configuration says of one pipeline. -/
structure PipelineSection where
  /-- The scheduling algorithm. -/
  algorithm : Algorithm
  /-- The limit on running operations, if it has one of its own. -/
  limit : Option Nat
  /-- Names under which the pipeline may be stored. -/
  previousNames : List String
  /-- Whether the stored algorithm may be replaced. -/
  migrate : Bool
deriving DecidableEq, Inhabited

/-- A configuration as written. -/
structure Config where
  /-- The longest sleep in milliseconds. -/
  maxHoldWait : Nat
  /-- The limit of pipelines that have none of their own. -/
  defaultLimit : Option Nat
  /-- The pipelines by name. -/
  pipelines : OrderedMap String PipelineSection
deriving DecidableEq, Inhabited

namespace Config

/-- The longest sleep of a configuration that does not say. -/
def defaultHoldWait : Nat := 1000

/-- The limit that a pipeline gets. -/
def limitOf (c : Config) (options : PipelineSection) : Nat :=
  (options.limit.or c.defaultLimit).getD Pipeline.defaultLimit

/-- The names of all pipelines: a name is not blank. -/
def checkNames : List String → Except Error Unit
  | [] => .ok ()
  | name :: rest => if Blank.isBlankText name then .error .blankPipelineName else checkNames rest

/-- Give the previous names of a pipeline to it, unless they have an owner. -/
def claimAll (name : String) : List String → OrderedMap String String →
    Except Error (OrderedMap String String)
  | [], owners => .ok owners
  | previous :: rest, owners =>
    if previous = name then .error (.ownPreviousName name)
    else
      match owners.get? previous with
      | some owner => .error (.sharedName previous owner name)
      | none => claimAll name rest (owners.insert previous name)

/-- Give the previous names of all pipelines to them. -/
def claimNames : List (String × PipelineSection) → OrderedMap String String →
    Except Error (OrderedMap String String)
  | [], owners => .ok owners
  | (name, options) :: rest, owners => do
    claimNames rest (← claimAll name options.previousNames owners)

/-- Refuse a configuration that cannot be used. The faults are looked for in this
order: no pipelines, no sleep, blank names, names claimed twice. -/
def check (c : Config) : Except Error Unit := do
  if c.pipelines.isEmpty then throw .noPipelines
  if c.maxHoldWait = 0 then throw .noHoldWait
  checkNames c.pipelines.keys
  let owners := OrderedMap.ofList (c.pipelines.keys.map fun name => (name, name))
  discard (claimNames c.pipelines.entries owners)

end Config

end OperationQueue
