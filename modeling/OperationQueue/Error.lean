/-
# What can go wrong

Every failure of the library is one of these causes. The wording is in one place,
so a caller may tell causes apart without looking at a text.
-/
import OperationQueue.Algorithm
import OperationQueue.Identity.Text
import OperationQueue.Instant.Timestamp
import OperationQueue.Operation

namespace OperationQueue

/-- The causes of failure. -/
inductive Error
  /-- A configuration without pipelines. -/
  | noPipelines
  /-- A configuration that would never wait. -/
  | noHoldWait
  /-- A configuration with a pipeline whose name is blank. -/
  | blankPipelineName
  /-- A pipeline that gives its own name as a previous one. -/
  | ownPreviousName (name : String)
  /-- A previous name that two pipelines lay claim to. -/
  | sharedName (name owner claimant : String)
  /-- A pipeline whose stored algorithm differs and may not be replaced. -/
  | algorithmChanged (pipeline : String) (stored configured : Algorithm)
  /-- A pipeline under a name that is taken. -/
  | nameTaken (name : String)
  /-- A name under which no pipeline is registered. -/
  | unknownPipeline (name : String)
  /-- A row number under which no pipeline is stored. -/
  | unknownPipelineRow (rowid : Int)
  /-- A commit after which an operation would wait for itself. -/
  | cycle (snapshot : Snapshot) (id : Identity)
  /-- A stored pipeline with a number that stands for no algorithm. -/
  | storedAlgorithm (pipeline : String) (code : Int)
  /-- A stored hold whose date cannot be read. -/
  | storedDate (text : String) (fault : Instant.Fault)
  /-- A stored operation whose identity cannot be read. -/
  | storedIdentity (text : String) (fault : Identity.Fault)
  /-- A stored operation whose status is none. -/
  | storedStatus (id : Identity) (text : String)
  /-- A stored operation whose dependencies cannot be read. -/
  | storedDependencies
  /-- A new operation whose identity is stored already. -/
  | alreadyStored (id : Identity)
  /-- A write or read that the tables refuse. -/
  | storage
  /-- A file that cannot be read. -/
  | unreadableFile
  /-- A configuration file that is not well formed. -/
  | malformedConfig
deriving DecidableEq

namespace Error

/-- The words for a cause of failure. -/
def message : Error → String
  | noPipelines =>
    "Configuration error: config must contain at least one [pipeline.<name>] section"
  | noHoldWait => "Configuration error: [config].max_hold_wait_ms must be >= 1 (got 0)"
  | blankPipelineName => "Configuration error: pipeline names must not be empty"
  | ownPreviousName name =>
    "Configuration error: pipeline '" ++ name ++ "' lists its own name in \x60previous_names\x60"
  | sharedName name owner claimant =>
    "Pipeline already registered: '" ++ name ++ "' is used by both '" ++ owner ++ "' and '" ++
      claimant ++ "'"
  | algorithmChanged pipeline stored configured =>
    "Pipeline '" ++ pipeline ++ "' changed algorithm from " ++ stored.name ++ " to " ++
      configured.name ++ " without \x60migrate_algorithm = true\x60"
  | nameTaken name => "Pipeline already registered: " ++ name
  | unknownPipeline name => "Pipeline not found: " ++ name
  | unknownPipelineRow rowid => "Pipeline not found: rowid " ++ toString rowid
  | cycle snapshot id =>
    "Cycle detected in operation dependencies: cycle detected in commit " ++
      toString snapshot.toNat ++ " involving operation " ++ id.text
  | storedAlgorithm pipeline code =>
    "Corrupt stored row: pipeline '" ++ pipeline ++ "' has unknown algorithm code " ++
      toString code
  | storedDate text fault =>
    "Corrupt stored row: invalid hold date '" ++ text ++ "': " ++ fault.message
  | storedIdentity text fault =>
    "Corrupt stored row: invalid uuid '" ++ text ++ "': " ++ fault.message
  | storedStatus id text =>
    "Corrupt stored row: operation " ++ id.text ++ " has status '" ++ text ++ "'"
  | storedDependencies => "Serialization error"
  | alreadyStored id => "operation " ++ id.text ++ " is already stored"
  | storage => "Storage error"
  | unreadableFile => "IO error"
  | malformedConfig => "TOML parsing error"

end Error

end OperationQueue
