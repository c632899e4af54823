/-
# Reports

Texts about pipelines for people: the queue of each pipeline, graph by graph, and
what a configuration would set up.
-/
import OperationQueue.Registry
import OperationQueue.Text.Quoted

namespace OperationQueue

namespace Report

/-- One line about an operation: identity, status and priority, then what it waits
for and until when it is held. -/
def operationLine (p : Pipeline) (op : Operation) : String :=
  let after := op.dependencies.toList.map Identity.text
  "    - " ++ op.id.text ++ " " ++ op.status.label ++ " priority=" ++ toString op.priority ++
    (if after.isEmpty then "" else " after=[" ++ String.intercalate ", " after ++ "]") ++
    (match p.holds.latest op.id with
      | some date => " held_until=" ++ date.reportText
      | none => "") ++ "\n"

/-- The lines about the graph at a position. -/
def graphLines (p : Pipeline) (index : Nat) (g : Graph) : String :=
  "  graph " ++ toString index ++ " (snapshot " ++ toString g.snapshot.toNat ++ "):\n" ++
    String.join (g.operations.map (operationLine p))

/-- The lines about a pipeline. -/
def pipelineLines (p : Pipeline) : String :=
  "pipeline " ++ p.name ++ " (" ++ p.algorithm.name ++ ", max " ++ toString p.limit ++
    " concurrent, " ++ toString p.graphCount ++ " graphs)\n" ++
    String.join (p.graphs.values.zipIdx.map fun (g, index) => graphLines p index g)

/-- The report about some pipelines. -/
def render (pipelines : List Pipeline) : String := String.join (pipelines.map pipelineLines)

/-- A line with a name and a value below a pipeline. -/
def optionLine (name value : String) : String := "      " ++ name ++ ": " ++ value ++ "\n"

/-- The lines about a configured pipeline. Previous names and migration show only
where they are set. -/
def sectionLines (cfg : Config) (name : String) (options : PipelineSection) : String :=
  "  - " ++ name ++ "\n" ++ optionLine "algorithm" options.algorithm.name ++
    optionLine "max_concurrent_operation_count" (toString (cfg.limitOf options)) ++
    (if options.previousNames.isEmpty then ""
      else optionLine "previous_names" (Quoted.quoteList options.previousNames)) ++
    (if options.migrate then optionLine "migrate_algorithm" "true" else "")

/-- What a configuration would set up. -/
def renderDryRun (cfg : Config) : String :=
  "cloudpipe dry-run\n  config.max_hold_wait_ms = " ++ toString cfg.maxHoldWait ++
    "\n\npipelines (" ++ toString cfg.pipelines.size ++ "):\n" ++
    String.join (cfg.pipelines.entries.map fun (name, options) => sectionLines cfg name options)

/-- A short description of a registered pipeline. -/
def describeMember (m : Member) : String :=
  "Pipeline \x7b name: " ++ Quoted.quote m.pipeline.name ++ ", previous_names: " ++
    Quoted.quoteSet m.previousNames.toList ++ ", .. \x7d"

/-- A short description of a registry. -/
def describeRegistry {σ : Type} (r : Registry σ) : String :=
  "Registry \x7b pipelines: " ++ Quoted.quoteList r.names ++ ", .. \x7d"

end Report

end OperationQueue
