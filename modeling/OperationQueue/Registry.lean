/-
# Registries

A registry is a store and the pipelines that run on it. It sees to it that the two
stay in step: a change goes to the store first, and only when it is written there do
the pipelines take it over. What then has to happen outside is answered as steps.
-/
import OperationQueue.Config
import OperationQueue.Pipeline.Committing
import OperationQueue.Pipeline.Control
import OperationQueue.Pipeline.Restoring
import OperationQueue.Store

namespace OperationQueue

/-- Who carries out the operations of a pipeline. -/
inductive Executor
  /-- One that records every start and may answer it at once. -/
  | recorder
  /-- A channel from which somebody reads later. -/
  | channel
  /-- A channel that nobody reads any more: what is sent there is lost, and the
  operation stays active. -/
  | closedChannel
deriving DecidableEq, Inhabited

/-- A pipeline that asks to be registered. -/
structure Candidate where
  /-- The name. -/
  name : String
  /-- The scheduling algorithm. -/
  algorithm : Algorithm
  /-- The limit on running operations. -/
  limit : Nat
  /-- Names under which the pipeline may be stored. -/
  previousNames : OrderedSet String
  /-- Whether the stored algorithm may be replaced. -/
  migrate : Bool
  /-- Who carries out the operations. -/
  executor : Executor

/-- The pipeline of a candidate, before anything is restored. -/
def Candidate.pipeline (c : Candidate) : Pipeline :=
  { Pipeline.new c.name c.algorithm with limit := c.limit }

/-- A registered pipeline. -/
structure Member where
  /-- Its row in the store. -/
  rowid : Int
  /-- Its state. -/
  pipeline : Pipeline
  /-- Names that belong to it as well. -/
  previousNames : OrderedSet String
  /-- Whether the stored algorithm may be replaced. -/
  migrate : Bool
  /-- Who carries out its operations. -/
  executor : Executor

/-- Replace the queue of a registered pipeline by stored operations, if the
algorithms agree or may differ. -/
def Member.restore (m : Member) (records : List StoredOperation) (stored : Option Algorithm) :
    Except Error (Nat × Member) := do
  Pipeline.checkAlgorithm m.pipeline.name stored m.pipeline.algorithm m.migrate
  let (count, pipeline) := m.pipeline.restore records
  return (count, { m with pipeline := pipeline })

/-- A store and the pipelines that run on it. -/
structure Registry (σ : Type) where
  /-- The store. -/
  store : σ
  /-- The pipelines by name. -/
  members : OrderedMap String Member

namespace Registry

variable {σ : Type}

/-- A registry without pipelines. -/
def new (store : σ) : Registry σ := ⟨store, .empty⟩

/-- The pipeline registered under a name. -/
def member? (r : Registry σ) (name : String) : Option Member := r.members.get? name

/-- The names of the pipelines, ascending. -/
def names (r : Registry σ) : List String := r.members.keys

/-- Replace the state of a pipeline. -/
def setPipeline (r : Registry σ) (name : String) (p : Pipeline) : Registry σ :=
  match r.members.get? name with
  | some m => { r with members := r.members.insert name { m with pipeline := p } }
  | none => r

/-- The first date at which a waiting operation of any pipeline stops being held. -/
def nextHoldExpiry (r : Registry σ) (now : Instant) : Option Instant :=
  (r.members.values.filterMap fun m => m.pipeline.nextHoldExpiry now).min?

/-! ## Registering -/

/-- Whether a candidate and a registered pipeline lay claim to one name. -/
def conflicts (c : Candidate) (name : String) (m : Member) : Bool :=
  name == c.name || c.previousNames.contains name || m.previousNames.contains c.name

/-- Whether the name of a candidate is taken. -/
def isTaken (r : Registry σ) (c : Candidate) : Bool :=
  r.members.entries.any fun (name, m) => conflicts c name m

variable [Store σ]

/-- Refuse a candidate whose stored algorithm differs and may not be replaced. -/
def checkStored (store : σ) (c : Candidate) : Except Error Unit := do
  match ← Store.lookup store c.name c.previousNames with
  | some record => Pipeline.checkAlgorithm c.name record.storedAlgorithm c.algorithm c.migrate
  | none => return ()

/-- A candidate with its queue restored from its row. -/
def restored (store : σ) (c : Candidate) (record : PipelineRecord) : Except Error Member := do
  let records ← Store.load store record.rowid
  let fresh : Member := ⟨record.rowid, c.pipeline, c.previousNames, c.migrate, c.executor⟩
  let (_, m) ← fresh.restore records record.storedAlgorithm
  return m

/-- The store after a candidate's algorithm replaced the stored one. -/
def migrated (store : σ) (c : Candidate) (record : PipelineRecord) : Except Error σ :=
  if record.storedAlgorithm.any (· ≠ c.algorithm) then
    Store.setAlgorithm store record.rowid c.algorithm
  else .ok store

/-- Register a pipeline: find or create its row, restore its queue, and store its
algorithm. A candidate whose rows cannot be read is refused, but the row that was
created or renamed for it stays. -/
def register (r : Registry σ) (c : Candidate) : Except Error Unit × Registry σ :=
  if r.isTaken c then (.error (.nameTaken c.name), r)
  else
    let found := do
      checkStored r.store c
      Store.register r.store c.name c.previousNames c.algorithm
    match found with
    | .error e => (.error e, r)
    | .ok (record, store) =>
      let r := { r with store := store }
      match restored store c record with
      | .error e => (.error e, r)
      | .ok m =>
        match migrated store c record with
        | .error e => (.error e, r)
        | .ok store => (.ok (), { store := store, members := r.members.insert c.name m })

/-- The candidate that a configuration describes under a name. -/
def candidate (cfg : Config) (executor : Executor) (name : String) (options : PipelineSection) :
    Candidate where
  name := name
  algorithm := options.algorithm
  limit := cfg.limitOf options
  previousNames := .ofMembers options.previousNames
  migrate := options.migrate
  executor := executor

/-- Register candidates one after the other, up to the first that is refused. -/
def registerAll (r : Registry σ) : List Candidate → Except Error Unit × Registry σ
  | [] => (.ok (), r)
  | c :: rest =>
    match r.register c with
    | (.ok (), r) => r.registerAll rest
    | (.error e, r) => (.error e, r)

/-- Register the pipelines of a configuration in the order of their names. -/
def registerConfigured (r : Registry σ) (cfg : Config) (executor : Executor) :
    Except Error Unit × Registry σ :=
  r.registerAll (cfg.pipelines.entries.map fun (name, options) =>
    candidate cfg executor name options)

/-! ## Committing -/

/-- The registered pipelines that commits are for. -/
def targets (r : Registry σ) (commits : OrderedMap String Commit) :
    Except Error (List (Member × Commit)) :=
  commits.entries.mapM fun (name, c) =>
    match r.members.get? name with
    | some m => .ok (m, c)
    | none => .error (.unknownPipeline name)

/-- Apply commits to their pipelines. Gives the steps, with the names. -/
def applyAll (now : Instant) (rowids : OrderedMap Identity Int) :
    List (Member × Commit) → Registry σ → List (String × Step) × Registry σ
  | [], r => ([], r)
  | (m, c) :: rest, r =>
    let (step, p) := m.pipeline.applyCommit (c.assignRowids rowids) now
    let (steps, r) := applyAll now rowids rest (r.setPipeline p.name p)
    ((p.name, step) :: steps, r)

/-- What a successful commit answers. -/
structure Committed (σ : Type) where
  /-- The number of the commit; of the last one if there was nothing to commit. -/
  snapshot : Snapshot
  /-- What has to happen outside, in order. -/
  steps : List (String × Step)
  /-- The registry afterwards. -/
  registry : Registry σ

/-- Commit a transaction: number it, check every commit by itself and against the
queue of its pipeline, write all of them to the store, and apply them. If anything
fails, nothing has changed. -/
def commit (r : Registry σ) (tx : Transaction) (now : Instant) : Except Error (Committed σ) := do
  if tx.isEmpty then return ⟨← Store.lastSnapshot r.store, [], r⟩
  let snapshot ← Store.nextSnapshot r.store
  let commits ← tx.finish snapshot
  let targets ← r.targets commits
  targets.forM fun (m, c) => m.pipeline.checkCommit c
  let (rowids, store) ← Store.applyChangesets r.store snapshot
    (targets.map fun (m, c) => ⟨m.rowid, c.changeset⟩)
  let (steps, r) := applyAll now rowids targets { r with store := store }
  return ⟨snapshot, steps, r⟩

/-! ## Holding -/

/-- Hold an operation until a date under a context, or release it there, in the store
and in the queue. An operation that is not queued is left alone. -/
def setHold (r : Registry σ) (name : String) (id : Identity) (context : String)
    (date : Option Instant) (now : Instant) : Except Error (Step × Registry σ) :=
  match r.members.get? name with
  | none => .error (.unknownPipeline name)
  | some m =>
    if m.pipeline.isQueued id then do
      let holds := (m.pipeline.holds.set id context date).ofOperation id
      let store ← Store.saveHolds r.store id holds
      let (step, p) := m.pipeline.setHold id context date now
      return (step, { r with store := store }.setPipeline name p)
    else .ok (.empty, r)

end Registry

end OperationQueue
