/-
# Sessions

A session is a registry in use: executors receive operations, and watchers receive
events. An executor that records starts may also answer a start at once, by making
requests of the same pipeline while the step that started the operation is still
being carried out. The step was decided before, so such a request changes what
happens later and not what the step does.

Published events wait in an outbox until a watcher looks, which it does whenever an
operation starts, whenever an executor has made a request, and at the end.
-/
import OperationQueue.Runtime

namespace OperationQueue

/-- What may be asked about a pipeline. -/
structure Question where
  /-- About one operation. -/
  id : Option Identity
  /-- About one context of holds. -/
  context : Option String
  /-- About several operations. -/
  ids : Option (List Identity)
  /-- About the graph at a position. -/
  index : Option Nat
  /-- About the graph of a snapshot. -/
  snapshot : Option Snapshot
  /-- About holds after a time. -/
  now : Option Instant
  /-- About the whole queue. -/
  all : Bool

/-- What may be asked of a pipeline. -/
inductive Request
  /-- Mark an operation as running. -/
  | setActive (id : Identity)
  /-- Return an operation to waiting. -/
  | setPending (id : Identity)
  /-- Hold an operation, without storing the hold. -/
  | hold (id : Identity) (context : String) (date : Option Instant)
  /-- Change the limit on running operations. -/
  | setLimit (limit : Nat)
  /-- Look for work. -/
  | recheck
  /-- Look for work as of another time. -/
  | recheckAt (now : Instant)
  /-- Apply a commit, without storing it. -/
  | apply (snapshot : Snapshot) (items : List (Staging Draft))
  /-- Add reasons to start nothing. -/
  | suspend (increment : Nat)
  /-- Take one reason back. -/
  | resume
  /-- Replace the queue by stored operations. -/
  | restore (records : List StoredOperation) (stored : Option Algorithm)
  /-- Replace the queue by what would be stored of it. -/
  | restoreSelf (stored : Option Algorithm)
  /-- Ask without changing anything. -/
  | query (question : Question)

/-- What a pipeline replies. -/
inductive Reply
  /-- It is done. -/
  | done
  /-- A count. -/
  | count (n : Nat)
  /-- It is refused. -/
  | refused (error : Error)
  /-- What was asked can be read off this state. -/
  | answer (question : Question) (m : Member)

/-- Requests that an executor makes when an operation starts. -/
structure Script where
  /-- How many starts they answer. -/
  remaining : Nat
  /-- The requests, in order. -/
  requests : List Request

/-- One entry of the journal. -/
inductive Entry
  /-- A watcher saw an event of a pipeline. -/
  | event (pipeline : String) (event : Event)
  /-- A recording executor received an operation, and saw this status of it. -/
  | start (pipeline : String) (op : Operation) (seen : Option Status)
  /-- A request made at the start of an operation got a reply. -/
  | reply (id : Identity) (reply : Reply)

/-- A registry in use. -/
structure Session (σ : Type) where
  /-- The registry. -/
  registry : Registry σ
  /-- The current time. -/
  clock : Instant
  /-- How recording executors answer starts. -/
  scripts : OrderedMap Identity Script
  /-- Transactions that are being staged, by a name that the caller chose. -/
  transactions : OrderedMap String Transaction
  /-- Published events that nobody has looked at, by pipeline. -/
  outbox : OrderedMap String (List Event)
  /-- Operations that wait in channels, by pipeline. -/
  channels : OrderedMap String (List Operation)
  /-- What happened, the last entry first. -/
  journal : List Entry

namespace Session

variable {σ : Type}

/-- A session on a store. -/
def new (store : σ) (clock : Instant) : Session σ where
  registry := .new store
  clock := clock
  scripts := .empty
  transactions := .empty
  outbox := .empty
  channels := .empty
  journal := []

/-! ## Watching -/

/-- Publish events of a pipeline. -/
def publish (s : Session σ) (pipeline : String) (events : List Event) : Session σ :=
  { s with outbox := s.outbox.insert pipeline ((s.outbox.get? pipeline).getD [] ++ events) }

/-- Look at all published events: pipelines in the order of their names. -/
def watch (s : Session σ) : Session σ :=
  let seen := s.outbox.entries.flatMap fun (pipeline, events) =>
    events.map (Entry.event pipeline)
  { s with outbox := .empty, journal := seen.reverse ++ s.journal }

/-- Add an entry to the journal. -/
def record (s : Session σ) (entry : Entry) : Session σ :=
  { s with journal := entry :: s.journal }

/-- The journal since it was last taken, oldest entry first, and what waits in the
channels; both are empty afterwards. -/
def takeJournal (s : Session σ) : List Entry × List (String × Operation) × Session σ :=
  let s := s.watch
  let sent := s.channels.entries.flatMap fun (pipeline, ops) => ops.map fun op => (pipeline, op)
  (s.journal.reverse, sent, { s with journal := [], channels := .empty })

/-! ## Requests -/

/-- The reply to a request, the step that it leads to, and the pipeline afterwards. -/
def respond (clock : Instant) (m : Member) : Request → Reply × Step × Member
  | .setActive id => stepped (m.pipeline.setActive id)
  | .setPending id => stepped (m.pipeline.setPending id clock)
  | .hold id context date => stepped (m.pipeline.setHold id context date clock)
  | .setLimit limit => stepped (m.pipeline.setLimit limit clock)
  | .recheck => stepped (m.pipeline.recheck clock)
  | .recheckAt now => stepped (m.pipeline.recheck now)
  | .apply snapshot items =>
    let staged := items.map fun item => item.map fun draft => draft.resolve m.pipeline.operation?
    stepped (m.pipeline.applyCommit ((Commit.new snapshot).stageAll staged) clock)
  | .suspend increment => counted (m.pipeline.suspend increment)
  | .resume => counted (m.pipeline.resume clock)
  | .restore records stored => restored (m.restore records stored)
  | .restoreSelf stored => restored (m.restore m.pipeline.stored stored)
  | .query question => (.answer question m, .empty, m)
where
  /-- A change that gives a step. -/
  stepped (result : Step × Pipeline) : Reply × Step × Member :=
    (.done, result.1, { m with pipeline := result.2 })
  /-- A change that gives a count and a step. -/
  counted (result : Nat × Step × Pipeline) : Reply × Step × Member :=
    (.count result.1, result.2.1, { m with pipeline := result.2.2 })
  /-- A change that may be refused and starts nothing. -/
  restored (result : Except Error (Nat × Member)) : Reply × Step × Member :=
    match result with
    | .ok (count, m) => (.count count, .empty, m)
    | .error e => (.refused e, .empty, m)

/-- Take one use of the script for an operation. -/
def takeScript (s : Session σ) (id : Identity) : List Request × Session σ :=
  match s.scripts.get? id with
  | some ⟨remaining + 1, requests⟩ =>
    (requests, { s with scripts := s.scripts.insert id ⟨remaining, requests⟩ })
  | _ => ([], s)

/-- Make a request of a pipeline up to the point where its step is carried out.
Gives the reply and the operations to start. -/
def decide (s : Session σ) (name : String) (m : Member) (request : Request) :
    Reply × List Operation × Session σ :=
  let (reply, step, m) := respond s.clock m request
  let s := { s with
    registry := { s.registry with members := s.registry.members.insert name m } }
  (reply, step.dispatch, s.publish name step.events)

/-- Hand an operation to the executor of a pipeline. A recording executor makes the
requests of its script before the next operation starts. Every script that runs uses
up one start, so the total number of starts left bounds the depth. -/
def start : Nat → String → Session σ → Operation → Session σ
  | depth, name, s, op =>
    match s.registry.members.get? name with
    | none => s
    | some m =>
      match m.executor with
      | .closedChannel => s
      | .channel =>
        { s with channels := s.channels.insert name ((s.channels.get? name).getD [] ++ [op]) }
      | .recorder =>
        let s := s.watch.record (.start name op (m.pipeline.status? op.id))
        match depth with
        | 0 => s
        | depth + 1 =>
          let (requests, s) := s.takeScript op.id
          requests.foldl (fun s request =>
            match s.registry.members.get? name with
            | none => s
            | some m =>
              let (reply, ops, s) := s.decide name m request
              ((ops.foldl (start depth name) s).watch).record (.reply op.id reply)) s

/-- The number of starts that scripts still answer. -/
def startsLeft (s : Session σ) : Nat :=
  s.scripts.values.foldr (fun script n => script.remaining + n) 0

/-- Hand operations to the executor of a pipeline, one after the other. -/
def startAll (s : Session σ) (name : String) (ops : List Operation) : Session σ :=
  ops.foldl (start s.startsLeft name) s

/-- Carry out a step: publish its events, then start its operations. -/
def carryOut (s : Session σ) (name : String) (step : Step) : Session σ :=
  (s.publish name step.events).startAll name step.dispatch

/-- Make a request of the pipeline with a name, if there is one. -/
def request (s : Session σ) (name : String) (request : Request) : Option Reply × Session σ :=
  match s.registry.members.get? name with
  | none => (none, s)
  | some m =>
    let (reply, ops, s) := s.decide name m request
    (some reply, s.startAll name ops)

/-! ## The registry in use -/

/-- Look for work in all pipelines, in the order of their names. -/
def recheckAll (s : Session σ) : Session σ :=
  s.registry.names.foldl (fun s name => (s.request name .recheck).2) s

/-- React to one event of the runtime. -/
def react (s : Session σ) : RuntimeEvent → Session σ
  | .recheck name => (s.request name .recheck).2
  | .recheckAll => s.recheckAll
  | .shutdown => s

/-- Run the runtime on some events. -/
def runRuntime (s : Session σ) (events : List RuntimeEvent) : Session σ :=
  (Runtime.untilShutdown events).foldl react s

/-- Let the runtime sleep once without an event. -/
def idleRuntime (s : Session σ) : Session σ := s.recheckAll

/-- Replace how starts of an operation are answered. -/
def setScript (s : Session σ) (id : Identity) (script : Script) : Session σ :=
  { s with scripts := s.scripts.insert id script }

/-- The queued operation of a pipeline. -/
def queued (s : Session σ) (name : String) (id : Identity) : Option Operation :=
  (s.registry.members.get? name).bind fun m => m.pipeline.operation? id

/-- Stage changes in a transaction; nothing but the name of a pipeline mentions it. -/
def stageInto (s : Session σ) (tx : Transaction) (items : List (String × Option (Staging Draft))) :
    Transaction :=
  items.foldl (fun tx (name, item) =>
    match item with
    | some item => tx.stage name (item.map fun draft => draft.resolve (s.queued name))
    | none => tx.touch name) tx

/-- The transaction that the caller knows under a name; a new one at first. -/
def transaction (s : Session σ) (key : String) : Transaction :=
  (s.transactions.get? key).getD .empty

/-- Start a transaction anew. -/
def begin (s : Session σ) (key : String) : Session σ :=
  { s with transactions := s.transactions.insert key .empty }

/-- Stage changes in the transaction known under a name. -/
def stage (s : Session σ) (key : String) (items : List (String × Option (Staging Draft))) :
    Transaction × Session σ :=
  let tx := s.stageInto (s.transaction key) items
  (tx, { s with transactions := s.transactions.insert key tx })

/-- Forget the transaction known under a name. -/
def drop (s : Session σ) (key : String) : Session σ :=
  { s with transactions := s.transactions.erase key }

/-- Forget everything but the store and the scripts, as after a restart. -/
def restart (s : Session σ) : Session σ :=
  { new s.registry.store s.clock with scripts := s.scripts }

variable [Store σ]

/-- Register a pipeline. -/
def register (s : Session σ) (c : Candidate) : Except Error Unit × Session σ :=
  let (result, registry) := s.registry.register c
  (result, { s with registry := registry })

/-- Register the pipelines of a configuration. -/
def registerConfigured (s : Session σ) (cfg : Config) : Except Error Unit × Session σ :=
  let (result, registry) := s.registry.registerConfigured cfg .recorder
  (result, { s with registry := registry })

/-- Commit a transaction and carry out what follows, pipeline by pipeline. -/
def commit (s : Session σ) (tx : Transaction) : Except Error Snapshot × Session σ :=
  match s.registry.commit tx s.clock with
  | .error e => (.error e, s)
  | .ok committed =>
    (.ok committed.snapshot,
      committed.steps.foldl (fun s (name, step) => s.carryOut name step)
        { s with registry := committed.registry })

/-- Commit the transaction known under a name, and forget it. -/
def commitNamed (s : Session σ) (key : String) : Except Error Snapshot × Session σ :=
  (s.drop key).commit (s.transaction key)

/-- Hold an operation in the store and in the queue. -/
def setHold (s : Session σ) (name : String) (id : Identity) (context : String)
    (date : Option Instant) : Except Error Unit × Session σ :=
  match s.registry.setHold name id context date s.clock with
  | .error e => (.error e, s)
  | .ok (step, registry) => (.ok (), { s with registry := registry }.carryOut name step)

end Session

end OperationQueue
