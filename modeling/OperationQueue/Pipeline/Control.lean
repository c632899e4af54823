/-
# Controlling a pipeline

What an executor or a caller may ask of a pipeline outside a commit: mark an
operation as running or waiting, hold it, suspend and resume the pipeline, change
its limit, or ask for a scheduling pass. A request that changes nothing answers
with an empty step.
-/
import OperationQueue.Pipeline.Scheduling

namespace OperationQueue

namespace Pipeline

/-- Whether a queued operation may move to another status outside a commit. -/
def mayMove (p : Pipeline) (id : Identity) (next : Status) : Bool :=
  (p.operation? id).any fun op => op.status != next && op.status.canBecome next

/-- Move a queued operation to a status. -/
def moveTo (p : Pipeline) (id : Identity) (next : Status) : Pipeline :=
  p.update id fun op => { op with status := next }

/-- Mark an operation as running. -/
def setActive (p : Pipeline) (id : Identity) : Step × Pipeline :=
  if p.mayMove id .active then (p.moveTo id .active).settle [] else (.empty, p)

/-- Return an operation to waiting, and look for work. -/
def setPending (p : Pipeline) (id : Identity) (now : Instant) : Step × Pipeline :=
  if p.mayMove id .pending then (p.moveTo id .pending).reschedule now [] else (.empty, p)

/-- Hold a queued operation until a date under a context, or release it there. -/
def setHold (p : Pipeline) (id : Identity) (context : String) (date : Option Instant)
    (now : Instant) : Step × Pipeline :=
  if p.isQueued id && p.holds.changes id context date then
    { p with holds := p.holds.set id context date }.reschedule now []
  else (.empty, p)

/-- The largest count of suspensions; more suspensions leave it there. -/
def maxSuspendCount : Nat := 0xFFFFFFFFFFFFFFFF

/-- Add reasons to start nothing. Gives the new count. -/
def suspend (p : Pipeline) (increment : Nat) : Nat × Step × Pipeline :=
  if increment = 0 then (p.suspendCount, .empty, p)
  else
    let count := min (p.suspendCount + increment) maxSuspendCount
    (count, { p with suspendCount := count }.settle [.suspendCountChanged count])

/-- Take one reason back. With the last one goes a scheduling pass. Gives the new
count. -/
def resume (p : Pipeline) (now : Instant) : Nat × Step × Pipeline :=
  match p.suspendCount with
  | 0 => (0, .empty, p)
  | count + 1 =>
    let resumed := { p with suspendCount := count }
    let events := [Event.suspendCountChanged count]
    (count, if count = 0 then resumed.reschedule now events else resumed.settle events)

/-- Change the limit on running operations. -/
def setLimit (p : Pipeline) (limit : Nat) (now : Instant) : Step × Pipeline :=
  if p.limit = limit then (.empty, p) else { p with limit := limit }.reschedule now []

/-- Look for work. -/
def recheck (p : Pipeline) (now : Instant) : Step × Pipeline := p.reschedule now []

end Pipeline

end OperationQueue
