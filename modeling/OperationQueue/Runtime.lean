/-
# The runtime

The scheduler has no clock of its own: it looks for work only when something
changes. The runtime supplies the clock. It waits for requests to look again, and
wakes up by itself when the first hold runs out or when it has slept long enough.
-/
import OperationQueue.Registry

namespace OperationQueue

/-- What the runtime reacts to. -/
inductive RuntimeEvent
  /-- Look for work in one pipeline. -/
  | recheck (pipeline : String)
  /-- Look for work in all pipelines. -/
  | recheckAll
  /-- Stop. -/
  | shutdown
deriving DecidableEq

namespace Runtime

/-- The longest sleep of a runtime that is given none, in milliseconds. -/
def defaultHoldWait : Nat := 1000

/-- How long to sleep, in nanoseconds: until the first hold runs out, but at most
for the longest sleep. -/
def nextWakeup {σ : Type} (r : Registry σ) (now : Instant) (maxWait : Nat) : Nat :=
  match r.nextHoldExpiry now with
  | some date => min (now.nanosUntil date) maxWait
  | none => maxWait

/-- The events that a runtime reacts to before it stops. -/
def untilShutdown (events : List RuntimeEvent) : List RuntimeEvent :=
  events.takeWhile (· ≠ .shutdown)

end Runtime

end OperationQueue
