/-
# Instants

A point in time is a number of whole seconds since the start of 1970, UTC, and a
number of nanoseconds after that second. A leap second is written as more than
10⁹ nanoseconds after the second before it, so it stands between its neighbours.
-/

namespace OperationQueue

/-- A point in time. -/
structure Instant where
  /-- Whole seconds since the start of 1970. -/
  seconds : Int
  /-- Nanoseconds after that second. -/
  nanos : Nat
deriving DecidableEq, Inhabited

namespace Instant

/-- One instant lies before another: compare seconds, then nanoseconds. -/
def Before (a b : Instant) : Prop :=
  a.seconds < b.seconds ∨ a.seconds = b.seconds ∧ a.nanos < b.nanos

instance : LT Instant := ⟨Before⟩

instance : DecidableLT Instant := fun a b => by
  unfold LT.lt instLT Before; exact inferInstance

instance : LE Instant := ⟨fun a b => ¬ b < a⟩

instance : DecidableLE Instant := fun a b => by
  unfold LE.le instLE; exact inferInstance

instance : Max Instant := maxOfLe

instance : Min Instant := minOfLe

/-- The second of its day in which an instant lies; a leap second counts as the one before it. -/
def secondOfDay (t : Instant) : Int := t.seconds % 86400

/-- Whether an instant lies in a leap second. -/
def isLeap (t : Instant) : Bool := 1000000000 ≤ t.nanos

/-- The leap seconds that the whole seconds between two instants do not show. One that the earlier
instant lies in is still to pass. One that the later instant lies in is in its nanoseconds, and is
taken out again when that instant comes earlier in its day. -/
def leapSeconds (now later : Instant) : Int :=
  if now.secondOfDay < later.secondOfDay ∧ now.isLeap then 1
  else if later.secondOfDay < now.secondOfDay ∧ later.isLeap then -1
  else 0

/-- The nanoseconds from one instant to a later one; zero when there are none. -/
def nanosUntil (now later : Instant) : Nat :=
  ((later.seconds - now.seconds + now.leapSeconds later) * 1000000000 + later.nanos
    - now.nanos).toNat

end Instant

end OperationQueue
