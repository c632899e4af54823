/-
# Holds

A hold keeps an operation from being started before a date. Several parties may
hold one operation, each under a context of its own, and the operation is held
until the latest of its dates has passed. The table keeps no operation without a
hold, so it is empty exactly when nothing is held or was held and not removed.
-/
import OperationQueue.Identity
import OperationQueue.Instant
import OperationQueue.OrderedMap

namespace OperationQueue

/-- The dates until which one operation is held, by context. -/
abbrev Holds := OrderedMap String Instant

/-- The latest date of some holds. -/
def Holds.latest (holds : Holds) : Option Instant := holds.values.max?

/-- The holds of many operations. -/
structure HoldTable where
  /-- The holds of each operation that has any. -/
  byOperation : OrderedMap Identity Holds
deriving DecidableEq, Inhabited

namespace HoldTable

/-- The table without holds. -/
def empty : HoldTable := ⟨.empty⟩

/-- All holds of an operation. -/
def ofOperation (table : HoldTable) (id : Identity) : Holds :=
  (table.byOperation.get? id).getD .empty

/-- Give an operation exactly these holds; none of them removes its entry. -/
def replace (table : HoldTable) (id : Identity) (holds : Holds) : HoldTable :=
  if holds.isEmpty then ⟨table.byOperation.erase id⟩ else ⟨table.byOperation.insert id holds⟩

/-- Set the date of one context, or release it when there is no date. -/
def set (table : HoldTable) (id : Identity) (context : String) (date : Option Instant) :
    HoldTable :=
  let holds := table.ofOperation id
  table.replace id <|
    match date with
    | some d => holds.insert context d
    | none => holds.erase context

/-- The date of an operation under one context. -/
def get? (table : HoldTable) (id : Identity) (context : String) : Option Instant :=
  (table.ofOperation id).get? context

/-- Whether setting this date would change anything. -/
def changes (table : HoldTable) (id : Identity) (context : String) (date : Option Instant) :
    Bool :=
  table.get? id context != date

/-- Forget all holds of an operation. -/
def remove (table : HoldTable) (id : Identity) : HoldTable := ⟨table.byOperation.erase id⟩

/-- Whether an operation has any hold. -/
def holdsAny (table : HoldTable) (id : Identity) : Bool := table.byOperation.contains id

/-- The date until which an operation is held. -/
def latest (table : HoldTable) (id : Identity) : Option Instant :=
  (table.ofOperation id).latest

/-- An operation is held as long as its latest date lies ahead. -/
def isHeld (table : HoldTable) (id : Identity) (now : Instant) : Bool :=
  (table.latest id).any fun date => now < date

/-- The operations held under one context, with their dates. -/
def ofContext (table : HoldTable) (context : String) : List (Identity × Instant) :=
  table.byOperation.entries.filterMap fun (id, holds) =>
    (holds.get? context).map fun date => (id, date)

/-- The first date at which one of the operations stops being held. -/
def nextExpiry (table : HoldTable) (ids : List Identity) (now : Instant) : Option Instant :=
  ((ids.filterMap table.latest).filter fun date => now < date).min?

/-- Whether nothing is held. -/
def isEmpty (table : HoldTable) : Bool := table.byOperation.isEmpty

end HoldTable

end OperationQueue
