/-
# Status of an operation

An operation waits, runs, and then finishes in one of two ways. Waiting and
running may alternate; finishing is final.
-/

namespace OperationQueue

/-- Where an operation stands. -/
inductive Status
  /-- Waiting to be started. -/
  | pending
  /-- Handed to an executor. -/
  | active
  /-- Finished by doing its work. -/
  | completed
  /-- Finished without doing its work. -/
  | skipped
deriving DecidableEq, Inhabited

namespace Status

/-- A finished operation: nothing can happen to it any more. -/
def isTerminal : Status → Bool
  | completed | skipped => true
  | pending | active => false

/-- The life cycle: staying put is always allowed, and only an unfinished
operation may move on. -/
def canBecome (now next : Status) : Bool := now == next || !now.isTerminal

/-- The name under which a status is written. -/
def name : Status → String
  | pending => "pending"
  | active => "active"
  | completed => "completed"
  | skipped => "skipped"

/-- The status of a written name; names are exact. -/
def ofName? (text : String) : Option Status :=
  match text with
  | "pending" => some pending
  | "active" => some active
  | "completed" => some completed
  | "skipped" => some skipped
  | _ => none

/-- Every written name reads back. -/
@[simp]
theorem ofName?_name (s : Status) : ofName? s.name = some s := by cases s <;> rfl

/-- The word for a status in a report. -/
def label : Status → String
  | pending => "Pending"
  | active => "Active"
  | completed => "Completed"
  | skipped => "Skipped"

end Status

end OperationQueue
