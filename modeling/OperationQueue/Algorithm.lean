/-
# Scheduling algorithms

The algorithm of a pipeline says which graphs may start operations. Under
*commit* the graphs of successive commits run one after the other; under *flat*
all graphs run at once and only dependencies order them.
-/
import OperationQueue.Text.Blank
import OperationQueue.Text.LowerCase

namespace OperationQueue

/-- Which graphs of a pipeline may start operations. -/
inductive Algorithm
  /-- Only the oldest unfinished graph. -/
  | commit
  /-- Every graph. -/
  | flat
deriving DecidableEq, Inhabited

namespace Algorithm

/-- The name under which an algorithm is written. -/
def name : Algorithm → String
  | commit => "commit"
  | flat => "flat"

/-- The number under which a store keeps an algorithm. -/
def code : Algorithm → Int
  | commit => 0
  | flat => 1

/-- The algorithm that a store keeps under a number. -/
def ofCode? (code : Int) : Option Algorithm :=
  if code = 0 then some commit else if code = 1 then some flat else none

/-- The algorithm of an exact name; each has a longer name as well. -/
def ofName? (text : String) : Option Algorithm :=
  match text with
  | "commit" | "commit_graph" => some commit
  | "flat" | "flat_graph" => some flat
  | _ => none

@[simp]
theorem ofCode?_code (a : Algorithm) : ofCode? a.code = some a := by cases a <;> rfl

/-- Read an algorithm that a person typed: blanks around it and the case of its
letters do not matter. The fault shows the text as it was compared. -/
def parse (text : String) : Except String Algorithm :=
  let plain := LowerCase.lower (Blank.trim text)
  match ofName? plain with
  | some a => .ok a
  | none => .error ("invalid pipeline algorithm: " ++ plain ++
      " (expected \"commit\" or \"flat\")")

end Algorithm

end OperationQueue
