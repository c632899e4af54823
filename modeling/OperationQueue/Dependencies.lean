/-
# Dependency graphs and their cycles

An operation waits for its dependencies, so a set of operations can finish only
if nobody waits, directly or through others, for itself. Operations are sorted by
a depth-first search that lists everything reachable from a node before the node
is put in front. If there is no cycle, each dependency then stands before the
operations that wait for it; the first operation for which one does not is on a
cycle, and so is that dependency.

Nodes and edges are kept in the order in which they were met, because that order
decides which member of a cycle is named.
-/
import OperationQueue.Operation

namespace OperationQueue

/-- Who waits for whom. -/
structure Dependencies where
  /-- Every identity that takes part, in the order of its first mention. -/
  nodes : List Identity
  /-- Pairs of a dependency and the operation that waits for it, without
  repetition, in the order of their first mention. -/
  edges : List (Identity × Identity)
deriving Inhabited

namespace Dependencies

/-- The dependencies of some operations, leaving out those that finish. -/
def ofOperations (finishing : Identity → Bool) (ops : List Operation) : Dependencies :=
  let waiting := ops.filter fun op => !finishing op.id
  let needed (op : Operation) := op.dependencies.toList.filter fun dep => !finishing dep
  { nodes := (waiting.flatMap fun op => op.id :: needed op).eraseDups
    edges := (waiting.flatMap fun op => (needed op).map fun dep => (dep, op.id)).eraseDups }

/-- Those that wait for an operation. -/
def dependents (g : Dependencies) (id : Identity) : List Identity :=
  (g.edges.filter (·.1 == id)).map (·.2)

/-- Those that an operation waits for. -/
def dependenciesOf (g : Dependencies) (id : Identity) : List Identity :=
  (g.edges.filter (·.2 == id)).map (·.1)

/-! ## Sorting -/

/-- How far a search has come. -/
structure Search where
  /-- Every node that the search has entered. -/
  entered : List Identity
  /-- Every node that the search has left, the last one first. -/
  left : List Identity

/-- Enter a node unless it was entered before, search all that waits for it, the
last mentioned first, and leave the node. The depth is bounded by the number of
nodes, because each step down enters one more of them. -/
def visit (g : Dependencies) : Nat → Search → Identity → Search
  | 0, s, _ => s
  | depth + 1, s, id =>
    if id ∈ s.entered then s
    else
      let inside := (g.dependents id).reverse.foldl (visit g depth)
        { s with entered := id :: s.entered }
      { inside with left := id :: inside.left }

/-- All nodes, each before the nodes that wait for it if there is no cycle. -/
def sorted (g : Dependencies) : List Identity :=
  (g.nodes.foldl (g.visit g.nodes.length) ⟨[], []⟩).left

/-- The first operation of an order that has a dependency which does not stand
before it gives the last mentioned such dependency. -/
def misplaced? (g : Dependencies) (before : List Identity) : List Identity → Option Identity
  | [] => none
  | id :: rest =>
    match ((g.dependenciesOf id).filter fun dep => dep ∉ id :: before).getLast? with
    | some dep => some dep
    | none => misplaced? g (id :: before) rest

/-- An operation that waits for itself, directly or through others, if there is
one. -/
def cycleMember? (g : Dependencies) : Option Identity :=
  (g.nodes.find? fun id => (id, id) ∈ g.edges).or (g.misplaced? [] g.sorted)

end Dependencies

end OperationQueue
