/-
# The invariant of a queue

Between two changes a queue is *settled*: its graphs are there because they have
operations, none of these has finished, and the links between graphs are the ones that
the algorithm asks for. In the middle of a change that may fail, but every operation
stays *filed*: it is queued once, in the graph of its snapshot, and only queued
operations have holds.
-/
import OperationQueue.Pipeline.Control
import OperationQueue.Proofs.HoldTable
import OperationQueue.Proofs.Pipeline.Queue

namespace OperationQueue

/-- An edit that leaves an operation where it is: its identity, its snapshot and what is
staged for it stay. -/
structure Operation.KeepsPlace (f : Operation → Operation) : Prop where
  id : ∀ op, (f op).id = op.id
  snapshot : ∀ op, (f op).snapshot = op.snapshot
  staged : ∀ op, (f op).staged = op.staged

namespace Operation.KeepsPlace

variable {f g : Operation → Operation}

theorem comp (hg : KeepsPlace g) (hf : KeepsPlace f) : KeepsPlace (g ∘ f) where
  id op := (hg.id (f op)).trans (hf.id op)
  snapshot op := (hg.snapshot (f op)).trans (hf.snapshot op)
  staged op := (hg.staged (f op)).trans (hf.staged op)

theorem ite (hf : KeepsPlace f) (c : Operation → Prop) [DecidablePred c] :
    KeepsPlace fun op => if c op then f op else op where
  id op := by split <;> simp [hf.id]
  snapshot op := by split <;> simp [hf.snapshot]
  staged op := by split <;> simp [hf.staged]

theorem status (next : Status) : KeepsPlace fun op => { op with status := next } :=
  ⟨fun _ => rfl, fun _ => rfl, fun _ => rfl⟩

theorem modification (other : Operation) : KeepsPlace fun op => op.mergeModification other :=
  ⟨fun _ => rfl, fun _ => rfl, fun _ => rfl⟩

end Operation.KeepsPlace

namespace Pipeline

variable {p q : Pipeline}

/-- Every operation is queued once, in the graph of its snapshot and with nothing staged.
Whatever has an entry in the table of holds is held and is queued. -/
structure IsFiled (p : Pipeline) : Prop where
  snapshot_graph : ∀ {snapshot g}, p.graphs.get? snapshot = some g → g.snapshot = snapshot
  snapshot_operation : ∀ {snapshot op}, op ∈ p.operationsAt snapshot → op.snapshot = snapshot
  nodup_ids : p.ids.Nodup
  unstaged : ∀ op ∈ p.operations, op.staged = none
  held : ∀ {id holds}, p.holds.byOperation.get? id = some holds →
    holds.isEmpty = false ∧ id ∈ p.ids

/-- A filed queue that no finished operation and no empty graph is left in. -/
structure IsReaped (p : Pipeline) : Prop extends IsFiled p where
  operations_ne_nil : ∀ {snapshot g}, p.graphs.get? snapshot = some g → g.operations ≠ []
  unfinished : ∀ op ∈ p.operations, op.isTerminal = false

/-- A queue between two changes: what has finished has left, and the links are those of
the algorithm. -/
structure IsSettled (p : Pipeline) : Prop extends IsReaped p where
  previous_eq : ∀ {snapshot g}, p.graphs.get? snapshot = some g →
    g.previous = if p.algorithm = .flat then p.precedingSnapshot? snapshot else none

theorem isSettled_new (name : String) (algorithm : Algorithm) :
    (Pipeline.new name algorithm).IsSettled where
  snapshot_graph h := by simp [Pipeline.new] at h
  snapshot_operation h := by simp [Pipeline.new, operationsAt] at h
  nodup_ids := List.nodup_nil
  unstaged _ h := by cases h
  held h := by simp [Pipeline.new, HoldTable.empty] at h
  operations_ne_nil h := by simp [Pipeline.new] at h
  unfinished _ h := by cases h
  previous_eq h := by simp [Pipeline.new] at h

/-- Nothing is held that is not queued. -/
theorem IsFiled.ofOperation_eq_empty (h : p.IsFiled) {id : Identity} (hid : id ∉ p.ids) :
    p.holds.ofOperation id = .empty := by
  cases hentry : p.holds.byOperation.get? id with
  | none =>
      rw [HoldTable.ofOperation, hentry]
      rfl
  | some holds => exact absurd (h.held hentry).2 hid

theorem IsFiled.of_eq (h : p.IsFiled) (hgraphs : q.graphs = p.graphs) (hholds : q.holds = p.holds) :
    q.IsFiled := by
  obtain ⟨name, algorithm, limit, count, graphs, holds, flag⟩ := q
  cases hgraphs
  cases hholds
  exact ⟨h.snapshot_graph, h.snapshot_operation, h.nodup_ids, h.unstaged, h.held⟩

/-- Being settled is about the graphs, the holds and the algorithm alone. -/
theorem IsSettled.of_eq (h : p.IsSettled) (hgraphs : q.graphs = p.graphs)
    (hholds : q.holds = p.holds) (halgorithm : q.algorithm = p.algorithm) : q.IsSettled := by
  obtain ⟨name, algorithm, limit, count, graphs, holds, flag⟩ := q
  cases hgraphs
  cases hholds
  cases halgorithm
  exact ⟨⟨h.toIsFiled.of_eq rfl rfl, h.operations_ne_nil, h.unfinished⟩, h.previous_eq⟩

/-! ## Edits in place -/

section Edits

variable {f : Operation → Operation}

theorem IsFiled.mapOperations (h : p.IsFiled) (hf : Operation.KeepsPlace f) :
    (p.mapOperations f).IsFiled where
  snapshot_graph {snapshot g} hg := by
    obtain ⟨old, hold, rfl⟩ := Option.map_eq_some_iff.1 ((get?_graphs_mapOperations f snapshot) ▸ hg)
    have hsnapshot := h.snapshot_graph hold
    exact hsnapshot
  snapshot_operation {snapshot op} hop := by
    rw [operationsAt_mapOperations] at hop
    obtain ⟨old, hold, rfl⟩ := List.mem_map.1 hop
    rw [hf.snapshot, h.snapshot_operation hold]
  nodup_ids := by rw [ids_mapOperations hf.id]; exact h.nodup_ids
  unstaged op hop := by
    rw [operations_mapOperations] at hop
    obtain ⟨old, hold, rfl⟩ := List.mem_map.1 hop
    rw [hf.staged, h.unstaged old hold]
  held hholds := by rw [ids_mapOperations hf.id]; exact h.held hholds

@[simp]
theorem precedingSnapshot?_mapOperations (snapshot : Snapshot) :
    (p.mapOperations f).precedingSnapshot? snapshot = p.precedingSnapshot? snapshot := by
  simp [precedingSnapshot?]

/-- An edit in place that finishes nothing keeps a queue settled. -/
theorem IsSettled.mapOperations (h : p.IsSettled) (hf : Operation.KeepsPlace f)
    (hunfinished : ∀ op ∈ p.operations, (f op).isTerminal = false) :
    (p.mapOperations f).IsSettled where
  toIsFiled := h.toIsFiled.mapOperations hf
  operations_ne_nil {snapshot g} hg := by
    obtain ⟨old, hold, rfl⟩ := Option.map_eq_some_iff.1 ((get?_graphs_mapOperations f snapshot) ▸ hg)
    simpa using h.operations_ne_nil hold
  unfinished op hop := by
    rw [operations_mapOperations] at hop
    obtain ⟨old, hold, rfl⟩ := List.mem_map.1 hop
    exact hunfinished old hold
  previous_eq {snapshot g} hg := by
    obtain ⟨old, hold, rfl⟩ := Option.map_eq_some_iff.1 ((get?_graphs_mapOperations f snapshot) ▸ hg)
    simpa using h.previous_eq hold

/-- Moving an operation to a status that does not finish it keeps a queue settled. -/
theorem IsSettled.moveTo (h : p.IsSettled) (id : Identity) {next : Status}
    (hnext : next.isTerminal = false) : (p.moveTo id next).IsSettled := by
  rw [Pipeline.moveTo, update_eq_mapOperations h.nodup_ids]
  apply h.mapOperations ((Operation.KeepsPlace.status next).ite (·.id = id))
  intro op hop
  split
  · exact hnext
  · exact h.unfinished op hop

end Edits

/-! ## Holds -/

/-- Holding a queued operation keeps a queue settled. -/
theorem IsSettled.setHold (h : p.IsSettled) {id : Identity} (hid : p.isQueued id = true)
    (context : String) (date : Option Instant) :
    IsSettled { p with holds := p.holds.set id context date } where
  snapshot_graph := h.snapshot_graph
  snapshot_operation := h.snapshot_operation
  nodup_ids := h.nodup_ids
  unstaged := h.unstaged
  held {other holds} hholds := by
    obtain ⟨new, hnew, -⟩ := p.holds.exists_set_eq_replace id context date
    simp only [hnew] at hholds
    by_cases hother : other = id
    · subst hother
      rw [HoldTable.get?_replace_self] at hholds
      split at hholds
      · cases hholds
      · next hempty =>
        cases hholds
        exact ⟨by simpa using hempty, isQueued_iff.1 hid⟩
    · rw [HoldTable.get?_replace_of_ne hother] at hholds
      exact h.held hholds
  operations_ne_nil := h.operations_ne_nil
  unfinished := h.unfinished
  previous_eq := h.previous_eq

end Pipeline

end OperationQueue
