/-
# The queue as lists

A queue is a map of graphs, but what a caller sees are lists: all queued operations, and
those of one graph. This module reads both off the map and says what an edit in place
does to them. Identities occur once in a queue, so editing the first operation with an
identity is the same as editing every operation with it, and edits become maps.
-/
import Mathlib.Data.List.Nodup
import OperationQueue.Pipeline.Step
import OperationQueue.Proofs.OrderedMap

namespace OperationQueue

namespace Operation

/-- In a list without repeated identities the first operation with an identity is the
only one. -/
theorem updateFirst_eq_map (id : Identity) (f : Operation → Operation) {ops : List Operation}
    (h : (ops.map (·.id)).Nodup) :
    updateFirst id f ops = ops.map fun op => if op.id = id then f op else op := by
  induction ops with
  | nil => rfl
  | cons op rest ih =>
      rw [List.map_cons, List.nodup_cons] at h
      rw [updateFirst, List.map_cons]
      by_cases hop : op.id = id
      · have hrest : ∀ other ∈ rest, (if other.id = id then f other else other) = other := by
          intro other hother
          refine if_neg fun heq => h.1 (List.mem_map.2 ⟨other, hother, ?_⟩)
          rw [heq, hop]
        rw [if_pos hop, if_pos hop, List.map_congr_left hrest, List.map_id']
      · rw [if_neg hop, if_neg hop, ih h.2]

end Operation

namespace Pipeline

variable {p : Pipeline}

/-- The queued operations of the graph of a snapshot; none if there is no such graph. -/
def operationsAt (p : Pipeline) (snapshot : Snapshot) : List Operation :=
  ((p.graphs.get? snapshot).map Graph.operations).getD []

/-- The identities of the queued operations. -/
def ids (p : Pipeline) : List Identity := p.operations.map (·.id)

/-- An operation is queued in the graph of some snapshot. -/
theorem mem_operations_iff {op : Operation} :
    op ∈ p.operations ↔ ∃ snapshot, op ∈ p.operationsAt snapshot := by
  simp only [operations, List.mem_flatMap, OrderedMap.mem_values_iff, operationsAt]
  constructor
  · rintro ⟨g, ⟨snapshot, hg⟩, hop⟩
    exact ⟨snapshot, by simpa [hg] using hop⟩
  · rintro ⟨snapshot, hop⟩
    cases hg : p.graphs.get? snapshot with
    | none => simp [hg] at hop
    | some g => exact ⟨g, ⟨snapshot, hg⟩, by simpa [hg] using hop⟩

theorem operationsAt_of_get? {snapshot : Snapshot} {g : Graph}
    (hg : p.graphs.get? snapshot = some g) : p.operationsAt snapshot = g.operations := by
  simp [operationsAt, hg]

/-- The queue is the row of its graphs' operations. -/
theorem operations_eq_flatMap (p : Pipeline) :
    p.operations = p.graphs.keys.flatMap p.operationsAt := by
  simp only [operations, OrderedMap.values, OrderedMap.keys, List.flatMap_map]
  apply List.flatMap_congr
  intro e he
  exact (operationsAt_of_get? (OrderedMap.get?_eq_some_iff.2 he)).symm

/-- An identity is queued exactly when it is among the identities of the queue. -/
theorem isQueued_iff {id : Identity} : p.isQueued id = true ↔ id ∈ p.ids := by
  simp [isQueued, operation?, ids]

theorem mem_of_operation? {id : Identity} {op : Operation} (h : p.operation? id = some op) :
    op ∈ p.operations ∧ op.id = id :=
  ⟨List.mem_of_find?_eq_some h, by simpa using List.find?_some h⟩

/-- Where identities occur once, every queued operation is found under its own. -/
theorem operation?_eq_some (h : p.ids.Nodup) {op : Operation} (hop : op ∈ p.operations) :
    p.operation? op.id = some op := by
  cases hfound : p.operation? op.id with
  | none => exact absurd (List.find?_eq_none.1 hfound op hop) (by simp)
  | some found =>
      obtain ⟨hmem, hid⟩ := mem_of_operation? hfound
      rw [List.inj_on_of_nodup_map h hmem hop hid]

theorem nodup_ids_of_get? (h : p.ids.Nodup) {snapshot : Snapshot} {g : Graph}
    (hg : p.graphs.get? snapshot = some g) : (g.operations.map (·.id)).Nodup := by
  rw [ids, operations, List.map_flatMap, List.nodup_flatMap] at h
  exact h.1 g (OrderedMap.mem_values_iff.2 ⟨snapshot, hg⟩)

/-! ## Editing every operation -/

/-- Edit every queued operation in place. -/
def mapOperations (p : Pipeline) (f : Operation → Operation) : Pipeline :=
  { p with graphs := p.graphs.map fun _ g => { g with operations := g.operations.map f } }

@[simp]
theorem algorithm_mapOperations (f : Operation → Operation) :
    (p.mapOperations f).algorithm = p.algorithm := rfl

@[simp]
theorem limit_mapOperations (f : Operation → Operation) : (p.mapOperations f).limit = p.limit := rfl

@[simp]
theorem holds_mapOperations (f : Operation → Operation) : (p.mapOperations f).holds = p.holds := rfl

@[simp]
theorem keys_graphs_mapOperations (f : Operation → Operation) :
    (p.mapOperations f).graphs.keys = p.graphs.keys := by
  simp [mapOperations]

@[simp]
theorem get?_graphs_mapOperations (f : Operation → Operation) (snapshot : Snapshot) :
    (p.mapOperations f).graphs.get? snapshot =
      (p.graphs.get? snapshot).map fun g => { g with operations := g.operations.map f } := by
  simp [mapOperations]

@[simp]
theorem operationsAt_mapOperations (f : Operation → Operation) (snapshot : Snapshot) :
    (p.mapOperations f).operationsAt snapshot = (p.operationsAt snapshot).map f := by
  cases hg : p.graphs.get? snapshot <;> simp [operationsAt, hg]

@[simp]
theorem operations_mapOperations (f : Operation → Operation) :
    (p.mapOperations f).operations = p.operations.map f := by
  rw [operations_eq_flatMap, operations_eq_flatMap, keys_graphs_mapOperations, List.map_flatMap]
  exact List.flatMap_congr fun snapshot _ => operationsAt_mapOperations f snapshot

@[simp]
theorem mapOperations_mapOperations (f g : Operation → Operation) :
    (p.mapOperations f).mapOperations g = p.mapOperations (g ∘ f) := by
  simp only [mapOperations, Pipeline.mk.injEq, true_and, and_true]
  exact OrderedMap.ext_get? fun snapshot => by simp [Function.comp_def]

theorem mapOperations_congr {f g : Operation → Operation}
    (h : ∀ op ∈ p.operations, f op = g op) : p.mapOperations f = p.mapOperations g := by
  simp only [mapOperations, Pipeline.mk.injEq, true_and, and_true]
  refine OrderedMap.ext_get? fun snapshot => ?_
  simp only [OrderedMap.get?_map]
  apply Option.map_congr
  intro g' hg
  rw [List.map_congr_left]
  intro op hop
  exact h op (mem_operations_iff.2 ⟨snapshot, by rwa [operationsAt_of_get? hg]⟩)

theorem mapOperations_eq_self {f : Operation → Operation}
    (h : ∀ op ∈ p.operations, f op = op) : p.mapOperations f = p := by
  rw [mapOperations_congr (g := id) h]
  simp only [mapOperations, List.map_id]
  have hgraphs : p.graphs.map (fun _ g => g) = p.graphs :=
    OrderedMap.ext_get? fun snapshot => by simp
  rw [hgraphs]

/-- Where identities occur once, changing the operation with an identity is an edit of
every operation that has it. -/
theorem update_eq_mapOperations (h : p.ids.Nodup) (id : Identity) (f : Operation → Operation) :
    p.update id f = p.mapOperations fun op => if op.id = id then f op else op := by
  simp only [update, mapOperations, Pipeline.mk.injEq, true_and, and_true]
  refine OrderedMap.ext_get? fun snapshot => ?_
  simp only [OrderedMap.get?_map]
  apply Option.map_congr
  intro g hg
  rw [Graph.update, Operation.updateFirst_eq_map id f (nodup_ids_of_get? h hg)]

theorem ids_mapOperations {f : Operation → Operation} (h : ∀ op, (f op).id = op.id) :
    (p.mapOperations f).ids = p.ids := by
  simp [ids, h]

end Pipeline

end OperationQueue
