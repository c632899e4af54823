/-
# Operations that join and leave

An operation joins the queue at the end of the graph of its snapshot, and a graph that is
not there yet is created for it. Finished operations leave together, with their holds and
with the graphs that have become empty. Neither disturbs the other operations: what was
queued at a snapshot stays in its order, in front of whatever joins.
-/
import OperationQueue.Pipeline.Committing
import OperationQueue.Proofs.Pipeline.Settled

namespace OperationQueue

namespace Pipeline

variable {p : Pipeline}

/-! ## Joining -/

/-- Put an operation at the end of the graph of a snapshot. -/
def pushAt (p : Pipeline) (snapshot : Snapshot) (op : Operation) : Pipeline :=
  { p with
    graphs := p.graphs.insert snapshot
      (((p.graphs.get? snapshot).getD (Graph.empty snapshot)).push op) }

theorem join_eq_pushAt (c : Commit) (snapshot : Snapshot) (op : Operation) :
    p.join c snapshot op = p.pushAt snapshot (p.pruned c op) := rfl

/-- The graph that is pushed to: the one that is there, or an empty one. -/
private theorem snapshot_getD (h : p.IsFiled) (snapshot : Snapshot) :
    ((p.graphs.get? snapshot).getD (Graph.empty snapshot)).snapshot = snapshot := by
  cases hg : p.graphs.get? snapshot with
  | none => rfl
  | some g => exact h.snapshot_graph hg

theorem operationsAt_pushAt (h : p.IsFiled) (snapshot : Snapshot) (op : Operation) (t : Snapshot) :
    (p.pushAt snapshot op).operationsAt t =
      p.operationsAt t ++ if t = snapshot then [{ op with snapshot := snapshot }] else [] := by
  by_cases ht : t = snapshot
  · subst ht
    have hsnapshot := snapshot_getD h t
    cases hg : p.graphs.get? t with
    | none => simp [operationsAt, pushAt, hg, Graph.push, Graph.empty]
    | some g =>
        simp only [hg, Option.getD_some] at hsnapshot
        simp [operationsAt, pushAt, hg, Graph.push, hsnapshot]
  · simp [operationsAt, pushAt, OrderedMap.get?_insert_of_ne _ ht, ht]

theorem operations_pushAt_perm (h : p.IsFiled) (snapshot : Snapshot) (op : Operation) :
    (p.pushAt snapshot op).operations.Perm ({ op with snapshot := snapshot } :: p.operations) := by
  obtain ⟨before, after, hold, hnew⟩ := p.graphs.exists_entries_insert snapshot
    (((p.graphs.get? snapshot).getD (Graph.empty snapshot)).push op)
  have hsnapshot := snapshot_getD h snapshot
  simp only [operations, OrderedMap.values, pushAt, hnew, hold]
  cases hg : p.graphs.get? snapshot with
  | none => simp [Graph.push, Graph.empty]
  | some g =>
      simp only [hg, Option.getD_some] at hsnapshot
      simp only [Graph.push, hsnapshot, Option.getD_some, Option.map_some, Option.toList_some,
        List.map_append, List.map_cons, List.map_nil, List.flatMap_append, List.flatMap_cons,
        List.flatMap_nil, List.append_nil]
      have hmiddle (a b c : List Operation) (x : Operation) :
          (a ++ ((b ++ [x]) ++ c)).Perm (x :: (a ++ b ++ c)) := by
        have hperm : ((a ++ b) ++ x :: c).Perm (x :: ((a ++ b) ++ c)) := List.perm_middle
        simpa using hperm
      exact hmiddle _ _ _ _

theorem mem_ids_pushAt (h : p.IsFiled) {snapshot : Snapshot} {op : Operation} {id : Identity} :
    id ∈ (p.pushAt snapshot op).ids ↔ id = op.id ∨ id ∈ p.ids := by
  rw [ids, ((operations_pushAt_perm h snapshot op).map (·.id)).mem_iff, List.map_cons,
    List.mem_cons, ids]

/-- A queue stays reaped when an unfinished operation joins it that was not queued. -/
theorem IsReaped.pushAt (h : p.IsReaped) {op : Operation} (hnew : op.id ∉ p.ids)
    (hunfinished : op.isTerminal = false) (hstaged : op.staged = none) (snapshot : Snapshot) :
    (p.pushAt snapshot op).IsReaped where
  snapshot_graph {t g} hg := by
    by_cases ht : t = snapshot
    · subst ht
      simp only [Pipeline.pushAt, OrderedMap.get?_insert_self, Option.some.injEq] at hg
      rw [← hg]
      exact snapshot_getD h.toIsFiled t
    · simp only [Pipeline.pushAt, OrderedMap.get?_insert_of_ne _ ht] at hg
      exact h.snapshot_graph hg
  snapshot_operation {t other} hother := by
    rw [operationsAt_pushAt h.toIsFiled] at hother
    rcases List.mem_append.1 hother with hother | hother
    · exact h.snapshot_operation hother
    · split at hother
      · next ht => rw [List.mem_singleton.1 hother, ht]
      · cases hother
  nodup_ids := by
    have hperm := (operations_pushAt_perm h.toIsFiled snapshot op).map (·.id)
    exact hperm.nodup_iff.2 (List.nodup_cons.2 ⟨hnew, h.nodup_ids⟩)
  unstaged other hother := by
    rw [(operations_pushAt_perm h.toIsFiled snapshot op).mem_iff, List.mem_cons] at hother
    rcases hother with rfl | hother
    · exact hstaged
    · exact h.unstaged other hother
  held hholds := by
    obtain ⟨hempty, hid⟩ := h.held hholds
    exact ⟨hempty, (mem_ids_pushAt h.toIsFiled).2 (.inr hid)⟩
  operations_ne_nil {t g} hg := by
    by_cases ht : t = snapshot
    · subst ht
      simp only [Pipeline.pushAt, OrderedMap.get?_insert_self, Option.some.injEq] at hg
      simp [← hg, Graph.push]
    · simp only [Pipeline.pushAt, OrderedMap.get?_insert_of_ne _ ht] at hg
      exact h.operations_ne_nil hg
  unfinished other hother := by
    rw [(operations_pushAt_perm h.toIsFiled snapshot op).mem_iff, List.mem_cons] at hother
    rcases hother with rfl | hother
    · exact hunfinished
    · exact h.unfinished other hother

/-! ## Leaving -/

theorem operationsAt_reap (p : Pipeline) (snapshot : Snapshot) :
    p.reap.operationsAt snapshot =
      (p.operationsAt snapshot).filter fun op => !op.isTerminal := by
  cases hg : p.graphs.get? snapshot with
  | none => simp [operationsAt, reap, hg]
  | some g =>
      simp only [operationsAt, reap, OrderedMap.get?_filter, OrderedMap.get?_map, hg,
        Option.map_some, Option.getD_some, Graph.reap]
      by_cases hnil : (g.operations.filter fun op => !op.isTerminal) = []
      · simp [Option.filter_some, hnil]
      · simp [Option.filter_some, hnil]

theorem mem_operations_reap {op : Operation} :
    op ∈ p.reap.operations ↔ op ∈ p.operations ∧ op.isTerminal = false := by
  simp [mem_operations_iff, operationsAt_reap]

theorem mem_finishedIds {id : Identity} :
    id ∈ p.finishedIds ↔ ∃ op ∈ p.operations, op.isTerminal = true ∧ op.id = id := by
  simp only [finishedIds, Graph.finished, List.mem_map, List.mem_flatMap, operations,
    List.mem_filter]
  constructor
  · rintro ⟨op, ⟨g, hg, hop, hterminal⟩, hid⟩
    exact ⟨op, ⟨g, hg, hop⟩, hterminal, hid⟩
  · rintro ⟨op, ⟨g, hg, hop⟩, hterminal, hid⟩
    exact ⟨op, ⟨g, hg, hop, hterminal⟩, hid⟩

theorem operations_reap (p : Pipeline) :
    p.reap.operations = p.operations.filter fun op => !op.isTerminal := by
  have hgraphs (entries : List (Snapshot × Graph)) :
      ((entries.map fun e => (e.1, e.2.reap)).filter fun e =>
          !e.2.operations.isEmpty).flatMap (fun e => e.2.operations) =
        (entries.flatMap fun e => e.2.operations).filter fun op => !op.isTerminal := by
    induction entries with
    | nil => rfl
    | cons e rest ih =>
        rw [List.map_cons, List.filter_cons, List.flatMap_cons, List.filter_append, ← ih]
        by_cases hnil : (e.2.operations.filter fun op => !op.isTerminal) = []
        · simp [Graph.reap, hnil]
        · simp [Graph.reap, hnil]
  simpa [operations, OrderedMap.values, reap, List.flatMap_map] using hgraphs p.graphs.entries

/-- The queue without its finished operations is a part of the queue. -/
theorem operations_reap_sublist (p : Pipeline) : p.reap.operations.Sublist p.operations := by
  rw [operations_reap]
  exact List.filter_sublist

/-- After finished operations have left, the queue is reaped. -/
theorem IsFiled.reap (h : p.IsFiled) : p.reap.IsReaped where
  snapshot_graph {snapshot g} hg := by
    simp only [Pipeline.reap, OrderedMap.get?_filter, OrderedMap.get?_map,
      Option.filter_eq_some_iff, Option.map_eq_some_iff] at hg
    obtain ⟨⟨old, hold, rfl⟩, -⟩ := hg
    have hsnapshot := h.snapshot_graph hold
    exact hsnapshot
  snapshot_operation hop := by
    rw [operationsAt_reap] at hop
    exact h.snapshot_operation (List.mem_filter.1 hop).1
  nodup_ids := by
    have hids : p.reap.ids.Sublist p.ids := (operations_reap_sublist p).map _
    exact hids.nodup h.nodup_ids
  unstaged op hop := h.unstaged op (mem_operations_reap.1 hop).1
  held {id holds} hholds := by
    simp only [Pipeline.reap, HoldTable.get?_foldl_remove] at hholds
    split at hholds
    · cases hholds
    · next hstays =>
      obtain ⟨hempty, hid⟩ := h.held hholds
      obtain ⟨op, hop, rfl⟩ := List.mem_map.1 hid
      have hunfinished : op.isTerminal = false :=
        Bool.eq_false_iff.2 fun hterminal => hstays (mem_finishedIds.2 ⟨op, hop, hterminal, rfl⟩)
      exact ⟨hempty, List.mem_map_of_mem (mem_operations_reap.2 ⟨hop, hunfinished⟩)⟩
  operations_ne_nil {snapshot g} hg := by
    simp only [Pipeline.reap, OrderedMap.get?_filter, Option.filter_eq_some_iff] at hg
    simpa using hg.2
  unfinished op hop := (mem_operations_reap.1 hop).2

/-! ## Linking -/

@[simp]
theorem operationsAt_relink (p : Pipeline) (snapshot : Snapshot) :
    p.relink.operationsAt snapshot = p.operationsAt snapshot := by
  simp [operationsAt, relink, Function.comp_def]

@[simp]
theorem keys_graphs_relink (p : Pipeline) : p.relink.graphs.keys = p.graphs.keys := by
  simp [relink]

@[simp]
theorem operations_relink (p : Pipeline) : p.relink.operations = p.operations := by
  rw [operations_eq_flatMap, operations_eq_flatMap, keys_graphs_relink]
  exact List.flatMap_congr fun snapshot _ => operationsAt_relink p snapshot

/-- Linking the graphs of a reaped queue settles it. -/
theorem IsReaped.relink (h : p.IsReaped) : p.relink.IsSettled where
  snapshot_graph {snapshot g} hg := by
    simp only [Pipeline.relink, OrderedMap.get?_map, Option.map_eq_some_iff] at hg
    obtain ⟨old, hold, rfl⟩ := hg
    have hsnapshot := h.snapshot_graph hold
    exact hsnapshot
  snapshot_operation hop := h.snapshot_operation (operationsAt_relink p _ ▸ hop)
  nodup_ids := by rw [ids, operations_relink]; exact h.nodup_ids
  unstaged op hop := h.unstaged op (operations_relink p ▸ hop)
  held hholds := by rw [ids, operations_relink]; exact h.held hholds
  operations_ne_nil {snapshot g} hg := by
    simp only [Pipeline.relink, OrderedMap.get?_map, Option.map_eq_some_iff] at hg
    obtain ⟨old, hold, rfl⟩ := hg
    have hne := h.operations_ne_nil hold
    exact hne
  unfinished op hop := h.unfinished op (operations_relink p ▸ hop)
  previous_eq {snapshot g} hg := by
    have hkeys : p.relink.precedingSnapshot? snapshot = p.precedingSnapshot? snapshot := by
      rw [precedingSnapshot?, precedingSnapshot?, keys_graphs_relink]
    rw [hkeys]
    simp only [Pipeline.relink, OrderedMap.get?_map, Option.map_eq_some_iff] at hg ⊢
    obtain ⟨old, hold, rfl⟩ := hg
    rfl

end Pipeline

end OperationQueue
