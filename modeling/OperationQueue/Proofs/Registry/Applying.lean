/-
# A commit to a queue and to its rows

The store writes a commit and the queue applies it, each in its own way. Both edit the
same operations and let the same ones leave, since an operation is either modified and
moved or new, and both line up the new operations behind the old ones of a graph. A queue
that was in step with its rows therefore is in step with them again.
-/
import OperationQueue.Proofs.Registry.Agreement

namespace OperationQueue

namespace Commit

variable {c : Commit}

/-- The new operations of a consistent commit join the graphs of their own snapshots. -/
theorem IsConsistent.newItems_eq (h : c.IsConsistent) :
    Pipeline.newItems c = c.newOperations.map fun op => (op.snapshot, op) := by
  have hinserted : Pipeline.insertions c =
      c.insertedOperations.map fun op => (op.snapshot, op) := by
    rw [Pipeline.insertions, insertedOperations, OrderedMap.values, List.flatten_eq_flatMap,
      List.map_flatMap, List.flatMap_map]
    apply List.flatMap_congr
    intro e he
    apply List.map_congr_left
    intro op hop
    rw [h.inserted (OrderedMap.get?_eq_some_iff.2 he) op hop]
  have hadded : Pipeline.additions c = c.added.map fun op => (op.snapshot, op) := by
    apply List.map_congr_left
    intro op hop
    rw [h.added op hop]
  rw [Pipeline.newItems, hinserted, hadded, newOperations, List.map_append]

end Commit

theorem Pipeline.IsFresh.assignRowids {p : Pipeline} {c : Commit} (h : p.IsFresh c)
    (numbers : OrderedMap Identity Int) : p.IsFresh (c.assignRowids numbers) :=
  h.of_ids_eq (c.map_id_newOperations_assignRowids numbers)

/-- Two lists that correspond still do when corresponding members are kept together,
changed, or dropped together. -/
private theorem forall₂_filterMap {α β γ δ : Type} {R : α → β → Prop} {S : γ → δ → Prop}
    {f : α → Option γ} {g : β → Option δ} {xs : List α} {ys : List β} (h : List.Forall₂ R xs ys)
    (hstep : ∀ x ∈ xs, ∀ y ∈ ys, R x y → Option.Rel S (f x) (g y)) :
    List.Forall₂ S (xs.filterMap f) (ys.filterMap g) := by
  induction h with
  | nil => exact .nil
  | @cons x y xs ys hxy _ ih =>
      have hrest := ih fun x' hx' y' hy' =>
        hstep x' (List.mem_cons_of_mem _ hx') y' (List.mem_cons_of_mem _ hy')
      have hfirst := hstep x List.mem_cons_self y List.mem_cons_self hxy
      rw [List.filterMap_cons, List.filterMap_cons]
      revert hfirst
      generalize f x = kept, g y = kept'
      intro hfirst
      cases hfirst with
      | none => exact hrest
      | some hab => exact .cons hab hrest

/-! ## The operations after a commit -/

section

variable {stored live : Operation} {p : Pipeline} {c : Commit} {numbers : OrderedMap Identity Int}

/-- An operation that is queued and stored either leaves both or is edited alike. -/
private theorem Operation.Agrees.edited (h : stored.Agrees live) (hnumbered : stored.rowid ≠ none)
    (hunfinished : live.isTerminal = false) (hold : ∀ new ∈ c.newOperations, new.id ≠ stored.id) :
    Option.Rel Operation.Agrees (RowWrite.editAll c.changeset stored)
      (Option.guard (fun op => !op.isTerminal) (p.edited (c.assignRowids numbers) live)) := by
  have hmodified := h.modified hnumbered (p.knows (c.assignRowids numbers)) numbers c.modified
  rw [← Commit.modified_assignRowids] at hmodified
  have hunfinished' : (live.modified (p.knows (c.assignRowids numbers))
      (c.assignRowids numbers).modified).isTerminal = false := by
    rw [Operation.isTerminal_modified]
    exact hunfinished
  have hstatus : (c.statuses.get? (live.modified (p.knows (c.assignRowids numbers))
      (c.assignRowids numbers).modified).id).getD (live.modified (p.knows (c.assignRowids numbers))
        (c.assignRowids numbers).modified).status =
      (c.statuses.get? stored.id).getD live.status := by
    rw [(Operation.keepsPlace_modified _ _).id, Operation.status_modified, h.id]
  have hstatuses : (c.assignRowids numbers).statuses = c.statuses := rfl
  rw [Pipeline.edited, Operation.moved_entries _ hunfinished', hstatuses, hstatus,
    Commit.editAll_changeset hold]
  cases hcommitted : c.statuses.get? stored.id with
  | none =>
      have hstays : live.status.isTerminal = false := hunfinished
      simpa [Option.guard, Operation.isTerminal, hstays] using hmodified.withStatus _ _
  | some next =>
      by_cases hterminal : next.isTerminal = true
      · simp [Option.guard, Operation.isTerminal, hterminal]
      · simpa [Option.guard, Operation.isTerminal, hterminal] using hmodified.withStatus _ _

/-- A new operation that joins a queue got a row, and one that finishes at once got none. -/
private theorem agrees_arrivals (hc : c.IsConsistent) (snapshot : Snapshot)
    (hnumbered : ∀ op ∈ c.newRows, numbers.get? op.id ≠ none) :
    List.Forall₂ Operation.Agrees
      ((c.newRows.map fun op => { op with rowid := numbers.get? op.id }).filter
        (·.snapshot == snapshot))
      (p.arrivals (c.assignRowids numbers) (Pipeline.newItems (c.assignRowids numbers))
        snapshot) := by
  have hrows : (c.newRows.map fun op => { op with rowid := numbers.get? op.id }).filter
        (·.snapshot == snapshot) =
      c.newOperations.filterMap fun op =>
        if op.snapshot = snapshot ∧ op.finishesWhenApplied = false then
          some { op.applyStaged with rowid := numbers.get? op.id } else none := by
    rw [Commit.newRows, List.map_map, ← List.filterMap_eq_map, ← List.filterMap_eq_filter,
      ← List.filterMap_eq_filter, List.filterMap_filterMap, List.filterMap_filterMap]
    apply List.filterMap_congr
    intro op _
    by_cases hfinishes : op.finishesWhenApplied = true
    · simp [Option.guard, hfinishes]
    · by_cases hsnapshot : op.snapshot = snapshot
      · simp [Option.guard, hfinishes, hsnapshot, Operation.applyStaged]
      · simp [Option.guard, hfinishes, hsnapshot, Operation.applyStaged]
  rw [hrows, (hc.assignRowids numbers).newItems_eq, Commit.newOperations_assignRowids,
    Pipeline.arrivals, List.map_map, List.filterMap_map]
  apply forall₂_filterMap (List.forall₂_eq_eq_eq ▸ rfl)
  rintro op hop _ _ rfl
  have hterminal : (op.numbered numbers).applyStaged.isTerminal = op.finishesWhenApplied := by
    rw [← hc.isTerminal_applyStaged hop]
    rfl
  simp only [Function.comp_apply, hterminal]
  by_cases hjoins : op.snapshot = snapshot ∧ op.finishesWhenApplied = false
  · obtain ⟨hsnapshot, hstays⟩ := hjoins
    have hrow : op.applyStaged ∈ c.newRows :=
      List.mem_map_of_mem (List.mem_filter.2 ⟨hop, by simp [hstays]⟩)
    obtain ⟨n, hn⟩ := Option.ne_none_iff_exists'.1 (hnumbered _ hrow)
    have hn' : numbers.get? op.id = some n := hn
    rw [if_pos ⟨hsnapshot, hstays⟩, if_pos ⟨hsnapshot, hstays⟩]
    refine .some ⟨rfl, ?_, hsnapshot.symm, rfl, rfl, fun dep hdep => ?_⟩
    · simp [Pipeline.pruned, Operation.retainDependencies, Operation.applyStaged,
        Operation.numbered, hn']
    · exact (Operation.mem_dependencies_retainDependencies.1 hdep).1
  · have hjoins' : ¬((op.numbered numbers).snapshot = snapshot ∧
        op.finishesWhenApplied = false) := hjoins
    rw [if_neg hjoins, if_neg hjoins']
    exact .none

end

namespace InStep

variable {owner : Identity → Int} {s t : MemoryStore} {rowid : Int} {p : Pipeline} {c : Commit}
  {numbers : OrderedMap Identity Int}

/-- The operations that a commit removes from the store are those that it finishes in the
queue. -/
private theorem mem_finishedIds_edited_iff (h : p.IsSettled) {id : Identity} (hid : id ∈ p.ids) :
    id ∈ (p.mapOperations (p.edited (c.assignRowids numbers))).finishedIds ↔
      .delete id ∈ c.changeset := by
  have hkeeps := Pipeline.keepsPlace_edited p (c.assignRowids numbers)
  have hterminal : ∀ op ∈ p.operations, (p.edited (c.assignRowids numbers) op).isTerminal =
      (c.statuses.get? op.id).any Status.isTerminal := by
    intro op hop
    have hunfinished := h.unfinished op hop
    rw [← Operation.isTerminal_modified (p.knows (c.assignRowids numbers))
      (c.assignRowids numbers).modified] at hunfinished
    have hstatuses : (c.assignRowids numbers).statuses = c.statuses := rfl
    rw [Pipeline.edited, Operation.moved_entries _ hunfinished,
      (Operation.keepsPlace_modified _ _).id, Operation.status_modified, hstatuses]
    cases c.statuses.get? op.id with
    | none => exact h.unfinished op hop
    | some next => rfl
  rw [Pipeline.mem_finishedIds, Commit.delete_mem_changeset_iff,
    Pipeline.operations_mapOperations]
  constructor
  · rintro ⟨_, hmem, hfinished, hid'⟩
    obtain ⟨op, hop, rfl⟩ := List.mem_map.1 hmem
    rw [hterminal op hop, ← hkeeps.id op, hid'] at hfinished
    exact hfinished
  · intro hfinished
    obtain ⟨op, hop, rfl⟩ := List.mem_map.1 hid
    exact ⟨_, List.mem_map_of_mem hop, (hterminal op hop).trans hfinished, hkeeps.id op⟩

/-- Every row that was written is stored under the number that it got. -/
private theorem numbered_newRows (ht : t.IsSound owner)
    (hoperations : ∀ snapshot, ∃ kept, t.operationsAt rowid snapshot =
      kept ++ (c.changeset.flatMap (RowWrite.inserted numbers)).filter (·.snapshot == snapshot))
    {op : Operation} (hop : op ∈ c.newRows) : numbers.get? op.id ≠ none := by
  obtain ⟨kept, hkept⟩ := hoperations op.snapshot
  have hstored : { op with rowid := numbers.get? op.id } ∈ t.operationsAt rowid op.snapshot := by
    rw [hkept, Commit.flatMap_inserted_changeset]
    apply List.mem_append_right
    exact List.mem_filter.2 ⟨List.mem_map.2 ⟨op, hop, rfl⟩, by simp⟩
  obtain ⟨row, hrow, -, -, hoperation⟩ := MemoryStore.mem_operationsAt_iff.1 hstored
  have hrowid := ht.numbered row hrow
  rw [hoperation] at hrowid
  exact hrowid

/-- Holds of operations that stay are stored as before, and neither the store nor the queue
holds an operation that is new. -/
private theorem holds_changeQueue (h : InStep s rowid p) (hs : s.IsSound owner)
    (hfresh : p.IsFresh (c.assignRowids numbers)) (hmentions : ∀ id ∈ c.mentions, owner id = rowid)
    (hholds : ∀ id, owner id = rowid → t.holds.ofOperation id =
      if .delete id ∈ c.changeset then .empty else s.holds.ofOperation id)
    {id : Identity} (hid : id ∈ (p.changeQueue (c.assignRowids numbers)).2.ids) :
    (p.changeQueue (c.assignRowids numbers)).2.holds.ofOperation id =
      t.holds.ofOperation id := by
  rw [Pipeline.holds_changeQueue h.settled.nodup_ids, HoldTable.ofOperation_foldl_remove]
  by_cases hqueued : id ∈ p.ids
  · obtain ⟨row, hrow, hpipeline, rfl⟩ := h.mem_ids_iff.1 hqueued
    rw [hholds _ ((hs.owned row hrow).trans hpipeline), h.holds _ hqueued]
    simp only [mem_finishedIds_edited_iff h.settled hqueued]
  · have hnew : owner id = rowid := by
      rcases Pipeline.of_mem_ids_changeQueue h.settled hfresh hid with hold | hnew
      · exact absurd hold hqueued
      · rw [Commit.map_id_newOperations_assignRowids] at hnew
        exact hmentions id (List.mem_append_left _ (List.mem_append_left _ hnew))
    have hstored : id ∉ s.rows.map (·.operation.id) := by
      intro hmem
      obtain ⟨row, hrow, rfl⟩ := List.mem_map.1 hmem
      exact hqueued (h.mem_ids_iff.2 ⟨row, hrow, (hs.owned row hrow).symm.trans hnew, rfl⟩)
    rw [hholds id hnew, hs.held id hstored, h.settled.ofOperation_eq_empty hqueued, ite_self,
      ite_self]

/-- A commit that is written and then applied keeps a queue in step with its rows. -/
theorem changeQueue (h : InStep s rowid p) (hs : s.IsSound owner) (hc : c.IsConsistent)
    (hfresh : p.IsFresh c) (hmentions : ∀ id ∈ c.mentions, owner id = rowid) {number : Snapshot}
    {changes : List PipelineChangeset} (hchanges : MemoryStore.AreSound owner changes)
    (hdistinct : (changes.map (·.rowid)).Nodup) (hmem : ⟨rowid, c.changeset⟩ ∈ changes)
    (hwritten : s.applyChangesets number changes = .ok (numbers, t)) :
    InStep t rowid (p.changeQueue (c.assignRowids numbers)).2 := by
  obtain ⟨hoperations, hholds⟩ := MemoryStore.own_applyChangesets hs hchanges hdistinct hmem
    (Commit.insertsLast_changeset hc hfresh.nodup) hwritten
  have ht : t.IsSound owner := hs.applyChangesets hchanges hwritten
  have hfresh' := hfresh.assignRowids numbers
  refine ⟨h.settled.changeQueue _, fun snapshot => ?_,
    fun id hid => holds_changeQueue h hs hfresh' hmentions hholds hid⟩
  have hnumbered : ∀ op ∈ c.newRows, numbers.get? op.id ≠ none := fun op hop =>
    numbered_newRows ht (fun snapshot => ⟨_, hoperations snapshot⟩) hop
  rw [hoperations, Commit.flatMap_inserted_changeset,
    Pipeline.operationsAt_changeQueue h.settled hfresh']
  apply List.rel_append _ (agrees_arrivals hc snapshot hnumbered)
  rw [← List.filterMap_eq_filter, List.filterMap_map]
  apply forall₂_filterMap (h.operations snapshot)
  intro stored hstored live hlive hagrees
  obtain ⟨row, hrow, hpipeline, -, rfl⟩ := MemoryStore.mem_operationsAt_iff.1 hstored
  have hqueued : live ∈ p.operations := Pipeline.mem_operations_iff.2 ⟨snapshot, hlive⟩
  apply hagrees.edited (hs.numbered row hrow) (h.settled.unfinished live hqueued)
  intro new hnew heq
  exact hfresh.notMem_ids new hnew (h.mem_ids_iff.2 ⟨row, hrow, hpipeline, heq.symm⟩)

/-- The pass that closes a commit changes nothing that is compared. -/
theorem applyCommit (h : InStep s rowid p) (hs : s.IsSound owner) (hc : c.IsConsistent)
    (hfresh : p.IsFresh c) (hmentions : ∀ id ∈ c.mentions, owner id = rowid) {number : Snapshot}
    {changes : List PipelineChangeset} (hchanges : MemoryStore.AreSound owner changes)
    (hdistinct : (changes.map (·.rowid)).Nodup) (hmem : ⟨rowid, c.changeset⟩ ∈ changes)
    (hwritten : s.applyChangesets number changes = .ok (numbers, t)) (now : Instant) :
    InStep t rowid (p.applyCommit (c.assignRowids numbers) now).2 := by
  have hchanged := h.changeQueue hs hc hfresh hmentions hchanges hdistinct hmem hwritten
  have hnodup := hchanged.settled.nodup_ids
  exact hchanged.sameQueue (Pipeline.sameQueue_reschedule hnodup now _)
    (h.settled.applyCommit _ now) (Pipeline.holds_reschedule hnodup now _)

end InStep

end OperationQueue
