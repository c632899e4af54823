/-
# Tables that calls alone have written

A store in tables reads what anybody wrote, but if nobody else did, then every row is one that the
store wrote for an operation, and it says under which snapshot. The snapshots of all operations
that ever got a row are listed here in the order of the row numbers, which no row gives back. So
from the number of a row one knows the snapshot that was asked for, whatever the row says. Every
write keeps this, and nothing but a date can keep a row from being read.
-/
import OperationQueue.Proofs.Store.Entries
import OperationQueue.Proofs.Store.Reading

namespace OperationQueue

namespace RowWrite

/-- The snapshot of the operation that a write stores. -/
def target? : RowWrite → Option Snapshot
  | .insert op => some op.snapshot
  | .modify _ | .status _ _ | .delete _ => none

/-- Whether the priority that is written has 32 bits. -/
def Fits : RowWrite → Prop
  | .insert op | .modify op => TableStore.isPriority op.priority = true
  | .status _ _ | .delete _ => True

end RowWrite

/-- All writes of some changesets in their order, each with the row of its pipeline. -/
def allWrites (changes : List PipelineChangeset) : List (Int × RowWrite) :=
  changes.flatMap fun change => change.writes.map fun w => (change.rowid, w)

/-- The snapshots of the operations that some writes store. -/
def newTargets (writes : List (Int × RowWrite)) : List Snapshot :=
  writes.filterMap fun e => e.2.target?

/-- The writes of all pipelines are made one after the other. -/
theorem WorkingCopy.writeAll_eq_foldlM {σ : Type}
    (write : Int → WorkingCopy σ → RowWrite → Except Error (WorkingCopy σ))
    (changes : List PipelineChangeset) (u : WorkingCopy σ) :
    writeAll write changes u = (allWrites changes).foldlM (fun u e => write e.1 u e.2) u := by
  rw [writeAll]
  induction changes generalizing u with
  | nil => rfl
  | cons change rest ih =>
      rw [allWrites, List.flatMap_cons, List.foldlM_append, List.foldlM_cons, List.foldlM_map]
      exact congrArg _ (funext ih)

namespace TableStore

variable {s t : TableStore} {targets : List Snapshot} {row next : OperationRow} {w : RowWrite}
  {u v : Writing} {pipeline rowid : Int}

/-- A row that was written for an operation. Its number is the place of its snapshot in a list. -/
def IsWritten (targets : List Snapshot) (row : OperationRow) : Prop :=
  ∃ (index : Nat) (pipeline : Int) (op : Operation), row = rowOf (index + 1) pipeline op ∧
    isPriority op.priority = true ∧ targets[index]? = some op.snapshot

/-- Tables in which every row was written for an operation. The list has the snapshots of all
operations that were ever stored, by their row numbers. -/
structure IsKept (targets : List Snapshot) (s : TableStore) : Prop where
  lastRowid : s.lastRowid = targets.length
  written : ∀ row ∈ s.operations, IsWritten targets row
  apart : s.operations.Pairwise fun a b => a.rowid < b.rowid ∧ a.identity ≠ b.identity
  numbered : ∀ cell, s.lastSnapshot = some cell → ∃ n : Int, cell = .number n ∧ n < 2 ^ 63

/-- Tables that came about by calls alone, and the snapshots of the operations that were stored in
them. -/
inductive Kept : List Snapshot → TableStore → Prop
  | empty : Kept [] .empty
  | register {targets : List Snapshot} {s t : TableStore} {name : String}
      {previous : OrderedSet String} {algorithm : Algorithm} {record : PipelineRecord}
      (kept : Kept targets s) (ok : s.register name previous algorithm = .ok (record, t)) :
      Kept targets t
  | setAlgorithm {targets : List Snapshot} {s t : TableStore} {rowid : Int} {algorithm : Algorithm}
      (kept : Kept targets s) (ok : s.setAlgorithm rowid algorithm = .ok t) : Kept targets t
  | applyChangesets {targets : List Snapshot} {s t : TableStore} {snapshot : Snapshot}
      {changes : List PipelineChangeset} {numbers : OrderedMap Identity Int} (kept : Kept targets s)
      (fits : ∀ e ∈ allWrites changes, e.2.Fits)
      (ok : s.applyChangesets snapshot changes = .ok (numbers, t)) :
      Kept (targets ++ newTargets (allWrites changes)) t
  | saveHolds {targets : List Snapshot} {s : TableStore} (kept : Kept targets s) (id : Identity)
      (holds : Holds) : Kept targets (s.saveHolds id holds)

/-! ## Rows -/

theorem IsWritten.append (h : IsWritten targets row) (more : List Snapshot) :
    IsWritten (targets ++ more) row := by
  obtain ⟨index, pipeline, op, hrow, hpriority, htarget⟩ := h
  have hlt : index < targets.length := (List.getElem?_eq_some_iff.1 htarget).1
  exact ⟨index, pipeline, op, hrow, hpriority, by rw [List.getElem?_append_left hlt, htarget]⟩

theorem IsWritten.rowid_le (h : IsWritten targets row) : row.rowid ≤ targets.length := by
  obtain ⟨index, pipeline, op, hrow, -, htarget⟩ := h
  have hlt : index < targets.length := (List.getElem?_eq_some_iff.1 htarget).1
  rw [hrow]
  exact hlt

theorem rowid_of_editRow_eq_some (h : editRow w row = some next) : next.rowid = row.rowid := by
  cases w with
  | insert op => cases h; rfl
  | modify op =>
      rw [editRow, Option.some.injEq] at h
      rw [← h]
      split <;> rfl
  | status id status =>
      rw [editRow, Option.some.injEq] at h
      rw [← h]
      split <;> rfl
  | delete id =>
      rw [editRow] at h
      split at h
      · cases h
      · cases h
        rfl

/-- A row that is edited is the row of an operation that is edited. -/
theorem IsWritten.editRow (h : IsWritten targets row) (hw : w.Fits)
    (hedit : TableStore.editRow w row = some next) : IsWritten targets next := by
  cases w with
  | insert op => cases hedit; exact h
  | modify m =>
      rw [TableStore.editRow, Option.some.injEq] at hedit
      split at hedit
      · obtain ⟨index, pipeline, op, hrow, -, htarget⟩ := h
        rw [← hedit, hrow]
        exact ⟨index, pipeline, { op with
          priority := m.priority, dependencies := m.dependencies, payload := m.payload },
          rfl, hw, htarget⟩
      · exact hedit ▸ h
  | status id status =>
      rw [TableStore.editRow, Option.some.injEq] at hedit
      split at hedit
      · obtain ⟨index, pipeline, op, hrow, hpriority, htarget⟩ := h
        rw [← hedit, hrow]
        exact ⟨index, pipeline, { op with status := status }, rfl, hpriority, htarget⟩
      · exact hedit ▸ h
  | delete id =>
      rw [TableStore.editRow] at hedit
      split at hedit
      · cases hedit
      · cases hedit
        exact h

/-! ## Writes -/

theorem IsKept.of_eq (h : IsKept targets s) (hoperations : t.operations = s.operations)
    (hlastRowid : t.lastRowid = s.lastRowid) (hlast : t.lastSnapshot = s.lastSnapshot) :
    IsKept targets t where
  lastRowid := hlastRowid.trans h.lastRowid
  written := hoperations ▸ h.written
  apart := hoperations ▸ h.apart
  numbered := hlast ▸ h.numbered

/-- The rows that stay are apart as before. -/
theorem IsKept.apart_filterMap (h : IsKept targets s) (w : RowWrite) :
    (s.operations.filterMap (editRow w)).Pairwise
      fun a b => a.rowid < b.rowid ∧ a.identity ≠ b.identity := by
  rw [List.pairwise_filterMap]
  refine h.apart.imp fun {a b} hapart a' ha b' hb => ?_
  rw [rowid_of_editRow_eq_some ha, rowid_of_editRow_eq_some hb, (of_editRow_eq_some ha).2.1,
    (of_editRow_eq_some hb).2.1]
  exact hapart

/-- A new row is written only if no row has its identity. -/
theorem ne_of_write_insert {op : Operation} (h : write pipeline u (.insert op) = .ok v) :
    ∀ row ∈ u.2.operations, row.identity ≠ op.id.text := by
  rw [write] at h
  split at h
  · cases h
  · next hfree =>
    intro row hrow heq
    refine hfree ?_
    rw [Bool.or_eq_true, List.any_eq_true]
    exact .inr ⟨row, hrow, beq_iff_eq.2 heq⟩

/-- Numbers are given out to new rows alone, and never twice. -/
theorem lastRowid_write (h : write pipeline u w = .ok v) :
    v.2.lastRowid = u.2.lastRowid + w.target?.toList.length := by
  cases w with
  | insert op =>
      rw [write] at h
      split at h
      · cases h
      · cases h
        rfl
  | modify op => cases h; rfl
  | status id next => cases h; rfl
  | delete id => cases h; rfl

theorem pairwise_addedRows (R : OperationRow → OperationRow → Prop) (pipeline : Int)
    (s : TableStore) (w : RowWrite) : (addedRows pipeline s w).Pairwise R := by
  cases w with
  | insert op => exact List.pairwise_singleton _ _
  | modify _ | status _ _ | delete _ => exact .nil

/-- A write keeps the tables, and a new row gets the next place of the list. -/
theorem IsKept.write (h : IsKept targets u.2) (hw : w.Fits)
    (hwrite : TableStore.write pipeline u w = .ok v) :
    IsKept (targets ++ w.target?.toList) v.2 where
  lastRowid := by rw [lastRowid_write hwrite, h.lastRowid, List.length_append]
  written row hrow := by
    rw [operations_write hwrite, List.mem_append] at hrow
    rcases hrow with hrow | hrow
    · obtain ⟨old, hold, hedit⟩ := List.mem_filterMap.1 hrow
      exact ((h.written old hold).editRow hw hedit).append _
    · obtain ⟨op, rfl, rfl⟩ := of_mem_addedRows hrow
      rw [h.lastRowid]
      exact ⟨targets.length, pipeline, op, rfl, hw, List.getElem?_concat_length⟩
  apart := by
    rw [operations_write hwrite, List.pairwise_append]
    refine ⟨h.apart_filterMap w, pairwise_addedRows _ _ _ _, fun a ha b hb => ?_⟩
    obtain ⟨old, hold, hedit⟩ := List.mem_filterMap.1 ha
    obtain ⟨op, rfl, rfl⟩ := of_mem_addedRows hb
    have hle : old.rowid ≤ u.2.lastRowid := h.lastRowid ▸ (h.written old hold).rowid_le
    rw [rowid_of_editRow_eq_some hedit, (of_editRow_eq_some hedit).2.1]
    exact ⟨Nat.lt_succ_of_le hle, ne_of_write_insert hwrite old hold⟩
  numbered := lastSnapshot_write hwrite ▸ h.numbered

/-- Writes keep the tables, and their new rows get the next places of the list. -/
theorem IsKept.writes {writes : List (Int × RowWrite)} (h : IsKept targets u.2)
    (hfits : ∀ e ∈ writes, e.2.Fits)
    (hwritten : writes.foldlM (fun u e => TableStore.write e.1 u e.2) u = .ok v) :
    IsKept (targets ++ newTargets writes) v.2 := by
  induction writes generalizing u targets with
  | nil =>
      cases hwritten
      rw [newTargets, List.filterMap_nil, List.append_nil]
      exact h
  | cons e rest ih =>
      obtain ⟨m, hfirst, hrest⟩ := foldlM_cons_eq_ok hwritten
      have hsplit : newTargets (e :: rest) = e.2.target?.toList ++ newTargets rest := by
        rw [newTargets, List.filterMap_cons]
        cases e.2.target? <;> rfl
      rw [hsplit, ← List.append_assoc]
      exact ih (h.write (hfits e List.mem_cons_self) hfirst)
        (fun later hlater => hfits later (List.mem_cons_of_mem _ hlater)) hrest

/-- The tables in the middle of a commit that succeeds, with all its writes. -/
theorem exists_written_of_applyChangesets {snapshot : Snapshot}
    {changes : List PipelineChangeset} {numbers : OrderedMap Identity Int}
    (h : s.applyChangesets snapshot changes = .ok (numbers, t)) :
    ∃ copy, (allWrites changes).foldlM (fun u e => TableStore.write e.1 u e.2) (.empty, s) =
      .ok (numbers, copy) ∧ t = close snapshot copy := by
  have happlied : Store.applyChangesets s snapshot changes = .ok (numbers, t) := h
  obtain ⟨copy, hwritten, ht⟩ := RowStore.exists_of_applyChangesets_eq_ok happlied
  rw [WorkingCopy.writeAll_eq_foldlM] at hwritten
  exact ⟨copy, hwritten, ht⟩

theorem IsKept.close (h : IsKept targets s) (snapshot : Snapshot) :
    IsKept targets (TableStore.close snapshot s) where
  lastRowid := h.lastRowid
  written := h.written
  apart := h.apart
  numbered cell hcell := by
    have hword := Snapshot.toWord_lt snapshot
    rw [TableStore.close, Option.some.injEq] at hcell
    rw [← hcell]
    cases hlast : s.lastSnapshot with
    | none => exact ⟨_, rfl, hword⟩
    | some last =>
        obtain ⟨n, rfl, hn⟩ := h.numbered last hlast
        rw [Option.elim_some, Cell.raise_number]
        split
        · exact ⟨_, rfl, hword⟩
        · exact ⟨n, rfl, hn⟩

theorem IsKept.saveHolds (h : IsKept targets s) (id : Identity) (holds : Holds) :
    IsKept targets (s.saveHolds id holds) := h.of_eq rfl rfl rfl

theorem IsKept.applyChangesets (h : IsKept targets s) {snapshot : Snapshot}
    {changes : List PipelineChangeset} {numbers : OrderedMap Identity Int}
    (hfits : ∀ e ∈ allWrites changes, e.2.Fits)
    (happlied : s.applyChangesets snapshot changes = .ok (numbers, t)) :
    IsKept (targets ++ newTargets (allWrites changes)) t := by
  obtain ⟨copy, hwritten, rfl⟩ := exists_written_of_applyChangesets happlied
  exact (h.writes (v := (numbers, copy)) hfits hwritten).close snapshot

/-- Tables that calls alone have written hold the rows of operations. -/
theorem Kept.isKept (h : Kept targets s) : IsKept targets s := by
  induction h with
  | empty => exact ⟨rfl, List.forall_mem_nil _, .nil, fun _ hcell => nomatch hcell⟩
  | register _ ok ih =>
      obtain ⟨found, -, hregistered⟩ := exists_of_bind_eq_ok ok
      cases found with
      | none => cases hregistered; exact ih.of_eq rfl rfl rfl
      | some record => cases hregistered; exact ih.of_eq rfl rfl rfl
  | setAlgorithm _ ok ih =>
      rw [TableStore.setAlgorithm] at ok
      split at ok
      · cases ok
        exact ih.of_eq rfl rfl rfl
      · cases ok
  | applyChangesets _ fits ok ih => exact ih.applyChangesets fits ok
  | saveHolds _ id holds ih => exact ih.saveHolds id holds

/-! ## Reading -/

/-- The rows of a pipeline in the order in which they are read. -/
def sortedRows (s : TableStore) (rowid : Int) : List OperationRow :=
  (s.operations.filter (·.pipeline == rowid)).mergeSort fun a b => a.snapshot.isBefore b.snapshot

theorem mem_sortedRows : row ∈ s.sortedRows rowid ↔ row ∈ s.operations ∧ row.pipeline = rowid := by
  rw [sortedRows, List.mem_mergeSort, List.mem_filter, beq_iff_eq]

theorem IsKept.isWritten_of_mem (h : IsKept targets s) (hrow : row ∈ s.sortedRows rowid) :
    IsWritten targets row := h.written row (mem_sortedRows.1 hrow).1

theorem load_eq_mapM (s : TableStore) (rowid : Int) :
    s.load rowid = (s.sortedRows rowid).mapM s.readRow := rfl

/-- A row that was written can be read if the dates beside it can. Whatever they are, the same
operation is read from it. -/
theorem IsWritten.exists_readRow_eq (h : IsWritten targets row) :
    ∃ op : Operation, row.identity = op.id.text ∧ ∀ s : TableStore, s.readRow row =
      (s.readHolds row.identity).map fun holds => ⟨reread row.rowid op, holds⟩ := by
  obtain ⟨index, pipeline, op, rfl, hpriority, -⟩ := h
  exact ⟨op, rfl, fun s => readRow_rowOf_eq_map hpriority (index + 1) pipeline⟩

/-- No two rows have one identity. -/
theorem IsKept.eq_of_identity_eq {a b : OperationRow} (h : IsKept targets s)
    (ha : a ∈ s.operations) (hb : b ∈ s.operations) (heq : a.identity = b.identity) : a = b := by
  have hnodup : (s.operations.map (·.identity)).Nodup := List.pairwise_map.2 (h.apart.imp And.right)
  exact List.inj_on_of_nodup_map hnodup ha hb heq

end TableStore

end OperationQueue
