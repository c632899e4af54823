/-
# What a restart does to a queue

A queue that is built again from records is settled, whatever was recorded: of several
records of one identity the first counts, and a finished operation is left out. At each
snapshot stand the recorded operations of that snapshot, in the order of the records.
-/
import OperationQueue.Pipeline.Restoring
import OperationQueue.Proofs.Pipeline.Joining

namespace OperationQueue

namespace Pipeline

variable {p : Pipeline}

/-! ## The records that count -/

private theorem mem_firstRecords {records : List StoredOperation} {seen : List Identity}
    {r : StoredOperation} (h : r ∈ firstRecords seen records) :
    r ∈ records ∧ r.operation.id ∉ seen := by
  induction records generalizing seen with
  | nil => cases h
  | cons first rest ih =>
      rw [firstRecords] at h
      by_cases hseen : first.operation.id ∈ seen
      · rw [if_pos hseen] at h
        exact ⟨List.mem_cons_of_mem _ (ih h).1, (ih h).2⟩
      · rw [if_neg hseen] at h
        rcases List.mem_cons.1 h with rfl | h
        · exact ⟨List.mem_cons_self, hseen⟩
        · obtain ⟨hmem, hnot⟩ := ih h
          exact ⟨List.mem_cons_of_mem _ hmem, fun hr => hnot (List.mem_cons_of_mem _ hr)⟩

private theorem nodup_firstRecords (seen : List Identity) (records : List StoredOperation) :
    ((firstRecords seen records).map (·.operation.id)).Nodup := by
  induction records generalizing seen with
  | nil => exact List.nodup_nil
  | cons first rest ih =>
      rw [firstRecords]
      by_cases hseen : first.operation.id ∈ seen
      · rw [if_pos hseen]
        exact ih seen
      · rw [if_neg hseen, List.map_cons, List.nodup_cons]
        refine ⟨fun hmem => ?_, ih _⟩
        obtain ⟨r, hr, hid⟩ := List.mem_map.1 hmem
        exact (mem_firstRecords hr).2 (hid ▸ List.mem_cons_self)

private theorem firstRecords_eq_self {records : List StoredOperation} {seen : List Identity}
    (hnodup : (records.map (·.operation.id)).Nodup)
    (hseen : ∀ r ∈ records, r.operation.id ∉ seen) : firstRecords seen records = records := by
  induction records generalizing seen with
  | nil => rfl
  | cons first rest ih =>
      rw [List.map_cons, List.nodup_cons] at hnodup
      rw [firstRecords, if_neg (hseen first List.mem_cons_self), ih hnodup.2]
      intro r hr hmem
      rcases List.mem_cons.1 hmem with heq | hmem
      · exact hnodup.1 (List.mem_map.2 ⟨r, hr, heq⟩)
      · exact hseen r (List.mem_cons_of_mem _ hr) hmem

theorem nodup_restorable (records : List StoredOperation) :
    ((restorable records).map (·.operation.id)).Nodup := by
  have hids : (restorable records).map (·.operation.id) =
      ((firstRecords [] records).filter fun r => !r.operation.isTerminal).map (·.operation.id) := by
    simp [restorable]
  rw [hids]
  exact (List.filter_sublist.map _).nodup (nodup_firstRecords [] records)

theorem of_mem_restorable {records : List StoredOperation} {r : StoredOperation}
    (h : r ∈ restorable records) : r.operation.isTerminal = false ∧ r.operation.staged = none := by
  obtain ⟨old, hold, rfl⟩ := List.mem_map.1 h
  have hunfinished : old.operation.isTerminal = false := by
    simpa using (List.mem_filter.1 hold).2
  exact ⟨hunfinished, rfl⟩

/-- What is restored stands in the records, up to what is staged for it. -/
theorem exists_of_mem_restorable {records : List StoredOperation} {r : StoredOperation}
    (h : r ∈ restorable records) :
    ∃ old ∈ records, r.operation = { old.operation with staged := none } := by
  obtain ⟨old, hold, rfl⟩ := List.mem_map.1 h
  exact ⟨old, (mem_firstRecords (List.mem_filter.1 hold).1).1, rfl⟩

/-- Records as a store keeps them are all restored as they are. -/
theorem restorable_eq_self {records : List StoredOperation}
    (hnodup : (records.map (·.operation.id)).Nodup)
    (hrecords : ∀ r ∈ records, r.operation.isTerminal = false ∧ r.operation.staged = none) :
    restorable records = records := by
  have hfirst : firstRecords [] records = records :=
    firstRecords_eq_self hnodup fun _ _ hmem => by cases hmem
  have hkept : (records.filter fun r => !r.operation.isTerminal) = records :=
    List.filter_eq_self.2 fun r hr => by simp [(hrecords r hr).1]
  have hplain : ∀ r ∈ records, { r with operation := { r.operation with staged := none } } = r := by
    intro r hr
    rw [← (hrecords r hr).2]
  rw [restorable, hfirst, hkept, List.map_congr_left hplain, List.map_id']

/-! ## The graphs -/

/-- Rebuilding the graphs is letting the operations join one by one. -/
private theorem foldl_intoGraph (ops : List Operation) :
    { p with graphs := ops.foldl intoGraph p.graphs } =
      ops.foldl (fun p op => p.pushAt op.snapshot op) p := by
  induction ops generalizing p with
  | nil => rfl
  | cons op rest ih => exact ih (p := p.pushAt op.snapshot op)

/-- Operations that join one by one under snapshots of their own. -/
private theorem foldl_pushAt (h : p.IsReaped) {ops : List Operation}
    (hnodup : (ops.map (·.id)).Nodup) (hnew : ∀ op ∈ ops, op.id ∉ p.ids)
    (hops : ∀ op ∈ ops, op.isTerminal = false ∧ op.staged = none) :
    (ops.foldl (fun p op => p.pushAt op.snapshot op) p).IsReaped ∧
      ∀ snapshot, (ops.foldl (fun p op => p.pushAt op.snapshot op) p).operationsAt snapshot =
        p.operationsAt snapshot ++ ops.filter (·.snapshot = snapshot) := by
  induction ops generalizing p with
  | nil => exact ⟨h, fun snapshot => by simp⟩
  | cons op rest ih =>
      rw [List.map_cons, List.nodup_cons] at hnodup
      obtain ⟨hunfinished, hstaged⟩ := hops op List.mem_cons_self
      have hpush := h.pushAt (hnew op List.mem_cons_self) hunfinished hstaged op.snapshot
      have hrest : ∀ other ∈ rest, other.id ∉ (p.pushAt op.snapshot op).ids := by
        intro other hother hmem
        rcases (mem_ids_pushAt h.toIsFiled).1 hmem with heq | hmem
        · exact hnodup.1 (List.mem_map.2 ⟨other, hother, heq⟩)
        · exact hnew other (List.mem_cons_of_mem _ hother) hmem
      obtain ⟨hreaped, hat⟩ := ih hpush hnodup.2 hrest fun other hother =>
        hops other (List.mem_cons_of_mem _ hother)
      refine ⟨hreaped, fun snapshot => ?_⟩
      rw [List.foldl_cons, hat, operationsAt_pushAt h.toIsFiled, List.append_assoc]
      by_cases hsnapshot : op.snapshot = snapshot
      · subst hsnapshot
        simp
      · simp [hsnapshot, Ne.symm hsnapshot]

/-! ## The holds -/

private theorem get?_foldl_replace_of_notMem {records : List StoredOperation} {table : HoldTable}
    {id : Identity} (h : id ∉ records.map (·.operation.id)) :
    (records.foldl (fun holds r => holds.replace r.operation.id r.holds) table).byOperation.get? id =
      table.byOperation.get? id := by
  induction records generalizing table with
  | nil => rfl
  | cons r rest ih =>
      rw [List.map_cons, List.mem_cons, not_or] at h
      rw [List.foldl_cons, ih h.2, HoldTable.get?_replace_of_ne h.1]

private theorem get?_foldl_replace_of_mem {records : List StoredOperation} {table : HoldTable}
    (hnodup : (records.map (·.operation.id)).Nodup) {r : StoredOperation} (h : r ∈ records) :
    (records.foldl (fun holds r => holds.replace r.operation.id r.holds) table).byOperation.get?
      r.operation.id = if r.holds.isEmpty then none else some r.holds := by
  induction records generalizing table with
  | nil => cases h
  | cons first rest ih =>
      rw [List.map_cons, List.nodup_cons] at hnodup
      rw [List.foldl_cons]
      rcases List.mem_cons.1 h with rfl | h
      · rw [get?_foldl_replace_of_notMem hnodup.1, HoldTable.get?_replace_self]
      · exact ih hnodup.2 h

/-! ## The restored queue -/

/-- The queue before anything is restored. -/
private def cleared (p : Pipeline) : Pipeline := { p with graphs := .empty, holds := .empty }

private theorem isReaped_cleared (p : Pipeline) : p.cleared.IsReaped where
  snapshot_graph h := by simp [cleared] at h
  snapshot_operation h := by simp [cleared, operationsAt] at h
  nodup_ids := List.nodup_nil
  unstaged _ h := by cases h
  held h := by simp [cleared, HoldTable.empty] at h
  operations_ne_nil h := by simp [cleared] at h
  unfinished _ h := by cases h

/-- The queue with its operations restored, and no hold. -/
private def refilled (p : Pipeline) (records : List StoredOperation) : Pipeline :=
  { p.cleared with graphs := ((restorable records).map (·.operation)).foldl intoGraph .empty }

private theorem isReaped_refilled (p : Pipeline) (records : List StoredOperation) :
    (p.refilled records).IsReaped ∧ ∀ snapshot, (p.refilled records).operationsAt snapshot =
      ((restorable records).map (·.operation)).filter (·.snapshot = snapshot) := by
  have hnodup := nodup_restorable records
  have hfold : p.refilled records = ((restorable records).map (·.operation)).foldl
      (fun p op => p.pushAt op.snapshot op) p.cleared := foldl_intoGraph _
  rw [hfold]
  have hids : (((restorable records).map (·.operation)).map (·.id)).Nodup := by
    rwa [List.map_map]
  apply foldl_pushAt (isReaped_cleared p) hids fun _ _ h => by cases h
  intro op hop
  obtain ⟨r, hr, rfl⟩ := List.mem_map.1 hop
  exact of_mem_restorable hr

theorem operationsAt_restore (p : Pipeline) (records : List StoredOperation) (snapshot : Snapshot) :
    (p.restore records).2.operationsAt snapshot =
      ((restorable records).map (·.operation)).filter (·.snapshot = snapshot) := by
  rw [← (isReaped_refilled p records).2 snapshot]
  exact operationsAt_relink { p.refilled records with
    holds := (restorable records).foldl (fun holds r => holds.replace r.operation.id r.holds) .empty }
    snapshot

theorem mem_operations_restore {records : List StoredOperation} {op : Operation} :
    op ∈ (p.restore records).2.operations ↔ ∃ r ∈ restorable records, r.operation = op := by
  simp [mem_operations_iff, operationsAt_restore]

theorem get?_holds_restore_of_mem {records : List StoredOperation} {r : StoredOperation}
    (h : r ∈ restorable records) :
    (p.restore records).2.holds.byOperation.get? r.operation.id =
      if r.holds.isEmpty then none else some r.holds :=
  get?_foldl_replace_of_mem (nodup_restorable records) h

theorem get?_holds_restore_of_notMem {records : List StoredOperation} {id : Identity}
    (h : id ∉ (restorable records).map (·.operation.id)) :
    (p.restore records).2.holds.byOperation.get? id = none :=
  get?_foldl_replace_of_notMem h

/-- A restored queue is settled. -/
theorem isSettled_restore (p : Pipeline) (records : List StoredOperation) :
    (p.restore records).2.IsSettled := by
  have hrefilled := (isReaped_refilled p records).1
  have hreaped : IsReaped { p.refilled records with
      holds := (restorable records).foldl
        (fun holds r => holds.replace r.operation.id r.holds) .empty } := by
    refine ⟨⟨hrefilled.snapshot_graph, hrefilled.snapshot_operation, hrefilled.nodup_ids,
      hrefilled.unstaged, ?_⟩, hrefilled.operations_ne_nil, hrefilled.unfinished⟩
    intro id holds hholds
    by_cases hid : id ∈ (restorable records).map (·.operation.id)
    · obtain ⟨r, hr, rfl⟩ := List.mem_map.1 hid
      have hentry := (get?_holds_restore_of_mem (p := p) hr).symm.trans hholds
      split at hentry
      · cases hentry
      · next hempty =>
        cases hentry
        have hmem : r.operation ∈ (p.refilled records).operations :=
          operations_relink (p.refilled records) ▸
            mem_operations_restore.2 ⟨r, hr, rfl⟩
        exact ⟨by simpa using hempty, List.mem_map_of_mem hmem⟩
    · cases (get?_holds_restore_of_notMem (p := p) hid).symm.trans hholds
  exact hreaped.relink.of_eq rfl rfl rfl

end Pipeline

end OperationQueue
