/-
# The rows of a store

A store numbers its rows, and a write finds the row that it changes. For both stores it is said
here which columns of a row a write can change: a status changes the status, a modification the
priority, the dependencies and the payload, and an operation that is removed takes its row along.
Of the operation that is handed over with a write nothing else is looked at.
-/
import OperationQueue.Proofs.Commit.Bare
import OperationQueue.Proofs.Store.RowByRow
import OperationQueue.Proofs.Store.Writing

namespace OperationQueue

/-- A store whose rows carry numbers. -/
class NumberingStore (σ : Type) [Store σ] [RowStore σ] where
  /-- A row of an operation. -/
  Row : Type
  /-- The rows of all pipelines. -/
  rows : σ → List Row
  /-- The number of a row. -/
  number : Row → Option Int
  /-- A row without its status. -/
  withoutStatus : Row → Row
  /-- A row without what a modification changes. -/
  withoutContent : Row → Row
  number_withoutStatus (row : Row) : number (withoutStatus row) = number row
  number_withoutContent (row : Row) : number (withoutContent row) = number row
  rows_register {s t : σ} {name : String} {previous : OrderedSet String} {algorithm : Algorithm}
    {record : PipelineRecord} :
    Store.register s name previous algorithm = .ok (record, t) → rows t = rows s
  rows_setAlgorithm {s t : σ} {rowid : Int} {algorithm : Algorithm} :
    Store.setAlgorithm s rowid algorithm = .ok t → rows t = rows s
  rows_saveHolds {s t : σ} {id : Identity} {holds : Holds} :
    Store.saveHolds s id holds = .ok t → rows t = rows s
  rows_close (snapshot : Snapshot) (s : σ) : rows (RowStore.close snapshot s) = rows s
  isSome_rowid_of_load {s : σ} {rowid : Int} {records : List StoredOperation} :
    (∀ row ∈ rows s, (number row).isSome) → Store.load s rowid = .ok records →
      ∀ r ∈ records, r.operation.rowid.isSome
  write_insert {u v : WorkingCopy σ} {pipeline : Int} {op : Operation} :
    RowStore.write pipeline u (.insert op) = .ok v → ∃ row rowid, number row = some rowid ∧
      rows v.2 = rows u.2 ++ [row] ∧ v.1 = u.1.insert op.id rowid
  numbers_write {u v : WorkingCopy σ} {pipeline : Int} {w : RowWrite} :
    RowStore.write pipeline u w = .ok v → (∀ op, w ≠ .insert op) → v.1 = u.1
  rows_write_status {u v : WorkingCopy σ} {pipeline : Int} {id : Identity} {next : Status} :
    RowStore.write pipeline u (.status id next) = .ok v →
      (rows v.2).map withoutStatus = (rows u.2).map withoutStatus
  rows_write_delete {u v : WorkingCopy σ} {pipeline : Int} {id : Identity} :
    RowStore.write pipeline u (.delete id) = .ok v → (rows v.2).Sublist (rows u.2)
  rows_write_modify {u v : WorkingCopy σ} {pipeline : Int} {op : Operation} :
    (∀ row ∈ rows u.2, (number row).isSome) → RowStore.write pipeline u (.modify op) = .ok v →
      (rows v.2).map withoutContent = (rows u.2).map withoutContent
  write_bare {u : WorkingCopy σ} {pipeline : Int} {w : RowWrite} :
    (∀ row ∈ rows u.2, (number row).isSome) →
      RowStore.write pipeline u w.bare = RowStore.write pipeline u w

namespace NumberingStore

variable {σ : Type} [Store σ] [RowStore σ] [NumberingStore σ] {s t : σ} {u v : WorkingCopy σ}
  {pipeline rowid : Int} {w : RowWrite} {changes : List PipelineChangeset} {snapshot : Snapshot}
  {numbers : OrderedMap Identity Int}

/-- Every row has its number. -/
def HasRowids (s : σ) : Prop := ∀ row ∈ rows s, (number row).isSome

theorem HasRowids.of_rows_eq (h : HasRowids s) (hrows : rows t = rows s) : HasRowids t := by
  rw [HasRowids, hrows]
  exact h

/-- Columns that leave the number of a row alone do not matter. -/
private theorem HasRowids.of_map_eq {f : Row σ → Row σ} (hf : ∀ row, number (f row) = number row)
    (h : HasRowids s) (hrows : (rows t).map f = (rows s).map f) : HasRowids t := by
  intro row hrow
  have hmem : f row ∈ (rows s).map f := hrows ▸ List.mem_map_of_mem hrow
  obtain ⟨old, hold, heq⟩ := List.mem_map.1 hmem
  rw [← hf row, ← heq, hf old]
  exact h old hold

theorem HasRowids.write (hu : HasRowids u.2) (h : RowStore.write pipeline u w = .ok v) :
    HasRowids v.2 := by
  cases w with
  | insert op =>
      obtain ⟨row, rowid, hnumber, hrows, -⟩ := write_insert h
      intro other hother
      rw [hrows, List.mem_append, List.mem_singleton] at hother
      rcases hother with hother | rfl
      · exact hu other hother
      · exact Option.isSome_iff_exists.2 ⟨rowid, hnumber⟩
  | modify op => exact hu.of_map_eq number_withoutContent (rows_write_modify hu h)
  | status id next => exact hu.of_map_eq number_withoutStatus (rows_write_status h)
  | delete id => exact fun row hrow => hu row ((rows_write_delete h).subset hrow)

theorem HasRowids.writeAll (hu : HasRowids u.2)
    (h : WorkingCopy.writeAll RowStore.write changes u = .ok v) : HasRowids v.2 :=
  WorkingCopy.writeAll_invariant (fun u => HasRowids u.2) HasRowids.write hu h

theorem HasRowids.applyChangesets (hs : HasRowids s)
    (h : Store.applyChangesets s snapshot changes = .ok (numbers, t)) : HasRowids t := by
  obtain ⟨copy, hwritten, rfl⟩ := RowStore.exists_of_applyChangesets_eq_ok h
  have hcopy : HasRowids copy := HasRowids.writeAll (u := (.empty, s)) hs hwritten
  exact hcopy.of_rows_eq (rows_close snapshot copy)

/-! ## The numbers that a commit gives out -/

/-- A number that was given out stays. -/
theorem isSome_get?_write {id : Identity} (hid : (u.1.get? id).isSome)
    (h : RowStore.write pipeline u w = .ok v) : (v.1.get? id).isSome := by
  by_cases hinsert : ∃ op, w = .insert op
  · obtain ⟨op, rfl⟩ := hinsert
    obtain ⟨-, rowid, -, -, hnumbers⟩ := write_insert h
    rw [hnumbers]
    by_cases heq : id = op.id
    · rw [heq, OrderedMap.get?_insert_self]
      rfl
    · rwa [OrderedMap.get?_insert_of_ne _ heq]
  · rwa [numbers_write h fun op heq => hinsert ⟨op, heq⟩]

/-- Every new row is known by its number afterwards. -/
theorem isSome_get?_of_applyChangesets
    (h : Store.applyChangesets s snapshot changes = .ok (numbers, t)) {change : PipelineChangeset}
    (hchange : change ∈ changes) {op : Operation} (hop : .insert op ∈ change.writes) :
    (numbers.get? op.id).isSome := by
  obtain ⟨copy, hwritten, -⟩ := RowStore.exists_of_applyChangesets_eq_ok h
  let IsGiven (u : WorkingCopy σ) : Prop := (u.1.get? op.id).isSome
  have hgiven {pipeline : Int} {u v : WorkingCopy σ}
      (hinsert : RowStore.write pipeline u (.insert op) = .ok v) : IsGiven v := by
    obtain ⟨-, rowid, -, -, hnumbers⟩ := write_insert hinsert
    show (v.1.get? op.id).isSome
    rw [hnumbers, OrderedMap.get?_insert_self]
    rfl
  have hkept : ∀ w pipeline (u v : WorkingCopy σ), IsGiven u →
      RowStore.write pipeline u w = .ok v → IsGiven v :=
    fun w pipeline u v hu hw => isSome_get?_write hu hw
  refine foldlM_reaches IsGiven (fun change _ u v hu hchange => ?_) hchange
    (fun u v hchange => ?_) hwritten
  · exact foldlM_invariant IsGiven (fun w _ => hkept w change.rowid) hu hchange
  · exact foldlM_reaches IsGiven (fun w _ => hkept w change.rowid) hop (fun u v => hgiven) hchange

/-! ## What a store does not look at -/

/-- Writes that hand over no more than they are about are the same to a store. -/
theorem writeAll_bare (hu : HasRowids u.2) (changes : List PipelineChangeset) :
    WorkingCopy.writeAll RowStore.write
        (changes.map fun change => ⟨change.rowid, change.writes.map RowWrite.bare⟩) u =
      WorkingCopy.writeAll RowStore.write changes u := by
  have hwrites {u : WorkingCopy σ} (hu : HasRowids u.2) (pipeline : Int) (writes : List RowWrite) :
      (writes.map RowWrite.bare).foldlM (RowStore.write pipeline) u =
        writes.foldlM (RowStore.write pipeline) u := by
    induction writes generalizing u with
    | nil => rfl
    | cons w rest ih =>
        rw [List.map_cons, List.foldlM_cons, List.foldlM_cons, write_bare hu]
        cases hw : RowStore.write pipeline u w with
        | error e => rfl
        | ok v => exact ih (hu.write hw)
  induction changes generalizing u with
  | nil => rfl
  | cons change rest ih =>
      rw [List.map_cons, WorkingCopy.writeAll, WorkingCopy.writeAll, List.foldlM_cons,
        List.foldlM_cons]
      dsimp only
      rw [hwrites hu]
      cases hchange : change.writes.foldlM (RowStore.write change.rowid) u with
      | error e => rfl
      | ok v =>
          exact ih (foldlM_invariant (fun u => HasRowids u.2)
            (fun w _ u v hu hw => hu.write hw) hu hchange)

theorem applyChangesets_bare (hs : HasRowids s) (snapshot : Snapshot)
    (changes : List PipelineChangeset) :
    Store.applyChangesets s snapshot
        (changes.map fun change => ⟨change.rowid, change.writes.map RowWrite.bare⟩) =
      Store.applyChangesets s snapshot changes := by
  have hcopy : HasRowids ((.empty, s) : WorkingCopy σ).2 := hs
  rw [RowStore.applyChangesets_eq, RowStore.applyChangesets_eq, writeAll_bare hcopy]

/-! ## What a commit leaves of the rows -/

/-- A commit of statuses alone leaves all rows that it does not remove, and changes the statuses
in them. -/
theorem rows_sublist_of_statuses
    (hchanges : ∀ change ∈ changes, ∀ w ∈ change.writes,
      (∃ id next, w = .status id next) ∨ ∃ id, w = .delete id)
    (h : Store.applyChangesets s snapshot changes = .ok (numbers, t)) :
    ((rows t).map withoutStatus).Sublist ((rows s).map withoutStatus) := by
  obtain ⟨copy, hwritten, rfl⟩ := RowStore.exists_of_applyChangesets_eq_ok h
  rw [rows_close]
  refine WorkingCopy.writeAll_invariant_of_mem
    (fun u => ((rows u.2).map withoutStatus).Sublist ((rows s).map withoutStatus)) ?_ (.refl _)
    hwritten
  intro change hchange w hw u v hu hwrite
  rcases hchanges change hchange w hw with ⟨id, next, rfl⟩ | ⟨id, rfl⟩
  · rw [rows_write_status hwrite]
    exact hu
  · exact ((rows_write_delete hwrite).map withoutStatus).trans hu

/-- A commit of modifications alone leaves all rows, and changes in them what a modification
changes. -/
theorem rows_eq_of_modifications (hs : HasRowids s)
    (hchanges : ∀ change ∈ changes, ∀ w ∈ change.writes, ∃ op, w = .modify op)
    (h : Store.applyChangesets s snapshot changes = .ok (numbers, t)) :
    (rows t).map withoutContent = (rows s).map withoutContent := by
  obtain ⟨copy, hwritten, rfl⟩ := RowStore.exists_of_applyChangesets_eq_ok h
  have hboth : HasRowids copy ∧ (rows copy).map withoutContent = (rows s).map withoutContent := by
    refine WorkingCopy.writeAll_invariant_of_mem (u := (.empty, s)) (v := (numbers, copy))
      (fun u => HasRowids u.2 ∧ (rows u.2).map withoutContent = (rows s).map withoutContent) ?_
      ⟨hs, rfl⟩ hwritten
    rintro change hchange w hw u v ⟨hu, hsame⟩ hwrite
    obtain ⟨op, rfl⟩ := hchanges change hchange w hw
    exact ⟨hu.write hwrite, (rows_write_modify hu hwrite).trans hsame⟩
  rw [rows_close]
  exact hboth.2

end NumberingStore

/-! ## The store in memory -/

namespace MemoryStore

variable {s t : MemoryStore}

/-- Rows that are changed in columns that are left out anyway stay the same. -/
theorem map_rows_updateRow {f g : Operation → Operation} {id : Identity}
    (h : ∀ row ∈ s.rows, g (f row.operation) = g row.operation) :
    (s.updateRow id f).rows.map (fun row => { row with operation := g row.operation }) =
      s.rows.map fun row => { row with operation := g row.operation } := by
  rw [updateRow, List.map_map]
  apply List.map_congr_left
  intro row hrow
  rw [Function.comp_apply]
  split
  · rw [h row hrow]
  · rfl

theorem rows_register {name : String} {previous : OrderedSet String} {algorithm : Algorithm}
    {record : PipelineRecord} (h : s.register name previous algorithm = (record, t)) :
    t.rows = s.rows := by
  rw [register] at h
  split at h
  · cases h
    rfl
  · cases h
    rfl

theorem mem_rows_of_mem_load {pipeline : Int} {r : StoredOperation} (h : r ∈ s.load pipeline) :
    ∃ row ∈ s.rows, r.operation = row.operation := by
  obtain ⟨row, hrow, rfl⟩ := List.mem_map.1 h
  exact ⟨row, (List.mem_filter.1 (List.mem_mergeSort.1 hrow)).1, rfl⟩

theorem write_bare {u : Writing} (hu : ∀ row ∈ u.2.rows, row.operation.rowid.isSome)
    (pipeline : Int) (w : RowWrite) : write pipeline u w.bare = write pipeline u w := by
  cases w with
  | insert op => rfl
  | modify op =>
      have hrows : u.2.updateRow op.id (fun old => old.mergeModification op.content) =
          u.2.updateRow op.id fun old => old.mergeModification op := by
        rw [updateRow, updateRow]
        congr 1
        apply List.map_congr_left
        intro row hrow
        rw [Operation.mergeModification_content (hu row hrow)]
      exact congrArg (fun s => Except.ok (u.1, s)) hrows
  | status id next => rfl
  | delete id => rfl

instance : NumberingStore MemoryStore where
  Row := MemoryRow
  rows := rows
  number row := row.operation.rowid
  withoutStatus row := { row with operation := row.operation.withoutStatus }
  withoutContent row := { row with operation := row.operation.withoutContent }
  number_withoutStatus _ := rfl
  number_withoutContent _ := rfl
  rows_register h := rows_register (Except.ok.inj h)
  rows_setAlgorithm {s t rowid algorithm} h := by
    have hset : s.setAlgorithm rowid algorithm = .ok t := h
    rw [setAlgorithm] at hset
    split at hset
    · cases hset
      rfl
    · cases hset
  rows_saveHolds h := by
    cases h
    rfl
  rows_close _ _ := rfl
  isSome_rowid_of_load {s rowid records} hs h r hr := by
    cases h
    obtain ⟨row, hrow, heq⟩ := mem_rows_of_mem_load hr
    rw [heq]
    exact hs row hrow
  write_insert {u v pipeline op} h := by
    obtain ⟨-, rfl⟩ := of_write_insert_eq_ok (a := u.1) (s := u.2) h
    exact ⟨_, _, rfl, rfl, rfl⟩
  numbers_write {u v pipeline w} h hw := by
    cases w with
    | insert op => exact absurd rfl (hw op)
    | modify op => cases h; rfl
    | status id next => cases h; rfl
    | delete id => cases h; rfl
  rows_write_status {u v pipeline id next} h := by
    cases h
    exact map_rows_updateRow fun _ _ => rfl
  rows_write_delete {u v pipeline id} h := by
    cases h
    exact List.filter_sublist
  rows_write_modify {u v pipeline op} hu h := by
    cases h
    apply map_rows_updateRow
    intro row hrow
    obtain ⟨rowid, hrowid⟩ := Option.isSome_iff_exists.1 (hu row hrow)
    rw [Operation.mergeModification, hrowid]
    rw [Operation.withoutContent, Operation.withoutContent, hrowid]
    rfl
  write_bare hu := write_bare hu _ _

end MemoryStore

/-! ## The store in tables -/

namespace TableStore

variable {s t : TableStore}

/-- Rows that are changed in columns that are left out anyway stay the same. -/
theorem map_operations_updateRow {f g : OperationRow → OperationRow} {id : Identity}
    (h : ∀ row, g (f row) = g row) : (s.updateRow id f).operations.map g = s.operations.map g := by
  rw [updateRow, List.map_map]
  apply List.map_congr_left
  intro row _
  rw [Function.comp_apply]
  split
  · exact h row
  · rfl

theorem operations_register {name : String} {previous : OrderedSet String} {algorithm : Algorithm}
    {record : PipelineRecord} (h : s.register name previous algorithm = .ok (record, t)) :
    t.operations = s.operations := by
  obtain ⟨found, -, h⟩ := exists_of_bind_eq_ok h
  cases found with
  | none => cases h; rfl
  | some record => cases h; rfl

/-- What is read from a row has the number of the row. -/
theorem rowid_of_readRow {row : OperationRow} {r : StoredOperation} (h : s.readRow row = .ok r) :
    r.operation.rowid = some (row.rowid : Int) := by
  obtain ⟨word, -, h⟩ := exists_of_bind_eq_ok h
  obtain ⟨priority, -, h⟩ := exists_of_bind_eq_ok h
  dsimp only at h
  by_cases hpriority : (!isPriority priority) = true
  · rw [if_pos hpriority] at h
    cases h
  · rw [if_neg hpriority] at h
    obtain ⟨holds, -, h⟩ := exists_of_bind_eq_ok h
    obtain ⟨id, -, h⟩ := exists_of_bind_eq_ok h
    split at h
    · cases h
    · obtain ⟨dependencies, -, h⟩ := exists_of_bind_eq_ok h
      cases h
      rfl

theorem write_bare (u : Writing) (pipeline : Int) (w : RowWrite) :
    write pipeline u w.bare = write pipeline u w := by
  cases w <;> rfl

instance : NumberingStore TableStore where
  Row := OperationRow
  rows := operations
  number row := some row.rowid
  withoutStatus row := { row with status := "" }
  withoutContent row := { row with priority := .number 0, dependencies := "", payload := [] }
  number_withoutStatus _ := rfl
  number_withoutContent _ := rfl
  rows_register h := operations_register h
  rows_setAlgorithm {s t rowid algorithm} h := by
    have hset : s.setAlgorithm rowid algorithm = .ok t := h
    rw [setAlgorithm] at hset
    split at hset
    · cases hset
      rfl
    · cases hset
  rows_saveHolds h := by
    cases h
    rfl
  rows_close _ _ := rfl
  isSome_rowid_of_load {s rowid records} _ h r hr := by
    obtain ⟨row, -, hread⟩ := exists_of_forall₂_of_mem (forall₂_of_mapM_eq_ok h) hr
    rw [rowid_of_readRow hread]
    rfl
  write_insert {u v pipeline op} h := by
    have hwrite : write pipeline u (.insert op) = .ok v := h
    rw [write] at hwrite
    split at hwrite
    · cases hwrite
    · cases hwrite
      exact ⟨_, _, rfl, rfl, rfl⟩
  numbers_write {u v pipeline w} h hw := by
    cases w with
    | insert op => exact absurd rfl (hw op)
    | modify op => cases h; rfl
    | status id next => cases h; rfl
    | delete id => cases h; rfl
  rows_write_status {u v pipeline id next} h := by
    cases h
    exact map_operations_updateRow fun _ => rfl
  rows_write_delete {u v pipeline id} h := by
    cases h
    exact List.filter_sublist
  rows_write_modify {u v pipeline op} _ h := by
    cases h
    exact map_operations_updateRow fun _ => rfl
  write_bare _ := write_bare _ _ _

end TableStore

end OperationQueue
