/-
# What one write leaves in memory

A write is about one operation. The stored operation with its identity is edited where it
stands or loses its row, a new row comes behind the old ones, and everything else stays as
it is. A store stays sound: its rows are unfinished and numbered, each operation has one,
and only stored operations have holds.
-/
import Mathlib.Data.List.Nodup
import OperationQueue.Store.Memory
import OperationQueue.Proofs.HoldTable

namespace OperationQueue

namespace RowWrite

variable {w : RowWrite} {ws : List RowWrite} {op next : Operation} {rows : List MemoryRow}

/-- What a write makes of a stored operation; nothing, if it removes the row. -/
def edit : RowWrite → Operation → Option Operation
  | .insert _, op => some op
  | .modify m, op => some (if op.id = m.id then op.mergeModification m else op)
  | .status id next, op => some (if op.id = id then { op with status := next } else op)
  | .delete id, op => if op.id = id then none else some op

/-- What several writes make of a stored operation. -/
def editAll (ws : List RowWrite) (op : Operation) : Option Operation :=
  ws.foldlM (fun op w => w.edit op) op

theorem editAll_cons (w : RowWrite) (ws : List RowWrite) (op : Operation) :
    editAll (w :: ws) op = (w.edit op).bind (editAll ws) := rfl

theorem editAll_append (ws vs : List RowWrite) (op : Operation) :
    editAll (ws ++ vs) op = (editAll ws op).bind (editAll vs) := by
  rw [editAll, List.foldlM_append]
  rfl

/-- A write leaves every other operation alone. -/
theorem edit_of_ne (h : w.id ≠ op.id) : w.edit op = some op := by
  cases w with
  | insert new => rfl
  | modify m => exact congrArg some (if_neg (Ne.symm h))
  | status id next => exact congrArg some (if_neg (Ne.symm h))
  | delete id => exact if_neg (Ne.symm h)

theorem editAll_of_ne (h : ∀ w ∈ ws, w.id ≠ op.id) : editAll ws op = some op := by
  induction ws with
  | nil => rfl
  | cons w rest ih =>
      rw [editAll_cons, edit_of_ne (h w List.mem_cons_self)]
      exact ih fun v hv => h v (List.mem_cons_of_mem _ hv)

/-- No write moves an operation to another identity or graph. -/
theorem id_of_edit (h : w.edit op = some next) : next.id = op.id ∧ next.snapshot = op.snapshot := by
  cases w with
  | insert new =>
      cases h
      exact ⟨rfl, rfl⟩
  | modify m =>
      cases h
      split <;> exact ⟨rfl, rfl⟩
  | status id status =>
      cases h
      split <;> exact ⟨rfl, rfl⟩
  | delete id =>
      rw [edit] at h
      split at h
      · cases h
      · cases h
        exact ⟨rfl, rfl⟩

theorem edit_eq_none_iff : w.edit op = none ↔ w = .delete op.id := by
  cases w with
  | insert new => simp [edit]
  | modify m => simp [edit]
  | status id status => simp [edit]
  | delete id => simp [edit, eq_comm]

/-- Rows after a write. One that is removed leaves no gap, and all others stay in order. -/
def editRows (w : RowWrite) (rows : List MemoryRow) : List MemoryRow :=
  rows.filterMap fun row => (w.edit row.operation).map fun op => { row with operation := op }

theorem editRows_cons_of_none {row : MemoryRow} (h : w.edit row.operation = none) :
    w.editRows (row :: rows) = w.editRows rows := by
  simp [editRows, h]

theorem editRows_cons_of_some {row : MemoryRow} (h : w.edit row.operation = some op) :
    w.editRows (row :: rows) = { row with operation := op } :: w.editRows rows := by
  simp [editRows, h]

theorem exists_of_mem_editRows {row : MemoryRow} (h : row ∈ w.editRows rows) :
    ∃ old ∈ rows, w.edit old.operation = some row.operation ∧ row.pipeline = old.pipeline := by
  obtain ⟨old, hold, hedit⟩ := List.mem_filterMap.1 h
  obtain ⟨op, hop, rfl⟩ := Option.map_eq_some_iff.1 hedit
  exact ⟨old, hold, hop, rfl⟩

theorem map_id_editRows (w : RowWrite) (rows : List MemoryRow) :
    (w.editRows rows).map (·.operation.id) =
      (rows.map (·.operation.id)).filter fun id => w ≠ .delete id := by
  induction rows with
  | nil => rfl
  | cons row rest ih =>
      cases hedit : w.edit row.operation with
      | none =>
          have hdelete := edit_eq_none_iff.1 hedit
          rw [editRows_cons_of_none hedit, ih]
          simp [← hdelete]
      | some op =>
          have hdelete : w ≠ .delete row.operation.id := fun heq => by
            rw [edit_eq_none_iff.2 heq] at hedit
            cases hedit
          rw [editRows_cons_of_some hedit, List.map_cons, ih, (id_of_edit hedit).1]
          simp [hdelete]

/-- The new row of a write, with the number that it got. -/
def inserted (assigned : OrderedMap Identity Int) : RowWrite → List Operation
  | .insert op => [{ op with rowid := assigned.get? op.id }]
  | _ => []

/-- A write that a pipeline may make: about an operation of its own, and none that would
store a finished operation or a staged status. -/
structure IsSound (owner : Identity → Int) (pipeline : Int) (w : RowWrite) : Prop where
  owned : owner w.id = pipeline
  inserts : ∀ op, w = .insert op → op.isTerminal = false ∧ op.staged = none
  moves : ∀ id next, w = .status id next → next.isTerminal = false

end RowWrite

namespace MemoryStore

variable {owner : Identity → Int} {pipeline other : Int} {s t : MemoryStore}
  {a b : OrderedMap Identity Int} {w : RowWrite} {ws : List RowWrite} {snapshot : Snapshot}

/-- The stored operations of a pipeline in the graph of a snapshot, in the order of their
rows. -/
def operationsAt (s : MemoryStore) (pipeline : Int) (snapshot : Snapshot) : List Operation :=
  (s.rows.filter fun row => row.pipeline == pipeline && row.operation.snapshot == snapshot).map
    (·.operation)

theorem mem_operationsAt_iff {op : Operation} :
    op ∈ s.operationsAt pipeline snapshot ↔
      ∃ row ∈ s.rows, row.pipeline = pipeline ∧ row.operation.snapshot = snapshot ∧
        row.operation = op := by
  simp only [operationsAt, List.mem_map, List.mem_filter, Bool.and_eq_true, beq_iff_eq, and_assoc]

/-- What a store may hold: rows of unfinished operations that are numbered, each operation
once and with its owner, and holds of stored operations only. -/
structure IsSound (owner : Identity → Int) (s : MemoryStore) : Prop where
  owned : ∀ row ∈ s.rows, owner row.operation.id = row.pipeline
  nodup : (s.rows.map (·.operation.id)).Nodup
  numbered : ∀ row ∈ s.rows, row.operation.rowid ≠ none
  unfinished : ∀ row ∈ s.rows, row.operation.isTerminal = false
  unstaged : ∀ row ∈ s.rows, row.operation.staged = none
  held : ∀ id, id ∉ s.rows.map (·.operation.id) → s.holds.ofOperation id = .empty

theorem isSound_empty (owner : Identity → Int) : MemoryStore.empty.IsSound owner where
  owned row h := by cases h
  nodup := List.nodup_nil
  numbered row h := by cases h
  unfinished row h := by cases h
  unstaged row h := by cases h
  held id _ := rfl

/-- A stored operation may get other holds. -/
theorem IsSound.replaceHolds (hs : s.IsSound owner) {id : Identity}
    (hid : id ∈ s.rows.map (·.operation.id)) (holds : OrderedMap String Instant) :
    ({ s with holds := s.holds.replace id holds } : MemoryStore).IsSound owner where
  owned := hs.owned
  nodup := hs.nodup
  numbered := hs.numbered
  unfinished := hs.unfinished
  unstaged := hs.unstaged
  held other hother := by
    have hne : other ≠ id := by
      rintro rfl
      exact hother hid
    exact (HoldTable.ofOperation_replace_of_ne hne holds).trans (hs.held other hother)

/-! ## One write -/

/-- An insertion succeeds for an operation without a row, which gets the next number. -/
theorem of_write_insert_eq_ok {op : Operation} {v : Writing}
    (h : write pipeline (a, s) (.insert op) = .ok v) :
    s.isStored op.id = false ∧ v = (a.insert op.id (s.lastRowid + 1),
      { s with
        lastRowid := s.lastRowid + 1
        rows := s.rows ++ [⟨pipeline, { op with rowid := some (s.lastRowid + 1) }⟩] }) := by
  rw [write] at h
  split at h
  · cases h
  · next hstored =>
    cases h
    exact ⟨Bool.eq_false_iff.2 hstored, rfl⟩

private theorem rows_updateRow (s : MemoryStore) (id : Identity) (f : Operation → Operation) :
    (s.updateRow id f).rows = s.rows.map fun row =>
      { row with operation := if row.operation.id = id then f row.operation else row.operation } := by
  rw [updateRow]
  apply List.map_congr_left
  intro row _
  split <;> rfl

/-- The rows after a write: each old row edited, and behind them the new one. -/
theorem rows_write (h : write pipeline (a, s) w = .ok (b, t)) :
    t.rows = w.editRows s.rows ++ (w.inserted b).map fun op => ⟨pipeline, op⟩ := by
  cases w with
  | insert op =>
      obtain ⟨-, heq⟩ := of_write_insert_eq_ok h
      cases heq
      simp [RowWrite.editRows, RowWrite.edit, RowWrite.inserted]
  | modify m =>
      cases h
      simp only [rows_updateRow, RowWrite.editRows, RowWrite.edit, RowWrite.inserted,
        Option.map_some, List.map_nil, List.append_nil, List.filterMap_eq_map']
  | status id next =>
      cases h
      simp only [rows_updateRow, RowWrite.editRows, RowWrite.edit, RowWrite.inserted,
        Option.map_some, List.map_nil, List.append_nil, List.filterMap_eq_map']
  | delete id =>
      cases h
      simp only [RowWrite.editRows, RowWrite.edit, RowWrite.inserted, List.map_nil, List.append_nil]
      rw [← List.filterMap_eq_filter]
      apply List.filterMap_congr
      intro row _
      by_cases hid : row.operation.id = id
      · simp [Option.guard, hid]
      · simp [Option.guard, hid]

theorem isStored_of_write {op : Operation}
    (h : write pipeline (a, s) (.insert op) = .ok (b, t)) :
    op.id ∉ s.rows.map (·.operation.id) ∧ b.get? op.id ≠ none := by
  obtain ⟨hstored, heq⟩ := of_write_insert_eq_ok h
  cases heq
  constructor
  · intro hmem
    obtain ⟨row, hrow, hid⟩ := List.mem_map.1 hmem
    rw [isStored, List.any_eq_false] at hstored
    exact hstored row hrow (beq_iff_eq.2 hid)
  · simp

/-- An edit does not move an operation to another graph. -/
private theorem operationsAt_editRows (w : RowWrite) (rows : List MemoryRow) (other : Int)
    (snapshot : Snapshot) :
    ((w.editRows rows).filter fun row =>
        row.pipeline == other && row.operation.snapshot == snapshot).map (·.operation) =
      ((rows.filter fun row => row.pipeline == other && row.operation.snapshot == snapshot).map
        (·.operation)).filterMap w.edit := by
  induction rows with
  | nil => rfl
  | cons row rest ih =>
      cases hedit : w.edit row.operation with
      | none =>
          rw [RowWrite.editRows_cons_of_none hedit, ih]
          by_cases hrow : (row.pipeline == other && row.operation.snapshot == snapshot) = true
          · simp [hrow, hedit]
          · simp [hrow]
      | some op =>
          have hsnapshot := (RowWrite.id_of_edit hedit).2
          rw [RowWrite.editRows_cons_of_some hedit]
          by_cases hrow : (row.pipeline == other && row.operation.snapshot == snapshot) = true
          · simp [hrow, hsnapshot, hedit, ih]
          · simp [hrow, hsnapshot, ih]

/-- What a pipeline has stored in a graph after a write for it or for another one. -/
theorem operationsAt_write (h : write pipeline (a, s) w = .ok (b, t)) (other : Int)
    (snapshot : Snapshot) :
    t.operationsAt other snapshot = (s.operationsAt other snapshot).filterMap w.edit ++
      if pipeline = other then (w.inserted b).filter (·.snapshot == snapshot) else [] := by
  have hnew (ops : List Operation) :
      ((ops.map fun op => (⟨pipeline, op⟩ : MemoryRow)).filter fun row =>
          row.pipeline == other && row.operation.snapshot == snapshot).map (·.operation) =
        if pipeline = other then ops.filter (·.snapshot == snapshot) else [] := by
    by_cases hpipeline : pipeline = other
    · simp [hpipeline, List.filter_map, Function.comp_def]
    · simp [hpipeline, List.filter_map, Function.comp_def]
  rw [operationsAt, rows_write h, List.filter_append, List.map_append, operationsAt_editRows, hnew]
  rfl

/-- Only a removal touches holds, those of its operation. -/
theorem ofOperation_write (h : write pipeline (a, s) w = .ok (b, t)) (id : Identity) :
    t.holds.ofOperation id = if w = .delete id then .empty else s.holds.ofOperation id := by
  cases w with
  | insert op =>
      obtain ⟨-, heq⟩ := of_write_insert_eq_ok h
      cases heq
      simp
  | modify m =>
      cases h
      simp [updateRow]
  | status other next =>
      cases h
      simp [updateRow]
  | delete other =>
      cases h
      by_cases hid : id = other
      · simp [hid]
      · simp [HoldTable.ofOperation_remove_of_ne hid, Ne.symm hid]

theorem get?_assigned_write (h : write pipeline (a, s) w = .ok (b, t)) {id : Identity}
    (hid : w.id ≠ id) : b.get? id = a.get? id := by
  cases w with
  | insert op =>
      obtain ⟨-, heq⟩ := of_write_insert_eq_ok h
      cases heq
      exact OrderedMap.get?_insert_of_ne _ (Ne.symm hid) _
  | modify m =>
      cases h
      rfl
  | status other next =>
      cases h
      rfl
  | delete other =>
      cases h
      rfl

/-- The rows that a write leaves: old ones that were edited, and the new one. -/
private theorem mem_rows_write (h : write pipeline (a, s) w = .ok (b, t)) {row : MemoryRow}
    (hrow : row ∈ t.rows) :
    (∃ old ∈ s.rows, w.edit old.operation = some row.operation ∧ row.pipeline = old.pipeline) ∨
      ∃ op, w = .insert op ∧ row = ⟨pipeline, { op with rowid := b.get? op.id }⟩ := by
  rw [rows_write h] at hrow
  rcases List.mem_append.1 hrow with hrow | hrow
  · exact .inl (RowWrite.exists_of_mem_editRows hrow)
  · obtain ⟨op, hop, rfl⟩ := List.mem_map.1 hrow
    cases w with
    | insert new =>
        rw [RowWrite.inserted, List.mem_singleton] at hop
        exact .inr ⟨new, rfl, by rw [hop]⟩
    | modify m => cases hop
    | status id next => cases hop
    | delete id => cases hop

/-- An edit by a sound write keeps what every stored operation has. -/
private theorem sound_edit (hw : w.IsSound owner pipeline) {op next : Operation}
    (h : w.edit op = some next) (hnumbered : op.rowid ≠ none) (hunfinished : op.isTerminal = false) :
    next.rowid ≠ none ∧ next.isTerminal = false ∧ next.staged = op.staged := by
  cases w with
  | insert new =>
      cases h
      exact ⟨hnumbered, hunfinished, rfl⟩
  | modify m =>
      cases h
      split
      · refine ⟨?_, hunfinished, rfl⟩
        cases hrowid : op.rowid with
        | none => exact absurd hrowid hnumbered
        | some n => simp [Operation.mergeModification, hrowid]
      · exact ⟨hnumbered, hunfinished, rfl⟩
  | status id status =>
      cases h
      split
      · exact ⟨hnumbered, hw.moves id status rfl, rfl⟩
      · exact ⟨hnumbered, hunfinished, rfl⟩
  | delete id =>
      rw [RowWrite.edit] at h
      split at h
      · cases h
      · cases h
        exact ⟨hnumbered, hunfinished, rfl⟩

private theorem ids_write (h : write pipeline (a, s) w = .ok (b, t)) :
    t.rows.map (·.operation.id) =
      ((s.rows.map (·.operation.id)).filter fun id => w ≠ .delete id) ++
        (w.inserted b).map (·.id) := by
  rw [rows_write h, List.map_append, RowWrite.map_id_editRows, List.map_map]
  rfl

/-- A sound write keeps a store sound. -/
theorem IsSound.write (hs : s.IsSound owner) (hw : w.IsSound owner pipeline)
    (h : MemoryStore.write pipeline (a, s) w = .ok (b, t)) : t.IsSound owner := by
  have hids := ids_write h
  refine ⟨fun row hrow => ?_, ?_, fun row hrow => ?_, fun row hrow => ?_, fun row hrow => ?_,
    fun id hid => ?_⟩
  · rcases mem_rows_write h hrow with ⟨old, hold, hedit, hpipeline⟩ | ⟨op, rfl, rfl⟩
    · rw [(RowWrite.id_of_edit hedit).1, hpipeline]
      exact hs.owned old hold
    · exact hw.owned
  · rw [hids]
    cases w with
    | insert op =>
        have hnew : op.id ∉ s.rows.map (·.operation.id) := (isStored_of_write h).1
        rw [List.nodup_append]
        refine ⟨hs.nodup.filter _, List.nodup_singleton _, fun x hx y hy heq => hnew ?_⟩
        rw [RowWrite.inserted, List.map_singleton, List.mem_singleton] at hy
        rw [← hy, ← heq]
        exact (List.mem_filter.1 hx).1
    | modify m => simpa [RowWrite.inserted] using hs.nodup
    | status id next => simpa [RowWrite.inserted] using hs.nodup
    | delete id =>
        have hnone : (RowWrite.delete id).inserted b = [] := rfl
        rw [hnone, List.map_nil, List.append_nil]
        exact hs.nodup.filter _
  · rcases mem_rows_write h hrow with ⟨old, hold, hedit, -⟩ | ⟨op, rfl, rfl⟩
    · exact (sound_edit hw hedit (hs.numbered old hold) (hs.unfinished old hold)).1
    · exact (isStored_of_write h).2
  · rcases mem_rows_write h hrow with ⟨old, hold, hedit, -⟩ | ⟨op, rfl, rfl⟩
    · exact (sound_edit hw hedit (hs.numbered old hold) (hs.unfinished old hold)).2.1
    · exact (hw.inserts op rfl).1
  · rcases mem_rows_write h hrow with ⟨old, hold, hedit, -⟩ | ⟨op, rfl, rfl⟩
    · exact (sound_edit hw hedit (hs.numbered old hold) (hs.unfinished old hold)).2.2.trans
        (hs.unstaged old hold)
    · exact (hw.inserts op rfl).2
  · rw [ofOperation_write h]
    split
    · rfl
    · next hstays =>
      apply hs.held
      intro hmem
      apply hid
      rw [hids]
      exact List.mem_append_left _ (List.mem_filter.2 ⟨hmem, by simpa using hstays⟩)

end MemoryStore

end OperationQueue
