/-
# What a store keeps for a pipeline

A store keeps the operations of all pipelines in one place, and a row carries the number of its
pipeline. A write is made for a pipeline too, but only a new row takes the number over. Every other
write finds its row by the identity of the operation, whoever has the row. For both stores it is
said here what such a write makes of the rows of another pipeline and of the holds beside them,
and that the rows of the pipelines carry names of which none changes unless it is registered again.
-/
import OperationQueue.Proofs.Store.Naming
import OperationQueue.Proofs.Store.RowByRow

namespace OperationQueue

/-- A store in whose rows one can look. -/
class EntryStore (σ : Type) [Store σ] [RowStore σ] where
  /-- The row of an operation, with the holds beside it. -/
  Entry : Type
  /-- The entries of a pipeline, in the order of the rows. -/
  entries : σ → Int → List Entry
  /-- Whether an entry is of the operation with an identity. -/
  isOf : Identity → Entry → Bool
  /-- The names of the pipelines; the first has row number one. -/
  names : σ → List String
  /-- What a write makes of an entry of another pipeline; nothing, if it removes the row. -/
  revise : RowWrite → Entry → Option Entry
  load_congr {s t : σ} {rowid : Int} :
    entries s rowid = entries t rowid → Store.load s rowid = Store.load t rowid
  revise_insert (op : Operation) (entry : Entry) : revise (.insert op) entry = some entry
  revise_of_not_isOf {w : RowWrite} {entry : Entry} :
    isOf w.id entry = false → revise w entry = some entry
  entries_write {u v : WorkingCopy σ} {pipeline rowid : Int} {w : RowWrite} :
    RowStore.write pipeline u w = .ok v → pipeline ≠ rowid →
      entries v.2 rowid = (entries u.2 rowid).filterMap (revise w)
  entries_close (s : σ) (snapshot : Snapshot) (rowid : Int) :
    entries (RowStore.close snapshot s) rowid = entries s rowid
  names_write {u v : WorkingCopy σ} {pipeline : Int} {w : RowWrite} :
    RowStore.write pipeline u w = .ok v → names v.2 = names u.2
  names_close (s : σ) (snapshot : Snapshot) : names (RowStore.close snapshot s) = names s
  names_saveHolds {s t : σ} {id : Identity} {holds : Holds} :
    Store.saveHolds s id holds = .ok t → names t = names s
  names_setAlgorithm {s t : σ} {rowid : Int} {algorithm : Algorithm} :
    Store.setAlgorithm s rowid algorithm = .ok t → names t = names s
  names_register {s t : σ} {name : String} {previous : OrderedSet String}
    {algorithm : Algorithm} {record : PipelineRecord} :
    Store.register s name previous algorithm = .ok (record, t) →
      (record.rowid = (names s).length + 1 ∧ names t = names s ++ [name]) ∨
        ∃ index : Nat, record.rowid = index + 1 ∧ names t = (names s).set index name ∧
          ∃ old, (names s)[index]? = some old ∧ (old = name ∨ previous.contains old = true)

namespace EntryStore

variable {σ : Type} [Store σ] [RowStore σ] [EntryStore σ] {s t : σ} {u v : WorkingCopy σ}
  {name other : String} {pipeline rowid : Int} {writes : List RowWrite}
  {changes : List PipelineChangeset}

/-! ## The rows of pipelines -/

/-- The row with a number carries a name. -/
def HasName (s : σ) (rowid : Int) (name : String) : Prop :=
  ∃ index : Nat, rowid = index + 1 ∧ (names s)[index]? = some name

theorem HasName.unique (h : HasName s rowid name) (hother : HasName s rowid other) :
    name = other := by
  obtain ⟨i, hi, hget⟩ := h
  obtain ⟨j, hj, hget'⟩ := hother
  have hij : i = j := by omega
  subst hij
  exact Option.some.inj (hget.symm.trans hget')

theorem HasName.of_names_eq (h : HasName s rowid name) (heq : names t = names s) :
    HasName t rowid name := by
  rw [HasName, heq]
  exact h

/-- Registering gives the name to a row, and all rows keep theirs that carry neither the name nor
a previous one. -/
theorem hasName_register {previous : OrderedSet String} {algorithm : Algorithm}
    {record : PipelineRecord} (h : Store.register s name previous algorithm = .ok (record, t)) :
    HasName t record.rowid name ∧ ∀ {rowid other}, HasName s rowid other → other ≠ name →
      previous.contains other = false → HasName t rowid other := by
  rcases names_register h with ⟨hrowid, hnames⟩ | ⟨index, hrowid, hnames, old, hold, hclaimed⟩
  · refine ⟨⟨(names s).length, hrowid, by simp [hnames]⟩, ?_⟩
    rintro rowid other ⟨i, hi, hget⟩ - -
    have hlt : i < (names s).length := (List.getElem?_eq_some_iff.1 hget).1
    exact ⟨i, hi, by rw [hnames, List.getElem?_append_left hlt, hget]⟩
  · have hlt : index < (names s).length := (List.getElem?_eq_some_iff.1 hold).1
    refine ⟨⟨index, hrowid, by simp [hnames, hlt]⟩, ?_⟩
    rintro rowid other ⟨i, hi, hget⟩ hne hprevious
    have hother : index ≠ i := by
      rintro rfl
      rw [hold, Option.some.injEq] at hget
      subst hget
      rcases hclaimed with heq | hcontains
      · exact hne heq
      · rw [hprevious] at hcontains
        cases hcontains
    exact ⟨i, hi, by rw [hnames, List.getElem?_set_ne hother, hget]⟩

/-! ## The writes of a commit -/

/-- What several writes make of an entry of another pipeline. -/
def reviseAll (writes : List RowWrite) (entry : Entry σ) : Option (Entry σ) :=
  writes.foldlM (fun entry w => revise w entry) entry

theorem reviseAll_append (front back : List RowWrite) (entry : Entry σ) :
    reviseAll (front ++ back) entry = (reviseAll front entry).bind (reviseAll back) := by
  rw [reviseAll, List.foldlM_append]
  rfl

/-- New rows change no entry of another pipeline. -/
theorem reviseAll_of_inserts (h : ∀ w ∈ writes, ∃ op, w = .insert op) (entry : Entry σ) :
    reviseAll writes entry = some entry := by
  induction writes with
  | nil => rfl
  | cons w rest ih =>
      obtain ⟨op, rfl⟩ := h w List.mem_cons_self
      rw [reviseAll, List.foldlM_cons, revise_insert]
      exact ih fun w hw => h w (List.mem_cons_of_mem _ hw)

/-- Writes that name other operations leave an entry alone. -/
theorem reviseAll_of_not_isOf {entry : Entry σ} (h : ∀ w ∈ writes, isOf w.id entry = false) :
    reviseAll writes entry = some entry := by
  induction writes with
  | nil => rfl
  | cons w rest ih =>
      rw [reviseAll, List.foldlM_cons, revise_of_not_isOf (h w List.mem_cons_self)]
      exact ih fun w hw => h w (List.mem_cons_of_mem _ hw)

theorem entries_writes (h : writes.foldlM (RowStore.write pipeline) u = .ok v)
    (hother : pipeline ≠ rowid) :
    entries v.2 rowid = (entries u.2 rowid).filterMap (reviseAll writes) := by
  induction writes generalizing u with
  | nil =>
      cases h
      exact List.filterMap_some.symm
  | cons w rest ih =>
      obtain ⟨copy, hw, hrest⟩ := foldlM_cons_eq_ok h
      rw [ih hrest, entries_write hw hother, List.filterMap_filterMap]
      rfl

theorem entries_writeAll (h : WorkingCopy.writeAll RowStore.write changes u = .ok v)
    (hothers : ∀ change ∈ changes, change.rowid ≠ rowid) :
    entries v.2 rowid =
      (entries u.2 rowid).filterMap (reviseAll (changes.flatMap (·.writes))) := by
  induction changes generalizing u with
  | nil =>
      cases h
      exact List.filterMap_some.symm
  | cons change rest ih =>
      obtain ⟨copy, hchange, hrest⟩ := foldlM_cons_eq_ok h
      have hlater : ∀ later ∈ rest, later.rowid ≠ rowid :=
        fun later hlater => hothers later (List.mem_cons_of_mem _ hlater)
      rw [ih hrest hlater, entries_writes hchange (hothers change List.mem_cons_self),
        List.filterMap_filterMap, List.flatMap_cons]
      apply List.filterMap_congr
      intro entry _
      exact (reviseAll_append _ _ entry).symm

/-- A commit without a change of a pipeline makes of its entries what the writes make of them. -/
theorem entries_applyChangesets {snapshot : Snapshot} {numbers : OrderedMap Identity Int}
    (h : Store.applyChangesets s snapshot changes = .ok (numbers, t))
    (hothers : ∀ change ∈ changes, change.rowid ≠ rowid) :
    entries t rowid =
      (entries s rowid).filterMap (reviseAll (changes.flatMap (·.writes))) := by
  obtain ⟨copy, hwritten, rfl⟩ := RowStore.exists_of_applyChangesets_eq_ok h
  rw [entries_close]
  exact entries_writeAll hwritten hothers

theorem names_applyChangesets {snapshot : Snapshot} {numbers : OrderedMap Identity Int}
    (h : Store.applyChangesets s snapshot changes = .ok (numbers, t)) : names t = names s := by
  obtain ⟨copy, hwritten, rfl⟩ := RowStore.exists_of_applyChangesets_eq_ok h
  rw [names_close]
  exact WorkingCopy.eq_of_writeAll names names_write hwritten

end EntryStore

/-! ## Rows that are edited -/

section Lists

variable {α β : Type}

/-- Looking at the rows of a pipeline that were edited is editing what was seen of them. -/
theorem map_filter_filterMap {edit : α → Option α} {own : α → Bool} {see see' : α → β}
    {revise : β → Option β} (hown : ∀ row next, edit row = some next → own next = own row)
    (hsee : ∀ row, (edit row).map see' = revise (see row)) (rows : List α) :
    ((rows.filterMap edit).filter own).map see' = ((rows.filter own).map see).filterMap revise := by
  induction rows with
  | nil => rfl
  | cons row rest ih =>
      have hrow := hsee row
      cases hedit : edit row with
      | none =>
          rw [hedit, Option.map_none] at hrow
          rw [List.filterMap_cons_none hedit, ih]
          by_cases hmine : own row = true
          · simp [hmine, ← hrow]
          · simp [hmine]
      | some next =>
          rw [hedit, Option.map_some] at hrow
          rw [List.filterMap_cons_some hedit]
          by_cases hmine : own row = true
          · simp [hmine, hown row next hedit, ← hrow, ih]
          · simp [hmine, hown row next hedit, ih]

/-- Overwriting a part of one row is putting the part into its place. -/
theorem map_modify_of_const {part : α → β} {f : α → α} {b : β} (hf : ∀ row, part (f row) = b)
    (rows : List α) (index : Nat) :
    (rows.modify index f).map part = (rows.map part).set index b := by
  induction rows generalizing index with
  | nil => simp
  | cons row rest ih =>
      cases index with
      | zero => simp [hf]
      | succ index => simp [ih]

theorem map_modify_of_same {part : α → β} {f : α → α} (hf : ∀ row, part (f row) = part row)
    (rows : List α) (index : Nat) : (rows.modify index f).map part = rows.map part := by
  induction rows generalizing index with
  | nil => simp
  | cons row rest ih =>
      cases index with
      | zero => simp [hf]
      | succ index => simp [ih]

/-- Changing a row and looking at a part of all rows is changing that part. -/
theorem map_modify_comm {part : α → β} {f : α → α} {g : β → β} (h : ∀ row, part (f row) = g (part row))
    (rows : List α) (index : Nat) :
    (rows.modify index f).map part = (rows.map part).modify index g := by
  induction rows generalizing index with
  | nil => simp
  | cons row rest ih =>
      cases index with
      | zero => simp [h]
      | succ index => simp [ih]

theorem mapM_congr_of_mem {f g : α → Except Error β} {xs : List α} (h : ∀ x ∈ xs, f x = g x) :
    xs.mapM f = xs.mapM g := by
  induction xs with
  | nil => rfl
  | cons x rest ih =>
      rw [List.mapM_cons, List.mapM_cons, h x List.mem_cons_self,
        ih fun y hy => h y (List.mem_cons_of_mem _ hy)]

end Lists

/-! ## The store in memory -/

namespace MemoryStore

variable {s t : MemoryStore}

/-- What is stored of the operations of a pipeline. -/
def entries (s : MemoryStore) (pipeline : Int) : List StoredOperation :=
  (s.rows.filter (·.pipeline == pipeline)).map fun row =>
    ⟨row.operation, s.holds.ofOperation row.operation.id⟩

/-- Whether a stored operation has an identity. -/
def isOf (id : Identity) (r : StoredOperation) : Bool := r.operation.id == id

/-- What a write makes of a stored operation; its holds stay or go with it. -/
def revise (w : RowWrite) (r : StoredOperation) : Option StoredOperation :=
  (w.edit r.operation).map fun op => { r with operation := op }

theorem revise_of_not_isOf {w : RowWrite} {r : StoredOperation} (h : isOf w.id r = false) :
    revise w r = some r := by
  have hother : w.id ≠ r.operation.id := fun heq => by simp [isOf, heq] at h
  rw [revise, RowWrite.edit_of_ne hother]
  rfl

theorem load_eq_entries (s : MemoryStore) (pipeline : Int) :
    s.load pipeline = (s.entries pipeline).mergeSort fun a b =>
      a.operation.snapshot ≤ b.operation.snapshot := by
  rw [load, entries]
  exact List.map_mergeSort fun a _ b _ => rfl

theorem entries_write {u v : Writing} {pipeline rowid : Int} {w : RowWrite}
    (h : write pipeline u w = .ok v) (hother : pipeline ≠ rowid) :
    v.2.entries rowid = (u.2.entries rowid).filterMap (revise w) := by
  have hnew : ((w.inserted v.1).map fun op => (⟨pipeline, op⟩ : MemoryRow)).filter
      (·.pipeline == rowid) = [] := by
    simp [hother]
  rw [entries, rows_write h, List.filter_append, hnew, List.append_nil]
  apply map_filter_filterMap
  · intro row next hedit
    obtain ⟨op, -, rfl⟩ := Option.map_eq_some_iff.1 hedit
    rfl
  · intro row
    rw [revise, Option.map_map]
    apply Option.map_congr
    intro op hedit
    have hid := (RowWrite.id_of_edit hedit).1
    have hstays : w ≠ .delete row.operation.id := fun heq => by
      rw [RowWrite.edit_eq_none_iff.2 heq] at hedit
      cases hedit
    have hholds := ofOperation_write h row.operation.id
    rw [if_neg hstays] at hholds
    simp [hid, hholds]

/-- The names of the pipelines, by their rows. -/
def names (s : MemoryStore) : List String := s.pipelines.map (·.1)

theorem names_register {name : String} {previous : OrderedSet String} {algorithm : Algorithm}
    {record : PipelineRecord} (h : s.register name previous algorithm = (record, t)) :
    (record.rowid = s.names.length + 1 ∧ t.names = s.names ++ [name]) ∨
      ∃ index : Nat, record.rowid = index + 1 ∧ t.names = s.names.set index name ∧
        ∃ old, s.names[index]? = some old ∧ (old = name ∨ previous.contains old = true) := by
  rw [register] at h
  cases hlookup : s.lookup name previous with
  | none =>
      rw [hlookup] at h
      cases h
      exact .inl ⟨by simp [names], by simp [names]⟩
  | some found =>
      rw [hlookup] at h
      cases h
      obtain ⟨stored, -, ⟨index, hindex, hget⟩, hname⟩ := isRow_of_lookup_eq_some hlookup
      have hmodified : found.rowid.toNat - 1 = index := by omega
      refine .inr ⟨index, hindex, ?_, found.name, by simp [names, hget], ?_⟩
      · have hnames : (s.pipelines.modify index fun e => (name, e.2)).map (·.1) =
            s.names.set index name := by
          apply map_modify_of_const
          exact fun _ => rfl
        rw [← hnames, ← hmodified]
        rfl
      · exact hname.imp_right And.right

instance : EntryStore MemoryStore where
  Entry := StoredOperation
  entries := entries
  isOf := isOf
  names := names
  revise := revise
  load_congr {s t rowid} h := by
    show Except.ok (s.load rowid) = Except.ok (t.load rowid)
    rw [load_eq_entries, load_eq_entries, h]
  revise_insert op r := rfl
  revise_of_not_isOf := revise_of_not_isOf
  entries_write := entries_write
  entries_close _ _ _ := rfl
  names_write {u v pipeline w} h := by
    rw [names, names, pipelines_write h]
  names_close _ _ := rfl
  names_saveHolds h := by
    cases h
    rfl
  names_setAlgorithm {s t rowid algorithm} h := by
    have hset : s.setAlgorithm rowid algorithm = .ok t := h
    rw [setAlgorithm] at hset
    split at hset
    · have hnames : (s.pipelines.modify (rowid.toNat - 1) fun e => (e.1, algorithm)).map (·.1) =
          s.names := by
        apply map_modify_of_same
        exact fun _ => rfl
      cases hset
      exact hnames
    · cases hset
  names_register {s t name previous algorithm record} h := by
    have hregister : s.register name previous algorithm = (record, t) := Except.ok.inj h
    exact names_register hregister

end MemoryStore

/-! ## The store in tables -/

namespace TableStore

variable {s t : TableStore} {name : String}

/-- A row with the dates that are written beside its identity. -/
abbrev DatedRow := OperationRow × OrderedMap String String

/-- What is written of the operations of a pipeline. -/
def entries (s : TableStore) (pipeline : Int) : List DatedRow :=
  (s.operations.filter (·.pipeline == pipeline)).map fun row =>
    (row, (s.holds.get? row.identity).getD .empty)

/-- What a write makes of the row of an operation; nothing, if it removes the row. -/
def editRow : RowWrite → OperationRow → Option OperationRow
  | .insert _, row => some row
  | .modify op, row =>
    some (if row.identity = op.id.text then
      { row with
        priority := .number op.priority
        dependencies := dependenciesText op.dependencies
        payload := op.payload }
    else row)
  | .status id next, row =>
    some (if row.identity = id.text then { row with status := next.name } else row)
  | .delete id, row => if row.identity = id.text then none else some row

/-- Whether a row is of the operation with an identity. -/
def isOf (id : Identity) (entry : DatedRow) : Bool := entry.1.identity == id.text

/-- The dates stay or go with their row. -/
def revise (w : RowWrite) (entry : DatedRow) : Option DatedRow :=
  (editRow w entry.1).map fun row => (row, entry.2)

/-- A write leaves the row of every other operation alone. -/
theorem editRow_of_ne {w : RowWrite} {row : OperationRow} (h : row.identity ≠ w.id.text) :
    editRow w row = some row := by
  cases w with
  | insert op => rfl
  | modify op =>
      rw [RowWrite.id] at h
      rw [editRow, if_neg h]
  | status id next =>
      rw [RowWrite.id] at h
      rw [editRow, if_neg h]
  | delete id =>
      rw [RowWrite.id] at h
      rw [editRow, if_neg h]

theorem revise_of_not_isOf {w : RowWrite} {entry : DatedRow} (h : isOf w.id entry = false) :
    revise w entry = some entry := by
  have hother : entry.1.identity ≠ w.id.text := by simpa [isOf] using h
  rw [revise, editRow_of_ne hother]
  rfl

/-- No write moves a row to another pipeline or identity, and a removal leaves none. -/
theorem of_editRow_eq_some {w : RowWrite} {row next : OperationRow}
    (h : editRow w row = some next) :
    next.pipeline = row.pipeline ∧ next.identity = row.identity ∧
      ∀ id, w = .delete id → row.identity ≠ id.text := by
  cases w with
  | insert op =>
      cases h
      exact ⟨rfl, rfl, fun _ hw => nomatch hw⟩
  | modify op =>
      rw [editRow, Option.some.injEq] at h
      subst h
      refine ⟨?_, ?_, fun _ hw => nomatch hw⟩ <;> split <;> rfl
  | status id next =>
      rw [editRow, Option.some.injEq] at h
      subst h
      refine ⟨?_, ?_, fun _ hw => nomatch hw⟩ <;> split <;> rfl
  | delete id =>
      rw [editRow] at h
      split at h
      · cases h
      · next hstays =>
        cases h
        refine ⟨rfl, rfl, fun other hw => ?_⟩
        cases hw
        exact hstays

theorem operations_updateRow (s : TableStore) (id : Identity) (f : OperationRow → OperationRow) :
    (s.updateRow id f).operations = s.operations.filterMap fun row =>
      some (if row.identity = id.text then f row else row) := by
  rw [updateRow, List.filterMap_eq_map']

/-- The row that a write adds, if it does. -/
def addedRows (pipeline : Int) (s : TableStore) : RowWrite → List OperationRow
  | .insert op => [rowOf (s.lastRowid + 1) pipeline op]
  | .modify _ | .status _ _ | .delete _ => []

/-- The rows after a write: each old row edited, and behind them at most a new one. -/
theorem operations_write {u v : Writing} {pipeline : Int} {w : RowWrite}
    (h : write pipeline u w = .ok v) :
    v.2.operations = u.2.operations.filterMap (editRow w) ++ addedRows pipeline u.2 w := by
  cases w with
  | insert op =>
      rw [write] at h
      split at h
      · cases h
      · cases h
        have hkept : editRow (.insert op) = some := rfl
        rw [hkept, List.filterMap_some, addedRows]
  | modify op =>
      cases h
      rw [addedRows, List.append_nil, operations_updateRow]
      rfl
  | status id next =>
      cases h
      rw [addedRows, List.append_nil, operations_updateRow]
      rfl
  | delete id =>
      cases h
      rw [addedRows, List.append_nil, ← List.filterMap_eq_filter]
      apply List.filterMap_congr
      intro row _
      by_cases hid : row.identity = id.text
      · simp [editRow, Option.guard, hid]
      · simp [editRow, Option.guard, hid]

theorem of_mem_addedRows {pipeline : Int} {w : RowWrite} {row : OperationRow}
    (h : row ∈ addedRows pipeline s w) :
    ∃ op, w = .insert op ∧ row = rowOf (s.lastRowid + 1) pipeline op := by
  cases w with
  | insert op => exact ⟨op, rfl, List.mem_singleton.1 h⟩
  | modify op => cases h
  | status id next => cases h
  | delete id => cases h

/-- Only a removal touches dates, those of its identity. -/
theorem holds_write {u v : Writing} {pipeline : Int} {w : RowWrite} {identity : String}
    (h : write pipeline u w = .ok v) (hstays : ∀ id, w = .delete id → identity ≠ id.text) :
    v.2.holds.get? identity = u.2.holds.get? identity := by
  cases w with
  | insert op =>
      rw [write] at h
      split at h
      · cases h
      · cases h
        rfl
  | modify op =>
      cases h
      rfl
  | status id next =>
      cases h
      rfl
  | delete id =>
      cases h
      exact OrderedMap.get?_erase_of_ne _ (hstays id rfl)

theorem entries_write {u v : Writing} {pipeline rowid : Int} {w : RowWrite}
    (h : write pipeline u w = .ok v) (hother : pipeline ≠ rowid) :
    v.2.entries rowid = (u.2.entries rowid).filterMap (revise w) := by
  have hnew : (addedRows pipeline u.2 w).filter (·.pipeline == rowid) = [] := by
    refine List.filter_eq_nil_iff.2 fun row hrow => ?_
    obtain ⟨op, -, rfl⟩ := of_mem_addedRows hrow
    simp [rowOf, hother]
  rw [entries, operations_write h, List.filter_append, hnew, List.append_nil]
  apply map_filter_filterMap
  · intro row next hedit
    rw [(of_editRow_eq_some hedit).1]
  · intro row
    apply Option.map_congr
    intro next hedit
    obtain ⟨-, hidentity, hstays⟩ := of_editRow_eq_some hedit
    rw [hidentity, holds_write h hstays]

/-- A row is read with the dates beside its identity. -/
theorem readRow_congr {row : OperationRow}
    (h : (s.holds.get? row.identity).getD .empty = (t.holds.get? row.identity).getD .empty) :
    s.readRow row = t.readRow row := by
  have hholds : s.readHolds row.identity = t.readHolds row.identity := by
    rw [readHolds, readHolds, h]
  rw [readRow, readRow, hholds]

theorem load_congr {rowid : Int} (h : s.entries rowid = t.entries rowid) :
    s.load rowid = t.load rowid := by
  have hrows : s.operations.filter (·.pipeline == rowid) =
      t.operations.filter (·.pipeline == rowid) := by
    have hfirst := congrArg (List.map Prod.fst) h
    simpa [entries, Function.comp_def] using hfirst
  rw [entries, entries, ← hrows, List.map_inj_left] at h
  rw [load, load, ← hrows]
  apply mapM_congr_of_mem
  intro row hrow
  exact readRow_congr (congrArg Prod.snd (h row (List.mem_mergeSort.1 hrow)))

/-- The names of the pipelines, by their rows. -/
def names (s : TableStore) : List String := s.pipelines.map (·.name)

theorem names_write {u v : Writing} {pipeline : Int} {w : RowWrite}
    (h : write pipeline u w = .ok v) : v.2.names = u.2.names := by
  cases w with
  | insert op =>
      rw [write] at h
      split at h
      · cases h
      · cases h
        rfl
  | modify op =>
      cases h
      rfl
  | status id next =>
      cases h
      rfl
  | delete id =>
      cases h
      rfl

/-- The labels of the pipelines, by their rows. -/
def labels (s : TableStore) : List (String × Cell) :=
  s.pipelines.map fun row => (row.name, row.algorithm)

theorem names_eq (s : TableStore) : s.names = s.labels.map (·.1) := by
  rw [names, labels, List.map_map]
  rfl

/-- The algorithm with a number. -/
def decode? : Cell → Option Algorithm
  | .number code => Algorithm.ofCode? code
  | _ => none

/-- A row that is found by a name carries it, with an algorithm that can be read. -/
theorem exists_label_of_findNamed {rowid : Nat} {algorithm : Algorithm}
    (h : s.findNamed name = .ok (some (rowid, algorithm))) :
    ∃ (index : Nat) (cell : Cell), rowid = index + 1 ∧ s.labels[index]? = some (name, cell) ∧
      decode? cell = some algorithm := by
  rw [findNamed] at h
  split at h
  · cases h
  · next index hindex =>
    obtain ⟨hlt, hname, -⟩ := List.findIdx?_eq_some_iff_getElem.1 hindex
    obtain ⟨code, hcode, h⟩ := exists_of_bind_eq_ok h
    rw [List.getElem?_eq_getElem hlt, Option.map_some, Option.getD_some] at hcode
    have hcell : s.pipelines[index].algorithm = .number code := by
      cases hcell : s.pipelines[index].algorithm with
      | number n =>
          rw [hcell] at hcode
          cases hcode
          rfl
      | double units =>
          rw [hcell] at hcode
          cases hcode
      | text content =>
          rw [hcell] at hcode
          cases hcode
    split at h
    · next found hfound =>
      cases h
      refine ⟨index, .number code, rfl, ?_, hfound⟩
      rw [labels, List.getElem?_map, List.getElem?_eq_getElem hlt, Option.map_some, hcell,
        beq_iff_eq.1 hname]
    · cases h

theorem notMem_of_findNamed (h : s.findNamed name = .ok none) : name ∉ s.names := by
  rw [findNamed] at h
  split at h
  · next hnone =>
    intro hmem
    obtain ⟨row, hrow, hname⟩ := List.mem_map.1 hmem
    have hnot := List.findIdx?_eq_none_iff.1 hnone row hrow
    simp [hname] at hnot
  · obtain ⟨code, -, h⟩ := exists_of_bind_eq_ok h
    split at h <;> cases h

/-- The row that is found carries the first of the names that is stored. -/
theorem exists_label_of_findFirst {candidates : List String} {record : PipelineRecord}
    (h : s.findFirst candidates = .ok (some record)) :
    ∃ before after, candidates = before ++ record.name :: after ∧ (∀ c ∈ before, c ∉ s.names) ∧
      ∃ (index : Nat) (cell : Cell) (stored : Algorithm), record = ⟨index + 1, record.name, stored⟩ ∧
        s.labels[index]? = some (record.name, cell) ∧ decode? cell = some stored := by
  induction candidates with
  | nil => cases h
  | cons candidate rest ih =>
      rw [findFirst] at h
      obtain ⟨found, hfound, h⟩ := exists_of_bind_eq_ok h
      cases found with
      | none =>
          obtain ⟨before, after, hrest, hbefore, hrow⟩ := ih h
          refine ⟨candidate :: before, after, by rw [hrest]; rfl, ?_, hrow⟩
          rintro c (_ | ⟨_, hc⟩)
          · exact notMem_of_findNamed hfound
          · exact hbefore c hc
      | some row =>
          obtain ⟨rowid, algorithm⟩ := row
          cases h
          obtain ⟨index, cell, rfl, hget, hcell⟩ := exists_label_of_findNamed hfound
          exact ⟨[], rest, rfl, List.forall_mem_nil _, index, cell, algorithm, rfl, hget, hcell⟩

theorem notMem_of_findFirst {candidates : List String} (h : s.findFirst candidates = .ok none) :
    ∀ c ∈ candidates, c ∉ s.names := by
  induction candidates with
  | nil => exact List.forall_mem_nil _
  | cons candidate rest ih =>
      rw [findFirst] at h
      obtain ⟨found, hfound, h⟩ := exists_of_bind_eq_ok h
      cases found with
      | none => exact List.forall_mem_cons.2 ⟨notMem_of_findNamed hfound, ih h⟩
      | some row => cases h

/-- A pipeline that is found has the row of its name or, if that is not stored, of a previous
name, and the algorithm of the row can be read. -/
theorem of_lookup_eq_some {previous : OrderedSet String} {record : PipelineRecord}
    (h : s.lookup name previous = .ok (some record)) :
    ∃ (index : Nat) (cell : Cell), record.rowid = index + 1 ∧
      s.labels[index]? = some (record.name, cell) ∧ decode? cell = record.storedAlgorithm ∧
      record.storedAlgorithm.isSome ∧
      (record.name = name ∨ name ∉ s.names ∧ previous.contains record.name = true) := by
  obtain ⟨before, after, hcandidates, hbefore, index, cell, stored, hrecord, hget, hcell⟩ :=
    exists_label_of_findFirst h
  have hstored : record.storedAlgorithm = some stored := by rw [hrecord]
  refine ⟨index, cell, by rw [hrecord], hget, hstored ▸ hcell, by rw [hstored]; rfl, ?_⟩
  cases before with
  | nil => exact .inl (List.cons.inj hcandidates).1.symm
  | cons first before =>
      obtain ⟨rfl, hprevious⟩ := List.cons.inj hcandidates
      have hmem : record.name ∈ previous.toList := hprevious ▸ by simp
      exact .inr ⟨hbefore _ List.mem_cons_self, OrderedSet.contains_iff_mem.2 hmem⟩

theorem names_register {previous : OrderedSet String} {algorithm : Algorithm}
    {record : PipelineRecord} (h : s.register name previous algorithm = .ok (record, t)) :
    (record.rowid = s.names.length + 1 ∧ t.names = s.names ++ [name]) ∨
      ∃ index : Nat, record.rowid = index + 1 ∧ t.names = s.names.set index name ∧
        ∃ old, s.names[index]? = some old ∧ (old = name ∨ previous.contains old = true) := by
  obtain ⟨found, hfound, h⟩ := exists_of_bind_eq_ok h
  cases found with
  | none =>
      cases h
      exact .inl ⟨by simp [names], by simp [names]⟩
  | some record =>
      cases h
      obtain ⟨index, cell, hindex, hget, -, -, hname⟩ := of_lookup_eq_some hfound
      have hmodified : record.rowid.toNat - 1 = index := by omega
      refine .inr ⟨index, hindex, ?_, record.name, ?_, hname.imp_right And.right⟩
      · have hnames : (s.pipelines.modify index fun row => { row with name := name }).map (·.name) =
            s.names.set index name := by
          apply map_modify_of_const
          exact fun _ => rfl
        rw [← hnames, ← hmodified]
        rfl
      · rw [names_eq, List.getElem?_map, hget]
        rfl

instance : EntryStore TableStore where
  Entry := DatedRow
  entries := entries
  isOf := isOf
  names := names
  revise := revise
  load_congr := load_congr
  revise_insert op entry := rfl
  revise_of_not_isOf := revise_of_not_isOf
  entries_write := entries_write
  entries_close _ _ _ := rfl
  names_write := names_write
  names_close _ _ := rfl
  names_saveHolds h := by
    cases h
    rfl
  names_setAlgorithm {s t rowid algorithm} h := by
    have hset : s.setAlgorithm rowid algorithm = .ok t := h
    rw [setAlgorithm] at hset
    split at hset
    · have hnames : (s.pipelines.modify (rowid.toNat - 1) fun row =>
          { row with algorithm := .number algorithm.code }).map (·.name) = s.names := by
        apply map_modify_of_same
        exact fun _ => rfl
      cases hset
      exact hnames
    · cases hset
  names_register := names_register

end TableStore

end OperationQueue
