/-
# Tables that mirror a store in memory

A store in memory keeps operations as they are, and a store in tables keeps texts and numbers for
them. The tables mirror the store in memory if each of its rows is written in them, in the same
order, and its holds beside them. Every write that a commit can make keeps this, or fails in both
stores, because equal identities have equal texts; and what is written is read back, but for a date
in a leap second inside a minute. So nobody who makes calls about operations can tell the two stores
apart, unless an operation is loaded that is held until such a date.
-/
import OperationQueue.Proofs.Commit
import OperationQueue.Proofs.Commit.Changeset
import OperationQueue.Proofs.HoldTable
import OperationQueue.Proofs.Store.Calls
import OperationQueue.Proofs.Store.Reading

namespace OperationQueue

/-! ## Calls that can be mirrored -/

/-- A commit that a table can take: somebody can have made it, and its numbers fit. -/
structure Commit.IsStorable (c : Commit) : Prop where
  made : c.Made
  snapshot : c.snapshot.toNat < 2 ^ 63
  targets : ∀ target ∈ c.inserted.keys, target.toNat < 2 ^ 63
  priority : ∀ op ∈ c.newOperations ++ c.modified, TableStore.isPriority op.priority = true

/-- A write that a table can take. -/
def RowWrite.IsStorable : RowWrite → Prop
  | .insert op => op.IsStorable ∧ op.staged = none
  | .modify op => op.Made ∧ TableStore.isPriority op.priority = true
  | .status _ _ | .delete _ => True

/-- A date whose text can be read: its year has four digits. Its nanoseconds are those of a second
or of a leap second after it, as they are for every date. -/
structure Instant.IsStorable (date : Instant) : Prop where
  year : date.HasPlainYear
  nanos : date.nanos < 2000000000

instance : DecidablePred Instant.IsStorable := fun date =>
  decidable_of_iff (date.HasPlainYear ∧ date.nanos < 2000000000)
    ⟨fun h => ⟨h.1, h.2⟩, fun h => ⟨h.year, h.nanos⟩⟩

/-- A date that its text tells: it can be read, and lies in no leap second inside a minute. -/
def Instant.IsLossless (date : Instant) : Prop := date.IsStorable ∧ ¬ date.IsInnerLeap

/-- The dates that a call gives to a store. -/
def OperationCall.dates : OperationCall → List Instant
  | .saveHolds _ holds => holds.values
  | .apply _ _ | .load _ | .lastSnapshot => []

/-- A call about operations in stores with some number of pipelines. Commits are for pipelines
that exist, under numbers that fit in a signed word, and dates have a year of four digits. -/
def OperationCall.IsAdmissible (count : Nat) : OperationCall → Prop
  | .apply snapshot commits =>
    snapshot.toNat < 2 ^ 63 ∧
      ∀ e ∈ commits, (1 ≤ e.1 ∧ e.1 ≤ count) ∧ e.2.IsStorable
  | .saveHolds _ holds => ∀ date ∈ holds.values, date.IsStorable
  | .load _ | .lastSnapshot => True

namespace Commit

variable {c : Commit}

theorem IsStorable.snapshot_lt (h : c.IsStorable) {op : Operation} (hop : op ∈ c.newOperations) :
    op.snapshot.toNat < 2 ^ 63 := by
  have hconsistent := h.made.built.isConsistent
  rcases mem_newOperations_iff.1 hop with ⟨target, ops, hops, hmem⟩ | hadded
  · rw [hconsistent.inserted hops op hmem]
    exact h.targets target (OrderedMap.mem_keys_iff.2 ⟨ops, hops⟩)
  · rw [hconsistent.added op hadded]
    exact h.snapshot

/-- A table can take every write of a commit that it can take. -/
theorem IsStorable.of_mem_changeset (h : c.IsStorable) {w : RowWrite} (hw : w ∈ c.changeset) :
    w.IsStorable := by
  have hmade := h.made.allMade
  rw [changeset_eq, newRows, revisions] at hw
  rcases List.mem_append.1 hw with hw | hw
  · obtain ⟨row, hrow, rfl⟩ := List.mem_map.1 hw
    obtain ⟨op, hop, rfl⟩ := List.mem_map.1 hrow
    have hnew : op ∈ c.newOperations := (List.mem_filter.1 hop).1
    have hsnapshot : op.snapshot.toNat < 2 ^ 63 := h.snapshot_lt hnew
    refine ⟨⟨(hmade.new op hnew).of_eq rfl rfl, hsnapshot, ?_⟩, rfl⟩
    exact h.priority op (List.mem_append_left _ hnew)
  · rcases List.mem_append.1 hw with hw | hw
    · obtain ⟨op, hop, rfl⟩ := List.mem_map.1 hw
      have hmodified : op ∈ c.modified := (List.mem_filter.1 hop).1
      exact ⟨hmade.modified op hmodified, h.priority op (List.mem_append_right _ hmodified)⟩
    · obtain ⟨e, -, rfl⟩ := List.mem_map.1 hw
      rw [statusWrite]
      split <;> trivial

end Commit

/-! ## Rows that are written -/

/-- The row of a table for a row in memory. -/
def MemoryRow.written (row : MemoryRow) : OperationRow :=
  TableStore.rowOf (row.operation.rowid.getD 0).toNat row.pipeline row.operation

theorem MemoryRow.identity_written (row : MemoryRow) :
    row.written.identity = row.operation.id.text := rfl

/-- What is read from the row of a stored operation and the texts of its holds. -/
def StoredOperation.reread (r : StoredOperation) : StoredOperation :=
  { r with holds := r.holds.reread }

/-- A row in memory that has a number, and that a table can hold. -/
structure MemoryRow.IsStorable (row : MemoryRow) : Prop where
  operation : row.operation.IsStorable
  staged : row.operation.staged = none
  numbered : ∃ rowid : Nat, row.operation.rowid = some (rowid : Int)

/-- Tables that have written what a store in memory keeps, both with the same number of pipelines
and with dates of some kind only. Before the first commit no number is written, and it counts as
zero. -/
structure Mirrors (count : Nat) (Allowed : Instant → Prop) (m : MemoryStore) (t : TableStore) :
    Prop where
  pipelines : m.pipelines.length = count
  pipelines_tables : t.pipelines.length = count
  rows : t.operations = m.rows.map MemoryRow.written
  storable : ∀ row ∈ m.rows, row.IsStorable
  lastRowid : t.lastRowid = m.lastRowid
  holds : ∀ id : Identity,
    t.holds.get? id.text = (m.holds.byOperation.get? id).map TableStore.writtenDates
  dates : ∀ id, ∀ date ∈ (m.holds.ofOperation id).values, Allowed date
  lastSnapshot : t.lastSnapshot.getD (.number 0) = .number m.lastSnapshot.toNat
  snapshot_lt : m.lastSnapshot.toNat < 2 ^ 63

namespace Mirrors

variable {count : Nat} {Allowed : Instant → Prop} {m : MemoryStore} {t : TableStore}
  {id : Identity}

/-- A row is found by its identity in both stores, or in none. -/
theorem any_identity (h : Mirrors count Allowed m t) (id : Identity) :
    t.operations.any (·.identity == id.text) = m.isStored id := by
  have hfound : ((fun row => row.identity == id.text) ∘ MemoryRow.written) =
      fun row => row.operation.id == id := by
    funext row
    rw [Bool.eq_iff_iff, Function.comp_apply, beq_iff_eq, beq_iff_eq, MemoryRow.identity_written,
      Identity.text_inj]
  rw [h.rows, List.any_map, hfound, MemoryStore.isStored]

theorem hasPipeline_eq_true (h : Mirrors count Allowed m t) {rowid : Int}
    (hrowid : 1 ≤ rowid ∧ rowid ≤ count) : t.hasPipeline rowid = true := by
  rw [TableStore.hasPipeline, h.pipelines_tables, Bool.and_eq_true, decide_eq_true_iff,
    decide_eq_true_iff]
  exact hrowid

/-! ## Writes -/

/-- A new row is written with the next number. -/
theorem insert (h : Mirrors count Allowed m t) {op : Operation} (hop : op.IsStorable)
    (hstaged : op.staged = none) (pipeline : Int) :
    Mirrors count Allowed
      { m with
        lastRowid := m.lastRowid + 1
        rows := m.rows ++ [⟨pipeline, { op with rowid := some ((m.lastRowid + 1 : Nat) : Int) }⟩] }
      { t with
        lastRowid := m.lastRowid + 1
        operations := t.operations ++ [TableStore.rowOf (m.lastRowid + 1) pipeline op] } where
  pipelines := h.pipelines
  pipelines_tables := h.pipelines_tables
  rows := by
    rw [h.rows, List.map_append]
    rfl
  storable row hrow := by
    rcases List.mem_append.1 hrow with hold | hnew
    · exact h.storable row hold
    · rw [List.mem_singleton.1 hnew]
      exact ⟨⟨hop.made.of_eq rfl rfl, hop.snapshot, hop.priority⟩, hstaged, _, rfl⟩
  lastRowid := rfl
  holds := h.holds
  dates := h.dates
  lastSnapshot := h.lastSnapshot
  snapshot_lt := h.snapshot_lt

/-- A row that is changed is changed where it is written. -/
theorem updateRow (h : Mirrors count Allowed m t) {f : Operation → Operation}
    {g : OperationRow → OperationRow}
    (hwritten : ∀ row ∈ m.rows, row.operation.id = id →
      MemoryRow.written { row with operation := f row.operation } = g row.written ∧
        MemoryRow.IsStorable { row with operation := f row.operation }) :
    Mirrors count Allowed (m.updateRow id f) (t.updateRow id g) where
  pipelines := h.pipelines
  pipelines_tables := h.pipelines_tables
  rows := by
    rw [TableStore.updateRow, MemoryStore.updateRow, h.rows, List.map_map, List.map_map]
    apply List.map_congr_left
    intro row hrow
    have hfound : row.written.identity = id.text ↔ row.operation.id = id := by
      rw [MemoryRow.identity_written, Identity.text_inj]
    by_cases hid : row.operation.id = id
    · rw [Function.comp_apply, Function.comp_apply, if_pos (hfound.2 hid), if_pos hid]
      exact (hwritten row hrow hid).1.symm
    · rw [Function.comp_apply, Function.comp_apply, if_neg (mt hfound.1 hid), if_neg hid]
  storable row hrow := by
    obtain ⟨old, hold, rfl⟩ := List.mem_map.1 hrow
    split
    · next hid => exact (hwritten old hold hid).2
    · exact h.storable old hold
  lastRowid := h.lastRowid
  holds := h.holds
  dates := h.dates
  lastSnapshot := h.lastSnapshot
  snapshot_lt := h.snapshot_lt

/-- Holds that replace others are written, or removed if there are none. -/
theorem replaceHolds (h : Mirrors count Allowed m t) {holds : Holds}
    (hdates : ∀ date ∈ holds.values, Allowed date) (id : Identity) :
    Mirrors count Allowed { m with holds := m.holds.replace id holds } (t.saveHolds id holds) where
  pipelines := h.pipelines
  pipelines_tables := h.pipelines_tables
  rows := h.rows
  storable := h.storable
  lastRowid := h.lastRowid
  holds other := by
    rw [TableStore.saveHolds]
    by_cases hother : other = id
    · subst hother
      rw [HoldTable.get?_replace_self]
      by_cases hempty : holds.isEmpty = true
      · simp [hempty]
      · simp [hempty, TableStore.writtenDates]
    · have htext : other.text ≠ id.text := mt Identity.text_inj.1 hother
      rw [HoldTable.get?_replace_of_ne hother, ← h.holds]
      split
      · exact OrderedMap.get?_erase_of_ne _ htext
      · exact OrderedMap.get?_insert_of_ne _ htext _
  dates other := by
    by_cases hother : other = id
    · subst hother
      rw [HoldTable.ofOperation_replace_self]
      exact hdates
    · rw [HoldTable.ofOperation_replace_of_ne hother]
      exact h.dates other
  lastSnapshot := h.lastSnapshot
  snapshot_lt := h.snapshot_lt

/-- A row that is removed is removed where it is written. -/
theorem removeRow (h : Mirrors count Allowed m t) (id : Identity) :
    Mirrors count Allowed { m with rows := m.rows.filter fun row => row.operation.id != id }
      { t with operations := t.operations.filter fun row => row.identity != id.text } where
  pipelines := h.pipelines
  pipelines_tables := h.pipelines_tables
  rows := by
    rw [h.rows, List.filter_map]
    refine congrArg (List.map MemoryRow.written) (List.filter_congr fun row _ => ?_)
    rw [Bool.eq_iff_iff, Function.comp_apply, bne_iff_ne, bne_iff_ne, MemoryRow.identity_written,
      ne_eq, Identity.text_inj]
  storable row hrow := h.storable row (List.mem_filter.1 hrow).1
  lastRowid := h.lastRowid
  holds := h.holds
  dates := h.dates
  lastSnapshot := h.lastSnapshot
  snapshot_lt := h.snapshot_lt

/-- A write is made in both stores, with the same number for a new row, or fails in both. -/
theorem write (h : Mirrors count Allowed m t) (assigned : OrderedMap Identity Int) {pipeline : Int}
    (hpipeline : 1 ≤ pipeline ∧ pipeline ≤ count) {w : RowWrite} (hw : w.IsStorable) :
    Alike (fun u v => u.1 = v.1 ∧ Mirrors count Allowed u.2 v.2)
      (MemoryStore.write pipeline (assigned, m) w) (TableStore.write pipeline (assigned, t) w) := by
  cases w with
  | insert op =>
      obtain ⟨hop, hstaged⟩ := hw
      -- Tables look for the pipeline as well, and it is there.
      rw [MemoryStore.write, TableStore.write, h.any_identity, h.hasPipeline_eq_true hpipeline,
        h.lastRowid, Bool.not_true, Bool.false_or]
      cases m.isStored op.id with
      | true => exact .error _ _
      | false => exact .ok ⟨rfl, h.insert hop hstaged pipeline⟩
  | modify op =>
      obtain ⟨hop, hpriority⟩ := hw
      refine .ok ⟨rfl, ?_⟩
      dsimp only
      refine h.updateRow fun row hrow hid => ?_
      obtain ⟨hold, hstaged, rowid, hrowid⟩ := h.storable row hrow
      rw [MemoryRow.written, MemoryRow.written, Operation.mergeModification, hrowid]
      exact ⟨rfl, ⟨hop.of_eq hid rfl, hold.snapshot, hpriority⟩, hstaged, rowid, rfl⟩
  | status id next =>
      refine .ok ⟨rfl, ?_⟩
      dsimp only
      refine h.updateRow fun row hrow _ => ⟨rfl, ?_⟩
      obtain ⟨hold, hstaged, hnumbered⟩ := h.storable row hrow
      exact ⟨⟨hold.made.of_eq rfl rfl, hold.snapshot, hold.priority⟩, hstaged, hnumbered⟩
  | delete id =>
      -- The holds go with the row, as if they were replaced by none.
      have hnone : ∀ date ∈ (OrderedMap.empty : Holds).values, Allowed date := List.forall_mem_nil _
      exact .ok ⟨rfl, (h.removeRow id).replaceHolds hnone id⟩

theorem writeAll {changes : List PipelineChangeset} (h : Mirrors count Allowed m t)
    (hchanges : ∀ change ∈ changes, (1 ≤ change.rowid ∧ change.rowid ≤ count) ∧
      ∀ w ∈ change.writes, w.IsStorable) :
    Alike (fun u v => u.1 = v.1 ∧ Mirrors count Allowed u.2 v.2)
      (WorkingCopy.writeAll RowStore.write changes (.empty, m))
      (WorkingCopy.writeAll RowStore.write changes (.empty, t)) := by
  refine Alike.foldlM (fun change hchange u v huv => ?_) ⟨rfl, h⟩
  obtain ⟨hpipeline, hwrites⟩ := hchanges change hchange
  refine Alike.foldlM (fun w hw u v huv => ?_) huv
  obtain ⟨assigned, m⟩ := u
  obtain ⟨assigned', t⟩ := v
  obtain ⟨rfl, h⟩ := huv
  exact h.write assigned hpipeline (hwrites w hw)

/-- The larger number is the number of the last commit in both stores. -/
theorem close (h : Mirrors count Allowed m t) {snapshot : Snapshot}
    (hsnapshot : snapshot.toNat < 2 ^ 63) :
    Mirrors count Allowed (RowStore.close snapshot m) (RowStore.close snapshot t) := by
  have hlast := h.lastSnapshot
  have hmax := Snapshot.toNat_max m.lastSnapshot snapshot
  have hfits : (max m.lastSnapshot snapshot).toNat < 2 ^ 63 := by
    rw [hmax]
    exact Nat.max_lt.2 ⟨h.snapshot_lt, hsnapshot⟩
  have hclosed : (TableStore.close snapshot t).lastSnapshot =
      some (.number (max m.lastSnapshot.toNat snapshot.toNat : Nat)) := by
    rw [TableStore.close, Snapshot.toWord_eq hsnapshot]
    cases hcell : t.lastSnapshot with
    | none =>
        -- Nothing was written yet, so the last number in memory is zero.
        rw [hcell, Option.getD_none, Cell.number.injEq] at hlast
        have hzero : max m.lastSnapshot.toNat snapshot.toNat = snapshot.toNat := by omega
        rw [hzero]
        rfl
    | some cell =>
        rw [hcell, Option.getD_some] at hlast
        rw [hlast, Option.elim_some, Cell.raise_number]
        by_cases hlt : (m.lastSnapshot.toNat : Int) < snapshot.toNat
        · rw [if_pos hlt, Nat.max_eq_right (by omega)]
        · rw [if_neg hlt, Nat.max_eq_left (by omega)]
  exact ⟨h.pipelines, h.pipelines_tables, h.rows, h.storable, h.lastRowid, h.holds, h.dates,
    (congrArg (Option.getD · _) hclosed).trans (congrArg (fun n : Nat => Cell.number n) hmax.symm),
    hfits⟩

/-! ## Calls -/

theorem applyChangesets (h : Mirrors count Allowed m t) {snapshot : Snapshot}
    (hsnapshot : snapshot.toNat < 2 ^ 63) {changes : List PipelineChangeset}
    (hchanges : ∀ change ∈ changes, (1 ≤ change.rowid ∧ change.rowid ≤ count) ∧
      ∀ w ∈ change.writes, w.IsStorable) :
    Alike (fun u v => u.1 = v.1 ∧ Mirrors count Allowed u.2 v.2)
      (Store.applyChangesets m snapshot changes) (Store.applyChangesets t snapshot changes) := by
  rw [RowStore.applyChangesets_eq, RowStore.applyChangesets_eq]
  exact (h.writeAll hchanges).map fun related => ⟨related.1, related.2.close hsnapshot⟩

/-- A row that is written is read back with its holds, as their texts tell them. -/
theorem readRow_written (h : Mirrors count Allowed m t)
    (hallowed : ∀ date, Allowed date → date.IsStorable) {row : MemoryRow} (hrow : row ∈ m.rows) :
    t.readRow row.written =
      .ok (StoredOperation.reread ⟨row.operation, m.holds.ofOperation row.operation.id⟩) := by
  obtain ⟨hop, hstaged, rowid, hrowid⟩ := h.storable row hrow
  have hdates : ∀ date ∈ (m.holds.ofOperation row.operation.id).values, date.IsStorable :=
    fun date hdate => hallowed date (h.dates _ date hdate)
  have hholds : t.readHolds row.operation.id.text =
      .ok (m.holds.ofOperation row.operation.id).reread := by
    refine TableStore.readHolds_writtenDates ?_ (fun date hdate => (hdates date hdate).year)
      fun date hdate => (hdates date hdate).nanos
    rw [h.holds, HoldTable.ofOperation]
    cases m.holds.byOperation.get? row.operation.id with
    | none => rfl
    | some holds => rfl
  have hread := TableStore.readRow_rowOf hop hstaged hholds rowid row.pipeline
  rw [← hrowid] at hread
  rw [MemoryRow.written, hrowid]
  exact hread

/-- The operations of a pipeline come in the same order. -/
theorem load (h : Mirrors count Allowed m t) (hallowed : ∀ date, Allowed date → date.IsStorable)
    (rowid : Int) : t.load rowid = .ok ((m.load rowid).map StoredOperation.reread) := by
  have hfiltered : t.operations.filter (·.pipeline == rowid) =
      (m.rows.filter (·.pipeline == rowid)).map MemoryRow.written := by
    rw [h.rows, List.filter_map]
    rfl
  -- Both sorts are stable, and numbers that fit are in the order of their signed words.
  have hsorted : ((m.rows.filter (·.pipeline == rowid)).map MemoryRow.written).mergeSort
        (fun a b => a.snapshot.isBefore b.snapshot) =
      ((m.rows.filter (·.pipeline == rowid)).mergeSort fun a b =>
        a.operation.snapshot ≤ b.operation.snapshot).map MemoryRow.written := by
    refine (List.map_mergeSort fun a ha b hb => ?_).symm
    have hlt := (h.storable a (List.mem_filter.1 ha).1).operation.snapshot
    have hlt' := (h.storable b (List.mem_filter.1 hb).1).operation.snapshot
    show _ = (Cell.number (Snapshot.toWord a.operation.snapshot)).isBefore
      (.number (Snapshot.toWord b.operation.snapshot))
    rw [Cell.isBefore_number, Snapshot.toWord_eq hlt, Snapshot.toWord_eq hlt', decide_eq_decide,
      UInt64.le_iff_toNat_le, Int.ofNat_le]
  rw [TableStore.load, hfiltered, hsorted, List.mapM_map, MemoryStore.load, List.map_map]
  apply mapM_eq_ok_of_forall
  intro row hrow
  exact h.readRow_written hallowed (List.mem_filter.1 (List.mem_mergeSort.1 hrow)).1

/-- The dates of the operations that are loaded from memory are those that were given. -/
theorem allowed_of_mem_load (h : Mirrors count Allowed m t) {rowid : Int} {r : StoredOperation}
    (hr : r ∈ m.load rowid) {date : Instant} (hdate : date ∈ r.holds.values) : Allowed date := by
  obtain ⟨row, -, rfl⟩ := List.mem_map.1 hr
  exact h.dates _ date hdate

theorem readLastSnapshot (h : Mirrors count Allowed m t) :
    t.readLastSnapshot = .ok m.lastSnapshot := by
  have hlast := h.lastSnapshot
  rw [TableStore.readLastSnapshot]
  cases hcell : t.lastSnapshot with
  | none =>
      rw [hcell, Option.getD_none, Cell.number.injEq] at hlast
      have hzero : m.lastSnapshot = 0 := UInt64.toNat_inj.1 (Int.ofNat.inj hlast.symm)
      rw [hzero]
  | some cell =>
      rw [hcell, Option.getD_some] at hlast
      rw [hlast]
      exact congrArg Except.ok (Snapshot.ofWord_natCast_toNat m.lastSnapshot)

end Mirrors

/-! ## Stores that start alike -/

/-- A store in memory with some pipelines and nothing else. -/
def MemoryStore.ofPipelines (pipelines : List (String × Algorithm)) : MemoryStore :=
  { MemoryStore.empty with pipelines }

/-- Tables with some pipelines and nothing else. -/
def TableStore.ofPipelines (pipelines : List (String × Algorithm)) : TableStore :=
  { TableStore.empty with
    pipelines := pipelines.map fun pipeline => ⟨pipeline.1, .number pipeline.2.code⟩ }

theorem mirrors_ofPipelines (Allowed : Instant → Prop) (pipelines : List (String × Algorithm)) :
    Mirrors pipelines.length Allowed (.ofPipelines pipelines) (.ofPipelines pipelines) where
  pipelines := rfl
  pipelines_tables := List.length_map _
  rows := rfl
  storable := List.forall_mem_nil _
  lastRowid := rfl
  holds _ := rfl
  dates _ := List.forall_mem_nil _
  lastSnapshot := rfl
  snapshot_lt := Nat.two_pow_pos 63

/-- What an answer from memory is in the tables. -/
def OperationAnswer.reread : OperationAnswer → OperationAnswer
  | .loaded operations => .loaded (operations.map StoredOperation.reread)
  | answer => answer

/-- An answer is the same in the tables exactly if it loads no operation that is held until a leap
second inside a minute. -/
theorem OperationAnswer.map_reread_eq_self_iff {answer : Option OperationAnswer} :
    answer.map OperationAnswer.reread = answer ↔ ∀ operations, answer = some (.loaded operations) →
      ∀ r ∈ operations, ∀ date ∈ r.holds.values, ¬ date.IsInnerLeap := by
  have hstored (r : StoredOperation) :
      r.reread = r ↔ ∀ date ∈ r.holds.values, ¬ date.IsInnerLeap := by
    rw [← Holds.reread_eq_self_iff]
    exact ⟨congrArg StoredOperation.holds, fun heq => congrArg (StoredOperation.mk _) heq⟩
  rcases answer with - | ⟨- | - | operations | -⟩
  case some.loaded =>
      rw [Option.map_some, Option.some.injEq, reread, loaded.injEq, map_eq_self_iff]
      simp only [hstored, Option.some.injEq, loaded.injEq]
      exact ⟨fun h _ heq => heq ▸ h, fun h => h _ rfl⟩
  all_goals exact iff_of_true rfl fun _ heq => nomatch heq

namespace OperationCall

variable {count : Nat} {Allowed : Instant → Prop} {m : MemoryStore} {t : TableStore}
  {call : OperationCall}

theorem IsAdmissible.isStorable (h : call.IsAdmissible count) {date : Instant}
    (hdate : date ∈ call.dates) : date.IsStorable := by
  cases call with
  | saveHolds id holds => exact h date hdate
  | apply snapshot commits => cases hdate
  | load rowid => cases hdate
  | lastSnapshot => cases hdate

/-- An admissible call is answered from the tables with what they read of the answer from memory,
and they mirror the store in memory afterwards. -/
theorem perform_eq (h : Mirrors count Allowed m t)
    (hallowed : ∀ date, Allowed date → date.IsStorable) (hcall : call.IsAdmissible count)
    (hdates : ∀ date ∈ call.dates, Allowed date) :
    (call.perform t).1 = (call.perform m).1.map OperationAnswer.reread ∧
      Mirrors count Allowed (call.perform m).2 (call.perform t).2 := by
  cases call with
  | apply snapshot commits =>
      obtain ⟨hsnapshot, hcommits⟩ := hcall
      refine Alike.settle? h ((h.applyChangesets hsnapshot fun change hchange => ?_).map
        fun related => ⟨congrArg OperationAnswer.applied related.1.symm, related.2⟩)
      obtain ⟨e, he, rfl⟩ := List.mem_map.1 hchange
      obtain ⟨hrowid, hstorable⟩ := hcommits e he
      exact ⟨hrowid, fun w hw => hstorable.of_mem_changeset hw⟩
  | saveHolds id holds => exact ⟨rfl, h.replaceHolds hdates id⟩
  | load rowid =>
      have hload : Store.load t rowid = .ok ((m.load rowid).map StoredOperation.reread) :=
        h.load hallowed rowid
      rw [perform, perform, hload]
      exact ⟨rfl, h⟩
  | lastSnapshot =>
      have hlast : Store.lastSnapshot t = .ok m.lastSnapshot := h.readLastSnapshot
      rw [perform, perform, hlast]
      exact ⟨rfl, h⟩

/-- A call is answered from the tables as from memory if their texts tell all dates, those that are
kept and those that the call gives. -/
theorem perform_eq_of_isLossless (h : Mirrors count Instant.IsLossless m t)
    (hcall : call.IsAdmissible count) (hdates : ∀ date ∈ call.dates, ¬ date.IsInnerLeap) :
    (call.perform t).1 = (call.perform m).1 ∧
      Mirrors count Instant.IsLossless (call.perform m).2 (call.perform t).2 := by
  obtain ⟨hanswer, hnext⟩ := perform_eq h (fun _ hdate => hdate.1) hcall fun date hdate =>
    ⟨hcall.isStorable hdate, hdates date hdate⟩
  refine ⟨hanswer.trans (OperationAnswer.map_reread_eq_self_iff.2 ?_), hnext⟩
  intro operations hloaded r hr date hdate
  obtain ⟨rowid, -, hload⟩ := exists_eq_load hloaded
  cases hload
  exact (h.allowed_of_mem_load hr hdate).2

/-- An admissible call fails in both stores or in none. If it fails, then it is a commit, and both
stores stay as they were. -/
theorem perform_eq_none_iff (h : Mirrors count Instant.IsStorable m t)
    (hcall : call.IsAdmissible count) :
    ((call.perform m).1 = none ↔ (call.perform t).1 = none) ∧
      ((call.perform m).1 = none → (∃ snapshot commits, call = .apply snapshot commits) ∧
        (call.perform m).2 = m ∧ (call.perform t).2 = t) := by
  obtain ⟨hanswer, -⟩ := perform_eq h (fun _ hdate => hdate) hcall fun _ hdate =>
    hcall.isStorable hdate
  have hrefused : (call.perform m).1 = none ↔ (call.perform t).1 = none := by
    rw [hanswer, Option.map_eq_none_iff]
  refine ⟨hrefused, fun hnone => ⟨?_, perform_of_eq_none hnone,
    perform_of_eq_none (hrefused.1 hnone)⟩⟩
  cases call with
  | apply snapshot commits => exact ⟨snapshot, commits, rfl⟩
  | saveHolds id holds => cases hnone
  | load rowid => cases hnone
  | lastSnapshot => cases hnone

/-- All calls are answered from the tables with what they read of the answers from memory. -/
theorem answers_eq_map_reread {calls : List OperationCall}
    (h : Mirrors count Instant.IsStorable m t) (hcalls : ∀ call ∈ calls, call.IsAdmissible count) :
    answers perform t calls = (answers perform m calls).map (Option.map OperationAnswer.reread) ∧
      Mirrors count Instant.IsStorable (afterCalls perform m calls)
        (afterCalls perform t calls) := by
  refine answers_eq_map_of_related _ _ _ (fun _ _ call h hcall => ?_) h hcalls
  exact perform_eq h (fun _ hdate => hdate) hcall fun _ hdate => hcall.isStorable hdate

/-- All calls are answered alike if they give no date in a leap second inside a minute. -/
theorem answers_eq_of_isLossless {calls : List OperationCall}
    (h : Mirrors count Instant.IsLossless m t) (hcalls : ∀ call ∈ calls, call.IsAdmissible count)
    (hdates : ∀ call ∈ calls, ∀ date ∈ call.dates, ¬ date.IsInnerLeap) :
    answers perform m calls = answers perform t calls := by
  have hboth : ∀ call ∈ calls,
      call.IsAdmissible count ∧ ∀ date ∈ call.dates, ¬ date.IsInnerLeap :=
    fun call hcall => ⟨hcalls call hcall, hdates call hcall⟩
  have hsame : answers perform t calls = (answers perform m calls).map id := by
    refine (answers_eq_map_of_related _ _ _ (fun _ _ call h hcall => ?_) h hboth).1
    exact perform_eq_of_isLossless h hcall.1 hcall.2
  rw [hsame, List.map_id]

/-- From the same pipelines on, the tables give the answers of a store in memory to all calls about
operations: the same row numbers, the same operations in the same order with the same holds, and
the same last number. Only a hold until a leap second inside a minute is read as one until the
second after it, so the answers are the same exactly if memory never loads such a hold, and
certainly if none is ever given. Only a commit can fail. It fails in both stores, and both stay as
they were. -/
theorem answers_agree_iff (pipelines : List (String × Algorithm)) (calls : List OperationCall)
    (h : ∀ call ∈ calls, call.IsAdmissible pipelines.length) :
    let inMemory := answers perform (MemoryStore.ofPipelines pipelines) calls
    let inTables := answers perform (TableStore.ofPipelines pipelines) calls
    inTables = inMemory.map (Option.map OperationAnswer.reread) ∧
      (inMemory = inTables ↔ ∀ operations, some (.loaded operations) ∈ inMemory →
        ∀ r ∈ operations, ∀ date ∈ r.holds.values, ¬ date.IsInnerLeap) ∧
      ((∀ call ∈ calls, ∀ date ∈ call.dates, ¬ date.IsInnerLeap) → inMemory = inTables) ∧
      ∀ before call after, calls = before ++ call :: after →
        let m := afterCalls perform (MemoryStore.ofPipelines pipelines) before
        let t := afterCalls perform (TableStore.ofPipelines pipelines) before
        ((call.perform m).1 = none ↔ (call.perform t).1 = none) ∧
          ((call.perform m).1 = none → (∃ snapshot commits, call = .apply snapshot commits) ∧
            (call.perform m).2 = m ∧ (call.perform t).2 = t) := by
  intro inMemory inTables
  have hstart := mirrors_ofPipelines Instant.IsStorable pipelines
  have hreread : inTables = inMemory.map (Option.map OperationAnswer.reread) :=
    (answers_eq_map_reread hstart h).1
  refine ⟨hreread, ?_, answers_eq_of_isLossless (mirrors_ofPipelines _ pipelines) h, ?_⟩
  · rw [hreread, eq_comm, map_eq_self_iff]
    simp only [OperationAnswer.map_reread_eq_self_iff]
    exact ⟨fun h operations hloaded => h _ hloaded _ rfl,
      fun h answer hanswer operations hloaded => h operations (hloaded ▸ hanswer)⟩
  · rintro before call after rfl m t
    obtain ⟨-, hmirrors⟩ := answers_eq_map_reread hstart fun earlier hearlier =>
      h earlier (List.mem_append_left _ hearlier)
    exact perform_eq_none_iff hmirrors (h call (List.mem_append_right _ List.mem_cons_self))

/-- An operation is added with one that it waits for, and once more for another pipeline. Later it
is held, once until a leap second that ends a minute, and the one that it waits for finishes. -/
def relay : List OperationCall :=
  let first := Operation.new (.ofNat 1)
  let second := (Operation.new (.ofNat 2)).addDependency (.ofNat 1)
  [.apply 5 [(2, ((Commit.new 5).add second).add first)],
    .apply 6 [(1, (Commit.new 6).add second)],
    .saveHolds (.ofNat 2)
      (.ofList [("audit", ⟨1700000000, 250000000⟩), ("retry", ⟨1700000039, 1500000000⟩)]),
    .apply 6 [(2, (Commit.new 6).setStatus (.ofNat 1) .completed)], .load 2, .lastSnapshot]

/-- The pipelines of the relay. -/
def relayPipelines : List (String × Algorithm) := [("uploads", .commit), ("reports", .flat)]

/-- Adding the operation once more is refused, and in the end it is there alone, held. -/
theorem answers_relay :
    (∀ call ∈ relay, call.IsAdmissible relayPipelines.length) ∧
      answers perform (MemoryStore.ofPipelines relayPipelines) relay =
        answers perform (TableStore.ofPipelines relayPipelines) relay ∧
      answers perform (MemoryStore.ofPipelines relayPipelines) relay =
        [some (.applied (.ofList [(.ofNat 1, 2), (.ofNat 2, 1)])), none, some .saved,
          some (.applied .empty),
          some (.loaded [⟨{ (Operation.new (.ofNat 2)).addDependency (.ofNat 1) with
              rowid := some 1, snapshot := 5 },
            .ofList [("audit", ⟨1700000000, 250000000⟩), ("retry", ⟨1700000039, 1500000000⟩)]⟩]),
          some (.last 6)] := by
  have hfirst : (Operation.new (.ofNat 1)).Made := .new _
  have hsecond : ((Operation.new (.ofNat 2)).addDependency (.ofNat 1)).Made :=
    .addDependency (.new _) _
  have hadmissible : ∀ call ∈ relay, call.IsAdmissible relayPipelines.length := by
    simp only [relay, List.forall_mem_cons]
    refine ⟨⟨by decide, ?_⟩, ⟨by decide, ?_⟩, ?_, ⟨by decide, ?_⟩, trivial, trivial,
      List.forall_mem_nil _⟩
    · rw [List.forall_mem_singleton]
      exact ⟨by decide, ((Commit.Made.new 5).add hsecond).add hfirst, by decide,
        List.forall_mem_nil _, by decide +kernel⟩
    · rw [List.forall_mem_singleton]
      exact ⟨by decide, (Commit.Made.new 6).add hsecond, by decide, List.forall_mem_nil _,
        by decide +kernel⟩
    · show ∀ date ∈ [⟨1700000000, 250000000⟩, ⟨1700000039, 1500000000⟩], Instant.IsStorable date
      decide
    · rw [List.forall_mem_singleton]
      exact ⟨by decide, (Commit.Made.new 6).setStatus _ _, by decide, List.forall_mem_nil _,
        List.forall_mem_nil _⟩
  have hdates : ∀ call ∈ relay, ∀ date ∈ call.dates, ¬ date.IsInnerLeap := by decide
  obtain ⟨-, -, hsame, -⟩ := answers_agree_iff relayPipelines relay hadmissible
  exact ⟨hadmissible, hsame hdates, by decide +kernel⟩

/-- An operation is added, held until half a second into a leap second inside a minute, and
loaded. -/
def pause : List OperationCall :=
  [.apply 1 [(1, (Commit.new 1).add (.new (.ofNat 1)))],
    .saveHolds (.ofNat 1) (.ofList [("retry", ⟨30, 1500000000⟩)]), .load 1]

/-- Memory gives the date back, and the tables one that lies a second later. -/
theorem answers_pause :
    let answered (date : Instant) : List (Option OperationAnswer) :=
      [some (.applied (.ofList [(.ofNat 1, 1)])), some .saved,
        some (.loaded [⟨{ Operation.new (.ofNat 1) with rowid := some 1, snapshot := 1 },
          .ofList [("retry", date)]⟩])]
    (∀ call ∈ pause, call.IsAdmissible 1) ∧
      answers perform (MemoryStore.ofPipelines [("uploads", .commit)]) pause =
        answered ⟨30, 1500000000⟩ ∧
      answers perform (TableStore.ofPipelines [("uploads", .commit)]) pause =
        answered ⟨31, 500000000⟩ ∧
      answered ⟨30, 1500000000⟩ ≠ answered ⟨31, 500000000⟩ := by
  intro answered
  refine ⟨?_, by decide +kernel, by decide +kernel, by decide +kernel⟩
  simp only [pause, List.forall_mem_cons]
  refine ⟨⟨by decide, ?_⟩, ?_, trivial, List.forall_mem_nil _⟩
  · rw [List.forall_mem_singleton]
    exact ⟨by decide, (Commit.Made.new 1).add (.new _), by decide, List.forall_mem_nil _,
      by decide +kernel⟩
  · show ∀ date ∈ [⟨30, 1500000000⟩], Instant.IsStorable date
    decide

end OperationCall

end OperationQueue
