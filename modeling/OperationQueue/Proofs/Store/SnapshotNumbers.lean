/-
# Snapshots that are kept as signed words

A column of whole numbers holds signed words, and a snapshot is an unsigned one. So one that does
not fit is kept as a negative number, which is read as zero and stands before all others. What a
commit keeps is therefore right exactly as far as its snapshots fit: its own number, the snapshot
of every operation that it stores, and the order in which operations are read. The order is right
too if no snapshot fits, since signed words keep the order among such.
-/
import OperationQueue.Proofs.Store.Keeping
import OperationQueue.Proofs.Store.Loading

namespace OperationQueue

namespace Snapshot

variable {a b : Snapshot}

theorem toWord_inj : toWord a = toWord b ↔ a = b := by
  refine ⟨fun h => ?_, congrArg toWord⟩
  have ha := a.toNat_lt
  have hb := b.toNat_lt
  apply UInt64.toNat_inj.1
  rcases Nat.lt_or_ge a.toNat (2 ^ 63) with hfits | hfits <;>
    rcases Nat.lt_or_ge b.toNat (2 ^ 63) with hfits' | hfits' <;>
    simp only [toWord_eq, toWord_eq_sub, hfits, hfits'] at h <;> omega

/-- Signed words are in the order of the snapshots if both fit or none does. -/
theorem toWord_lt_toWord (h : a.toNat < 2 ^ 63 ↔ b.toNat < 2 ^ 63) :
    toWord a < toWord b ↔ a < b := by
  rw [UInt64.lt_iff_toNat_lt]
  rcases Nat.lt_or_ge a.toNat (2 ^ 63) with hfits | hfits
  · rw [toWord_eq hfits, toWord_eq (h.1 hfits), Int.ofNat_lt]
  · rw [toWord_eq_sub hfits, toWord_eq_sub (Nat.le_of_not_lt (mt h.2 (Nat.not_lt.2 hfits)))]
    omega

end Snapshot

namespace Cell

/-! ## The order of a column -/

theorem exists_units_or_text (a : Cell) :
    (∃ m, a.units? = some m) ∨ ∃ content, a = .text content := by
  cases a with
  | number n => exact .inl ⟨_, rfl⟩
  | double units => exact .inl ⟨_, rfl⟩
  | text content => exact .inr ⟨content, rfl⟩

variable {a b : Cell} {m n : Int}

theorem isBefore_of_units (ha : a.units? = some m) (hb : b.units? = some n) :
    isBefore a b = decide (m ≤ n) := by
  unfold isBefore
  rw [ha, hb]

theorem isBefore_text_right (ha : a.units? = some m) (content : String) :
    isBefore a (.text content) = true := by
  unfold isBefore
  rw [ha]
  rfl

theorem isBefore_text_left (hb : b.units? = some n) (content : String) :
    isBefore (.text content) b = false := by
  unfold isBefore
  rw [hb]
  rfl

theorem isBefore_text (content content' : String) :
    isBefore (.text content) (.text content') = decide (content ≤ content') := rfl

theorem isBefore_total (a b : Cell) : isBefore a b || isBefore b a := by
  rw [Bool.or_eq_true]
  rcases a.exists_units_or_text with ⟨m, ha⟩ | ⟨content, rfl⟩ <;>
    rcases b.exists_units_or_text with ⟨n, hb⟩ | ⟨content', rfl⟩
  · rw [isBefore_of_units ha hb, isBefore_of_units hb ha, decide_eq_true_eq, decide_eq_true_eq]
    exact Int.le_total m n
  · exact .inl (isBefore_text_right ha content')
  · exact .inr (isBefore_text_right hb content)
  · rw [isBefore_text, isBefore_text, decide_eq_true_eq, decide_eq_true_eq]
    exact String.le_total content content'

theorem isBefore_trans (a b c : Cell) (hab : isBefore a b) (hbc : isBefore b c) :
    isBefore a c := by
  rcases a.exists_units_or_text with ⟨m, ha⟩ | ⟨content, rfl⟩ <;>
    rcases c.exists_units_or_text with ⟨o, hc⟩ | ⟨content'', rfl⟩
  · rcases b.exists_units_or_text with ⟨n, hb⟩ | ⟨content', rfl⟩
    · rw [isBefore_of_units ha hb, decide_eq_true_eq] at hab
      rw [isBefore_of_units hb hc, decide_eq_true_eq] at hbc
      rw [isBefore_of_units ha hc, decide_eq_true_eq]
      exact Int.le_trans hab hbc
    · rw [isBefore_text_left hc] at hbc
      cases hbc
  · exact isBefore_text_right ha content''
  · rcases b.exists_units_or_text with ⟨n, hb⟩ | ⟨content', rfl⟩
    · rw [isBefore_text_left hb] at hab
      cases hab
    · rw [isBefore_text_left hc] at hbc
      cases hbc
  · rcases b.exists_units_or_text with ⟨n, hb⟩ | ⟨content', rfl⟩
    · rw [isBefore_text_left hb] at hab
      cases hab
    · rw [isBefore_text, decide_eq_true_eq] at hab hbc ⊢
      exact String.le_trans hab hbc

end Cell

namespace TableStore

variable {s t : TableStore} {targets : List Snapshot} {snapshot last : Snapshot}
  {row : OperationRow} {w : RowWrite} {u v : Writing} {pipeline : Int}
  {writes : List (Int × RowWrite)} {changes : List PipelineChangeset}
  {numbers : OrderedMap Identity Int} {records : List StoredOperation}

/-! ## The last snapshot -/

theorem IsKept.isNumbered (h : IsKept targets s) : s.IsNumbered := by
  intro n hn
  obtain ⟨_, hcell, hlt⟩ := h.numbered _ hn
  cases hcell
  exact hlt

/-- The last snapshot can be read, and fits. -/
theorem IsKept.readLastSnapshot (h : IsKept targets s) :
    ∃ last, s.readLastSnapshot = .ok last ∧ last.toNat < 2 ^ 63 := by
  rw [TableStore.readLastSnapshot]
  cases hlast : s.lastSnapshot with
  | none => exact ⟨0, rfl, by decide⟩
  | some cell =>
      obtain ⟨n, rfl, hn⟩ := h.numbered cell hlast
      refine ⟨Snapshot.ofWord n, rfl, ?_⟩
      rw [Snapshot.toNat_ofWord hn]
      omega

/-- A number is the last one after its commit, unless a later one was there, exactly if it fits. -/
theorem IsKept.readLastSnapshot_close_iff (h : IsKept targets s)
    (hlast : s.readLastSnapshot = .ok last) (snapshot : Snapshot) :
    (TableStore.close snapshot s).readLastSnapshot = .ok (max last snapshot) ↔
      snapshot.toNat < 2 ^ 63 := by
  rw [TableStore.readLastSnapshot_close h.isNumbered hlast]
  by_cases hfits : snapshot.toNat < 2 ^ 63
  · rw [if_pos hfits]
    exact iff_of_true rfl hfits
  · rw [if_neg hfits]
    refine iff_of_false (fun heq => hfits ?_) hfits
    obtain ⟨_, hread, hlt⟩ := h.readLastSnapshot
    cases hlast.symm.trans hread
    have hmax := congrArg UInt64.toNat (Except.ok.inj heq)
    rw [Snapshot.toNat_max] at hmax
    omega

/-! ## The order of the rows -/

/-- The place of a row in the list, and the snapshot there. -/
def placed (targets : List Snapshot) (row : OperationRow) : Nat × Snapshot :=
  (row.rowid - 1, targets.getD (row.rowid - 1) 0)

/-- Entries of the list that are in the order of snapshots, and at one snapshot in the order in
which they were written. -/
def ComesBefore (p q : Nat × Snapshot) : Prop := p.2 < q.2 ∨ p.2 = q.2 ∧ p.1 < q.1

/-- A record that was read for an entry of the list. -/
structure IsReadFor (targets : List Snapshot) (p : Nat × Snapshot) (r : StoredOperation) :
    Prop where
  rowid : r.operation.rowid = some (p.1 + 1 : Int)
  target : targets[p.1]? = some p.2
  snapshot : r.operation.snapshot = if p.2.toNat < 2 ^ 63 then p.2 else 0

theorem IsWritten.placed_spec (h : IsWritten targets row) :
    row.rowid = (placed targets row).1 + 1 ∧
      targets[(placed targets row).1]? = some (placed targets row).2 ∧
      row.snapshot = .number (Snapshot.toWord (placed targets row).2) := by
  obtain ⟨index, pipeline, op, rfl, -, htarget⟩ := h
  have hplaced : placed targets (rowOf (index + 1) pipeline op) = (index, op.snapshot) := by
    rw [placed, rowOf, Nat.add_sub_cancel, List.getD_eq_getElem?_getD, htarget]
    rfl
  rw [hplaced]
  exact ⟨rfl, htarget, rfl⟩

/-- Rows are read in the order of their words, and those with one word in the order in which they
were written. -/
theorem IsKept.pairwise_sortedRows (h : IsKept targets s) (rowid : Int) :
    (s.sortedRows rowid).Pairwise fun a b =>
      a.snapshot.isBefore b.snapshot = true ∧ (a.snapshot = b.snapshot → a.rowid < b.rowid) :=
  pairwise_mergeSort_by_key (·.snapshot) Cell.isBefore_trans Cell.isBefore_total
    ((h.apart.imp And.left).filter _)

/-- So are their entries in the list. -/
theorem IsKept.pairwise_placed (h : IsKept targets s) (rowid : Int) :
    ((s.sortedRows rowid).map (placed targets)).Pairwise fun p q =>
      Snapshot.toWord p.2 < Snapshot.toWord q.2 ∨ p.2 = q.2 ∧ p.1 < q.1 := by
  rw [List.pairwise_map]
  refine (h.pairwise_sortedRows rowid).imp_of_mem fun {a b} ha hb hab => ?_
  obtain ⟨hrowid, -, hword⟩ := (h.isWritten_of_mem ha).placed_spec
  obtain ⟨hrowid', -, hword'⟩ := (h.isWritten_of_mem hb).placed_spec
  obtain ⟨hbefore, hstable⟩ := hab
  rw [hword, hword', Cell.isBefore_number, decide_eq_true_eq] at hbefore
  rw [hword, hword', Cell.number.injEq, Snapshot.toWord_inj] at hstable
  rcases Int.lt_or_eq_of_le hbefore with hlt | heq
  · exact .inl hlt
  · have heq := Snapshot.toWord_inj.1 heq
    have hlt := hstable heq
    exact .inr ⟨heq, by omega⟩

/-- Two entries in the order of words are in the order of snapshots only if both snapshots fit, or
none does: the word of a snapshot that fits is the larger one. -/
theorem ComesBefore.fits_iff {p q : Nat × Snapshot} (hbefore : ComesBefore p q)
    (hword : Snapshot.toWord p.2 < Snapshot.toWord q.2 ∨ p.2 = q.2 ∧ p.1 < q.1) :
    p.2.toNat < 2 ^ 63 ↔ q.2.toNat < 2 ^ 63 := by
  constructor
  · intro hfits
    by_contra hlarge
    have hneg := Snapshot.toWord_neg (Nat.le_of_not_lt hlarge)
    rcases hword with hlt | ⟨heq, -⟩
    · rw [Snapshot.toWord_eq hfits] at hlt
      omega
    · exact hlarge (heq ▸ hfits)
  · intro hfits
    rcases hbefore with hlt | ⟨heq, -⟩
    · exact Nat.lt_trans (UInt64.lt_iff_toNat_lt.1 hlt) hfits
    · exact heq ▸ hfits

/-- Entries in the order of words are in the order of snapshots exactly if all snapshots fit, or
none does. -/
theorem pairwise_comesBefore_iff {entries : List (Nat × Snapshot)}
    (h : entries.Pairwise fun p q =>
      Snapshot.toWord p.2 < Snapshot.toWord q.2 ∨ p.2 = q.2 ∧ p.1 < q.1) :
    entries.Pairwise ComesBefore ↔
      (∀ p ∈ entries, p.2.toNat < 2 ^ 63) ∨ ∀ p ∈ entries, 2 ^ 63 ≤ p.2.toNat := by
  constructor
  · intro hordered
    have hside : entries.Pairwise fun p q => p.2.toNat < 2 ^ 63 ↔ q.2.toNat < 2 ^ 63 :=
      (hordered.and h).imp fun hboth => hboth.1.fits_iff hboth.2
    have hall : ∀ p ∈ entries, ∀ q ∈ entries, (p.2.toNat < 2 ^ 63 ↔ q.2.toNat < 2 ^ 63) := by
      intro p hp q hq
      exact List.Pairwise.forall_of_forall_of_flip
        (R := fun p q : Nat × Snapshot => p.2.toNat < 2 ^ 63 ↔ q.2.toNat < 2 ^ 63)
        (fun _ _ => Iff.rfl) hside (hside.imp Iff.symm) hp hq
    by_cases hfits : ∃ p ∈ entries, p.2.toNat < 2 ^ 63
    · obtain ⟨p, hp, hlt⟩ := hfits
      exact .inl fun q hq => (hall p hp q hq).1 hlt
    · exact .inr fun q hq => Nat.le_of_not_lt fun hlt => hfits ⟨q, hq, hlt⟩
  · intro hsides
    refine h.imp_of_mem fun {p q} hp hq hpq => hpq.imp_left fun hlt => ?_
    refine (Snapshot.toWord_lt_toWord ?_).1 hlt
    rcases hsides with hall | hnone
    · exact iff_of_true (hall p hp) (hall q hq)
    · exact iff_of_false (Nat.not_lt.2 (hnone p hp)) (Nat.not_lt.2 (hnone q hq))

/-! ## The records -/

/-- A record is read for the entry of its row. -/
theorem IsWritten.isReadFor {r : StoredOperation} (h : IsWritten targets row)
    (hread : s.readRow row = .ok r) :
    IsReadFor targets (placed targets row) r ∧ row.identity = r.operation.id.text := by
  obtain ⟨hrowid, htarget, hword⟩ := h.placed_spec
  obtain ⟨index, pipeline, op, rfl, hpriority, -⟩ := h
  rw [readRow_rowOf_eq_map hpriority] at hread
  obtain ⟨holds, -, rfl⟩ := exists_of_map_eq_ok hread
  have hsnapshot : op.snapshot = (placed targets (rowOf (index + 1) pipeline op)).2 :=
    Snapshot.toWord_inj.1 (Cell.number.inj hword)
  refine ⟨⟨?_, htarget, ?_⟩, rfl⟩
  · exact congrArg (fun n : Nat => some (n : Int)) hrowid
  · rw [← Snapshot.ofWord_toWord, ← hsnapshot]
    rfl

/-- The records of a pipeline are read for the entries of its rows. -/
theorem IsKept.forall₂_load (h : IsKept targets s) (hload : s.load pipeline = .ok records) :
    List.Forall₂ (IsReadFor targets) ((s.sortedRows pipeline).map (placed targets)) records := by
  have hwritten : ∀ row ∈ s.sortedRows pipeline, IsWritten targets row :=
    fun _ hrow => h.isWritten_of_mem hrow
  rw [List.forall₂_map_left_iff]
  refine ((List.forall₂_and_left _ _).2 ⟨hwritten, forall₂_of_mapM_eq_ok hload⟩).imp ?_
  exact fun row r hboth => (hboth.1.isReadFor hboth.2).1

/-- Only dates can keep the operations of a pipeline from being read. -/
theorem IsKept.exists_load_eq_ok_iff (h : IsKept targets s) (pipeline : Int) :
    (∃ records, s.load pipeline = .ok records) ↔
      ∀ row ∈ s.sortedRows pipeline, ∃ holds, s.readHolds row.identity = .ok holds := by
  rw [load_eq_mapM]
  constructor
  · rintro ⟨records, hload⟩ row hrow
    obtain ⟨r, -, hread⟩ := exists_of_mapM_eq_ok hload hrow
    obtain ⟨op, -, hany⟩ := (h.isWritten_of_mem hrow).exists_readRow_eq
    rw [hany] at hread
    obtain ⟨holds, hholds, -⟩ := exists_of_map_eq_ok hread
    exact ⟨holds, hholds⟩
  · intro hdates
    cases hload : (s.sortedRows pipeline).mapM s.readRow with
    | ok records => exact ⟨records, rfl⟩
    | error e =>
        obtain ⟨row, hrow, hfails⟩ := exists_of_mapM_eq_error hload
        obtain ⟨op, -, hany⟩ := (h.isWritten_of_mem hrow).exists_readRow_eq
        obtain ⟨holds, hholds⟩ := hdates row hrow
        rw [hany, hholds] at hfails
        cases hfails

/-! ## The rows of new operations -/

/-- A row outlives every write but the removal of its operation. -/
theorem exists_row_write (hrow : row ∈ u.2.operations) (hstays : ∀ id, w = .delete id →
    row.identity ≠ id.text) (hwrite : write pipeline u w = .ok v) :
    ∃ next ∈ v.2.operations, next.identity = row.identity ∧ next.pipeline = row.pipeline ∧
      next.rowid = row.rowid := by
  have hnext : ∃ next, editRow w row = some next := by
    cases w with
    | insert op => exact ⟨_, rfl⟩
    | modify op => exact ⟨_, rfl⟩
    | status id status => exact ⟨_, rfl⟩
    | delete id => exact ⟨row, editRow_of_ne (hstays id rfl)⟩
  obtain ⟨next, hedit⟩ := hnext
  obtain ⟨hpipeline, hidentity, -⟩ := of_editRow_eq_some hedit
  refine ⟨next, ?_, hidentity, hpipeline, rowid_of_editRow_eq_some hedit⟩
  rw [operations_write hwrite]
  exact List.mem_append_left _ (List.mem_filterMap.2 ⟨row, hrow, hedit⟩)

/-- So it outlives several of them. -/
theorem exists_row_writes (hrow : row ∈ u.2.operations)
    (hstays : ∀ e ∈ writes, ∀ id, e.2 = .delete id → row.identity ≠ id.text)
    (hwritten : writes.foldlM (fun u e => write e.1 u e.2) u = .ok v) :
    ∃ next ∈ v.2.operations, next.identity = row.identity ∧ next.pipeline = row.pipeline ∧
      next.rowid = row.rowid := by
  induction writes generalizing u row with
  | nil =>
      cases hwritten
      exact ⟨row, hrow, rfl, rfl, rfl⟩
  | cons e rest ih =>
      obtain ⟨m, hfirst, hrest⟩ := foldlM_cons_eq_ok hwritten
      obtain ⟨next, hnext, hidentity, hpipeline, hrowid⟩ :=
        exists_row_write hrow (hstays e List.mem_cons_self) hfirst
      obtain ⟨later, hlater, hidentity', hpipeline', hrowid'⟩ := ih hnext
        (fun e he => hidentity ▸ hstays e (List.mem_cons_of_mem _ he)) hrest
      exact ⟨later, hlater, hidentity'.trans hidentity, hpipeline'.trans hpipeline,
        hrowid'.trans hrowid⟩

/-- The row of a new operation has the next number, and is there until the operation is removed. -/
theorem IsKept.exists_row_of_insert {op : Operation} {before after : List (Int × RowWrite)}
    (h : IsKept targets u.2) (hfits : ∀ e ∈ before, e.2.Fits)
    (hstays : ∀ e ∈ after, e.2 ≠ .delete op.id)
    (hwritten : (before ++ (pipeline, .insert op) :: after).foldlM
      (fun u e => TableStore.write e.1 u e.2) u = .ok v) :
    ∃ row ∈ v.2.operations, row.identity = op.id.text ∧ row.pipeline = pipeline ∧
      row.rowid = (targets ++ newTargets before).length + 1 := by
  rw [List.foldlM_append] at hwritten
  obtain ⟨m, hbefore, hlater⟩ := exists_of_bind_eq_ok hwritten
  obtain ⟨m', hinsert, hafter⟩ := foldlM_cons_eq_ok hlater
  have hrow : rowOf (m.2.lastRowid + 1) pipeline op ∈ m'.2.operations := by
    rw [operations_write hinsert]
    exact List.mem_append_right _ (List.mem_singleton_self _)
  obtain ⟨row, hmem, hidentity, hpipeline, hrowid⟩ := exists_row_writes hrow
    (fun e he id hdelete heq => hstays e he (Identity.text_inj.1 heq ▸ hdelete)) hafter
  refine ⟨row, hmem, hidentity, hpipeline, hrowid.trans ?_⟩
  rw [← (h.writes hfits hbefore).lastRowid]
  rfl

/-- The record of a new operation has the next number. It has the snapshot of the operation exactly
if the snapshot fits. -/
theorem exists_record_of_insert {op : Operation} {before after : List (Int × RowWrite)}
    (h : IsKept targets s) (hfits : ∀ e ∈ allWrites changes, e.2.Fits)
    (happlied : s.applyChangesets snapshot changes = .ok (numbers, t))
    (hsplit : allWrites changes = before ++ (pipeline, .insert op) :: after)
    (hstays : ∀ e ∈ after, e.2 ≠ .delete op.id) (hload : t.load pipeline = .ok records) :
    ∃ r ∈ records, r.operation.id = op.id ∧
      r.operation.rowid = some ((targets ++ newTargets before).length + 1 : Int) ∧
      (r.operation.snapshot = op.snapshot ↔ op.snapshot.toNat < 2 ^ 63) := by
  have hkept := h.applyChangesets hfits happlied
  obtain ⟨copy, hwritten, ht⟩ := exists_written_of_applyChangesets happlied
  have hbefore : ∀ e ∈ before, e.2.Fits := fun e he =>
    hfits e (hsplit ▸ List.mem_append_left _ he)
  rw [hsplit] at hwritten
  obtain ⟨row, hrow, hidentity, hpipeline, hrowid⟩ :=
    IsKept.exists_row_of_insert (u := (.empty, s)) h hbefore hstays hwritten
  have hmem : row ∈ t.operations := ht ▸ hrow
  obtain ⟨r, hr, hread⟩ := exists_of_mapM_eq_ok hload (mem_sortedRows.2 ⟨hmem, hpipeline⟩)
  obtain ⟨hfor, hid⟩ := (hkept.written row hmem).isReadFor hread
  -- The place of the row in the list is that of the snapshot of the operation.
  have htarget : (targets ++ newTargets (allWrites changes))[row.rowid - 1]? =
      some op.snapshot := by
    have hnew : newTargets (allWrites changes) =
        newTargets before ++ op.snapshot :: newTargets after := by
      rw [hsplit, newTargets, List.filterMap_append]
      rfl
    rw [hnew, ← List.append_assoc, hrowid, Nat.add_sub_cancel, List.getElem?_append_right le_rfl,
      Nat.sub_self]
    rfl
  have hsnapshot : (placed (targets ++ newTargets (allWrites changes)) row).2 = op.snapshot :=
    Option.some.inj (hfor.target.symm.trans htarget)
  refine ⟨r, hr, Identity.text_inj.1 (hid.symm.trans hidentity), ?_, ?_⟩
  · rw [hfor.rowid, placed, hrowid]
    rfl
  · rw [hfor.snapshot, hsnapshot]
    by_cases hlow : op.snapshot.toNat < 2 ^ 63
    · rw [if_pos hlow]
      exact iff_of_true rfl hlow
    · rw [if_neg hlow]
      refine iff_of_false (fun heq => hlow ?_) hlow
      rw [← heq]
      decide

/-- Snapshots are kept as far as they fit in signed words. After a commit its number is the last
one, unless a later one was there, exactly if it fits; else the last one is as before. The
operations of a pipeline can be read if their dates can. Each is read with its snapshot if that
fits, and with zero if not; and all are in the order of snapshots, and at one snapshot in the order
of writing, exactly if all snapshots fit, or none does. Among them is every new operation that no
later write of the commit removes. -/
theorem snapshots_applyChangesets (h : Kept targets s)
    (hfits : ∀ e ∈ allWrites changes, e.2.Fits)
    (happlied : s.applyChangesets snapshot changes = .ok (numbers, t)) :
    let all := targets ++ newTargets (allWrites changes)
    (∃ last, s.readLastSnapshot = .ok last ∧
      t.readLastSnapshot = .ok (if snapshot.toNat < 2 ^ 63 then max last snapshot else last) ∧
      (t.readLastSnapshot = .ok (max last snapshot) ↔ snapshot.toNat < 2 ^ 63)) ∧
    (∀ pipeline, (∃ records, t.load pipeline = .ok records) ↔
      ∀ row ∈ t.sortedRows pipeline, ∃ holds, t.readHolds row.identity = .ok holds) ∧
    (∀ pipeline records, t.load pipeline = .ok records →
      ∃ entries, List.Forall₂ (IsReadFor all) entries records ∧
        (entries.Pairwise ComesBefore ↔
          (∀ p ∈ entries, p.2.toNat < 2 ^ 63) ∨ ∀ p ∈ entries, 2 ^ 63 ≤ p.2.toNat)) ∧
    ∀ before after pipeline op records,
      allWrites changes = before ++ (pipeline, .insert op) :: after →
        (∀ e ∈ after, e.2 ≠ .delete op.id) → t.load pipeline = .ok records →
          ∃ r ∈ records, r.operation.id = op.id ∧
            r.operation.rowid = some ((targets ++ newTargets before).length + 1 : Int) ∧
            (r.operation.snapshot = op.snapshot ↔ op.snapshot.toNat < 2 ^ 63) := by
  intro all
  have hkept := h.isKept
  have hafter : IsKept all t := hkept.applyChangesets hfits happlied
  refine ⟨?_, hafter.exists_load_eq_ok_iff, fun pipeline records hload => ?_,
    fun before after pipeline op records hsplit hstays hload =>
      exists_record_of_insert hkept hfits happlied hsplit hstays hload⟩
  · obtain ⟨last, hlast, -⟩ := hkept.readLastSnapshot
    obtain ⟨copy, hwritten, rfl⟩ := exists_written_of_applyChangesets happlied
    have hcopy : IsKept all copy := hkept.writes (u := (.empty, s)) hfits hwritten
    have hsame : copy.lastSnapshot = s.lastSnapshot :=
      foldlM_invariant (fun u => u.2.lastSnapshot = s.lastSnapshot)
        (fun _ _ _ _ hu hwrite => (lastSnapshot_write hwrite).trans hu) rfl hwritten
    have hlast' : copy.readLastSnapshot = .ok last := by
      rw [TableStore.readLastSnapshot, hsame]
      exact hlast
    exact ⟨last, hlast, TableStore.readLastSnapshot_close hcopy.isNumbered hlast' snapshot,
      hcopy.readLastSnapshot_close_iff hlast' snapshot⟩
  · exact ⟨_, hafter.forall₂_load hload, pairwise_comesBefore_iff (hafter.pairwise_placed pipeline)⟩

/-! ### Two new operations -/

/-- Tables with one pipeline and no operation. -/
def oneQueue : TableStore := { TableStore.empty with pipelines := [⟨"uploads", .number 0⟩] }

theorem kept_oneQueue : Kept [] oneQueue := by
  have hregistered : TableStore.empty.register "uploads" .empty .commit =
      .ok (⟨1, "uploads", none⟩, oneQueue) := rfl
  exact .register .empty hregistered

/-- A new operation for a snapshot. -/
def newAt (n : Nat) (snapshot : Snapshot) : Operation := { Operation.new (.ofNat n) with snapshot }

/-- A commit that stores two operations. -/
def twoNew (first second : Snapshot) : List PipelineChangeset :=
  [⟨1, [.insert (newAt 1 first), .insert (newAt 2 second)]⟩]

/-- The tables after the commit. -/
def twoRows (snapshot first second : Snapshot) : TableStore :=
  { oneQueue with
    operations := [rowOf 1 1 (newAt 1 first), rowOf 2 1 (newAt 2 second)]
    lastRowid := 2
    lastSnapshot := some (.number (Snapshot.toWord snapshot)) }

theorem fits_twoNew (first second : Snapshot) :
    ∀ e ∈ allWrites (twoNew first second), e.2.Fits := by
  intro e he
  rcases List.mem_cons.1 he with rfl | he
  · rfl
  · rw [List.mem_singleton.1 he]
    rfl

/-- Numbers that fit are kept, and operations are found under their snapshots. -/
theorem snapshots_twoRows :
    (twoRows 7 5 3).readLastSnapshot = .ok (max 0 7) ∧
      ∃ records, (twoRows 7 5 3).load 1 = .ok records ∧
        (∃ r ∈ records, r.operation.id = .ofNat 1 ∧ r.operation.snapshot = 5) ∧
        ∃ r ∈ records, r.operation.id = .ofNat 2 ∧ r.operation.snapshot = 3 := by
  have happlied : oneQueue.applyChangesets 7 (twoNew 5 3) =
      .ok (.ofList [(.ofNat 1, 1), (.ofNat 2, 2)], twoRows 7 5 3) := by decide +kernel
  obtain ⟨⟨last, hlast, -, hmax⟩, hloads, -, hnew⟩ :=
    snapshots_applyChangesets kept_oneQueue (fits_twoNew 5 3) happlied
  cases hlast
  obtain ⟨records, hload⟩ := (hloads 1).2 fun _ _ => ⟨.empty, rfl⟩
  obtain ⟨r, hr, hid, -, hsnapshot⟩ :=
    hnew [] [(1, .insert (newAt 2 3))] 1 (newAt 1 5) records rfl (by simp) hload
  obtain ⟨r', hr', hid', -, hsnapshot'⟩ :=
    hnew [(1, .insert (newAt 1 5))] [] 1 (newAt 2 3) records rfl (by simp) hload
  exact ⟨hmax.2 (by decide), records, hload, ⟨r, hr, hid, hsnapshot.2 (by decide)⟩,
    r', hr', hid', hsnapshot'.2 (by decide)⟩

/-- The first snapshot that does not fit. -/
def tooLarge : Snapshot := 9223372036854775808

/-- A commit whose number does not fit is not the last one afterwards. Its operation whose snapshot
does not fit is read with snapshot zero, and before one with a smaller snapshot. -/
theorem snapshots_twoRows_lost :
    Kept [] oneQueue ∧
      oneQueue.applyChangesets tooLarge (twoNew 5 tooLarge) =
        .ok (.ofList [(.ofNat 1, 1), (.ofNat 2, 2)], twoRows tooLarge 5 tooLarge) ∧
      (twoRows tooLarge 5 tooLarge).readLastSnapshot = .ok 0 ∧
      (twoRows tooLarge 5 tooLarge).load 1 =
        .ok [⟨{ newAt 2 0 with rowid := some 2 }, .empty⟩,
          ⟨{ newAt 1 5 with rowid := some 1 }, .empty⟩] := by
  have hsorted : (twoRows tooLarge 5 tooLarge).sortedRows 1 =
      [rowOf 2 1 (newAt 2 tooLarge), rowOf 1 1 (newAt 1 5)] := by
    have hafter : (rowOf 1 1 (newAt 1 5)).snapshot.isBefore
        (rowOf 2 1 (newAt 2 tooLarge)).snapshot = false := by decide +kernel
    have hown : (twoRows tooLarge 5 tooLarge).operations.filter (·.pipeline == 1) =
        [rowOf 1 1 (newAt 1 5), rowOf 2 1 (newAt 2 tooLarge)] := rfl
    rw [sortedRows, hown]
    simp [List.mergeSort, hafter]
  refine ⟨kept_oneQueue, by decide +kernel, by decide +kernel, ?_⟩
  rw [load_eq_mapM, hsorted]
  decide +kernel

end TableStore

end OperationQueue
