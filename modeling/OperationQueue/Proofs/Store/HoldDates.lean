/-
# Dates that are kept as texts

The dates of holds are kept as texts. A text is written for every date, but one with a year
outside 0 to 9999 starts with a sign, and that is not read: from then on no operation of the
pipeline can be read at all. All other dates that lie in no leap second come back as they were,
whatever else is stored. In either case a replacement of the holds of one operation leaves those of
all others as they were.
-/
import OperationQueue.Proofs.Store.Keeping

namespace OperationQueue

namespace TableStore

variable {s : TableStore} {targets : List Snapshot} {id : Identity} {holds : Holds} {rowid : Int}
  {records : List StoredOperation} {r : StoredOperation} {row : OperationRow} {identity : String}

/-! ## The holds of one operation -/

theorem dates_saveHolds_self (s : TableStore) (id : Identity) (holds : Holds) :
    ((s.saveHolds id holds).holds.get? id.text).getD .empty = writtenDates holds := by
  rw [saveHolds]
  by_cases hempty : holds.isEmpty = true
  · rw [if_pos hempty, OrderedMap.get?_erase_self, HoldTable.eq_empty_of_isEmpty hempty]
    rfl
  · simp [hempty, writtenDates]

theorem dates_saveHolds_of_ne (h : identity ≠ id.text) (holds : Holds) :
    (s.saveHolds id holds).holds.get? identity = s.holds.get? identity := by
  rw [saveHolds]
  dsimp only
  split
  · exact OrderedMap.get?_erase_of_ne _ h
  · exact OrderedMap.get?_insert_of_ne _ h _

theorem readHolds_saveHolds_of_ne (h : identity ≠ id.text) (holds : Holds) :
    (s.saveHolds id holds).readHolds identity = s.readHolds identity := by
  rw [readHolds, readHolds, dates_saveHolds_of_ne h]

/-- Dates in years of four digits are read back. -/
theorem readHolds_saveHolds_self (hplain : ∀ date ∈ holds.values, date.HasPlainYear)
    (hnanos : ∀ date ∈ holds.values, date.nanos < 1000000000) :
    (s.saveHolds id holds).readHolds id.text = .ok holds := by
  have hread := readHolds_writtenDates (dates_saveHolds_self s id holds) hplain
    fun date hdate => Nat.lt_trans (hnanos date hdate) (by decide)
  have hkept : holds.reread = holds :=
    Holds.reread_eq_self_iff.2 fun date hdate hinner => (hnanos date hdate).not_ge hinner.1
  rwa [hkept] at hread

theorem readDate_storedText_eq_error {date : Instant} (h : ¬ date.HasPlainYear) :
    readDate date.storedText = .error (.storedDate date.storedText .invalid) := by
  rw [readDate, Instant.parse_storedText_eq_error h]

theorem mem_writtenDates {entry : String × String} :
    entry ∈ (writtenDates holds).entries ↔
      ∃ date, (entry.1, date) ∈ holds.entries ∧ date.storedText = entry.2 := by
  have hentries : (writtenDates holds).entries =
      holds.entries.map fun entry => (entry.1, entry.2.storedText) := rfl
  rw [hentries, List.mem_map]
  constructor
  · rintro ⟨⟨context, date⟩, hentry, rfl⟩
    exact ⟨date, hentry, rfl⟩
  · rintro ⟨date, hentry, htext⟩
    exact ⟨_, hentry, Prod.ext rfl htext⟩

/-- Holds with a date in another year cannot be read. -/
theorem readHolds_saveHolds_ne_ok {date : Instant} (hdate : date ∈ holds.values)
    (hyear : ¬ date.HasPlainYear) (read : Holds) :
    (s.saveHolds id holds).readHolds id.text ≠ .ok read := by
  intro hread
  obtain ⟨⟨context, written⟩, hentry, rfl⟩ := List.mem_map.1 hdate
  rw [readHolds, dates_saveHolds_self] at hread
  obtain ⟨dates, hdates, -⟩ := exists_of_bind_eq_ok hread
  have hmem : (context, written.storedText) ∈ (writtenDates holds).entries :=
    mem_writtenDates.2 ⟨written, hentry, rfl⟩
  obtain ⟨_, -, hread⟩ := exists_of_mapM_eq_ok hdates hmem
  obtain ⟨instant, hinstant, -⟩ := exists_of_bind_eq_ok hread
  rw [readDate_storedText_eq_error hyear] at hinstant
  cases hinstant

/-- If reading the holds fails, then because of a date in another year. -/
theorem exists_of_readHolds_saveHolds_eq_error {e : Error}
    (hnanos : ∀ date ∈ holds.values, date.nanos < 1000000000)
    (hread : (s.saveHolds id holds).readHolds id.text = .error e) :
    ∃ date ∈ holds.values, ¬ date.HasPlainYear ∧ e = .storedDate date.storedText .invalid := by
  rw [readHolds, dates_saveHolds_self] at hread
  rcases of_bind_eq_error hread with hdates | ⟨_, -, hdates⟩
  · obtain ⟨⟨context, text⟩, hentry, hfails⟩ := exists_of_mapM_eq_error hdates
    obtain ⟨date, hentry, rfl⟩ := mem_writtenDates.1 hentry
    have hdate : date ∈ holds.values := List.mem_map_of_mem hentry
    rcases of_bind_eq_error hfails with hfails | ⟨_, -, hfails⟩
    · by_cases hyear : date.HasPlainYear
      · have hread := Instant.parse_storedText hyear (Nat.lt_trans (hnanos date hdate) (by decide))
        rw [readDate, hread] at hfails
        cases hfails
      · rw [readDate_storedText_eq_error hyear] at hfails
        exact ⟨date, hdate, hyear, (Except.error.inj hfails).symm⟩
    · cases hfails
  · cases hdates

/-- If one date lies in another year, then such a date is what reading the holds fails on. -/
theorem exists_readHolds_saveHolds_eq_error
    (hnanos : ∀ date ∈ holds.values, date.nanos < 1000000000)
    (hsigned : ∃ date ∈ holds.values, ¬ date.HasPlainYear) :
    ∃ date ∈ holds.values, ¬ date.HasPlainYear ∧
      (s.saveHolds id holds).readHolds id.text = .error (.storedDate date.storedText .invalid) := by
  cases hread : (s.saveHolds id holds).readHolds id.text with
  | ok read =>
      obtain ⟨date, hdate, hyear⟩ := hsigned
      exact absurd hread (readHolds_saveHolds_ne_ok hdate hyear read)
  | error e =>
      obtain ⟨date, hdate, hyear, rfl⟩ := exists_of_readHolds_saveHolds_eq_error hnanos hread
      exact ⟨date, hdate, hyear, rfl⟩

/-! ## The operations of a pipeline -/

/-- Whoever reads a row reads the operation from it that anybody reads, with the holds of its
identity. -/
theorem IsWritten.of_readRow_eq_ok (h : IsWritten targets row) (hread : s.readRow row = .ok r) :
    row.identity = r.operation.id.text ∧ ∀ t : TableStore, t.readRow row =
      (t.readHolds r.operation.id.text).map fun holds => { r with holds := holds } := by
  obtain ⟨op, hidentity, hrow⟩ := h.exists_readRow_eq
  rw [hrow s] at hread
  obtain ⟨holds, -, rfl⟩ := exists_of_map_eq_ok hread
  have hid : (reread row.rowid op).id.text = row.identity := hidentity.symm
  refine ⟨hid.symm, fun t => ?_⟩
  rw [hrow t]
  exact congrArg (fun identity => (t.readHolds identity).map _) hid.symm

theorem readRow_saveHolds_of_ne (h : row.identity ≠ id.text) (holds : Holds) :
    (s.saveHolds id holds).readRow row = s.readRow row :=
  readRow_congr (by rw [dates_saveHolds_of_ne h])

/-- Holds that are read back are read with the operation that they are for, and all other
operations are read as before. -/
theorem load_saveHolds_of_ok (h : IsKept targets s) (hload : s.load rowid = .ok records)
    (hread : (s.saveHolds id holds).readHolds id.text = .ok holds) :
    (s.saveHolds id holds).load rowid =
      .ok (records.map fun q => if q.operation.id = id then { q with holds := holds } else q) := by
  have hrows : ∀ row ∈ s.sortedRows rowid,
      (s.saveHolds id holds).readRow row = (s.readRow row).map fun q =>
        if q.operation.id = id then { q with holds := holds } else q := by
    intro row hrow
    obtain ⟨q, -, hq⟩ := exists_of_mapM_eq_ok hload hrow
    obtain ⟨hidentity, hany⟩ := (h.isWritten_of_mem hrow).of_readRow_eq_ok hq
    rw [hq]
    show _ = Except.ok (if q.operation.id = id then { q with holds := holds } else q)
    by_cases hid : q.operation.id = id
    · rw [if_pos hid, hany, hid, hread]
      rfl
    · have hne : row.identity ≠ id.text := by rwa [hidentity, ne_eq, Identity.text_inj]
      rw [if_neg hid, readRow_saveHolds_of_ne hne, hq]
  rw [load_eq_mapM] at hload
  have hsaved : (s.saveHolds id holds).load rowid =
      (s.sortedRows rowid).mapM (s.saveHolds id holds).readRow := rfl
  rw [hsaved, mapM_map_of_forall hrows, hload]
  rfl

/-- Holds that cannot be read keep their whole pipeline from being read. -/
theorem load_saveHolds_of_error (h : IsKept targets s) (hload : s.load rowid = .ok records)
    (hr : r ∈ records) {e : Error}
    (hread : (s.saveHolds r.operation.id holds).readHolds r.operation.id.text = .error e) :
    (s.saveHolds r.operation.id holds).load rowid = .error e := by
  have hsaved : (s.saveHolds r.operation.id holds).load rowid =
      (s.sortedRows rowid).mapM (s.saveHolds r.operation.id holds).readRow := rfl
  cases hloaded : (s.saveHolds r.operation.id holds).load rowid with
  | ok loaded =>
      obtain ⟨row, hrow, hq⟩ := exists_of_forall₂_of_mem (forall₂_of_mapM_eq_ok hload) hr
      obtain ⟨-, hany⟩ := (h.isWritten_of_mem hrow).of_readRow_eq_ok hq
      obtain ⟨y, -, hy⟩ := exists_of_mapM_eq_ok (hsaved.symm.trans hloaded) hrow
      rw [hany, hread] at hy
      cases hy
  | error e' =>
      obtain ⟨row, hrow, hfails⟩ := exists_of_mapM_eq_error (hsaved.symm.trans hloaded)
      obtain ⟨q, -, hq⟩ := exists_of_mapM_eq_ok hload hrow
      obtain ⟨hidentity, hany⟩ := (h.isWritten_of_mem hrow).of_readRow_eq_ok hq
      by_cases hid : q.operation.id = r.operation.id
      · rw [hany, hid, hread] at hfails
        exact congrArg Except.error (Except.error.inj hfails).symm
      · have hne : row.identity ≠ r.operation.id.text := by
          rwa [hidentity, ne_eq, Identity.text_inj]
        rw [readRow_saveHolds_of_ne hne, hq] at hfails
        cases hfails

/-- The operations of all other pipelines are read as before. -/
theorem load_saveHolds_elsewhere (h : IsKept targets s) (hload : s.load rowid = .ok records)
    (hr : r ∈ records) {other : Int} (hother : other ≠ rowid) :
    (s.saveHolds r.operation.id holds).load other = s.load other := by
  obtain ⟨own, hown, hq⟩ := exists_of_forall₂_of_mem (forall₂_of_mapM_eq_ok hload) hr
  obtain ⟨hmem, hpipeline⟩ := mem_sortedRows.1 hown
  obtain ⟨hidentity, -⟩ := (h.written own hmem).of_readRow_eq_ok hq
  have hsaved : (s.saveHolds r.operation.id holds).load other =
      (s.sortedRows other).mapM (s.saveHolds r.operation.id holds).readRow := rfl
  rw [hsaved, load_eq_mapM]
  apply mapM_congr_of_mem
  intro row hrow
  obtain ⟨hmem', hpipeline'⟩ := mem_sortedRows.1 hrow
  refine readRow_saveHolds_of_ne (fun heq => hother ?_) holds
  rw [← hpipeline', ← hpipeline, h.eq_of_identity_eq hmem' hmem (heq.trans hidentity.symm)]

/-- Holds that replace those of a stored operation are read back exactly if all their dates lie in
years of four digits. Then the operation is read with these holds, and every other one as before.
If one of the dates lies in another year, then the pipeline of the operation cannot be read any
more, because of such a date. In every case the holds of all other operations and the operations of
all other pipelines are read as before. -/
theorem load_saveHolds_iff (h : Kept targets s) (hload : s.load rowid = .ok records)
    (hr : r ∈ records) (hnanos : ∀ date ∈ holds.values, date.nanos < 1000000000) :
    let saved := s.saveHolds r.operation.id holds
    (saved.load rowid = .ok (records.map fun q =>
        if q.operation.id = r.operation.id then { q with holds := holds } else q) ↔
      ∀ date ∈ holds.values, date.HasPlainYear) ∧
    ((∃ date ∈ holds.values, ¬ date.HasPlainYear) → ∃ date ∈ holds.values, ¬ date.HasPlainYear ∧
      saved.load rowid = .error (.storedDate date.storedText .invalid)) ∧
    (∀ other : Identity, other ≠ r.operation.id →
      saved.readHolds other.text = s.readHolds other.text) ∧
    ∀ other, other ≠ rowid → saved.load other = s.load other := by
  intro saved
  have hkept := h.isKept
  have hfails (hsigned : ∃ date ∈ holds.values, ¬ date.HasPlainYear) :
      ∃ date ∈ holds.values, ¬ date.HasPlainYear ∧
        saved.load rowid = .error (.storedDate date.storedText .invalid) := by
    obtain ⟨date, hdate, hyear, hread⟩ := exists_readHolds_saveHolds_eq_error hnanos hsigned
    exact ⟨date, hdate, hyear, load_saveHolds_of_error hkept hload hr hread⟩
  refine ⟨⟨fun hloaded => ?_, fun hplain => ?_⟩, hfails, fun other hother => ?_,
    fun other hother => load_saveHolds_elsewhere hkept hload hr hother⟩
  · by_contra hsigned
    simp only [not_forall] at hsigned
    obtain ⟨date, hdate, hyear⟩ := hsigned
    obtain ⟨_, -, -, herror⟩ := hfails ⟨date, hdate, hyear⟩
    rw [hloaded] at herror
    cases herror
  · exact load_saveHolds_of_ok hkept hload (readHolds_saveHolds_self hplain hnanos)
  · exact readHolds_saveHolds_of_ne (mt Identity.text_inj.1 hother) holds

/-! ### One stored operation -/

/-- An operation of the first snapshot. -/
def upload : Operation := { Operation.new (.ofNat 1) with snapshot := 1 }

/-- Tables that hold this operation alone. -/
def oneUpload : TableStore where
  pipelines := [⟨"uploads", .number 0⟩]
  operations := [rowOf 1 1 upload]
  lastRowid := 1
  holds := .empty
  lastSnapshot := some (.number 1)

theorem kept_oneUpload : Kept [1] oneUpload := by
  have hregistered : TableStore.empty.register "uploads" .empty .commit = .ok (⟨1, "uploads", none⟩,
      { TableStore.empty with pipelines := [⟨"uploads", .number 0⟩] }) := rfl
  have happlied : TableStore.applyChangesets
      { TableStore.empty with pipelines := [⟨"uploads", .number 0⟩] } 1 [⟨1, [.insert upload]⟩] =
      .ok (.ofList [(.ofNat 1, 1)], oneUpload) := rfl
  refine .applyChangesets (.register .empty hregistered) (fun e he => ?_) happlied
  rw [List.mem_singleton.1 he]
  rfl

/-- The operation as it is read. -/
def storedUpload : StoredOperation := ⟨{ upload with rowid := some 1 }, .empty⟩

theorem load_oneUpload : oneUpload.load 1 = .ok [storedUpload] := by
  have hstorable : upload.IsStorable := ⟨.fill (.new _) none 1 .pending none 0 [], by decide, rfl⟩
  have hrow : oneUpload.readRow (rowOf 1 1 upload) = .ok storedUpload :=
    readRow_rowOf hstorable rfl rfl 1 1
  have hsorted : oneUpload.sortedRows 1 = [rowOf 1 1 upload] := List.mergeSort_singleton _
  rw [load_eq_mapM, hsorted, List.mapM_cons, hrow]
  rfl

/-- A quarter of a second is read back. -/
theorem load_saveHolds_audit :
    let holds : Holds := .ofList [("audit", ⟨1700000000, 250000000⟩)]
    (oneUpload.saveHolds (.ofNat 1) holds).load 1 = .ok [{ storedUpload with holds := holds }] := by
  intro holds
  have hvalues : holds.values = [⟨1700000000, 250000000⟩] := rfl
  have hnanos : ∀ date ∈ holds.values, date.nanos < 1000000000 := by rw [hvalues]; decide
  obtain ⟨hread, -⟩ :=
    load_saveHolds_iff kept_oneUpload load_oneUpload (List.mem_singleton_self _) hnanos
  exact hread.2 (by rw [hvalues]; decide)

/-- A hold until the year 10000 is stored, and then its pipeline cannot be read any more. -/
theorem load_saveHolds_forever :
    Kept [1] oneUpload ∧ oneUpload.load 1 = .ok [storedUpload] ∧
      (oneUpload.saveHolds (.ofNat 1) (.ofList [("forever", ⟨253402300800, 0⟩)])).load 1 =
        .error (.storedDate "+10000-01-01T00:00:00.000000000Z" .invalid) := by
  have hread : (oneUpload.saveHolds (.ofNat 1)
      (.ofList [("forever", ⟨253402300800, 0⟩)])).readHolds (Identity.ofNat 1).text =
        .error (.storedDate "+10000-01-01T00:00:00.000000000Z" .invalid) := by
    decide +kernel
  exact ⟨kept_oneUpload, load_oneUpload,
    load_saveHolds_of_error kept_oneUpload.isKept load_oneUpload (List.mem_singleton_self _) hread⟩

end TableStore

end OperationQueue
