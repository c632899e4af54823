/-
# Rows that are read back

A store in tables writes an operation as texts and numbers, and what it reads from the row is the
operation. That needs every part to read back: identities and dependencies, the status, the
snapshot as a signed word, the priority, and the dates beside the row. An operation that waits for
itself would not, but nobody can make one; a date in a leap second inside a minute does not either,
and comes back as a date in the second after it.
-/
import OperationQueue.Proofs.Identity
import OperationQueue.Proofs.Instant.Timestamp
import OperationQueue.Proofs.Operation
import OperationQueue.Proofs.Store.RowByRow
import OperationQueue.Proofs.Text.JsonText

namespace OperationQueue

/-- An operation that a row can hold: somebody can have made it, its snapshot fits in a signed word
and its priority in 32 bits. -/
structure Operation.IsStorable (op : Operation) : Prop where
  made : op.Made
  snapshot : op.snapshot.toNat < 2 ^ 63
  priority : TableStore.isPriority op.priority = true

/-- What the texts of some holds are read as. -/
def Holds.reread (holds : Holds) : Holds := holds.map fun _ date => date.reread

/-- A list stays as it is exactly if each of its members does. -/
theorem map_eq_self_iff {α : Type} {f : α → α} {l : List α} :
    l.map f = l ↔ ∀ a ∈ l, f a = a := by
  have hid := @List.map_inj_left _ _ l f id
  rwa [List.map_id] at hid

/-- Holds are read as they were exactly if none of them ends in a leap second inside a minute. -/
theorem Holds.reread_eq_self_iff {holds : Holds} :
    holds.reread = holds ↔ ∀ date ∈ holds.values, ¬ date.IsInnerLeap := by
  have hentries : holds.reread = holds ↔
      holds.entries.map (fun entry => (entry.1, entry.2.reread)) = holds.entries :=
    ⟨congrArg OrderedMap.entries, fun heq => OrderedMap.ext heq⟩
  rw [hentries, map_eq_self_iff, OrderedMap.values, List.forall_mem_map]
  simp only [Prod.ext_iff, true_and, Instant.reread_eq_self_iff]

namespace TableStore

variable {s : TableStore} {op : Operation} {id : Identity} {holds : Holds}

/-! ## Texts -/

theorem isPlain_text (id : Identity) : ∀ c ∈ id.text.toList, JsonText.IsPlain c := by
  have hwritten : ∀ c ∈ Digits.written, JsonText.IsPlain c := Digits.forall_written (by decide)
  intro c hc
  rw [Identity.text, String.toList_ofList] at hc
  rcases Identity.mem_chars hc with rfl | hc
  · decide
  · exact hwritten c hc

theorem readIdentity_text (id : Identity) : readIdentity id.text = .ok id := by
  rw [readIdentity, Identity.parse_text]

theorem readDependencies_dependenciesText (dependencies : OrderedSet Identity) :
    readDependencies (dependenciesText dependencies) = .ok dependencies.toList := by
  have hplain : ∀ text ∈ dependencies.toList.map Identity.text, ∀ c ∈ text.toList,
      JsonText.IsPlain c := by
    intro text htext
    obtain ⟨id, -, rfl⟩ := List.mem_map.1 htext
    exact isPlain_text id
  rw [readDependencies, dependenciesText, JsonText.strings?_listPlain hplain]
  dsimp only
  rw [List.mapM_map]
  refine (mapM_eq_ok_of_forall (g := fun id => id) fun id _ => ?_).trans ?_
  · simp only [Function.comp_apply, Identity.parse_text]
  · rw [List.map_id']

/-! ## Dates -/

/-- The dates of some holds as texts. -/
def writtenDates (holds : Holds) : OrderedMap String String := holds.map fun _ date => date.storedText

/-- Dates in years of four digits are read back, but for leap seconds inside a minute. -/
theorem readHolds_writtenDates (h : (s.holds.get? id.text).getD .empty = writtenDates holds)
    (hyears : ∀ date ∈ holds.values, date.HasPlainYear)
    (hnanos : ∀ date ∈ holds.values, date.nanos < 2000000000) :
    s.readHolds id.text = .ok holds.reread := by
  have hdates : (writtenDates holds).entries.mapM (fun entry => do
      return (entry.1, ← readDate entry.2) : String × String → Except Error (String × Instant)) =
        .ok holds.reread.entries := by
    rw [writtenDates, Holds.reread, OrderedMap.entries_map, OrderedMap.entries_map, List.mapM_map]
    apply mapM_eq_ok_of_forall
    intro entry hentry
    have hmem : entry.2 ∈ holds.values := List.mem_map_of_mem hentry
    have hdate := Instant.parse_storedText (hyears _ hmem) (hnanos _ hmem)
    simp only [Function.comp_apply, readDate, hdate]
    rfl
  rw [readHolds, h]
  refine (congrArg (· >>= fun dates => Except.ok (OrderedMap.ofList dates)) hdates).trans ?_
  exact congrArg Except.ok (OrderedMap.ofList_entries holds.reread)

/-! ## Rows -/

/-- What is read from the row of an operation: the snapshot of its signed word, and no status that
waits to take effect. -/
def reread (rowid : Nat) (op : Operation) : Operation :=
  { Operation.new op.id with
    rowid := some rowid
    snapshot := Snapshot.ofWord (Snapshot.toWord op.snapshot)
    status := op.status
    priority := op.priority
    payload := op.payload }.setDependencies op.dependencies.toList

/-- A row that was written for an operation can be read if the dates beside it can. -/
theorem readRow_rowOf_eq_map (h : isPriority op.priority = true) (rowid : Nat) (pipeline : Int) :
    s.readRow (rowOf rowid pipeline op) =
      (s.readHolds op.id.text).map fun holds => ⟨reread rowid op, holds⟩ := by
  rw [readRow, rowOf]
  simp only [Cell.read, bind, Except.bind, h, readIdentity_text, Status.ofName?_name,
    readDependencies_dependenciesText, Bool.not_true, Bool.false_eq_true, if_false]
  cases s.readHolds op.id.text <;> rfl

/-- The row of an operation reads back as the operation, with the number of the row. -/
theorem readRow_rowOf (h : op.IsStorable) (hstaged : op.staged = none)
    (hholds : s.readHolds op.id.text = .ok holds) (rowid : Nat) (pipeline : Int) :
    s.readRow (rowOf rowid pipeline op) = .ok ⟨{ op with rowid := some rowid }, holds⟩ := by
  let plain : Operation :=
    { Operation.new op.id with
      rowid := some rowid
      snapshot := Snapshot.ofWord (Snapshot.toWord op.snapshot)
      status := op.status
      priority := op.priority
      payload := op.payload }
  have hself : plain.id ∉ op.dependencies.toList := h.made.not_self
  have hread : reread rowid op = { op with rowid := some rowid } := by
    show plain.setDependencies op.dependencies.toList = _
    rw [Operation.setDependencies_toList hself]
    simp only [plain, Snapshot.ofWord_toWord, if_pos h.snapshot, hstaged]
    rfl
  rw [readRow_rowOf_eq_map h.priority, hholds, hread]
  rfl

end TableStore

end OperationQueue
