/-
# What a queue is rebuilt from

Which records count is decided on the way through the list, with the identities met so far
at hand. Said without that memory: a record counts if no record before it has its identity and
its operation has not finished, so a finished record hides every later one of its identity. The
queue that is rebuilt is read off the records that count, whatever was queued and held before.
-/
import OperationQueue.Proofs.Pipeline.Roundtrip
import OperationQueue.Session

namespace OperationQueue

namespace Pipeline

variable {p : Pipeline}

/-! ## The records that count -/

/-- Whether no record before a place has this identity. -/
def isNewAt (records : List StoredOperation) (place : Nat) (id : Identity) : Bool :=
  (records.take place).all (·.operation.id != id)

/-- The records of unfinished operations that are the first of their identity. -/
def counting (records : List StoredOperation) : List StoredOperation :=
  (records.zipIdx.filter fun (r, place) =>
    !r.operation.isTerminal && isNewAt records place r.operation.id).map (·.1)

/-- A recorded operation, without what was staged for it. -/
def asRecorded (r : StoredOperation) : Operation := { r.operation with staged := none }

/-- The recorded operations of a snapshot. -/
def recordedAt (records : List StoredOperation) (snapshot : Snapshot) : List Operation :=
  ((counting records).filter (·.operation.snapshot = snapshot)).map asRecorded

/-- The identities met on the way are those of the records passed. -/
private theorem firstRecords_eq_zipIdx {ids : List Identity} {passed : List StoredOperation}
    (rest : List StoredOperation) (hids : ∀ id, id ∈ ids ↔ id ∈ passed.map (·.operation.id)) :
    firstRecords ids rest = ((rest.zipIdx passed.length).filter fun (r, place) =>
      isNewAt (passed ++ rest) place r.operation.id).map (·.1) := by
  induction rest generalizing ids passed with
  | nil => rfl
  | cons first rest ih =>
      have hnew : isNewAt (passed ++ first :: rest) passed.length first.operation.id = true ↔
          first.operation.id ∉ ids := by
        simp [isNewAt, hids]
      have hpassed : passed ++ first :: rest = (passed ++ [first]) ++ rest := by simp
      have hlength : passed.length + 1 = (passed ++ [first]).length := by simp
      rw [List.zipIdx_cons, List.filter_cons, firstRecords]
      by_cases hseen : first.operation.id ∈ ids
      · rw [if_pos hseen, if_neg (fun h => hnew.1 h hseen), hpassed, hlength]
        apply ih
        intro id
        have hmem : id ∈ [first].map (·.operation.id) → id ∈ passed.map (·.operation.id) := by
          intro h
          rw [List.mem_singleton.1 h]
          exact (hids _).1 hseen
        rw [hids, List.map_append, List.mem_append]
        exact (or_iff_left_of_imp hmem).symm
      · rw [if_neg hseen, if_pos (hnew.2 hseen), List.map_cons, hpassed, hlength]
        refine congrArg _ (ih fun id => ?_)
        simp [hids, or_comm]

/-- The records that are restored are those that count. -/
theorem restorable_eq_map_counting (records : List StoredOperation) :
    restorable records = (counting records).map fun r => ⟨asRecorded r, r.holds⟩ := by
  have hfirst : firstRecords [] records = (records.zipIdx.filter fun (r, place) =>
      isNewAt records place r.operation.id).map (·.1) :=
    @firstRecords_eq_zipIdx [] [] records fun _ => Iff.rfl
  rw [restorable, hfirst, List.filter_map, List.filter_filter]
  rfl

theorem mem_ids_restorable_iff {records : List StoredOperation} {id : Identity} :
    id ∈ (restorable records).map (·.operation.id) ↔ ∃ r ∈ counting records, r.operation.id = id := by
  rw [restorable_eq_map_counting, List.map_map, List.mem_map]
  rfl

/-! ## The rebuilt queue -/

/-- A queue that was rebuilt in the place of another, and the count that is given of it. At each
snapshot where something is recorded stands a graph of it, and these operations alone are held.
Only what is never recorded is taken over. -/
structure Rebuilt (p : Pipeline) (records : List StoredOperation) (count : Nat)
    (q : Pipeline) : Prop where
  graph : ∀ snapshot, q.graphs.get? snapshot =
    if recordedAt records snapshot = [] then none
    else some
      { snapshot := snapshot
        operations := recordedAt records snapshot
        previous := if p.algorithm = .flat then q.precedingSnapshot? snapshot else none }
  held : ∀ {id holds}, q.holds.byOperation.get? id = some holds ↔
    holds.isEmpty = false ∧ ∃ r ∈ counting records, r.operation.id = id ∧ r.holds = holds
  name_eq : q.name = p.name
  algorithm_eq : q.algorithm = p.algorithm
  limit_eq : q.limit = p.limit
  suspendCount_eq : q.suspendCount = p.suspendCount
  activeFlag_eq : q.activeFlag = q.isActive
  count_eq : count = q.operations.length

theorem operationsAt_restore_eq_recordedAt (p : Pipeline) (records : List StoredOperation)
    (snapshot : Snapshot) :
    (p.restore records).2.operationsAt snapshot = recordedAt records snapshot := by
  rw [operationsAt_restore, restorable_eq_map_counting, List.map_map, List.filter_map]
  rfl

/-- Of the records passed over none leaves a hold, not even under an identity that counts. -/
theorem get?_holds_restore_eq_some_iff {records : List StoredOperation} {id : Identity}
    {holds : Holds} :
    (p.restore records).2.holds.byOperation.get? id = some holds ↔
      holds.isEmpty = false ∧ ∃ r ∈ counting records, r.operation.id = id ∧ r.holds = holds := by
  have hcounted : ∀ r ∈ counting records, (p.restore records).2.holds.byOperation.get?
      r.operation.id = if r.holds.isEmpty then none else some r.holds := by
    intro r hr
    have hmem : ⟨asRecorded r, r.holds⟩ ∈ restorable records :=
      restorable_eq_map_counting records ▸ List.mem_map_of_mem hr
    exact get?_holds_restore_of_mem (r := ⟨asRecorded r, r.holds⟩) hmem
  constructor
  · intro hheld
    by_cases hid : id ∈ (restorable records).map (·.operation.id)
    · obtain ⟨r, hr, rfl⟩ := mem_ids_restorable_iff.1 hid
      rw [hcounted r hr] at hheld
      split at hheld
      · cases hheld
      · next hempty =>
        cases hheld
        exact ⟨by simpa using hempty, r, hr, rfl, rfl⟩
    · cases (get?_holds_restore_of_notMem hid).symm.trans hheld
  · rintro ⟨hempty, r, hr, rfl, rfl⟩
    rw [hcounted r hr, hempty]
    rfl

/-- Every restored operation is queued once. -/
theorem restore_fst_eq_length (p : Pipeline) (records : List StoredOperation) :
    (p.restore records).1 = (p.restore records).2.operations.length := by
  have hrestored : ((restorable records).map (·.operation)).Nodup := by
    apply List.Nodup.of_map (·.id)
    rw [List.map_map]
    exact nodup_restorable records
  have hqueued : (p.restore records).2.operations.Nodup :=
    (isSettled_restore p records).nodup_ids.of_map
  have hperm : ((restorable records).map (·.operation)).Perm (p.restore records).2.operations := by
    rw [List.perm_ext_iff_of_nodup hrestored hqueued]
    intro op
    rw [mem_operations_restore, List.mem_map]
  rw [← hperm.length_eq, List.length_map]
  rfl

end Pipeline

namespace Session

variable {σ : Type}

/-- Whether the records are restored or refused, there is no step to carry out. -/
theorem respond_restore (clock : Instant) (m : Member) (records : List StoredOperation)
    (stored : Option Algorithm) :
    (respond clock m (.restore records stored)).2.1 = .empty := by
  rw [respond]
  cases m.restore records stored <;> rfl

/-- No executor is handed an operation by a restart. -/
theorem journal_request_restore (s : Session σ) (name : String) (records : List StoredOperation)
    (stored : Option Algorithm) :
    (s.request name (.restore records stored)).2.journal = s.journal ∧
      (s.request name (.restore records stored)).2.channels = s.channels := by
  rw [request]
  split
  · exact ⟨rfl, rfl⟩
  · next m _ =>
    simp only [decide, respond_restore, startAll, Step.empty, List.foldl_nil, publish, and_self]

end Session

namespace Pipeline

/-- What was queued and held before does not matter: any queue that is restored is afterwards the
one that was recorded, and the operations stand in it as they were recorded. Nothing is
started. -/
theorem rebuilt_restore (p : Pipeline) (records : List StoredOperation) :
    Rebuilt p records (p.restore records).1 (p.restore records).2 ∧
      ∀ {σ : Type} (s : Session σ) (name : String) (stored : Option Algorithm),
        (s.request name (.restore records stored)).2.journal = s.journal ∧
          (s.request name (.restore records stored)).2.channels = s.channels := by
  refine ⟨?_, fun s name stored => s.journal_request_restore name records stored⟩
  exact
    { graph := fun snapshot => by
        rw [(isSettled_restore p records).get?_graphs_eq, operationsAt_restore_eq_recordedAt]
        rfl
      held := get?_holds_restore_eq_some_iff
      name_eq := rfl
      algorithm_eq := rfl
      limit_eq := rfl
      suspendCount_eq := rfl
      activeFlag_eq := rfl
      count_eq := restore_fst_eq_length p records }

/-- A finished record hides the unfinished one after it, and no hold of either is kept. Of the
queue that was in use, nothing is left. -/
example :
    let busy := ((Pipeline.new "main" .flat).applyCommit
      ((Commit.new 1).add (.new (.ofNat 7))) ⟨0, 0⟩).2
    let retry : Holds := .ofList [("retry", ⟨9, 0⟩)]
    let records : List StoredOperation :=
      [⟨{ Operation.new (.ofNat 1) with status := .completed }, retry⟩,
       ⟨.new (.ofNat 1), retry⟩,
       ⟨{ Operation.new (.ofNat 2) with staged := some .completed }, .empty⟩]
    busy.ids = [.ofNat 7] ∧ (busy.restore records).1 = 1 ∧
      (busy.restore records).2.operations = [.new (.ofNat 2)] ∧
      (busy.restore records).2.holds = .empty := by
  decide +kernel

end Pipeline

end OperationQueue
