/-
# Row writes against queue edits

The row writes of a commit are read here as the queue reads the commit: an operation that
is stored takes over the modifications with its identity and then its committed status,
and it loses its row if that status finishes it. New operations are written as they will
be queued, and nothing later is written for them.
-/
import OperationQueue.Commit.Changeset
import OperationQueue.Proofs.Commit
import OperationQueue.Proofs.Pipeline.Editing
import OperationQueue.Proofs.Store.Memory

namespace OperationQueue

namespace Operation

/-- To a list of modifications those of other operations may be added. -/
theorem modified_filter {knows : Identity → Bool} {keep : Operation → Bool}
    {modifications : List Operation} {op : Operation}
    (h : ∀ m ∈ modifications, m.id = op.id → keep m = true) :
    op.modified knows (modifications.filter keep) = op.modified knows modifications := by
  induction modifications generalizing op with
  | nil => rfl
  | cons m rest ih =>
      have hid : (modifiedBy knows op m).id = op.id :=
        ((KeepsPlace.modification (m.retainDependencies knows)).ite (·.id = m.id)).id op
      have hrest : (modifiedBy knows op m).modified knows (rest.filter keep) =
          (modifiedBy knows op m).modified knows rest := by
        apply ih
        intro later hlater heq
        exact h later (List.mem_cons_of_mem _ hlater) (heq.trans hid)
      rw [List.filter_cons]
      by_cases hkeep : keep m = true
      · rw [if_pos hkeep]
        exact hrest
      · have hother : op.id ≠ m.id := fun heq => hkeep (h m List.mem_cons_self heq.symm)
        have hsame : modifiedBy knows op m = op := if_neg hother
        rw [if_neg hkeep]
        rw [hsame] at hrest
        exact hrest.trans (by rw [modified, modified, List.foldl_cons, hsame])

end Operation

namespace RowWrite

variable {op : Operation}

/-- Writing modifications is taking them over with all their dependencies. -/
theorem editAll_modify (modifications : List Operation) (op : Operation) :
    editAll (modifications.map .modify) op = some (op.modified (fun _ => true) modifications) := by
  induction modifications generalizing op with
  | nil => rfl
  | cons m rest ih =>
      have hall : m.retainDependencies (fun _ => true) = m := by
        have hdeps : m.dependencies.filter (fun _ _ => true) = m.dependencies :=
          OrderedMap.ext (List.filter_eq_self.2 fun _ _ => rfl)
        rw [Operation.retainDependencies, hdeps]
      have hfirst : (modify m).edit op = some (Operation.modifiedBy (fun _ => true) op m) := by
        rw [edit, Operation.modifiedBy, hall]
      rw [List.map_cons, editAll_cons, hfirst]
      exact ih _

@[simp]
theorem id_statusWrite (id : Identity) (next : Status) : (Commit.statusWrite id next).id = id := by
  rw [Commit.statusWrite]
  split <;> rfl

theorem edit_statusWrite (next : Status) :
    (Commit.statusWrite op.id next).edit op =
      if next.isTerminal then none else some { op with status := next } := by
  rw [Commit.statusWrite]
  split
  · exact if_pos rfl
  · exact congrArg some (if_pos rfl)

private theorem editAll_statusWrite_of_notMem {entries : List (Identity × Status)}
    (h : op.id ∉ entries.map (·.1)) :
    editAll (entries.map fun e => Commit.statusWrite e.1 e.2) op = some op := by
  apply editAll_of_ne
  intro w hw heq
  obtain ⟨e, he, rfl⟩ := List.mem_map.1 hw
  rw [id_statusWrite] at heq
  exact h (List.mem_map.2 ⟨e, he, heq⟩)

private theorem editAll_statusWrite_of_mem {entries : List (Identity × Status)}
    (hnodup : (entries.map (·.1)).Nodup) {next : Status} (h : (op.id, next) ∈ entries) :
    editAll (entries.map fun e => Commit.statusWrite e.1 e.2) op =
      if next.isTerminal then none else some { op with status := next } := by
  induction entries with
  | nil => cases h
  | cons e rest ih =>
      rw [List.map_cons, List.nodup_cons] at hnodup
      rw [List.map_cons, editAll_cons]
      rcases List.mem_cons.1 h with rfl | h
      · rw [edit_statusWrite]
        split
        · rfl
        · have habsent : ({ op with status := next } : Operation).id ∉ rest.map (·.1) := hnodup.1
          exact editAll_statusWrite_of_notMem habsent
      · have hother : (Commit.statusWrite e.1 e.2).id ≠ op.id := by
          rw [id_statusWrite]
          intro heq
          exact hnodup.1 (heq ▸ List.mem_map_of_mem h)
        rw [edit_of_ne hother]
        exact ih hnodup.2 h

/-- Writing statuses is taking the committed one, or losing the row. -/
theorem editAll_statusWrite (statuses : OrderedMap Identity Status) (op : Operation) :
    editAll (statuses.entries.map fun e => Commit.statusWrite e.1 e.2) op =
      if (statuses.get? op.id).any Status.isTerminal then none
      else some { op with status := (statuses.get? op.id).getD op.status } := by
  cases hstatus : statuses.get? op.id with
  | none => exact editAll_statusWrite_of_notMem (OrderedMap.get?_eq_none_iff.1 hstatus)
  | some next =>
      have hmem := OrderedMap.get?_eq_some_iff.1 hstatus
      simpa using editAll_statusWrite_of_mem statuses.nodup_keys hmem

end RowWrite

namespace Commit

variable {c : Commit} {op : Operation}

/-- The new operations that get a row, as they are stored. -/
def newRows (c : Commit) : List Operation :=
  (c.newOperations.filter fun op => !op.finishesWhenApplied).map Operation.applyStaged

/-- The writes for operations that are not new. -/
def revisions (c : Commit) : List RowWrite :=
  (c.modified.filter c.writesModification).map .modify ++
    c.statuses.entries.map fun e => statusWrite e.1 e.2

theorem changeset_eq (c : Commit) : c.changeset = c.newRows.map .insert ++ c.revisions := by
  rw [changeset, newRows, revisions, List.map_map, List.append_assoc]
  rfl

/-- A new operation is not revised. -/
theorem id_ne_of_mem_revisions (h : c.IsConsistent) {w : RowWrite} (hw : w ∈ c.revisions)
    (hop : op ∈ c.newOperations) : w.id ≠ op.id := by
  intro heq
  rcases List.mem_append.1 hw with hw | hw
  · obtain ⟨m, hm, rfl⟩ := List.mem_map.1 hw
    have hwritten := (List.mem_filter.1 hm).2
    have hid : m.id = op.id := heq
    have hnew : c.isNew m.id = true := isNew_iff.2 ⟨op, hop, hid.symm⟩
    simp [writesModification, hnew] at hwritten
  · obtain ⟨e, he, rfl⟩ := List.mem_map.1 hw
    rw [RowWrite.id_statusWrite] at heq
    have hstatus := OrderedMap.get?_eq_some_iff.2 he
    rw [heq, h.statuses op hop] at hstatus
    cases hstatus

theorem insertsLast_changeset (h : c.IsConsistent) (hnodup : (c.newOperations.map (·.id)).Nodup) :
    MemoryStore.InsertsLast c.changeset := by
  rw [changeset_eq, MemoryStore.InsertsLast, List.pairwise_append]
  have hrows : (c.newRows.map (·.id)).Nodup := by
    have hids : c.newRows.map (·.id) =
        (c.newOperations.filter fun op => !op.finishesWhenApplied).map (·.id) := by
      rw [newRows, List.map_map]
      rfl
    rw [hids]
    exact (List.filter_sublist.map _).nodup hnodup
  refine ⟨?_, ?_, ?_⟩
  · rw [List.pairwise_map]
    apply (List.pairwise_map.1 hrows).imp
    intro _ _ hne new heq
    cases heq
    exact Ne.symm hne
  · have hnoInsert : ∀ w ∈ c.revisions, ∀ op, w ≠ .insert op := by
      rintro w hw op rfl
      rcases List.mem_append.1 hw with hw | hw
      · obtain ⟨m, -, hm⟩ := List.mem_map.1 hw
        cases hm
      · obtain ⟨e, -, he⟩ := List.mem_map.1 hw
        rw [statusWrite] at he
        split at he
        · cases he
        · cases he
    exact List.pairwise_of_forall_mem_list fun v hv w _ op heq => (hnoInsert v hv op heq).elim
  · rintro v hv w hw op rfl
    obtain ⟨row, hrow, hinsert⟩ := List.mem_map.1 hv
    cases hinsert
    obtain ⟨new, hnew, rfl⟩ := List.mem_map.1 hrow
    have hne := id_ne_of_mem_revisions h hw (List.mem_filter.1 hnew).1
    exact hne

/-- The identities that a commit is about. -/
def mentions (c : Commit) : List Identity :=
  c.newOperations.map (·.id) ++ c.modified.map (·.id) ++ c.statuses.keys

theorem mentions_stamp (c : Commit) (snapshot : Snapshot) :
    (c.stamp snapshot).mentions = c.mentions := by
  rw [mentions, map_id_newOperations_stamp]
  rfl

/-- The writes of a consistent commit that is about operations of one pipeline may be
made for it. -/
theorem isSound_changeset {owner : Identity → Int} {pipeline : Int} (h : c.IsConsistent)
    (howner : ∀ id ∈ c.mentions, owner id = pipeline) :
    ∀ w ∈ c.changeset, w.IsSound owner pipeline := by
  intro w hw
  rw [changeset_eq, List.mem_append] at hw
  rcases hw with hw | hw
  · obtain ⟨row, hrow, rfl⟩ := List.mem_map.1 hw
    obtain ⟨op, hop, rfl⟩ := List.mem_map.1 hrow
    obtain ⟨hnew, hstays⟩ := List.mem_filter.1 hop
    refine ⟨?_, ?_, fun id next heq => by cases heq⟩
    · have hmentioned : op.id ∈ c.mentions :=
        List.mem_append_left _ (List.mem_append_left _ (List.mem_map_of_mem hnew))
      exact howner op.id hmentioned
    · rintro stored heq
      cases heq
      refine ⟨?_, rfl⟩
      rw [Operation.isTerminal, Operation.applyStaged, Operation.effectiveStatus, h.pending op hnew]
      cases hstaged : op.staged with
      | none => rfl
      | some next => simpa [Operation.finishesWhenApplied, hstaged] using hstays
  · rcases List.mem_append.1 hw with hw | hw
    · obtain ⟨m, hm, rfl⟩ := List.mem_map.1 hw
      refine ⟨?_, ?_, ?_⟩
      · apply howner
        exact List.mem_append_left _
          (List.mem_append_right _ (List.mem_map_of_mem (List.mem_filter.1 hm).1))
      · intro op heq
        cases heq
      · intro id next heq
        cases heq
    · obtain ⟨e, he, rfl⟩ := List.mem_map.1 hw
      refine ⟨?_, ?_, ?_⟩
      · rw [RowWrite.id_statusWrite]
        apply howner
        exact List.mem_append_right _ (List.mem_map_of_mem he)
      · intro op heq
        rw [statusWrite] at heq
        split at heq
        · cases heq
        · cases heq
      · intro id next heq
        rw [statusWrite] at heq
        split at heq
        · cases heq
        · next hstays =>
          cases heq
          exact Bool.eq_false_iff.2 hstays

/-- What the writes of a commit make of an operation that is not new in it. -/
theorem editAll_changeset (hnew : ∀ new ∈ c.newOperations, new.id ≠ op.id) :
    RowWrite.editAll c.changeset op =
      if (c.statuses.get? op.id).any Status.isTerminal then none
      else some { op.modified (fun _ => true) c.modified with
        status := (c.statuses.get? op.id).getD op.status } := by
  have hinserts : RowWrite.editAll (c.newRows.map .insert) op = some op := by
    apply RowWrite.editAll_of_ne
    intro w hw
    obtain ⟨row, hrow, rfl⟩ := List.mem_map.1 hw
    obtain ⟨new, hmem, rfl⟩ := List.mem_map.1 hrow
    exact hnew new (List.mem_filter.1 hmem).1
  have hid (modifications : List Operation) :
      (op.modified (fun _ => true) modifications).id = op.id :=
    (Operation.keepsPlace_modified _ modifications).id op
  rw [changeset_eq, RowWrite.editAll_append, hinserts, Option.bind_some, revisions,
    RowWrite.editAll_append, RowWrite.editAll_modify, Option.bind_some,
    RowWrite.editAll_statusWrite, hid]
  by_cases hterminal : (c.statuses.get? op.id).any Status.isTerminal = true
  · rw [if_pos hterminal, if_pos hterminal]
  · have hwritten : ∀ m ∈ c.modified, m.id = op.id → c.writesModification m = true := by
      intro m _ heq
      have hold : c.isNew op.id = false := by
        rw [Bool.eq_false_iff]
        intro hisNew
        obtain ⟨new, hmem, heq'⟩ := isNew_iff.1 hisNew
        exact hnew new hmem heq'
      simp [writesModification, heq, hold, Bool.eq_false_iff.2 hterminal]
    rw [if_neg hterminal, if_neg hterminal, Operation.modified_filter hwritten,
      Operation.status_modified]
    simp only [hid]

theorem delete_mem_changeset_iff {id : Identity} :
    .delete id ∈ c.changeset ↔ (c.statuses.get? id).any Status.isTerminal = true := by
  rw [changeset_eq]
  simp only [revisions, List.mem_append, List.mem_map, reduceCtorEq, and_false, exists_false,
    false_or, Prod.exists]
  constructor
  · rintro ⟨other, next, hmem, hwrite⟩
    rw [statusWrite] at hwrite
    split at hwrite
    · next hterminal =>
      cases hwrite
      rw [OrderedMap.get?_eq_some_iff.2 hmem]
      exact hterminal
    · cases hwrite
  · intro hany
    obtain ⟨next, hnext, hterminal⟩ := (Option.any_eq_true _ _).1 hany
    exact ⟨id, next, OrderedMap.get?_eq_some_iff.1 hnext, if_pos hterminal⟩

/-- The new rows of a commit, under the numbers that they got. -/
theorem flatMap_inserted_changeset (c : Commit) (assigned : OrderedMap Identity Int) :
    c.changeset.flatMap (RowWrite.inserted assigned) =
      c.newRows.map fun op => { op with rowid := assigned.get? op.id } := by
  have hrevisions : c.revisions.flatMap (RowWrite.inserted assigned) = [] := by
    rw [List.flatMap_eq_nil_iff]
    intro w hw
    rcases List.mem_append.1 hw with hw | hw
    · obtain ⟨m, -, rfl⟩ := List.mem_map.1 hw
      rfl
    · obtain ⟨e, -, rfl⟩ := List.mem_map.1 hw
      rw [statusWrite]
      split <;> rfl
  rw [changeset_eq, List.flatMap_append, hrevisions, List.append_nil, List.flatMap_map]
  exact (List.map_eq_flatMap).symm

end Commit

end OperationQueue
