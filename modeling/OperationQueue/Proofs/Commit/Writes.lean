/-
# The row writes of staged requests

Staging moves an operation between the parts of a commit, and which part it is in depends on the
order of the requests. What is written in the end does not: for an operation that some request
adds or inserts the writes are its copies, and for any other they come from the last modification
and the last status that were asked for. This is read off the requests here, one identity at a
time. The copies themselves are taken from the commit, since a later request may still change them.
-/
import Mathlib.Data.List.Induction
import Mathlib.Data.List.Nodup
import OperationQueue.Proofs.Commit.Bare

namespace OperationQueue

namespace Staging

/-- The identity of the operation that a request makes new. -/
def newId? : Staging Operation → Option Identity
  | .add op | .insert op _ => some op.id
  | .modify _ | .status _ _ => none

/-- The modification of an operation that a request asks for. -/
def modification? (id : Identity) : Staging Operation → Option Operation
  | .modify op => if op.id = id then some op else none
  | .add _ | .insert _ _ | .status _ _ => none

/-- The status of an operation that a request asks for. -/
def status? (id : Identity) : Staging Operation → Option Status
  | .status other next => if other = id then some next else none
  | .add _ | .insert _ _ | .modify _ => none

/-- The operations that some requests make new, each as often as it is added or inserted. -/
def newIds (items : List (Staging Operation)) : List Identity := items.filterMap newId?

/-- The last modification of an operation among some requests. -/
def lastModification? (id : Identity) (items : List (Staging Operation)) : Option Operation :=
  (items.filterMap (modification? id)).getLast?

/-- The last status of an operation among some requests. -/
def lastStatus? (id : Identity) (items : List (Staging Operation)) : Option Status :=
  (items.filterMap (status? id)).getLast?

/-- The writes that are due for an operation that no request makes new: it loses its row if the
last status finishes it, and else takes its last modification and then its last status. -/
def writes (id : Identity) (items : List (Staging Operation)) : List RowWrite :=
  let modification := (lastModification? id items).map fun op => .modify { op with staged := none }
  match lastStatus? id items with
  | none => modification.toList
  | some next => if next.isTerminal then [.delete id] else modification.toList ++ [.status id next]

end Staging

/-- Where a write stands among all writes: the new rows come first and the statuses last. -/
def RowWrite.phase : RowWrite → Nat
  | .insert _ => 0
  | .modify _ => 1
  | .status _ _ | .delete _ => 2

namespace Operation

variable {id other : Identity} {f : Operation → Operation} {ops : List Operation} {m : Operation}

theorem find?_updateFirst_self (h : occurs id ops = true) (hid : m.id = id) :
    (updateFirst id (fun _ => m) ops).find? (·.id == id) = some m := by
  induction ops with
  | nil => cases h
  | cons op rest ih =>
      rw [updateFirst]
      by_cases hop : op.id = id
      · rw [if_pos hop, List.find?_cons_of_pos (by simpa using hid)]
      · have hrest : occurs id rest = true := by simpa [occurs, hop] using h
        rw [if_neg hop, List.find?_cons_of_neg (by simpa using hop), ih hrest]

theorem find?_updateFirst_of_ne (hid : ∀ op, op.id = other → (f op).id = other)
    (hne : id ≠ other) :
    (updateFirst other f ops).find? (·.id == id) = ops.find? (·.id == id) := by
  induction ops with
  | nil => rfl
  | cons op rest ih =>
      rw [updateFirst]
      by_cases hop : op.id = other
      · have hbefore : (op.id == id) = false := by simpa [hop] using Ne.symm hne
        have hafter : ((f op).id == id) = false := by simpa [hid op hop] using Ne.symm hne
        rw [if_pos hop, List.find?_cons, List.find?_cons, hbefore, hafter]
      · rw [if_neg hop, List.find?_cons, List.find?_cons, ih]

end Operation

namespace Commit

variable {c d : Commit} {id : Identity} {item : Staging Operation}

/-! ## What is new -/

/-- Changing a new operation keeps the identities of all of them. -/
theorem map_id_newOperations_of_updateNew? {f : Operation → Operation}
    (hf : ∀ op, op.id = id → (f op).id = id) (h : c.updateNew? id f = some d) :
    d.newOperations.map (·.id) = c.newOperations.map (·.id) := by
  rw [updateNew?] at h
  by_cases hadded : Operation.occurs id c.added = true
  · rw [if_pos hadded] at h
    cases h
    simp [newOperations, insertedOperations, Operation.map_id_updateFirst hf]
  · rw [if_neg hadded, Option.map_eq_some_iff] at h
    obtain ⟨⟨snapshot, ops⟩, hfound, rfl⟩ := h
    have hget : c.inserted.get? snapshot = some ops :=
      OrderedMap.get?_eq_some_iff.2 (List.mem_of_find?_eq_some hfound)
    obtain ⟨before, after, hold, hnew⟩ :=
      c.inserted.exists_entries_insert snapshot (Operation.updateFirst id f ops)
    simp only [newOperations, insertedOperations, OrderedMap.values, hnew, hold, hget]
    simp [Operation.map_id_updateFirst hf]

/-- Inserting an operation puts it among the new ones. -/
theorem newOperations_insert_perm (c : Commit) (op : Operation) (snapshot : Snapshot) :
    (c.insert op snapshot).newOperations.Perm (c.prepare op snapshot :: c.newOperations) := by
  obtain ⟨before, after, hold, hnew⟩ := c.inserted.exists_entries_insert snapshot
    ((c.inserted.get? snapshot).getD [] ++ [c.prepare op snapshot])
  simp only [newOperations, insertedOperations, OrderedMap.values, insert, hnew, hold]
  cases c.inserted.get? snapshot with
  | none => simp
  | some ops =>
      -- Here the operation comes behind those that wait for the same graph.
      have hmiddle : (((before.map (·.2)).flatten ++ ops) ++
          c.prepare op snapshot :: ((after.map (·.2)).flatten ++ c.added)).Perm
          (c.prepare op snapshot ::
            (((before.map (·.2)).flatten ++ ops) ++ ((after.map (·.2)).flatten ++ c.added))) :=
        List.perm_middle
      exact .trans (.of_eq (by simp)) (hmiddle.trans (.of_eq (by simp)))

/-- A request makes one operation new, or none. -/
theorem map_id_newOperations_stage (c : Commit) (item : Staging Operation) :
    ((c.stage item).newOperations.map (·.id)).Perm
      (c.newOperations.map (·.id) ++ item.newId?.toList) := by
  cases item with
  | add op => simp [stage, add, newOperations, insertedOperations, Staging.newId?, prepare]
  | insert op snapshot =>
      have hperm := (newOperations_insert_perm c op snapshot).map (·.id)
      exact hperm.trans (List.perm_append_singleton _ _).symm
  | modify op =>
      rw [stage, modify_eq, Staging.newId?, Option.toList_none, List.append_nil]
      have hid : ∀ old : Operation, old.id = op.id → (replacing op old).id = op.id := fun _ _ => rfl
      cases hupdate : c.updateNew? op.id (replacing op) with
      | some d =>
          rw [Option.getD_some, map_id_newOperations_of_updateNew? hid hupdate]
      | none => exact .refl _
  | status id next =>
      rw [stage, setStatus, Staging.newId?, Option.toList_none, List.append_nil]
      cases hupdate : c.updateNew? id fun op => { op with staged := some next } with
      | some d =>
          have hid (op : Operation) (h : op.id = id) :
              ({ op with staged := some next } : Operation).id = id := h
          exact .of_eq (map_id_newOperations_of_updateNew? hid hupdate)
      | none => exact .refl _

theorem stageAll_append (c : Commit) (items : List (Staging Operation)) (item : Staging Operation) :
    c.stageAll (items ++ [item]) = (c.stageAll items).stage item := by
  rw [stageAll, stageAll, List.foldl_append]
  rfl

/-- New in a commit is what the requests make new, each operation as often as they do. -/
theorem map_id_newOperations_stageAll (snapshot : Snapshot) (items : List (Staging Operation)) :
    (((new snapshot).stageAll items).newOperations.map (·.id)).Perm (Staging.newIds items) := by
  induction items using List.reverseRecOn with
  | nil => exact .refl _
  | append_singleton items item ih =>
      rw [stageAll_append, Staging.newIds, List.filterMap_append]
      have hlast : [item].filterMap Staging.newId? = item.newId?.toList := by
        cases hnew : item.newId? <;> simp [hnew]
      rw [hlast]
      exact (map_id_newOperations_stage _ item).trans (ih.append_right _)

theorem isNew_stageAll (snapshot : Snapshot) (items : List (Staging Operation)) (id : Identity) :
    ((new snapshot).stageAll items).isNew id = true ↔ id ∈ Staging.newIds items := by
  rw [isNew, Operation.occurs_iff, ← (map_id_newOperations_stageAll snapshot items).mem_iff,
    List.mem_map]

/-! ## What is not new -/

theorem updateNew?_eq_none {f : Operation → Operation} (h : c.isNew id = false) :
    c.updateNew? id f = none := by
  have hnew : ∀ op ∈ c.newOperations, op.id ≠ id := by
    intro op hop heq
    exact Bool.eq_false_iff.1 h (isNew_iff.2 ⟨op, hop, heq⟩)
  have hadded : ¬ Operation.occurs id c.added = true := by
    intro hoccurs
    obtain ⟨op, hop, heq⟩ := Operation.occurs_iff.1 hoccurs
    exact hnew op (mem_newOperations_iff.2 (.inr hop)) heq
  rw [updateNew?, if_neg hadded, Option.map_eq_none_iff, OrderedMap.find?, List.find?_eq_none]
  rintro ⟨snapshot, ops⟩ he hoccurs
  obtain ⟨op, hop, heq⟩ := Operation.occurs_iff.1 hoccurs
  have hget := OrderedMap.get?_eq_some_iff.2 he
  exact hnew op (mem_newOperations_iff.2 (.inl ⟨snapshot, ops, hget, hop⟩)) heq

/-- A status that is asked for takes the place of the one before, as long as the operation is not
new. -/
theorem get?_statuses_stage (hnew : c.isNew id = false) (hitem : item.newId? ≠ some id) :
    (c.stage item).statuses.get? id = (item.status? id).or (c.statuses.get? id) := by
  cases item with
  | add op =>
      have hne : id ≠ op.id := fun heq => hitem (heq ▸ rfl)
      exact OrderedMap.get?_erase_of_ne _ hne
  | insert op snapshot =>
      have hne : id ≠ op.id := fun heq => hitem (heq ▸ rfl)
      exact OrderedMap.get?_erase_of_ne _ hne
  | modify op =>
      rw [stage, modify_eq]
      cases hupdate : c.updateNew? op.id (replacing op) with
      | some d => exact congrArg (·.get? id) (revises_of_updateNew?_eq_some hupdate).statuses
      | none => rfl
  | status other next =>
      rw [stage, setStatus, Staging.status?]
      by_cases hid : other = id
      · subst hid
        rw [updateNew?_eq_none hnew, if_pos rfl]
        exact OrderedMap.get?_insert_self _ _ _
      · rw [if_neg hid, Option.none_or]
        cases hupdate : c.updateNew? other fun op => { op with staged := some next } with
        | some d => exact congrArg (·.get? id) (revises_of_updateNew?_eq_some hupdate).statuses
        | none => exact OrderedMap.get?_insert_of_ne _ (Ne.symm hid) _

theorem find?_withModification_self (c : Commit) (m : Operation) :
    (c.withModification m).modified.find? (·.id == m.id) = some m := by
  rw [withModification]
  by_cases hoccurs : Operation.occurs m.id c.modified = true
  · rw [if_pos hoccurs, Operation.find?_updateFirst_self hoccurs rfl]
  · have hnone : c.modified.find? (·.id == m.id) = none :=
      Operation.find?_eq_none_of_notMem fun hmem =>
        hoccurs (Operation.occurs_iff.2 (List.mem_map.1 hmem))
    rw [if_neg hoccurs, List.find?_append, hnone, Option.none_or]
    simp

theorem find?_withModification_of_ne {m : Operation} (h : id ≠ m.id) :
    (c.withModification m).modified.find? (·.id == id) = c.modified.find? (·.id == id) := by
  rw [withModification]
  by_cases hoccurs : Operation.occurs m.id c.modified = true
  · rw [if_pos hoccurs, Operation.find?_updateFirst_of_ne (fun _ _ => rfl) h]
  · have hne : (m.id == id) = false := by simpa using Ne.symm h
    rw [if_neg hoccurs, List.find?_append]
    simp [hne]

/-- A modification that is asked for takes the place of the one before, as long as the operation
is not new. -/
theorem find?_modified_stage (hnew : c.isNew id = false) :
    (c.stage item).modified.find? (·.id == id) =
      ((item.modification? id).map Operation.unstaged).or (c.modified.find? (·.id == id)) := by
  cases item with
  | add op => rfl
  | insert op snapshot => rfl
  | modify op =>
      rw [stage, modify_eq, Staging.modification?]
      by_cases hid : op.id = id
      · subst hid
        rw [updateNew?_eq_none hnew, if_pos rfl]
        exact find?_withModification_self c op.unstaged
      · rw [if_neg hid, Option.map_none, Option.none_or]
        cases hupdate : c.updateNew? op.id (replacing op) with
        | some d =>
            rw [Option.getD_some, (revises_of_updateNew?_eq_some hupdate).modified]
        | none => exact find?_withModification_of_ne (m := op.unstaged) (Ne.symm hid)
  | status other next =>
      rw [stage, setStatus, Staging.modification?, Option.map_none, Option.none_or]
      cases hupdate : c.updateNew? other fun op => { op with staged := some next } with
      | some d => rw [(revises_of_updateNew?_eq_some hupdate).modified]
      | none => rfl

/-- For an operation that no request makes new, a commit holds the last status and the last
modification that were asked for. -/
theorem stageAll_of_notMem_newIds (snapshot : Snapshot) {items : List (Staging Operation)}
    (h : id ∉ Staging.newIds items) :
    ((new snapshot).stageAll items).statuses.get? id = Staging.lastStatus? id items ∧
      ((new snapshot).stageAll items).modified.find? (·.id == id) =
        (Staging.lastModification? id items).map Operation.unstaged := by
  induction items using List.reverseRecOn with
  | nil => exact ⟨rfl, rfl⟩
  | append_singleton items item ih =>
      rw [Staging.newIds, List.filterMap_append, List.mem_append, not_or] at h
      obtain ⟨hstatus, hmodified⟩ := ih h.1
      have hnew : ((new snapshot).stageAll items).isNew id = false :=
        Bool.eq_false_iff.2 fun hnew => h.1 ((isNew_stageAll snapshot items id).1 hnew)
      have hitem : item.newId? ≠ some id := fun heq => h.2 (by simp [heq])
      rw [stageAll_append, get?_statuses_stage hnew hitem, find?_modified_stage hnew, hstatus,
        hmodified, Staging.lastStatus?, Staging.lastStatus?, Staging.lastModification?,
        Staging.lastModification?, List.filterMap_append, List.filterMap_append,
        List.getLast?_append, List.getLast?_append]
      constructor
      · cases hlast : item.status? id <;> simp [hlast]
      · cases hlast : item.modification? id <;> simp [hlast]

/-! ## The writes for one operation -/

/-- In a list that names nothing twice at most one member has a name. -/
private theorem filter_eq_toList_find? {α κ : Type} [DecidableEq κ] {f : α → κ} {l : List α}
    (h : (l.map f).Nodup) (key : κ) :
    l.filter (f · == key) = (l.find? (f · == key)).toList := by
  induction l with
  | nil => rfl
  | cons a rest ih =>
      obtain ⟨hfirst, hrest⟩ := List.nodup_cons.1 h
      by_cases ha : f a = key
      · have hnone : rest.filter (f · == key) = [] := by
          rw [List.filter_eq_nil_iff]
          intro b hb heq
          exact hfirst (List.mem_map.2 ⟨b, hb, (beq_iff_eq.1 heq).trans ha.symm⟩)
        rw [List.filter_cons_of_pos (by simpa using ha), hnone,
          List.find?_cons_of_pos (by simpa using ha)]
        rfl
      · rw [List.filter_cons_of_neg (by simpa using ha), ih hrest,
          List.find?_cons_of_neg (by simpa using ha)]

private theorem find?_entries {α : Type} (m : OrderedMap Identity α) (id : Identity) :
    m.entries.find? (·.1 == id) = (m.get? id).map (id, ·) := by
  rw [OrderedMap.get?]
  induction m.entries with
  | nil => rfl
  | cons e rest ih =>
      obtain ⟨other, a⟩ := e
      rw [OrderedMap.lookup]
      by_cases hid : other = id
      · simp [hid]
      · have hne : compare id other ≠ .eq := fun heq =>
          hid (Std.LawfulEqCmp.compare_eq_iff_eq.1 heq).symm
        rw [if_neg hne, List.find?_cons_of_neg (by simpa using hid), ih]

theorem filter_id_newRows (c : Commit) (id : Identity) :
    (c.newRows.map RowWrite.insert).filter (·.id == id) =
      ((c.newOperations.filter (·.id == id)).filter (!·.finishesWhenApplied)).map
        fun op => .insert op.applyStaged := by
  have hcomm : (c.newOperations.filter (·.id == id)).filter (!·.finishesWhenApplied) =
      (c.newOperations.filter (!·.finishesWhenApplied)).filter (·.id == id) := List.filter_comm ..
  rw [newRows, List.map_map, List.filter_map, hcomm]
  rfl

/-- The modification of an operation is written unless the operation finishes. -/
theorem filter_id_modifications (h : c.IsConsistent) (hnew : c.isNew id = false) :
    ((c.modified.filter c.writesModification).map RowWrite.modify).filter (·.id == id) =
      if (c.statuses.get? id).any Status.isTerminal then []
      else ((c.modified.find? (·.id == id)).map RowWrite.modify).toList := by
  have hmap : ((c.modified.filter c.writesModification).map RowWrite.modify).filter (·.id == id) =
      ((c.modified.filter c.writesModification).filter (·.id == id)).map RowWrite.modify :=
    List.filter_map
  have hfilter : (c.modified.filter c.writesModification).filter (·.id == id) =
      (c.modified.find? (·.id == id)).toList.filter c.writesModification := by
    rw [← filter_eq_toList_find? h.modified, List.filter_comm]
  rw [hmap, hfilter]
  cases hfound : c.modified.find? (·.id == id) with
  | none => simp
  | some m =>
      have hid : m.id = id := by simpa using List.find?_some hfound
      have hwrites : c.writesModification m = !(c.statuses.get? id).any Status.isTerminal := by
        rw [writesModification, hid, hnew, Bool.not_false, Bool.and_true]
      by_cases hterminal : (c.statuses.get? id).any Status.isTerminal = true
      · simp [hwrites, hterminal]
      · simp [hwrites, hterminal]

/-- The status of an operation is written, or its row deleted. -/
theorem filter_id_statusWrites (c : Commit) (id : Identity) :
    (c.statuses.entries.map fun e => statusWrite e.1 e.2).filter (·.id == id) =
      ((c.statuses.get? id).map (statusWrite id)).toList := by
  have hentries : c.statuses.entries.filter (·.1 == id) =
      ((c.statuses.get? id).map (id, ·)).toList := by
    rw [filter_eq_toList_find? c.statuses.nodup_keys, find?_entries]
  rw [List.filter_map]
  simp only [Function.comp_def, RowWrite.id_statusWrite, hentries]
  cases c.statuses.get? id <;> rfl

/-- A new operation is not revised, and another one by its last modification and status. -/
theorem filter_id_revisions_stageAll (snapshot : Snapshot) (items : List (Staging Operation))
    (id : Identity) :
    ((new snapshot).stageAll items).revisions.filter (·.id == id) =
      if id ∈ Staging.newIds items then [] else Staging.writes id items := by
  have hconsistent := ((Built.new snapshot).stageAll items).isConsistent
  by_cases hid : id ∈ Staging.newIds items
  · obtain ⟨op, hop, rfl⟩ := isNew_iff.1 ((isNew_stageAll snapshot items id).2 hid)
    rw [if_pos hid, List.filter_eq_nil_iff]
    intro w hw heq
    exact id_ne_of_mem_revisions hconsistent hw hop (beq_iff_eq.1 heq)
  · have hnew : ((new snapshot).stageAll items).isNew id = false :=
      Bool.eq_false_iff.2 fun hnew => hid ((isNew_stageAll snapshot items id).1 hnew)
    obtain ⟨hstatus, hmodified⟩ := stageAll_of_notMem_newIds snapshot hid
    rw [if_neg hid, revisions, List.filter_append, filter_id_modifications hconsistent hnew,
      filter_id_statusWrites, hstatus, hmodified, Staging.writes, Option.map_map]
    cases Staging.lastStatus? id items with
    | none => simp; rfl
    | some next =>
        by_cases hterminal : next.isTerminal = true
        · simp [statusWrite, hterminal]
        · simp [statusWrite, hterminal]; rfl

/-- Every copy of an operation that is new gets a row, unless it finishes at once. -/
theorem filter_id_newRows_stageAll (snapshot : Snapshot) (items : List (Staging Operation))
    (id : Identity) :
    (((new snapshot).stageAll items).newRows.map RowWrite.insert).filter (·.id == id) =
      ((((new snapshot).stageAll items).newOperations.filter (·.id == id)).filter
        (!·.finishesWhenApplied)).map fun op =>
          .insert { op with status := op.staged.getD .pending, staged := none } := by
  rw [filter_id_newRows]
  apply List.map_congr_left
  intro op hop
  have hmem := List.mem_of_mem_filter (List.mem_of_mem_filter hop)
  have hpending : op.status = .pending :=
    ((Built.new snapshot).stageAll items).isConsistent.pending op hmem
  rw [Operation.applyStaged, Operation.effectiveStatus, hpending]

theorem length_filter_id_newOperations_stageAll (snapshot : Snapshot)
    (items : List (Staging Operation)) (id : Identity) :
    (((new snapshot).stageAll items).newOperations.filter (·.id == id)).length =
      (Staging.newIds items).count id := by
  rw [← (map_id_newOperations_stageAll snapshot items).count_eq, List.count_eq_length_filter,
    List.filter_map, List.length_map]
  rfl

theorem eq_singleton_of_delete_mem_writes {items : List (Staging Operation)}
    (h : .delete id ∈ Staging.writes id items) : Staging.writes id items = [.delete id] := by
  rw [Staging.writes] at h ⊢
  cases hstatus : Staging.lastStatus? id items with
  | none => simp [hstatus] at h
  | some next =>
      by_cases hterminal : next.isTerminal = true
      · exact if_pos hterminal
      · simp [hstatus, hterminal] at h

/-- Every write comes after those of the phases before its own. -/
theorem pairwise_phase_changeset (c : Commit) :
    c.changeset.Pairwise fun v w => v.phase ≤ w.phase := by
  have hinserts : ∀ w ∈ c.newRows.map RowWrite.insert, w.phase = 0 := by
    intro w hw
    obtain ⟨op, -, rfl⟩ := List.mem_map.1 hw
    rfl
  have hmodifications :
      ∀ w ∈ (c.modified.filter c.writesModification).map RowWrite.modify, w.phase = 1 := by
    intro w hw
    obtain ⟨op, -, rfl⟩ := List.mem_map.1 hw
    rfl
  have hstatuses : ∀ w ∈ c.statuses.entries.map fun e => statusWrite e.1 e.2, w.phase = 2 := by
    intro w hw
    obtain ⟨e, -, rfl⟩ := List.mem_map.1 hw
    rw [statusWrite]
    split <;> rfl
  have hconstant {phase : Nat} {l : List RowWrite} (h : ∀ w ∈ l, w.phase = phase) :
      l.Pairwise fun v w => v.phase ≤ w.phase :=
    List.pairwise_of_forall_mem_list fun v hv w hw =>
      Nat.le_of_eq ((h v hv).trans (h w hw).symm)
  rw [changeset_eq, revisions, List.pairwise_append, List.pairwise_append]
  refine ⟨hconstant hinserts, ⟨hconstant hmodifications, hconstant hstatuses, ?_⟩, ?_⟩
  · intro v hv w hw
    rw [hmodifications v hv, hstatuses w hw]
    decide
  · intro v hv w _
    rw [hinserts v hv]
    exact Nat.zero_le _

/-- The copies of an operation that requests make new get a row each, with the status that is
staged for them, unless that finishes them, and nothing else is written for it. For any other
operation the last modification and the last status decide. No other write goes with a deletion,
and the writes are made in three phases. -/
theorem filter_id_changeset_stageAll (snapshot : Snapshot) (items : List (Staging Operation))
    (id : Identity) :
    let c := (new snapshot).stageAll items
    let copies := c.newOperations.filter (·.id == id)
    copies.length = (Staging.newIds items).count id ∧
      c.changeset.filter (·.id == id) =
        (if id ∈ Staging.newIds items then
          (copies.filter (!·.finishesWhenApplied)).map fun op =>
            .insert { op with status := op.staged.getD .pending, staged := none }
        else Staging.writes id items) ∧
      (.delete id ∈ c.changeset → c.changeset.filter (·.id == id) = [.delete id]) ∧
      c.changeset.Pairwise fun v w => v.phase ≤ w.phase := by
  intro c copies
  have hlength : copies.length = (Staging.newIds items).count id :=
    length_filter_id_newOperations_stageAll snapshot items id
  have hwrites : c.changeset.filter (·.id == id) =
      if id ∈ Staging.newIds items then
        (copies.filter (!·.finishesWhenApplied)).map fun op =>
          .insert { op with status := op.staged.getD .pending, staged := none }
      else Staging.writes id items := by
    rw [changeset_eq, List.filter_append, filter_id_revisions_stageAll, filter_id_newRows_stageAll]
    by_cases hid : id ∈ Staging.newIds items
    · rw [if_pos hid, if_pos hid, List.append_nil]
    · have hcopies : copies = [] := by
        rw [← List.length_eq_zero_iff, hlength, List.count_eq_zero]
        exact hid
      rw [if_neg hid, if_neg hid]
      exact congrArg (fun copies : List Operation => (copies.filter _).map _ ++ _) hcopies
  refine ⟨hlength, hwrites, fun hdelete => ?_, pairwise_phase_changeset c⟩
  have hmem : .delete id ∈ c.changeset.filter (·.id == id) :=
    List.mem_filter.2 ⟨hdelete, beq_self_eq_true id⟩
  rw [hwrites] at hmem ⊢
  by_cases hid : id ∈ Staging.newIds items
  · simp [hid] at hmem
  · rw [if_neg hid] at hmem ⊢
    exact eq_singleton_of_delete_mem_writes hmem

/-- A status that is staged before its operation is written with the new row. -/
example :
    ((new 4).stageAll [.status default .active, .add (.new default)]).changeset =
      [.insert { Operation.new default with snapshot := 4, status := .active }] := by
  decide

end Commit

end OperationQueue
