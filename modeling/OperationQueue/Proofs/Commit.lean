/-
# Commits that are staged

A commit is made by staging requests, and a transaction numbers it afterwards. Staging
keeps a commit consistent in itself: an operation that is new in it carries its own
status, under the snapshot of its graph, and each modified operation is listed once. A
store and a queue both rely on this when they carry the commit out.
-/
import OperationQueue.Commit
import OperationQueue.Proofs.Operation
import OperationQueue.Proofs.OrderedMap
import Mathlib.Data.List.Nodup

namespace OperationQueue

namespace Operation

theorem occurs_iff {id : Identity} {ops : List Operation} :
    occurs id ops = true ↔ ∃ op ∈ ops, op.id = id := by
  simp [occurs]

theorem occurs_map {f : Operation → Operation} (h : ∀ op, (f op).id = op.id) (id : Identity)
    (ops : List Operation) : occurs id (ops.map f) = occurs id ops := by
  simp [occurs, Function.comp_def, h]

theorem find?_eq_none_of_notMem {id : Identity} {ops : List Operation} (h : id ∉ ops.map (·.id)) :
    ops.find? (·.id == id) = none := by
  rw [List.find?_eq_none]
  intro op hop heq
  exact h (List.mem_map.2 ⟨op, hop, beq_iff_eq.1 heq⟩)

/-- An operation that learns its row number. -/
def numbered (rowids : OrderedMap Identity Int) (op : Operation) : Operation :=
  { op with rowid := (rowids.get? op.id).or op.rowid }

@[simp]
theorem id_numbered (rowids : OrderedMap Identity Int) (op : Operation) :
    (op.numbered rowids).id = op.id := rfl

theorem mem_of_mem_updateFirst {id : Identity} {f : Operation → Operation} {ops : List Operation}
    {op : Operation} (h : op ∈ updateFirst id f ops) :
    op ∈ ops ∨ ∃ old ∈ ops, old.id = id ∧ op = f old := by
  induction ops with
  | nil => cases h
  | cons first rest ih =>
      rw [updateFirst] at h
      by_cases hid : first.id = id
      · rw [if_pos hid] at h
        rcases List.mem_cons.1 h with rfl | h
        · exact .inr ⟨first, List.mem_cons_self, hid, rfl⟩
        · exact .inl (List.mem_cons_of_mem _ h)
      · rw [if_neg hid] at h
        rcases List.mem_cons.1 h with rfl | h
        · exact .inl List.mem_cons_self
        · rcases ih h with h | ⟨old, hold, hid', rfl⟩
          · exact .inl (List.mem_cons_of_mem _ h)
          · exact .inr ⟨old, List.mem_cons_of_mem _ hold, hid', rfl⟩

theorem map_id_updateFirst {id : Identity} {f : Operation → Operation}
    (hf : ∀ op, op.id = id → (f op).id = id) (ops : List Operation) :
    (updateFirst id f ops).map (·.id) = ops.map (·.id) := by
  induction ops with
  | nil => rfl
  | cons first rest ih =>
      rw [updateFirst]
      by_cases hid : first.id = id
      · rw [if_pos hid, List.map_cons, List.map_cons, hf first hid, hid]
      · rw [if_neg hid, List.map_cons, List.map_cons, ih]

/-- An edit that two operations take over alike may be made before or after it. -/
theorem map_updateFirst {g : Operation → Operation} (hid : ∀ op, (g op).id = op.id)
    (f f' : Operation → Operation) (hf : ∀ op, g (f op) = f' (g op)) (id : Identity)
    (ops : List Operation) :
    (updateFirst id f ops).map g = updateFirst id f' (ops.map g) := by
  induction ops with
  | nil => rfl
  | cons first rest ih =>
      rw [updateFirst, List.map_cons, updateFirst, hid]
      by_cases hfirst : first.id = id
      · rw [if_pos hfirst, if_pos hfirst, List.map_cons, hf]
      · rw [if_neg hfirst, if_neg hfirst, List.map_cons, ih]

end Operation

namespace Commit

variable {c d : Commit} {id : Identity}

/-- A commit that staging and numbering lead to. -/
inductive Built : Commit → Prop
  | new (snapshot : Snapshot) : Built (.new snapshot)
  | stage {c : Commit} (built : Built c) (item : Staging Operation) : Built (c.stage item)
  | stamp {c : Commit} (built : Built c) (snapshot : Snapshot) : Built (c.stamp snapshot)
  | assignRowids {c : Commit} (built : Built c) (rowids : OrderedMap Identity Int) :
      Built (c.assignRowids rowids)

/-- The statuses of a commit are about other operations than its new ones. These wait,
each under the snapshot of its graph, and no operation is modified twice. -/
structure IsConsistent (c : Commit) : Prop where
  statuses : ∀ op ∈ c.newOperations, c.statuses.get? op.id = none
  pending : ∀ op ∈ c.newOperations, op.status = .pending
  added : ∀ op ∈ c.added, op.snapshot = c.snapshot
  inserted : ∀ {snapshot ops}, c.inserted.get? snapshot = some ops →
    ∀ op ∈ ops, op.snapshot = snapshot
  modified : (c.modified.map (·.id)).Nodup

theorem isNew_iff : c.isNew id = true ↔ ∃ op ∈ c.newOperations, op.id = id :=
  Operation.occurs_iff

theorem mem_insertedOperations_iff {op : Operation} :
    op ∈ c.insertedOperations ↔ ∃ snapshot ops, c.inserted.get? snapshot = some ops ∧ op ∈ ops := by
  simp only [insertedOperations, List.mem_flatten, OrderedMap.mem_values_iff]
  constructor
  · rintro ⟨ops, ⟨snapshot, hops⟩, hop⟩
    exact ⟨snapshot, ops, hops, hop⟩
  · rintro ⟨snapshot, ops, hops, hop⟩
    exact ⟨ops, ⟨snapshot, hops⟩, hop⟩

theorem mem_newOperations_iff {op : Operation} :
    op ∈ c.newOperations ↔
      (∃ snapshot ops, c.inserted.get? snapshot = some ops ∧ op ∈ ops) ∨ op ∈ c.added := by
  rw [newOperations, List.mem_append, mem_insertedOperations_iff]

/-- What inserting an operation adds to the new operations for other graphs. -/
theorem get?_inserted_insert {snapshot : Snapshot} {op : Operation} {t : Snapshot}
    {ops : List Operation} (h : (c.insert op snapshot).inserted.get? t = some ops) {other : Operation}
    (hother : other ∈ ops) :
    (∃ old, c.inserted.get? t = some old ∧ other ∈ old) ∨
      t = snapshot ∧ other = c.prepare op snapshot := by
  by_cases ht : t = snapshot
  · subst ht
    simp only [insert, OrderedMap.get?_insert_self, Option.some.injEq] at h
    rw [← h] at hother
    rcases List.mem_append.1 hother with hother | hother
    · cases hold : c.inserted.get? t with
      | none => simp [hold] at hother
      | some old => exact .inl ⟨old, rfl, by simpa [hold] using hother⟩
    · exact .inr ⟨rfl, List.mem_singleton.1 hother⟩
  · simp only [insert, OrderedMap.get?_insert_of_ne _ ht] at h
    exact .inl ⟨ops, h, hother⟩

/-- A new operation is finished when it joins exactly if it is staged to finish. -/
theorem IsConsistent.isTerminal_applyStaged (h : c.IsConsistent) {op : Operation}
    (hop : op ∈ c.newOperations) : op.applyStaged.isTerminal = op.finishesWhenApplied := by
  have hpending := h.pending op hop
  rw [Operation.isTerminal, Operation.applyStaged, Operation.effectiveStatus, hpending,
    Operation.finishesWhenApplied]
  cases op.staged with
  | none => rfl
  | some next => rfl

/-! ## Changing a new operation -/

/-- Whether a change of a new operation kept the rest of the commit, and what it made of
the new operations. -/
structure Revises (f : Operation → Operation) (id : Identity) (c d : Commit) : Prop where
  snapshot : d.snapshot = c.snapshot
  modified : d.modified = c.modified
  statuses : d.statuses = c.statuses
  added : ∀ op ∈ d.added, op ∈ c.added ∨ ∃ old ∈ c.added, old.id = id ∧ op = f old
  inserted : ∀ {snapshot ops}, d.inserted.get? snapshot = some ops → ∀ op ∈ ops,
    ∃ olds, c.inserted.get? snapshot = some olds ∧
      (op ∈ olds ∨ ∃ old ∈ olds, old.id = id ∧ op = f old)

theorem revises_of_updateNew?_eq_some {f : Operation → Operation}
    (h : c.updateNew? id f = some d) : Revises f id c d := by
  rw [updateNew?] at h
  by_cases hadded : Operation.occurs id c.added = true
  · rw [if_pos hadded] at h
    cases h
    exact ⟨rfl, rfl, rfl, fun op hop => Operation.mem_of_mem_updateFirst hop,
      fun hops op hop => ⟨_, hops, .inl hop⟩⟩
  · rw [if_neg hadded, Option.map_eq_some_iff] at h
    obtain ⟨⟨snapshot, olds⟩, hfound, rfl⟩ := h
    have holds : c.inserted.get? snapshot = some olds :=
      OrderedMap.get?_eq_some_iff.2 (List.mem_of_find?_eq_some hfound)
    refine ⟨rfl, rfl, rfl, fun op hop => .inl hop, fun {t ops} hops op hop => ?_⟩
    by_cases ht : t = snapshot
    · subst ht
      simp only [OrderedMap.get?_insert_self, Option.some.injEq] at hops
      rw [← hops] at hop
      exact ⟨olds, holds, Operation.mem_of_mem_updateFirst hop⟩
    · simp only [OrderedMap.get?_insert_of_ne _ ht] at hops
      exact ⟨ops, hops, .inl hop⟩

theorem not_isNew_of_updateNew?_eq_none {f : Operation → Operation}
    (h : c.updateNew? id f = none) : ∀ op ∈ c.newOperations, op.id ≠ id := by
  rw [updateNew?] at h
  by_cases hadded : Operation.occurs id c.added = true
  · rw [if_pos hadded] at h
    cases h
  · rw [if_neg hadded, Option.map_eq_none_iff] at h
    rintro op hop rfl
    rcases mem_newOperations_iff.1 hop with ⟨snapshot, ops, hops, hop⟩ | hop
    · have hnone := List.find?_eq_none.1 h _ (OrderedMap.get?_eq_some_iff.1 hops)
      exact hnone (Operation.occurs_iff.2 ⟨op, hop, rfl⟩)
    · exact hadded (Operation.occurs_iff.2 ⟨op, hop, rfl⟩)

theorem Revises.mem_newOperations {f : Operation → Operation} (h : Revises f id c d)
    {op : Operation} (hop : op ∈ d.newOperations) :
    op ∈ c.newOperations ∨ ∃ old ∈ c.newOperations, old.id = id ∧ op = f old := by
  rcases mem_newOperations_iff.1 hop with ⟨snapshot, ops, hops, hop⟩ | hop
  · obtain ⟨olds, holds, hop⟩ := h.inserted hops op hop
    have hnew {old : Operation} (hold : old ∈ olds) : old ∈ c.newOperations :=
      mem_newOperations_iff.2 (.inl ⟨snapshot, olds, holds, hold⟩)
    rcases hop with hop | ⟨old, hold, hid, rfl⟩
    · exact .inl (hnew hop)
    · exact .inr ⟨old, hnew hold, hid, rfl⟩
  · have hnew {old : Operation} (hold : old ∈ c.added) : old ∈ c.newOperations :=
      mem_newOperations_iff.2 (.inr hold)
    rcases h.added op hop with hop | ⟨old, hold, hid, rfl⟩
    · exact .inl (hnew hop)
    · exact .inr ⟨old, hnew hold, hid, rfl⟩

/-- Changing a new operation without moving it keeps a commit consistent. -/
theorem IsConsistent.revise (h : c.IsConsistent) {f : Operation → Operation}
    (hrevises : Revises f id c d) (hid : ∀ op, op.id = id → (f op).id = id)
    (hsnapshot : ∀ op, (f op).snapshot = op.snapshot)
    (hstatus : ∀ op, op.status = .pending → (f op).status = .pending) : d.IsConsistent where
  statuses op hop := by
    rw [hrevises.statuses]
    rcases hrevises.mem_newOperations hop with hop | ⟨old, hold, hid', rfl⟩
    · exact h.statuses op hop
    · rw [hid old hid', ← hid']
      exact h.statuses old hold
  pending op hop := by
    rcases hrevises.mem_newOperations hop with hop | ⟨old, hold, -, rfl⟩
    · exact h.pending op hop
    · exact hstatus old (h.pending old hold)
  added op hop := by
    rw [hrevises.snapshot]
    rcases hrevises.added op hop with hop | ⟨old, hold, -, rfl⟩
    · exact h.added op hop
    · rw [hsnapshot, h.added old hold]
  inserted hops op hop := by
    obtain ⟨olds, holds, hop⟩ := hrevises.inserted hops op hop
    rcases hop with hop | ⟨old, hold, -, rfl⟩
    · exact h.inserted holds op hop
    · rw [hsnapshot, h.inserted holds old hold]
  modified := by rw [hrevises.modified]; exact h.modified

/-! ## Staging -/

/-- A status that waits for an operation goes over to it when it is staged. -/
private theorem get?_erase_eq_none (h : c.statuses.get? id = none) (other : Identity) :
    (c.statuses.erase other).get? id = none := by
  by_cases hid : id = other
  · rw [hid]
    exact OrderedMap.get?_erase_self _ _
  · rwa [OrderedMap.get?_erase_of_ne _ hid]

theorem IsConsistent.add (h : c.IsConsistent) (op : Operation) : (c.add op).IsConsistent where
  statuses other hother := by
    rcases mem_newOperations_iff.1 hother with ⟨snapshot, ops, hops, hother⟩ | hother
    · exact get?_erase_eq_none
        (h.statuses other (mem_newOperations_iff.2 (.inl ⟨snapshot, ops, hops, hother⟩))) _
    · rcases List.mem_append.1 hother with hother | hother
      · exact get?_erase_eq_none (h.statuses other (mem_newOperations_iff.2 (.inr hother))) _
      · rw [List.mem_singleton.1 hother]
        exact OrderedMap.get?_erase_self _ _
  pending other hother := by
    rcases mem_newOperations_iff.1 hother with ⟨snapshot, ops, hops, hother⟩ | hother
    · exact h.pending other (mem_newOperations_iff.2 (.inl ⟨snapshot, ops, hops, hother⟩))
    · rcases List.mem_append.1 hother with hother | hother
      · exact h.pending other (mem_newOperations_iff.2 (.inr hother))
      · rw [List.mem_singleton.1 hother]
        rfl
  added other hother := by
    rcases List.mem_append.1 hother with hother | hother
    · exact h.added other hother
    · rw [List.mem_singleton.1 hother]
      rfl
  inserted hops := h.inserted hops
  modified := h.modified

theorem IsConsistent.insert (h : c.IsConsistent) (op : Operation) (snapshot : Snapshot) :
    (c.insert op snapshot).IsConsistent := by
  have hnew : ∀ other ∈ (c.insert op snapshot).newOperations,
      other ∈ c.newOperations ∨ other = c.prepare op snapshot := by
    intro other hother
    rcases mem_newOperations_iff.1 hother with ⟨t, ops, hops, hother⟩ | hother
    · rcases get?_inserted_insert hops hother with ⟨old, hold, hother⟩ | ⟨-, rfl⟩
      · exact .inl (mem_newOperations_iff.2 (.inl ⟨t, old, hold, hother⟩))
      · exact .inr rfl
    · exact .inl (mem_newOperations_iff.2 (.inr hother))
  refine ⟨fun other hother => ?_, fun other hother => ?_, h.added,
    fun {t ops} hops other hother => ?_, h.modified⟩
  · rcases hnew other hother with hother | rfl
    · exact get?_erase_eq_none (h.statuses other hother) _
    · exact OrderedMap.get?_erase_self _ _
  · rcases hnew other hother with hother | rfl
    · exact h.pending other hother
    · rfl
  · rcases get?_inserted_insert hops hother with ⟨old, hold, hother⟩ | ⟨rfl, rfl⟩
    · exact h.inserted hold other hother
    · rfl

theorem IsConsistent.modify (h : c.IsConsistent) (op : Operation) : (c.modify op).IsConsistent := by
  rw [Commit.modify]
  dsimp only
  cases hupdate : c.updateNew? op.id fun old =>
      { op with snapshot := old.snapshot, status := .pending, staged := old.staged } with
  | some d =>
      exact h.revise (revises_of_updateNew?_eq_some hupdate) (fun _ _ => rfl) (fun _ => rfl)
        fun _ _ => rfl
  | none =>
      refine ⟨h.statuses, h.pending, h.added, h.inserted, ?_⟩
      dsimp only
      by_cases hoccurs : Operation.occurs op.id c.modified = true
      · have hid : ∀ old : Operation, old.id = op.id →
            ({ op with staged := none } : Operation).id = op.id := fun _ _ => rfl
        have hids := Operation.map_id_updateFirst hid c.modified
        rw [if_pos hoccurs, hids]
        exact h.modified
      · rw [if_neg hoccurs, List.map_append, List.map_singleton, List.nodup_append]
        refine ⟨h.modified, List.nodup_singleton _, fun a ha b hb heq => hoccurs ?_⟩
        obtain ⟨other, hother, rfl⟩ := List.mem_map.1 ha
        exact Operation.occurs_iff.2 ⟨other, hother, heq.trans (List.mem_singleton.1 hb)⟩

theorem IsConsistent.setStatus (h : c.IsConsistent) (id : Identity) (next : Status) :
    (c.setStatus id next).IsConsistent := by
  rw [Commit.setStatus]
  cases hupdate : c.updateNew? id fun op => { op with staged := some next } with
  | some d =>
      exact h.revise (revises_of_updateNew?_eq_some hupdate) (fun _ hid => hid) (fun _ => rfl)
        fun _ hstatus => hstatus
  | none =>
      refine ⟨fun op hop => ?_, h.pending, h.added, h.inserted, h.modified⟩
      rw [OrderedMap.get?_insert_of_ne _ (not_isNew_of_updateNew?_eq_none hupdate op hop)]
      exact h.statuses op hop

/-- Numbering a commit changes a new operation in its snapshot at most. -/
theorem exists_of_mem_newOperations_stamp {snapshot : Snapshot} {op : Operation}
    (hop : op ∈ (c.stamp snapshot).newOperations) :
    ∃ old ∈ c.newOperations, op = { old with snapshot := op.snapshot } := by
  rcases mem_newOperations_iff.1 hop with hop | hop
  · exact ⟨op, mem_newOperations_iff.2 (.inl hop), rfl⟩
  · obtain ⟨old, hold, rfl⟩ := List.mem_map.1 hop
    exact ⟨old, mem_newOperations_iff.2 (.inr hold), rfl⟩

theorem IsConsistent.stamp (h : c.IsConsistent) (snapshot : Snapshot) :
    (c.stamp snapshot).IsConsistent := by
  refine ⟨fun op hop => ?_, fun op hop => ?_, fun op hop => ?_, h.inserted, h.modified⟩
  · obtain ⟨old, hold, heq⟩ := exists_of_mem_newOperations_stamp hop
    rw [heq]
    exact h.statuses old hold
  · obtain ⟨old, hold, heq⟩ := exists_of_mem_newOperations_stamp hop
    rw [heq]
    exact h.pending old hold
  · obtain ⟨old, -, rfl⟩ := List.mem_map.1 hop
    rfl

theorem map_id_newOperations_stamp (c : Commit) (snapshot : Snapshot) :
    (c.stamp snapshot).newOperations.map (·.id) = c.newOperations.map (·.id) := by
  simp [newOperations, insertedOperations, Commit.stamp, Function.comp_def]

/-- Change the new operations of a commit, and its modifications. -/
def mapOperations (c : Commit) (new modified : Operation → Operation) : Commit :=
  { c with
    added := c.added.map new
    inserted := c.inserted.map fun _ ops => ops.map new
    modified := c.modified.map modified }

theorem mapOperations_mapOperations (c : Commit) (f g f' g' : Operation → Operation) :
    (c.mapOperations f g).mapOperations f' g' = c.mapOperations (f' ∘ f) (g' ∘ g) := by
  simp only [mapOperations, List.map_map, Commit.mk.injEq, true_and, and_true]
  exact OrderedMap.ext_get? fun snapshot => by simp [Function.comp_def]

theorem newOperations_mapOperations (c : Commit) (new modified : Operation → Operation) :
    (c.mapOperations new modified).newOperations = c.newOperations.map new := by
  rw [newOperations, insertedOperations, mapOperations, OrderedMap.values_map, newOperations,
    insertedOperations, List.map_append, List.map_flatten]

/-- What is new in a commit depends on the identities of its new operations alone. -/
theorem isNew_mapOperations (c : Commit) {new : Operation → Operation}
    (hnew : ∀ op, (new op).id = op.id) (modified : Operation → Operation) :
    (c.mapOperations new modified).isNew = c.isNew := by
  funext id
  rw [isNew, isNew, newOperations_mapOperations, Operation.occurs_map hnew]

theorem assignRowids_eq_mapOperations (c : Commit) (rowids : OrderedMap Identity Int) :
    c.assignRowids rowids =
      c.mapOperations (Operation.numbered rowids) (Operation.numbered rowids) := rfl

theorem isNew_assignRowids (c : Commit) (rowids : OrderedMap Identity Int) :
    (c.assignRowids rowids).isNew = c.isNew :=
  c.isNew_mapOperations (Operation.id_numbered rowids) (Operation.numbered rowids)

theorem newOperations_assignRowids (c : Commit) (rowids : OrderedMap Identity Int) :
    (c.assignRowids rowids).newOperations = c.newOperations.map (Operation.numbered rowids) :=
  c.newOperations_mapOperations _ _

theorem map_id_newOperations_assignRowids (c : Commit) (rowids : OrderedMap Identity Int) :
    (c.assignRowids rowids).newOperations.map (·.id) = c.newOperations.map (·.id) := by
  rw [newOperations_assignRowids, List.map_map]
  rfl

theorem modified_assignRowids (c : Commit) (rowids : OrderedMap Identity Int) :
    (c.assignRowids rowids).modified = c.modified.map (Operation.numbered rowids) := rfl

theorem IsConsistent.assignRowids (h : c.IsConsistent) (rowids : OrderedMap Identity Int) :
    (c.assignRowids rowids).IsConsistent := by
  refine ⟨fun op hop => ?_, fun op hop => ?_, fun op hop => ?_, fun {snapshot ops} hops op hop => ?_, ?_⟩
  · rw [newOperations_assignRowids] at hop
    obtain ⟨old, hold, rfl⟩ := List.mem_map.1 hop
    exact h.statuses old hold
  · rw [newOperations_assignRowids] at hop
    obtain ⟨old, hold, rfl⟩ := List.mem_map.1 hop
    exact h.pending old hold
  · obtain ⟨old, hold, rfl⟩ := List.mem_map.1 hop
    exact h.added old hold
  · simp only [Commit.assignRowids, OrderedMap.get?_map, Option.map_eq_some_iff] at hops
    obtain ⟨olds, holds, rfl⟩ := hops
    obtain ⟨old, hold, rfl⟩ := List.mem_map.1 hop
    exact h.inserted holds old hold
  · rw [modified_assignRowids, List.map_map]
    exact h.modified

theorem Built.stageAll (h : c.Built) (items : List (Staging Operation)) :
    (c.stageAll items).Built :=
  List.foldlRecOn items Commit.stage h fun _ built item _ => built.stage item

theorem Built.isConsistent (h : c.Built) : c.IsConsistent := by
  induction h with
  | new snapshot =>
      refine ⟨fun op hop => ?_, fun op hop => ?_, fun op hop => ?_, fun hops => ?_, List.nodup_nil⟩
      · cases hop
      · cases hop
      · cases hop
      · simp [Commit.new] at hops
  | stage _ item ih =>
      cases item with
      | add op => exact ih.add op
      | insert op snapshot => exact ih.insert op snapshot
      | modify op => exact ih.modify op
      | status id next => exact ih.setStatus id next
  | stamp _ snapshot ih => exact ih.stamp snapshot
  | assignRowids _ rowids ih => exact ih.assignRowids rowids

/-! ## What a commit is made of -/

/-- A commit that staging operations that can be made, and numbering, lead to. -/
inductive Made : Commit → Prop
  | new (snapshot : Snapshot) : Made (.new snapshot)
  | add {c : Commit} (made : Made c) {op : Operation} (op_made : op.Made) : Made (c.add op)
  | insert {c : Commit} (made : Made c) {op : Operation} (op_made : op.Made)
      (snapshot : Snapshot) : Made (c.insert op snapshot)
  | modify {c : Commit} (made : Made c) {op : Operation} (op_made : op.Made) : Made (c.modify op)
  | setStatus {c : Commit} (made : Made c) (id : Identity) (next : Status) :
      Made (c.setStatus id next)
  | stamp {c : Commit} (made : Made c) (snapshot : Snapshot) : Made (c.stamp snapshot)
  | assignRowids {c : Commit} (made : Made c) (rowids : OrderedMap Identity Int) :
      Made (c.assignRowids rowids)

theorem Made.built (h : c.Made) : c.Built := by
  induction h with
  | new snapshot => exact .new snapshot
  | add _ _ ih => exact ih.stage (.add _)
  | insert _ _ snapshot ih => exact ih.stage (.insert _ snapshot)
  | modify _ _ ih => exact ih.stage (.modify _)
  | setStatus _ id next ih => exact ih.stage (.status id next)
  | stamp _ snapshot ih => exact ih.stamp snapshot
  | assignRowids _ rowids ih => exact ih.assignRowids rowids

/-- Every operation that a commit adds, inserts or modifies can be made. -/
structure AllMade (c : Commit) : Prop where
  new : ∀ op ∈ c.newOperations, op.Made
  modified : ∀ op ∈ c.modified, op.Made

namespace AllMade

theorem revise (h : c.AllMade) {f : Operation → Operation} (hrevises : Revises f id c d)
    (hf : ∀ op, op.Made → (f op).Made) : d.AllMade where
  new op hop := by
    rcases hrevises.mem_newOperations hop with hop | ⟨old, hold, -, rfl⟩
    · exact h.new op hop
    · exact hf old (h.new old hold)
  modified := by rw [hrevises.modified]; exact h.modified

theorem add (h : c.AllMade) {op : Operation} (hop : op.Made) : (c.add op).AllMade where
  new other hother := by
    rcases mem_newOperations_iff.1 hother with hother | hother
    · exact h.new other (mem_newOperations_iff.2 (.inl hother))
    · rcases List.mem_append.1 hother with hother | hother
      · exact h.new other (mem_newOperations_iff.2 (.inr hother))
      · rw [List.mem_singleton.1 hother]
        exact hop.of_eq rfl rfl
  modified := h.modified

theorem insert (h : c.AllMade) {op : Operation} (hop : op.Made) (snapshot : Snapshot) :
    (c.insert op snapshot).AllMade where
  new other hother := by
    rcases mem_newOperations_iff.1 hother with ⟨t, ops, hops, hother⟩ | hother
    · rcases get?_inserted_insert hops hother with ⟨old, hold, hother⟩ | ⟨-, rfl⟩
      · exact h.new other (mem_newOperations_iff.2 (.inl ⟨t, old, hold, hother⟩))
      · exact hop.of_eq rfl rfl
    · exact h.new other (mem_newOperations_iff.2 (.inr hother))
  modified := h.modified

theorem modify (h : c.AllMade) {op : Operation} (hop : op.Made) : (c.modify op).AllMade := by
  have hplain : { op with staged := none }.Made := hop.of_eq rfl rfl
  rw [Commit.modify]
  dsimp only
  cases hupdate : c.updateNew? op.id fun old =>
      { op with snapshot := old.snapshot, status := .pending, staged := old.staged } with
  | some d =>
      exact h.revise (revises_of_updateNew?_eq_some hupdate) fun old _ => hop.of_eq rfl rfl
  | none =>
      refine ⟨h.new, fun other hother => ?_⟩
      dsimp only at hother
      split at hother
      · rcases Operation.mem_of_mem_updateFirst hother with hother | ⟨old, -, -, rfl⟩
        · exact h.modified other hother
        · exact hplain
      · rcases List.mem_append.1 hother with hother | hother
        · exact h.modified other hother
        · exact List.mem_singleton.1 hother ▸ hplain

theorem setStatus (h : c.AllMade) (id : Identity) (next : Status) :
    (c.setStatus id next).AllMade := by
  rw [Commit.setStatus]
  cases hupdate : c.updateNew? id fun op => { op with staged := some next } with
  | some d =>
      exact h.revise (revises_of_updateNew?_eq_some hupdate) fun old hold => hold.of_eq rfl rfl
  | none => exact ⟨h.new, h.modified⟩

theorem stamp (h : c.AllMade) (snapshot : Snapshot) : (c.stamp snapshot).AllMade where
  new op hop := by
    obtain ⟨old, hold, heq⟩ := exists_of_mem_newOperations_stamp hop
    rw [heq]
    exact (h.new old hold).of_eq rfl rfl
  modified := h.modified

theorem assignRowids (h : c.AllMade) (rowids : OrderedMap Identity Int) :
    (c.assignRowids rowids).AllMade where
  new op hop := by
    rw [newOperations_assignRowids] at hop
    obtain ⟨old, hold, rfl⟩ := List.mem_map.1 hop
    exact (h.new old hold).of_eq rfl rfl
  modified op hop := by
    obtain ⟨old, hold, rfl⟩ := List.mem_map.1 hop
    exact (h.modified old hold).of_eq rfl rfl

end AllMade

/-- A commit holds only operations that can be made, if it was staged from such. -/
theorem Made.allMade (h : c.Made) : c.AllMade := by
  induction h with
  | new snapshot => exact ⟨fun _ hop => (nomatch hop), fun _ hop => (nomatch hop)⟩
  | add _ op_made ih => exact ih.add op_made
  | insert _ op_made snapshot ih => exact ih.insert op_made snapshot
  | modify _ op_made ih => exact ih.modify op_made
  | setStatus _ id next ih => exact ih.setStatus id next
  | stamp _ snapshot ih => exact ih.stamp snapshot
  | assignRowids _ rowids ih => exact ih.assignRowids rowids

end Commit

end OperationQueue
