/-
# A queue and its rows

The queue of a pipeline and its rows in the store are written by two programs that read
the same commits. They agree when, snapshot by snapshot, they have the same operations in
the same order and the same holds. The queue may wait for less than is stored, because it
drops references to operations that nobody knows; statuses are not compared, because the
queue starts operations without telling the store.
-/
import OperationQueue.Proofs.Commit.Changeset
import OperationQueue.Proofs.Pipeline.Controlling
import OperationQueue.Proofs.Store.Loading
import OperationQueue.Proofs.Store.Naming

namespace OperationQueue

/-- A queued operation agrees with a stored one. -/
structure Operation.Agrees (stored live : Operation) : Prop where
  id : live.id = stored.id
  rowid : live.rowid = stored.rowid
  snapshot : live.snapshot = stored.snapshot
  priority : live.priority = stored.priority
  payload : live.payload = stored.payload
  dependencies : ∀ dep ∈ live.dependencies.toList, dep ∈ stored.dependencies.toList

/-- An operation and its holds agree with what is stored. -/
structure StoredOperation.Agrees (stored live : StoredOperation) : Prop where
  operation : stored.operation.Agrees live.operation
  holds : live.holds = stored.holds

/-- The queue of a settled pipeline agrees with the rows of a store. -/
structure InStep (s : MemoryStore) (rowid : Int) (p : Pipeline) : Prop where
  settled : p.IsSettled
  operations : ∀ snapshot,
    List.Forall₂ Operation.Agrees (s.operationsAt rowid snapshot) (p.operationsAt snapshot)
  holds : ∀ id ∈ p.ids, p.holds.ofOperation id = s.holds.ofOperation id

namespace Operation.Agrees

variable {stored live : Operation}

theorem refl (op : Operation) : op.Agrees op := ⟨rfl, rfl, rfl, rfl, rfl, fun _ h => h⟩

theorem withStatus (h : stored.Agrees live) (before after : Status) :
    Operation.Agrees { stored with status := before } { live with status := after } :=
  ⟨h.id, h.rowid, h.snapshot, h.priority, h.payload, h.dependencies⟩

theorem onlyStatus (h : stored.Agrees live) {f : Operation → Operation} (hf : OnlyStatus f) :
    stored.Agrees (f live) := by
  obtain ⟨next, hnext⟩ := hf live
  rw [hnext]
  exact ⟨h.id, h.rowid, h.snapshot, h.priority, h.payload, h.dependencies⟩

/-- One modification is taken over by both, with all its dependencies or those that are
known. A number that is known is kept. -/
private theorem modifiedBy (h : stored.Agrees live) (hnumbered : stored.rowid ≠ none)
    (knows : Identity → Bool) (numbers : OrderedMap Identity Int) (m : Operation) :
    (stored.modifiedBy (fun _ => true) m).Agrees (live.modifiedBy knows (m.numbered numbers)) ∧
      (stored.modifiedBy (fun _ => true) m).rowid ≠ none := by
  by_cases hid : stored.id = m.id
  · have hid' : live.id = m.id := h.id.trans hid
    have hlive : live.modifiedBy knows (m.numbered numbers) =
        live.mergeModification ((m.numbered numbers).retainDependencies knows) := if_pos hid'
    rw [hlive, Operation.modifiedBy, if_pos hid]
    obtain ⟨n, hn⟩ := Option.ne_none_iff_exists'.1 hnumbered
    have hn' : live.rowid = some n := h.rowid.trans hn
    refine ⟨⟨h.id, ?_, h.snapshot, rfl, rfl, fun dep hdep => ?_⟩, ?_⟩
    · simp [mergeModification, hn, hn']
    · have hmem := (mem_dependencies_retainDependencies.1 hdep).1
      exact mem_dependencies_retainDependencies.2 ⟨hmem, rfl⟩
    · simp [mergeModification, hn]
  · have hid' : live.id ≠ m.id := fun heq => hid (h.id.symm.trans heq)
    have hlive : live.modifiedBy knows (m.numbered numbers) = live := if_neg hid'
    rw [hlive, Operation.modifiedBy, if_neg hid]
    exact ⟨h, hnumbered⟩

theorem modified (h : stored.Agrees live) (hnumbered : stored.rowid ≠ none)
    (knows : Identity → Bool) (numbers : OrderedMap Identity Int)
    (modifications : List Operation) :
    (stored.modified (fun _ => true) modifications).Agrees
      (live.modified knows (modifications.map (Operation.numbered numbers))) := by
  induction modifications generalizing stored live with
  | nil => exact h
  | cons m rest ih =>
      obtain ⟨hstep, hstays⟩ := h.modifiedBy hnumbered knows numbers m
      exact ih hstep hstays

end Operation.Agrees

/-- Everything that is read back is queued again. -/
theorem MemoryStore.IsSound.restorable_load {owner : Identity → Int} {s : MemoryStore}
    (hs : s.IsSound owner) (rowid : Int) :
    Pipeline.restorable (s.load rowid) = s.load rowid := by
  apply Pipeline.restorable_eq_self (hs.nodup_load rowid)
  intro r hr
  obtain ⟨row, hrow, -, rfl⟩ := MemoryStore.mem_load_iff.1 hr
  exact ⟨hs.unfinished row hrow, hs.unstaged row hrow⟩

namespace InStep

variable {s t : MemoryStore} {rowid : Int} {p q : Pipeline}

/-- What is read back for a pipeline that is in step agrees with its queue, one record
after the other. -/
theorem forall₂_load (h : InStep s rowid p) :
    List.Forall₂ StoredOperation.Agrees (s.load rowid) p.stored := by
  apply forall₂_of_filter_snapshot (s.pairwise_load rowid) (Pipeline.pairwise_stored h.settled.toIsFiled)
  intro snapshot
  rw [s.filter_load, Pipeline.filter_stored h.settled.toIsFiled, List.forall₂_map_left_iff,
    List.forall₂_map_right_iff]
  have hqueued : ∀ op ∈ p.operationsAt snapshot, op.id ∈ p.ids := fun op hop =>
    List.mem_map_of_mem (Pipeline.mem_operations_iff.2 ⟨snapshot, hop⟩)
  have hoperations := h.operations snapshot
  revert hqueued hoperations
  generalize s.operationsAt rowid snapshot = rows, p.operationsAt snapshot = queue
  intro hqueued hoperations
  revert hqueued
  induction hoperations with
  | nil => exact fun _ => .nil
  | @cons stored live _ _ hagrees _ ih =>
      intro hqueued
      have hholds := h.holds live.id (hqueued live List.mem_cons_self)
      rw [hagrees.id] at hholds
      refine .cons ⟨hagrees, ?_⟩ (ih fun op hop => hqueued op (List.mem_cons_of_mem _ hop))
      rw [hagrees.id]
      exact hholds

/-- Changing statuses does not bring a queue out of step. -/
theorem sameQueue (h : InStep s rowid p) (hsame : Pipeline.SameQueue p q) (hq : q.IsSettled)
    (hholds : q.holds = p.holds) : InStep s rowid q := by
  obtain ⟨f, hf, hoperations⟩ := hsame.operationsAt_eq
  refine ⟨hq, fun snapshot => ?_, fun id hid => ?_⟩
  · rw [hoperations, List.forall₂_map_right_iff]
    exact (h.operations snapshot).imp fun _ _ hagrees => hagrees.onlyStatus hf
  · rw [hholds]
    exact h.holds id (hsame.ids_eq ▸ hid)

/-- A store in which nothing changed for the pipeline is as good. -/
theorem of_store_eq (h : InStep s rowid p)
    (hoperations : ∀ snapshot, t.operationsAt rowid snapshot = s.operationsAt rowid snapshot)
    (hholds : ∀ id ∈ p.ids, t.holds.ofOperation id = s.holds.ofOperation id) :
    InStep t rowid p where
  settled := h.settled
  operations snapshot := by
    rw [hoperations]
    exact h.operations snapshot
  holds id hid := (h.holds id hid).trans (hholds id hid).symm

theorem withRows (h : InStep s rowid p) (hsame : MemoryStore.SameRows s t) : InStep t rowid p :=
  h.of_store_eq (fun snapshot => by rw [hsame.operationsAt_eq]) fun id _ => by rw [hsame.holds]

theorem map_id_operationsAt (h : InStep s rowid p) (snapshot : Snapshot) :
    (s.operationsAt rowid snapshot).map (·.id) = (p.operationsAt snapshot).map (·.id) := by
  have hids : List.Forall₂ (· = ·) ((s.operationsAt rowid snapshot).map (·.id))
      ((p.operationsAt snapshot).map (·.id)) := by
    apply List.forall₂_map_left_iff.2
    apply List.forall₂_map_right_iff.2
    exact (h.operations snapshot).imp fun _ _ hagrees => hagrees.id.symm
  rwa [List.forall₂_eq_eq_eq] at hids

/-- Stored and queued operations have the same identities. -/
theorem mem_ids_iff (h : InStep s rowid p) {id : Identity} :
    id ∈ p.ids ↔ ∃ row ∈ s.rows, row.pipeline = rowid ∧ row.operation.id = id := by
  constructor
  · intro hid
    obtain ⟨op, hop, rfl⟩ := List.mem_map.1 hid
    obtain ⟨snapshot, hat⟩ := Pipeline.mem_operations_iff.1 hop
    have hmem : op.id ∈ (s.operationsAt rowid snapshot).map (·.id) :=
      h.map_id_operationsAt snapshot ▸ List.mem_map_of_mem hat
    obtain ⟨stored, hstored, hid⟩ := List.mem_map.1 hmem
    obtain ⟨row, hrow, hpipeline, -, rfl⟩ := MemoryStore.mem_operationsAt_iff.1 hstored
    exact ⟨row, hrow, hpipeline, hid⟩
  · rintro ⟨row, hrow, hpipeline, rfl⟩
    have hstored : row.operation ∈ s.operationsAt rowid row.operation.snapshot :=
      MemoryStore.mem_operationsAt_iff.2 ⟨row, hrow, hpipeline, rfl, rfl⟩
    have hmem : row.operation.id ∈ (p.operationsAt row.operation.snapshot).map (·.id) :=
      h.map_id_operationsAt _ ▸ List.mem_map_of_mem hstored
    obtain ⟨op, hop, hid⟩ := List.mem_map.1 hmem
    exact hid ▸ List.mem_map_of_mem (Pipeline.mem_operations_iff.2 ⟨_, hop⟩)

/-- A queue that is built again from its rows is in step with them. -/
theorem restore {owner : Identity → Int} (hs : s.IsSound owner) (rowid : Int) (p : Pipeline) :
    InStep s rowid (p.restore (s.load rowid)).2 := by
  have hkept := hs.restorable_load rowid
  refine ⟨Pipeline.isSettled_restore p _, fun snapshot => ?_, fun id hid => ?_⟩
  · have hfilter : ((s.load rowid).map (·.operation)).filter (·.snapshot = snapshot) =
        ((s.load rowid).filter (·.operation.snapshot == snapshot)).map (·.operation) := by
      rw [List.filter_map]
      congr 1
    rw [Pipeline.operationsAt_restore, hkept, hfilter, s.filter_load, List.map_map]
    have hsame : ((s.operationsAt rowid snapshot).map
        (StoredOperation.operation ∘ fun op => ⟨op, s.holds.ofOperation op.id⟩)) =
          s.operationsAt rowid snapshot := List.map_id _
    rw [hsame]
    exact List.forall₂_same.2 fun op _ => .refl op
  · obtain ⟨op, hop, rfl⟩ := List.mem_map.1 hid
    obtain ⟨r, hr, rfl⟩ := Pipeline.mem_operations_restore.1 hop
    have hentry := Pipeline.get?_holds_restore_of_mem (p := p) hr
    have hholds : (p.restore (s.load rowid)).2.holds.ofOperation r.operation.id = r.holds := by
      rw [HoldTable.ofOperation, hentry]
      split
      · next hempty => exact (HoldTable.eq_empty_of_isEmpty hempty).symm
      · rfl
    rw [hholds]
    rw [hkept] at hr
    obtain ⟨row, -, -, rfl⟩ := MemoryStore.mem_load_iff.1 hr
    rfl

/-- A hold that is stored and then set keeps a queue in step, also if it is set already. -/
theorem setHold (h : InStep s rowid p) (id : Identity) (context : String)
    (date : Option Instant) (now : Instant) :
    InStep { s with holds := s.holds.replace id ((p.holds.set id context date).ofOperation id) }
      rowid (p.setHold id context date now).2 := by
  have hnodup := h.settled.nodup_ids
  have hkeeps : (Pipeline.Action.setHold id context date now).KeepsQueue := trivial
  have hsame : Pipeline.SameQueue p (p.setHold id context date now).2 :=
    Pipeline.sameQueue_perform hnodup hkeeps
  have hsettled : (p.setHold id context date now).2.IsSettled :=
    h.settled.perform (.setHold id context date now)
  obtain ⟨f, hf, hoperations⟩ := hsame.operationsAt_eq
  refine ⟨hsettled, fun snapshot => ?_, fun other hother => ?_⟩
  · rw [hoperations, List.forall₂_map_right_iff]
    exact (h.operations snapshot).imp fun _ _ hagrees => hagrees.onlyStatus hf
  · rw [hsame.ids_eq] at hother
    rw [Pipeline.ofOperation_setHold hnodup hother]
    by_cases heq : other = id
    · rw [heq, HoldTable.ofOperation_replace_self]
    · rw [HoldTable.ofOperation_set_of_ne heq, HoldTable.ofOperation_replace_of_ne heq]
      exact h.holds other hother

end InStep

end OperationQueue
