/-
# Registering a pipeline

Registering finds or creates a row, reads the queue back from it and stores the algorithm
of the candidate. It fails before the first of these, after it, or not at all; in the last
case the new member has exactly what its row gives.
-/
import OperationQueue.Registry
import OperationQueue.Proofs.OrderedMap
import OperationQueue.Proofs.Result

namespace OperationQueue

namespace Registry

variable {σ : Type} [Store σ] {r : Registry σ} {c : Candidate}

/-- What a candidate goes through that gets a row: it may still be refused because of what
the row holds, but then only the row has changed. -/
structure Enters (r : Registry σ) (c : Candidate) (record : PipelineRecord) (store : σ) :
    Prop where
  free : r.isTaken c = false
  registered : Store.register r.store c.name c.previousNames c.algorithm = .ok (record, store)

theorem register_cases (r : Registry σ) (c : Candidate) :
    (∃ e, r.register c = (.error e, r)) ∨ ∃ record store, r.Enters c record store ∧
      ((∃ e, r.register c = (.error e, { r with store := store })) ∨
        ∃ m store', restored store c record = .ok m ∧ migrated store c record = .ok store' ∧
          r.register c = (.ok (), ⟨store', r.members.insert c.name m⟩)) := by
  rw [register]
  by_cases htaken : r.isTaken c = true
  · rw [if_pos htaken]
    exact .inl ⟨_, rfl⟩
  · rw [if_neg htaken]
    dsimp only
    split
    · exact .inl ⟨_, rfl⟩
    · next record store hfound =>
      obtain ⟨_, -, hregistered⟩ := exists_of_bind_eq_ok hfound
      refine .inr ⟨record, store, ⟨Bool.eq_false_iff.2 htaken, hregistered⟩, ?_⟩
      cases hrestored : restored store c record with
      | error e => exact .inl ⟨e, rfl⟩
      | ok m =>
          dsimp only
          cases hmigrated : migrated store c record with
          | error e => exact .inl ⟨e, rfl⟩
          | ok store' => exact .inr ⟨m, store', rfl, rfl, rfl⟩

/-- A candidate that passes every stage is a member afterwards. -/
theorem register_eq_ok {record : PipelineRecord} {store store' : σ} {m : Member}
    (hfree : r.isTaken c = false) (hchecked : checkStored r.store c = .ok ())
    (hregistered : Store.register r.store c.name c.previousNames c.algorithm = .ok (record, store))
    (hrestored : restored store c record = .ok m) (hmigrated : migrated store c record = .ok store') :
    r.register c = (.ok (), ⟨store', r.members.insert c.name m⟩) := by
  have hfound : (checkStored r.store c >>= fun _ =>
      Store.register r.store c.name c.previousNames c.algorithm) = .ok (record, store) := by
    rw [hchecked, hregistered]
    rfl
  rw [register, if_neg (Bool.eq_false_iff.1 hfree)]
  dsimp only
  rw [hfound]
  dsimp only
  rw [hrestored]
  dsimp only
  rw [hmigrated]

/-- A restored candidate is its pipeline under the row, with the queue that is read back. -/
theorem of_restored_eq_ok {store : σ} {record : PipelineRecord} {m : Member}
    (h : restored store c record = .ok m) :
    m.rowid = record.rowid ∧ m.previousNames = c.previousNames ∧
      ∃ records, Store.load store record.rowid = .ok records ∧
        m.pipeline = (c.pipeline.restore records).2 := by
  obtain ⟨records, hload, h⟩ := exists_of_bind_eq_ok h
  obtain ⟨⟨count, restored⟩, hrestore, h⟩ := exists_of_bind_eq_ok h
  cases h
  obtain ⟨_, -, hrestore⟩ := exists_of_bind_eq_ok hrestore
  cases hrestore
  exact ⟨rfl, rfl, records, hload, rfl⟩

/-- A candidate that enters lays no claim to the name of a member, nor the other way. -/
theorem Enters.ne_of_member {record : PipelineRecord} {store : σ} (h : r.Enters c record store)
    {name : String} {m : Member} (hm : r.members.get? name = some m) :
    name ≠ c.name ∧ c.previousNames.contains name = false := by
  have hfree := List.any_eq_false.1 h.free _ (OrderedMap.get?_eq_some_iff.1 hm)
  simp only [conflicts, Bool.or_eq_true, beq_iff_eq, not_or, Bool.not_eq_true] at hfree
  exact ⟨hfree.1.1, hfree.1.2⟩

end Registry

end OperationQueue
