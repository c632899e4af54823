/-
# Refused candidates

A candidate may be refused because its name is taken, because a stored algorithm stands against
it, or because rows cannot be read. Names and algorithms are looked at before the store is
written. What is stored under the row is read after the row was created or renamed, and nobody
takes that back: a candidate whose rows cannot be read leaves its name in the store, where the
pipeline that had the row does not find it any more. Nothing else of the store or of the registry
is changed by a candidate that is refused.
-/
import OperationQueue.Proofs.Registry.Labelling

namespace OperationQueue

namespace Registry

open EntryStore LabelStore

variable {σ : Type} [Store σ] [RowStore σ] [EntryStore σ] [LabelStore σ] {r : Registry σ}
  {s t store : σ} {c : Candidate} {record : PipelineRecord} {e : Error}

/-- A candidate that strands a row: it is free to enter, its row was new or had another name
before, and what is stored under the row cannot be read. -/
def Strands (r : Registry σ) (c : Candidate) : Prop :=
  c.name ∉ EntryStore.names r.store ∧ checkStored r.store c = .ok () ∧ ∃ record store,
    r.Enters c record store ∧ ∃ e, Store.load r.store record.rowid = .error e

/-- What a store keeps that gives a row to a candidate: everything beside the labels, every stored
algorithm, and every name but the previous names of the candidate. -/
structure KeepsBeside (c : Candidate) (s t : σ) : Prop where
  relabelled : ∃ ls, t = relabel s ls
  entries : ∀ rowid, entries t rowid = entries s rowid
  lastSnapshot : Store.lastSnapshot t = Store.lastSnapshot s
  labelled : ∀ {rowid name stored}, HasLabel s rowid name stored → HasLabel t rowid name stored ∨
    c.previousNames.contains name = true ∧ HasLabel t rowid c.name stored

theorem KeepsBeside.refl (c : Candidate) (s : σ) : KeepsBeside c s s where
  relabelled := ⟨labels s, (relabel_labels s).symm⟩
  entries _ := rfl
  lastSnapshot := rfl
  labelled := .inl

theorem keepsBeside_of_register
    (h : Store.register s c.name c.previousNames c.algorithm = .ok (record, t)) :
    KeepsBeside c s t := by
  obtain ⟨ls, hls⟩ := exists_relabel_of_register h
  refine ⟨⟨ls, hls⟩, fun rowid => ?_, ?_, fun hrow => hrow.register h⟩
  · rw [hls, entries_relabel]
  · rw [hls, lastSnapshot_relabel]

/-! ## Why a candidate is refused -/

/-- An algorithm that agreed before the row was there agrees with what is stored in the row. -/
theorem checkAlgorithm_of_checkStored (hchecked : checkStored s c = .ok ())
    (h : Store.register s c.name c.previousNames c.algorithm = .ok (record, t)) :
    Pipeline.checkAlgorithm c.name record.storedAlgorithm c.algorithm c.migrate = .ok () := by
  rw [checkStored] at hchecked
  cases hlookup : Store.lookup s c.name c.previousNames with
  | error e =>
      rw [register_eq, hlookup] at h
      cases h
  | ok found =>
      rw [hlookup] at hchecked
      cases found with
      | none =>
          rw [register_of_lookup_eq_none hlookup] at h
          cases h
          rfl
      | some found =>
          rw [register_of_lookup_eq_some hlookup] at h
          cases h
          exact hchecked

/-- A candidate with a row that agrees fails only if the rows cannot be read. -/
theorem load_eq_error_of_restored (hchecked : checkStored s c = .ok ())
    (h : Store.register s c.name c.previousNames c.algorithm = .ok (record, t))
    (hrestored : restored t c record = .error e) : Store.load t record.rowid = .error e := by
  rw [restored] at hrestored
  cases hload : Store.load t record.rowid with
  | error other =>
      rw [hload] at hrestored
      cases hrestored
      rfl
  | ok records =>
      have hagrees := checkAlgorithm_of_checkStored hchecked h
      have hmember : Member.restore ⟨record.rowid, c.pipeline, c.previousNames, c.migrate, c.executor⟩
          records record.storedAlgorithm =
            (Pipeline.checkAlgorithm c.name record.storedAlgorithm c.algorithm c.migrate >>= fun _ =>
              .ok ((c.pipeline.restore records).1, ⟨record.rowid, (c.pipeline.restore records).2,
                c.previousNames, c.migrate, c.executor⟩)) := rfl
      rw [hload] at hrestored
      dsimp only [bind, Except.bind] at hrestored
      rw [hmember, hagrees] at hrestored
      cases hrestored

/-- The algorithm of a row that was given out can be overwritten. -/
theorem exists_migrated_eq_ok
    (h : Store.register s c.name c.previousNames c.algorithm = .ok (record, t)) :
    ∃ u, migrated t c record = .ok u := by
  rw [migrated]
  split
  · exact exists_setAlgorithm_eq_ok (hasLabel_register h) c.algorithm
  · exact ⟨t, rfl⟩

/-- A candidate is refused before the store is written, or because its rows cannot be read. -/
theorem refused_cases (h : (r.register c).1 = .error e) :
    ((r.register c).2 = r ∧ (checkStored r.store c = .ok () → ∀ record store,
        ¬ r.Enters c record store)) ∨
      ∃ record store, checkStored r.store c = .ok () ∧ r.Enters c record store ∧
        (r.register c).2 = { r with store := store } ∧
        Store.load r.store record.rowid = .error e := by
  rw [register] at h ⊢
  by_cases htaken : r.isTaken c = true
  · rw [if_pos htaken]
    exact .inl ⟨rfl, fun _ _ _ henters => by simp [henters.free] at htaken⟩
  · rw [if_neg htaken] at h ⊢
    cases hchecked : checkStored r.store c with
    | error other => exact .inl ⟨rfl, fun hok => by cases hok⟩
    | ok _ =>
        dsimp only [bind, Except.bind]
        rw [hchecked] at h
        dsimp only [bind, Except.bind] at h
        cases hregistered : Store.register r.store c.name c.previousNames c.algorithm with
        | error other =>
            refine .inl ⟨rfl, fun _ record store henters => ?_⟩
            rw [henters.registered] at hregistered
            cases hregistered
        | ok given =>
            obtain ⟨record, store⟩ := given
            rw [hregistered] at h
            dsimp only at h ⊢
            have henters : r.Enters c record store := ⟨Bool.eq_false_iff.2 htaken, hregistered⟩
            obtain ⟨ls, rfl⟩ := exists_relabel_of_register hregistered
            have hsame : Store.load (relabel r.store ls) record.rowid =
                Store.load r.store record.rowid := load_congr (entries_relabel _ _ _)
            cases hrestored : restored (relabel r.store ls) c record with
            | error other =>
                rw [hrestored] at h
                cases h
                refine .inr ⟨record, _, rfl, henters, rfl, ?_⟩
                rw [← hsame]
                exact load_eq_error_of_restored hchecked hregistered hrestored
            | ok m =>
                obtain ⟨u, hu⟩ := exists_migrated_eq_ok hregistered
                rw [hrestored] at h
                dsimp only at h
                rw [hu] at h
                cases h

omit [LabelStore σ] in
/-- A candidate that gets a row has its name in the store. -/
theorem Enters.name_mem (h : r.Enters c record store) : c.name ∈ EntryStore.names store := by
  obtain ⟨index, -, hget⟩ := (hasName_register h.registered).1
  exact List.mem_of_getElem? hget

/-- A candidate that is refused changes no member, no row, no hold, no stored algorithm and no
commit number. It leaves the whole registry as it was, with one exception: if its name is not in
the store and what is stored under the row that it would get cannot be read, then it leaves its
name on that row. -/
theorem register_refused (h : (r.register c).1 = .error e) :
    (r.register c).2.members = r.members ∧ KeepsBeside c r.store (r.register c).2.store ∧
      ((r.register c).2 = r ↔ ¬ r.Strands c) := by
  rcases refused_cases h with ⟨heq, hout⟩ | ⟨record, store, hchecked, henters, heq, hload⟩
  · rw [heq]
    refine ⟨rfl, .refl c r.store, iff_of_true rfl ?_⟩
    rintro ⟨-, hchecked, record, store, henters, -⟩
    exact hout hchecked record store henters
  · rw [heq]
    refine ⟨rfl, keepsBeside_of_register henters.registered, ?_⟩
    by_cases hname : c.name ∈ EntryStore.names r.store
    · have hsame : store = r.store := eq_of_register_of_mem henters.registered hname
      refine iff_of_true (by rw [hsame]) ?_
      rintro ⟨hnew, -⟩
      exact hnew hname
    · have hstrands : r.Strands c := ⟨hname, hchecked, record, store, henters, e, hload⟩
      refine iff_of_false (fun hkept => ?_) (not_not_intro hstrands)
      have hstore : store = r.store := congrArg Registry.store hkept
      exact hname (hstore ▸ henters.name_mem)

/-- In memory everything can be read. -/
theorem register_refused_memory {r : Registry MemoryStore} (h : (r.register c).1 = .error e) :
    (r.register c).2 = r := by
  rcases refused_cases h with ⟨heq, -⟩ | ⟨record, store, -, -, -, hload⟩
  · exact heq
  · cases hload

/-- The tables after somebody overwrote the status of the one operation in them. -/
def damaged : Registry TableStore :=
  let uploads : Candidate := ⟨"uploads", .commit, 1, .empty, false, .recorder⟩
  let filled := (((new TableStore.empty).register uploads).2.afterCommit
    (Transaction.empty.stage "uploads" (.add (.new (.ofNat 1)))) ⟨0, 0⟩).store
  new (filled.updateRow (.ofNat 1) fun row => { row with status := "lost" })

/-- A pipeline that takes over the rows of another one. -/
def successor : Candidate :=
  ⟨"transfers", .commit, 1, .ofMembers ["uploads"], false, .recorder⟩

/-- The pipeline is refused, and the row has its name. -/
theorem names_register_damaged :
    (damaged.register successor).1 = .error (.storedStatus (.ofNat 1) "lost") ∧
      TableStore.names damaged.store = ["uploads"] ∧
      TableStore.names (damaged.register successor).2.store = ["transfers"] := by
  decide +kernel

/-- What is stored of the operations is as it was, and so is everything but the name. -/
theorem register_refused_damaged :
    (damaged.register successor).1 = .error (.storedStatus (.ofNat 1) "lost") ∧
      (damaged.register successor).2.members = damaged.members ∧
      KeepsBeside successor damaged.store (damaged.register successor).2.store ∧
      damaged.Strands successor := by
  have hrefused : (damaged.register successor).1 = .error (.storedStatus (.ofNat 1) "lost") := by
    decide +kernel
  have hnames : TableStore.names (damaged.register successor).2.store ≠
      TableStore.names damaged.store := by
    decide +kernel
  obtain ⟨hmembers, hkeeps, hkept⟩ := register_refused hrefused
  refine ⟨hrefused, hmembers, hkeeps, ?_⟩
  by_contra hstrands
  exact hnames (by rw [hkept.2 hstrands])

end Registry

end OperationQueue
