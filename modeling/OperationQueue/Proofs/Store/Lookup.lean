/-
# What is looked up, and why that fails

A store that finds no row for a pipeline has none under its name and none under its previous
names. Reading a store fails because of what is stored: whether a name is taken is for a registry
to say, and no store ever says it.
-/
import OperationQueue.Proofs.Store.Adoption

namespace OperationQueue

/-- A failure because a name stands for two pipelines. -/
def Error.isNameClash : Error → Bool
  | .nameTaken _ | .sharedName _ _ _ => true
  | _ => false

/-- A store that looks under all names, and that fails because of its rows alone. -/
class LookupStore (σ : Type) [Store σ] [RowStore σ] [EntryStore σ] [LabelStore σ] : Prop where
  notMem_of_lookup_eq_none {s : σ} {name : String} {previous : OrderedSet String} :
    Store.lookup s name previous = .ok none →
      ∀ old, previous.contains old = true → old ∉ EntryStore.names s
  of_lookup_eq_error {s : σ} {name : String} {previous : OrderedSet String} {e : Error} :
    Store.lookup s name previous = .error e → e.isNameClash = false
  of_load_eq_error {s : σ} {rowid : Int} {e : Error} :
    Store.load s rowid = .error e → e.isNameClash = false

namespace LookupStore

open EntryStore LabelStore

variable {σ : Type} [Store σ] [RowStore σ] [EntryStore σ] [LabelStore σ] [LookupStore σ] {s t : σ}
  {name : String} {previous : OrderedSet String} {algorithm : Algorithm} {rowid : Int}
  {record : PipelineRecord} {e : Error}

theorem of_register_eq_error (h : Store.register s name previous algorithm = .error e) :
    e.isNameClash = false := by
  rw [register_eq] at h
  cases hlookup : Store.lookup s name previous with
  | error other =>
      rw [hlookup] at h
      cases h
      exact of_lookup_eq_error hlookup
  | ok found =>
      rw [hlookup] at h
      cases h

omit [LookupStore σ] in
theorem of_setAlgorithm_eq_error (h : Store.setAlgorithm s rowid algorithm = .error e) :
    e.isNameClash = false := by
  rw [setAlgorithm_eq] at h
  split at h
  · cases h
  · cases h
    rfl

end LookupStore

/-! ## The store in memory -/

namespace MemoryStore

variable {s : MemoryStore} {name : String} {previous : OrderedSet String}

theorem notMem_of_lookup_eq_none_of_contains (h : s.lookup name previous = none) :
    ∀ old, previous.contains old = true → old ∉ s.names := by
  intro old hold hmem
  rw [lookup_eq] at h
  by_cases hname : name ∈ s.names
  · obtain ⟨record, hrecord⟩ := exists_record?_eq_some hname
    rw [if_pos hname, hrecord] at h
    cases h
  · obtain ⟨first, hfirst⟩ : ∃ first, s.names.find? previous.contains = some first := by
      rw [← Option.isSome_iff_exists, List.find?_isSome]
      exact ⟨old, hmem, hold⟩
    obtain ⟨record, hrecord⟩ := exists_record?_eq_some (List.mem_of_find?_eq_some hfirst)
    rw [if_neg hname, hfirst, Option.bind_some, hrecord] at h
    cases h

instance : LookupStore MemoryStore where
  notMem_of_lookup_eq_none h := notMem_of_lookup_eq_none_of_contains (Except.ok.inj h)
  of_lookup_eq_error h := nomatch h
  of_load_eq_error h := nomatch h

end MemoryStore

/-! ## The store in tables -/

theorem Cell.of_read_eq_error {cell : Cell} {e : Error} (h : cell.read = .error e) :
    e = .storage := by
  cases cell with
  | number n => cases h
  | double units => exact (Except.error.inj h).symm
  | text content => exact (Except.error.inj h).symm

namespace TableStore

variable {s : TableStore} {name : String} {e : Error}

theorem of_findNamed_eq_error (h : s.findNamed name = .error e) : e.isNameClash = false := by
  rw [findNamed] at h
  split at h
  · cases h
  · rcases of_bind_eq_error h with h | ⟨code, -, h⟩
    · rw [Cell.of_read_eq_error h]
      rfl
    · split at h
      · cases h
      · cases h
        rfl

theorem of_findFirst_eq_error {candidates : List String} (h : s.findFirst candidates = .error e) :
    e.isNameClash = false := by
  induction candidates with
  | nil => cases h
  | cons candidate rest ih =>
      rw [findFirst] at h
      rcases of_bind_eq_error h with h | ⟨found, -, h⟩
      · exact of_findNamed_eq_error h
      · cases found with
        | none => exact ih h
        | some row => cases h

theorem of_readHolds_eq_error {identity : String} (h : s.readHolds identity = .error e) :
    e.isNameClash = false := by
  rcases of_bind_eq_error h with h | ⟨dates, -, h⟩
  · obtain ⟨⟨context, text⟩, -, h⟩ := exists_of_mapM_eq_error h
    rcases of_bind_eq_error h with h | ⟨date, -, h⟩
    · rw [readDate] at h
      split at h
      · cases h
      · cases h
        rfl
    · cases h
  · cases h

theorem of_readDependencies_eq_error {text : String} (h : readDependencies text = .error e) :
    e.isNameClash = false := by
  rw [readDependencies] at h
  split at h
  · cases h
    rfl
  · obtain ⟨written, -, h⟩ := exists_of_mapM_eq_error h
    split at h
    · cases h
    · cases h
      rfl

theorem of_readRow_eq_error {row : OperationRow} (h : s.readRow row = .error e) :
    e.isNameClash = false := by
  rcases of_bind_eq_error h with h | ⟨word, -, h⟩
  · rw [Cell.of_read_eq_error h]
    rfl
  rcases of_bind_eq_error h with h | ⟨priority, -, h⟩
  · rw [Cell.of_read_eq_error h]
    rfl
  dsimp only at h
  by_cases hpriority : (!isPriority priority) = true
  · rw [if_pos hpriority] at h
    cases h
    rfl
  rw [if_neg hpriority] at h
  rcases of_bind_eq_error h with h | ⟨holds, -, h⟩
  · exact of_readHolds_eq_error h
  rcases of_bind_eq_error h with h | ⟨id, -, h⟩
  · rw [readIdentity] at h
    split at h
    · cases h
    · cases h
      rfl
  split at h
  · cases h
    rfl
  rcases of_bind_eq_error h with h | ⟨dependencies, -, h⟩
  · exact of_readDependencies_eq_error h
  · cases h

instance : LookupStore TableStore where
  notMem_of_lookup_eq_none h old hold :=
    notMem_of_findFirst h old (List.mem_cons_of_mem _ (OrderedSet.contains_iff_mem.1 hold))
  of_lookup_eq_error h := of_findFirst_eq_error h
  of_load_eq_error h := by
    obtain ⟨row, -, h⟩ := exists_of_mapM_eq_error h
    exact of_readRow_eq_error h

end TableStore

end OperationQueue
