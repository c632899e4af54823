/-
# The labels of pipelines

The row of a pipeline carries a label: the name of the pipeline and its algorithm. Registering
looks for a label, and it gives a row another name or comes with a new row. For both stores it is
said here which row is found and what becomes of the labels, and that this is all that becomes of
the store: the labels can be taken out of it and put back, and everything beside them stays.
-/
import OperationQueue.Proofs.Store.Entries

namespace OperationQueue

/-- A store whose pipelines have labels. -/
class LabelStore (σ : Type) [Store σ] [RowStore σ] [EntryStore σ] where
  /-- What is kept of an algorithm. -/
  Code : Type
  /-- Keep an algorithm. -/
  encode : Algorithm → Code
  /-- The algorithm that is kept, if it can be read. -/
  decode? : Code → Option Algorithm
  /-- Names and algorithms of the pipelines; the first has row number one. -/
  labels : σ → List (String × Code)
  /-- The store with other labels. -/
  relabel : σ → List (String × Code) → σ
  decode?_encode (algorithm : Algorithm) : decode? (encode algorithm) = some algorithm
  names_eq (s : σ) : EntryStore.names s = (labels s).map (·.1)
  labels_relabel (s : σ) (ls : List (String × Code)) : labels (relabel s ls) = ls
  relabel_labels (s : σ) : relabel s (labels s) = s
  entries_relabel (s : σ) (ls : List (String × Code)) (rowid : Int) :
    EntryStore.entries (relabel s ls) rowid = EntryStore.entries s rowid
  lastSnapshot_relabel (s : σ) (ls : List (String × Code)) :
    Store.lastSnapshot (relabel s ls) = Store.lastSnapshot s
  labels_write {u v : WorkingCopy σ} {pipeline : Int} {w : RowWrite} :
    RowStore.write pipeline u w = .ok v → labels v.2 = labels u.2
  labels_close (s : σ) (snapshot : Snapshot) : labels (RowStore.close snapshot s) = labels s
  labels_saveHolds {s t : σ} {id : Identity} {holds : Holds} :
    Store.saveHolds s id holds = .ok t → labels t = labels s
  of_lookup_eq_some {s : σ} {name : String} {previous : OrderedSet String}
    {record : PipelineRecord} : Store.lookup s name previous = .ok (some record) →
      ∃ (index : Nat) (code : Code), record.rowid = index + 1 ∧
        (labels s)[index]? = some (record.name, code) ∧ decode? code = record.storedAlgorithm ∧
        record.storedAlgorithm.isSome ∧ (record.name = name ∨
          name ∉ EntryStore.names s ∧ previous.contains record.name = true)
  of_lookup_eq_none {s : σ} {name : String} {previous : OrderedSet String} :
    Store.lookup s name previous = .ok none → name ∉ EntryStore.names s
  register_eq (s : σ) (name : String) (previous : OrderedSet String) (algorithm : Algorithm) :
    Store.register s name previous algorithm = (Store.lookup s name previous).map fun found =>
      match found with
      | some record =>
        ({ record with name := name },
          relabel s ((labels s).modify (record.rowid.toNat - 1) fun label => (name, label.2)))
      | none =>
        (⟨(labels s).length + 1, name, none⟩, relabel s (labels s ++ [(name, encode algorithm)]))
  setAlgorithm_eq (s : σ) (rowid : Int) (algorithm : Algorithm) :
    Store.setAlgorithm s rowid algorithm =
      if 1 ≤ rowid ∧ rowid ≤ (labels s).length then
        .ok (relabel s ((labels s).modify (rowid.toNat - 1) fun label =>
          (label.1, encode algorithm)))
      else .error (.unknownPipelineRow rowid)

namespace LabelStore

variable {σ : Type} [Store σ] [RowStore σ] [EntryStore σ] [LabelStore σ] {s t : σ}
  {name other : String} {previous : OrderedSet String} {algorithm stored : Algorithm}
  {rowid : Int} {record found : PipelineRecord}

/-! ## Registering -/

/-- A pipeline that is found under no name gets a new row. -/
theorem register_of_lookup_eq_none (h : Store.lookup s name previous = .ok none)
    (algorithm : Algorithm) :
    Store.register s name previous algorithm = .ok (⟨(labels s).length + 1, name, none⟩,
      relabel s (labels s ++ [(name, encode algorithm)])) := by
  rw [register_eq, h]
  rfl

/-- A pipeline that is found gives its name to the row. -/
theorem register_of_lookup_eq_some (h : Store.lookup s name previous = .ok (some found))
    (algorithm : Algorithm) :
    Store.register s name previous algorithm = .ok ({ found with name := name },
      relabel s ((labels s).modify (found.rowid.toNat - 1) fun label => (name, label.2))) := by
  rw [register_eq, h]
  rfl

/-- Registering changes labels and nothing else. -/
theorem exists_relabel_of_register
    (h : Store.register s name previous algorithm = .ok (record, t)) :
    ∃ ls, t = relabel s ls := by
  rw [register_eq] at h
  cases hlookup : Store.lookup s name previous with
  | error e =>
      rw [hlookup] at h
      cases h
  | ok found =>
      rw [hlookup] at h
      cases found with
      | none =>
          cases h
          exact ⟨_, rfl⟩
      | some found =>
          cases h
          exact ⟨_, rfl⟩

/-- A name that is stored keeps its row, and the store stays as it is. -/
theorem eq_of_register_of_mem (h : Store.register s name previous algorithm = .ok (record, t))
    (hmem : name ∈ EntryStore.names s) : t = s := by
  cases hlookup : Store.lookup s name previous with
  | error e =>
      rw [register_eq, hlookup] at h
      cases h
  | ok found =>
      cases found with
      | none => exact absurd hmem (of_lookup_eq_none hlookup)
      | some found =>
          obtain ⟨index, code, hindex, hget, -, -, hname⟩ := of_lookup_eq_some hlookup
          have hown : found.name = name := hname.resolve_right fun hnew => hnew.1 hmem
          rw [register_of_lookup_eq_some hlookup] at h
          cases h
          have hsame : (labels s).modify (found.rowid.toNat - 1) (fun label => (name, label.2)) =
              labels s := by
            apply List.ext_getElem?
            intro i
            have hat : found.rowid.toNat - 1 = index := by omega
            rw [List.getElem?_modify, hat]
            by_cases hi : index = i
            · subst hi
              simp [hget, hown]
            · simp [hi]
          rw [hsame, relabel_labels]

/-! ## Whose label a row carries -/

/-- The row with a number carries a name and an algorithm. -/
def HasLabel (s : σ) (rowid : Int) (name : String) (algorithm : Algorithm) : Prop :=
  ∃ (index : Nat) (code : Code σ), rowid = index + 1 ∧ (labels s)[index]? = some (name, code) ∧
    decode? code = some algorithm

theorem HasLabel.of_labels_eq (h : HasLabel s rowid name stored) (heq : labels t = labels s) :
    HasLabel t rowid name stored := by
  rw [HasLabel, heq]
  exact h

theorem HasLabel.hasName (h : HasLabel s rowid name stored) :
    EntryStore.HasName s rowid name := by
  obtain ⟨index, code, hindex, hget, -⟩ := h
  refine ⟨index, hindex, ?_⟩
  rw [names_eq, List.getElem?_map, hget]
  rfl

/-- The row that a pipeline gets carries its name and the algorithm with which it was stored, or
else the one that it comes with. -/
theorem hasLabel_register (h : Store.register s name previous algorithm = .ok (record, t)) :
    HasLabel t record.rowid name (record.storedAlgorithm.getD algorithm) := by
  cases hlookup : Store.lookup s name previous with
  | error e =>
      rw [register_eq, hlookup] at h
      cases h
  | ok found =>
      cases found with
      | none =>
          rw [register_of_lookup_eq_none hlookup] at h
          cases h
          refine ⟨(labels s).length, encode algorithm, rfl, ?_, decode?_encode algorithm⟩
          rw [labels_relabel]
          simp
      | some found =>
          obtain ⟨index, code, hindex, hget, hcode, hstored, -⟩ := of_lookup_eq_some hlookup
          obtain ⟨stored, hstored⟩ := Option.isSome_iff_exists.1 hstored
          rw [register_of_lookup_eq_some hlookup] at h
          cases h
          have hat : found.rowid.toNat - 1 = index := by omega
          refine ⟨index, code, hindex, ?_, by rw [hcode, hstored]; rfl⟩
          rw [labels_relabel, hat, List.getElem?_modify, hget]
          simp

/-- A row keeps its label, unless it carries a previous name and gets the name in its place; it
keeps its algorithm even then. -/
theorem HasLabel.register (hrow : HasLabel s rowid other stored)
    (h : Store.register s name previous algorithm = .ok (record, t)) :
    HasLabel t rowid other stored ∨
      previous.contains other = true ∧ HasLabel t rowid name stored := by
  obtain ⟨i, code, hi, hget, hcode⟩ := hrow
  cases hlookup : Store.lookup s name previous with
  | error e =>
      rw [register_eq, hlookup] at h
      cases h
  | ok found =>
      cases found with
      | none =>
          have hlt : i < (labels s).length := (List.getElem?_eq_some_iff.1 hget).1
          rw [register_of_lookup_eq_none hlookup] at h
          cases h
          exact .inl ⟨i, code, hi, by rw [labels_relabel, List.getElem?_append_left hlt, hget], hcode⟩
      | some found =>
          obtain ⟨index, own, hindex, hfound, -, -, hname⟩ := of_lookup_eq_some hlookup
          rw [register_of_lookup_eq_some hlookup] at h
          cases h
          have hat : found.rowid.toNat - 1 = index := by omega
          by_cases hsame : index = i
          · subst hsame
            rw [hfound, Option.some.injEq, Prod.mk.injEq] at hget
            obtain ⟨rfl, rfl⟩ := hget
            have hrenamed : HasLabel (relabel s ((labels s).modify (found.rowid.toNat - 1)
                fun label => (name, label.2))) rowid name stored := by
              refine ⟨index, own, hi, ?_, hcode⟩
              rw [labels_relabel, hat, List.getElem?_modify, hfound]
              simp
            rcases hname with heq | ⟨-, hprevious⟩
            · exact .inl (heq ▸ hrenamed)
            · exact .inr ⟨hprevious, hrenamed⟩
          · refine .inl ⟨i, code, hi, ?_, hcode⟩
            rw [labels_relabel, hat, List.getElem?_modify, hget]
            simp [hsame]

/-- The row of a pipeline may get another algorithm, and all other rows stay. -/
theorem hasLabel_setAlgorithm (h : Store.setAlgorithm s rowid algorithm = .ok t) :
    ∀ {row name stored}, HasLabel s row name stored →
      HasLabel t row name (if row = rowid then algorithm else stored) := by
  rintro row name stored ⟨i, code, hi, hget, hcode⟩
  rw [setAlgorithm_eq] at h
  split at h
  · next hrange =>
    cases h
    by_cases hrow : row = rowid
    · have hat : rowid.toNat - 1 = i := by omega
      refine ⟨i, encode algorithm, hi, ?_, ?_⟩
      · rw [labels_relabel, hat, List.getElem?_modify, hget]
        simp
      · rw [if_pos hrow, decode?_encode]
    · have hat : rowid.toNat - 1 ≠ i := by omega
      refine ⟨i, code, hi, ?_, ?_⟩
      · rw [labels_relabel, List.getElem?_modify, hget]
        simp [hat]
      · rw [if_neg hrow, hcode]
  · cases h

/-- A row that carries a label can get another algorithm. -/
theorem exists_setAlgorithm_eq_ok (h : HasLabel s rowid name stored) (algorithm : Algorithm) :
    ∃ t, Store.setAlgorithm s rowid algorithm = .ok t := by
  obtain ⟨i, code, hi, hget, -⟩ := h
  have hlt : i < (labels s).length := (List.getElem?_eq_some_iff.1 hget).1
  have hrange : 1 ≤ rowid ∧ rowid ≤ (labels s).length := by omega
  exact ⟨_, by rw [setAlgorithm_eq, if_pos hrange]⟩

theorem labels_applyChangesets {snapshot : Snapshot} {changes : List PipelineChangeset}
    {numbers : OrderedMap Identity Int}
    (h : Store.applyChangesets s snapshot changes = .ok (numbers, t)) : labels t = labels s := by
  obtain ⟨copy, hwritten, rfl⟩ := RowStore.exists_of_applyChangesets_eq_ok h
  rw [labels_close]
  exact WorkingCopy.eq_of_writeAll labels labels_write hwritten

end LabelStore

/-! ## The store in memory -/

namespace MemoryStore

variable {s t : MemoryStore}

instance : LabelStore MemoryStore where
  Code := Algorithm
  encode := id
  decode? := some
  labels := pipelines
  relabel s ls := { s with pipelines := ls }
  decode?_encode _ := rfl
  names_eq _ := rfl
  labels_relabel _ _ := rfl
  relabel_labels _ := rfl
  entries_relabel _ _ _ := rfl
  lastSnapshot_relabel _ _ := rfl
  labels_write := pipelines_write
  labels_close _ _ := rfl
  labels_saveHolds h := by
    cases h
    rfl
  of_lookup_eq_some {s name previous record} h := by
    obtain ⟨stored, hstored, ⟨index, hindex, hget⟩, hname⟩ :=
      isRow_of_lookup_eq_some (Except.ok.inj h)
    exact ⟨index, stored, hindex, hget, hstored.symm, by rw [hstored]; rfl, hname⟩
  of_lookup_eq_none {s name previous} h hmem := by
    have hlookup : s.lookup name previous = none := Except.ok.inj h
    obtain ⟨e, he, hname⟩ := List.mem_map.1 hmem
    obtain ⟨index, hindex⟩ : ∃ index, s.position? (· == name) = some index := by
      rw [← Option.isSome_iff_exists, position?, List.findIdx?_isSome, List.any_eq_true]
      exact ⟨e, he, by simp [hname]⟩
    have hlt : index < s.pipelines.length :=
      (List.findIdx?_eq_some_iff_getElem.1 hindex).1
    rw [lookup, find?, hindex] at hlookup
    simp [hlt] at hlookup
  register_eq s name previous algorithm := by
    show Except.ok (s.register name previous algorithm) = (Except.ok (s.lookup name previous)).map _
    rw [register]
    cases s.lookup name previous with
    | none => rfl
    | some record => rfl
  setAlgorithm_eq _ _ _ := rfl

end MemoryStore

/-! ## The store in tables -/

namespace TableStore

variable {s t : TableStore} {name : String}

/-- The tables with other labels. -/
def relabel (s : TableStore) (ls : List (String × Cell)) : TableStore :=
  { s with pipelines := ls.map fun label => ⟨label.1, label.2⟩ }

theorem relabel_labels (s : TableStore) : s.relabel s.labels = s := by
  rw [relabel, labels, List.map_map]
  have hrows : s.pipelines.map ((fun label : String × Cell => (⟨label.1, label.2⟩ : PipelineRow)) ∘
      fun row => (row.name, row.algorithm)) = s.pipelines := List.map_id _
  rw [hrows]

/-- Changing a row is changing its label. -/
theorem relabel_modify {f : PipelineRow → PipelineRow} {g : String × Cell → String × Cell}
    (h : ∀ row, ((f row).name, (f row).algorithm) = g (row.name, row.algorithm)) (index : Nat) :
    s.relabel (s.labels.modify index g) = { s with pipelines := s.pipelines.modify index f } := by
  have hlabels : ({ s with pipelines := s.pipelines.modify index f } : TableStore).labels =
      s.labels.modify index g := map_modify_comm h s.pipelines index
  rw [← hlabels]
  exact relabel_labels { s with pipelines := s.pipelines.modify index f }

instance : LabelStore TableStore where
  Code := Cell
  encode algorithm := .number algorithm.code
  decode? := decode?
  labels := labels
  relabel := relabel
  decode?_encode := Algorithm.ofCode?_code
  names_eq := names_eq
  labels_relabel s ls := by
    rw [labels, relabel, List.map_map]
    exact List.map_id ls
  relabel_labels := relabel_labels
  entries_relabel _ _ _ := rfl
  lastSnapshot_relabel _ _ := rfl
  labels_write {u v pipeline w} h := by
    cases w with
    | insert op =>
        have hwrite : write pipeline u (.insert op) = .ok v := h
        rw [write] at hwrite
        split at hwrite
        · cases hwrite
        · cases hwrite
          rfl
    | modify op => cases h; rfl
    | status id next => cases h; rfl
    | delete id => cases h; rfl
  labels_close _ _ := rfl
  labels_saveHolds h := by
    cases h
    rfl
  of_lookup_eq_some := of_lookup_eq_some
  of_lookup_eq_none h := notMem_of_findFirst h _ List.mem_cons_self
  register_eq s name previous algorithm := by
    show s.register name previous algorithm = (s.lookup name previous).map _
    rw [register]
    cases s.lookup name previous with
    | error e => rfl
    | ok found =>
        cases found with
        | none =>
            have hlabels : s.relabel (s.labels ++ [(name, .number algorithm.code)]) =
                { s with pipelines := s.pipelines ++ [⟨name, .number algorithm.code⟩] } := by
              simp [relabel, labels, Function.comp_def]
            have hlength : s.labels.length = s.pipelines.length := by simp [labels]
            exact congrArg Except.ok (Prod.ext (by simp [hlength]) hlabels.symm)
        | some record =>
            have hlabels := relabel_modify (s := s) (f := fun row => { row with name := name })
              (g := fun label => (name, label.2)) (fun _ => rfl) (record.rowid.toNat - 1)
            exact congrArg Except.ok (Prod.ext rfl hlabels.symm)
  setAlgorithm_eq s rowid algorithm := by
    have hlabels := relabel_modify (s := s)
      (f := fun row => { row with algorithm := .number algorithm.code })
      (g := fun label => (label.1, .number algorithm.code)) (fun _ => rfl) (rowid.toNat - 1)
    show s.setAlgorithm rowid algorithm = _
    rw [setAlgorithm, hasPipeline, hlabels]
    simp [labels, updatePipeline]

end TableStore

end OperationQueue
