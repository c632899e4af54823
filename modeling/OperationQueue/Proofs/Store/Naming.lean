/-
# The rows of pipelines in memory

A pipeline has one row, which keeps its number when the pipeline is renamed. Rows are
looked up by name, so a pipeline is registered under a row that is new, its own, or that
of one of its previous names. Nothing of this touches what is stored of operations.
-/
import OperationQueue.Proofs.Result
import OperationQueue.Proofs.Store.Memory

namespace OperationQueue

namespace MemoryStore

variable {s t : MemoryStore} {rowid : Int} {name other : String} {algorithm : Algorithm}
  {previous : OrderedSet String}

/-- The row with a number carries a name and an algorithm. -/
def IsRow (s : MemoryStore) (rowid : Int) (name : String) (algorithm : Algorithm) : Prop :=
  ∃ index : Nat, rowid = index + 1 ∧ s.pipelines[index]? = some (name, algorithm)

/-- No two rows carry the same name. -/
def HasDistinctNames (s : MemoryStore) : Prop := (s.pipelines.map (·.1)).Nodup

theorem IsRow.unique {algorithm' : Algorithm} (h : s.IsRow rowid name algorithm)
    (hother : s.IsRow rowid other algorithm') : name = other ∧ algorithm = algorithm' := by
  obtain ⟨i, hi, hget⟩ := h
  obtain ⟨j, hj, hget'⟩ := hother
  have hij : i = j := by omega
  subst hij
  rw [hget] at hget'
  cases hget'
  exact ⟨rfl, rfl⟩

theorem IsRow.of_pipelines_eq (h : s.IsRow rowid name algorithm)
    (heq : t.pipelines = s.pipelines) : t.IsRow rowid name algorithm := by
  obtain ⟨index, hindex, hget⟩ := h
  exact ⟨index, hindex, heq ▸ hget⟩

/-- What is stored of operations is the same. -/
structure SameRows (s t : MemoryStore) : Prop where
  rows : t.rows = s.rows
  holds : t.holds = s.holds

theorem SameRows.refl (s : MemoryStore) : SameRows s s := ⟨rfl, rfl⟩

theorem SameRows.operationsAt_eq (h : SameRows s t) : t.operationsAt = s.operationsAt := by
  funext pipeline snapshot
  rw [operationsAt, operationsAt, h.rows]

theorem SameRows.isSound (h : SameRows s t) {owner : Identity → Int} (hs : s.IsSound owner) :
    t.IsSound owner := by
  obtain ⟨pipelines, last, rows, holds, snapshot⟩ := t
  obtain ⟨rfl, rfl⟩ := h
  exact ⟨hs.owned, hs.nodup, hs.numbered, hs.unfinished, hs.unstaged, hs.held⟩

/-! ## Registering -/

/-- What is looked up has the name that is asked for; or nothing has, and it has a previous
one. -/
theorem isRow_of_lookup_eq_some {record : PipelineRecord}
    (h : s.lookup name previous = some record) :
    ∃ stored, record.storedAlgorithm = some stored ∧ s.IsRow record.rowid record.name stored ∧
      (record.name = name ∨
        name ∉ s.pipelines.map (·.1) ∧ previous.contains record.name = true) := by
  obtain ⟨index, hindex, h⟩ := Option.bind_eq_some_iff.1 h
  obtain ⟨⟨found, stored⟩, hget, h⟩ := Option.bind_eq_some_iff.1 h
  cases h
  refine ⟨stored, rfl, ⟨index, rfl, hget⟩, ?_⟩
  have hposition {p : String → Bool} (hp : s.position? p = some index) : p found = true := by
    obtain ⟨hlt, hsatisfied, -⟩ := List.findIdx?_eq_some_iff_getElem.1 hp
    rw [List.getElem?_eq_getElem hlt, Option.some.injEq] at hget
    rw [hget] at hsatisfied
    exact hsatisfied
  rcases Option.or_eq_some_iff.1 hindex with hname | ⟨hnone, hprevious⟩
  · exact .inl (by simpa using hposition hname)
  · refine .inr ⟨fun hmem => ?_, hposition hprevious⟩
    obtain ⟨e, he, heq⟩ := List.mem_map.1 hmem
    have hnot := List.findIdx?_eq_none_iff.1 hnone e he
    simp [heq] at hnot

/-- Where names are distinct, a name is looked up under its own row. -/
theorem lookup_eq_some (hdistinct : s.HasDistinctNames) (h : s.IsRow rowid name algorithm)
    (previous : OrderedSet String) :
    s.lookup name previous = some ⟨rowid, name, some algorithm⟩ := by
  obtain ⟨index, rfl, hget⟩ := h
  obtain ⟨hlt, hat⟩ := List.getElem?_eq_some_iff.1 hget
  have hposition : s.position? (· == name) = some index := by
    refine List.findIdx?_eq_some_iff_getElem.2 ⟨hlt, by simp [hat], fun j hj => ?_⟩
    have hjlt : j < s.pipelines.length := Nat.lt_trans hj hlt
    simp only [beq_iff_eq]
    intro heq
    have hnames : (s.pipelines.map (·.1))[j]? = (s.pipelines.map (·.1))[index]? := by
      rw [List.getElem?_map, List.getElem?_map, hget, List.getElem?_eq_getElem hjlt,
        Option.map_some, Option.map_some, heq]
    have hbound : j < (s.pipelines.map (·.1)).length := by rwa [List.length_map]
    exact Nat.ne_of_lt hj ((List.getElem?_inj hbound hdistinct).1 hnames)
  rw [lookup, find?, hposition]
  simp [hget]

theorem notMem_of_lookup_eq_none (hdistinct : s.HasDistinctNames)
    (h : s.lookup name previous = none) : name ∉ s.pipelines.map (·.1) := by
  intro hmem
  obtain ⟨⟨found, algorithm⟩, he, rfl⟩ := List.mem_map.1 hmem
  obtain ⟨index, hlt, hget⟩ := List.getElem_of_mem he
  have hrow : s.IsRow (index + 1) found algorithm :=
    ⟨index, rfl, by rw [List.getElem?_eq_getElem hlt, hget]⟩
  rw [lookup_eq_some hdistinct hrow previous] at h
  cases h

/-! ## Changing a row -/

section Modify

variable {f : String × Algorithm → String × Algorithm} {index : Nat}

private theorem isRow_modify_self (h : s.IsRow (index + 1) name algorithm)
    (ht : t.pipelines = s.pipelines.modify index f) :
    t.IsRow (index + 1) (f (name, algorithm)).1 (f (name, algorithm)).2 := by
  obtain ⟨i, hi, hget⟩ := h
  obtain rfl : i = index := by omega
  refine ⟨i, hi, ?_⟩
  rw [ht, List.getElem?_modify, hget]
  simp

private theorem isRow_modify_of_ne (h : s.IsRow rowid name algorithm)
    (ht : t.pipelines = s.pipelines.modify index f) (hne : rowid ≠ index + 1) :
    t.IsRow rowid name algorithm := by
  obtain ⟨i, hi, hget⟩ := h
  have hindex : index ≠ i := by omega
  refine ⟨i, hi, ?_⟩
  rw [ht, List.getElem?_modify, hget]
  simp [hindex]

/-- The names after a row was changed: those before, with one put in the place of another. -/
private theorem map_fst_modify (pipelines : List (String × Algorithm)) (hname : ∀ e, (f e).1 = name)
    (index : Nat) :
    (pipelines.modify index f).map (·.1) = (pipelines.map (·.1)).set index name := by
  apply List.ext_getElem?
  intro i
  simp only [List.getElem?_map, List.getElem?_modify, List.getElem?_set, List.length_map]
  by_cases hi : index = i
  · subst hi
    by_cases hlt : index < pipelines.length
    · simp [hlt, hname]
    · simp [hlt]
  · simp [hi]

private theorem map_fst_modify_of_same (pipelines : List (String × Algorithm))
    (hname : ∀ e, (f e).1 = e.1) (index : Nat) :
    (pipelines.modify index f).map (·.1) = pipelines.map (·.1) := by
  apply List.ext_getElem?
  intro i
  simp only [List.getElem?_map, List.getElem?_modify]
  cases pipelines[i]? with
  | none => rfl
  | some e =>
      by_cases hi : index = i
      · simp [hi, hname]
      · simp [hi]

end Modify

/-! ## Registering -/

/-- A name that nobody has comes behind all others. -/
private theorem isRow_append (hdistinct : s.HasDistinctNames)
    (hnew : name ∉ s.pipelines.map (·.1)) (ht : t.pipelines = s.pipelines ++ [(name, algorithm)]) :
    t.HasDistinctNames ∧ t.IsRow (s.pipelines.length + 1) name algorithm ∧
      ∀ {rowid other stored}, s.IsRow rowid other stored → t.IsRow rowid other stored := by
  refine ⟨?_, ⟨s.pipelines.length, rfl, by simp [ht]⟩, ?_⟩
  · rw [HasDistinctNames, ht, List.map_append, List.nodup_append]
    refine ⟨hdistinct, List.nodup_singleton _, ?_⟩
    intro x hx y hy heq
    rw [List.map_singleton, List.mem_singleton] at hy
    have hxname : x = name := heq.trans hy
    exact hnew (hxname ▸ hx)
  · rintro rowid other stored ⟨index, hrowid, hget⟩
    have hlt : index < s.pipelines.length := (List.getElem?_eq_some_iff.1 hget).1
    exact ⟨index, hrowid, by rw [ht, List.getElem?_append_left hlt, hget]⟩

/-- A row that has the name already, or a previous one while nobody has the name, may get
the name. -/
private theorem isRow_rename (hdistinct : s.HasDistinctNames) {index : Nat} {old : String}
    (hrow : s.IsRow (index + 1) old algorithm)
    (hname : old = name ∨ name ∉ s.pipelines.map (·.1))
    (ht : t.pipelines = s.pipelines.modify index fun e => (name, e.2)) :
    t.HasDistinctNames ∧ t.IsRow (index + 1) name algorithm ∧
      ∀ {rowid other stored}, s.IsRow rowid other stored → other ≠ old →
        t.IsRow rowid other stored := by
  refine ⟨?_, isRow_modify_self hrow ht, ?_⟩
  · rw [HasDistinctNames, ht, map_fst_modify (f := fun e => (name, e.2)) _ fun _ => rfl]
    rcases hname with rfl | hnew
    · obtain ⟨i, hi, hget⟩ := hrow
      obtain rfl : i = index := by omega
      have hsame : (s.pipelines.map (·.1))[i]? = some old := by
        rw [List.getElem?_map, hget]
        rfl
      obtain ⟨hlt, hat⟩ := List.getElem?_eq_some_iff.1 hsame
      rw [← hat, List.set_getElem_self]
      exact hdistinct
    · exact List.Nodup.set hdistinct hnew
  · intro rowid other stored hother hne
    apply isRow_modify_of_ne hother ht
    rintro rfl
    exact hne (hother.unique hrow).1

/-- After registering, the row that is given out carries the name and the stored algorithm,
or else the given one, and the rows of all other pipelines are as they were. -/
theorem isRow_register (hdistinct : s.HasDistinctNames) (name : String)
    (previous : OrderedSet String) (algorithm : Algorithm) {record : PipelineRecord}
    (h : s.register name previous algorithm = (record, t)) :
    SameRows s t ∧ t.HasDistinctNames ∧
      t.IsRow record.rowid name (record.storedAlgorithm.getD algorithm) ∧
      ∀ {rowid other stored}, s.IsRow rowid other stored → other ≠ name →
        previous.contains other = false → t.IsRow rowid other stored := by
  rw [register] at h
  cases hlookup : s.lookup name previous with
  | none =>
      rw [hlookup] at h
      cases h
      obtain ⟨hnames, hown, hothers⟩ :=
        isRow_append (t := { s with pipelines := s.pipelines ++ [(name, algorithm)] }) hdistinct
          (notMem_of_lookup_eq_none hdistinct hlookup) rfl
      exact ⟨⟨rfl, rfl⟩, hnames, hown, fun hrow _ _ => hothers hrow⟩
  | some found =>
      rw [hlookup] at h
      cases h
      obtain ⟨stored, hstored, hrow, hname⟩ := isRow_of_lookup_eq_some hlookup
      have hindex : found.rowid = (found.rowid.toNat - 1 : Nat) + 1 := by
        obtain ⟨index, hindex, -⟩ := hrow
        omega
      rw [hindex] at hrow
      have hrenamed := isRow_rename
        (t := { s with
          pipelines := s.pipelines.modify (found.rowid.toNat - 1) fun e => (name, e.2) })
        hdistinct hrow (hname.imp_right And.left) rfl
      obtain ⟨hnames, hown, hothers⟩ := hrenamed
      rw [← hindex] at hown
      rw [hstored]
      refine ⟨⟨rfl, rfl⟩, hnames, hown, ?_⟩
      intro rowid other stored hother hne hprevious
      apply hothers hother
      rintro rfl
      rcases hname with heq | ⟨-, hcontains⟩
      · exact hne heq
      · rw [hprevious] at hcontains
        cases hcontains

/-- Overwriting an algorithm changes the row with this number and no other. -/
theorem isRow_setAlgorithm (h : s.setAlgorithm rowid algorithm = .ok t) :
    SameRows s t ∧ (s.HasDistinctNames → t.HasDistinctNames) ∧
      ∀ {row name stored}, s.IsRow row name stored →
        t.IsRow row name (if row = rowid then algorithm else stored) := by
  rw [setAlgorithm] at h
  split at h
  · next hrange =>
    cases h
    have hindex : rowid = (rowid.toNat - 1 : Nat) + 1 := by omega
    refine ⟨⟨rfl, rfl⟩, fun hdistinct => ?_, fun {row name stored} hrow => ?_⟩
    · have hnames : (s.pipelines.modify (rowid.toNat - 1) fun e => (e.1, algorithm)).map (·.1) =
          s.pipelines.map (·.1) := by
        apply map_fst_modify_of_same
        exact fun _ => rfl
      rw [HasDistinctNames]
      exact hnames ▸ hdistinct
    · by_cases heq : row = rowid
      · rw [if_pos heq]
        rw [heq, hindex] at hrow
        rw [heq, hindex]
        exact isRow_modify_self (f := fun e => (e.1, algorithm)) hrow (by rw [← hindex])
      · rw [if_neg heq]
        rw [hindex] at heq
        exact isRow_modify_of_ne (f := fun e => (e.1, algorithm)) hrow rfl heq
  · cases h

/-! ## Writing -/

theorem pipelines_write {u v : Writing} {w : RowWrite} (h : write rowid u w = .ok v) :
    v.2.pipelines = u.2.pipelines := by
  cases w with
  | insert op =>
      obtain ⟨-, heq⟩ := of_write_insert_eq_ok h
      cases heq
      rfl
  | modify op =>
      cases h
      rfl
  | status id next =>
      cases h
      rfl
  | delete id =>
      cases h
      rfl

theorem pipelines_applyChangesets {snapshot : Snapshot} {changes : List PipelineChangeset}
    {v : Writing} (h : s.applyChangesets snapshot changes = .ok v) :
    v.2.pipelines = s.pipelines := by
  obtain ⟨written, hwritten, h⟩ := exists_of_bind_eq_ok h
  cases h
  apply foldlM_invariant (fun u => u.2.pipelines = s.pipelines) _ rfl hwritten
  intro change _ m n hm hwrites
  apply foldlM_invariant (fun u => u.2.pipelines = s.pipelines) _ hm hwrites
  intro w _ m n hm hwrite
  exact (pipelines_write hwrite).trans hm

end MemoryStore

end OperationQueue
