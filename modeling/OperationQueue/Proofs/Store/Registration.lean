/-
# Looking up before registering

A registry decides on a pipeline by what a store finds under its names, and then it registers the
pipeline, which looks again and may rename the row that it finds. The decision is only worth
something if both find the same row. They do, in every state whose algorithms can be read: names
are unique in it, since a name is given to a row only where no other row has it, and so the name
of a pipeline that is registered stands for its row from then on, and a name that the row had
before stands for nothing.
-/
import OperationQueue.Proofs.Store.Labels
import OperationQueue.Store.Table.Foreign

namespace OperationQueue

/-- A store that begins without rows and that another program may write. A lookup fails in it only
because of an algorithm that cannot be read. -/
class SharedStore (σ : Type) [Store σ] [RowStore σ] [EntryStore σ] [LabelStore σ] where
  /-- The store that keeps nothing. -/
  empty : σ
  /-- What another program may make of the store. -/
  Overwritten : σ → σ → Prop
  names_empty : EntryStore.names empty = []
  nodup_of_overwritten {s t : σ} : Overwritten s t → (EntryStore.names t).Nodup
  exists_lookup {s : σ} : (∀ label ∈ LabelStore.labels s, (LabelStore.decode? label.2).isSome) →
    ∀ name previous, ∃ found, Store.lookup s name previous = .ok found

/-- A value that stood in one place of a list is gone when another one is put there. -/
theorem notMem_set_of_nodup {α : Type} {l : List α} (h : l.Nodup) {i : Nat} {a b : α}
    (hget : l[i]? = some a) (hne : a ≠ b) : a ∉ l.set i b := by
  intro hmem
  obtain ⟨j, hj⟩ := List.mem_iff_getElem?.1 hmem
  have hlt : i < l.length := (List.getElem?_eq_some_iff.1 hget).1
  by_cases hij : i = j
  · subst hij
    rw [List.getElem?_set_self hlt, Option.some.injEq] at hj
    exact hne hj.symm
  · rw [List.getElem?_set_ne hij] at hj
    exact hij ((List.getElem?_inj hlt h).1 (hget.trans hj.symm))

namespace LabelStore

open EntryStore

variable {σ : Type} [Store σ] [RowStore σ] [EntryStore σ] [LabelStore σ] {s t : σ}
  {name other : String} {previous : OrderedSet String} {algorithm stored : Algorithm}
  {rowid : Int} {record found : PipelineRecord}

theorem names_relabel (s : σ) (ls : List (String × Code σ)) :
    names (relabel s ls) = ls.map (·.1) := by
  rw [names_eq, labels_relabel]

/-- A row that gets a name gives its old one away. -/
theorem names_relabel_modify (s : σ) (name : String) (index : Nat) :
    names (relabel s ((labels s).modify index fun label => (name, label.2))) =
      (names s).set index name := by
  rw [names_relabel, names_eq]
  apply map_modify_of_const
  exact fun _ => rfl

/-- Registering a pipeline looks for it. If nothing is found, the pipeline gets a row behind all
others. If a row is found, it carries the name of the pipeline, or a previous one while no row has
the name, and it gets the name. -/
theorem register_cases (h : Store.register s name previous algorithm = .ok (record, t)) :
    (Store.lookup s name previous = .ok none ∧ name ∉ names s ∧
      record = ⟨(labels s).length + 1, name, none⟩ ∧
      t = relabel s (labels s ++ [(name, encode algorithm)])) ∨
    ∃ (found : PipelineRecord) (index : Nat) (code : Code σ) (stored : Algorithm),
      Store.lookup s name previous = .ok (some found) ∧
      found = ⟨index + 1, found.name, some stored⟩ ∧
      (labels s)[index]? = some (found.name, code) ∧ decode? code = some stored ∧
      (found.name = name ∨ name ∉ names s) ∧ record = ⟨index + 1, name, some stored⟩ ∧
      t = relabel s ((labels s).modify index fun label => (name, label.2)) := by
  cases hlookup : Store.lookup s name previous with
  | error e =>
      rw [register_eq, hlookup] at h
      cases h
  | ok found =>
      cases found with
      | none =>
          rw [register_of_lookup_eq_none hlookup] at h
          cases h
          exact .inl ⟨rfl, of_lookup_eq_none hlookup, rfl, rfl⟩
      | some found =>
          obtain ⟨index, code, hindex, hget, hcode, hstored, hname⟩ := of_lookup_eq_some hlookup
          obtain ⟨stored, hstored⟩ := Option.isSome_iff_exists.1 hstored
          have hfound : found = ⟨index + 1, found.name, some stored⟩ := by rw [← hindex, ← hstored]
          have hat : found.rowid.toNat - 1 = index := by omega
          rw [register_of_lookup_eq_some hlookup, hat] at h
          cases h
          refine .inr ⟨found, index, code, stored, rfl, hfound, hget, hcode.trans hstored,
            hname.imp_right And.left, ?_, rfl⟩
          rw [hindex, hstored]

/-! ## Names that stand for one row -/

theorem nodup_names_register (hnames : (names s).Nodup)
    (h : Store.register s name previous algorithm = .ok (record, t)) : (names t).Nodup := by
  rcases register_cases h with ⟨-, hnew, -, rfl⟩ | ⟨found, index, code, stored, -, -, hget, -,
    hname, -, rfl⟩
  · rw [names_relabel, List.map_append, ← names_eq, List.map_singleton, ← List.concat_eq_append]
    exact hnames.concat hnew
  · rw [names_relabel_modify]
    rcases hname with rfl | hnew
    · have hat : (names s)[index]? = some found.name := by
        rw [names_eq, List.getElem?_map, hget]
        rfl
      obtain ⟨hlt, hat⟩ := List.getElem?_eq_some_iff.1 hat
      rw [← hat, List.set_getElem_self]
      exact hnames
    · exact hnames.set hnew

/-- A row that gets another name leaves its old one to nobody. -/
theorem notMem_names_register (hnames : (names s).Nodup)
    (h : Store.register s name previous algorithm = .ok (record, t))
    (hfound : Store.lookup s name previous = .ok (some found)) (hne : found.name ≠ name) :
    found.name ∉ names t := by
  rcases register_cases h with ⟨hnone, -⟩ | ⟨row, index, code, stored, hrow, -, hget, -, -, -, rfl⟩
  · rw [hnone] at hfound
    cases hfound
  · rw [hrow] at hfound
    cases hfound
    have hold : (names s)[index]? = some found.name := by
      rw [names_eq, List.getElem?_map, hget]
      rfl
    rw [names_relabel_modify]
    exact notMem_set_of_nodup hnames hold hne

/-- Every algorithm that is kept can be read. -/
def IsReadable (s : σ) : Prop := ∀ label ∈ labels s, (decode? label.2).isSome

/-- Registering leaves every label in its row, but for the name of the row that is given out, and
puts a new row behind all others if it found none. -/
theorem getElem?_labels_register (h : Store.register s name previous algorithm = .ok (record, t))
    {index : Nat} {label : String × Code σ} (hlabel : (labels s)[index]? = some label) :
    (labels t)[index]? = some (if record.rowid = index + 1 then (name, label.2) else label) := by
  have hlt : index < (labels s).length := (List.getElem?_eq_some_iff.1 hlabel).1
  rcases register_cases h with ⟨-, -, rfl, rfl⟩ | ⟨found, own, code, stored, -, -, -, -, -, rfl, rfl⟩
  · have hrow : ¬ ((labels s).length + 1 : Int) = index + 1 := by omega
    rw [labels_relabel, List.getElem?_append_left hlt, hlabel, if_neg hrow]
  · rw [labels_relabel, List.getElem?_modify, hlabel]
    by_cases hrow : own = index
    · simp [hrow]
    · have hrowid : ¬ (own + 1 : Int) = index + 1 := by omega
      rw [if_neg hrowid]
      simp [hrow]

theorem IsReadable.register (hs : IsReadable s)
    (h : Store.register s name previous algorithm = .ok (record, t)) : IsReadable t := by
  intro label hlabel
  rcases register_cases h with ⟨-, -, -, rfl⟩ | ⟨found, index, code, stored, -, -, -, -, -, -, rfl⟩
  · rw [labels_relabel, List.mem_append, List.mem_singleton] at hlabel
    rcases hlabel with hlabel | rfl
    · exact hs label hlabel
    · rw [decode?_encode]
      rfl
  · rw [labels_relabel] at hlabel
    obtain ⟨i, hi⟩ := List.mem_iff_getElem?.1 hlabel
    rw [List.getElem?_modify] at hi
    obtain ⟨old, hold, heq⟩ := Option.map_eq_some_iff.1 hi
    have hkept := hs old (List.mem_of_getElem? hold)
    split at heq
    · rw [← heq]
      exact hkept
    · rw [← heq]
      exact hkept

end LabelStore

namespace SharedStore

open EntryStore LabelStore

variable {σ : Type} [Store σ] [RowStore σ] [EntryStore σ] [LabelStore σ] [SharedStore σ] {s t : σ}
  {name other : String} {previous : OrderedSet String} {algorithm stored : Algorithm}
  {rowid : Int} {record found : PipelineRecord}

/-- A state that a store can come to, by calls and by what another program makes of it. -/
inductive Arisen : σ → Prop
  | empty : Arisen SharedStore.empty
  | register {s t : σ} {name : String} {previous : OrderedSet String} {algorithm : Algorithm}
      {record : PipelineRecord} (arisen : Arisen s)
      (ok : Store.register s name previous algorithm = .ok (record, t)) : Arisen t
  | setAlgorithm {s t : σ} {rowid : Int} {algorithm : Algorithm} (arisen : Arisen s)
      (ok : Store.setAlgorithm s rowid algorithm = .ok t) : Arisen t
  | applyChangesets {s t : σ} {snapshot : Snapshot} {changes : List PipelineChangeset}
      {numbers : OrderedMap Identity Int} (arisen : Arisen s)
      (ok : Store.applyChangesets s snapshot changes = .ok (numbers, t)) : Arisen t
  | saveHolds {s t : σ} {id : Identity} {holds : Holds} (arisen : Arisen s)
      (ok : Store.saveHolds s id holds = .ok t) : Arisen t
  | overwritten {s t : σ} (arisen : Arisen s) (foreign : Overwritten s t) : Arisen t

/-- No two rows ever have one name. -/
theorem Arisen.nodup_names (h : Arisen s) : (names s).Nodup := by
  induction h with
  | empty =>
      rw [names_empty]
      exact List.nodup_nil
  | register _ ok ih => exact nodup_names_register ih ok
  | setAlgorithm _ ok ih => exact names_setAlgorithm ok ▸ ih
  | applyChangesets _ ok ih => exact names_applyChangesets ok ▸ ih
  | saveHolds _ ok ih => exact names_saveHolds ok ▸ ih
  | overwritten _ foreign _ => exact nodup_of_overwritten foreign

/-- The name of a row is looked up there, whichever names come after it. -/
theorem lookup_eq_of_hasLabel (hnames : (names s).Nodup) (hs : IsReadable s)
    (h : HasLabel s rowid name stored) (previous : OrderedSet String) :
    Store.lookup s name previous = .ok (some ⟨rowid, name, some stored⟩) := by
  obtain ⟨index, code, hindex, hget, hcode⟩ := h
  have hname : (names s)[index]? = some name := by rw [names_eq, List.getElem?_map, hget]; rfl
  obtain ⟨found, hfound⟩ := exists_lookup hs name previous
  cases found with
  | none => exact absurd (List.mem_of_getElem? hname) (of_lookup_eq_none hfound)
  | some found =>
      obtain ⟨i, own, hi, hown, hstored, -, hclaimed⟩ := of_lookup_eq_some hfound
      have hsame : found.name = name :=
        hclaimed.resolve_right fun hnew => hnew.1 (List.mem_of_getElem? hname)
      have hat : (names s)[i]? = some name := by
        rw [names_eq, List.getElem?_map, hown, ← hsame]
        rfl
      obtain rfl : i = index := by
        have hlt : i < (names s).length := (List.getElem?_eq_some_iff.1 hat).1
        exact (List.getElem?_inj hlt hnames).1 (hat.trans hname.symm)
      rw [hget, Option.some.injEq, Prod.mk.injEq] at hown
      have hrecord : found = ⟨rowid, name, some stored⟩ := by
        rw [← hcode, hown.2, hstored, hindex, ← hi, ← hsame]
      rw [hfound, hrecord]

/-- A name that no row has is not found. -/
theorem lookup_eq_none_of_notMem (hs : IsReadable s) (h : name ∉ names s) :
    Store.lookup s name .empty = .ok none := by
  obtain ⟨found, hfound⟩ := exists_lookup hs name .empty
  cases found with
  | none => exact hfound
  | some found =>
      obtain ⟨i, code, -, hget, -, -, hname⟩ := of_lookup_eq_some hfound
      rcases hname with hname | ⟨-, hprevious⟩
      · refine absurd ?_ h
        rw [names_eq]
        exact List.mem_map.2 ⟨_, List.mem_of_getElem? hget, hname⟩
      · cases hprevious

/-- What is looked up is what registering gives. In every state whose algorithms can be read both
succeed, and a row with an algorithm is found exactly if registering gives out this row as stored
with this algorithm; if nothing is found, registering comes with one more row. Then the name
stands for the row by itself, a previous name that the row had stands for nothing, and registering
again gives the same row and changes nothing. Every row keeps its algorithm, every row but the one
given out keeps its name, and all that is kept beside the labels stays. -/
theorem lookup_predicts_register (h : Arisen s) (hs : IsReadable s) (name : String)
    (previous : OrderedSet String) (algorithm : Algorithm) :
    ∃ found record t, Store.lookup s name previous = .ok found ∧
      Store.register s name previous algorithm = .ok (record, t) ∧ record.name = name ∧
      (∀ rowid stored, (∃ old, found = some ⟨rowid, old, some stored⟩) ↔
        record.rowid = rowid ∧ record.storedAlgorithm = some stored) ∧
      (found = none → record = ⟨(labels s).length + 1, name, none⟩ ∧
        labels t = labels s ++ [(name, encode algorithm)]) ∧
      Store.lookup t name .empty =
        .ok (some ⟨record.rowid, name, some (record.storedAlgorithm.getD algorithm)⟩) ∧
      (∀ old, found = some old → old.name ≠ name → Store.lookup t old.name .empty = .ok none) ∧
      Store.register t name previous algorithm =
        .ok (⟨record.rowid, name, some (record.storedAlgorithm.getD algorithm)⟩, t) ∧
      (∀ (index : Nat) label, (labels s)[index]? = some label → (labels t)[index]? =
        some (if record.rowid = index + 1 then (name, label.2) else label)) ∧
      (found ≠ none → (labels t).length = (labels s).length) ∧
      t = relabel s (labels t) ∧ (∀ rowid, entries t rowid = entries s rowid) ∧
      Store.lastSnapshot t = Store.lastSnapshot s := by
  have hnames := h.nodup_names
  obtain ⟨found, hfound⟩ := exists_lookup hs name previous
  obtain ⟨record, t, hregister⟩ :
      ∃ record t, Store.register s name previous algorithm = .ok (record, t) := by
    rw [register_eq, hfound]
    exact ⟨_, _, rfl⟩
  have hs' := hs.register hregister
  have hrow := hasLabel_register hregister
  have hown (aliases : OrderedSet String) :=
    lookup_eq_of_hasLabel (nodup_names_register hnames hregister) hs' hrow aliases
  have hmem : name ∈ names t := by
    obtain ⟨index, -, hget⟩ := hrow.hasName
    exact List.mem_of_getElem? hget
  obtain ⟨ls, hls⟩ := exists_relabel_of_register hregister
  have hlabels : labels t = ls := by rw [hls, labels_relabel]
  refine ⟨found, record, t, hfound, hregister, ?_, ?_, ?_, hown .empty, ?_, ?_,
    fun index label => getElem?_labels_register hregister, ?_, by rw [hlabels, ← hls], ?_, ?_⟩
  · rcases register_cases hregister with ⟨-, -, hrecord, -⟩ | ⟨row, index, code, kept, -, -, -, -,
      -, hrecord, -⟩
    · rw [hrecord]
    · rw [hrecord]
  · intro rowid stored
    rcases register_cases hregister with ⟨hnone, -, hrecord, -⟩ | ⟨row, index, code, kept, hsome,
      hrow, -, -, -, hrecord, -⟩
    · rw [hnone, Except.ok.injEq] at hfound
      simp [← hfound, hrecord]
    · rw [hsome, Except.ok.injEq] at hfound
      rw [← hfound, hrow, hrecord]
      simp [eq_comm]
  · rintro rfl
    rcases register_cases hregister with ⟨-, -, hrecord, ht⟩ | ⟨row, index, code, kept, hsome, -⟩
    · exact ⟨hrecord, by rw [ht, labels_relabel]⟩
    · rw [hsome] at hfound
      cases hfound
  · rintro old rfl hne
    exact lookup_eq_none_of_notMem hs' (notMem_names_register hnames hregister hfound hne)
  · have hagain := register_of_lookup_eq_some (hown previous) algorithm
    have hsame := eq_of_register_of_mem hagain hmem
    rw [hagain, hsame]
  · intro hsome
    rcases register_cases hregister with ⟨hnone, -⟩ | ⟨row, index, code, kept, -, -, -, -, -, -, ht⟩
    · rw [hnone, Except.ok.injEq] at hfound
      exact absurd hfound.symm hsome
    · rw [ht, labels_relabel, List.length_modify]
  · intro rowid
    rw [hls, entries_relabel]
  · rw [hls, lastSnapshot_relabel]

end SharedStore

/-! ## The store in memory -/

instance : SharedStore MemoryStore where
  empty := .empty
  Overwritten _ _ := False
  names_empty := rfl
  nodup_of_overwritten h := h.elim
  exists_lookup _ _ _ := ⟨_, rfl⟩

/-! ## The store in tables -/

namespace TableStore

variable {s t : TableStore}

theorem exists_findNamed (h : ∀ label ∈ s.labels, (decode? label.2).isSome) (name : String) :
    ∃ found, s.findNamed name = .ok found := by
  rw [findNamed]
  split
  · exact ⟨none, rfl⟩
  · next index hindex =>
    obtain ⟨hlt, -, -⟩ := List.findIdx?_eq_some_iff_getElem.1 hindex
    have hlabel : (s.pipelines[index].name, s.pipelines[index].algorithm) ∈ s.labels :=
      List.mem_map.2 ⟨_, List.getElem_mem hlt, rfl⟩
    obtain ⟨algorithm, hdecoded⟩ := Option.isSome_iff_exists.1 (h _ hlabel)
    rw [List.getElem?_eq_getElem hlt, Option.map_some, Option.getD_some]
    cases hcell : s.pipelines[index].algorithm with
    | number code =>
        rw [hcell] at hdecoded
        have hcode : Algorithm.ofCode? code = some algorithm := hdecoded
        refine ⟨some (index + 1, algorithm), ?_⟩
        simp only [Cell.read, bind, Except.bind, hcode]
    | double units =>
        rw [hcell] at hdecoded
        cases hdecoded
    | text content =>
        rw [hcell] at hdecoded
        cases hdecoded

theorem exists_findFirst (h : ∀ label ∈ s.labels, (decode? label.2).isSome)
    (candidates : List String) : ∃ found, s.findFirst candidates = .ok found := by
  induction candidates with
  | nil => exact ⟨none, rfl⟩
  | cons candidate rest ih =>
      obtain ⟨named, hnamed⟩ := exists_findNamed h candidate
      rw [findFirst, hnamed]
      cases named with
      | none => exact ih
      | some row => exact ⟨_, rfl⟩

/-- Another program may write what it likes, but the index over names refuses a second row with
the name of a row. -/
instance : SharedStore TableStore where
  empty := .empty
  Overwritten _ t := t.names.Nodup
  names_empty := rfl
  nodup_of_overwritten h := h
  exists_lookup h _ _ := exists_findFirst h _

/-- A single value that is overwritten is never a name. -/
theorem names_overwrite {w : ForeignWrite} {count : Nat} (h : s.overwrite w = .ok (count, t)) :
    t.names = s.names := by
  cases w with
  | identity id text =>
      rw [overwrite] at h
      split at h
      · cases h
      · cases h
        rfl
  | snapshot id word => cases h; rfl
  | status id text => cases h; rfl
  | priority id number => cases h; rfl
  | dependencies id text => cases h; rfl
  | algorithm name code =>
      cases h
      rw [names, names, List.map_map]
      apply List.map_congr_left
      intro row _
      simp only [Function.comp_apply]
      split <;> rfl
  | hold id context text =>
      rw [overwrite] at h
      split at h
      · cases h
        rfl
      · cases h
        rfl
  | lastSnapshot word =>
      rw [overwrite] at h
      split at h
      · cases h
        rfl
      · cases h
        rfl

theorem arisen_of_overwrite (h : SharedStore.Arisen s) {w : ForeignWrite} {count : Nat}
    (hoverwrite : s.overwrite w = .ok (count, t)) : SharedStore.Arisen t := by
  apply SharedStore.Arisen.overwritten h
  have hnodup : t.names.Nodup := names_overwrite hoverwrite ▸ h.nodup_names
  exact hnodup

/-- The tables with one pipeline, after another program wrote its algorithm. -/
def reassigned : TableStore :=
  { TableStore.empty with pipelines := [⟨"uploads", .number 0⟩] }

theorem lookup_predicts_register_reassigned :
    ∃ t, reassigned.register "transfers" (.ofMembers ["uploads"]) .flat =
        .ok (⟨1, "transfers", some .commit⟩, t) ∧
      t.lookup "transfers" .empty = .ok (some ⟨1, "transfers", some .commit⟩) ∧
      t.lookup "uploads" .empty = .ok none := by
  have hfirst : Store.register TableStore.empty "uploads" .empty .flat = .ok (⟨1, "uploads", none⟩,
      { TableStore.empty with pipelines := [⟨"uploads", .number 1⟩] }) := rfl
  have hwritten : overwrite { TableStore.empty with pipelines := [⟨"uploads", .number 1⟩] }
      (.algorithm "uploads" (.number 0)) = .ok (1, reassigned) := rfl
  have harisen : SharedStore.Arisen reassigned :=
    arisen_of_overwrite (.register .empty hfirst) hwritten
  have hreadable : LabelStore.IsReadable reassigned := by
    intro label hlabel
    rw [List.mem_singleton.1 hlabel]
    rfl
  obtain ⟨found, record, t, hfound, hregister, hname, hpredicts, -, hlookup, hadopted, -⟩ :=
    SharedStore.lookup_predicts_register harisen hreadable "transfers" (.ofMembers ["uploads"]) .flat
  have hstored : Store.lookup reassigned "transfers" (.ofMembers ["uploads"]) =
      .ok (some ⟨1, "uploads", some .commit⟩) := rfl
  rw [hfound, Except.ok.injEq] at hstored
  obtain ⟨hrowid, halgorithm⟩ := (hpredicts 1 .commit).1 ⟨"uploads", hstored⟩
  rw [hrowid, halgorithm] at hlookup
  have hrecord : record = ⟨1, "transfers", some .commit⟩ := by rw [← hrowid, ← hname, ← halgorithm]
  rw [hrecord] at hregister
  exact ⟨t, hregister, hlookup, hadopted _ hstored (by decide)⟩

end TableStore

end OperationQueue
