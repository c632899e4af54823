/-
# Which row a pipeline adopts

A pipeline whose name is not stored adopts a row that is stored under one of its previous names.
If several are, the store in memory goes through its rows and takes the oldest, and the store in
tables goes through the names and takes the first. Where both ways lead to one row, the stores
answer alike, and they go on to do so; a call for which they lead to different rows is the first
one to be answered differently.
-/
import OperationQueue.Proofs.Store.Calls
import OperationQueue.Proofs.Store.Labels

namespace OperationQueue

/-- What rows and names disagree about: the name is not stored, and the oldest row with a previous
name is not that of the first previous name. -/
def IsContested (stored : List String) (name : String) (previous : OrderedSet String) : Prop :=
  name ∉ stored ∧ stored.find? previous.contains ≠ previous.toList.find? stored.contains

/-- A pipeline of whose previous names at most one is stored is not contested. -/
theorem not_isContested_of_unique {stored : List String} {name : String}
    {previous : OrderedSet String} (h : ∀ a ∈ stored, ∀ b ∈ stored,
      previous.contains a = true → previous.contains b = true → a = b) :
    ¬ IsContested stored name previous := by
  rintro ⟨-, hne⟩
  cases holdest : stored.find? previous.contains with
  | none =>
      apply hne
      rw [holdest, eq_comm, List.find?_eq_none]
      intro a ha hstored
      exact List.find?_eq_none.1 holdest a (List.contains_iff_mem.1 hstored)
        (OrderedSet.contains_iff_mem.2 ha)
  | some a =>
      have ha := List.mem_of_find?_eq_some holdest
      have hprevious := List.find?_some holdest
      cases hfirst : previous.toList.find? stored.contains with
      | none =>
          have hnot := List.find?_eq_none.1 hfirst a (OrderedSet.contains_iff_mem.1 hprevious)
          exact hnot (List.contains_iff_mem.2 ha)
      | some b =>
          have hb := List.contains_iff_mem.1 (List.find?_some hfirst)
          have hsame := h a ha b hb hprevious
            (OrderedSet.contains_iff_mem.2 (List.mem_of_find?_eq_some hfirst))
          exact hne (by rw [holdest, hfirst, hsame])

/-! ## Records of stored names -/

section Records

variable {ls : List (String × Algorithm)} {name : String} {x y : Option String}

/-- The record of the first row with a name. -/
def record? (ls : List (String × Algorithm)) (name : String) : Option PipelineRecord := do
  let index ← ls.findIdx? (·.1 == name)
  let (stored, algorithm) ← ls[index]?
  return ⟨index + 1, stored, some algorithm⟩

/-- The first row whose name satisfies a condition is that of the first such name. -/
theorem record_findIdx? (ls : List (String × Algorithm)) (p : String → Bool) :
    (do
      let index ← ls.findIdx? fun label => p label.1
      let (stored, algorithm) ← ls[index]?
      return (⟨index + 1, stored, some algorithm⟩ : PipelineRecord)) =
    ((ls.map (·.1)).find? p).bind (record? ls) := by
  have hfind : (ls.map (·.1)).find? p = (ls.find? fun label => p label.1).map (·.1) := by
    rw [List.find?_map]
    rfl
  cases hindex : ls.findIdx? fun label => p label.1 with
  | none =>
      have hnone : ls.find? (fun label => p label.1) = none :=
        List.find?_eq_none.2 fun label hlabel => by
          simp [List.findIdx?_eq_none_iff.1 hindex label hlabel]
      rw [hfind, hnone]
      rfl
  | some index =>
      obtain ⟨hlt, hp, hbefore⟩ := List.findIdx?_eq_some_iff_getElem.1 hindex
      have hsome : ls.find? (fun label => p label.1) = some ls[index] :=
        List.find?_eq_some_iff_getElem.2 ⟨hp, index, hlt, rfl, fun j hj => by simpa using hbefore j hj⟩
      have hown : ls.findIdx? (·.1 == ls[index].1) = some index := by
        refine List.findIdx?_eq_some_iff_getElem.2 ⟨hlt, by simp, fun j hj heq => ?_⟩
        rw [beq_iff_eq] at heq
        exact hbefore j hj (heq ▸ hp)
      rw [hfind, hsome, Option.map_some, Option.bind_some, record?, hown]

theorem of_record?_eq_some {record : PipelineRecord} (h : record? ls name = some record) :
    record.name = name ∧ record.storedAlgorithm.isSome ∧ ∃ index : Nat, record.rowid = index + 1 ∧
      (ls.map (·.1))[index]? = some name := by
  obtain ⟨index, hindex, h⟩ := Option.bind_eq_some_iff.1 h
  obtain ⟨⟨stored, algorithm⟩, hget, h⟩ := Option.bind_eq_some_iff.1 h
  cases h
  obtain ⟨hlt, hname, -⟩ := List.findIdx?_eq_some_iff_getElem.1 hindex
  obtain ⟨_, hat⟩ := List.getElem?_eq_some_iff.1 hget
  rw [hat, beq_iff_eq] at hname
  exact ⟨hname, rfl, index, rfl, by rw [List.getElem?_map, hget, Option.map_some, hname]⟩

theorem exists_record?_eq_some (h : name ∈ ls.map (·.1)) :
    ∃ record, record? ls name = some record := by
  have hsome : (ls.findIdx? (·.1 == name)).isSome := by
    rw [List.findIdx?_isSome, List.any_eq_true]
    obtain ⟨label, hlabel, rfl⟩ := List.mem_map.1 h
    exact ⟨label, hlabel, beq_self_eq_true _⟩
  obtain ⟨index, hindex⟩ := Option.isSome_iff_exists.1 hsome
  have hlt := (List.findIdx?_eq_some_iff_getElem.1 hindex).1
  exact ⟨_, by rw [record?, hindex, Option.bind_eq_bind, Option.bind_some,
    List.getElem?_eq_getElem hlt]; rfl⟩

theorem record?_eq_none (h : name ∉ ls.map (·.1)) : record? ls name = none := by
  rw [Option.eq_none_iff_forall_ne_some]
  intro record hrecord
  obtain ⟨-, -, index, -, hget⟩ := of_record?_eq_some hrecord
  exact h (List.mem_of_getElem? hget)

/-- Different names have different rows. -/
theorem eq_of_rowid_eq {a b : String} {record record' : PipelineRecord}
    (ha : record? ls a = some record) (hb : record? ls b = some record')
    (h : record.rowid = record'.rowid) : a = b := by
  obtain ⟨-, -, i, hi, hget⟩ := of_record?_eq_some ha
  obtain ⟨-, -, j, hj, hget'⟩ := of_record?_eq_some hb
  have hij : i = j := by omega
  subst hij
  exact Option.some.inj (hget.symm.trans hget')

/-- Names that are stored are told apart by their rows. -/
theorem eq_of_bind_record?_eq (hx : ∀ a, x = some a → a ∈ ls.map (·.1))
    (hy : ∀ a, y = some a → a ∈ ls.map (·.1))
    (h : (x.bind (record? ls)).map (·.rowid) = (y.bind (record? ls)).map (·.rowid)) : x = y := by
  cases x with
  | none =>
      cases y with
      | none => rfl
      | some b =>
          obtain ⟨record, hrecord⟩ := exists_record?_eq_some (hy b rfl)
          simp [hrecord] at h
  | some a =>
      obtain ⟨record, hrecord⟩ := exists_record?_eq_some (hx a rfl)
      cases y with
      | none => simp [hrecord] at h
      | some b =>
          obtain ⟨record', hrecord'⟩ := exists_record?_eq_some (hy b rfl)
          rw [Option.bind_some, Option.bind_some, hrecord, hrecord', Option.map_some, Option.map_some,
            Option.some.injEq] at h
          rw [eq_of_rowid_eq hrecord hrecord' h]

end Records

/-! ## What the stores look up -/

section Lookup

variable {m : MemoryStore} {t : TableStore} {name : String} {previous : OrderedSet String}

/-- The pipelines of two stores are the same, row by row. -/
def SamePipelines (m : MemoryStore) (t : TableStore) : Prop :=
  t.labels = m.pipelines.map fun label => (label.1, .number label.2.code)

theorem samePipelines_empty : SamePipelines .empty .empty := rfl

theorem SamePipelines.length_eq (h : SamePipelines m t) :
    (LabelStore.labels t).length = (LabelStore.labels m).length := by
  show t.labels.length = m.pipelines.length
  rw [h, List.length_map]

/-- In memory a pipeline is its own row or the oldest row of a previous name. -/
theorem MemoryStore.lookup_eq (m : MemoryStore) (name : String) (previous : OrderedSet String) :
    m.lookup name previous =
      if name ∈ m.names then record? m.pipelines name
      else (m.names.find? previous.contains).bind (record? m.pipelines) := by
  have hsearch (p : String → Bool) := record_findIdx? m.pipelines p
  by_cases hname : name ∈ m.names
  · obtain ⟨record, hrecord⟩ := exists_record?_eq_some hname
    obtain ⟨index, hindex, -⟩ := Option.bind_eq_some_iff.1 hrecord
    have hposition : m.find? name previous = some index := by
      rw [find?, position?, hindex]
      rfl
    rw [if_pos hname, lookup, hposition, record?, hindex]
  · have hposition : m.position? (· == name) = none := by
      rw [position?, List.findIdx?_eq_none_iff]
      intro label hlabel
      rw [beq_eq_false_iff_ne]
      rintro rfl
      exact hname (List.mem_map_of_mem hlabel)
    rw [if_neg hname, lookup, find?, hposition, Option.none_or]
    exact hsearch previous.contains

/-- In tables a row is found by its name. -/
theorem TableStore.findNamed_eq (h : SamePipelines m t) (name : String) :
    t.findNamed name = .ok ((record? m.pipelines name).bind fun record =>
      record.storedAlgorithm.map fun algorithm => (record.rowid.toNat, algorithm)) := by
  have hrows : t.pipelines = m.pipelines.map fun label => ⟨label.1, .number label.2.code⟩ := by
    have hback : (t.labels.map fun label => (⟨label.1, label.2⟩ : PipelineRow)) = t.pipelines := by
      rw [labels, List.map_map]
      exact List.map_id _
    rw [← hback, h, List.map_map]
    rfl
  rw [findNamed, hrows, List.findIdx?_map, record?]
  have hsame : ((fun row : PipelineRow => row.name == name) ∘ fun label : String × Algorithm =>
      ⟨label.1, .number label.2.code⟩) = fun label => label.1 == name := rfl
  rw [hsame]
  cases hindex : m.pipelines.findIdx? (·.1 == name) with
  | none => rfl
  | some index =>
      have hlt := (List.findIdx?_eq_some_iff_getElem.1 hindex).1
      simp only [List.getElem?_map, List.getElem?_eq_getElem hlt, Option.map_some, Option.getD_some]
      dsimp only [Cell.read, bind, Except.bind]
      rw [Algorithm.ofCode?_code]
      simp [List.getElem?_eq_getElem hlt]

/-- In tables a pipeline is the row of the first of its names that is stored. -/
theorem TableStore.findFirst_eq (h : SamePipelines m t) (candidates : List String) :
    t.findFirst candidates =
      .ok ((candidates.find? m.names.contains).bind (record? m.pipelines)) := by
  induction candidates with
  | nil => rfl
  | cons candidate rest ih =>
      rw [findFirst, findNamed_eq h]
      dsimp only [bind, Except.bind]
      by_cases hstored : candidate ∈ m.names
      · obtain ⟨record, hrecord⟩ := exists_record?_eq_some hstored
        obtain ⟨hname, hsome, index, hindex, -⟩ := of_record?_eq_some hrecord
        obtain ⟨algorithm, halgorithm⟩ := Option.isSome_iff_exists.1 hsome
        have hrowid : ((record.rowid.toNat : Nat) : Int) = record.rowid := by omega
        rw [List.find?_cons_of_pos (List.contains_iff_mem.2 hstored), Option.bind_some, hrecord,
          Option.bind_some, halgorithm, Option.map_some]
        show Except.ok (some (⟨(record.rowid.toNat : Nat), candidate, some algorithm⟩ :
          PipelineRecord)) = _
        rw [hrowid, ← hname, ← halgorithm]
      · have hnot : m.names.contains candidate ≠ true := by
          rwa [ne_eq, List.contains_iff_mem]
        rw [List.find?_cons_of_neg hnot, record?_eq_none hstored]
        exact ih

theorem TableStore.lookup_eq (h : SamePipelines m t) (name : String)
    (previous : OrderedSet String) :
    t.lookup name previous = .ok (if name ∈ m.names then record? m.pipelines name
      else (previous.toList.find? m.names.contains).bind (record? m.pipelines)) := by
  rw [lookup, findFirst_eq h]
  by_cases hname : name ∈ m.names
  · rw [List.find?_cons_of_pos (List.contains_iff_mem.2 hname), if_pos hname, Option.bind_some]
  · have hnot : m.names.contains name ≠ true := by
      rwa [ne_eq, List.contains_iff_mem]
    rw [List.find?_cons_of_neg hnot, if_neg hname]

theorem lookup_eq_of_not_isContested (h : SamePipelines m t)
    (hcalm : ¬ IsContested m.names name previous) :
    Store.lookup m name previous = Store.lookup t name previous := by
  have hmemory : Store.lookup m name previous = .ok (m.lookup name previous) := rfl
  have htables : Store.lookup t name previous = t.lookup name previous := rfl
  rw [hmemory, htables, MemoryStore.lookup_eq, TableStore.lookup_eq h]
  by_cases hname : name ∈ m.names
  · rw [if_pos hname, if_pos hname]
  · have hsame : m.names.find? previous.contains = previous.toList.find? m.names.contains :=
      Classical.byContradiction fun hne => hcalm ⟨hname, hne⟩
    rw [if_neg hname, if_neg hname, hsame]

/-- For a contested pipeline the stores find different rows. -/
theorem exists_lookup_of_isContested (h : SamePipelines m t)
    (hcontested : IsContested m.names name previous) :
    ∃ found found', Store.lookup m name previous = .ok found ∧
      Store.lookup t name previous = .ok found' ∧
      found.map (·.rowid) ≠ found'.map (·.rowid) := by
  obtain ⟨hname, hne⟩ := hcontested
  refine ⟨_, _, congrArg Except.ok (MemoryStore.lookup_eq m name previous),
    TableStore.lookup_eq h name previous, fun hsame => hne ?_⟩
  rw [if_neg hname, if_neg hname] at hsame
  refine eq_of_bind_record?_eq (fun a ha => ?_) (fun a ha => ?_) hsame
  · exact List.mem_of_find?_eq_some ha
  · exact List.contains_iff_mem.1 (List.find?_some ha)

end Lookup

/-! ## Answers of both stores -/

namespace PipelineCall

variable {m : MemoryStore} {t : TableStore} {call : PipelineCall} {calls : List PipelineCall}

/-- A call about a contested pipeline. -/
def IsContested (stored : List String) : PipelineCall → Prop
  | .lookup name previous => OperationQueue.IsContested stored name previous
  | .register name previous _ => OperationQueue.IsContested stored name previous
  | .setAlgorithm _ _ => False

/-- No call is about a pipeline that is contested at that time. -/
def NoneContested : MemoryStore → List PipelineCall → Prop
  | _, [] => True
  | m, call :: rest => ¬ call.IsContested m.names ∧ NoneContested (call.perform m).2 rest

/-- The previous names that a call lists. -/
def previous : PipelineCall → OrderedSet String
  | .lookup _ previous | .register _ previous _ => previous
  | .setAlgorithm _ _ => .empty

/-- Calls that list one previous name at most are not contested, whatever is stored. -/
theorem noneContested_of_size_le_one (h : ∀ call ∈ calls, call.previous.size ≤ 1) :
    NoneContested m calls := by
  induction calls generalizing m with
  | nil => trivial
  | cons call rest ih =>
      refine ⟨?_, ih fun later hlater => h later (List.mem_cons_of_mem _ hlater)⟩
      have hlength : call.previous.toList.length ≤ 1 := by
        rw [OrderedSet.toList, OrderedMap.keys, List.length_map]
        exact h call List.mem_cons_self
      have hunique : ∀ a ∈ m.names, ∀ b ∈ m.names, call.previous.contains a = true →
          call.previous.contains b = true → a = b := by
        intro a _ b _ ha hb
        rw [OrderedSet.contains_iff_mem] at ha hb
        obtain ⟨i, hi, rfl⟩ := List.getElem_of_mem ha
        obtain ⟨j, hj, rfl⟩ := List.getElem_of_mem hb
        have hsame : i = j := by omega
        subst hsame
        rfl
      cases call with
      | lookup name previous => exact not_isContested_of_unique hunique
      | register name previous algorithm => exact not_isContested_of_unique hunique
      | setAlgorithm rowid algorithm => exact id

/-- Labels that are changed in the same way stay the same. -/
theorem samePipelines_modify (h : SamePipelines m t) {f : String × Algorithm → String × Algorithm}
    {g : String × Cell → String × Cell}
    (hfg : ∀ label, g (label.1, .number label.2.code) = ((f label).1, .number (f label).2.code))
    (index : Nat) :
    SamePipelines (LabelStore.relabel m (m.pipelines.modify index f))
      (t.relabel (t.labels.modify index g)) := by
  have hlabels : (t.relabel (t.labels.modify index g)).labels = t.labels.modify index g :=
    LabelStore.labels_relabel t _
  rw [SamePipelines, hlabels, h]
  exact (map_modify_comm (fun label => (hfg label).symm) m.pipelines index).symm

theorem perform_register_congr (h : SamePipelines m t) {name : String}
    {previous : OrderedSet String} (algorithm : Algorithm)
    (hlookup : Store.lookup m name previous = Store.lookup t name previous) :
    (perform m (.register name previous algorithm)).1 =
        (perform t (.register name previous algorithm)).1 ∧
      SamePipelines (perform m (.register name previous algorithm)).2
        (perform t (.register name previous algorithm)).2 := by
  rw [perform, perform]
  cases hfound : Store.lookup m name previous with
  | error e => cases hfound
  | ok found =>
      cases found with
      | none =>
          rw [LabelStore.register_of_lookup_eq_none hfound,
            LabelStore.register_of_lookup_eq_none (hlookup ▸ hfound), h.length_eq]
          refine ⟨rfl, ?_⟩
          have hlabels : (t.relabel (t.labels ++ [(name, .number algorithm.code)])).labels =
              t.labels ++ [(name, .number algorithm.code)] := LabelStore.labels_relabel t _
          show (t.relabel (t.labels ++ [(name, .number algorithm.code)])).labels =
            (m.pipelines ++ [(name, algorithm)]).map _
          rw [hlabels, h, List.map_append]
          rfl
      | some found =>
          rw [LabelStore.register_of_lookup_eq_some hfound,
            LabelStore.register_of_lookup_eq_some (hlookup ▸ hfound)]
          exact ⟨rfl, samePipelines_modify h (fun _ => rfl) _⟩

theorem perform_setAlgorithm_congr (h : SamePipelines m t) (rowid : Int) (algorithm : Algorithm) :
    (perform m (.setAlgorithm rowid algorithm)).1 = (perform t (.setAlgorithm rowid algorithm)).1 ∧
      SamePipelines (perform m (.setAlgorithm rowid algorithm)).2
        (perform t (.setAlgorithm rowid algorithm)).2 := by
  rw [perform, perform, LabelStore.setAlgorithm_eq, LabelStore.setAlgorithm_eq, h.length_eq]
  by_cases hrange : 1 ≤ rowid ∧ rowid ≤ (LabelStore.labels m).length
  · rw [if_pos hrange, if_pos hrange]
    exact ⟨rfl, samePipelines_modify h (fun _ => rfl) _⟩
  · rw [if_neg hrange, if_neg hrange]
    exact ⟨rfl, h⟩

/-- A call that is not contested is answered alike and leaves the same pipelines. -/
theorem perform_eq_of_not_isContested (h : SamePipelines m t) (hcalm : ¬ call.IsContested m.names) :
    (call.perform m).1 = (call.perform t).1 ∧ SamePipelines (call.perform m).2 (call.perform t).2 := by
  cases call with
  | lookup name previous => exact ⟨lookup_eq_of_not_isContested h hcalm, h⟩
  | register name previous algorithm =>
      exact perform_register_congr h algorithm (lookup_eq_of_not_isContested h hcalm)
  | setAlgorithm rowid algorithm => exact perform_setAlgorithm_congr h rowid algorithm

/-- A contested call is answered differently. -/
theorem perform_ne_of_isContested (h : SamePipelines m t) (hcontested : call.IsContested m.names) :
    (call.perform m).1 ≠ (call.perform t).1 := by
  cases call with
  | lookup name previous =>
      obtain ⟨found, found', hmemory, htables, hne⟩ := exists_lookup_of_isContested h hcontested
      rw [perform, perform, hmemory, htables]
      intro heq
      cases heq
      exact hne rfl
  | register name previous algorithm =>
      obtain ⟨found, found', hmemory, htables, hne⟩ := exists_lookup_of_isContested h hcontested
      intro heq
      rw [perform, perform] at heq
      cases found with
      | none =>
          cases found' with
          | none => exact hne rfl
          | some found' =>
              obtain ⟨-, -, -, -, -, hstored, -⟩ := LabelStore.of_lookup_eq_some htables
              rw [LabelStore.register_of_lookup_eq_none hmemory,
                LabelStore.register_of_lookup_eq_some htables] at heq
              have hnone : none = found'.storedAlgorithm :=
                congrArg PipelineRecord.storedAlgorithm (Option.some.inj (Except.ok.inj heq))
              rw [← hnone] at hstored
              cases hstored
      | some found =>
          rw [LabelStore.register_of_lookup_eq_some hmemory] at heq
          cases found' with
          | none =>
              obtain ⟨-, -, -, -, -, hstored, -⟩ := LabelStore.of_lookup_eq_some hmemory
              rw [LabelStore.register_of_lookup_eq_none htables] at heq
              have hnone : found.storedAlgorithm = none :=
                congrArg PipelineRecord.storedAlgorithm (Option.some.inj (Except.ok.inj heq))
              rw [hnone] at hstored
              cases hstored
          | some found' =>
              rw [LabelStore.register_of_lookup_eq_some htables] at heq
              have hrecord : ({ found with name := name } : PipelineRecord) =
                  { found' with name := name } := Option.some.inj (Except.ok.inj heq)
              exact hne (congrArg some (PipelineRecord.mk.inj hrecord).1)
  | setAlgorithm rowid algorithm => exact hcontested.elim

theorem answers_eq_iff_of_samePipelines (h : SamePipelines m t) :
    answers perform m calls = answers perform t calls ↔ NoneContested m calls := by
  induction calls generalizing m t with
  | nil => exact iff_of_true rfl trivial
  | cons call rest ih =>
      rw [answers, answers, List.cons_eq_cons, NoneContested]
      by_cases hcontested : call.IsContested m.names
      · have hne := perform_ne_of_isContested h hcontested
        exact iff_of_false (fun heq => hne heq.1) fun hnone => hnone.1 hcontested
      · obtain ⟨hanswer, hnext⟩ := perform_eq_of_not_isContested h hcontested
        rw [ih hnext]
        exact and_congr (iff_of_true hanswer hcontested) Iff.rfl

/-- Two stores that are empty at first give the same records and the same failures to all calls
about pipelines, exactly if no call is about a pipeline that is contested when it comes. -/
theorem answers_eq_iff (calls : List PipelineCall) :
    answers perform MemoryStore.empty calls = answers perform TableStore.empty calls ↔
      NoneContested .empty calls :=
  answers_eq_iff_of_samePipelines samePipelines_empty

/-- Of two stored pipelines that a third one replaces, the older has the name that comes second. -/
def replacement : List PipelineCall :=
  [.register "b" .empty .commit, .register "a" .empty .flat,
    .register "c" (.ofMembers ["a", "b"]) .commit]

/-- In memory the third pipeline adopts row one, and in tables row two. -/
theorem answers_replacement :
    answers perform MemoryStore.empty replacement =
        [.ok (some ⟨1, "b", none⟩), .ok (some ⟨2, "a", none⟩), .ok (some ⟨1, "c", some .commit⟩)] ∧
      answers perform TableStore.empty replacement =
        [.ok (some ⟨1, "b", none⟩), .ok (some ⟨2, "a", none⟩), .ok (some ⟨2, "c", some .flat⟩)] ∧
      answers perform MemoryStore.empty replacement ≠
        answers perform TableStore.empty replacement := by
  decide +kernel

end PipelineCall

end OperationQueue
