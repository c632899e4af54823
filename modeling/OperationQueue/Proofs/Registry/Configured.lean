/-
# Registering a configuration

A configuration is checked as a whole, and its pipelines are registered one after the other, each
compared with those before it. The two checks agree: no pipeline of a checked configuration is
refused because of a name. Registering a pipeline may rename a row, and what it renames or creates
has a name of that pipeline before and after. No other pipeline of the configuration looks for
such a name. So each finds the rows as they were in the beginning, and adopts what it would have
adopted alone.
-/
import OperationQueue.Proofs.Config
import OperationQueue.Proofs.Registry.Isolation
import OperationQueue.Proofs.Registry.Names

namespace OperationQueue

open EntryStore LabelStore LookupStore

variable {σ : Type} [Store σ] [RowStore σ] [EntryStore σ]

/-! ## Rows and names -/

namespace EntryStore

/-- The row that a pipeline adopts: the one of its own name; if that is not stored, one of a
previous name; and if none of these is stored, a new one. -/
inductive Adopts (s : σ) (name : String) (previous : List String) (rowid : Int) : Prop
  | own (row : HasName s rowid name)
  | previous (absent : name ∉ names s) (old : String) (mem : old ∈ previous)
      (row : HasName s rowid old)
  | new (absent : ∀ known ∈ name :: previous, known ∉ names s) (beyond : (names s).length < rowid)

/-- The rows with some names are the same, and no row is lost. -/
structure KeepsRowsOf (known : List String) (s t : σ) : Prop where
  hasName : ∀ name ∈ known, ∀ rowid, HasName t rowid name ↔ HasName s rowid name
  length : (names s).length ≤ (names t).length

variable {s t u : σ} {name : String} {known previous : List String} {rowid : Int}

theorem mem_names_iff : name ∈ names s ↔ ∃ rowid, HasName s rowid name := by
  constructor
  · intro hname
    obtain ⟨index, hget⟩ := List.mem_iff_getElem?.1 hname
    exact ⟨index + 1, index, rfl, hget⟩
  · rintro ⟨rowid, index, -, hget⟩
    exact List.mem_of_getElem? hget

theorem KeepsRowsOf.refl (known : List String) (s : σ) : KeepsRowsOf known s s :=
  ⟨fun _ _ _ => .rfl, Nat.le_refl _⟩

theorem KeepsRowsOf.trans (hst : KeepsRowsOf known s t) (htu : KeepsRowsOf known t u) :
    KeepsRowsOf known s u where
  hasName name hname rowid := (htu.hasName name hname rowid).trans (hst.hasName name hname rowid)
  length := Nat.le_trans hst.length htu.length

theorem KeepsRowsOf.mem_names_iff (h : KeepsRowsOf known s t) (hname : name ∈ known) :
    name ∈ names t ↔ name ∈ names s := by
  rw [EntryStore.mem_names_iff, EntryStore.mem_names_iff]
  exact exists_congr fun rowid => h.hasName name hname rowid

/-- What a pipeline adopts depends on the rows with its names alone. -/
theorem Adopts.of_keepsRowsOf (h : KeepsRowsOf (name :: previous) s t)
    (hadopts : Adopts t name previous rowid) : Adopts s name previous rowid := by
  have hname : name ∈ names t ↔ name ∈ names s := h.mem_names_iff List.mem_cons_self
  cases hadopts with
  | own row => exact .own ((h.hasName name List.mem_cons_self rowid).1 row)
  | previous absent old mem row =>
      exact .previous (mt hname.2 absent) old mem
        ((h.hasName old (List.mem_cons_of_mem _ mem) rowid).1 row)
  | new absent beyond =>
      refine .new (fun known hknown hstored => ?_) (by have := h.length; omega)
      exact absent known hknown ((h.mem_names_iff hknown).2 hstored)

theorem Adopts.congr {other : List String} (h : ∀ old, old ∈ previous ↔ old ∈ other)
    (hadopts : Adopts s name previous rowid) : Adopts s name other rowid := by
  cases hadopts with
  | own row => exact .own row
  | previous absent old mem row => exact .previous absent old ((h old).1 mem) row
  | new absent beyond =>
      obtain ⟨hname, hprevious⟩ := List.forall_mem_cons.1 absent
      refine .new (List.forall_mem_cons.2 ⟨hname, fun old hold => ?_⟩) beyond
      exact hprevious old ((h old).2 hold)

theorem KeepsRowsOf.of_getElem? (hlength : (names s).length ≤ (names t).length)
    (hget : ∀ name ∈ known, ∀ i : Nat, (names t)[i]? = some name ↔ (names s)[i]? = some name) :
    KeepsRowsOf known s t where
  hasName name hname _ := exists_congr fun i => and_congr_right fun _ => hget name hname i
  length := hlength

/-- Registering renames a row of its names or adds one, so the rows of other names stay. -/
theorem keepsRowsOf_register {previous : OrderedSet String} {algorithm : Algorithm}
    {record : PipelineRecord} (h : Store.register s name previous algorithm = .ok (record, t))
    (hapart : ∀ other ∈ known, other ∉ name :: previous.toList) : KeepsRowsOf known s t := by
  rcases names_register h with ⟨-, hnames⟩ | ⟨index, -, hnames, old, hold, hclaimed⟩
  · apply KeepsRowsOf.of_getElem? (by simp [hnames])
    intro other hother i
    have hne : name ≠ other := fun heq => hapart other hother (heq ▸ List.mem_cons_self)
    rw [hnames]
    by_cases hi : i < (names s).length
    · rw [List.getElem?_append_left hi]
    · rw [List.getElem?_append_right (Nat.not_lt.1 hi), List.getElem?_eq_none (Nat.not_lt.1 hi)]
      cases i - (names s).length with
      | zero => simp [hne]
      | succ later => simp
  · apply KeepsRowsOf.of_getElem? (by simp [hnames])
    intro other hother i
    have hne : name ≠ other := fun heq => hapart other hother (heq ▸ List.mem_cons_self)
    have hold' : old ≠ other := by
      rintro rfl
      apply hapart old hother
      rcases hclaimed with rfl | hprevious
      · exact List.mem_cons_self
      · exact List.mem_cons_of_mem _ (OrderedSet.contains_iff_mem.1 hprevious)
    rw [hnames]
    by_cases hi : index = i
    · subst hi
      have hlt : index < (names s).length := (List.getElem?_eq_some_iff.1 hold).1
      simp only [List.getElem?_set_self hlt, hold, Option.some.injEq, hne, hold']
    · rw [List.getElem?_set_ne hi]

variable [LabelStore σ] [LookupStore σ]

/-- A pipeline that is registered adopts a row. -/
theorem adopts_register {previous : OrderedSet String} {algorithm : Algorithm}
    {record : PipelineRecord} (h : Store.register s name previous algorithm = .ok (record, t)) :
    Adopts s name previous.toList record.rowid := by
  cases hlookup : Store.lookup s name previous with
  | error e =>
      rw [register_eq, hlookup] at h
      cases h
  | ok found =>
      cases found with
      | none =>
          have hlength : (names s).length = (labels s).length := by
            rw [names_eq, List.length_map]
          rw [register_of_lookup_eq_none hlookup] at h
          cases h
          refine .new (List.forall_mem_cons.2 ⟨of_lookup_eq_none hlookup, fun old hold => ?_⟩) ?_
          · exact notMem_of_lookup_eq_none hlookup old (OrderedSet.contains_iff_mem.2 hold)
          · rw [hlength]
            exact Int.lt_succ _
      | some found =>
          obtain ⟨index, code, hindex, hget, -, -, hname⟩ := of_lookup_eq_some hlookup
          have hrow : HasName s found.rowid found.name :=
            ⟨index, hindex, by rw [names_eq, List.getElem?_map, hget]; rfl⟩
          rw [register_of_lookup_eq_some hlookup] at h
          cases h
          rcases hname with rfl | ⟨habsent, hprevious⟩
          · exact .own hrow
          · exact .previous habsent found.name (OrderedSet.contains_iff_mem.1 hprevious) hrow

end EntryStore

/-! ## Candidates that have no name in common -/

namespace Registry

variable {r : Registry σ} {s : σ} {c d : Candidate} {cs : List Candidate} {e : Error}

omit [RowStore σ] [EntryStore σ] in
theorem registerAll_cons_of_ok (h : (r.register c).1 = .ok ()) :
    r.registerAll (c :: cs) = (r.register c).2.registerAll cs := by
  rw [registerAll]
  split
  · next heq => rw [heq]
  · next heq =>
    rw [heq] at h
    cases h

omit [RowStore σ] [EntryStore σ] in
theorem registerAll_cons_of_error (h : (r.register c).1 = .error e) :
    r.registerAll (c :: cs) = (.error e, (r.register c).2) := by
  rw [registerAll]
  split
  · next heq =>
    rw [heq] at h
    cases h
  · next heq =>
    rw [heq] at h ⊢
    cases h
    rfl

theorem HasNamedRows.registerAll (h : r.HasNamedRows) (cs : List Candidate) :
    (r.registerAll cs).2.HasNamedRows := by
  induction cs generalizing r with
  | nil => exact h
  | cons c rest ih =>
      cases hregister : (r.register c).1 with
      | ok _ =>
          rw [registerAll_cons_of_ok hregister]
          exact ih (h.register c)
      | error e =>
          rw [registerAll_cons_of_error hregister]
          exact h.register c

omit [RowStore σ] [EntryStore σ] in
/-- A candidate is free to enter after one that has other names. -/
theorem isTaken_register_of_apart (hfree : r.isTaken d = false)
    (hapart : ∀ known ∈ d.knownAs, known ∉ c.knownAs) (hok : (r.register c).1 = .ok ()) :
    (r.register c).2.isTaken d = false := by
  obtain ⟨hown, hprevious⟩ := of_isTaken_eq_false hfree
  rw [← Bool.not_eq_true, isTaken_iff, not_or]
  constructor
  · rintro ⟨name, hname⟩
    rw [standsFor_register_iff hok] at hname
    split at hname
    · exact hapart d.name List.mem_cons_self hname
    · exact hown name hname
  · rintro ⟨name, hname, hold⟩
    have hknown : name ∈ d.knownAs := List.mem_cons_of_mem _ (OrderedSet.contains_iff_mem.1 hold)
    rcases (mem_names_register_iff hok).1 hname with rfl | hname
    · exact hapart c.name hknown List.mem_cons_self
    · exact hprevious name hname hknown

variable [LabelStore σ] [LookupStore σ]

/-- No candidate is refused for a name if those who come with it have other names. -/
theorem isNameClash_registerAll
    (hapart : cs.Pairwise fun c d => ∀ known ∈ c.knownAs, known ∉ d.knownAs)
    (hfree : ∀ c ∈ cs, r.isTaken c = false) (h : (r.registerAll cs).1 = .error e) :
    e.isNameClash = false := by
  induction cs generalizing r with
  | nil => cases h
  | cons c rest ih =>
      obtain ⟨hothers, hrest⟩ := List.pairwise_cons.1 hapart
      obtain ⟨hown, hlater⟩ := List.forall_mem_cons.1 hfree
      cases hregister : (r.register c).1 with
      | ok _ =>
          rw [registerAll_cons_of_ok hregister] at h
          refine ih hrest (fun d hd => ?_) h
          exact isTaken_register_of_apart (hlater d hd)
            (fun known hknown hshared => hothers d hd known hshared hknown) hregister
      | error other =>
          rw [registerAll_cons_of_error hregister] at h
          cases h
          by_contra hclash
          rw [Bool.not_eq_false] at hclash
          rw [isTaken_of_register_eq_error hregister hclash] at hown
          cases hown

/-- A member adopts a row of the store before it, and rows with other names stay. -/
theorem adopts_of_register_eq_ok (h : (r.register c).1 = .ok ()) :
    (∃ m, (r.register c).2.members = r.members.insert c.name m ∧
      Adopts r.store c.name c.previousNames.toList m.rowid) ∧
        ∀ known, (∀ other ∈ known, other ∉ c.knownAs) →
          KeepsRowsOf known r.store (r.register c).2.store := by
  rcases register_cases r c with ⟨e, heq⟩ | ⟨record, t, henters, hregister⟩
  · rw [heq] at h
    cases h
  · rcases hregister with ⟨e, heq⟩ | ⟨m, u, hrestored, hmigrated, heq⟩
    · rw [heq] at h
      cases h
    · rw [heq]
      refine ⟨⟨m, rfl, ?_⟩, fun known hapart => ?_⟩
      · rw [(of_restored_eq_ok hrestored).1]
        exact adopts_register henters.registered
      · have hkept := keepsRowsOf_register henters.registered hapart
        have hnames : EntryStore.names u = EntryStore.names t := names_of_migrated hmigrated
        exact hkept.trans (.of_getElem? (hnames ▸ Nat.le_refl _) fun _ _ _ => by rw [hnames])

omit [RowStore σ] [EntryStore σ] [LabelStore σ] [LookupStore σ] in
theorem get?_registerAll_of_ne {name : String} (h : (r.registerAll cs).1 = .ok ())
    (hne : ∀ c ∈ cs, name ≠ c.name) :
    (r.registerAll cs).2.members.get? name = r.members.get? name := by
  induction cs generalizing r with
  | nil => rfl
  | cons c rest ih =>
      obtain ⟨hname, hrest⟩ := List.forall_mem_cons.1 hne
      cases hregister : (r.register c).1 with
      | ok _ =>
          obtain ⟨-, m, hmembers, -⟩ := exists_of_register_eq_ok hregister
          rw [registerAll_cons_of_ok hregister] at h ⊢
          rw [ih h hrest, hmembers, OrderedMap.get?_insert_of_ne _ hname]
      | error other =>
          rw [registerAll_cons_of_error hregister] at h
          cases h

/-- Candidates without a name in common adopt what each would adopt alone. -/
theorem adopts_registerAll
    (hapart : cs.Pairwise fun c d => ∀ known ∈ c.knownAs, known ∉ d.knownAs)
    (hkept : ∀ c ∈ cs, KeepsRowsOf c.knownAs s r.store) (h : (r.registerAll cs).1 = .ok ()) :
    ∀ c ∈ cs, ∃ m, (r.registerAll cs).2.members.get? c.name = some m ∧
      Adopts s c.name c.previousNames.toList m.rowid := by
  induction cs generalizing r with
  | nil => exact List.forall_mem_nil _
  | cons c rest ih =>
      obtain ⟨hothers, hrest⟩ := List.pairwise_cons.1 hapart
      obtain ⟨hown, hlater⟩ := List.forall_mem_cons.1 hkept
      cases hregister : (r.register c).1 with
      | error other =>
          rw [registerAll_cons_of_error hregister] at h
          cases h
      | ok _ =>
          obtain ⟨⟨m, hmembers, hadopts⟩, hkeeps⟩ := adopts_of_register_eq_ok hregister
          rw [registerAll_cons_of_ok hregister] at h ⊢
          refine List.forall_mem_cons.2 ⟨⟨m, ?_, hadopts.of_keepsRowsOf hown⟩, ?_⟩
          · have hname : ∀ d ∈ rest, c.name ≠ d.name := fun d hd heq =>
              hothers d hd c.name List.mem_cons_self (heq ▸ List.mem_cons_self)
            rw [get?_registerAll_of_ne h hname, hmembers, OrderedMap.get?_insert_self]
          · refine ih hrest (fun d hd => (hlater d hd).trans ?_) h
            exact hkeeps _ fun known hknown hshared => hothers d hd known hshared hknown

/-! ## The pipelines of a configuration -/

/-- The candidates of a checked configuration have no name in common. -/
theorem pairwise_candidates {cfg : Config} (h : cfg.check = .ok ()) (executor : Executor) :
    (cfg.pipelines.entries.map fun (name, options) => candidate cfg executor name options).Pairwise
      fun c d => ∀ known ∈ c.knownAs, known ∉ d.knownAs := by
  have hknown (name : String) (options : PipelineSection) (known : String) :
      known ∈ (candidate cfg executor name options).knownAs ↔
        known ∈ Config.knownAs (name, options) := by
    rw [Candidate.knownAs, Config.knownAs, List.mem_cons, List.mem_cons]
    exact or_congr_right OrderedSet.mem_ofMembers
  rw [List.pairwise_map]
  apply (Config.pairwise_knownAs h).imp
  rintro ⟨a, first⟩ ⟨b, second⟩ hapart known hfirst hsecond
  exact hapart known ((hknown a first known).1 hfirst) ((hknown b second known).1 hsecond)

/-- A checked configuration is registered without a clash of names, whatever the store holds. If
all its pipelines are registered, each adopts the row that the store had in the beginning for it,
and no two the same. -/
theorem registerConfigured_adopts {cfg : Config} (h : cfg.check = .ok ()) (s : σ)
    (executor : Executor) :
    (∀ e, ((new s).registerConfigured cfg executor).1 = .error e → e.isNameClash = false) ∧
      (((new s).registerConfigured cfg executor).1 = .ok () →
        (∀ name options, cfg.pipelines.get? name = some options → ∃ m,
          ((new s).registerConfigured cfg executor).2.members.get? name = some m ∧
            Adopts s name options.previousNames m.rowid) ∧
        ∀ a b m n, ((new s).registerConfigured cfg executor).2.members.get? a = some m →
          ((new s).registerConfigured cfg executor).2.members.get? b = some n →
          m.rowid = n.rowid → a = b) := by
  have hcandidates := pairwise_candidates h executor
  refine ⟨fun e he => isNameClash_registerAll hcandidates (fun _ _ => rfl) he, fun hok => ⟨?_, ?_⟩⟩
  · intro name options hget
    have hmem : candidate cfg executor name options ∈ cfg.pipelines.entries.map
        fun (name, options) => candidate cfg executor name options :=
      List.mem_map.2 ⟨(name, options), OrderedMap.get?_eq_some_iff.1 hget, rfl⟩
    obtain ⟨m, hm, hadopts⟩ := adopts_registerAll (s := s) hcandidates
      (fun c _ => KeepsRowsOf.refl c.knownAs s) hok _ hmem
    exact ⟨m, hm, hadopts.congr fun _ => OrderedSet.mem_ofMembers⟩
  · intro a b m n hm hn hrowid
    have hnone : (new s).HasNamedRows := fun _ _ hm => nomatch hm
    have hrows := hnone.registerAll
      (cfg.pipelines.entries.map fun (name, options) => candidate cfg executor name options)
    exact (hrows a m hm).unique (hrowid ▸ hrows b n hn)

/-- Two pipelines that were called differently before, and a third one. -/
def movedConfig : Config where
  maxHoldWait := 1000
  defaultLimit := none
  pipelines := .ofList [("inbox", ⟨.commit, none, ["mail"], false⟩),
    ("outbox", ⟨.flat, none, ["queue", "uploads"], true⟩), ("spool", ⟨.flat, none, [], false⟩)]

/-- The tables from before, in which one of the pipelines has its name already. -/
def movedTables : TableStore :=
  { TableStore.empty with
    pipelines := ["uploads", "mail", "inbox"].map fun name =>
      ⟨name, .number Algorithm.commit.code⟩ }

/-- All three are registered: the first has its own row, the second that of a previous name, and
the third a new one. -/
theorem registerConfigured_adopts_moved :
    ((new movedTables).registerConfigured movedConfig .recorder).1 = .ok () ∧
      (((new movedTables).registerConfigured movedConfig .recorder).2.members.map
        fun _ m => m.rowid).entries = [("inbox", 3), ("outbox", 1), ("spool", 4)] ∧
      ∃ m, ((new movedTables).registerConfigured movedConfig .recorder).2.members.get? "outbox" =
        some m ∧ Adopts movedTables "outbox" ["queue", "uploads"] m.rowid := by
  have hcheck : movedConfig.check = .ok () := by decide +kernel
  have hok : ((new movedTables).registerConfigured movedConfig .recorder).1 = .ok () := by
    decide +kernel
  refine ⟨hok, by decide +kernel, ?_⟩
  obtain ⟨-, hadopts⟩ := registerConfigured_adopts hcheck movedTables .recorder
  exact (hadopts hok).1 "outbox" ⟨.flat, none, ["queue", "uploads"], true⟩ (by decide +kernel)

end Registry

end OperationQueue
