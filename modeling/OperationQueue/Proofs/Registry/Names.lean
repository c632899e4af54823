/-
# Names of registered pipelines

A registered pipeline is known by its name and by its previous names, and a candidate is compared
with every member before it enters: its name must stand for no member, and its previous names must
not be names of members. So the name of a member never stands for another one, whatever is
registered in which order. Previous names are not compared with each other. Two pipelines may
share one, and which of them adopts what is stored under it is up to the order of registration;
but this is the only way in which a name comes to stand for two pipelines.
-/
import OperationQueue.Proofs.Registry.Registering
import OperationQueue.Proofs.Store.Lookup

namespace OperationQueue

/-- The names of a candidate, its previous ones included. -/
def Candidate.knownAs (c : Candidate) : List String := c.name :: c.previousNames.toList

namespace Registry

variable {σ : Type}

/-- A registered pipeline had another name before. -/
def WasCalled (r : Registry σ) (old name : String) : Prop :=
  ∃ m, r.members.get? name = some m ∧ m.previousNames.contains old = true

/-- A name stands for a registered pipeline: it is its name or a previous one. -/
def StandsFor (r : Registry σ) (known name : String) : Prop :=
  known = name ∧ name ∈ r.names ∨ r.WasCalled known name

/-- No name stands for two pipelines. -/
def IsUnambiguous (r : Registry σ) : Prop :=
  ∀ ⦃known a b⦄, r.StandsFor known a → r.StandsFor known b → a = b

/-- The name of a registered pipeline stands for no other one. -/
def HasOwnNames (r : Registry σ) : Prop :=
  ∀ ⦃a b⦄, a ∈ r.names → r.StandsFor a b → a = b

/-- Two registered pipelines have a previous name in common. -/
def SharesPreviousName (r : Registry σ) : Prop :=
  ∃ old a b, a ≠ b ∧ r.WasCalled old a ∧ r.WasCalled old b

variable {r : Registry σ} {c : Candidate} {known name old : String}

theorem WasCalled.mem_names (h : r.WasCalled old name) : name ∈ r.names := by
  obtain ⟨m, hm, -⟩ := h
  exact OrderedMap.mem_keys_iff.2 ⟨m, hm⟩

theorem isTaken_iff : r.isTaken c = true ↔
    (∃ name, r.StandsFor c.name name) ∨ ∃ name ∈ r.names, c.previousNames.contains name = true := by
  rw [isTaken, List.any_eq_true]
  constructor
  · rintro ⟨⟨name, m⟩, he, hconflicts⟩
    have hname : name ∈ r.names := List.mem_map_of_mem he
    simp only [conflicts, Bool.or_eq_true, beq_iff_eq] at hconflicts
    rcases hconflicts with (heq | hprevious) | hcalled
    · exact .inl ⟨name, .inl ⟨heq.symm, hname⟩⟩
    · exact .inr ⟨name, hname, hprevious⟩
    · exact .inl ⟨name, .inr ⟨m, OrderedMap.get?_eq_some_iff.2 he, hcalled⟩⟩
  · rintro (⟨name, ⟨heq, hname⟩ | ⟨m, hm, hcalled⟩⟩ | ⟨name, hname, hprevious⟩)
    · obtain ⟨m, hm⟩ := OrderedMap.mem_keys_iff.1 hname
      exact ⟨(name, m), OrderedMap.get?_eq_some_iff.1 hm, by simp [conflicts, heq]⟩
    · exact ⟨(name, m), OrderedMap.get?_eq_some_iff.1 hm, by simp [conflicts, hcalled]⟩
    · obtain ⟨m, hm⟩ := OrderedMap.mem_keys_iff.1 hname
      exact ⟨(name, m), OrderedMap.get?_eq_some_iff.1 hm, by simp [conflicts, hprevious]⟩

/-- The name of a candidate that is free stands for no member, and no name of a member for it. -/
theorem of_isTaken_eq_false (h : r.isTaken c = false) :
    (∀ name, ¬ r.StandsFor c.name name) ∧ ∀ name ∈ r.names, name ∉ c.knownAs := by
  rw [← Bool.not_eq_true, isTaken_iff, not_or, not_exists] at h
  refine ⟨h.1, fun name hname hknown => ?_⟩
  rcases List.mem_cons.1 hknown with heq | hprevious
  · exact h.1 name (.inl ⟨heq.symm, hname⟩)
  · exact h.2 ⟨name, hname, OrderedSet.contains_iff_mem.2 hprevious⟩

/-- Where names of members are their own, only shared previous names are ambiguous. -/
theorem HasOwnNames.isUnambiguous_iff (h : r.HasOwnNames) :
    r.IsUnambiguous ↔ ¬ r.SharesPreviousName := by
  constructor
  · rintro hclear ⟨old, a, b, hne, ha, hb⟩
    exact hne (hclear (.inr ha) (.inr hb))
  · intro hapart known a b ha hb
    rcases ha with ⟨rfl, hname⟩ | hcalled
    · exact h hname hb
    · rcases hb with ⟨rfl, hname⟩ | hcalled'
      · exact (h hname (.inr hcalled)).symm
      · by_contra hne
        exact hapart ⟨known, a, b, hne, hcalled, hcalled'⟩

theorem hasOwnNames_new (s : σ) : (new s).HasOwnNames := by
  intro a b ha
  cases ha

theorem of_checkAlgorithm_eq_error {pipeline : String} {stored : Option Algorithm}
    {algorithm : Algorithm} {migrate : Bool} {e : Error}
    (h : Pipeline.checkAlgorithm pipeline stored algorithm migrate = .error e) :
    e.isNameClash = false := by
  cases stored with
  | none => cases h
  | some previous =>
      rw [Pipeline.checkAlgorithm] at h
      split at h
      · cases h
        rfl
      · cases h

variable [Store σ]

/-- Register candidates one after the other; one that is refused is passed over. -/
def registerEach (r : Registry σ) (cs : List Candidate) : Registry σ :=
  cs.foldl (fun r c => (r.register c).2) r

/-! ## What a registration does to names -/

theorem members_of_register_eq_error {e : Error} (h : (r.register c).1 = .error e) :
    (r.register c).2.members = r.members := by
  rcases register_cases r c with ⟨_, heq⟩ | ⟨record, store, -, hregister⟩
  · rw [heq]
  · rcases hregister with ⟨_, heq⟩ | ⟨m, store', -, -, heq⟩
    · rw [heq]
    · rw [heq] at h
      cases h

theorem exists_of_register_eq_ok (h : (r.register c).1 = .ok ()) :
    r.isTaken c = false ∧ ∃ m, (r.register c).2.members = r.members.insert c.name m ∧
      m.previousNames = c.previousNames := by
  rcases register_cases r c with ⟨e, heq⟩ | ⟨record, store, henters, hregister⟩
  · rw [heq] at h
    cases h
  · refine ⟨henters.free, ?_⟩
    rcases hregister with ⟨e, heq⟩ | ⟨m, store', hrestored, -, heq⟩
    · rw [heq] at h
      cases h
    · rw [heq]
      exact ⟨m, rfl, (of_restored_eq_ok hrestored).2.1⟩

theorem mem_names_register_iff (h : (r.register c).1 = .ok ()) :
    name ∈ (r.register c).2.names ↔ name = c.name ∨ name ∈ r.names := by
  obtain ⟨-, m, hmembers, -⟩ := exists_of_register_eq_ok h
  rw [names, hmembers]
  exact OrderedMap.mem_keys_insert

theorem wasCalled_register_iff (h : (r.register c).1 = .ok ()) :
    (r.register c).2.WasCalled old name ↔
      if name = c.name then c.previousNames.contains old = true else r.WasCalled old name := by
  obtain ⟨-, m, hmembers, hprevious⟩ := exists_of_register_eq_ok h
  rw [WasCalled, hmembers]
  by_cases hname : name = c.name
  · simp [hname, hprevious]
  · simp [hname, OrderedMap.get?_insert_of_ne, WasCalled]

/-- A candidate that enters brings its names, and all others stand for whom they did. -/
theorem standsFor_register_iff (h : (r.register c).1 = .ok ()) :
    (r.register c).2.StandsFor known name ↔
      if name = c.name then known ∈ c.knownAs else r.StandsFor known name := by
  rw [StandsFor, mem_names_register_iff h, wasCalled_register_iff h]
  by_cases hname : name = c.name
  · simp [hname, Candidate.knownAs, OrderedSet.contains_iff_mem]
  · simp [hname, StandsFor]

theorem HasOwnNames.register (h : r.HasOwnNames) (c : Candidate) :
    (r.register c).2.HasOwnNames := by
  cases hregister : (r.register c).1 with
  | error e =>
      have hmembers := members_of_register_eq_error hregister
      rw [HasOwnNames]
      simp only [StandsFor, WasCalled, names, hmembers]
      exact h
  | ok _ =>
      obtain ⟨hname, hprevious⟩ := of_isTaken_eq_false (exists_of_register_eq_ok hregister).1
      intro a b ha hb
      rw [mem_names_register_iff hregister] at ha
      rw [standsFor_register_iff hregister] at hb
      split at hb
      · next heq =>
        exact (ha.resolve_right fun hold => hprevious a hold hb).trans heq.symm
      · rcases ha with rfl | ha
        · exact (hname b hb).elim
        · exact h ha hb

theorem hasOwnNames_registerEach (s : σ) (cs : List Candidate) :
    ((new s).registerEach cs).HasOwnNames :=
  List.foldlRecOn (motive := HasOwnNames) cs _ (hasOwnNames_new s) fun _ h c _ => h.register c

/-- A candidate that enters brings an ambiguity exactly if a member has a previous name of it. -/
theorem isUnambiguous_register_iff (hclear : r.IsUnambiguous) (hok : (r.register c).1 = .ok ()) :
    (r.register c).2.IsUnambiguous ↔
      ∀ old name, c.previousNames.contains old = true → ¬ r.WasCalled old name := by
  obtain ⟨hown, hprevious⟩ := of_isTaken_eq_false (exists_of_register_eq_ok hok).1
  constructor
  · intro hafter old name hold hcalled
    have hname : name ≠ c.name := fun heq =>
      hprevious name hcalled.mem_names (heq ▸ List.mem_cons_self)
    have hmember : (r.register c).2.StandsFor old name := by
      rw [standsFor_register_iff hok, if_neg hname]
      exact .inr hcalled
    have hcandidate : (r.register c).2.StandsFor old c.name := by
      rw [standsFor_register_iff hok, if_pos rfl]
      exact List.mem_cons_of_mem _ (OrderedSet.contains_iff_mem.1 hold)
    exact hname (hafter hmember hcandidate)
  · intro hapart
    -- No name of the candidate stands for a member.
    have hnew {known name : String} (hknown : known ∈ c.knownAs) : ¬ r.StandsFor known name := by
      rcases List.mem_cons.1 hknown with rfl | hold
      · exact hown name
      · rintro (⟨rfl, hname⟩ | hcalled)
        · exact hprevious known hname hknown
        · exact hapart known name (OrderedSet.contains_iff_mem.2 hold) hcalled
    intro known a b ha hb
    rw [standsFor_register_iff hok] at ha hb
    by_cases hafirst : a = c.name
    · by_cases hbfirst : b = c.name
      · rw [hafirst, hbfirst]
      · rw [if_pos hafirst] at ha
        rw [if_neg hbfirst] at hb
        exact (hnew ha hb).elim
    · rw [if_neg hafirst] at ha
      by_cases hbfirst : b = c.name
      · rw [if_pos hbfirst] at hb
        exact (hnew hb ha).elim
      · rw [if_neg hbfirst] at hb
        exact hclear ha hb

/-! ## Who is refused -/

variable [RowStore σ] [EntryStore σ] [LabelStore σ] [LookupStore σ]

open LookupStore

theorem of_checkStored_eq_error {s : σ} {e : Error} (h : checkStored s c = .error e) :
    e.isNameClash = false := by
  rcases of_bind_eq_error h with h | ⟨found, -, h⟩
  · exact of_lookup_eq_error h
  · cases found with
    | none => cases h
    | some record => exact of_checkAlgorithm_eq_error h

theorem of_restored_eq_error {s : σ} {record : PipelineRecord} {e : Error}
    (h : restored s c record = .error e) : e.isNameClash = false := by
  rcases of_bind_eq_error h with h | ⟨records, -, h⟩
  · exact of_load_eq_error h
  · rcases of_bind_eq_error h with h | ⟨_, -, h⟩
    · rcases of_bind_eq_error h with h | ⟨_, -, h⟩
      · exact of_checkAlgorithm_eq_error h
      · cases h
    · cases h

omit [LookupStore σ] in
theorem of_migrated_eq_error {s : σ} {record : PipelineRecord} {e : Error}
    (h : migrated s c record = .error e) : e.isNameClash = false := by
  rw [migrated] at h
  split at h
  · exact of_setAlgorithm_eq_error h
  · cases h

/-- A registration fails for a name only if the name is taken. -/
theorem isTaken_of_register_eq_error {e : Error} (h : (r.register c).1 = .error e)
    (hclash : e.isNameClash = true) : r.isTaken c = true := by
  by_contra hfree
  have hother : e.isNameClash = false := by
    rw [register, if_neg hfree] at h
    dsimp only at h
    split at h
    · next other hfound =>
      cases h
      rcases of_bind_eq_error hfound with hfound | ⟨_, -, hfound⟩
      · exact of_checkStored_eq_error hfound
      · exact of_register_eq_error hfound
    · split at h
      · next hrestored =>
        cases h
        exact of_restored_eq_error hrestored
      · split at h
        · next hmigrated =>
          cases h
          exact of_migrated_eq_error hmigrated
        · cases h
  rw [hother] at hclash
  cases hclash

theorem register_eq_nameTaken_iff : (r.register c).1 = .error (.nameTaken c.name) ↔
    (∃ name, r.StandsFor c.name name) ∨ ∃ name ∈ r.names, c.previousNames.contains name = true := by
  rw [← isTaken_iff]
  constructor
  · intro h
    exact isTaken_of_register_eq_error h rfl
  · intro htaken
    rw [register, if_pos htaken]

/-- However candidates are registered, a name stands for two pipelines exactly if it is a previous
name of both. A candidate is refused for a name exactly if its name stands for a member or a
previous name of it is the name of a member; one that is registered brings an ambiguity exactly
if a member has a previous name of it. -/
theorem isUnambiguous_registerEach_iff (s : σ) (cs : List Candidate) (c : Candidate) :
    let r := (new s).registerEach cs
    (r.IsUnambiguous ↔ ¬ r.SharesPreviousName) ∧
      ((r.register c).1 = .error (.nameTaken c.name) ↔
        (∃ name, r.StandsFor c.name name) ∨
          ∃ name ∈ r.names, c.previousNames.contains name = true) ∧
      ((r.register c).1 = .ok () → r.IsUnambiguous →
        ((r.register c).2.IsUnambiguous ↔
          ∀ old name, c.previousNames.contains old = true → ¬ r.WasCalled old name)) := by
  intro r
  have hown : r.HasOwnNames := hasOwnNames_registerEach s cs
  exact ⟨hown.isUnambiguous_iff, register_eq_nameTaken_iff,
    fun hok hclear => isUnambiguous_register_iff hclear hok⟩

/-- A pipeline that was called differently before. -/
def heir (name previous : String) : Candidate :=
  ⟨name, .commit, 8, .ofMembers [previous], false, .recorder⟩

/-- A previous name of a member is refused as a name. A candidate that has only names of its own
enters, and no name stands for two pipelines. -/
theorem register_beside_heir :
    let r := (new MemoryStore.empty).registerEach [heir "outbox" "queue"]
    (r.register (heir "queue" "spool")).1 = .error (.nameTaken "queue") ∧
      (r.register (heir "inbox" "mail")).1 = .ok () ∧
      (r.register (heir "inbox" "mail")).2.IsUnambiguous := by
  intro r
  have hmembers : r.members.entries.map (fun e => (e.1, e.2.previousNames)) =
      [("outbox", .ofMembers ["queue"])] := by
    decide +kernel
  have hcalled : r.WasCalled "queue" "outbox" := by
    obtain ⟨⟨name, m⟩, he, heq⟩ := List.mem_map.1 (hmembers ▸ List.mem_cons_self)
    obtain ⟨rfl, hprevious⟩ := Prod.mk.inj heq
    exact ⟨m, OrderedMap.get?_eq_some_iff.2 he, by rw [hprevious]; decide⟩
  have honly {old name : String} (h : r.WasCalled old name) : old = "queue" ∧ name = "outbox" := by
    obtain ⟨m, hm, hknown⟩ := h
    have he := List.mem_map_of_mem (f := fun e => (e.1, e.2.previousNames))
      (OrderedMap.get?_eq_some_iff.1 hm)
    rw [hmembers, List.mem_singleton, Prod.mk.injEq] at he
    rw [he.2, OrderedSet.contains_iff_mem, OrderedSet.mem_ofMembers, List.mem_singleton] at hknown
    exact ⟨hknown, he.1⟩
  have hclear : r.IsUnambiguous := by
    rw [(isUnambiguous_registerEach_iff MemoryStore.empty _ (heir "inbox" "mail")).1]
    rintro ⟨old, a, b, hne, ha, hb⟩
    exact hne ((honly ha).2.trans (honly hb).2.symm)
  have henters : (r.register (heir "inbox" "mail")).1 = .ok () := by decide +kernel
  refine ⟨?_, henters, ?_⟩
  · apply (isUnambiguous_registerEach_iff MemoryStore.empty _ (heir "queue" "spool")).2.1.2
    exact .inl ⟨"outbox", .inr hcalled⟩
  · apply ((isUnambiguous_registerEach_iff MemoryStore.empty _ _).2.2 henters hclear).2
    intro old name hold hmember
    rw [(honly hmember).1] at hold
    exact absurd hold (by decide)

/-- Two pipelines that were both called alike before. -/
def successors : List Candidate := [heir "outbox" "queue", heir "uploads" "queue"]

/-- The second pipeline is registered like the first, and the previous name stands for both. -/
theorem not_isUnambiguous_successors :
    (((new MemoryStore.empty).registerEach [heir "outbox" "queue"]).register
      (heir "uploads" "queue")).1 = .ok () ∧
      ¬ ((new MemoryStore.empty).registerEach successors).IsUnambiguous := by
  have hprevious : ["outbox", "uploads"].map (fun name =>
      (((new MemoryStore.empty).registerEach successors).members.get? name).map (·.previousNames)) =
        [some (.ofMembers ["queue"]), some (.ofMembers ["queue"])] := by
    decide +kernel
  obtain ⟨houtbox, hrest⟩ := List.cons_eq_cons.1 hprevious
  obtain ⟨m, hm, hm'⟩ := Option.map_eq_some_iff.1 houtbox
  obtain ⟨n, hn, hn'⟩ := Option.map_eq_some_iff.1 (List.cons_eq_cons.1 hrest).1
  have hknown : (OrderedSet.ofMembers ["queue"]).contains "queue" = true := by decide
  refine ⟨by decide +kernel, fun hclear => ?_⟩
  have hsame : "outbox" = "uploads" :=
    hclear (.inr ⟨m, hm, hm' ▸ hknown⟩) (.inr ⟨n, hn, hn' ▸ hknown⟩)
  exact absurd hsame (by decide)

end Registry

end OperationQueue
