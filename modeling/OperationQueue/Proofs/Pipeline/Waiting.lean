/-
# Who waits for whom

A queued operation waits for its dependencies that are queued. Checked commits never make
the queue wait in a circle: whoever waits for whom afterwards did so in the operations
that were checked, in which modified operations count as modified and new ones are there
already. And without a circle somebody can start, because one of the operations whose
turn it is waits for none of the others.
-/
import OperationQueue.Proofs.Commit
import OperationQueue.Proofs.Dependencies
import OperationQueue.Proofs.Pipeline.Controlling

namespace OperationQueue

namespace Pipeline

open Relation

variable {p q : Pipeline} {c : Commit}

/-- A queued operation has a queued operation among its dependencies. -/
def WaitsFor (p : Pipeline) (id dep : Identity) : Prop :=
  dep ∈ p.ids ∧ ∃ op ∈ p.operations, op.id = id ∧ dep ∈ op.dependencies.toList

instance (p : Pipeline) (id dep : Identity) : Decidable (p.WaitsFor id dep) :=
  inferInstanceAs (Decidable (dep ∈ p.ids ∧
    ∃ op ∈ p.operations, op.id = id ∧ dep ∈ op.dependencies.toList))

/-- Some queued operation waits, directly or through others, for itself. -/
def HasCycle (p : Pipeline) : Prop := ∃ id, TransGen p.WaitsFor id id

theorem not_hasCycle_new (name : String) (algorithm : Algorithm) :
    ¬ (Pipeline.new name algorithm).HasCycle := by
  rintro ⟨id, hcycle⟩
  obtain ⟨dep, ⟨hdep, -⟩, -⟩ := TransGen.head'_iff.1 hcycle
  cases hdep

/-- Who waits for whom has nothing to do with statuses. -/
theorem SameQueue.waitsFor_eq (h : SameQueue p q) : q.WaitsFor = p.WaitsFor := by
  obtain ⟨f, hf, hq⟩ := h.operations_eq
  funext id dep
  simp only [WaitsFor, h.ids_eq, hq, List.mem_map, exists_exists_and_eq_and, hf.id,
    hf.dependencies]

theorem SameQueue.not_hasCycle (h : SameQueue p q) (hacyclic : ¬ p.HasCycle) : ¬ q.HasCycle := by
  rw [HasCycle, h.waitsFor_eq]
  exact hacyclic

/-! ## Checked commits -/

theorem checkCommit_eq_ok_iff :
    p.checkCommit c = .ok () ↔
      (Dependencies.ofOperations c.finishes (c.resulting p.operations)).IsAcyclic := by
  rw [← Dependencies.cycleMember?_eq_none_iff (Dependencies.hasNodes_ofOperations _ _)]
  rw [checkCommit, Commit.checkAgainst, Commit.cycleMember?]
  cases Dependencies.cycleMember? _ <;> simp

/-- A commit that is not accepted is refused for a cycle. -/
theorem checkCommit_cases (p : Pipeline) (c : Commit) :
    p.checkCommit c = .ok () ∨ ∃ id, p.checkCommit c = .error (.cycle c.snapshot id) := by
  rw [checkCommit, Commit.checkAgainst]
  cases c.cycleMember? p.operations with
  | none => exact .inl rfl
  | some id => exact .inr ⟨id, rfl⟩

/-- A fresh commit finishes a queued operation exactly if it is reckoned to. -/
theorem finishes_eq_isTerminal_edited (hfresh : p.IsFresh c) {old : Operation}
    (hold : old ∈ p.operations) (hunfinished : old.isTerminal = false) :
    c.finishes old.id = (p.edited c old).isTerminal := by
  have hnotNew : (c.newOperations.any fun op => op.id == old.id && op.finishesWhenApplied) = false := by
    rw [List.any_eq_false]
    intro op hop hboth
    have hid : op.id = old.id := by simpa using (Bool.and_eq_true_iff.1 hboth).1
    exact hfresh.notMem_ids op hop (hid ▸ List.mem_map_of_mem hold)
  rw [Commit.finishes, hnotNew, Bool.or_false, isTerminal_edited hunfinished]

/-- It finishes a new operation exactly if it is reckoned to. -/
theorem finishes_eq_isTerminal_applyStaged (hconsistent : c.IsConsistent)
    (hnodup : (c.newOperations.map (·.id)).Nodup) {new : Operation}
    (hnew : new ∈ c.newOperations) : c.finishes new.id = new.applyStaged.isTerminal := by
  have hfound : (c.newOperations.any fun op => op.id == new.id && op.finishesWhenApplied) =
      new.finishesWhenApplied := by
    rw [Bool.eq_iff_iff, List.any_eq_true]
    constructor
    · rintro ⟨op, hop, hboth⟩
      obtain ⟨hid, hfinishes⟩ := Bool.and_eq_true_iff.1 hboth
      have heq : op = new := List.inj_on_of_nodup_map hnodup hop hnew (by simpa using hid)
      exact heq ▸ hfinishes
    · intro hfinishes
      exact ⟨new, hnew, by simp [hfinishes]⟩
  rw [Commit.finishes, hconsistent.statuses new hnew, hfound,
    hconsistent.isTerminal_applyStaged hnew]
  rfl

/-- After a fresh commit nobody waits who did not wait in what was checked. -/
theorem precedes_of_waitsFor_changeQueue (h : p.IsSettled) (hfresh : p.IsFresh c)
    (hconsistent : c.IsConsistent) {id dep : Identity}
    (hwaits : (p.changeQueue c).2.WaitsFor id dep) :
    (Dependencies.ofOperations c.finishes (c.resulting p.operations)).Precedes dep id := by
  have hnew {item : Snapshot × Operation} (hitem : item ∈ newItems c) :
      item.2 ∈ c.newOperations := map_snd_newItems c ▸ List.mem_map_of_mem hitem
  -- Whatever is queued afterwards is not finished by the commit.
  have hfinishes : ∀ op ∈ (p.changeQueue c).2.operations, c.finishes op.id = false := by
    intro op hop
    rcases (mem_operations_changeQueue h hfresh).1 hop with
      ⟨old, hold, hstays, rfl⟩ | ⟨item, hitem, hjoins, rfl⟩
    · rw [(keepsPlace_edited p c).id,
        finishes_eq_isTerminal_edited hfresh hold (h.unfinished old hold)]
      exact hstays
    · show c.finishes item.2.id = false
      rw [finishes_eq_isTerminal_applyStaged hconsistent hfresh.nodup (hnew hitem)]
      exact hjoins
  obtain ⟨hdep, op, hop, rfl, hmem⟩ := hwaits
  obtain ⟨other, hother, rfl⟩ := List.mem_map.1 hdep
  -- The operation stands in what was checked, with this dependency.
  have hchecked : ∃ source ∈ c.resulting p.operations, source.id = op.id ∧
      other.id ∈ source.dependencies.toList := by
    rcases (mem_operations_changeQueue h hfresh).1 hop with
      ⟨old, hold, -, rfl⟩ | ⟨item, hitem, -, rfl⟩
    · rw [(keepsPlace_edited p c).id]
      rw [edited, Operation.dependencies_moved] at hmem
      rcases old.dependencies_modified (p.knows c) c.modified with
        ⟨hnone, hsame⟩ | ⟨m, hm, hid, hdeps⟩
      · refine ⟨old, List.mem_append_left _ (List.mem_append_left _ ?_), rfl, hsame ▸ hmem⟩
        refine List.mem_filter.2 ⟨hold, ?_⟩
        rw [Bool.not_eq_true', Bool.eq_false_iff]
        intro hoccurs
        obtain ⟨m, hm, hid⟩ := Operation.occurs_iff.1 hoccurs
        exact hnone m hm hid
      · rw [hdeps] at hmem
        exact ⟨m, List.mem_append_right _ hm, hid,
          (Operation.mem_dependencies_retainDependencies.1 hmem).1⟩
    · refine ⟨item.2, List.mem_append_left _ (List.mem_append_right _ (hnew hitem)), rfl, ?_⟩
      exact (Operation.mem_dependencies_retainDependencies.1 hmem).1
  obtain ⟨source, hsource, hid, hsourceDep⟩ := hchecked
  exact Dependencies.precedes_ofOperations.2
    ⟨source, hsource, hid, hfinishes op hop, hsourceDep, hfinishes other hother⟩

/-- A fresh commit that was checked against the queue leaves no cycle in it. -/
theorem not_hasCycle_changeQueue (h : p.IsSettled) (hfresh : p.IsFresh c) (hbuilt : c.Built)
    (hchecked : p.checkCommit c = .ok ()) : ¬ (p.changeQueue c).2.HasCycle := by
  rintro ⟨id, hcycle⟩
  have hstep : ∀ a b, (p.changeQueue c).2.WaitsFor a b → Function.swap
      (Dependencies.ofOperations c.finishes (c.resulting p.operations)).Precedes a b :=
    fun a b hwaits => precedes_of_waitsFor_changeQueue h hfresh hbuilt.isConsistent hwaits
  exact checkCommit_eq_ok_iff.1 hchecked id (transGen_swap.1 (TransGen.mono hstep _ _ hcycle))

/-! ## Commits that are numbered, and commits that add -/

theorem finishes_assignRowids (c : Commit) (rowids : OrderedMap Identity Int) :
    (c.assignRowids rowids).finishes = c.finishes := by
  funext id
  have hstatuses : (c.assignRowids rowids).statuses = c.statuses := rfl
  rw [Commit.finishes, Commit.finishes, Commit.newOperations_assignRowids, List.any_map, hstatuses]
  rfl

/-- The check does not look at row numbers. -/
theorem checkCommit_assignRowids (rowids : OrderedMap Identity Int)
    (h : p.checkCommit c = .ok ()) : p.checkCommit (c.assignRowids rowids) = .ok () := by
  rw [checkCommit_eq_ok_iff] at h ⊢
  have hsources : ∀ op ∈ (c.assignRowids rowids).resulting p.operations,
      ∃ source ∈ c.resulting p.operations,
        op.id = source.id ∧ op.dependencies = source.dependencies := by
    intro op hop
    rw [Commit.resulting, Commit.newOperations_assignRowids, Commit.modified_assignRowids,
      List.mem_append, List.mem_append] at hop
    rcases hop with (hop | hop) | hop
    · refine ⟨op, List.mem_append_left _ (List.mem_append_left _ ?_), rfl, rfl⟩
      simpa [Operation.occurs, List.any_map, Function.comp_def, Operation.numbered] using hop
    · obtain ⟨source, hsource, rfl⟩ := List.mem_map.1 hop
      exact ⟨source, List.mem_append_left _ (List.mem_append_right _ hsource), rfl, rfl⟩
    · obtain ⟨source, hsource, rfl⟩ := List.mem_map.1 hop
      exact ⟨source, List.mem_append_right _ hsource, rfl, rfl⟩
  intro id hcycle
  refine h id (TransGen.mono (fun dep id hprecedes => ?_) _ _ hcycle)
  rw [Dependencies.precedes_ofOperations, finishes_assignRowids] at hprecedes
  obtain ⟨op, hop, rfl, hid, hdep, hneeded⟩ := hprecedes
  obtain ⟨source, hsource, heq, hdependencies⟩ := hsources op hop
  rw [heq] at hid ⊢
  exact Dependencies.precedes_ofOperations.2
    ⟨source, hsource, rfl, hid, hdependencies ▸ hdep, hneeded⟩

/-- Behind a queue, an operation that waits for nobody closes no cycle, as long as nothing
queued is reckoned to finish. -/
private theorem isAcyclic_append_iff {finishing : Identity → Bool} {new : Operation}
    (hstay : ∀ id ∈ p.ids, finishing id = false) (hindependent : new.dependencies = .empty) :
    (Dependencies.ofOperations finishing (p.operations ++ [new])).IsAcyclic ↔ ¬ p.HasCycle := by
  have hold {dep id : Identity}
      (h : (Dependencies.ofOperations finishing (p.operations ++ [new])).Precedes dep id) :
      ∃ source ∈ p.operations, source.id = id ∧ dep ∈ source.dependencies.toList := by
    obtain ⟨source, hsource, hsourceId, -, hdep, -⟩ := Dependencies.precedes_ofOperations.1 h
    rcases List.mem_append.1 hsource with hsource | hsource
    · exact ⟨source, hsource, hsourceId, hdep⟩
    · rw [List.mem_singleton.1 hsource, hindependent] at hdep
      cases hdep
  constructor
  · rintro hacyclic ⟨id, hcycle⟩
    refine hacyclic id (transGen_swap.1 (TransGen.mono (fun a b hwaits => ?_) _ _ hcycle))
    obtain ⟨hb, source, hsource, rfl, hdep⟩ := hwaits
    exact Dependencies.precedes_ofOperations.2 ⟨source, List.mem_append_left _ hsource, rfl,
      hstay _ (List.mem_map_of_mem hsource), hdep, hstay b hb⟩
  · intro hnone id hcycle
    apply hnone
    refine ⟨id, transGen_swap.1 (transGen_self_of_forall (fun dep id hprecedes hback => ?_) hcycle)⟩
    -- What stands on a cycle waits for somebody, so it is not the new operation.
    obtain ⟨d, -, hbefore⟩ := TransGen.tail'_iff.1 (TransGen.head' hprecedes hback)
    obtain ⟨source, hsource, hsourceId, hdep⟩ := hold hprecedes
    obtain ⟨other, hother, hotherId, -⟩ := hold hbefore
    exact ⟨hotherId ▸ List.mem_map_of_mem hother, source, hsource, hsourceId, hdep⟩

/-- A commit that only adds an operation without dependencies is accepted exactly by a
queue without a cycle. -/
theorem checkCommit_add_eq_ok_iff {op : Operation} (hid : op.id ∉ p.ids)
    (hindependent : op.dependencies = .empty) (snapshot : Snapshot) :
    p.checkCommit (((Commit.new 0).add op).stamp snapshot) = .ok () ↔ ¬ p.HasCycle := by
  have hnew : (((Commit.new 0).add op).stamp snapshot).newOperations =
      [{ (Commit.new 0).prepare op 0 with snapshot := snapshot }] := rfl
  have hmodified : (((Commit.new 0).add op).stamp snapshot).modified = [] := rfl
  have hstatuses (id : Identity) :
      (((Commit.new 0).add op).stamp snapshot).statuses.get? id = none := by
    by_cases heq : id = op.id
    · subst heq
      exact OrderedMap.get?_erase_self _ _
    · exact OrderedMap.get?_erase_of_ne _ heq
  have hstay : ∀ id ∈ p.ids, (((Commit.new 0).add op).stamp snapshot).finishes id = false := by
    intro id hmem
    have hne : op.id ≠ id := by
      rintro rfl
      exact hid hmem
    rw [Commit.finishes, hnew, hstatuses]
    simp [Commit.prepare, hne]
  have hresulting : (((Commit.new 0).add op).stamp snapshot).resulting p.operations =
      p.operations ++ [{ (Commit.new 0).prepare op 0 with snapshot := snapshot }] := by
    rw [Commit.resulting, hnew, hmodified]
    simp [Operation.occurs]
  rw [checkCommit_eq_ok_iff, hresulting]
  exact isAcyclic_append_iff hstay hindependent

/-! ## Runs of checked commits -/

/-- What a caller may do that checks its commits: a commit is staged, has new operations
that are not queued, and is accepted by the check. Nothing is restored. -/
def Checked (p : Pipeline) : Action → Prop
  | .apply c _ => c.Built ∧ p.IsFresh c ∧ p.checkCommit c = .ok ()
  | .restore _ => False
  | _ => True

/-- No request of such a caller makes the queue wait in a circle. -/
theorem not_hasCycle_perform (h : p.IsSettled) (hacyclic : ¬ p.HasCycle) {action : Action}
    (hchecked : p.Checked action) : ¬ (p.perform action).HasCycle := by
  have hkeeps (haction : action.KeepsQueue) : ¬ (p.perform action).HasCycle :=
    (sameQueue_perform h.nodup_ids haction).not_hasCycle hacyclic
  cases action with
  | apply c now =>
      obtain ⟨hbuilt, hfresh, hok⟩ := hchecked
      have hpass : SameQueue (p.changeQueue c).2 (p.applyCommit c now).2 :=
        sameQueue_reschedule (h.changeQueue c).nodup_ids now _
      exact hpass.not_hasCycle (not_hasCycle_changeQueue h hfresh hbuilt hok)
  | restore records => exact hchecked.elim
  | setActive id => exact hkeeps trivial
  | setPending id now => exact hkeeps trivial
  | setHold id context date now => exact hkeeps trivial
  | suspend increment => exact hkeeps trivial
  | resume now => exact hkeeps trivial
  | setLimit limit now => exact hkeeps trivial
  | recheck now => exact hkeeps trivial

/-- After a run of checked commits nobody waits for itself. -/
theorem Reachable.not_hasCycle (h : Reachable Checked p) : ¬ p.HasCycle := by
  induction h with
  | new name algorithm => exact not_hasCycle_new name algorithm
  | step reached hchecked ih => exact not_hasCycle_perform reached.isSettled ih hchecked

end Pipeline

end OperationQueue
