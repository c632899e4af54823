/-
# What a queue takes over from a commit

A queued operation has its row number and keeps it, so a modification gives it its content and
nothing else, and a status gives it a status. A new operation joins with the number that the store
gave it. So a commit that tells its operations their numbers makes of the queue what it makes of
it when it is bare.
-/
import OperationQueue.Proofs.Commit.Bare
import OperationQueue.Proofs.Pipeline.Controlling
import OperationQueue.Proofs.Pipeline.Restoring

namespace OperationQueue

namespace Operation

variable {op : Operation}

/-- Modifications with the same content are the same to an operation that has its number. -/
theorem mergeModification_congr (h : op.rowid.isSome) {m n : Operation}
    (hsame : n.content = m.content) : op.mergeModification n = op.mergeModification m := by
  rw [← mergeModification_content h n, hsame, mergeModification_content h]

theorem isTerminal_applyStaged (h : op.finishesWhenApplied = true) :
    op.applyStaged.isTerminal = true := by
  obtain ⟨next, hnext, hterminal⟩ := (Option.any_eq_true _ _).1 h
  rw [isTerminal, applyStaged, effectiveStatus, hnext]
  exact hterminal

/-- A numbered operation keeps everything that no modification is about. -/
theorem withoutContent_modified (h : op.rowid.isSome) (knows : Identity → Bool)
    (modifications : List Operation) :
    (op.modified knows modifications).withoutContent = op.withoutContent := by
  induction modifications generalizing op with
  | nil => rfl
  | cons m rest ih =>
      have hfirst : (modifiedBy knows op m).withoutContent = op.withoutContent := by
        obtain ⟨rowid, hrowid⟩ := Option.isSome_iff_exists.1 h
        rw [modifiedBy]
        split
        · rw [withoutContent, mergeModification, hrowid, withoutContent, hrowid]
          rfl
        · rfl
      have hnumber : (modifiedBy knows op m).rowid.isSome :=
        (congrArg (fun other => other.rowid.isSome) hfirst).trans h
      exact (ih hnumber).trans hfirst

theorem withoutStatus_moved (statuses : List (Identity × Status)) (op : Operation) :
    (op.moved statuses).withoutStatus = op.withoutStatus := by
  induction statuses generalizing op with
  | nil => rfl
  | cons e rest ih =>
      have hfirst : (op.movedBy e).withoutStatus = op.withoutStatus := by
        rw [movedBy]
        split <;> rfl
      exact (ih _).trans hfirst

theorem OnlyStatus.withoutStatus {f : Operation → Operation} (h : OnlyStatus f) (op : Operation) :
    (f op).withoutStatus = op.withoutStatus := by
  obtain ⟨next, hnext⟩ := h op
  rw [hnext]
  rfl

theorem withoutContent_activate (ids : List Identity) (op : Operation) :
    (op.activate ids).withoutContent = op.withoutContent.activate ids := by
  have hid : op.withoutContent.id = op.id := rfl
  rw [activate, activate, hid]
  split <;> rfl

end Operation

namespace Pipeline

variable {p q : Pipeline} {c d : Commit} {numbers : OrderedMap Identity Int} {now : Instant}

/-- Every queued operation has its row number. -/
def HasRowids (p : Pipeline) : Prop := ∀ op ∈ p.operations, op.rowid.isSome

/-! ## Numbers that stay -/

theorem HasRowids.sameQueue (h : p.HasRowids) (hsame : SameQueue p q) : q.HasRowids := by
  obtain ⟨f, hf, hoperations⟩ := hsame.operations_eq
  intro op hop
  rw [hoperations] at hop
  obtain ⟨old, hold, rfl⟩ := List.mem_map.1 hop
  have hnumber := congrArg Operation.rowid (hf.withoutStatus old)
  have hkept : (f old).rowid = old.rowid := hnumber
  rw [hkept]
  exact h old hold

theorem hasRowids_restore {records : List StoredOperation}
    (h : ∀ r ∈ records, r.operation.rowid.isSome) (p : Pipeline) :
    (p.restore records).2.HasRowids := by
  intro op hop
  obtain ⟨r, hr, rfl⟩ := mem_operations_restore.1 hop
  obtain ⟨old, hold, heq⟩ := exists_of_mem_restorable hr
  rw [heq]
  exact h old hold

theorem HasRowids.update (h : p.HasRowids) {f : Operation → Operation}
    (hf : ∀ op, op.rowid.isSome → (f op).rowid.isSome) (id : Identity) :
    (p.update id f).HasRowids := by
  intro op hop
  obtain ⟨snapshot, hop⟩ := mem_operations_iff.1 hop
  cases hg : p.graphs.get? snapshot with
  | none => simp [operationsAt, Pipeline.update, hg] at hop
  | some g =>
      have hmem {old : Operation} (hold : old ∈ g.operations) : old.rowid.isSome :=
        h old (mem_operations_iff.2 ⟨snapshot, by rwa [operationsAt_of_get? hg]⟩)
      have hupdated : op ∈ Operation.updateFirst id f g.operations := by
        simpa [operationsAt, Pipeline.update, Graph.update, hg] using hop
      rcases Operation.mem_of_mem_updateFirst hupdated with hold | ⟨old, hold, -, rfl⟩
      · exact hmem hold
      · exact hf old (hmem hold)

theorem HasRowids.edited (h : p.HasRowids) (c : Commit) {op : Operation} (hop : op ∈ p.operations) :
    (p.edited c op).rowid.isSome := by
  have hmoved := congrArg Operation.rowid
    (Operation.withoutStatus_moved c.statuses.entries (op.modified (p.knows c) c.modified))
  have hmodified := congrArg Operation.rowid
    (Operation.withoutContent_modified (h op hop) (p.knows c) c.modified)
  have hkept : (p.edited c op).rowid = op.rowid := hmoved.trans hmodified
  rw [hkept]
  exact h op hop

theorem HasRowids.remaining (h : p.HasRowids) (c : Commit) : (p.remaining c).HasRowids := by
  intro op hop
  rw [Pipeline.remaining, mem_operations_reap, operations_mapOperations] at hop
  obtain ⟨old, hold, rfl⟩ := List.mem_map.1 hop.1
  exact h.edited c hold

/-- A new operation that joins brings its number. -/
theorem HasRowids.enqueued (h : p.HasRowids) (hp : p.IsFiled) {item : Snapshot × Operation}
    (hitem : item.2.finishesWhenApplied = false → item.2.rowid.isSome) :
    (p.enqueued c item).HasRowids := by
  rw [Pipeline.enqueued]
  split
  · exact h
  · next hjoins =>
    intro op hop
    rw [(operations_pushAt_perm hp _ _).mem_iff, List.mem_cons] at hop
    rcases hop with rfl | hop
    · refine hitem (Bool.eq_false_iff.2 fun hfinishes => ?_)
      exact (not_or.1 hjoins).2 (Operation.isTerminal_applyStaged hfinishes)
    · exact h op hop

theorem HasRowids.applyCommit (h : p.HasRowids) (hp : p.IsSettled)
    (hnew : ∀ op ∈ c.newOperations, op.finishesWhenApplied = false → op.rowid.isSome)
    (now : Instant) : (p.applyCommit c now).2.HasRowids := by
  have hjoined : ((newItems c).foldl (Pipeline.enqueued c) (p.remaining c)).IsReaped ∧
      ((newItems c).foldl (Pipeline.enqueued c) (p.remaining c)).HasRowids := by
    apply List.foldlRecOn (newItems c) (Pipeline.enqueued c)
      (motive := fun q => q.IsReaped ∧ q.HasRowids) ⟨isReaped_remaining hp c, h.remaining c⟩
    rintro q ⟨hq, hnumbered⟩ item hitem
    have hmem : item.2 ∈ c.newOperations := map_snd_newItems c ▸ List.mem_map_of_mem hitem
    exact ⟨hq.enqueued c item, hnumbered.enqueued hq.toIsFiled (hnew item.2 hmem)⟩
  have hchanged : (p.changeQueue c).2.HasRowids := by
    intro op hop
    rw [changeQueue_snd hp.nodup_ids, operations_relink] at hop
    exact hjoined.2 op hop
  exact hchanged.sameQueue (sameQueue_reschedule (hp.changeQueue c).nodup_ids now _)

/-! ## Commits that a queue takes over alike -/

/-- A new operation comes to the same graph with another one, and joins as the same operation or
not at all. -/
structure JoinsAlike (item other : Snapshot × Operation) : Prop where
  snapshot : other.1 = item.1
  id : other.2.id = item.2.id
  joins : other.2.applyStaged = item.2.applyStaged ∨
    other.2.applyStaged.isTerminal = true ∧ item.2.applyStaged.isTerminal = true

/-- Two commits modify with the same contents, set the same statuses, and let the same operations
join. -/
structure AppliesAlike (c d : Commit) : Prop where
  isNew : d.isNew = c.isNew
  modified : List.Forall₂ (fun m n : Operation => n.content = m.content) c.modified d.modified
  statuses : d.statuses = c.statuses
  insertions : List.Forall₂ JoinsAlike (insertions c) (insertions d)
  additions : List.Forall₂ JoinsAlike (additions c) (additions d)

theorem update_congr {f g : Operation → Operation} (h : ∀ op ∈ p.operations, f op = g op)
    (id : Identity) : p.update id f = p.update id g := by
  have hfirst (ops : List Operation) (hops : ∀ op ∈ ops, f op = g op) :
      Operation.updateFirst id f ops = Operation.updateFirst id g ops := by
    induction ops with
    | nil => rfl
    | cons op rest ih =>
        rw [Operation.updateFirst, Operation.updateFirst, hops op List.mem_cons_self,
          ih fun op hop => hops op (List.mem_cons_of_mem _ hop)]
  simp only [update, Pipeline.mk.injEq, true_and, and_true]
  refine OrderedMap.ext_get? fun snapshot => ?_
  simp only [OrderedMap.get?_map]
  apply Option.map_congr
  intro graph hgraph
  rw [Graph.update, Graph.update, hfirst]
  intro op hop
  exact h op (mem_operations_iff.2 ⟨snapshot, by rwa [operationsAt_of_get? hgraph]⟩)

theorem pruned_congr (hnew : d.isNew = c.isNew) : p.pruned d = p.pruned c := by
  funext op
  have hknows : p.knows d = p.knows c := by
    funext id
    rw [knows, knows, hnew]
  rw [pruned, pruned, hknows]

theorem modifyAll_congr (hnew : d.isNew = c.isNew) {modifications others : List Operation}
    (hsame : List.Forall₂ (fun m n : Operation => n.content = m.content) modifications others)
    (hp : p.HasRowids) : modifyAll d others p = modifyAll c modifications p := by
  induction hsame generalizing p with
  | nil => rfl
  | @cons m n _ _ hcontent _ ih =>
      have hid : n.id = m.id := by
        rw [← Operation.id_content n, hcontent, Operation.id_content]
      have hpruned : (p.pruned d n).content = (p.pruned c m).content := by
        rw [pruned_congr hnew]
        exact congrArg (Operation.retainDependencies · (p.knows c)) hcontent
      have hupdate : p.update n.id (fun old => old.mergeModification (p.pruned d n)) =
          p.update m.id fun old => old.mergeModification (p.pruned c m) := by
        rw [hid]
        exact update_congr (fun old hold => Operation.mergeModification_congr (hp old hold) hpruned) _
      have hnumbered : (p.update m.id fun old =>
          old.mergeModification (p.pruned c m)).HasRowids := by
        refine hp.update (fun old hold => ?_) m.id
        obtain ⟨rowid, hrowid⟩ := Option.isSome_iff_exists.1 hold
        rw [Operation.mergeModification, hrowid]
        rfl
      rw [modifyAll, modifyAll, hid]
      by_cases hqueued : p.isQueued m.id = true
      · rw [if_pos hqueued, if_pos hqueued, ← hid, hupdate, hid, ih hnumbered]
      · rw [if_neg hqueued, if_neg hqueued, ih hp]

theorem enqueueAll_congr (hnew : d.isNew = c.isNew) {items others : List (Snapshot × Operation)}
    (hsame : List.Forall₂ JoinsAlike items others) (p : Pipeline) :
    enqueueAll d others p = enqueueAll c items p := by
  induction hsame generalizing p with
  | nil => rfl
  | @cons item other _ _ hitem _ ih =>
      obtain ⟨snapshot, op⟩ := item
      obtain ⟨snapshot', op'⟩ := other
      obtain ⟨rfl, hid, hjoins⟩ := hitem
      have hid' : op'.id = op.id := hid
      rw [enqueueAll, enqueueAll, hid']
      by_cases hqueued : p.isQueued op.id = true
      · rw [if_pos hqueued, if_pos hqueued, ih]
      · rw [if_neg hqueued, if_neg hqueued]
        dsimp only
        rcases hjoins with hsame | ⟨hother, hitem⟩
        · have happlied : op'.applyStaged = op.applyStaged := hsame
          have hjoin : p.join d snapshot' op.applyStaged = p.join c snapshot' op.applyStaged := by
            rw [join, join, pruned_congr hnew]
          rw [happlied, hjoin, ih, ih]
        · have happliedId : op'.applyStaged.id = op.applyStaged.id := hid
          have hother' : op'.applyStaged.isTerminal = true := hother
          have hitem' : op.applyStaged.isTerminal = true := hitem
          rw [if_pos hother', if_pos hitem', happliedId, ih]

theorem AppliesAlike.applyCommit_eq (h : AppliesAlike c d) (hp : p.HasRowids) (now : Instant) :
    p.applyCommit d now = p.applyCommit c now := by
  have hchanged : p.changeQueue d = p.changeQueue c := by
    rw [changeQueue, changeQueue, modifyAll_congr h.isNew h.modified hp, h.statuses]
    dsimp only
    rw [enqueueAll_congr h.isNew h.insertions, enqueueAll_congr h.isNew h.additions]
  rw [applyCommit, applyCommit, hchanged]

theorem insertions_mapOperations (c : Commit) (new modified : Operation → Operation) :
    insertions (c.mapOperations new modified) =
      (insertions c).map fun item => (item.1, new item.2) := by
  simp [insertions, Commit.mapOperations, List.map_flatMap, List.flatMap_map, Function.comp_def]

theorem additions_mapOperations (c : Commit) (new modified : Operation → Operation) :
    additions (c.mapOperations new modified) =
      (additions c).map fun item => (item.1, new item.2) := by
  simp [additions, Commit.mapOperations, Function.comp_def]

/-- An operation that is told its number joins with it, whatever number it had before. -/
theorem joinsAlike_unnumbered {item : Snapshot × Operation}
    (h : item.2.finishesWhenApplied = false → (numbers.get? item.2.id).isSome) :
    JoinsAlike (item.1, item.2.numbered numbers)
      (item.1, item.2.unnumbered.numbered numbers) := by
  refine ⟨rfl, rfl, ?_⟩
  by_cases hfinishes : item.2.finishesWhenApplied = true
  · exact .inr ⟨Operation.isTerminal_applyStaged hfinishes,
      Operation.isTerminal_applyStaged hfinishes⟩
  · obtain ⟨rowid, hrowid⟩ := Option.isSome_iff_exists.1 (h (Bool.eq_false_iff.2 hfinishes))
    refine .inl ?_
    rw [Operation.numbered, Operation.numbered, Operation.id_unnumbered, hrowid]
    rfl

/-- A bare commit whose operations are told their numbers applies as the commit does, if every
operation that joins is told one. -/
theorem appliesAlike_bare
    (hnumbers : ∀ op ∈ c.newOperations, op.finishesWhenApplied = false →
      (numbers.get? op.id).isSome) :
    AppliesAlike (c.assignRowids numbers) (c.bare.assignRowids numbers) := by
  have hjoins : ∀ item ∈ newItems c, JoinsAlike (item.1, item.2.numbered numbers)
      (item.1, item.2.unnumbered.numbered numbers) :=
    fun item hitem => joinsAlike_unnumbered
      (hnumbers item.2 (map_snd_newItems c ▸ List.mem_map_of_mem hitem))
  have hbare : c.bare.assignRowids numbers = c.mapOperations
      (Operation.numbered numbers ∘ Operation.unnumbered)
      (Operation.numbered numbers ∘ Operation.content) :=
    c.mapOperations_mapOperations _ _ _ _
  refine ⟨?_, ?_, rfl, ?_, ?_⟩
  · rw [Commit.isNew_assignRowids, Commit.isNew_assignRowids, Commit.isNew_bare]
  · apply List.forall₂_map_left_iff.2
    rw [hbare]
    apply List.forall₂_map_right_iff.2
    exact List.forall₂_same.2 fun _ _ => rfl
  · rw [hbare, Commit.assignRowids_eq_mapOperations, insertions_mapOperations,
      insertions_mapOperations]
    apply List.forall₂_map_left_iff.2
    apply List.forall₂_map_right_iff.2
    exact List.forall₂_same.2 fun item hitem => hjoins item (List.mem_append_left _ hitem)
  · rw [hbare, Commit.assignRowids_eq_mapOperations, additions_mapOperations,
      additions_mapOperations]
    apply List.forall₂_map_left_iff.2
    apply List.forall₂_map_right_iff.2
    exact List.forall₂_same.2 fun item hitem => hjoins item (List.mem_append_right _ hitem)

/-! ## Commits without new operations -/

theorem operations_changeQueue_of_no_new (h : p.ids.Nodup) (hnew : c.newOperations = []) :
    (p.changeQueue c).2.operations = (p.operations.map (p.edited c)).filter (!·.isTerminal) := by
  have hitems : newItems c = [] := by
    rw [← List.map_eq_nil_iff (f := (·.2)), map_snd_newItems, hnew]
  rw [changeQueue_snd h, operations_relink, hitems, List.foldl_nil, remaining, operations_reap,
    operations_mapOperations]

/-- A commit of statuses alone changes nothing but statuses of the operations that stay. -/
theorem operations_sublist_of_statuses (h : p.IsSettled) (hnew : c.newOperations = [])
    (hmodified : c.modified = []) (now : Instant) :
    ((p.applyCommit c now).2.operations.map Operation.withoutStatus).Sublist
      (p.operations.map Operation.withoutStatus) := by
  obtain ⟨f, hf, hpass⟩ :=
    (sameQueue_reschedule (h.changeQueue c).nodup_ids now (p.changeQueue c).1).operations_eq
  have hafter : (p.applyCommit c now).2.operations = (p.changeQueue c).2.operations.map f := hpass
  have hedited : Operation.withoutStatus ∘ p.edited c = Operation.withoutStatus := by
    funext op
    rw [Function.comp_apply, edited, Operation.withoutStatus_moved, hmodified]
    rfl
  have hstatus : Operation.withoutStatus ∘ f = Operation.withoutStatus :=
    funext fun op => hf.withoutStatus op
  rw [hafter, List.map_map, hstatus, operations_changeQueue_of_no_new h.nodup_ids hnew]
  have hkept := (List.filter_sublist (p := (!·.isTerminal))
    (l := p.operations.map (p.edited c))).map Operation.withoutStatus
  rwa [List.map_map, hedited] at hkept

/-- A commit of modifications alone changes no status, and the pass behind it only those of the
operations that it hands out. -/
theorem operations_eq_of_modifications (h : p.IsSettled) (hp : p.HasRowids)
    (hnew : c.newOperations = []) (hstatuses : c.statuses.entries = []) (now : Instant) :
    (p.applyCommit c now).2.operations.map Operation.withoutContent =
      p.operations.map fun op =>
        op.withoutContent.activate ((p.applyCommit c now).1.dispatch.map (·.id)) := by
  have hpass : (p.applyCommit c now).2.operations = (p.changeQueue c).2.operations.map
      (Operation.activate ((p.applyCommit c now).1.dispatch.map (·.id))) := by
    have hdispatch : (p.applyCommit c now).1.dispatch = ((p.changeQueue c).2.schedule now).1 :=
      dispatch_announce _ _
    have hscheduled : (p.applyCommit c now).2.operations =
        ((p.changeQueue c).2.schedule now).2.operations := operations_announce _ _
    rw [hdispatch, hscheduled, schedule_snd (h.changeQueue c).nodup_ids, operations_mapOperations]
  have hedited (op : Operation) : p.edited c op = op.modified (p.knows c) c.modified := by
    rw [edited, hstatuses]
    rfl
  have hstays : ∀ op ∈ p.operations.map (p.edited c), (!op.isTerminal) = true := by
    intro op hop
    obtain ⟨old, hold, rfl⟩ := List.mem_map.1 hop
    rw [hedited, Operation.isTerminal_modified, h.unfinished old hold]
    rfl
  rw [hpass, operations_changeQueue_of_no_new h.nodup_ids hnew, List.filter_eq_self.2 hstays,
    List.map_map, List.map_map]
  apply List.map_congr_left
  intro op hop
  rw [Function.comp_apply, Function.comp_apply, Operation.withoutContent_activate, hedited,
    Operation.withoutContent_modified (hp op hop)]

end Pipeline

end OperationQueue
