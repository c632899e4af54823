/-
# What a commit does to a queue

A commit edits the queued operations in place, lets the finished ones leave and lets the
new ones join. The first part is one edit of every operation, so the queue afterwards can
be written down graph by graph: the edited operations that have not finished, and behind
them what joins there. Any commit keeps a queue settled; the description is for commits
whose new operations are not queued yet.
-/
import OperationQueue.Proofs.Commit
import OperationQueue.Proofs.Pipeline.Editing
import OperationQueue.Proofs.Pipeline.Joining
import OperationQueue.Proofs.Pipeline.Starting

namespace OperationQueue

namespace Pipeline

variable {p q : Pipeline} {c : Commit}

/-- The edit that a commit makes to every queued operation. -/
def edited (p : Pipeline) (c : Commit) (op : Operation) : Operation :=
  (op.modified (p.knows c) c.modified).moved c.statuses.entries

theorem keepsPlace_edited (p : Pipeline) (c : Commit) : Operation.KeepsPlace (p.edited c) :=
  (Operation.keepsPlace_moved _).comp (Operation.keepsPlace_modified _ _)

/-- What a commit finishes in the queue it finishes by a committed status. -/
theorem isTerminal_edited {old : Operation} (hunfinished : old.isTerminal = false) :
    (p.edited c old).isTerminal = (c.statuses.get? old.id).any Status.isTerminal := by
  have hmodified : (old.modified (p.knows c) c.modified).isTerminal = false := by
    rw [Operation.isTerminal_modified, hunfinished]
  have hid := (Operation.keepsPlace_modified (p.knows c) c.modified).id old
  have hstatus : old.status.isTerminal = false := hunfinished
  rw [edited, Operation.moved_entries _ hmodified, hid, Operation.status_modified]
  cases c.statuses.get? old.id with
  | none => exact hstatus
  | some next => rfl

/-! ## Edits in place -/

/-- What a commit knows depends on the identities in the queue alone. -/
theorem knows_congr (h : ∀ id, id ∈ q.ids ↔ id ∈ p.ids) : q.knows c = p.knows c := by
  funext id
  have hqueued : q.isQueued id = p.isQueued id := by
    rw [Bool.eq_iff_iff, isQueued_iff, isQueued_iff, h]
  rw [knows, knows, hqueued]

theorem modifyAll_snd (h : p.ids.Nodup) (modifications : List Operation) :
    (modifyAll c modifications p).2 =
      p.mapOperations (Operation.modified (p.knows c) modifications) := by
  induction modifications generalizing p with
  | nil => exact (mapOperations_eq_self fun op _ => rfl).symm
  | cons m rest ih =>
      rw [modifyAll]
      by_cases hqueued : p.isQueued m.id = true
      · rw [if_pos hqueued]
        dsimp only
        have hkeeps := (Operation.KeepsPlace.modification (p.pruned c m)).ite (·.id = m.id)
        have hids := ids_mapOperations (p := p) hkeeps.id
        have hknows : (p.mapOperations fun op => if op.id = m.id then
            op.mergeModification (p.pruned c m) else op).knows c = p.knows c :=
          knows_congr fun id => by rw [hids]
        rw [update_eq_mapOperations h, ih (hids.symm ▸ h), mapOperations_mapOperations, hknows]
        rfl
      · rw [if_neg hqueued, ih h]
        apply mapOperations_congr
        intro op hop
        have hid : op.id ≠ m.id := fun heq =>
          hqueued (isQueued_iff.2 (heq ▸ List.mem_map_of_mem hop))
        simp [Operation.modified, Operation.modifiedBy, hid]

theorem moveAll_snd (h : p.ids.Nodup) (statuses : List (Identity × Status)) :
    (moveAll statuses p).2 = p.mapOperations (Operation.moved statuses) := by
  induction statuses generalizing p with
  | nil => exact (mapOperations_eq_self fun op _ => rfl).symm
  | cons e rest ih =>
      obtain ⟨id, next⟩ := e
      rw [moveAll]
      by_cases hmoves : (p.operation? id).any (fun op =>
          op.status != next && op.status.canBecome next) = true
      · rw [if_pos hmoves]
        dsimp only
        have hids := ids_mapOperations (p := p)
          ((Operation.KeepsPlace.status next).ite (·.id = id)).id
        rw [update_eq_mapOperations h, ih (hids.symm ▸ h), mapOperations_mapOperations]
        apply mapOperations_congr
        intro op hop
        by_cases hid : op.id = id
        · subst hid
          rw [operation?_eq_some h hop] at hmoves
          simp only [Option.any_some, Bool.and_eq_true] at hmoves
          simp [Operation.moved, Operation.movedBy, hmoves.2]
        · simp [Operation.moved, Operation.movedBy, hid]
      · rw [if_neg hmoves, ih h]
        apply mapOperations_congr
        intro op hop
        by_cases hid : op.id = id
        · subst hid
          rw [operation?_eq_some h hop] at hmoves
          simp only [Option.any_some, Bool.and_eq_true, bne_iff_ne, ne_eq, not_and] at hmoves
          by_cases hsame : op.status = next
          · subst hsame
            simp [Operation.moved, Operation.movedBy]
          · simp [Operation.moved, Operation.movedBy, hmoves hsame]
        · simp [Operation.moved, Operation.movedBy, hid]

/-- The queue between the edits of a commit and its new operations. -/
def remaining (p : Pipeline) (c : Commit) : Pipeline := (p.mapOperations (p.edited c)).reap

/-- The new operations of a commit with the snapshots where they join, in the order in
which they do. -/
def newItems (c : Commit) : List (Snapshot × Operation) := insertions c ++ additions c

/-- The queue after a new operation came to it: the operation joins, unless it is queued
already or finishes at once. -/
def enqueued (c : Commit) (p : Pipeline) (item : Snapshot × Operation) : Pipeline :=
  if p.isQueued item.2.id = true ∨ item.2.applyStaged.isTerminal = true then p
  else p.pushAt item.1 (p.pruned c item.2.applyStaged)

theorem enqueueAll_snd (c : Commit) (items : List (Snapshot × Operation)) (p : Pipeline) :
    (enqueueAll c items p).2 = items.foldl (enqueued c) p := by
  induction items generalizing p with
  | nil => rfl
  | cons item rest ih =>
      obtain ⟨snapshot, op⟩ := item
      rw [enqueueAll, List.foldl_cons, enqueued]
      by_cases hqueued : p.isQueued op.id = true
      · rw [if_pos hqueued, if_pos (.inl hqueued)]
        exact ih p
      · rw [if_neg hqueued]
        dsimp only
        by_cases hterminal : op.applyStaged.isTerminal = true
        · rw [if_pos hterminal, if_pos (.inr hterminal)]
          exact ih p
        · rw [if_neg hterminal, if_neg (not_or.2 ⟨hqueued, hterminal⟩), ← join_eq_pushAt]
          exact ih _

/-- The queue after a commit: what remains of it, with everything new. -/
theorem changeQueue_snd (h : p.ids.Nodup) (c : Commit) :
    (p.changeQueue c).2 = ((newItems c).foldl (enqueued c) (p.remaining c)).relink := by
  have hids := ids_mapOperations (p := p)
    (Operation.keepsPlace_modified (p.knows c) c.modified).id
  rw [newItems, List.foldl_append, ← enqueueAll_snd, ← enqueueAll_snd, changeQueue]
  dsimp only
  rw [modifyAll_snd h, moveAll_snd (hids.symm ▸ h), mapOperations_mapOperations]
  rfl

theorem isReaped_remaining (h : p.IsSettled) (c : Commit) : (p.remaining c).IsReaped :=
  (h.toIsFiled.mapOperations (keepsPlace_edited p c)).reap

theorem operationsAt_remaining (p : Pipeline) (c : Commit) (snapshot : Snapshot) :
    (p.remaining c).operationsAt snapshot =
      ((p.operationsAt snapshot).map (p.edited c)).filter fun op => !op.isTerminal := by
  rw [remaining, operationsAt_reap, operationsAt_mapOperations]

/-! ## Arrivals -/

/-- A new operation keeps a reaped queue reaped. -/
theorem IsReaped.enqueued (h : p.IsReaped) (c : Commit) (item : Snapshot × Operation) :
    (p.enqueued c item).IsReaped := by
  rw [Pipeline.enqueued]
  split
  · exact h
  · next hjoins =>
    obtain ⟨hqueued, hterminal⟩ := not_or.1 hjoins
    have hnew : (p.pruned c item.2.applyStaged).id ∉ p.ids :=
      fun hid => hqueued (isQueued_iff.2 hid)
    exact h.pushAt hnew (Bool.eq_false_iff.2 hterminal) rfl item.1

/-- A new operation that joins is known already. -/
theorem knows_pushAt (h : p.IsFiled) {op : Operation} (hnew : c.isNew op.id = true)
    (snapshot : Snapshot) : (p.pushAt snapshot op).knows c = p.knows c := by
  funext id
  rw [knows, knows, Bool.eq_iff_iff]
  simp only [Bool.or_eq_true, isQueued_iff, mem_ids_pushAt h]
  constructor
  · rintro (hid | rfl | hid)
    · exact .inl hid
    · exact .inl hnew
    · exact .inr hid
  · rintro (hid | hid)
    · exact .inl hid
    · exact .inr (.inr hid)

theorem knows_enqueued (h : p.IsFiled) {item : Snapshot × Operation}
    (hnew : c.isNew item.2.id = true) : (p.enqueued c item).knows c = p.knows c := by
  rw [enqueued]
  split
  · rfl
  · have hjoining : c.isNew (p.pruned c item.2.applyStaged).id = true := hnew
    exact knows_pushAt h hjoining item.1

/-- A new operation stands behind all others of its graph, if it joins. -/
theorem operationsAt_enqueued (h : p.IsFiled) (item : Snapshot × Operation) (snapshot : Snapshot) :
    (p.enqueued c item).operationsAt snapshot = p.operationsAt snapshot ++
      if item.1 = snapshot ∧ p.isQueued item.2.id = false ∧
          item.2.applyStaged.isTerminal = false then
        [{ p.pruned c item.2.applyStaged with snapshot := snapshot }]
      else [] := by
  rw [enqueued]
  by_cases hskipped : p.isQueued item.2.id = true ∨ item.2.applyStaged.isTerminal = true
  · rcases hskipped with hqueued | hterminal
    · simp [hqueued]
    · simp [hterminal]
  · obtain ⟨hqueued, hterminal⟩ := not_or.1 hskipped
    rw [if_neg hskipped, operationsAt_pushAt h]
    by_cases hsnapshot : snapshot = item.1
    · subst hsnapshot
      simp [hqueued, hterminal]
    · simp [hsnapshot, Ne.symm hsnapshot]

theorem mem_ids_enqueued (h : p.IsFiled) {item : Snapshot × Operation} {id : Identity} :
    id ∈ (p.enqueued c item).ids ↔
      id ∈ p.ids ∨ id = item.2.id ∧ item.2.applyStaged.isTerminal = false := by
  rw [enqueued]
  by_cases hterminal : item.2.applyStaged.isTerminal = true
  · simp [hterminal]
  · by_cases hqueued : p.isQueued item.2.id = true
    · rw [if_pos (.inl hqueued)]
      constructor
      · exact .inl
      · rintro (hid | ⟨rfl, -⟩)
        · exact hid
        · exact isQueued_iff.1 hqueued
    · rw [if_neg (not_or.2 ⟨hqueued, hterminal⟩), mem_ids_pushAt h, or_comm]
      simp only [hterminal, and_true]
      rfl

/-- Whatever a commit says, it leaves a settled queue settled. -/
theorem IsSettled.changeQueue (h : p.IsSettled) (c : Commit) : (p.changeQueue c).2.IsSettled := by
  rw [changeQueue_snd h.nodup_ids]
  apply IsReaped.relink
  exact List.foldlRecOn _ _ (isReaped_remaining h c) fun q hq item _ => hq.enqueued c item

theorem IsSettled.applyCommit (h : p.IsSettled) (c : Commit) (now : Instant) :
    (p.applyCommit c now).2.IsSettled :=
  (h.changeQueue c).reschedule now _

/-! ## The new operations of a fresh commit -/

theorem map_snd_newItems (c : Commit) : (newItems c).map (·.2) = c.newOperations := by
  simp [newItems, insertions, additions, Commit.newOperations, Commit.insertedOperations,
    OrderedMap.values, List.map_flatMap, List.flatten_eq_flatMap, List.flatMap_map,
    Function.comp_def]

/-- A commit is fresh for a queue if its new operations differ from each other and from
everything queued. -/
structure IsFresh (p : Pipeline) (c : Commit) : Prop where
  nodup : (c.newOperations.map (·.id)).Nodup
  notMem_ids : ∀ op ∈ c.newOperations, op.id ∉ p.ids

instance (p : Pipeline) (c : Commit) : Decidable (p.IsFresh c) :=
  decidable_of_iff ((c.newOperations.map (·.id)).Nodup ∧ ∀ op ∈ c.newOperations, op.id ∉ p.ids)
    ⟨fun h => ⟨h.1, h.2⟩, fun h => ⟨h.nodup, h.notMem_ids⟩⟩

/-- Being fresh is about the identities of the new operations alone. -/
theorem IsFresh.of_ids_eq {d : Commit} (h : p.IsFresh c)
    (hids : d.newOperations.map (·.id) = c.newOperations.map (·.id)) : p.IsFresh d := by
  refine ⟨hids ▸ h.nodup, fun op hop => ?_⟩
  have hid : op.id ∈ c.newOperations.map (·.id) := hids ▸ List.mem_map_of_mem hop
  obtain ⟨old, hold, heq⟩ := List.mem_map.1 hid
  rw [← heq]
  exact h.notMem_ids old hold

/-- What joins the graph of a snapshot, as it stands there. -/
def arrivals (p : Pipeline) (c : Commit) (items : List (Snapshot × Operation))
    (snapshot : Snapshot) : List Operation :=
  items.filterMap fun item =>
    if item.1 = snapshot ∧ item.2.applyStaged.isTerminal = false then
      some { p.pruned c item.2.applyStaged with snapshot := snapshot }
    else none

private theorem arrivals_congr (h : q.knows c = p.knows c) (items : List (Snapshot × Operation))
    (snapshot : Snapshot) : q.arrivals c items snapshot = p.arrivals c items snapshot := by
  simp only [arrivals, pruned, h]

/-- New operations that are not queued join at the ends of their graphs. -/
theorem operationsAt_foldl_enqueued (h : p.IsReaped) {items : List (Snapshot × Operation)}
    (hnodup : (items.map (·.2.id)).Nodup)
    (hnew : ∀ item ∈ items, c.isNew item.2.id = true ∧ item.2.id ∉ p.ids) (snapshot : Snapshot) :
    (items.foldl (enqueued c) p).operationsAt snapshot =
      p.operationsAt snapshot ++ p.arrivals c items snapshot := by
  induction items generalizing p with
  | nil => exact (List.append_nil _).symm
  | cons item rest ih =>
      rw [List.map_cons, List.nodup_cons] at hnodup
      obtain ⟨⟨hisNew, hnotMem⟩, hrest⟩ := List.forall_mem_cons.1 hnew
      have hlater : ∀ later ∈ rest, c.isNew later.2.id = true ∧
          later.2.id ∉ (p.enqueued c item).ids := by
        intro later hlater
        obtain ⟨hlaterNew, hlaterNotMem⟩ := hrest later hlater
        refine ⟨hlaterNew, fun hmem => ?_⟩
        rcases (mem_ids_enqueued h.toIsFiled).1 hmem with hmem | ⟨heq, -⟩
        · exact hlaterNotMem hmem
        · exact hnodup.1 (List.mem_map.2 ⟨later, hlater, heq⟩)
      have hfree : p.isQueued item.2.id = false :=
        Bool.eq_false_iff.2 fun hqueued => hnotMem (isQueued_iff.1 hqueued)
      rw [List.foldl_cons, ih (h.enqueued c item) hnodup.2 hlater,
        operationsAt_enqueued h.toIsFiled, arrivals_congr (knows_enqueued h.toIsFiled hisNew),
        List.append_assoc, arrivals, arrivals, List.filterMap_cons, hfree]
      by_cases hjoins : item.1 = snapshot ∧ item.2.applyStaged.isTerminal = false
      · rw [if_pos hjoins, if_pos ⟨hjoins.1, rfl, hjoins.2⟩]
        rfl
      · rw [if_neg hjoins, if_neg fun hall => hjoins ⟨hall.1, hall.2.2⟩]
        rfl

/-- The queue after a fresh commit: at each snapshot the edited operations that have not
finished, and behind them those that join there. -/
theorem operationsAt_changeQueue (h : p.IsSettled) (hfresh : p.IsFresh c) (snapshot : Snapshot) :
    (p.changeQueue c).2.operationsAt snapshot =
      (((p.operationsAt snapshot).map (p.edited c)).filter fun op => !op.isTerminal) ++
        (p.remaining c).arrivals c (newItems c) snapshot := by
  have hids : (newItems c).map (·.2.id) = c.newOperations.map (·.id) := by
    rw [← map_snd_newItems, List.map_map]
    rfl
  rw [changeQueue_snd h.nodup_ids, operationsAt_relink, ← operationsAt_remaining]
  refine operationsAt_foldl_enqueued (isReaped_remaining h c) (hids ▸ hfresh.nodup) ?_ snapshot
  intro item hitem
  have hop : item.2 ∈ c.newOperations := map_snd_newItems c ▸ List.mem_map_of_mem hitem
  refine ⟨Commit.isNew_iff.2 ⟨item.2, hop, rfl⟩, fun hmem => hfresh.notMem_ids item.2 hop ?_⟩
  have hedited : (p.mapOperations (p.edited c)).ids = p.ids :=
    ids_mapOperations (keepsPlace_edited p c).id
  rw [← hedited]
  exact ((operations_reap_sublist (p.mapOperations (p.edited c))).map _).subset hmem

/-- What is queued after a fresh commit was queued before and has not finished, or is new
and does not finish at once. -/
theorem mem_operations_changeQueue (h : p.IsSettled) (hfresh : p.IsFresh c) {op : Operation} :
    op ∈ (p.changeQueue c).2.operations ↔
      (∃ old ∈ p.operations, (p.edited c old).isTerminal = false ∧ op = p.edited c old) ∨
      ∃ item ∈ newItems c, item.2.applyStaged.isTerminal = false ∧
        op = { (p.remaining c).pruned c item.2.applyStaged with snapshot := item.1 } := by
  simp only [mem_operations_iff, operationsAt_changeQueue h hfresh, List.mem_append,
    List.mem_filter, List.mem_map, arrivals, List.mem_filterMap]
  constructor
  · rintro ⟨snapshot, ⟨⟨old, hold, rfl⟩, hunfinished⟩ | ⟨item, hitem, hop⟩⟩
    · exact .inl ⟨old, ⟨snapshot, hold⟩, by simpa using hunfinished, rfl⟩
    · split at hop
      · next hjoins =>
        obtain ⟨rfl, hunfinished⟩ := hjoins
        exact .inr ⟨item, hitem, hunfinished, (Option.some.inj hop).symm⟩
      · cases hop
  · rintro (⟨old, ⟨snapshot, hold⟩, hunfinished, rfl⟩ | ⟨item, hitem, hunfinished, rfl⟩)
    · exact ⟨snapshot, .inl ⟨⟨old, hold, rfl⟩, by simpa using hunfinished⟩⟩
    · exact ⟨item.1, .inr ⟨item, hitem, by rw [if_pos ⟨rfl, hunfinished⟩]⟩⟩

/-- An identity that is queued after a fresh commit was queued before or is new in it. -/
theorem of_mem_ids_changeQueue (h : p.IsSettled) (hfresh : p.IsFresh c) {id : Identity}
    (hid : id ∈ (p.changeQueue c).2.ids) : id ∈ p.ids ∨ id ∈ c.newOperations.map (·.id) := by
  obtain ⟨op, hop, rfl⟩ := List.mem_map.1 hid
  rcases (mem_operations_changeQueue h hfresh).1 hop with
    ⟨old, hold, -, rfl⟩ | ⟨item, hitem, -, rfl⟩
  · rw [(keepsPlace_edited p c).id]
    exact .inl (List.mem_map_of_mem hold)
  · have hnew : item.2 ∈ c.newOperations := map_snd_newItems c ▸ List.mem_map_of_mem hitem
    exact .inr (List.mem_map.2 ⟨item.2, hnew, rfl⟩)

/-! ## The holds after a commit -/

/-- A commit takes the holds of the operations that it finishes, and no others. -/
theorem holds_changeQueue (h : p.ids.Nodup) (c : Commit) :
    (p.changeQueue c).2.holds =
      (p.mapOperations (p.edited c)).finishedIds.foldl HoldTable.remove p.holds := by
  have hremaining : (p.remaining c).holds =
      (p.mapOperations (p.edited c)).finishedIds.foldl HoldTable.remove p.holds := rfl
  have henqueued (q : Pipeline) (item : Snapshot × Operation) :
      (q.enqueued c item).holds = q.holds := by
    rw [enqueued]
    split <;> rfl
  rw [changeQueue_snd h, ← hremaining]
  apply List.foldlRecOn (newItems c) (enqueued c)
    (motive := fun q => q.holds = (p.remaining c).holds) rfl
  intro q hq item _
  exact (henqueued q item).trans hq

end Pipeline

end OperationQueue
