/-
# The queue after a commit

What a commit leaves queued is written down here without the phases in which it is applied. At
each snapshot stand the operations that were there and that the commit does not finish, amended as
it says, and behind them its new operations for that graph. A new operation is passed over if it is
staged to finish, or if its identity is queued when its turn comes: it survived, or another new
operation brought it. References are kept to what is queued or new, where a finished operation
counts for those who modify and no longer for those who join. The pass at the end marks what it
hands out, and changes nothing else.
-/
import OperationQueue.Proofs.Pipeline.Controlling
import OperationQueue.Proofs.Pipeline.Roundtrip

namespace OperationQueue

/-- Whether a committed status finishes a queued operation. -/
def Commit.retires (c : Commit) (id : Identity) : Bool :=
  (c.statuses.get? id).any Status.isTerminal

namespace Operation

variable {op m : Operation} {modifications : List Operation} {knows : Identity → Bool}

/-- Of modifications with different identities at most one is for an operation. -/
theorem modified_eq (hnodup : (modifications.map (·.id)).Nodup) (op : Operation) :
    op.modified knows modifications =
      match modifications.find? (·.id == op.id) with
      | some m => op.mergeModification (m.retainDependencies knows)
      | none => op := by
  induction modifications generalizing op with
  | nil => rfl
  | cons m rest ih =>
      obtain ⟨hfirst, hrest⟩ := List.nodup_cons.1 hnodup
      have hstep : op.modified knows (m :: rest) =
          (modifiedBy knows op m).modified knows rest := rfl
      rw [hstep, ih hrest, List.find?_cons, modifiedBy]
      by_cases hid : op.id = m.id
      · have hnone : rest.find? (·.id == m.id) = none := find?_eq_none_of_notMem hfirst
        have hmerged : (op.mergeModification (m.retainDependencies knows)).id = m.id := hid
        rw [if_pos hid, hmerged, hnone, hid, beq_self_eq_true]
      · have hother : (m.id == op.id) = false := by simpa using Ne.symm hid
        rw [if_neg hid, hother]

end Operation

namespace Pipeline

variable {p : Pipeline} {c : Commit}

/-! ## The description -/

/-- A queued operation as a commit leaves it that does not finish it: with the committed status,
and with what a modification gives; of the dependencies those that were queued or are new. -/
def amended (p : Pipeline) (c : Commit) (op : Operation) : Operation :=
  let moved := { op with status := (c.statuses.get? op.id).getD op.status }
  match c.modified.find? (·.id == op.id) with
  | some m =>
    { moved with
      priority := m.priority
      payload := m.payload
      dependencies := m.dependencies.filter fun dep _ => c.isNew dep || p.isQueued dep
      rowid := op.rowid.or m.rowid }
  | none => moved

/-- The operations of a list that a commit does not finish, as it leaves them. -/
def survivors (p : Pipeline) (c : Commit) (ops : List Operation) : List Operation :=
  (ops.filter fun op => !c.retires op.id).map (p.amended c)

/-- The identities that are still queued when the new operations come. -/
def survivingIds (p : Pipeline) (c : Commit) : List Identity :=
  p.ids.filter fun id => !c.retires id

/-- The new operations that join, given the identities that are queued before the first. -/
def admitted (queued : List Identity) :
    List (Snapshot × Operation) → List (Snapshot × Operation)
  | [] => []
  | item :: rest =>
    if item.2.id ∈ queued ∨ item.2.finishesWhenApplied = true then admitted queued rest
    else item :: admitted (item.2.id :: queued) rest

/-- A new operation as it joins a graph: with its staged status, and with the dependencies that
survived or are new. -/
def arriving (p : Pipeline) (c : Commit) (snapshot : Snapshot) (op : Operation) : Operation :=
  { op with
    snapshot := snapshot
    status := op.staged.getD .pending
    staged := none
    dependencies := op.dependencies.filter fun dep _ =>
      c.isNew dep || (p.survivingIds c).contains dep }

/-- The operations at a snapshot after a commit, before anything is handed out. -/
def queueAfter (p : Pipeline) (c : Commit) (snapshot : Snapshot) : List Operation :=
  p.survivors c (p.operationsAt snapshot) ++
    ((admitted (p.survivingIds c) (newItems c)).filter (·.1 == snapshot)).map fun item =>
      p.arriving c snapshot item.2

/-! ## What survives -/

theorem edited_eq_amended (hnodup : (c.modified.map (·.id)).Nodup) {op : Operation}
    (hunfinished : op.isTerminal = false) : p.edited c op = p.amended c op := by
  have hmodified : (op.modified (p.knows c) c.modified).isTerminal = false := by
    rw [Operation.isTerminal_modified, hunfinished]
  rw [edited, Operation.moved_entries _ hmodified, Operation.modified_eq hnodup, amended]
  cases c.modified.find? (·.id == op.id) with
  | none => rfl
  | some m => rfl

theorem operationsAt_remaining_eq_survivors (h : p.IsSettled)
    (hnodup : (c.modified.map (·.id)).Nodup) (snapshot : Snapshot) :
    (p.remaining c).operationsAt snapshot = p.survivors c (p.operationsAt snapshot) := by
  have hunfinished : ∀ op ∈ p.operationsAt snapshot, op.isTerminal = false := fun op hop =>
    h.unfinished op (mem_operations_iff.2 ⟨snapshot, hop⟩)
  rw [operationsAt_remaining, survivors, List.filter_map]
  have hstays : ∀ op ∈ p.operationsAt snapshot,
      ((fun op : Operation => !op.isTerminal) ∘ p.edited c) op = !c.retires op.id := fun op hop =>
    congrArg not (isTerminal_edited (hunfinished op hop))
  rw [List.filter_congr hstays]
  apply List.map_congr_left
  intro op hop
  exact edited_eq_amended hnodup (hunfinished op (List.mem_of_mem_filter hop))

theorem ids_remaining (h : p.IsSettled) (c : Commit) : (p.remaining c).ids = p.survivingIds c := by
  have hstays : ∀ op ∈ p.operations,
      ((fun op : Operation => !op.isTerminal) ∘ p.edited c) op =
        ((fun id => !c.retires id) ∘ (·.id)) op := fun op hop =>
    congrArg not (isTerminal_edited (h.unfinished op hop))
  rw [ids, remaining, operations_reap, operations_mapOperations, survivingIds, ids, List.filter_map,
    List.filter_map, List.filter_congr hstays, List.map_map]
  apply List.map_congr_left
  intro op _
  exact (keepsPlace_edited p c).id op

/-! ## What joins -/

/-- New operations join in their order, each unless it is queued or finishes at once. -/
theorem operationsAt_foldl_enqueued_eq_admitted (h : p.IsReaped)
    {items : List (Snapshot × Operation)}
    (hitems : ∀ item ∈ items, c.isNew item.2.id = true ∧
      item.2.applyStaged.isTerminal = item.2.finishesWhenApplied)
    {queued : List Identity} (hqueued : ∀ id, id ∈ queued ↔ id ∈ p.ids) (snapshot : Snapshot) :
    (items.foldl (enqueued c) p).operationsAt snapshot = p.operationsAt snapshot ++
      ((admitted queued items).filter (·.1 == snapshot)).map fun item =>
        { p.pruned c item.2.applyStaged with snapshot := snapshot } := by
  induction items generalizing p queued with
  | nil => exact (List.append_nil _).symm
  | cons item rest ih =>
      obtain ⟨⟨hnew, hfinishes⟩, hrest⟩ := List.forall_mem_cons.1 hitems
      rw [List.foldl_cons, admitted]
      by_cases hskipped : item.2.id ∈ queued ∨ item.2.finishesWhenApplied = true
      · have hsame : p.enqueued c item = p := by
          rw [hqueued, ← isQueued_iff, ← hfinishes] at hskipped
          rw [enqueued, if_pos hskipped]
        rw [if_pos hskipped, hsame]
        exact ih h hrest hqueued
      · rw [if_neg hskipped]
        rw [hqueued, ← isQueued_iff, ← hfinishes, not_or, Bool.not_eq_true, Bool.not_eq_true]
          at hskipped
        obtain ⟨hfree, hunfinished⟩ := hskipped
        have hqueued' : ∀ id, id ∈ item.2.id :: queued ↔ id ∈ (p.enqueued c item).ids := by
          intro id
          rw [mem_ids_enqueued h.toIsFiled, List.mem_cons, hqueued, or_comm]
          simp [hunfinished]
        have hpruned (op : Operation) : (p.enqueued c item).pruned c op = p.pruned c op := by
          rw [pruned, pruned, knows_enqueued h.toIsFiled hnew]
        rw [ih (h.enqueued c item) hrest hqueued', operationsAt_enqueued h.toIsFiled, hfree,
          hunfinished, List.append_assoc]
        simp only [hpruned]
        by_cases hsnapshot : item.1 = snapshot
        · simp [hsnapshot]
        · simp [hsnapshot]

theorem admitted_sublist (queued : List Identity) (items : List (Snapshot × Operation)) :
    (admitted queued items).Sublist items := by
  induction items generalizing queued with
  | nil => exact .slnil
  | cons item rest ih =>
      rw [admitted]
      split
      · exact (ih queued).cons item
      · exact (ih _).cons_cons item

/-- What remains of a queue knows what survives and what is new. -/
theorem knows_remaining (h : p.IsSettled) (c : Commit) :
    (p.remaining c).knows c = fun dep => c.isNew dep || (p.survivingIds c).contains dep := by
  funext dep
  have hqueued : (p.remaining c).isQueued dep = (p.survivingIds c).contains dep := by
    rw [Bool.eq_iff_iff, isQueued_iff, ids_remaining h, List.contains_iff_mem]
  rw [knows, hqueued]

theorem pruned_remaining_eq_arriving (h : p.IsSettled) {op : Operation}
    (hpending : op.status = .pending) (snapshot : Snapshot) :
    { (p.remaining c).pruned c op.applyStaged with snapshot := snapshot } =
      p.arriving c snapshot op := by
  rw [pruned, knows_remaining h, arriving, Operation.applyStaged, Operation.effectiveStatus,
    hpending]
  rfl

/-! ## The whole queue -/

/-- Whatever a built commit says, it leaves what the description says. -/
theorem operationsAt_changeQueue_eq_queueAfter (h : p.IsSettled) (hc : c.IsConsistent)
    (snapshot : Snapshot) :
    (p.changeQueue c).2.operationsAt snapshot = p.queueAfter c snapshot := by
  have hmem : ∀ item ∈ newItems c, item.2 ∈ c.newOperations := fun item hitem =>
    map_snd_newItems c ▸ List.mem_map_of_mem hitem
  have hitems : ∀ item ∈ newItems c, c.isNew item.2.id = true ∧
      item.2.applyStaged.isTerminal = item.2.finishesWhenApplied := fun item hitem =>
    ⟨Commit.isNew_iff.2 ⟨item.2, hmem item hitem, rfl⟩,
      hc.isTerminal_applyStaged (hmem item hitem)⟩
  have hqueued : ∀ id, id ∈ p.survivingIds c ↔ id ∈ (p.remaining c).ids := fun id => by
    rw [ids_remaining h]
  rw [changeQueue_snd h.nodup_ids, operationsAt_relink,
    operationsAt_foldl_enqueued_eq_admitted (isReaped_remaining h c) hitems hqueued,
    operationsAt_remaining_eq_survivors h hc.modified, queueAfter]
  congr 1
  apply List.map_congr_left
  intro item hitem
  have hadmitted := (admitted_sublist _ _).subset (List.mem_of_mem_filter hitem)
  exact pruned_remaining_eq_arriving h (hc.pending item.2 (hmem item hadmitted)) snapshot

/-- A pass marks what it hands out and leaves the rest of the queue. -/
theorem operationsAt_reschedule (h : p.ids.Nodup) (now : Instant) (events : List Event)
    (snapshot : Snapshot) :
    (p.reschedule now events).2.operationsAt snapshot = (p.operationsAt snapshot).map
      (Operation.activate ((p.reschedule now events).1.dispatch.map (·.id))) := by
  have hannounced : (p.reschedule now events).2.operationsAt snapshot =
      (p.schedule now).2.operationsAt snapshot := by
    rw [reschedule]
    dsimp only
    rw [announce_snd]
    rfl
  have hdispatch : (p.reschedule now events).1.dispatch = (p.schedule now).1 :=
    dispatch_announce _ _
  rw [hannounced, hdispatch, schedule_snd h, operationsAt_mapOperations]

/-- A commit takes the holds of the queued operations that it finishes, and no others. -/
theorem ofOperation_holds_changeQueue (h : p.IsSettled) (c : Commit) (id : Identity) :
    (p.changeQueue c).2.holds.ofOperation id =
      if id ∈ p.ids ∧ c.retires id = true then .empty else p.holds.ofOperation id := by
  have hfinished : id ∈ (p.mapOperations (p.edited c)).finishedIds ↔
      id ∈ p.ids ∧ c.retires id = true := by
    rw [mem_finishedIds, operations_mapOperations]
    constructor
    · rintro ⟨op, hop, hterminal, rfl⟩
      obtain ⟨old, hold, rfl⟩ := List.mem_map.1 hop
      rw [isTerminal_edited (h.unfinished old hold)] at hterminal
      rw [(keepsPlace_edited p c).id]
      exact ⟨List.mem_map_of_mem hold, hterminal⟩
    · rintro ⟨hid, hretires⟩
      obtain ⟨old, hold, rfl⟩ := List.mem_map.1 hid
      refine ⟨_, List.mem_map_of_mem hold, ?_, (keepsPlace_edited p c).id old⟩
      rw [isTerminal_edited (h.unfinished old hold)]
      exact hretires
  rw [holds_changeQueue h.nodup_ids, HoldTable.ofOperation_foldl_remove]
  exact if_congr hfinished rfl rfl

/-- After any run and for every commit, the queue is at each snapshot what the description says,
with what is handed out marked; a graph is there exactly if it has operations, no identity is
queued twice, and holds are lost with the operations that the commit finishes. -/
theorem applyCommit_eq_queueAfter {allowed : Pipeline → Action → Prop} (h : Reachable allowed p)
    (hc : c.Built) (now : Instant) (snapshot : Snapshot) :
    (p.applyCommit c now).2.operationsAt snapshot = (p.queueAfter c snapshot).map
        (Operation.activate ((p.applyCommit c now).1.dispatch.map (·.id))) ∧
      ((p.applyCommit c now).2.graphs.get? snapshot = none ↔ p.queueAfter c snapshot = []) ∧
      (p.applyCommit c now).2.ids.Nodup ∧
      ∀ id, (p.applyCommit c now).2.holds.ofOperation id =
        if id ∈ p.ids ∧ c.retires id = true then .empty else p.holds.ofOperation id := by
  have hsettled := h.isSettled
  have hchanged := (hsettled.changeQueue c).nodup_ids
  have hafter := hsettled.applyCommit c now
  have hqueue : (p.applyCommit c now).2.operationsAt snapshot = (p.queueAfter c snapshot).map
      (Operation.activate ((p.applyCommit c now).1.dispatch.map (·.id))) := by
    rw [← operationsAt_changeQueue_eq_queueAfter hsettled hc.isConsistent]
    exact operationsAt_reschedule hchanged now _ snapshot
  refine ⟨hqueue, ?_, hafter.nodup_ids, fun id => ?_⟩
  · rw [hafter.get?_eq_none_iff, hqueue, List.map_eq_nil_iff]
  · rw [← ofOperation_holds_changeQueue hsettled]
    exact congrArg (·.ofOperation id) (holds_reschedule hchanged now _)

/-- A queue of three operations, of which the second waits for the first. -/
def threeRun : List Action :=
  let first := Operation.new (.ofNat 1)
  let second := (Operation.new (.ofNat 2)).addDependency first.id
  [.apply ((Commit.new 1).stageAll [.add first, .add second, .add (.new (.ofNat 3))]) ⟨0, 0⟩]

/-- A commit that finishes the first operation, lets the second wait for it and for an unknown one,
brings the third again, and puts a new operation into two graphs. -/
def mixedCommit : Commit :=
  let second := (Operation.new (.ofNat 2)).setDependencies [.ofNat 1, .ofNat 9]
  let fourth := (Operation.new (.ofNat 4)).setDependencies [.ofNat 1, .ofNat 3, .ofNat 9]
  (Commit.new 2).stageAll [.status (.ofNat 1) .completed, .modify second, .insert fourth 1,
    .insert fourth 7, .add (.new (.ofNat 3)), .add (.new (.ofNat 5)),
    .status (.ofNat 5) .skipped]

/-- The new operation comes behind the survivors of the earlier graph, and no graph is made for its
copy. A modified operation may still wait for the one that is finished, a new one may not. -/
theorem applyCommit_mixed :
    (((threeRun.foldl perform (.new "main" .commit)).applyCommit mixedCommit ⟨0, 0⟩).2.operationsAt
        1).map (fun op => (op.id, op.dependencies.toList)) =
      [(.ofNat 2, [.ofNat 1]), (.ofNat 3, []), (.ofNat 4, [.ofNat 3])] ∧
    ((threeRun.foldl perform (.new "main" .commit)).applyCommit mixedCommit ⟨0, 0⟩).2.graphs.get?
      7 = none := by
  have hreachable := (Reachable.new "main" .commit).foldl (fun _ _ => trivial) threeRun
  have hbuilt : mixedCommit.Built := (Commit.Built.new 2).stageAll _
  refine ⟨?_, ?_⟩
  · rw [(applyCommit_eq_queueAfter hreachable hbuilt ⟨0, 0⟩ 1).1]
    decide +kernel
  · rw [(applyCommit_eq_queueAfter hreachable hbuilt ⟨0, 0⟩ 7).2.1]
    decide +kernel

end Pipeline

end OperationQueue
