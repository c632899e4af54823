/-
# What is true of a pipeline at every moment

A settled queue is most of it. Two more facts are kept by every request: no queued operation
waits for itself, as long as no operation that comes from outside does, and what was announced
last about being active is what is true. Taken together they describe the state of a pipeline
between any two requests, whatever the requests were.
-/
import OperationQueue.Proofs.Pipeline.Controlling
import OperationQueue.Proofs.Pipeline.Readiness

namespace OperationQueue

namespace Pipeline

variable {p q : Pipeline} {c : Commit}

/-- A request whose operations can be made. Otherwise any commit that can be staged and any
records are allowed. -/
def Action.IsMade : Action → Prop
  | .apply c _ => c.Made
  | .restore records => ∀ r ∈ records, r.operation.Made
  | _ => True

/-- The state of a pipeline between two requests. -/
structure IsIntact (p : Pipeline) : Prop where
  operations_ne_nil : ∀ {snapshot g}, p.graphs.get? snapshot = some g → g.operations ≠ []
  snapshot_graph : ∀ {snapshot g}, p.graphs.get? snapshot = some g → g.snapshot = snapshot
  snapshot_operation : ∀ {snapshot g}, p.graphs.get? snapshot = some g →
    ∀ op ∈ g.operations, op.snapshot = snapshot
  nodup_ids : (p.operations.map (·.id)).Nodup
  pending_or_active : ∀ op ∈ p.operations, op.status = .pending ∨ op.status = .active
  unstaged : ∀ op ∈ p.operations, op.staged = none
  not_self : ∀ op ∈ p.operations, op.id ∉ op.dependencies.toList
  previous_of_flat : p.algorithm = .flat → ∀ {snapshot g}, p.graphs.get? snapshot = some g →
    ∀ before, g.previous = some before ↔ before ∈ p.graphs.keys ∧ before < snapshot ∧
      ∀ s ∈ p.graphs.keys, s < snapshot → s ≤ before
  previous_of_commit : p.algorithm = .commit → ∀ {snapshot g},
    p.graphs.get? snapshot = some g → g.previous = none
  held : ∀ {id holds}, p.holds.byOperation.get? id = some holds →
    holds.isEmpty = false ∧ ∃ op ∈ p.operations, op.id = id
  activeFlag_eq : p.activeFlag = p.isActive

/-! ## Links -/

/-- The snapshot before another is the largest of those that are smaller. -/
theorem precedingSnapshot?_eq_some_iff {snapshot before : Snapshot} :
    p.precedingSnapshot? snapshot = some before ↔ before ∈ p.graphs.keys ∧ before < snapshot ∧
      ∀ s ∈ p.graphs.keys, s < snapshot → s ≤ before := by
  constructor
  · exact precedingSnapshot?_eq_some
  · rintro ⟨hbefore, hlt, hlargest⟩
    cases hfound : p.precedingSnapshot? snapshot with
    | none => exact absurd hlt (precedingSnapshot?_eq_none hfound before hbefore)
    | some found =>
        obtain ⟨hmem, hfoundLt, hfoundLargest⟩ := precedingSnapshot?_eq_some hfound
        rw [UInt64.le_antisymm (hlargest found hmem hfoundLt) (hfoundLargest before hbefore hlt)]

/-! ## Nobody waits for itself -/

theorem SameQueue.forall_made (h : SameQueue p q) (hmade : ∀ op ∈ p.operations, op.Made) :
    ∀ op ∈ q.operations, op.Made := by
  obtain ⟨f, hf, hq⟩ := h.operations_eq
  intro op hop
  rw [hq] at hop
  obtain ⟨old, hold, rfl⟩ := List.mem_map.1 hop
  exact (hmade old hold).of_eq (hf.id old) (hf.dependencies old)

/-- A modification brings the dependencies of an operation with the same identity. -/
theorem made_edited (hc : c.AllMade) {old : Operation} (hold : old.Made) :
    (p.edited c old).Made := by
  have hid := (keepsPlace_edited p c).id old
  have hdependencies : (p.edited c old).dependencies =
      (old.modified (p.knows c) c.modified).dependencies := Operation.dependencies_moved _ _
  rcases old.dependencies_modified (p.knows c) c.modified with ⟨-, hsame⟩ | ⟨m, hm, hmid, hdeps⟩
  · exact hold.of_eq hid (hdependencies.trans hsame)
  · exact ((hc.modified m hm).retainDependencies (p.knows c)).of_eq (hid.trans hmid.symm)
      (hdependencies.trans hdeps)

theorem forall_made_enqueued (h : p.IsReaped) (hmade : ∀ op ∈ p.operations, op.Made)
    {item : Snapshot × Operation} (hitem : item.2.Made) :
    ∀ op ∈ (p.enqueued c item).operations, op.Made := by
  rw [enqueued]
  split
  · exact hmade
  · intro op hop
    rw [(operations_pushAt_perm h.toIsFiled _ _).mem_iff, List.mem_cons] at hop
    rcases hop with rfl | hop
    · have happlied : item.2.applyStaged.Made := hitem.of_eq rfl rfl
      exact (happlied.retainDependencies (p.knows c)).of_eq rfl rfl
    · exact hmade op hop

theorem forall_made_changeQueue (h : p.IsSettled) (hmade : ∀ op ∈ p.operations, op.Made)
    (hc : c.AllMade) : ∀ op ∈ (p.changeQueue c).2.operations, op.Made := by
  have hremaining : ∀ op ∈ (p.remaining c).operations, op.Made := by
    intro op hop
    rw [remaining, mem_operations_reap, operations_mapOperations] at hop
    obtain ⟨old, hold, rfl⟩ := List.mem_map.1 hop.1
    exact made_edited hc (hmade old hold)
  have hjoined : ((newItems c).foldl (enqueued c) (p.remaining c)).IsReaped ∧
      ∀ op ∈ ((newItems c).foldl (enqueued c) (p.remaining c)).operations, op.Made := by
    apply List.foldlRecOn (newItems c) (enqueued c)
      (motive := fun q => q.IsReaped ∧ ∀ op ∈ q.operations, op.Made)
      ⟨isReaped_remaining h c, hremaining⟩
    intro q hq item hitem
    have hnew : item.2 ∈ c.newOperations := map_snd_newItems c ▸ List.mem_map_of_mem hitem
    exact ⟨hq.1.enqueued c item, forall_made_enqueued hq.1 hq.2 (hc.new _ hnew)⟩
  rw [changeQueue_snd h.nodup_ids, operations_relink]
  exact hjoined.2

theorem forall_made_restore {records : List StoredOperation}
    (hrecords : ∀ r ∈ records, r.operation.Made) :
    ∀ op ∈ (p.restore records).2.operations, op.Made := by
  intro op hop
  obtain ⟨r, hr, rfl⟩ := mem_operations_restore.1 hop
  obtain ⟨old, hold, heq⟩ := exists_of_mem_restorable hr
  rw [heq]
  exact (hrecords old hold).of_eq rfl rfl

/-- No request makes an operation wait for itself. -/
theorem forall_made_perform (h : p.IsSettled) (hmade : ∀ op ∈ p.operations, op.Made)
    {action : Action} (haction : action.IsMade) :
    ∀ op ∈ (p.perform action).operations, op.Made := by
  have hkeeps (hkeeps : action.KeepsQueue) : ∀ op ∈ (p.perform action).operations, op.Made :=
    (sameQueue_perform h.nodup_ids hkeeps).forall_made hmade
  cases action with
  | apply c now =>
      have hpass : SameQueue (p.changeQueue c).2 (p.applyCommit c now).2 :=
        sameQueue_reschedule (h.changeQueue c).nodup_ids now _
      exact hpass.forall_made (forall_made_changeQueue h hmade haction.allMade)
  | restore records => exact forall_made_restore haction
  | setActive id => exact hkeeps trivial
  | setPending id now => exact hkeeps trivial
  | setHold id context date now => exact hkeeps trivial
  | suspend increment => exact hkeeps trivial
  | resume now => exact hkeeps trivial
  | setLimit limit now => exact hkeeps trivial
  | recheck now => exact hkeeps trivial

/-! ## What was announced last -/

theorem activeFlag_announce (dispatch : List Operation) (events : List Event) :
    (p.announce dispatch events).2.activeFlag = (p.announce dispatch events).2.isActive := by
  rw [announce_snd]
  rfl

theorem activeFlag_reschedule (now : Instant) (events : List Event) :
    (p.reschedule now events).2.activeFlag = (p.reschedule now events).2.isActive :=
  activeFlag_announce _ _

/-- Every request that changes something announces afterwards, and a restored pipeline counts as
announced. -/
theorem activeFlag_perform (hflag : p.activeFlag = p.isActive) (action : Action) :
    (p.perform action).activeFlag = (p.perform action).isActive := by
  by_cases haction : action.KeepsQueue
  · rcases perform_cases (p := p) haction with heq | ⟨q, -, ⟨events, heq⟩ | ⟨now, events, heq⟩⟩
    · rw [heq]
      exact hflag
    · rw [heq]
      exact activeFlag_announce _ _
    · rw [heq]
      exact activeFlag_reschedule now _
  · cases action with
    | apply c now => exact activeFlag_reschedule now _
    | restore records => rfl
    | _ => exact absurd trivial haction

/-! ## The state after a run -/

theorem IsIntact.of_isSettled (h : p.IsSettled) (hmade : ∀ op ∈ p.operations, op.Made)
    (hflag : p.activeFlag = p.isActive) : p.IsIntact where
  operations_ne_nil := h.operations_ne_nil
  snapshot_graph := h.snapshot_graph
  snapshot_operation hg op hop := h.snapshot_operation (operationsAt_of_get? hg ▸ hop)
  nodup_ids := h.nodup_ids
  pending_or_active op hop := by
    have hunfinished : op.status.isTerminal = false := h.unfinished op hop
    cases hstatus : op.status with
    | pending => exact .inl rfl
    | active => exact .inr rfl
    | completed => rw [hstatus] at hunfinished; cases hunfinished
    | skipped => rw [hstatus] at hunfinished; cases hunfinished
  unstaged := h.unstaged
  not_self op hop := (hmade op hop).not_self
  previous_of_flat hflat _ _ hg before := by
    rw [h.previous_eq hg, if_pos hflat]
    exact precedingSnapshot?_eq_some_iff
  previous_of_commit hcommit _ _ hg := by
    rw [h.previous_eq hg, hcommit]
    rfl
  held hholds := by
    obtain ⟨hne, hid⟩ := h.held hholds
    exact ⟨hne, List.mem_map.1 hid⟩
  activeFlag_eq := hflag

/-- After any run of requests with operations that can be made, a pipeline is intact. -/
theorem Reachable.isIntact (h : Reachable (fun _ action => action.IsMade) p) : p.IsIntact := by
  have hkept : (∀ op ∈ p.operations, op.Made) ∧ p.activeFlag = p.isActive := by
    induction h with
    | new name algorithm => exact ⟨fun _ hop => (nomatch hop), rfl⟩
    | step reached hmade ih =>
        exact ⟨forall_made_perform reached.isSettled ih.1 hmade, activeFlag_perform ih.2 _⟩
  exact .of_isSettled h.isSettled hkept.1 hkept.2

/-- Requests in which much is turned away. Of three records the second repeats an operation and
the third has finished; of three new operations one is queued and one is skipped at once. -/
def crowdedRun : List Action :=
  let first := Operation.new (.ofNat 1)
  let second := (Operation.new (.ofNat 2)).addDependency first.id
  let third := Operation.new (.ofNat 3)
  [.restore [⟨{ first with snapshot := 3, status := .active }, .empty⟩, ⟨first, .empty⟩,
      ⟨{ third with status := .completed }, .empty⟩],
    .apply ((((Commit.new 5).add second).add first |>.add third).setStatus third.id .skipped) ⟨0, 0⟩,
    .setHold second.id "retry" (some ⟨5, 0⟩) ⟨0, 0⟩]

/-- Two operations are queued in the end, in two linked graphs. -/
theorem isIntact_crowdedRun :
    Reachable (fun _ action => action.IsMade) (crowdedRun.foldl perform (.new "main" .flat)) ∧
      (crowdedRun.foldl perform (.new "main" .flat)).IsIntact ∧
      (crowdedRun.foldl perform (.new "main" .flat)).graphs.values.map (fun g =>
        (g.previous, g.operations.map (·.id))) =
          [(none, [Identity.ofNat 1]), (some 3, [Identity.ofNat 2])] := by
  have hfirst : (Operation.new (.ofNat 1)).Made := .new _
  have hsecond : ((Operation.new (.ofNat 2)).addDependency (.ofNat 1)).Made :=
    (Operation.Made.new _).addDependency _
  have hthird : (Operation.new (.ofNat 3)).Made := .new _
  have hreachable :
      Reachable (fun _ action => action.IsMade) (crowdedRun.foldl perform (.new "main" .flat)) := by
    simp only [crowdedRun, List.foldl_cons, List.foldl_nil]
    refine .step (.step (.step (.new _ _) ?_) ?_) trivial
    · intro r hr
      simp only [List.mem_cons, List.not_mem_nil, or_false] at hr
      rcases hr with rfl | rfl | rfl
      · exact hfirst.of_eq rfl rfl
      · exact hfirst
      · exact hthird.of_eq rfl rfl
    · exact ((((Commit.Made.new 5).add hsecond).add hfirst).add hthird).setStatus _ _
  exact ⟨hreachable, hreachable.isIntact, by decide +kernel⟩

end Pipeline

end OperationQueue
