/-
# One graph at a time

Under the commit algorithm a pass starts operations of the first graph only, so nothing runs in a
later graph before the earlier ones are drained. A pass looks at the queue as it is, and a commit
may put an operation into an earlier graph at any time, also into one that was drained before. What
runs then goes on running behind it. This is the only way in which two graphs come to be at work at
once, as long as operations are started by passes alone: every other request keeps the exclusion,
and so does every commit that lets nobody join in front of an operation that runs on.
-/
import OperationQueue.Proofs.Pipeline.HandingOut

namespace OperationQueue

namespace Pipeline

variable {p q : Pipeline} {c : Commit} {action : Action} {events : List Event}
  {pass : Option Instant} {now : Instant}

/-- No operation of a later graph runs while an earlier graph has an operation that has not
finished. -/
def IsExclusive (p : Pipeline) : Prop :=
  ∀ s t, s < t → (∃ op ∈ p.operationsAt s, op.isTerminal = false) →
    ∀ op ∈ p.operationsAt t, op.status ≠ .active

/-- A request of a run without restarts in which only passes start operations: it neither marks an
operation as running nor commits that status. -/
def Action.StartsByPass : Action → Prop
  | .setActive _ | .restore _ => False
  | .apply c _ =>
      (∀ e ∈ c.statuses.entries, e.2 ≠ .active) ∧ ∀ op ∈ c.newOperations, op.effectiveStatus ≠ .active
  | _ => True

/-- A commit lets an operation join an earlier graph than that of an operation that runs, and goes
on running. -/
def Overtakes (p : Pipeline) : Action → Prop
  | .apply c _ => ∃ op ∈ (p.changeQueue c).2.operations, op.id ∉ (p.remaining c).ids ∧
      ∃ running ∈ (p.remaining c).operations, running.status = .active ∧
        op.snapshot < running.snapshot
  | _ => False

/-! ## Exclusion in a settled queue -/

/-- In a settled queue, where nothing has finished, exclusion says that whatever runs stands in the
first graph. -/
theorem isExclusive_iff (h : p.IsSettled) :
    p.IsExclusive ↔ ∀ running ∈ p.operations, running.status = .active →
      ∀ op ∈ p.operations, running.snapshot ≤ op.snapshot := by
  constructor
  · intro hexclusive running hrunning hactive op hop
    obtain ⟨t, hrunning⟩ := mem_operations_iff.1 hrunning
    obtain ⟨s, hat⟩ := mem_operations_iff.1 hop
    rw [h.snapshot_operation hrunning, h.snapshot_operation hat]
    by_contra hlater
    exact hexclusive s t (UInt64.not_le.1 hlater) ⟨op, hat, h.unfinished op hop⟩ running hrunning
      hactive
  · rintro hfirst s t hlt ⟨op, hop, -⟩ running hrunning hactive
    have hle := hfirst running (mem_operations_iff.2 ⟨t, hrunning⟩) hactive op
      (mem_operations_iff.2 ⟨s, hop⟩)
    rw [h.snapshot_operation hrunning, h.snapshot_operation hop] at hle
    exact absurd hlt (UInt64.not_lt.2 hle)

/-- Exclusion is kept where operations stay in their graphs, or leave, and none is started. -/
theorem IsExclusive.of_forall (hp : p.IsSettled) (hq : q.IsSettled) (h : p.IsExclusive)
    (hold : ∀ op ∈ q.operations, ∃ old ∈ p.operations, old.snapshot = op.snapshot ∧
      (op.status = .active → old.status = .active)) : q.IsExclusive := by
  rw [isExclusive_iff hq]
  intro running hrunning hactive op hop
  obtain ⟨oldRunning, hmem, hsnapshot, hwas⟩ := hold running hrunning
  obtain ⟨old, holdmem, hsnapshot', -⟩ := hold op hop
  rw [← hsnapshot, ← hsnapshot']
  exact (isExclusive_iff hp).1 h oldRunning hmem (hwas hactive) old holdmem

/-! ## Passes -/

/-- Under the commit algorithm a pass chooses operations of the first graph. -/
theorem snapshot_le_of_mem_chosen (h : p.IsSettled) (hcommit : p.algorithm = .commit)
    {op other : Operation} (hop : op ∈ p.chosen now) (hother : other ∈ p.operations) :
    op ∈ p.operations ∧ op.snapshot ≤ other.snapshot := by
  rw [chosen] at hop
  split at hop
  · cases hop
  · obtain ⟨place, hplace, rfl⟩ := List.mem_map.1 hop
    obtain ⟨hmem, hready⟩ := mem_readyPlaces_iff.1 (List.mem_of_mem_take hplace)
    refine ⟨mem_operations_of_mem_places hmem, ?_⟩
    obtain ⟨g, hg, hget⟩ := mem_places_iff.1 hmem
    have hat : place.operation ∈ p.operationsAt place.snapshot := by
      rw [operationsAt_of_get? hg]
      exact List.mem_of_getElem? hget
    rw [operations_eq_flatMap, List.mem_flatMap] at hother
    obtain ⟨s, hs, hotherAt⟩ := hother
    rw [h.snapshot_operation hat, h.snapshot_operation hotherAt]
    exact hready.oldest hcommit s hs

/-- A pass neither brings exclusion about nor breaks it. -/
theorem isExclusive_schedule_iff (h : p.IsSettled) (hcommit : p.algorithm = .commit)
    (now : Instant) : (p.schedule now).2.IsExclusive ↔ p.IsExclusive := by
  have hpassed : (p.schedule now).2 = p.afterStarts now := congrArg Prod.snd (schedule_eq h now)
  have hoperations : (p.schedule now).2.operations =
      p.operations.map (Operation.activate ((p.chosen now).map (·.id))) := by
    rw [hpassed, afterStarts, operations_mapOperations]
  have hsnapshot := (Operation.keepsPlace_activate ((p.chosen now).map (·.id))).snapshot
  rw [isExclusive_iff (h.schedule now), isExclusive_iff h, hoperations]
  simp only [List.forall_mem_map, hsnapshot]
  constructor
  · intro hfirst running hrunning hactive
    refine hfirst running hrunning ?_
    rw [Operation.activate]
    split
    · rfl
    · exact hactive
  · intro hfirst running hrunning hactive op hop
    rw [Operation.activate] at hactive
    split at hactive
    · next hstarted =>
      obtain ⟨chosen, hchosen, hid⟩ := List.mem_map.1 hstarted
      obtain ⟨hmem, hle⟩ := snapshot_le_of_mem_chosen h hcommit hchosen hop
      rwa [List.inj_on_of_nodup_map h.nodup_ids hmem hrunning hid] at hle
    · exact hfirst running hrunning hactive op hop

/-- Closing a change leaves the graphs that are at work. -/
theorem isExclusive_close_iff (h : q.IsSettled) (hcommit : q.algorithm = .commit)
    (events : List Event) (pass : Option Instant) :
    (q.close events pass).2.IsExclusive ↔ q.IsExclusive := by
  have hannounced (r : Pipeline) (dispatch : List Operation) :
      (r.announce dispatch events).2.IsExclusive ↔ r.IsExclusive := by
    rw [announce_snd]
    rfl
  cases pass with
  | none => exact hannounced q []
  | some now => exact (hannounced _ _).trans (isExclusive_schedule_iff h hcommit now)

/-! ## Commits -/

/-- What is queued after a commit remained of the queue, or is new and was not queued. -/
theorem mem_operations_changeQueue_cases (h : p.IsSettled) :
    (∀ op ∈ (p.remaining c).operations, op ∈ (p.changeQueue c).2.operations) ∧
      ∀ op ∈ (p.changeQueue c).2.operations, op ∈ (p.remaining c).operations ∨
        op.id ∉ (p.remaining c).ids ∧ ∃ new ∈ c.newOperations, op.status = new.effectiveStatus := by
  rw [changeQueue_snd h.nodup_ids, operations_relink]
  -- what remains never leaves again, so who joins is not among it
  have hjoined : ((newItems c).foldl (enqueued c) (p.remaining c)).IsReaped ∧
      (∀ op ∈ (p.remaining c).operations,
        op ∈ ((newItems c).foldl (enqueued c) (p.remaining c)).operations) ∧
      ∀ op ∈ ((newItems c).foldl (enqueued c) (p.remaining c)).operations,
        op ∈ (p.remaining c).operations ∨
        op.id ∉ (p.remaining c).ids ∧ ∃ new ∈ c.newOperations, op.status = new.effectiveStatus := by
    apply List.foldlRecOn (newItems c) (enqueued c)
      (motive := fun q => q.IsReaped ∧ (∀ op ∈ (p.remaining c).operations, op ∈ q.operations) ∧
        ∀ op ∈ q.operations, op ∈ (p.remaining c).operations ∨
          op.id ∉ (p.remaining c).ids ∧ ∃ new ∈ c.newOperations, op.status = new.effectiveStatus)
      ⟨isReaped_remaining h c, fun op hop => hop, fun op hop => .inl hop⟩
    rintro q ⟨hq, hkept, hcases⟩ item hitem
    refine ⟨hq.enqueued c item, fun op hop => mem_operations_enqueued hq.toIsFiled (hkept op hop) item,
      ?_⟩
    rw [enqueued]
    split
    · exact hcases
    · next hjoins =>
      intro op hop
      rw [(operations_pushAt_perm hq.toIsFiled _ _).mem_iff, List.mem_cons] at hop
      rcases hop with rfl | hop
      · have hnew : item.2 ∈ c.newOperations := map_snd_newItems c ▸ List.mem_map_of_mem hitem
        refine .inr ⟨fun hmem => (not_or.1 hjoins).1 (isQueued_iff.2 ?_), item.2, hnew, rfl⟩
        obtain ⟨old, hold, hid⟩ := List.mem_map.1 hmem
        exact hid ▸ List.mem_map_of_mem (hkept old hold)
      · exact hcases op hop
  exact hjoined.2

/-- Who runs after the edits of a commit that makes nobody run, ran before in the same graph. -/
theorem exists_of_mem_remaining (h : p.IsSettled)
    (hstatuses : ∀ e ∈ c.statuses.entries, e.2 ≠ .active) {op : Operation}
    (hop : op ∈ (p.remaining c).operations) :
    ∃ old ∈ p.operations, old.snapshot = op.snapshot ∧
      (op.status = .active → old.status = .active) := by
  rw [remaining, mem_operations_reap, operations_mapOperations] at hop
  obtain ⟨old, hold, rfl⟩ := List.mem_map.1 hop.1
  refine ⟨old, hold, ((keepsPlace_edited p c).snapshot old).symm, fun hactive => ?_⟩
  have hmodified : (old.modified (p.knows c) c.modified).isTerminal = false := by
    rw [Operation.isTerminal_modified, h.unfinished old hold]
  have hid := (Operation.keepsPlace_modified (p.knows c) c.modified).id old
  rw [edited, Operation.moved_entries _ hmodified, hid, Operation.status_modified] at hactive
  cases hstatus : c.statuses.get? old.id with
  | none => rwa [hstatus] at hactive
  | some next =>
      rw [hstatus] at hactive
      exact absurd hactive (hstatuses _ (OrderedMap.get?_eq_some_iff.1 hstatus))

/-- A commit that makes nobody run keeps exclusion exactly if nobody joins in front of an operation
that runs on. -/
theorem IsExclusive.changeQueue_iff (hp : p.IsSettled) (h : p.IsExclusive)
    (haction : (Action.apply c now).StartsByPass) :
    (p.changeQueue c).2.IsExclusive ↔ ¬ p.Overtakes (.apply c now) := by
  obtain ⟨hstatuses, hnew⟩ := haction
  obtain ⟨hkept, hcases⟩ := mem_operations_changeQueue_cases (c := c) hp
  have hruns {op : Operation} (hop : op ∈ (p.changeQueue c).2.operations)
      (hactive : op.status = .active) : op ∈ (p.remaining c).operations := by
    rcases hcases op hop with hremains | ⟨-, new, hmem, hstatus⟩
    · exact hremains
    · exact absurd (hstatus.symm.trans hactive) (hnew new hmem)
  rw [isExclusive_iff (hp.changeQueue c)]
  constructor
  · rintro hfirst ⟨op, hop, -, running, hrunning, hactive, hlt⟩
    exact UInt64.not_lt.2 (hfirst running (hkept running hrunning) hactive op hop) hlt
  · intro hovertakes running hrunning hactive op hop
    have hrunning := hruns hrunning hactive
    rcases hcases op hop with hremains | ⟨hjoins, -⟩
    · obtain ⟨oldRunning, hmem, hsnapshot, hwas⟩ := exists_of_mem_remaining hp hstatuses hrunning
      obtain ⟨old, hold, hsnapshot', -⟩ := exists_of_mem_remaining hp hstatuses hremains
      rw [← hsnapshot, ← hsnapshot']
      exact (isExclusive_iff hp).1 h oldRunning hmem (hwas hactive) old hold
    · by_contra hle
      exact hovertakes ⟨op, hop, hjoins, running, hrunning, hactive, UInt64.not_le.1 hle⟩

/-! ## Requests and runs -/

theorem Action.StartsByPass.goesOn (h : action.StartsByPass) : action.GoesOn := by
  cases action <;> trivial

/-- A change keeps exclusion unless it overtakes. -/
theorem Changes.isExclusive_iff (hchange : Changes p action q events pass) (hp : p.IsSettled)
    (h : p.IsExclusive) (haction : action.StartsByPass) :
    q.IsExclusive ↔ ¬ p.Overtakes action := by
  cases hchange with
  | apply c now => exact h.changeQueue_iff hp haction
  | setActive _ => exact haction.elim
  | setPending now _ =>
      refine iff_of_true ?_ id
      refine h.of_forall hp (hp.moveTo _ rfl) fun op hop => ?_
      rw [moveTo, update_eq_mapOperations hp.nodup_ids, operations_mapOperations] at hop
      obtain ⟨old, hold, rfl⟩ := List.mem_map.1 hop
      refine ⟨old, hold, by split <;> rfl, fun hactive => ?_⟩
      split at hactive
      · cases hactive
      · exact hactive
  | setHold context date _ _ => exact iff_of_true h id
  | suspend _ => exact iff_of_true h id
  | resume _ _ => exact iff_of_true h id
  | resumeLast _ => exact iff_of_true h id
  | setLimit limit _ => exact iff_of_true h id
  | recheck _ => exact iff_of_true h id

theorem Changes.algorithm_eq (hchange : Changes p action q events pass) (hp : p.ids.Nodup) :
    q.algorithm = p.algorithm := by
  cases hchange with
  | apply c now =>
      obtain ⟨graphs, holds, heq⟩ := exists_changeQueue_eq hp c
      rw [heq]
  | _ => rfl

/-- So does a request. -/
theorem IsExclusive.perform_iff (hp : p.IsSettled) (hcommit : p.algorithm = .commit)
    (h : p.IsExclusive) (haction : action.StartsByPass) :
    (p.perform action).IsExclusive ↔ ¬ p.Overtakes action := by
  have hclosed {q : Pipeline} {events : List Event} {pass : Option Instant}
      (hchange : Changes p action q events pass) :
      (q.close events pass).2.IsExclusive ↔ ¬ p.Overtakes action := by
    rw [isExclusive_close_iff (hchange.isSettled hp)
      ((hchange.algorithm_eq hp.nodup_ids).trans hcommit)]
    exact hchange.isExclusive_iff hp h haction
  cases action with
  | apply c now =>
      have heq : p.respond (.apply c now) =
          (p.changeQueue c).2.close (p.changeQueue c).1 (some now) := rfl
      rw [← respond_snd, heq]
      exact hclosed (.apply c now)
  | _ =>
      rw [← respond_snd]
      rcases respond_cases (p := p) haction.goesOn with heq | ⟨q, events, pass, hchange, heq⟩
      · rw [heq]
        exact iff_of_true h id
      · rw [heq]
        exact hclosed hchange

/-- A run from a queue with exclusion keeps it in every state exactly if no request overtakes. -/
theorem IsExclusive.foldl_iff (hp : p.IsSettled) (hcommit : p.algorithm = .commit)
    (h : p.IsExclusive) {actions : List Action} (hactions : ∀ action ∈ actions, action.StartsByPass) :
    (∀ before, before <+: actions → (before.foldl perform p).IsExclusive) ↔
      ¬ Sometime (fun p action _ => p.Overtakes action) p actions := by
  induction actions generalizing p with
  | nil =>
      refine iff_of_true (fun before hbefore => ?_) id
      rw [List.prefix_nil.1 hbefore]
      exact h
  | cons action rest ih =>
      have hstep := h.perform_iff hp hcommit (hactions action List.mem_cons_self)
      have hafter (hkept : (p.perform action).IsExclusive) :=
        ih (hp.perform action) ((sameSetup_perform hp action).algorithm.trans hcommit) hkept
          fun later hlater => hactions later (List.mem_cons_of_mem _ hlater)
      rw [Sometime, not_or]
      constructor
      · intro hall
        have hkept : (p.perform action).IsExclusive :=
          hall [action] (List.prefix_append [action] rest)
        refine ⟨hstep.1 hkept, (hafter hkept).1 fun before hbefore => ?_⟩
        exact hall (action :: before) (List.cons_prefix_cons.2 ⟨rfl, hbefore⟩)
      · rintro ⟨hnow, hlater⟩ before hbefore
        cases before with
        | nil => exact h
        | cons first before =>
            obtain ⟨rfl, hrest⟩ := List.cons_prefix_cons.1 hbefore
            exact (hafter (hstep.2 hnow)).2 hlater before hrest

/-- In a run without restarts in which only passes start operations, no state has an operation
running in a later graph while an earlier graph is not finished, exactly if no commit of the run
lets an operation join an earlier graph than that of an operation that runs on. -/
theorem isExclusive_foldl_iff (name : String) {actions : List Action}
    (hactions : ∀ action ∈ actions, action.StartsByPass) :
    (∀ before, before <+: actions → (before.foldl perform (.new name .commit)).IsExclusive) ↔
      ¬ Sometime (fun p action _ => p.Overtakes action) (.new name .commit) actions := by
  have hempty : (Pipeline.new name .commit).IsExclusive :=
    fun s t _ hearlier => by simp [Pipeline.new, operationsAt] at hearlier
  exact hempty.foldl_iff (isSettled_new name .commit) rfl hactions

/-! ## Two runs -/

instance : DecidablePred Action.StartsByPass
  | .setActive _ | .restore _ => .isFalse id
  | .apply c _ => inferInstanceAs (Decidable ((∀ e ∈ c.statuses.entries, e.2 ≠ .active) ∧
      ∀ op ∈ c.newOperations, op.effectiveStatus ≠ .active))
  | .setPending _ _ | .setHold _ _ _ _ | .suspend _ | .resume _ | .setLimit _ _ | .recheck _ =>
      .isTrue trivial

instance (p : Pipeline) : DecidablePred p.Overtakes
  | .apply c _ => inferInstanceAs (Decidable (∃ op ∈ (p.changeQueue c).2.operations,
      op.id ∉ (p.remaining c).ids ∧ ∃ running ∈ (p.remaining c).operations,
        running.status = .active ∧ op.snapshot < running.snapshot))
  | .setActive _ | .setPending _ _ | .setHold _ _ _ _ | .suspend _ | .resume _ | .setLimit _ _
  | .recheck _ | .restore _ => .isFalse id

/-- Requests after which two graphs are queued. An operation was inserted into the first of them
while it was at work, and the one that runs has been returned to waiting and started again. -/
def stragglerRun : List Action :=
  let first := Operation.new (.ofNat 1)
  let second := Operation.new (.ofNat 2)
  let straggler := Operation.new (.ofNat 3)
  [.apply ((Commit.new 1).add first) ⟨0, 0⟩, .apply ((Commit.new 2).add second) ⟨0, 0⟩,
    .apply ((Commit.new 3).insert straggler 1) ⟨0, 0⟩,
    .apply ((Commit.new 4).setStatus first.id .completed) ⟨0, 0⟩,
    .setLimit 1 ⟨0, 0⟩, .setPending straggler.id ⟨0, 0⟩]

/-- Nobody joined in front of an operation that ran on, so one graph was at work at a time. -/
theorem isExclusive_stragglerRun :
    (∀ action ∈ stragglerRun, action.StartsByPass) ∧
      (∀ before, before <+: stragglerRun →
        (before.foldl perform (.new "main" .commit)).IsExclusive) ∧
      (stragglerRun.foldl perform (.new "main" .commit)).operations.map (fun op =>
          (op.id, op.status)) = [(.ofNat 3, .active), (.ofNat 2, .pending)] := by
  have hactions : ∀ action ∈ stragglerRun, action.StartsByPass := by decide +kernel
  refine ⟨hactions, (isExclusive_foldl_iff "main" hactions).2 ?_, by decide +kernel⟩
  simp only [stragglerRun, Sometime, not_or]
  decide +kernel

/-- Requests by which the first graph is drained, and used again while the second one is at work. -/
def reopeningRun : List Action :=
  let first := Operation.new (.ofNat 1)
  let second := Operation.new (.ofNat 2)
  let straggler := Operation.new (.ofNat 3)
  [.apply ((Commit.new 1).add first) ⟨0, 0⟩, .apply ((Commit.new 2).add second) ⟨0, 0⟩,
    .apply ((Commit.new 3).setStatus first.id .completed) ⟨0, 0⟩,
    .apply ((Commit.new 4).insert straggler 1) ⟨0, 0⟩]

/-- No request marks an operation as running, and in the end one runs in each graph. -/
theorem not_isExclusive_reopeningRun :
    (∀ action ∈ reopeningRun, action.StartsByPass) ∧
      ¬ (reopeningRun.foldl perform (.new "main" .commit)).IsExclusive := by
  refine ⟨by decide +kernel, fun hexclusive => ?_⟩
  have hsecond : ∃ op ∈ (reopeningRun.foldl perform (.new "main" .commit)).operationsAt 2,
      op.status = .active := by
    decide +kernel
  obtain ⟨op, hop, hactive⟩ := hsecond
  exact hexclusive 1 2 (by decide) (by decide +kernel) op hop hactive

end Pipeline

end OperationQueue
