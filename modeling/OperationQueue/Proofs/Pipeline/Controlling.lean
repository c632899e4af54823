/-
# Requests that leave the queue as it is

Only commits and a restart change what is queued. Every other request leaves the same
operations in the same places and may change their statuses. What does not look at
statuses can therefore be carried over all these requests at once.
-/
import OperationQueue.Proofs.Pipeline.Runs

namespace OperationQueue

/-- An edit that changes nothing but the status of an operation. -/
def Operation.OnlyStatus (f : Operation → Operation) : Prop :=
  ∀ op, ∃ next, f op = { op with status := next }

namespace Operation.OnlyStatus

variable {f g : Operation → Operation}

theorem id (h : OnlyStatus f) (op : Operation) : (f op).id = op.id := by
  obtain ⟨next, hnext⟩ := h op
  rw [hnext]

theorem dependencies (h : OnlyStatus f) (op : Operation) :
    (f op).dependencies = op.dependencies := by
  obtain ⟨next, hnext⟩ := h op
  rw [hnext]

theorem comp (hg : OnlyStatus g) (hf : OnlyStatus f) : OnlyStatus (g ∘ f) := by
  intro op
  obtain ⟨next, hnext⟩ := hf op
  obtain ⟨last, hlast⟩ := hg (f op)
  exact ⟨last, by rw [Function.comp_apply, hlast, hnext]⟩

theorem ite (c : Operation → Prop) [DecidablePred c] (next : Status) :
    OnlyStatus fun op => if c op then { op with status := next } else op := by
  intro op
  by_cases hc : c op
  · exact ⟨next, if_pos hc⟩
  · exact ⟨op.status, if_neg hc⟩

end Operation.OnlyStatus

namespace Pipeline

variable {p q r : Pipeline}

/-- Two pipelines queue the same operations in the same places, up to their statuses. -/
def SameQueue (p q : Pipeline) : Prop :=
  ∃ f, Operation.OnlyStatus f ∧ q.graphs = (p.mapOperations f).graphs

theorem SameQueue.of_graphs_eq (h : q.graphs = p.graphs) : SameQueue p q := by
  have hself : p.mapOperations id = p := mapOperations_eq_self fun op _ => rfl
  exact ⟨id, fun op => ⟨op.status, rfl⟩, by rw [hself, h]⟩

theorem SameQueue.refl (p : Pipeline) : SameQueue p p := of_graphs_eq rfl

theorem sameQueue_mapOperations {f : Operation → Operation} (hf : Operation.OnlyStatus f) :
    SameQueue p (p.mapOperations f) := ⟨f, hf, rfl⟩

theorem SameQueue.trans (hpq : SameQueue p q) (hqr : SameQueue q r) : SameQueue p r := by
  obtain ⟨f, hf, hq⟩ := hpq
  obtain ⟨g, hg, hr⟩ := hqr
  refine ⟨g ∘ f, hg.comp hf, ?_⟩
  rw [hr, ← mapOperations_mapOperations]
  simp only [mapOperations] at hq ⊢
  rw [hq]

theorem SameQueue.operationsAt_eq (h : SameQueue p q) :
    ∃ f, Operation.OnlyStatus f ∧
      ∀ snapshot, q.operationsAt snapshot = (p.operationsAt snapshot).map f := by
  obtain ⟨f, hf, hq⟩ := h
  refine ⟨f, hf, fun snapshot => ?_⟩
  rw [← operationsAt_mapOperations, operationsAt, operationsAt, hq]

theorem SameQueue.operations_eq (h : SameQueue p q) :
    ∃ f, Operation.OnlyStatus f ∧ q.operations = p.operations.map f := by
  obtain ⟨f, hf, hq⟩ := h
  refine ⟨f, hf, ?_⟩
  rw [← operations_mapOperations, operations, operations, hq]

theorem SameQueue.ids_eq (h : SameQueue p q) : q.ids = p.ids := by
  obtain ⟨f, hf, hq⟩ := h.operations_eq
  rw [ids, ids, hq, List.map_map]
  exact List.map_congr_left fun op _ => hf.id op

/-! ## Passes -/

theorem onlyStatus_activate (ids : List Identity) : Operation.OnlyStatus (Operation.activate ids) :=
  .ite (·.id ∈ ids) .active

theorem sameQueue_announce (dispatch : List Operation) (events : List Event) :
    SameQueue p (p.announce dispatch events).2 := by
  rw [announce_snd]
  exact .of_graphs_eq rfl

theorem sameQueue_schedule (h : p.ids.Nodup) (now : Instant) :
    SameQueue p (p.schedule now).2 := by
  rw [schedule_snd h]
  exact sameQueue_mapOperations (onlyStatus_activate _)

theorem sameQueue_reschedule (h : p.ids.Nodup) (now : Instant) (events : List Event) :
    SameQueue p (p.reschedule now events).2 :=
  (sameQueue_schedule h now).trans (sameQueue_announce _ events)

theorem sameQueue_moveTo (h : p.ids.Nodup) (id : Identity) (next : Status) :
    SameQueue p (p.moveTo id next) := by
  rw [moveTo, update_eq_mapOperations h]
  exact sameQueue_mapOperations (.ite (·.id = id) next)

/-! ## Requests -/

theorem sameQueue_adjusts (h : p.ids.Nodup) (hq : Adjusts p q) : SameQueue p q := by
  cases hq with
  | status id _ => exact sameQueue_moveTo h id _
  | hold id context date _ => exact .of_graphs_eq rfl
  | count count => exact .of_graphs_eq rfl
  | limit limit => exact .of_graphs_eq rfl
  | nothing => exact .refl p

theorem sameQueue_perform (h : p.ids.Nodup) {action : Action} (haction : action.KeepsQueue) :
    SameQueue p (p.perform action) := by
  rcases perform_cases (p := p) haction with
    heq | ⟨q, hq, ⟨events, heq⟩ | ⟨now, events, heq⟩⟩
  · rw [heq]
    exact .refl p
  · rw [heq]
    exact (sameQueue_adjusts h hq).trans (sameQueue_announce _ _)
  · have hadjusted := sameQueue_adjusts h hq
    rw [heq]
    exact hadjusted.trans (sameQueue_reschedule (hadjusted.ids_eq ▸ h) now _)

/-! ## What no request changes -/

/-- The name and the algorithm are the same. -/
structure SameSetup (p q : Pipeline) : Prop where
  name : q.name = p.name
  algorithm : q.algorithm = p.algorithm

theorem SameSetup.refl (p : Pipeline) : SameSetup p p := ⟨rfl, rfl⟩

theorem SameSetup.trans (hpq : SameSetup p q) (hqr : SameSetup q r) : SameSetup p r :=
  ⟨hqr.name.trans hpq.name, hqr.algorithm.trans hpq.algorithm⟩

theorem sameSetup_announce (dispatch : List Operation) (events : List Event) :
    SameSetup p (p.announce dispatch events).2 := by
  rw [announce_snd]
  exact ⟨rfl, rfl⟩

theorem sameSetup_reschedule (h : p.ids.Nodup) (now : Instant) (events : List Event) :
    SameSetup p (p.reschedule now events).2 := by
  have hscheduled : SameSetup p (p.schedule now).2 := by
    rw [schedule_snd h]
    exact ⟨rfl, rfl⟩
  exact hscheduled.trans (sameSetup_announce _ events)

theorem sameSetup_enqueued (c : Commit) (item : Snapshot × Operation) :
    SameSetup p (p.enqueued c item) := by
  rw [enqueued]
  split
  · exact .refl p
  · exact ⟨rfl, rfl⟩

theorem sameSetup_applyCommit (h : p.IsSettled) (c : Commit) (now : Instant) :
    SameSetup p (p.applyCommit c now).2 := by
  have hremaining : SameSetup p (p.remaining c) := ⟨rfl, rfl⟩
  have hrelinked (q : Pipeline) : SameSetup q q.relink := ⟨rfl, rfl⟩
  have hchanged : SameSetup p (p.changeQueue c).2 := by
    rw [changeQueue_snd h.nodup_ids]
    have henqueued : SameSetup p ((newItems c).foldl (enqueued c) (p.remaining c)) :=
      List.foldlRecOn _ _ hremaining fun q hq item _ => hq.trans (sameSetup_enqueued c item)
    exact henqueued.trans (hrelinked _)
  exact hchanged.trans (sameSetup_reschedule (h.changeQueue c).nodup_ids now _)

theorem sameSetup_restore (p : Pipeline) (records : List StoredOperation) :
    SameSetup p (p.restore records).2 := ⟨rfl, rfl⟩

theorem sameSetup_adjusts (hq : Adjusts p q) : SameSetup p q := by
  cases hq <;> exact ⟨rfl, rfl⟩

theorem sameSetup_perform (h : p.IsSettled) (action : Action) :
    SameSetup p (p.perform action) := by
  by_cases haction : action.KeepsQueue
  · rcases perform_cases (p := p) haction with
      heq | ⟨q, hq, ⟨events, heq⟩ | ⟨now, events, heq⟩⟩
    · rw [heq]
      exact .refl p
    · rw [heq]
      exact (sameSetup_adjusts hq).trans (sameSetup_announce _ _)
    · rw [heq]
      exact (sameSetup_adjusts hq).trans (sameSetup_reschedule (h.adjusts hq).nodup_ids now _)
  · cases action with
    | apply c now => exact sameSetup_applyCommit h c now
    | restore records => exact sameSetup_restore p records
    | _ => exact absurd trivial haction

/-! ## What keeps the holds -/

theorem holds_announce (dispatch : List Operation) (events : List Event) :
    (p.announce dispatch events).2.holds = p.holds := by
  rw [announce_snd]

theorem holds_reschedule (h : p.ids.Nodup) (now : Instant) (events : List Event) :
    (p.reschedule now events).2.holds = p.holds := by
  have hannounced : (p.reschedule now events).2.holds = (p.schedule now).2.holds := by
    rw [reschedule]
    exact holds_announce _ _
  rw [hannounced, schedule_snd h, holds_mapOperations]

/-- A request that changes neither what is queued nor what is held. -/
def Action.IsControl : Action → Prop
  | .apply _ _ | .restore _ | .setHold _ _ _ _ => False
  | _ => True

theorem Action.IsControl.keepsQueue {action : Action} (h : action.IsControl) :
    action.KeepsQueue := by
  cases action <;> trivial

theorem holds_perform (hp : p.ids.Nodup) {action : Action} (h : action.IsControl) :
    (p.perform action).holds = p.holds := by
  have hmoved (id : Identity) (next : Status) : (p.moveTo id next).ids.Nodup := by
    rw [(sameQueue_moveTo hp id next).ids_eq]
    exact hp
  cases action with
  | apply c now => exact h.elim
  | restore records => exact h.elim
  | setHold id context date now => exact h.elim
  | setActive id =>
      rw [perform, setActive]
      split
      · exact holds_announce _ _
      · rfl
  | setPending id now =>
      rw [perform, setPending]
      split
      · exact holds_reschedule (hmoved id .pending) now _
      · rfl
  | suspend increment =>
      rw [perform, suspend]
      split
      · rfl
      · exact holds_announce _ _
  | resume now =>
      rw [perform, resume]
      split
      · rfl
      · next count _ =>
        have hresumed : ({ p with suspendCount := count } : Pipeline).ids.Nodup := hp
        dsimp only
        split
        · exact holds_reschedule hresumed now _
        · exact holds_announce _ _
  | setLimit limit now =>
      rw [perform, setLimit]
      split
      · rfl
      · have hlimited : ({ p with limit := limit } : Pipeline).ids.Nodup := hp
        exact holds_reschedule hlimited now _
  | recheck now => exact holds_reschedule hp now _

/-- A queued operation has the hold that was requested, also if it was in place before. -/
theorem ofOperation_setHold (h : p.ids.Nodup) {id other : Identity} (hother : other ∈ p.ids)
    {context : String} {date : Option Instant} {now : Instant} :
    (p.setHold id context date now).2.holds.ofOperation other =
      (p.holds.set id context date).ofOperation other := by
  rw [setHold]
  split
  · have hids : ({ p with holds := p.holds.set id context date } : Pipeline).ids.Nodup := h
    rw [holds_reschedule hids]
  · next hunchanged =>
    by_cases heq : other = id
    · subst heq
      have hqueued : p.isQueued other = true := isQueued_iff.2 hother
      rw [hqueued, Bool.true_and, Bool.not_eq_true] at hunchanged
      exact (HoldTable.ofOperation_set_of_not_changes hunchanged).symm
    · exact (HoldTable.ofOperation_set_of_ne heq context date).symm

end Pipeline

end OperationQueue
