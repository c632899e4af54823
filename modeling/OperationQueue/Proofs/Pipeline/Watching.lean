/-
# The events as a log

Whoever watches a pipeline sees its events only. They are enough to know what is queued, how
often the pipeline is suspended and whether it is active: a watcher who starts with these three
and follows the events knows them after every request. Most of this is about the one event of a
commit, whose lists are collected while operations leave, join, are passed over and finish before
they could join. That the pipeline is active is announced when it changes and at no other time,
because what was announced last is always what is true.
-/
import Mathlib.Data.Finset.Dedup
import Mathlib.Data.Finset.Lattice.Lemmas
import Mathlib.Data.Finset.SDiff
import OperationQueue.Proofs.Pipeline.Responding

namespace OperationQueue

/-- What a watcher knows of a pipeline. -/
structure Watcher where
  /-- Who is queued. -/
  queued : Finset Identity
  /-- How often the pipeline is suspended. -/
  suspendCount : Nat
  /-- Whether the pipeline is active. -/
  isActive : Bool
deriving DecidableEq

/-- Follow an event. Of a change to the queue, what was removed is deleted first. -/
def Watcher.hear (w : Watcher) : Event → Watcher
  | .queueChanged added inserted _ removed =>
      { w with queued := (w.queued \ removed.toFinset) ∪ inserted.toFinset ∪ added.toFinset }
  | .suspendCountChanged count => { w with suspendCount := count }
  | .activeChanged active => { w with isActive := active }

/-- Whether an event is about being active. -/
def Event.isActiveChanged : Event → Bool
  | .activeChanged _ => true
  | _ => false

namespace Pipeline

variable {p q : Pipeline} {c : Commit} {action : Action} {events : List Event}
  {pass : Option Instant}

/-- What there is to know of a pipeline. -/
def view (p : Pipeline) : Watcher := ⟨p.ids.toFinset, p.suspendCount, p.isActive⟩

/-- The events of some requests, in the order in which they are published. -/
def log (p : Pipeline) : List Action → List Event
  | [] => []
  | action :: rest => (p.respond action).1.events ++ (p.perform action).log rest

/-! ## The lists of a commit -/

/-- An operation that is not queued and does not finish at once may join. -/
theorem IsReaped.join (h : p.IsReaped) {snapshot : Snapshot} {op : Operation}
    (hnew : ¬ p.isQueued op.id = true) (hunfinished : ¬ op.applyStaged.isTerminal = true) :
    (p.join c snapshot op.applyStaged).IsReaped := by
  have hjoins : p.enqueued c (snapshot, op) = p.join c snapshot op.applyStaged :=
    if_neg (not_or.2 ⟨hnew, hunfinished⟩)
  rw [← hjoins]
  exact h.enqueued c (snapshot, op)

/-- Those that joined are queued, and everybody who was. -/
theorem mem_ids_enqueueAll (h : p.IsReaped) {items : List (Snapshot × Operation)}
    {id : Identity} :
    id ∈ (enqueueAll c items p).2.ids ↔ id ∈ p.ids ∨ id ∈ (enqueueAll c items p).1.joined := by
  induction items generalizing p with
  | nil => simp [enqueueAll]
  | cons item rest ih =>
      obtain ⟨snapshot, op⟩ := item
      rw [enqueueAll]
      by_cases hqueued : p.isQueued op.id = true
      · rw [if_pos hqueued]
        exact ih h
      · rw [if_neg hqueued]
        dsimp only
        by_cases hterminal : op.applyStaged.isTerminal = true
        · rw [if_pos hterminal]
          exact ih h
        · rw [if_neg hterminal]
          have hpushed : id ∈ (p.join c snapshot op.applyStaged).ids ↔ id = op.id ∨ id ∈ p.ids :=
            mem_ids_pushAt h.toIsFiled
          rw [ih (h.join hqueued hterminal), hpushed, List.mem_cons, or_comm (a := id = op.id),
            or_assoc]
          rfl

/-- Nobody that finishes before it could join was queued. -/
theorem notMem_ids_of_mem_finished (h : p.IsReaped) {items : List (Snapshot × Operation)}
    {id : Identity} (hid : id ∈ (enqueueAll c items p).1.finished) : id ∉ p.ids := by
  induction items generalizing p with
  | nil => cases hid
  | cons item rest ih =>
      obtain ⟨snapshot, op⟩ := item
      rw [enqueueAll] at hid
      by_cases hqueued : p.isQueued op.id = true
      · rw [if_pos hqueued] at hid
        exact ih h hid
      · rw [if_neg hqueued] at hid
        dsimp only at hid
        by_cases hterminal : op.applyStaged.isTerminal = true
        · rw [if_pos hterminal] at hid
          rcases List.mem_cons.1 hid with rfl | hid
          · exact fun hmem => hqueued (isQueued_iff.2 hmem)
          · exact ih h hid
        · rw [if_neg hterminal] at hid
          intro hmem
          have hjoined : id ∈ (p.join c snapshot op.applyStaged).ids :=
            (mem_ids_pushAt h.toIsFiled).2 (.inr hmem)
          exact ih (h.join hqueued hterminal) hid hjoined

/-- Where identities occur once, those stay queued that have not finished. -/
theorem mem_ids_reap (h : p.ids.Nodup) {id : Identity} :
    id ∈ p.reap.ids ↔ id ∈ p.ids ∧ id ∉ p.finishedIds := by
  simp only [ids, List.mem_map, mem_operations_reap, mem_finishedIds]
  constructor
  · rintro ⟨op, ⟨hop, hunfinished⟩, rfl⟩
    refine ⟨⟨op, hop, rfl⟩, fun hfinished => ?_⟩
    obtain ⟨other, hother, hterminal, hid⟩ := hfinished
    rw [List.inj_on_of_nodup_map h hother hop hid, hunfinished] at hterminal
    cases hterminal
  · rintro ⟨⟨op, hop, rfl⟩, hstays⟩
    exact ⟨op, ⟨hop, Bool.eq_false_iff.2 fun hterminal => hstays ⟨op, hop, hterminal, rfl⟩⟩, rfl⟩

/-- Those who leave the queue because the commit finishes them. -/
def leaving (p : Pipeline) (c : Commit) : List Identity :=
  (p.mapOperations (p.edited c)).finishedIds

/-- What becomes of the operations that come to earlier graphs, once the others have left. -/
def inserting (p : Pipeline) (c : Commit) : Arrivals × Pipeline :=
  enqueueAll c (insertions c) (p.remaining c)

/-- What becomes of the operations that come to the graph of the commit, which are the last. -/
def adding (p : Pipeline) (c : Commit) : Arrivals × Pipeline :=
  enqueueAll c (additions c) (p.inserting c).2

theorem exists_changeQueue_eq_queueEvent (h : p.ids.Nodup) (c : Commit) :
    ∃ modified, p.changeQueue c =
      (queueEvent (p.adding c).1.joined (p.inserting c).1.joined modified
          (p.leaving c ++ (p.inserting c).1.finished ++ (p.adding c).1.finished),
        (p.adding c).2.relink) := by
  have hids := ids_mapOperations (p := p)
    (Operation.keepsPlace_modified (p.knows c) c.modified).id
  have hedited : (moveAll c.statuses.entries (modifyAll c c.modified p).2).2 =
      p.mapOperations (p.edited c) := by
    rw [modifyAll_snd h, moveAll_snd (hids.symm ▸ h), mapOperations_mapOperations]
    rfl
  rw [changeQueue]
  dsimp only
  rw [hedited]
  exact ⟨_, rfl⟩

theorem isReaped_inserting (h : p.IsSettled) (c : Commit) : (p.inserting c).2.IsReaped := by
  rw [inserting, enqueueAll_snd]
  exact List.foldlRecOn _ _ (isReaped_remaining h c) fun q hq item _ => hq.enqueued c item

theorem mem_ids_changeQueue_iff (h : p.IsSettled) {id : Identity} :
    id ∈ (p.changeQueue c).2.ids ↔
      (id ∈ p.ids ∧ id ∉ p.leaving c) ∨ id ∈ (p.inserting c).1.joined ∨
        id ∈ (p.adding c).1.joined := by
  obtain ⟨modified, heq⟩ := exists_changeQueue_eq_queueEvent h.nodup_ids c
  have hafter : (p.changeQueue c).2.ids = (p.adding c).2.ids := by
    rw [heq, ids, operations_relink]
    rfl
  have hids : (p.mapOperations (p.edited c)).ids = p.ids :=
    ids_mapOperations (keepsPlace_edited p c).id
  rw [hafter, adding, mem_ids_enqueueAll (isReaped_inserting h c), inserting,
    mem_ids_enqueueAll (isReaped_remaining h c), remaining, mem_ids_reap (hids.symm ▸ h.nodup_ids),
    hids, or_assoc]
  rfl

/-- What the lists of a commit say: who is queued afterwards, and that whoever finishes in the
queue is removed, also if it is added again. -/
structure Tells (p : Pipeline) (c : Commit) (added inserted removed : List Identity) : Prop where
  mem_ids_iff : ∀ {id}, id ∈ (p.changeQueue c).2.ids ↔
    id ∈ p.ids ∧ id ∉ removed ∨ id ∈ inserted ∨ id ∈ added
  mem_removed : ∀ {op}, op ∈ p.operations → (p.edited c op).isTerminal = true → op.id ∈ removed

/-- The event of a commit, with what its lists say. -/
theorem exists_changeQueue_fst_eq (h : p.IsSettled) (c : Commit) :
    ∃ added inserted modified removed,
      (p.changeQueue c).1 = queueEvent added inserted modified removed ∧
        p.Tells c added inserted removed := by
  obtain ⟨modified, heq⟩ := exists_changeQueue_eq_queueEvent h.nodup_ids c
  have hids : (p.mapOperations (p.edited c)).ids = p.ids :=
    ids_mapOperations (keepsPlace_edited p c).id
  -- Nobody that finishes on arrival is among those that stay.
  have hearly {id : Identity} (hid : id ∈ p.ids) (hstays : id ∉ p.leaving c) :
      id ∉ (p.inserting c).1.finished ∧ id ∉ (p.adding c).1.finished := by
    have hremaining : id ∈ (p.remaining c).ids :=
      (mem_ids_reap (hids.symm ▸ h.nodup_ids)).2 ⟨hids.symm ▸ hid, hstays⟩
    have hinserting : id ∈ (p.inserting c).2.ids :=
      (mem_ids_enqueueAll (isReaped_remaining h c)).2 (.inl hremaining)
    constructor
    · exact fun hfinished =>
        notMem_ids_of_mem_finished (isReaped_remaining h c) hfinished hremaining
    · exact fun hfinished =>
        notMem_ids_of_mem_finished (isReaped_inserting h c) hfinished hinserting
  refine ⟨_, _, _, _, congrArg Prod.fst heq, fun {id} => ?_, fun {op} hop hterminal => ?_⟩
  · rw [mem_ids_changeQueue_iff h, List.mem_append, List.mem_append, not_or, not_or]
    refine or_congr_left ⟨fun hid => ?_, fun hid => ⟨hid.1, hid.2.1.1⟩⟩
    obtain ⟨hinserting, hadding⟩ := hearly hid.1 hid.2
    exact ⟨hid.1, ⟨hid.2, hinserting⟩, hadding⟩
  · rw [List.mem_append, List.mem_append, leaving, mem_finishedIds, operations_mapOperations]
    exact .inl (.inl ⟨_, List.mem_map_of_mem hop, hterminal, (keepsPlace_edited p c).id op⟩)

/-! ## One request -/

/-- An event without entries need not be published. -/
theorem foldl_hear_queueEvent (w : Watcher) (added inserted modified removed : List Identity) :
    (queueEvent added inserted modified removed).foldl Watcher.hear w =
      { w with queued := (w.queued \ removed.toFinset) ∪ inserted.toFinset ∪ added.toFinset } := by
  rw [queueEvent]
  split
  · next hnone =>
    simp only [Bool.and_eq_true, List.isEmpty_iff] at hnone
    obtain ⟨⟨⟨rfl, rfl⟩, -⟩, rfl⟩ := hnone
    simp
  · rfl

/-- Whoever follows the events of a change knows who is queued and how often the pipeline is
suspended. -/
theorem Changes.foldl_hear (h : Changes p action q events pass) (hp : p.IsSettled) :
    events.foldl Watcher.hear p.view = { q.view with isActive := p.isActive } := by
  cases h with
  | apply c now =>
      obtain ⟨added, inserted, modified, removed, hevents, htells⟩ := exists_changeQueue_fst_eq hp c
      obtain ⟨graphs, holds, hqueue⟩ := exists_changeQueue_eq hp.nodup_ids c
      have hcount : (p.changeQueue c).2.suspendCount = p.suspendCount := by rw [hqueue]
      have hqueued : (p.ids.toFinset \ removed.toFinset) ∪ inserted.toFinset ∪ added.toFinset =
          (p.changeQueue c).2.ids.toFinset := by
        ext id
        simp [htells.mem_ids_iff]
      rw [hevents, foldl_hear_queueEvent, view, view, hcount, hqueued]
  | setActive _ =>
      rw [view, view, (sameQueue_moveTo hp.nodup_ids _ .active).ids_eq]
      rfl
  | setPending _ _ =>
      rw [view, view, (sameQueue_moveTo hp.nodup_ids _ .pending).ids_eq]
      rfl
  | _ => rfl

/-- Nothing but the closing of a change is about being active. -/
theorem Changes.isActiveChanged_eq_false (h : Changes p action q events pass)
    (hp : p.IsSettled) : ∀ e ∈ events, e.isActiveChanged = false := by
  intro e he
  cases h with
  | apply c now =>
      obtain ⟨added, inserted, modified, removed, hevents, -⟩ := exists_changeQueue_fst_eq hp c
      rw [hevents, queueEvent] at he
      split at he
      · cases he
      · rw [List.mem_singleton.1 he]
        rfl
  | suspend _ | resume _ _ | resumeLast _ =>
      rw [List.mem_singleton.1 he]
      rfl
  | _ => cases he

theorem events_announce (dispatch : List Operation) (events : List Event) :
    (p.announce dispatch events).1.events =
      events ++ if p.isActive = p.activeFlag then [] else [.activeChanged p.isActive] := by
  rw [announce]
  split
  · exact (List.append_nil _).symm
  · rfl

/-- A request publishes the events of its change, and behind them whether the pipeline is active,
if that has changed. -/
theorem exists_events_respond_eq (hp : p.IsSettled) (hflag : p.activeFlag = p.isActive)
    (h : action.GoesOn) :
    ∃ events, (p.respond action).1.events = events ++
        (if (p.perform action).isActive = p.isActive then []
          else [.activeChanged (p.perform action).isActive]) ∧
      (∀ e ∈ events, e.isActiveChanged = false) ∧
      events.foldl Watcher.hear p.view =
        { (p.perform action).view with isActive := p.isActive } := by
  rw [← respond_snd]
  rcases respond_cases (p := p) h with heq | ⟨q, events, pass, hchange, heq⟩
  · refine ⟨[], ?_, fun e he => (nomatch he), ?_⟩
    · rw [heq, if_pos rfl]
      rfl
    · rw [heq]
      rfl
  · have hq := hchange.isSettled hp
    obtain ⟨r, dispatch, hsame, hcount, hclosed, hclose⟩ := exists_close_eq hq events pass
    have hview : (r.announce dispatch events).2.view = { q.view with isActive := r.isActive } := by
      rw [announce_snd, view, view, ← hsame.ids_eq, ← hcount]
      rfl
    have hactive : (r.announce dispatch events).2.isActive = r.isActive := by
      rw [announce_snd]
      rfl
    refine ⟨events, ?_, hchange.isActiveChanged_eq_false hp, ?_⟩
    · rw [heq, hclose, hactive, events_announce, hclosed, hchange.activeFlag_eq hp.nodup_ids, hflag]
    · rw [heq, hclose, hview, hchange.foldl_hear hp]

/-! ## A run -/

/-- Following the events of a request leads to what there is to know afterwards. -/
theorem foldl_hear_respond (hp : p.IsSettled) (hflag : p.activeFlag = p.isActive)
    (h : action.GoesOn) :
    (p.respond action).1.events.foldl Watcher.hear p.view = (p.perform action).view := by
  obtain ⟨events, hevents, -, hheard⟩ := exists_events_respond_eq hp hflag h
  rw [hevents, List.foldl_append, hheard]
  split
  · next hsame =>
    rw [← hsame]
    rfl
  · rfl

/-- The events of a pipeline are a faithful log. Whoever starts from any reachable state, restarts
included, and follows the events of some requests, knows afterwards who is queued, how often the
pipeline is suspended and whether it is active; and the next request announces whether the
pipeline is active once if that changes, and not at all otherwise. -/
theorem Reachable.foldl_hear_log (h : Reachable (fun _ _ => True) p) {actions : List Action}
    {next : Action} (hactions : ∀ action ∈ actions, action.GoesOn) (hnext : next.GoesOn) :
    (p.log actions).foldl Watcher.hear p.view = (actions.foldl perform p).view ∧
      ((actions.foldl perform p).respond next).1.events.filter Event.isActiveChanged =
        if ((actions.foldl perform p).perform next).isActive = (actions.foldl perform p).isActive
        then []
        else [.activeChanged ((actions.foldl perform p).perform next).isActive] := by
  induction actions generalizing p with
  | nil =>
      refine ⟨rfl, ?_⟩
      obtain ⟨events, hevents, hothers, -⟩ :=
        exists_events_respond_eq h.isSettled h.activeFlag_eq hnext
      have hnone : events.filter Event.isActiveChanged = [] :=
        List.filter_eq_nil_iff.2 fun e he => by simp [hothers e he]
      rw [List.foldl_nil, hevents, List.filter_append, hnone, List.nil_append]
      split <;> rfl
  | cons action rest ih =>
      have hfirst := foldl_hear_respond h.isSettled h.activeFlag_eq
        (hactions action List.mem_cons_self)
      obtain ⟨hlog, hannounced⟩ := ih (h.step trivial)
        fun other hother => hactions other (List.mem_cons_of_mem _ hother)
      refine ⟨?_, hannounced⟩
      rw [log, List.foldl_append, hfirst]
      exact hlog

/-- A queue that was restored from one record. -/
def restoredQueue : Pipeline :=
  (Pipeline.new "main" .flat).perform (.restore [⟨Operation.new (.ofNat 1), .empty⟩])

/-- Requests to it. While it is suspended twice, one commit completes the restored operation, adds
a second, adds it once more and adds a third that is skipped at once. -/
def busyRun : List Action :=
  let second := Operation.new (.ofNat 2)
  let third := Operation.new (.ofNat 3)
  [.suspend 2,
    .apply (((((Commit.new 1).setStatus (.ofNat 1) .completed).add second).add second |>.add
      third).setStatus third.id .skipped) ⟨0, 0⟩,
    .resume ⟨0, 0⟩]

/-- The watcher knows that the second operation is queued alone, in a pipeline that is idle, and
hears of the pipeline again when the last suspension is taken back. -/
theorem foldl_hear_log_busyRun :
    Reachable (fun _ _ => True) restoredQueue ∧
      (restoredQueue.log busyRun).foldl Watcher.hear ⟨{.ofNat 1}, 0, true⟩ =
        ⟨{.ofNat 2}, 1, false⟩ ∧
      ((busyRun.foldl perform restoredQueue).respond (.resume ⟨0, 0⟩)).1.events.filter
        Event.isActiveChanged = [.activeChanged true] := by
  have hreachable : Reachable (fun _ _ => True) restoredQueue := .step (.new "main" .flat) trivial
  have hactions : ∀ action ∈ busyRun, action.GoesOn := by
    simp [busyRun, Action.GoesOn]
  have hnext : Action.GoesOn (.resume ⟨0, 0⟩) := trivial
  have hfaithful := hreachable.foldl_hear_log hactions hnext
  have hbefore : restoredQueue.view = ⟨{.ofNat 1}, 0, true⟩ := by decide +kernel
  have hafter : (busyRun.foldl perform restoredQueue).view = ⟨{.ofNat 2}, 1, false⟩ := by
    decide +kernel
  have hwakes : ((busyRun.foldl perform restoredQueue).perform (.resume ⟨0, 0⟩)).isActive = true ∧
      (busyRun.foldl perform restoredQueue).isActive = false := by
    decide +kernel
  rw [hbefore, hafter, hwakes.1, hwakes.2] at hfaithful
  exact ⟨hreachable, hfaithful⟩

end Pipeline

end OperationQueue
