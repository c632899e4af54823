/-
# Handing out once

An operation that was handed out runs, and a pass chooses among those that wait. So it is handed
out again only after it stopped running, and few requests do that: it is returned to waiting, or a
commit finishes it and it is added once more. Every other request leaves it running, whatever it
does to the rest of the queue, to the limit, to the holds or to the operation itself. Both facts
are about histories: the second is carried along a run one request at a time, and the first is read
off where it breaks.
-/
import OperationQueue.Proofs.Pipeline.Watching

namespace OperationQueue

/-- An event that tells that an identity left the queue. -/
def Event.Removes (id : Identity) : Event → Prop
  | .queueChanged _ _ _ removed => id ∈ removed
  | _ => False

/-- An event that tells that an identity joined the queue. -/
def Event.Adds (id : Identity) : Event → Prop
  | .queueChanged added inserted _ _ => id ∈ added ∨ id ∈ inserted
  | _ => False

namespace Pipeline

variable {p q : Pipeline} {c : Commit} {action : Action} {events : List Event}
  {pass : Option Instant} {now : Instant} {id : Identity}

/-- An operation runs. -/
def IsRunning (p : Pipeline) (id : Identity) : Prop := p.status? id = some .active

/-- A request to return an operation to waiting: on its own, or as a committed status. -/
def Action.Returns (id : Identity) : Action → Prop
  | .setPending other _ => other = id
  | .apply c _ => c.statuses.get? id = some .pending
  | _ => False

/-- A committed completion or skip. -/
def Action.Finishes (id : Identity) : Action → Prop
  | .apply c _ => (c.statuses.get? id).any Status.isTerminal = true
  | _ => False

/-- A request that finishes an operation and tells that it left the queue. -/
def Reaps (p : Pipeline) (id : Identity) (action : Action) : Prop :=
  action.Finishes id ∧ ∃ e ∈ (p.respond action).1.events, e.Removes id

/-- A request that tells that an operation joined the queue. -/
def Adds (p : Pipeline) (id : Identity) (action : Action) : Prop :=
  ∃ e ∈ (p.respond action).1.events, e.Adds id

/-- The identities that a request hands out, in order. -/
def handedOut (p : Pipeline) (action : Action) : List Identity :=
  (p.respond action).1.dispatch.map (·.id)

/-- Something happens in a run: at a request, in the state before it and with the requests that
are left after it. -/
def Sometime (happens : Pipeline → Action → List Action → Prop) :
    Pipeline → List Action → Prop
  | _, [] => False
  | p, action :: rest => happens p action rest ∨ Sometime happens (p.perform action) rest

/-! ## Who runs -/

theorem isRunning_iff (h : p.ids.Nodup) :
    p.IsRunning id ↔ ∃ op ∈ p.operations, op.id = id ∧ op.status = .active := by
  rw [IsRunning, status?, Option.map_eq_some_iff]
  constructor
  · rintro ⟨op, hfound, hactive⟩
    obtain ⟨hop, hid⟩ := mem_of_operation? hfound
    exact ⟨op, hop, hid, hactive⟩
  · rintro ⟨op, hop, rfl, hactive⟩
    exact ⟨op, operation?_eq_some h hop, hactive⟩

/-- Who runs does not wait. -/
theorem IsRunning.not_pending (h : p.ids.Nodup) (hrunning : p.IsRunning id) {op : Operation}
    (hop : op ∈ p.operations) (hid : op.id = id) : op.status ≠ .pending := by
  obtain ⟨other, hother, hotherId, hactive⟩ := (isRunning_iff h).1 hrunning
  rw [List.inj_on_of_nodup_map h hop hother (hid.trans hotherId.symm), hactive]
  exact Status.noConfusion

theorem IsRunning.mapOperations {f : Operation → Operation} (h : p.ids.Nodup)
    (hf : ∀ op, (f op).id = op.id)
    (hactive : ∀ op, op.id = id → op.status = .active → (f op).status = .active)
    (hrunning : p.IsRunning id) : (p.mapOperations f).IsRunning id := by
  obtain ⟨op, hop, hid, hruns⟩ := (isRunning_iff h).1 hrunning
  refine (isRunning_iff ((ids_mapOperations hf).symm ▸ h)).2 ⟨f op, ?_, ?_, hactive op hid hruns⟩
  · rw [operations_mapOperations]
    exact List.mem_map_of_mem hop
  · rw [hf, hid]

/-- Closing a change stops nobody. -/
theorem IsRunning.close (h : q.IsSettled) (hrunning : q.IsRunning id) (events : List Event)
    (pass : Option Instant) : (q.close events pass).2.IsRunning id := by
  have hannounced (r : Pipeline) (dispatch : List Operation) (hr : r.IsRunning id) :
      (r.announce dispatch events).2.IsRunning id := by
    rw [announce_snd]
    exact hr
  cases pass with
  | none => exact hannounced q [] hrunning
  | some now =>
      have hpassed : (q.schedule now).2.IsRunning id := by
        rw [schedule_snd h.nodup_ids]
        apply hrunning.mapOperations h.nodup_ids (Operation.keepsPlace_activate _).id
        intro op _ hactive
        rw [Operation.activate]
        split
        · rfl
        · exact hactive
      exact hannounced _ _ hpassed

/-! ## What a change leaves running -/

/-- An operation joins without touching the others. -/
theorem mem_operations_enqueued (h : p.IsFiled) {op : Operation} (hop : op ∈ p.operations)
    (item : Snapshot × Operation) : op ∈ (p.enqueued c item).operations := by
  rw [enqueued]
  split
  · exact hop
  · rw [(operations_pushAt_perm h _ _).mem_iff]
    exact List.mem_cons_of_mem _ hop

/-- A queued operation that a commit does not finish is queued afterwards, as edited. -/
theorem edited_mem_operations_changeQueue (h : p.IsSettled) {op : Operation}
    (hop : op ∈ p.operations) (hstays : (p.edited c op).isTerminal = false) :
    p.edited c op ∈ (p.changeQueue c).2.operations := by
  have hremains : p.edited c op ∈ (p.remaining c).operations := by
    rw [remaining, mem_operations_reap, operations_mapOperations]
    exact ⟨List.mem_map_of_mem hop, hstays⟩
  rw [changeQueue_snd h.nodup_ids, operations_relink]
  have hkept : ((newItems c).foldl (enqueued c) (p.remaining c)).IsReaped ∧
      p.edited c op ∈ ((newItems c).foldl (enqueued c) (p.remaining c)).operations := by
    apply List.foldlRecOn (newItems c) (enqueued c)
      (motive := fun q => q.IsReaped ∧ p.edited c op ∈ q.operations)
      ⟨isReaped_remaining h c, hremains⟩
    intro q hq item _
    exact ⟨hq.1.enqueued c item, mem_operations_enqueued hq.1.toIsFiled hq.2 item⟩
  exact hkept.2

/-- A commit without a status for a running operation, or with the status that it has, leaves it
running. -/
theorem IsRunning.changeQueue (h : p.IsSettled) (hrunning : p.IsRunning id)
    (hpending : c.statuses.get? id ≠ some .pending)
    (hterminal : ¬ (c.statuses.get? id).any Status.isTerminal = true) :
    (p.changeQueue c).2.IsRunning id := by
  obtain ⟨op, hop, rfl, hactive⟩ := (isRunning_iff h.nodup_ids).1 hrunning
  have hunfinished := h.unfinished op hop
  have hstays : (p.edited c op).isTerminal = false := by
    rw [isTerminal_edited hunfinished]
    exact Bool.eq_false_iff.2 hterminal
  refine (isRunning_iff (h.changeQueue c).nodup_ids).2
    ⟨_, edited_mem_operations_changeQueue h hop hstays, (keepsPlace_edited p c).id op, ?_⟩
  have hmodified : (op.modified (p.knows c) c.modified).isTerminal = false := by
    rw [Operation.isTerminal_modified, hunfinished]
  have hid := (Operation.keepsPlace_modified (p.knows c) c.modified).id op
  rw [edited, Operation.moved_entries _ hmodified, hid, Operation.status_modified, hactive]
  cases hstatus : c.statuses.get? op.id with
  | none => rfl
  | some next =>
      cases next with
      | pending => exact absurd hstatus hpending
      | active => rfl
      | completed => exact absurd (by rw [hstatus]; rfl) hterminal
      | skipped => exact absurd (by rw [hstatus]; rfl) hterminal

/-- A change that neither returns nor finishes a running operation leaves it running. -/
theorem Changes.isRunning (h : Changes p action q events pass) (hp : p.IsSettled)
    (hrunning : p.IsRunning id) (hreturns : ¬ action.Returns id)
    (hfinishes : ¬ action.Finishes id) : q.IsRunning id := by
  cases h with
  | apply c now => exact hrunning.changeQueue hp hreturns hfinishes
  | setActive _ =>
      rw [moveTo, update_eq_mapOperations hp.nodup_ids]
      apply hrunning.mapOperations hp.nodup_ids ((Operation.KeepsPlace.status _).ite _).id
      intro op _ hactive
      split
      · rfl
      · exact hactive
  | setPending _ _ =>
      rw [moveTo, update_eq_mapOperations hp.nodup_ids]
      apply hrunning.mapOperations hp.nodup_ids ((Operation.KeepsPlace.status _).ite _).id
      intro op hid hactive
      rw [if_neg fun heq => hreturns (heq.symm.trans hid)]
      exact hactive
  | _ => exact hrunning

/-- So does the request. -/
theorem IsRunning.perform (hp : p.IsSettled) (hrunning : p.IsRunning id) (h : action.GoesOn)
    (hreturns : ¬ action.Returns id) (hfinishes : ¬ action.Finishes id) :
    (p.perform action).IsRunning id := by
  rw [← respond_snd]
  rcases respond_cases (p := p) h with heq | ⟨q, events, pass, hchange, heq⟩
  · rw [heq]
    exact hrunning
  · rw [heq]
    exact (hchange.isRunning hp hrunning hreturns hfinishes).close (hchange.isSettled hp) _ _

/-! ## What a pass hands out -/

theorem nodup_map_id_chosen (h : p.ids.Nodup) (now : Instant) :
    ((p.chosen now).map (·.id)).Nodup := by
  have hplaces : (p.places.map (·.operation.id)).Nodup := by
    rwa [ids, ← map_operation_places, List.map_map] at h
  have hready : ((p.readyPlaces now).map (·.operation.id)).Nodup :=
    ((List.mergeSort_perm _ _).map _).nodup_iff.2 ((List.filter_sublist.map _).nodup hplaces)
  rw [chosen]
  split
  · exact List.nodup_nil
  · rw [List.map_map]
    exact ((List.take_sublist _ _).map _).nodup hready

/-- A pass chooses among those that wait. -/
theorem of_mem_chosen {op : Operation} (h : op ∈ p.chosen now) :
    op ∈ p.operations ∧ op.status = .pending := by
  rw [chosen] at h
  split at h
  · cases h
  · obtain ⟨place, hplace, rfl⟩ := List.mem_map.1 h
    obtain ⟨hqueued, hready⟩ := mem_readyPlaces_iff.1 (List.mem_of_mem_take hplace)
    exact ⟨mem_operations_of_mem_places hqueued, hready.pending⟩

theorem isRunning_afterStarts (h : p.ids.Nodup) {op : Operation} (hop : op ∈ p.chosen now) :
    (p.afterStarts now).IsRunning op.id := by
  have hkeeps := Operation.keepsPlace_activate ((p.chosen now).map (·.id))
  have hactivated : op.activate ((p.chosen now).map (·.id)) ∈ (p.afterStarts now).operations := by
    rw [afterStarts, operations_mapOperations]
    exact List.mem_map_of_mem (of_mem_chosen hop).1
  have hactive : (op.activate ((p.chosen now).map (·.id))).status = .active := by
    rw [Operation.activate, if_pos (List.mem_map_of_mem hop)]
  exact (isRunning_iff ((ids_mapOperations hkeeps.id).symm ▸ h)).2
    ⟨_, hactivated, hkeeps.id op, hactive⟩

/-- What a request hands out, the pass after its change chose. -/
theorem map_id_dispatch_close (h : q.IsSettled) (events : List Event) (now : Instant) :
    (q.close events (some now)).1.dispatch.map (·.id) = (q.chosen now).map (·.id) := by
  have hdispatch : (q.close events (some now)).1.dispatch = (q.schedule now).1 :=
    dispatch_announce _ _
  rw [hdispatch, schedule_fst h, List.map_map]
  rfl

theorem nodup_handedOut (hp : p.IsSettled) (h : action.GoesOn) : (p.handedOut action).Nodup := by
  rw [handedOut]
  rcases respond_cases (p := p) h with heq | ⟨q, events, pass, hchange, heq⟩
  · rw [heq]
    exact List.nodup_nil
  · have hq := hchange.isSettled hp
    rw [heq]
    cases pass with
    | none =>
        rw [close, settle, dispatch_announce]
        exact List.nodup_nil
    | some now =>
        rw [map_id_dispatch_close hq]
        exact nodup_map_id_chosen hq.nodup_ids now

/-- Who is handed out waited when the request had made its change, and runs afterwards. -/
theorem exists_of_mem_handedOut (hp : p.IsSettled) (h : action.GoesOn)
    (hid : id ∈ p.handedOut action) :
    (p.perform action).IsRunning id ∧ ∃ q events pass, Changes p action q events pass ∧
      ∃ op ∈ q.operations, op.id = id ∧ op.status = .pending := by
  rw [handedOut] at hid
  rcases respond_cases (p := p) h with heq | ⟨q, events, pass, hchange, heq⟩
  · rw [heq] at hid
    cases hid
  · have hq := hchange.isSettled hp
    rw [heq] at hid
    cases pass with
    | none =>
        rw [close, settle, dispatch_announce] at hid
        cases hid
    | some now =>
        rw [map_id_dispatch_close hq] at hid
        obtain ⟨op, hop, rfl⟩ := List.mem_map.1 hid
        obtain ⟨hqueued, hpending⟩ := of_mem_chosen hop
        refine ⟨?_, q, events, _, hchange, op, hqueued, rfl, hpending⟩
        have hperformed : (p.perform action) = (q.reschedule now events).2 := by
          rw [← respond_snd, heq]
          rfl
        rw [hperformed, reschedule, schedule_eq hq]
        dsimp only
        rw [announce_snd]
        exact isRunning_afterStarts hq.nodup_ids hop

/-! ## Leaving and coming back -/

/-- The events of a change are published. -/
theorem mem_events_of_changes (hp : p.IsSettled) (hchange : Changes p action q events pass)
    (heq : p.respond action = q.close events pass) {e : Event} (he : e ∈ events) :
    e ∈ (p.respond action).1.events := by
  obtain ⟨r, dispatch, -, -, -, hclose⟩ := exists_close_eq (hchange.isSettled hp) events pass
  rw [heq, hclose, events_announce]
  exact List.mem_append_left _ he

/-- An event with an entry is published. -/
theorem queueChanged_mem_queueEvent {added inserted modified removed : List Identity}
    (h : id ∈ removed ∨ id ∈ inserted ∨ id ∈ added) :
    .queueChanged added inserted modified removed ∈ queueEvent added inserted modified removed := by
  rw [queueEvent, if_neg]
  · exact List.mem_singleton_self _
  · rcases h with hid | hid | hid <;> simp [List.ne_nil_of_mem hid]

theorem Tells.mem_removed_of_isRunning {added inserted removed : List Identity} (hp : p.IsSettled)
    (h : p.Tells c added inserted removed) (hrunning : p.IsRunning id)
    (hfinishes : (c.statuses.get? id).any Status.isTerminal = true) : id ∈ removed := by
  obtain ⟨op, hop, rfl, -⟩ := (isRunning_iff hp.nodup_ids).1 hrunning
  apply h.mem_removed hop
  rw [isTerminal_edited (hp.unfinished op hop)]
  exact hfinishes

/-- A commit that finishes a running operation tells that it left. -/
theorem IsRunning.reaps (hp : p.IsSettled) (hrunning : p.IsRunning id)
    (h : action.Finishes id) : p.Reaps id action := by
  cases action with
  | apply c now =>
      obtain ⟨added, inserted, modified, removed, hevents, htells⟩ := exists_changeQueue_fst_eq hp c
      have hremoved := htells.mem_removed_of_isRunning hp hrunning h
      refine ⟨h, .queueChanged added inserted modified removed, ?_, hremoved⟩
      apply mem_events_of_changes hp (.apply c now) rfl
      rw [hevents]
      exact queueChanged_mem_queueEvent (.inl hremoved)
  | _ => exact h.elim

/-- Who is queued after a change and was not queued before, or left in the course of it, was added
by it. -/
theorem Changes.adds (hp : p.IsSettled) (hchange : Changes p action q events pass)
    (heq : p.respond action = q.close events pass) (hid : id ∈ q.ids)
    (hgone : id ∉ p.ids ∨ p.IsRunning id ∧ action.Finishes id) : p.Adds id action := by
  have hsame (hsame : SameQueue p q) (hkeeps : ¬ action.Finishes id) : p.Adds id action := by
    rw [hsame.ids_eq] at hid
    rcases hgone with hgone | ⟨-, hfinishes⟩
    · exact absurd hid hgone
    · exact absurd hfinishes hkeeps
  cases hchange with
  | apply c now =>
      obtain ⟨added, inserted, modified, removed, hevents, htells⟩ := exists_changeQueue_fst_eq hp c
      have hjoined : id ∈ inserted ∨ id ∈ added := by
        rcases htells.mem_ids_iff.1 hid with ⟨hqueued, hstays⟩ | hjoined
        · rcases hgone with hgone | ⟨hrunning, hfinishes⟩
          · exact absurd hqueued hgone
          · exact absurd (htells.mem_removed_of_isRunning hp hrunning hfinishes) hstays
        · exact hjoined
      refine ⟨.queueChanged added inserted modified removed, ?_, hjoined.symm⟩
      apply mem_events_of_changes hp (.apply c now) heq
      rw [hevents]
      exact queueChanged_mem_queueEvent (.inr hjoined)
  | setActive _ => exact hsame (sameQueue_moveTo hp.nodup_ids _ _) fun h => h
  | setPending _ _ => exact hsame (sameQueue_moveTo hp.nodup_ids _ _) fun h => h
  | _ => exact hsame (.of_graphs_eq rfl) fun h => h

/-- So it is for a request, because closing its change leaves the queue. -/
theorem adds_of_mem_ids_perform (hp : p.IsSettled) (h : action.GoesOn)
    (hid : id ∈ (p.perform action).ids)
    (hgone : id ∉ p.ids ∨ p.IsRunning id ∧ action.Finishes id) : p.Adds id action := by
  rw [← respond_snd] at hid
  rcases respond_cases (p := p) h with heq | ⟨q, events, pass, hchange, heq⟩
  · rw [heq] at hid
    rcases hgone with hgone | ⟨hrunning, hfinishes⟩
    · exact absurd hid hgone
    · obtain ⟨-, e, he, -⟩ := hrunning.reaps hp hfinishes
      rw [heq] at he
      cases he
  · obtain ⟨r, dispatch, hsame, -, -, hclose⟩ := exists_close_eq (hchange.isSettled hp) events pass
    have hclosed : (p.respond action).2.ids = q.ids := by
      rw [heq, hclose, announce_snd]
      exact hsame.ids_eq
    exact hchange.adds hp heq (hclosed ▸ hid) hgone

theorem IsRunning.mem_ids (hp : p.ids.Nodup) (h : p.IsRunning id) : id ∈ p.ids := by
  obtain ⟨op, hop, rfl, -⟩ := (isRunning_iff hp).1 h
  exact List.mem_map_of_mem hop

/-! ## Histories -/

/-- Who is handed out in the end and was not queued at first was added in between. -/
theorem sometime_adds (hp : p.IsSettled) {requests : List Action} {last : Action}
    (hrequests : ∀ action ∈ requests, action.GoesOn) (hlast : last.GoesOn) (hgone : id ∉ p.ids)
    (hid : id ∈ (requests.foldl perform p).handedOut last) :
    Sometime (fun q action _ => q.Adds id action) p (requests ++ [last]) := by
  induction requests generalizing p with
  | nil =>
      have hrunning := (exists_of_mem_handedOut hp hlast hid).1
      have hqueued := hrunning.mem_ids (hp.perform last).nodup_ids
      exact .inl (adds_of_mem_ids_perform hp hlast hqueued (.inl hgone))
  | cons action rest ih =>
      have haction := hrequests action List.mem_cons_self
      have hrest : ∀ other ∈ rest, other.GoesOn :=
        fun other hother => hrequests other (List.mem_cons_of_mem _ hother)
      by_cases hqueued : id ∈ (p.perform action).ids
      · exact .inl (adds_of_mem_ids_perform hp haction hqueued (.inl hgone))
      · exact .inr (ih (hp.perform action) hrest hqueued hid)

/-- The same for an operation that runs at first and is finished by the first request. -/
theorem sometime_adds_of_finishes (hp : p.IsSettled) {first last : Action} {requests : List Action}
    (hfirst : first.GoesOn) (hrequests : ∀ action ∈ requests, action.GoesOn) (hlast : last.GoesOn)
    (hrunning : p.IsRunning id) (hfinishes : first.Finishes id)
    (hid : id ∈ (requests.foldl perform (p.perform first)).handedOut last) :
    Sometime (fun q action _ => q.Adds id action) p (first :: (requests ++ [last])) := by
  by_cases hqueued : id ∈ (p.perform first).ids
  · exact .inl (adds_of_mem_ids_perform hp hfirst hqueued (.inr ⟨hrunning, hfinishes⟩))
  · exact .inr (sometime_adds (hp.perform first) hrequests hlast hqueued hid)

/-- A running operation is returned to waiting by a request, or it is finished by one and, by the
same or by a later one, added again. -/
def StopsAndReturns (id : Identity) (p : Pipeline) (action : Action) (rest : List Action) : Prop :=
  p.IsRunning id ∧ (action.Returns id ∨
    p.Reaps id action ∧ Sometime (fun q other _ => q.Adds id other) p (action :: rest))

/-- Who runs at first and is handed out in the end stopped in between. -/
theorem sometime_stopsAndReturns (hp : p.IsSettled) {requests : List Action} {last : Action}
    (hrequests : ∀ action ∈ requests, action.GoesOn) (hlast : last.GoesOn)
    (hrunning : p.IsRunning id) (hid : id ∈ (requests.foldl perform p).handedOut last) :
    Sometime (StopsAndReturns id) p (requests ++ [last]) := by
  induction requests generalizing p with
  | nil =>
      by_cases hreturns : last.Returns id
      · exact .inl ⟨hrunning, .inl hreturns⟩
      · by_cases hfinishes : last.Finishes id
        · have hqueued := (exists_of_mem_handedOut hp hlast hid).1.mem_ids
            (hp.perform last).nodup_ids
          have hadds := adds_of_mem_ids_perform hp hlast hqueued (.inr ⟨hrunning, hfinishes⟩)
          exact .inl ⟨hrunning, .inr ⟨hrunning.reaps hp hfinishes, .inl hadds⟩⟩
        · -- The pass chose among those that wait, and this one still runs.
          obtain ⟨-, q, events, pass, hchange, op, hop, hopId, hpending⟩ :=
            exists_of_mem_handedOut hp hlast hid
          have hstill := hchange.isRunning hp hrunning hreturns hfinishes
          exact absurd hpending (hstill.not_pending (hchange.isSettled hp).nodup_ids hop hopId)
  | cons action rest ih =>
      have haction := hrequests action List.mem_cons_self
      have hrest : ∀ other ∈ rest, other.GoesOn :=
        fun other hother => hrequests other (List.mem_cons_of_mem _ hother)
      by_cases hreturns : action.Returns id
      · exact .inl ⟨hrunning, .inl hreturns⟩
      · by_cases hfinishes : action.Finishes id
        · have hadds := sometime_adds_of_finishes hp haction hrest hlast hrunning hfinishes hid
          exact .inl ⟨hrunning, .inr ⟨hrunning.reaps hp hfinishes, hadds⟩⟩
        · have hstill := hrunning.perform hp haction hreturns hfinishes
          exact .inr (ih (hp.perform action) hrest hstill hid)

/-- Who runs keeps running through requests that neither return nor finish it. -/
theorem IsRunning.foldl_perform (hp : p.IsSettled) (hrunning : p.IsRunning id)
    {requests : List Action}
    (hrequests : ∀ action ∈ requests,
      action.GoesOn ∧ ¬ action.Returns id ∧ ¬ action.Finishes id) :
    (requests.foldl Pipeline.perform p).IsRunning id := by
  have hkept : (requests.foldl Pipeline.perform p).IsSettled ∧
      (requests.foldl Pipeline.perform p).IsRunning id := by
    apply List.foldlRecOn requests Pipeline.perform
      (motive := fun q => q.IsSettled ∧ q.IsRunning id) ⟨hp, hrunning⟩
    intro q hq action haction
    obtain ⟨hgoesOn, hreturns, hfinishes⟩ := hrequests action haction
    exact ⟨hq.1.perform action, hq.2.perform hq.1 hgoesOn hreturns hfinishes⟩
  exact hkept.2

/-- No operation is handed out twice without a reason, and none is stopped without one. In a run
without a restart, a request hands out nobody twice; who is handed out by one request and by a
later one was returned to waiting, or finished and added again, after the first pass and before the
second; and who runs keeps running until it is returned to waiting or finished. -/
theorem Reachable.hands_out_once (h : Reachable (fun _ _ => True) p) {first last : Action}
    {between : List Action} (hfirst : first.GoesOn) (hbetween : ∀ action ∈ between, action.GoesOn)
    (hlast : last.GoesOn) (id : Identity) :
    (p.handedOut first).Nodup ∧
      (id ∈ p.handedOut first → id ∈ (between.foldl perform (p.perform first)).handedOut last →
        Sometime (StopsAndReturns id) (p.perform first) (between ++ [last])) ∧
      (p.IsRunning id → (∀ action ∈ between, ¬ action.Returns id ∧ ¬ action.Finishes id) →
        (between.foldl perform p).IsRunning id) := by
  refine ⟨nodup_handedOut h.isSettled hfirst, fun hid hlater => ?_, fun hrunning hquiet => ?_⟩
  · have hrunning := (exists_of_mem_handedOut h.isSettled hfirst hid).1
    exact sometime_stopsAndReturns (h.isSettled.perform first) hbetween hlast hrunning hlater
  · exact IsRunning.foldl_perform h.isSettled hrunning
      fun action haction => ⟨hbetween action haction, hquiet action haction⟩

/-- A request that adds two operations; both are handed out. -/
def pairRequest : Action :=
  .apply ((Commit.new 1).add (Operation.new (.ofNat 1)) |>.add (Operation.new (.ofNat 2))) ⟨0, 0⟩

/-- A commit that modifies the first operation and adds it once more. -/
def retouchCommit : Commit :=
  ((Commit.new 2).modify { Operation.new (.ofNat 1) with priority := 7 }).add
    (Operation.new (.ofNat 1))

/-- Requests that follow. The last returns the first operation to waiting, while the pipeline is
suspended. -/
def retryRun : List Action :=
  [.apply retouchCommit ⟨0, 0⟩, .setLimit 1 ⟨0, 0⟩, .setLimit 2 ⟨0, 0⟩, .suspend 1,
    .setPending (.ofNat 1) ⟨0, 0⟩]

/-- When the suspension is taken back, the first operation is handed out for the second time; the
second operation runs all the while. -/
theorem hands_out_once_retryRun :
    let queue := (Pipeline.new "main" .flat).perform pairRequest
    Sometime (StopsAndReturns (.ofNat 1)) queue (retryRun ++ [.resume ⟨0, 0⟩]) ∧
      (retryRun.foldl perform queue).IsRunning (.ofNat 2) := by
  have hreachable : Reachable (fun _ _ => True) (.new "main" .flat) := .new "main" .flat
  have hpair : pairRequest.GoesOn := trivial
  have hresume : Action.GoesOn (.resume ⟨0, 0⟩) := trivial
  have hretry : ∀ action ∈ retryRun, action.GoesOn := by
    simp [retryRun, Action.GoesOn]
  have hquiet : ∀ action ∈ retryRun,
      ¬ action.Returns (.ofNat 2) ∧ ¬ action.Finishes (.ofNat 2) := by
    have hstatus : retouchCommit.statuses.get? (.ofNat 2) = none := by decide +kernel
    have hother : Identity.ofNat 1 ≠ Identity.ofNat 2 := by decide +kernel
    simp [retryRun, Action.Returns, Action.Finishes, hstatus, hother]
  have hfirst : .ofNat 1 ∈ (Pipeline.new "main" .flat).handedOut pairRequest := by decide +kernel
  have hagain : .ofNat 1 ∈ (retryRun.foldl perform
      ((Pipeline.new "main" .flat).perform pairRequest)).handedOut (.resume ⟨0, 0⟩) := by
    decide +kernel
  have hrunning : ((Pipeline.new "main" .flat).perform pairRequest).IsRunning (.ofNat 2) := by
    rw [IsRunning]
    decide +kernel
  have hlater : Reachable (fun _ _ => True) ((Pipeline.new "main" .flat).perform pairRequest) :=
    hreachable.step trivial
  exact ⟨(hreachable.hands_out_once hpair hretry hresume (.ofNat 1)).2.1 hfirst hagain,
    (hlater.hands_out_once hpair hretry hresume (.ofNat 2)).2.2 hrunning hquiet⟩

end Pipeline

end OperationQueue
