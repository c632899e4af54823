/-
# What a request answers

A pipeline that is not restarted answers every request with a step. The request changes
nothing and answers an empty step, or it makes one change, which has events of its own, and
closes it: with a scheduling pass where the change may have made an operation ready, and
without one elsewhere. What is said below about answers follows these cases and opens no
request again.
-/
import OperationQueue.Proofs.Pipeline.Invariant

namespace OperationQueue

namespace Pipeline

variable {p q : Pipeline} {action : Action} {events : List Event} {pass : Option Instant}
  {now : Instant}

/-- A request to a pipeline that goes on, in contrast to a restart. -/
def Action.GoesOn : Action → Prop
  | .restore _ => False
  | _ => True

/-- The answer to a request, and the pipeline afterwards. A restart answers nothing. -/
def respond (p : Pipeline) : Action → Step × Pipeline
  | .apply c now => p.applyCommit c now
  | .setActive id => p.setActive id
  | .setPending id now => p.setPending id now
  | .setHold id context date now => p.setHold id context date now
  | .suspend increment => (p.suspend increment).2
  | .resume now => (p.resume now).2
  | .setLimit limit now => p.setLimit limit now
  | .recheck now => p.recheck now
  | .restore records => (.empty, (p.restore records).2)

theorem respond_snd (p : Pipeline) (action : Action) :
    (p.respond action).2 = p.perform action := by
  cases action <;> rfl

/-- Close a change, with a pass at an instant or without one. -/
def close (p : Pipeline) (events : List Event) : Option Instant → Step × Pipeline
  | some now => p.reschedule now events
  | none => p.settle events

/-- What a request changes: the pipeline before it is closed, the events of the change, and the
instant of the pass, if one is made. -/
inductive Changes (p : Pipeline) : Action → Pipeline → List Event → Option Instant → Prop
  | apply (c : Commit) (now : Instant) :
      Changes p (.apply c now) (p.changeQueue c).2 (p.changeQueue c).1 (some now)
  | setActive {id : Identity} (moves : p.mayMove id .active = true) :
      Changes p (.setActive id) (p.moveTo id .active) [] none
  | setPending {id : Identity} (now : Instant) (moves : p.mayMove id .pending = true) :
      Changes p (.setPending id now) (p.moveTo id .pending) [] (some now)
  | setHold {id : Identity} (context : String) (date : Option Instant) (now : Instant)
      (queued : p.isQueued id = true) :
      Changes p (.setHold id context date now)
        { p with holds := p.holds.set id context date } [] (some now)
  | suspend {increment count : Nat} (suspended : 0 < count) :
      Changes p (.suspend increment) { p with suspendCount := count }
        [.suspendCountChanged count] none
  | resume {count : Nat} (now : Instant) (suspended : 0 < count) :
      Changes p (.resume now) { p with suspendCount := count } [.suspendCountChanged count] none
  | resumeLast (now : Instant) :
      Changes p (.resume now) { p with suspendCount := 0 } [.suspendCountChanged 0] (some now)
  | setLimit (limit : Nat) (now : Instant) :
      Changes p (.setLimit limit now) { p with limit := limit } [] (some now)
  | recheck (now : Instant) : Changes p (.recheck now) p [] (some now)

/-- A request changes nothing, or it makes one change and closes it. -/
theorem respond_cases (h : action.GoesOn) :
    p.respond action = (.empty, p) ∨
      ∃ q events pass, Changes p action q events pass ∧ p.respond action = q.close events pass := by
  cases action with
  | apply c now => exact .inr ⟨_, _, _, .apply c now, rfl⟩
  | setActive id =>
      rw [respond, Pipeline.setActive]
      split
      · next hmoves => exact .inr ⟨_, _, _, .setActive hmoves, rfl⟩
      · exact .inl rfl
  | setPending id now =>
      rw [respond, Pipeline.setPending]
      split
      · next hmoves => exact .inr ⟨_, _, _, .setPending now hmoves, rfl⟩
      · exact .inl rfl
  | setHold id context date now =>
      rw [respond, Pipeline.setHold]
      split
      · next hchanges =>
        have hqueued : p.isQueued id = true := (Bool.and_eq_true_iff.1 hchanges).1
        exact .inr ⟨_, _, _, .setHold context date now hqueued, rfl⟩
      · exact .inl rfl
  | suspend increment =>
      rw [respond, Pipeline.suspend]
      split
      · exact .inl rfl
      · next hincrement =>
        have hcount : 0 < min (p.suspendCount + increment) maxSuspendCount := by
          rw [maxSuspendCount]
          omega
        exact .inr ⟨_, _, _, .suspend hcount, rfl⟩
  | resume now =>
      rw [respond, Pipeline.resume]
      split
      · exact .inl rfl
      · next count _ =>
        cases count with
        | zero => exact .inr ⟨_, _, _, .resumeLast now, rfl⟩
        | succ count => exact .inr ⟨_, _, _, .resume now (Nat.succ_pos count), rfl⟩
  | setLimit limit now =>
      rw [respond, Pipeline.setLimit]
      split
      · exact .inl rfl
      · exact .inr ⟨_, _, _, .setLimit limit now, rfl⟩
  | recheck now => exact .inr ⟨_, _, _, .recheck now, rfl⟩
  | restore records => exact h.elim

/-! ## What a change leaves -/

/-- A commit changes the graphs and the holds. -/
theorem exists_changeQueue_eq (h : p.ids.Nodup) (c : Commit) :
    ∃ graphs holds, (p.changeQueue c).2 = { p with graphs := graphs, holds := holds } := by
  have hjoined : ∃ graphs holds, (newItems c).foldl (enqueued c) (p.remaining c) =
      { p with graphs := graphs, holds := holds } := by
    apply List.foldlRecOn (newItems c) (enqueued c)
      (motive := fun q => ∃ graphs holds, q = { p with graphs := graphs, holds := holds })
      ⟨_, _, rfl⟩
    rintro _ ⟨graphs, holds, rfl⟩ item _
    rw [enqueued]
    split
    · exact ⟨_, _, rfl⟩
    · exact ⟨_, _, rfl⟩
  obtain ⟨graphs, holds, heq⟩ := hjoined
  rw [changeQueue_snd h, heq]
  exact ⟨_, _, rfl⟩

theorem Changes.isSettled (h : Changes p action q events pass) (hp : p.IsSettled) :
    q.IsSettled := by
  cases h with
  | apply c now => exact hp.changeQueue c
  | setActive _ => exact hp.moveTo _ rfl
  | setPending _ _ => exact hp.moveTo _ rfl
  | setHold context date _ queued => exact hp.setHold queued context date
  | suspend _ => exact hp.of_eq rfl rfl rfl
  | resume _ _ => exact hp.of_eq rfl rfl rfl
  | resumeLast _ => exact hp.of_eq rfl rfl rfl
  | setLimit limit _ => exact hp.of_eq rfl rfl rfl
  | recheck _ => exact hp

/-- What was announced last is left to the closing. -/
theorem Changes.activeFlag_eq (h : Changes p action q events pass) (hp : p.ids.Nodup) :
    q.activeFlag = p.activeFlag := by
  cases h with
  | apply c now =>
      obtain ⟨graphs, holds, heq⟩ := exists_changeQueue_eq hp c
      rw [heq]
  | _ => rfl

/-- Closing a change announces it, possibly after a pass. The pass leaves the same queue. -/
theorem exists_close_eq (h : q.IsSettled) (events : List Event) (pass : Option Instant) :
    ∃ r dispatch, SameQueue q r ∧ r.suspendCount = q.suspendCount ∧
      r.activeFlag = q.activeFlag ∧ q.close events pass = r.announce dispatch events := by
  cases pass with
  | none => exact ⟨q, [], .refl q, rfl, rfl, rfl⟩
  | some now =>
      have hpass := schedule_snd h.nodup_ids now
      have hsame := sameQueue_schedule h.nodup_ids now
      refine ⟨(q.schedule now).2, (q.schedule now).1, hsame, ?_, ?_, rfl⟩
      · rw [hpass]
        rfl
      · rw [hpass]
        rfl

/-- After any run, what was announced last is what is true. -/
theorem Reachable.activeFlag_eq {allowed : Pipeline → Action → Prop} (h : Reachable allowed p) :
    p.activeFlag = p.isActive := by
  induction h with
  | new name algorithm => rfl
  | step _ _ ih => exact activeFlag_perform ih _

end Pipeline

end OperationQueue
