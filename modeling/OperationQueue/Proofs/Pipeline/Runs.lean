/-
# Runs of a pipeline

A pipeline starts empty and is changed by requests only. What holds after any number of
requests is proved one request at a time; some statements are about all runs, and others
about runs whose requests a caller has checked first, so a run says which requests it
allows. Every request keeps a queue settled, hence a pass of any reachable pipeline does
what its description says.
-/
import OperationQueue.Pipeline.Control
import OperationQueue.Proofs.Pipeline.Committing
import OperationQueue.Proofs.Pipeline.Pass
import OperationQueue.Proofs.Pipeline.Restoring

namespace OperationQueue

namespace Pipeline

variable {p : Pipeline}

/-- A request that may change a pipeline. -/
inductive Action
  | apply (c : Commit) (now : Instant)
  | setActive (id : Identity)
  | setPending (id : Identity) (now : Instant)
  | setHold (id : Identity) (context : String) (date : Option Instant) (now : Instant)
  | suspend (increment : Nat)
  | resume (now : Instant)
  | setLimit (limit : Nat) (now : Instant)
  | recheck (now : Instant)
  | restore (records : List StoredOperation)

/-- The pipeline after a request. -/
def perform (p : Pipeline) : Action → Pipeline
  | .apply c now => (p.applyCommit c now).2
  | .setActive id => (p.setActive id).2
  | .setPending id now => (p.setPending id now).2
  | .setHold id context date now => (p.setHold id context date now).2
  | .suspend increment => (p.suspend increment).2.2
  | .resume now => (p.resume now).2.2
  | .setLimit limit now => (p.setLimit limit now).2
  | .recheck now => (p.recheck now).2
  | .restore records => (p.restore records).2

/-- A pipeline that some run leads to, by requests that are allowed where they are made. -/
inductive Reachable (allowed : Pipeline → Action → Prop) : Pipeline → Prop
  | new (name : String) (algorithm : Algorithm) : Reachable allowed (.new name algorithm)
  | step {p : Pipeline} {action : Action} (reached : Reachable allowed p)
      (ok : allowed p action) : Reachable allowed (p.perform action)

/-- Where everything is allowed, every list of requests is a run. -/
theorem Reachable.foldl {allowed : Pipeline → Action → Prop} (h : Reachable allowed p)
    (hallowed : ∀ q action, allowed q action) (actions : List Action) :
    Reachable allowed (actions.foldl perform p) := by
  induction actions generalizing p with
  | nil => exact h
  | cons action rest ih => exact ih (h.step (hallowed p action))

/-! ## What a request does -/

/-- A request that is neither a commit nor a restart. -/
def Action.KeepsQueue : Action → Prop
  | .apply _ _ | .restore _ => False
  | _ => True

/-- What such a request changes before it closes with a pass or without one. -/
inductive Adjusts (p : Pipeline) : Pipeline → Prop
  | status (id : Identity) {next : Status} (unfinished : next.isTerminal = false) :
      Adjusts p (p.moveTo id next)
  | hold (id : Identity) (context : String) (date : Option Instant)
      (queued : p.isQueued id = true) :
      Adjusts p { p with holds := p.holds.set id context date }
  | count (count : Nat) : Adjusts p { p with suspendCount := count }
  | limit (limit : Nat) : Adjusts p { p with limit := limit }
  | nothing : Adjusts p p

/-- Whatever is requested, it changes nothing, or it makes one adjustment and closes. -/
theorem perform_cases {action : Action} (h : action.KeepsQueue) :
    p.perform action = p ∨ ∃ q, Adjusts p q ∧
      ((∃ events, p.perform action = (q.announce [] events).2) ∨
        ∃ now events, p.perform action = (q.reschedule now events).2) := by
  cases action with
  | apply c now => exact h.elim
  | setActive id =>
      rw [perform, setActive]
      split
      · exact .inr ⟨_, .status id rfl, .inl ⟨_, rfl⟩⟩
      · exact .inl rfl
  | setPending id now =>
      rw [perform, setPending]
      split
      · exact .inr ⟨_, .status id rfl, .inr ⟨now, _, rfl⟩⟩
      · exact .inl rfl
  | setHold id context date now =>
      rw [perform, setHold]
      split
      · next hchanges =>
        have hqueued : p.isQueued id = true := (Bool.and_eq_true_iff.1 hchanges).1
        exact .inr ⟨_, .hold id context date hqueued, .inr ⟨now, _, rfl⟩⟩
      · exact .inl rfl
  | suspend increment =>
      rw [perform, suspend]
      split
      · exact .inl rfl
      · exact .inr ⟨_, .count _, .inl ⟨_, rfl⟩⟩
  | resume now =>
      rw [perform, resume]
      split
      · exact .inl rfl
      · dsimp only
        split
        · exact .inr ⟨_, .count _, .inr ⟨now, _, rfl⟩⟩
        · exact .inr ⟨_, .count _, .inl ⟨_, rfl⟩⟩
  | setLimit limit now =>
      rw [perform, setLimit]
      split
      · exact .inl rfl
      · exact .inr ⟨_, .limit limit, .inr ⟨now, _, rfl⟩⟩
  | recheck now => exact .inr ⟨p, .nothing, .inr ⟨now, _, rfl⟩⟩
  | restore records => exact h.elim

/-! ## Every request keeps a queue settled -/

theorem IsSettled.adjusts {q : Pipeline} (h : p.IsSettled) (hq : Adjusts p q) : q.IsSettled := by
  cases hq with
  | status id unfinished => exact h.moveTo id unfinished
  | hold id context date queued => exact h.setHold queued context date
  | count count => exact h.of_eq rfl rfl rfl
  | limit limit => exact h.of_eq rfl rfl rfl
  | nothing => exact h

theorem IsSettled.perform (h : p.IsSettled) (action : Action) : (p.perform action).IsSettled := by
  by_cases haction : action.KeepsQueue
  · rcases perform_cases (p := p) haction with
      heq | ⟨q, hq, ⟨events, heq⟩ | ⟨now, events, heq⟩⟩
    · rw [heq]
      exact h
    · rw [heq]
      exact (h.adjusts hq).announce _ _
    · rw [heq]
      exact (h.adjusts hq).reschedule now _
  · cases action with
    | apply c now => exact h.applyCommit c now
    | restore records => exact isSettled_restore p records
    | _ => exact absurd trivial haction

/-- A pipeline is settled after every run. -/
theorem Reachable.isSettled {allowed : Pipeline → Action → Prop} (h : Reachable allowed p) :
    p.IsSettled := by
  induction h with
  | new name algorithm => exact isSettled_new name algorithm
  | step _ _ ih => exact ih.perform _

/-! ## A pass of a reachable pipeline -/

/-- After any run, looking for work starts the operations that are chosen and nothing
else: they are handed out in order, the queue afterwards is the queue with them running,
and it is announced whether the pipeline is active if that has changed. -/
theorem recheck_eq_chosen {allowed : Pipeline → Action → Prop} (h : Reachable allowed p)
    (now : Instant) :
    p.recheck now =
      (⟨(p.chosen now).map fun op => { op with status := .active },
          if (p.afterStarts now).isActive = p.activeFlag then []
          else [.activeChanged (p.afterStarts now).isActive]⟩,
        { p.afterStarts now with activeFlag := (p.afterStarts now).isActive }) := by
  have hflag : (p.afterStarts now).activeFlag = p.activeFlag := rfl
  rw [recheck, reschedule, schedule_eq h.isSettled]
  dsimp only
  rw [announce, hflag]
  split
  · next hsame =>
    rw [hsame]
    rfl
  · rfl

/-- Requests for a queue of three operations: the first is held for five seconds, the
second waits for it, and the third runs. -/
def holdingRun : List Action :=
  let first := Operation.new (.ofNat 1)
  let second := (Operation.new (.ofNat 2)).addDependency first.id
  let third := Operation.new (.ofNat 3)
  [.setLimit 2 ⟨0, 0⟩, .suspend 1,
    .apply (((Commit.new 1).add first |>.add second).add third) ⟨0, 0⟩,
    .setHold first.id "retry" (some ⟨5, 0⟩) ⟨0, 0⟩, .resume ⟨0, 0⟩]

/-- When the hold has passed, the free slot goes to the first operation. -/
theorem chosen_after_hold :
    Reachable (fun _ _ => True) (holdingRun.foldl perform (.new "main" .flat)) ∧
      ((holdingRun.foldl perform (.new "main" .flat)).chosen ⟨5, 0⟩).map (·.id) =
        [Identity.ofNat 1] := by
  have hreachable := (Reachable.new "main" .flat).foldl (fun _ _ => trivial) holdingRun
  have hdispatch : ((holdingRun.foldl perform (.new "main" .flat)).recheck ⟨5, 0⟩).1.dispatch.map
      (·.id) = [Identity.ofNat 1] := by
    decide +kernel
  rw [recheck_eq_chosen hreachable] at hdispatch
  exact ⟨hreachable, by simpa [Function.comp_def] using hdispatch⟩

end Pipeline

end OperationQueue
