/-
# No pass is missed

Not every request ends with a pass. Marking an operation as running, suspending and taking back
a suspension that is not the last one close without looking for work, and a request that changes
nothing does not look either. No work is missed by this: after a pass nothing more could start at
its instant, and what closes without a pass starts from such a state and only takes work away, or
leaves the pipeline suspended.
-/
import OperationQueue.Proofs.Pipeline.Responding

namespace OperationQueue

namespace Pipeline

variable {p q : Pipeline} {action : Action} {events : List Event} {now : Instant}

/-- A request that gives a certain instant if it gives one, and that is no restart. -/
def Action.IsAt (now : Instant) : Action → Prop
  | .apply _ given | .setPending _ given | .setHold _ _ _ given | .resume given
  | .setLimit _ given | .recheck given => given = now
  | .setActive _ | .suspend _ => True
  | .restore _ => False

/-- Nothing could start now: the pipeline is suspended, as many operations run as may, or none
is ready. -/
def IsExhausted (p : Pipeline) (now : Instant) : Prop :=
  p.isSuspended = true ∨ (p.limit ≠ 0 ∧ p.limit ≤ p.activeCount) ∨
    ∀ place ∈ p.places, ¬ p.IsReady now place

/-! ## What a pass would choose -/

theorem readyPlaces_eq_nil_iff :
    p.readyPlaces now = [] ↔ ∀ place ∈ p.places, ¬ p.IsReady now place := by
  simp only [List.eq_nil_iff_forall_not_mem, mem_readyPlaces_iff, not_and]

theorem hasFreeSlot_eq_false_iff :
    p.hasFreeSlot = false ↔ p.limit ≠ 0 ∧ p.limit ≤ p.activeCount := by
  simp [hasFreeSlot]

/-- A pass chooses nothing exactly if nothing could start. -/
theorem chosen_eq_nil_iff : p.chosen now = [] ↔ p.IsExhausted now := by
  have hcapacity (n : Nat) :
      p.capacity n = 0 ↔ (p.limit ≠ 0 ∧ p.limit ≤ p.activeCount) ∨ n = 0 := by
    rw [capacity]
    split <;> omega
  rw [IsExhausted, ← readyPlaces_eq_nil_iff, chosen]
  by_cases hsuspended : p.isSuspended = true
  · simp [hsuspended]
  · simp [hsuspended, hcapacity]

/-! ## After a pass -/

/-- A run of starts that is long enough ends when no slot is free or nobody is ready. -/
theorem exhausted_startUpTo (h : p.IsSettled) {n : Nat} (hn : (p.readyPlaces now).length ≤ n) :
    (startUpTo now n p).2.hasFreeSlot = false ∨ (startUpTo now n p).2.readyPlaces now = [] := by
  induction n generalizing p with
  | zero => exact .inr (List.eq_nil_of_length_eq_zero (Nat.le_zero.1 hn))
  | succ n ih =>
      rw [startUpTo]
      by_cases hslot : p.hasFreeSlot = true
      · rw [if_pos hslot]
        have hbest := isBest_nextReady? h now
        cases hnext : p.nextReady? now with
        | none =>
            rw [hnext] at hbest
            refine .inr (readyPlaces_eq_nil_iff.2 fun place hplace hready => hbest place ?_)
            simpa using ⟨hplace, hready⟩
        | some place =>
            rw [hnext] at hbest
            have hmoved : (p.moveTo place.operation.id .active).IsSettled := h.moveTo _ rfl
            rw [moveTo, update_eq_mapOperations h.nodup_ids] at hmoved
            dsimp only
            rw [update_eq_mapOperations h.nodup_ids]
            rw [readyPlaces_eq_cons h.nodup_ids hbest, List.length_cons] at hn
            exact ih hmoved (Nat.le_of_succ_le_succ hn)
      · rw [if_neg hslot]
        exact .inl (Bool.eq_false_iff.2 hslot)

theorem isExhausted_schedule (h : p.IsSettled) (now : Instant) :
    (p.schedule now).2.IsExhausted now := by
  rw [schedule]
  split
  · next hsuspended => exact .inl hsuspended
  · rcases exhausted_startUpTo h (length_readyPlaces_le p now) with hfull | hnobody
    · exact .inr (.inl (hasFreeSlot_eq_false_iff.1 hfull))
    · exact .inr (.inr (readyPlaces_eq_nil_iff.1 hnobody))

/-- What was announced last makes nobody ready. -/
theorem IsExhausted.announce (h : p.IsExhausted now) (dispatch : List Operation)
    (events : List Event) : (p.announce dispatch events).2.IsExhausted now := by
  rw [announce_snd]
  rcases h with hsuspended | hfull | hnobody
  · exact .inl hsuspended
  · exact .inr (.inl hfull)
  · refine .inr (.inr fun place hplace hready => hnobody place hplace ?_)
    exact ⟨hready.pending, hready.free, hready.satisfied, hready.oldest⟩

/-- A pass of a pipeline that was announced as it is does nothing exactly if nothing could start. -/
theorem recheck_eq_empty_iff (h : p.IsSettled) (hflag : p.activeFlag = p.isActive) :
    p.recheck now = (.empty, p) ↔ p.IsExhausted now := by
  have hpass : p.recheck now =
      (p.afterStarts now).announce ((p.chosen now).map fun op => { op with status := .active }) [] := by
    rw [recheck, reschedule, schedule_eq h]
  rw [← chosen_eq_nil_iff, hpass]
  constructor
  · intro hempty
    have hdispatch := dispatch_announce (p := p.afterStarts now)
      ((p.chosen now).map fun op => { op with status := .active }) []
    rw [hempty] at hdispatch
    exact List.map_eq_nil_iff.1 hdispatch.symm
  · intro hnone
    have hsame : p.afterStarts now = p := by
      rw [afterStarts, hnone]
      exact mapOperations_eq_self fun op _ => op.activate_nil
    rw [hsame, hnone, announce, if_pos hflag.symm]
    rfl

/-! ## Without a pass -/

/-- Marking an operation as running takes a slot or nothing. -/
theorem activeCount_le_mapOperations {f : Operation → Operation}
    (hf : ∀ op, op.status = .active → (f op).status = .active) :
    p.activeCount ≤ (p.mapOperations f).activeCount := by
  simp only [activeCount, activeOperations, operations_mapOperations,
    ← List.countP_eq_length_filter, List.countP_map]
  refine List.countP_mono_left fun op _ hactive => ?_
  simpa using hf op (by simpa using hactive)

/-- Where an operation is marked as running, nobody else becomes ready. -/
theorem IsExhausted.moveTo_active (hp : p.ids.Nodup) (h : p.IsExhausted now) (id : Identity) :
    (p.moveTo id .active).IsExhausted now := by
  rw [moveTo, update_eq_mapOperations hp]
  rcases h with hsuspended | ⟨hlimit, hfull⟩ | hnobody
  · exact .inl hsuspended
  · refine .inr (.inl ⟨hlimit, Nat.le_trans hfull (activeCount_le_mapOperations ?_)⟩)
    intro op hactive
    split
    · rfl
    · exact hactive
  · refine .inr (.inr fun place hplace hready => ?_)
    have hid : ∀ op : Operation,
        (if op.id = id then { op with status := .active } else op).id = op.id :=
      ((Operation.KeepsPlace.status .active).ite (·.id = id)).id
    rw [isReady_mapOperations hid] at hready
    rw [places_mapOperations] at hplace
    obtain ⟨old, hold, rfl⟩ := List.mem_map.1 hplace
    by_cases hmarked : old.operation.id = id
    · have hpending := hready.pending
      simp [hmarked] at hpending
    · simp only [if_neg hmarked] at hready
      exact hnobody old hold hready

/-- A change that is closed without a pass calls for none. -/
theorem Changes.isExhausted_of_none (h : Changes p action q events none) (hp : p.ids.Nodup)
    (hbefore : p.IsExhausted now) : q.IsExhausted now := by
  cases h with
  | setActive _ => exact hbefore.moveTo_active hp _
  | suspend hcount => exact .inl (decide_eq_true hcount)
  | resume _ hcount => exact .inl (decide_eq_true hcount)

/-! ## Runs at one instant -/

theorem Action.IsAt.goesOn (h : action.IsAt now) : action.GoesOn := by
  cases action <;> trivial

/-- The pass that closes a change is made at the instant that the request gives. -/
theorem Changes.eq_of_isAt {given : Instant} (h : Changes p action q events (some given))
    (hat : action.IsAt now) : given = now := by
  cases h <;> exact hat

theorem IsExhausted.perform (hp : p.IsSettled) (h : p.IsExhausted now) (hat : action.IsAt now) :
    (p.perform action).IsExhausted now := by
  rw [← respond_snd]
  rcases respond_cases (p := p) hat.goesOn with heq | ⟨q, events, pass, hchange, heq⟩
  · rw [heq]
    exact h
  · rw [heq]
    cases pass with
    | some given =>
        rw [hchange.eq_of_isAt hat]
        exact (isExhausted_schedule (hchange.isSettled hp) now).announce _ _
    | none => exact (hchange.isExhausted_of_none hp.nodup_ids h).announce _ _

/-- After a run in which every request gives the same instant, nothing could start at it: another
pass hands out nothing, announces nothing and changes nothing. At any instant, that a pass does
nothing and that nothing could start is the same. -/
theorem Reachable.isExhausted (h : Reachable (fun _ action => action.IsAt now) p) :
    p.IsExhausted now ∧ p.recheck now = (.empty, p) ∧
      ∀ later, p.IsExhausted later ↔ p.recheck later = (.empty, p) := by
  have hexhausted : p.IsExhausted now := by
    induction h with
    | new name algorithm => exact .inr (.inr fun place hplace => (nomatch hplace))
    | step reached hat ih => exact ih.perform reached.isSettled hat
  have hiff (later : Instant) : p.IsExhausted later ↔ p.recheck later = (.empty, p) :=
    (recheck_eq_empty_iff h.isSettled h.activeFlag_eq).symm
  exact ⟨hexhausted, (hiff now).1 hexhausted, hiff⟩

/-- Requests of one instant, most of which close without a pass. Of the three operations the
limit lets one run; it is marked as running once more, and the queue is suspended twice and
resumed once. -/
def impatientRun : List Action :=
  let first := Operation.new (.ofNat 1)
  let second := Operation.new (.ofNat 2)
  let third := Operation.new (.ofNat 3)
  [.setLimit 1 ⟨3, 0⟩, .apply (((Commit.new 1).add first |>.add second).add third) ⟨3, 0⟩,
    .suspend 2, .setActive third.id, .resume ⟨3, 0⟩, .setPending first.id ⟨3, 0⟩, .resume ⟨3, 0⟩,
    .setActive second.id]

/-- In the end two operations run in the place of one and the returned one waits for a slot. -/
theorem isExhausted_impatientRun :
    (impatientRun.foldl perform (.new "main" .flat)).IsExhausted ⟨3, 0⟩ ∧
      (impatientRun.foldl perform (.new "main" .flat)).isSuspended = false ∧
      (impatientRun.foldl perform (.new "main" .flat)).operations.map (fun op =>
          (op.id, op.status)) =
        [(.ofNat 1, .pending), (.ofNat 2, .active), (.ofNat 3, .active)] := by
  have hreachable : Reachable (fun _ action => action.IsAt ⟨3, 0⟩)
      (impatientRun.foldl perform (.new "main" .flat)) := by
    simp only [impatientRun, List.foldl_cons, List.foldl_nil]
    exact .step (.step (.step (.step (.step (.step (.step (.step (.new _ _) rfl) rfl) trivial)
      trivial) rfl) rfl) rfl) trivial
  exact ⟨hreachable.isExhausted.1, by decide +kernel, by decide +kernel⟩

end Pipeline

end OperationQueue
