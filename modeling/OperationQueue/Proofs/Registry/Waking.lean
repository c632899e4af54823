/-
# Sleeping while operations are held

When every pipeline has looked for work, time alone can make more operations ready, and it does so
in one way: the latest date of an operation passes. So before the first date at which a waiting
operation stops being held there is nothing to do, and a runtime that sleeps no longer than until
then misses nothing. It sleeps for the time until that date, and this leads to the date or to an
earlier instant, unless the date lies in a leap second. Such a date has passed when the next second
begins, and the time until it ends later.
-/
import OperationQueue.Proofs.Instant
import OperationQueue.Proofs.Pipeline.Exhaustion
import OperationQueue.Proofs.Registry.Live
import OperationQueue.Runtime

namespace OperationQueue

namespace Pipeline

variable {p : Pipeline} {now u date : Instant} {place : Place}

/-- An operation starts as soon as its latest date has come, if a pass is made then: nothing else
keeps it waiting. -/
structure AwaitsDate (p : Pipeline) (place : Place) (date : Instant) : Prop where
  unsuspended : p.isSuspended = false
  slot : p.hasFreeSlot = true
  latest : p.holds.latest place.operation.id = some date
  ready : p.IsReady date place

/-! ## What time changes -/

theorem not_isExhausted_iff :
    ¬ p.IsExhausted u ↔ p.isSuspended = false ∧ p.hasFreeSlot = true ∧
      ∃ place ∈ p.places, p.IsReady u place := by
  rw [IsExhausted, ← hasFreeSlot_eq_false_iff, not_or, not_or, Bool.not_eq_true, Bool.not_eq_false]
  simp only [not_forall, not_not, exists_prop]

/-- Of what makes an operation ready only its dates depend on the instant. -/
theorem IsReady.of_free (h : p.IsReady u place)
    (hfree : ∀ date ∈ p.holds.latest place.operation.id, ¬ now < date) : p.IsReady now place :=
  ⟨h.pending, hfree, h.satisfied, h.oldest⟩

theorem AwaitsDate.not_isExhausted (h : p.AwaitsDate place date) (hplace : place ∈ p.places) :
    ¬ p.IsExhausted date :=
  not_isExhausted_iff.2 ⟨h.unsuspended, h.slot, place, hplace, h.ready⟩

/-- Where nothing could start, only an operation that awaits a date can start at another instant,
and only when that date has come. -/
theorem IsExhausted.exists_awaitsDate (h : p.IsExhausted now) (hu : ¬ p.IsExhausted u) :
    ∃ place ∈ p.places, ∃ date, p.AwaitsDate place date ∧ now < date ∧ date ≤ u := by
  obtain ⟨hunsuspended, hslot, place, hplace, hready⟩ := not_isExhausted_iff.1 hu
  have hnow : ¬ p.IsReady now place := fun hnow =>
    not_isExhausted_iff.2 ⟨hunsuspended, hslot, place, hplace, hnow⟩ h
  cases hlatest : p.holds.latest place.operation.id with
  | none =>
      refine absurd (hready.of_free fun date hdate => ?_) hnow
      rw [hlatest] at hdate
      cases hdate
  | some date =>
      refine ⟨place, hplace, date, ⟨hunsuspended, hslot, hlatest, ?_⟩, ?_, ?_⟩
      · apply hready.of_free
        intro other hother
        rw [hlatest] at hother
        cases hother
        exact lt_irrefl date
      · by_contra hpassed
        refine hnow (hready.of_free fun other hother => ?_)
        rw [hlatest] at hother
        cases hother
        exact hpassed
      · exact not_lt.1 (hready.free date hlatest)

/-- So nothing could start later either, as long as no awaited date has come. -/
theorem IsExhausted.forall_iff (h : p.IsExhausted now) (stop : Instant) :
    (∀ u, now ≤ u → u < stop → p.IsExhausted u) ↔
      ∀ place ∈ p.places, ∀ date, p.AwaitsDate place date → ¬ date < stop := by
  constructor
  · intro hidle place hplace date hawaits hlt
    have hlater : now ≤ date := by
      by_contra hpassed
      have hready : p.IsReady now place := by
        apply hawaits.ready.of_free
        intro other hother
        rw [hawaits.latest] at hother
        cases hother
        exact not_lt.2 (le_of_lt (not_le.1 hpassed))
      exact not_isExhausted_iff.2 ⟨hawaits.unsuspended, hawaits.slot, place, hplace, hready⟩ h
    exact hawaits.not_isExhausted hplace (hidle date hlater hlt)
  · intro hdates u _ hlt
    by_contra hu
    obtain ⟨place, hplace, date, hawaits, -, hcome⟩ := h.exists_awaitsDate hu
    exact hdates place hplace date hawaits (lt_of_le_of_lt hcome hlt)

/-- A date that lies ahead and that an operation awaits is reported, or an earlier one is. -/
theorem AwaitsDate.nextHoldExpiry_le (h : p.AwaitsDate place date) (hplace : place ∈ p.places)
    (hahead : now < date) : ∃ first, p.nextHoldExpiry now = some first ∧ first ≤ date := by
  have hpending : place.operation ∈ p.operations.filter (·.status == .pending) :=
    List.mem_filter.2 ⟨mem_operations_of_mem_places hplace, by simp [h.ready.pending]⟩
  have hmem : date ∈ (((p.operations.filter (·.status == .pending)).map (·.id)).filterMap
      p.holds.latest).filter fun date => now < date := by
    refine List.mem_filter.2 ⟨List.mem_filterMap.2 ⟨_, List.mem_map_of_mem hpending, h.latest⟩, ?_⟩
    simpa using hahead
  cases hfirst : p.nextHoldExpiry now with
  | none =>
      rw [List.min?_eq_none_iff.1 hfirst] at hmem
      cases hmem
  | some first => exact ⟨first, rfl, (List.min?_eq_some_iff.1 hfirst).2 date hmem⟩

/-- What is reported lies ahead. -/
theorem lt_of_nextHoldExpiry_eq_some {first : Instant} (h : p.nextHoldExpiry now = some first) :
    now < first := by
  simpa using (List.mem_filter.1 (List.min?_eq_some_iff.1 h).1).2

/-! ## After a pass -/

theorem isExhausted_recheck (h : p.IsSettled) (now : Instant) :
    (p.recheck now).2.IsExhausted now :=
  (isExhausted_schedule h now).announce _ _

theorem activeFlag_recheck (p : Pipeline) (now : Instant) :
    (p.recheck now).2.activeFlag = (p.recheck now).2.isActive := by
  rw [recheck, reschedule, announce_snd]
  rfl

end Pipeline

namespace Registry

variable {σ : Type} {r : Registry σ} {now u : Instant} {name : String} {m : Member}

/-- The registry after each of its pipelines has looked for work at an instant. -/
def passed (r : Registry σ) (now : Instant) : Registry σ :=
  { r with members := r.members.map fun _ m => { m with pipeline := (m.pipeline.recheck now).2 } }

theorem get?_passed (hm : r.members.get? name = some m) (now : Instant) :
    (r.passed now).members.get? name =
      some { m with pipeline := (m.pipeline.recheck now).2 } := by
  rw [passed, OrderedMap.get?_map, hm, Option.map_some]

theorem exists_of_get?_passed (hm : (r.passed now).members.get? name = some m) :
    ∃ before, r.members.get? name = some before ∧
      { before with pipeline := (before.pipeline.recheck now).2 } = m := by
  rw [passed, OrderedMap.get?_map] at hm
  exact Option.map_eq_some_iff.1 hm

/-- Looking for work hands out nothing, announces nothing and changes nothing, in any of the
pipelines. -/
def IsIdle (r : Registry σ) (u : Instant) : Prop :=
  ∀ name m, r.members.get? name = some m → m.pipeline.recheck u = (.empty, m.pipeline)

/-- The instant at which a runtime wakes up by itself that goes to sleep at another. -/
def wakesAt (r : Registry σ) (now : Instant) (maxWait : Nat) : Instant :=
  now.plus (Runtime.nextWakeup r now maxWait)

/-- The first date of a pipeline is reported for the registry, or an earlier one is. -/
theorem nextHoldExpiry_le (hm : r.members.get? name = some m) {date : Instant}
    (hdate : m.pipeline.nextHoldExpiry now = some date) :
    ∃ first, r.nextHoldExpiry now = some first ∧ first ≤ date := by
  have hmem : date ∈ r.members.values.filterMap fun m => m.pipeline.nextHoldExpiry now :=
    List.mem_filterMap.2 ⟨m, OrderedMap.mem_values_iff.2 ⟨name, hm⟩, hdate⟩
  cases hfirst : r.nextHoldExpiry now with
  | none =>
      rw [List.min?_eq_none_iff.1 hfirst] at hmem
      cases hmem
  | some first => exact ⟨first, rfl, (List.min?_eq_some_iff.1 hfirst).2 date hmem⟩

theorem lt_of_nextHoldExpiry {first : Instant} (h : r.nextHoldExpiry now = some first) :
    now < first := by
  obtain ⟨m, -, hm⟩ := List.mem_filterMap.1 (List.min?_eq_some_iff.1 h).1
  exact Pipeline.lt_of_nextHoldExpiry_eq_some hm

/-- The runtime does not sleep longer than it may. -/
theorem nextWakeup_le (r : Registry σ) (now : Instant) (maxWait : Nat) :
    Runtime.nextWakeup r now maxWait ≤ maxWait := by
  rw [Runtime.nextWakeup]
  split
  · exact min_le_right _ _
  · exact le_refl _

/-- It wakes up at the first date or earlier, unless that date lies in a leap second. -/
theorem wakesAt_le {first : Instant} (hfirst : r.nextHoldExpiry now = some first)
    (hregular : first.isLeap = false) (maxWait : Nat) : r.wakesAt now maxWait ≤ first := by
  rw [wakesAt, Runtime.nextWakeup, hfirst]
  exact le_trans (Instant.plus_mono now (min_le_left _ _))
    (Instant.plus_nanosUntil_le (le_of_lt (lt_of_nextHoldExpiry hfirst)) hregular)

variable [Store σ] [RowStore σ]

/-- Where all pipelines have looked for work, being idle is having nothing that could start. -/
theorem IsSteady.isIdle_passed_iff (h : r.IsSteady) :
    (r.passed now).IsIdle u ↔
      ∀ name m, r.members.get? name = some m → (m.pipeline.recheck now).2.IsExhausted u := by
  have hiff {name : String} {m : Member} (hm : r.members.get? name = some m) :
      (m.pipeline.recheck now).2.recheck u = (.empty, (m.pipeline.recheck now).2) ↔
        (m.pipeline.recheck now).2.IsExhausted u :=
    Pipeline.recheck_eq_empty_iff ((h.settled hm).reschedule now [])
      (Pipeline.activeFlag_recheck m.pipeline now)
  constructor
  · intro hidle name m hm
    have hempty := hidle name _ (get?_passed hm now)
    dsimp only at hempty
    exact (hiff hm).1 hempty
  · intro hexhausted name member hmember
    obtain ⟨m, hm, rfl⟩ := exists_of_get?_passed hmember
    dsimp only
    exact (hiff hm).2 (hexhausted name m hm)

/-- When a pipeline is not idle any more, the first date has come. -/
theorem IsSteady.exists_nextHoldExpiry (h : r.IsSteady) (hbusy : ¬ (r.passed now).IsIdle u) :
    ∃ first, (r.passed now).nextHoldExpiry now = some first ∧ first ≤ u := by
  rw [h.isIdle_passed_iff] at hbusy
  simp only [not_forall] at hbusy
  obtain ⟨name, m, hm, hready⟩ := hbusy
  obtain ⟨place, hplace, date, hawaits, hahead, hcome⟩ :=
    (Pipeline.isExhausted_recheck (h.settled hm) now).exists_awaitsDate hready
  obtain ⟨ofPipeline, hofPipeline, hle⟩ := hawaits.nextHoldExpiry_le hplace hahead
  obtain ⟨first, hfirst, hle'⟩ := nextHoldExpiry_le (get?_passed hm now) hofPipeline
  exact ⟨first, hfirst, le_trans hle' (le_trans hle hcome)⟩

/-- The registry is idle up to an instant exactly if no date that is all an operation waits for
lies before it. -/
theorem IsSteady.forall_isIdle_iff (h : r.IsSteady) (stop : Instant) :
    (∀ u, now ≤ u → u < stop → (r.passed now).IsIdle u) ↔
      ∀ name m, (r.passed now).members.get? name = some m →
        ∀ place ∈ m.pipeline.places, ∀ date, m.pipeline.AwaitsDate place date → ¬ date < stop := by
  have hpipeline {name : String} {m : Member} (hm : r.members.get? name = some m) :=
    (Pipeline.isExhausted_recheck (h.settled hm) now).forall_iff stop
  simp only [h.isIdle_passed_iff]
  constructor
  · intro hidle name member hmember
    obtain ⟨m, hm, rfl⟩ := exists_of_get?_passed hmember
    exact (hpipeline hm).1 fun u hu hlt => hidle u hu hlt name m hm
  · intro hdates u hu hlt name m hm
    exact (hpipeline hm).2 (hdates name _ (get?_passed hm now)) u hu hlt

/-- After all pipelines have looked for work, a runtime does not sleep longer than it may, and
nothing starts and nothing changes before the first date that is reported. Nothing does before the
runtime wakes up exactly if no date that is all an operation waits for lies before that instant; so
it is if the first date lies in no leap second. -/
theorem Live.isIdle_until_wakesAt (h : Live r) (now : Instant) (maxWait : Nat) :
    Runtime.nextWakeup (r.passed now) now maxWait ≤ maxWait ∧
      (∀ u, (∀ first, (r.passed now).nextHoldExpiry now = some first → u < first) →
        (r.passed now).IsIdle u) ∧
      ((∀ u, now ≤ u → u < (r.passed now).wakesAt now maxWait → (r.passed now).IsIdle u) ↔
        ∀ name m, (r.passed now).members.get? name = some m →
          ∀ place ∈ m.pipeline.places, ∀ date, m.pipeline.AwaitsDate place date →
            ¬ date < (r.passed now).wakesAt now maxWait) ∧
      ((∀ first, (r.passed now).nextHoldExpiry now = some first → first.isLeap = false) →
        ∀ u, now ≤ u → u < (r.passed now).wakesAt now maxWait → (r.passed now).IsIdle u) := by
  have hsteady := h.isSteady
  refine ⟨nextWakeup_le _ now maxWait, fun u hbefore => ?_, hsteady.forall_isIdle_iff _,
    fun hregular u _ hlt => ?_⟩
  · by_contra hbusy
    obtain ⟨first, hfirst, hcome⟩ := hsteady.exists_nextHoldExpiry hbusy
    exact not_lt.2 hcome (hbefore first hfirst)
  · by_contra hbusy
    obtain ⟨first, hfirst, hcome⟩ := hsteady.exists_nextHoldExpiry hbusy
    have hwakes := wakesAt_le hfirst (hregular first hfirst) maxWait
    exact not_lt.2 hcome (lt_of_lt_of_le hlt hwakes)

/-! ## A retry -/

/-- Ask something of a pipeline. -/
def ask (r : Registry σ) (name : String) (action : Pipeline.Action) : Registry σ :=
  match r.members.get? name with
  | some m => r.setPipeline name (m.pipeline.perform action)
  | none => r

theorem Live.ask (h : Live r) (name : String) (action : Pipeline.Action) :
    Live (r.ask name action) := by
  rw [Registry.ask]
  split
  · next m hm => exact h.control hm action
  · exact h

/-- A registry with a pipeline whose only operation ran, is to be tried again at a date, and has
been returned to waiting. -/
def retrying (date : Instant) : Registry MemoryStore :=
  let candidate : Candidate := ⟨"main", .commit, 1, .empty, false, .recorder⟩
  let op := Operation.new (.ofNat 1)
  ((((new .empty).register candidate).2.ask "main" (.apply ((Commit.new 1).add op) ⟨0, 0⟩)).ask "main"
    (.setHold op.id "retry" (some date) ⟨0, 0⟩)).ask "main" (.setPending op.id ⟨0, 0⟩)

theorem live_retrying (date : Instant) : Live (retrying date) := by
  have hnumbered : RowStore.IsNumbered MemoryStore.empty := trivial
  dsimp only [retrying]
  exact .ask (.ask (.ask (.register (.new hnumbered) _) _ _) _ _) _ _

omit [Store σ] [RowStore σ] in
theorem not_isIdle_of_starts (name : String) (id : Identity)
    (h : (r.members.get? name).map (fun m => (m.pipeline.recheck u).1.dispatch.map (·.id)) =
      some [id]) : ¬ r.IsIdle u := by
  intro hidle
  obtain ⟨m, hm, hdispatch⟩ := Option.map_eq_some_iff.1 h
  rw [hidle name m hm] at hdispatch
  cases hdispatch

/-- A runtime that goes to sleep ten seconds before wakes up at the date, and until then it misses
nothing. -/
theorem isIdle_until_wakesAt_retrying :
    ((retrying ⟨59, 500000000⟩).passed ⟨50, 0⟩).wakesAt ⟨50, 0⟩ 20000000000 = ⟨59, 500000000⟩ ∧
      ((retrying ⟨59, 500000000⟩).passed ⟨50, 0⟩).IsIdle ⟨59, 499999999⟩ ∧
      ¬ ((retrying ⟨59, 500000000⟩).passed ⟨50, 0⟩).IsIdle ⟨59, 500000000⟩ := by
  have hwakes : ((retrying ⟨59, 500000000⟩).passed ⟨50, 0⟩).wakesAt ⟨50, 0⟩ 20000000000 =
      ⟨59, 500000000⟩ := by
    decide +kernel
  have hfirst : ((retrying ⟨59, 500000000⟩).passed ⟨50, 0⟩).nextHoldExpiry ⟨50, 0⟩ =
      some ⟨59, 500000000⟩ := by
    decide +kernel
  obtain ⟨-, -, -, hidle⟩ :=
    (live_retrying ⟨59, 500000000⟩).isIdle_until_wakesAt ⟨50, 0⟩ 20000000000
  refine ⟨hwakes, hidle (fun first hsome => ?_) ⟨59, 499999999⟩ (by decide) ?_,
    not_isIdle_of_starts "main" (.ofNat 1) (by decide +kernel)⟩
  · rw [hfirst] at hsome
    cases hsome
    rfl
  · rw [hwakes]
    decide

/-- With a date in a leap second it wakes up half a second after the operation could start. -/
theorem not_isIdle_until_wakesAt_retrying :
    Live (retrying ⟨59, 1500000000⟩) ∧
      (⟨50, 0⟩ : Instant) ≤ ⟨60, 0⟩ ∧
      ⟨60, 0⟩ < ((retrying ⟨59, 1500000000⟩).passed ⟨50, 0⟩).wakesAt ⟨50, 0⟩ 20000000000 ∧
      ¬ ((retrying ⟨59, 1500000000⟩).passed ⟨50, 0⟩).IsIdle ⟨60, 0⟩ := by
  refine ⟨live_retrying _, by decide, by decide +kernel, ?_⟩
  exact not_isIdle_of_starts "main" (.ofNat 1) (by decide +kernel)

end Registry

end OperationQueue
