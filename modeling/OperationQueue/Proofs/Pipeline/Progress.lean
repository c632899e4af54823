/-
# Progress

A queue that does not wait in a circle does not stand still. Among the operations whose
turn it is there is one that waits for none of the others, and where an operation looks
for its dependencies there are only operations whose turn it is. So, if nothing runs and
nothing is held, this one is ready, and the limit leaves room for it.
-/
import Mathlib.Data.Fintype.Card
import Mathlib.Data.Set.Finite.List
import Mathlib.Order.WellFounded
import OperationQueue.Proofs.Pipeline.Waiting

namespace OperationQueue

namespace Pipeline

open Relation

variable {p : Pipeline} {now : Instant}

/-- In a list that a relation does not run through in a circle, some member is related to
no other. -/
theorem exists_related_to_none {α : Type} {r : α → α → Prop} {xs : List α}
    (hacyclic : ∀ a, ¬ TransGen r a a) (hne : xs ≠ []) : ∃ a ∈ xs, ∀ b ∈ xs, ¬ r a b := by
  let below (a b : { x // x ∈ xs }) : Prop := TransGen r b.1 a.1
  have : IsTrans _ below := ⟨fun _ _ _ hab hbc => hbc.trans hab⟩
  have : Std.Irrefl below := ⟨fun a h => hacyclic a.1 h⟩
  have : Finite { x // x ∈ xs } := xs.finite_toSet.to_subtype
  have hwellFounded : WellFounded below := Finite.wellFounded_of_trans_of_irrefl below
  obtain ⟨x, hx⟩ := List.exists_mem_of_ne_nil xs hne
  obtain ⟨a, -, ha⟩ := hwellFounded.has_min Set.univ ⟨⟨x, hx⟩, trivial⟩
  exact ⟨a.1, a.2, fun b hb hr => ha ⟨b, hb⟩ trivial (.single hr)⟩

/-- The places whose turn it is: all of them under the flat algorithm, and those of the
oldest graph under the commit algorithm. -/
def turnPlaces (p : Pipeline) : List Place :=
  p.places.filter fun place => p.algorithm = .commit → p.IsOldest place.snapshot

theorem mem_turnPlaces_iff {place : Place} :
    place ∈ p.turnPlaces ↔ place ∈ p.places ∧
      (p.algorithm = .commit → p.IsOldest place.snapshot) := by
  simp only [turnPlaces, List.mem_filter, decide_eq_true_eq]

/-- An operation stands at a place of its graph. -/
theorem exists_place_of_mem_operationsAt {snapshot : Snapshot} {op : Operation}
    (h : op ∈ p.operationsAt snapshot) :
    ∃ place ∈ p.places, place.snapshot = snapshot ∧ place.operation = op := by
  cases hg : p.graphs.get? snapshot with
  | none => simp [operationsAt, hg] at h
  | some g =>
      rw [operationsAt_of_get? hg] at h
      obtain ⟨index, hindex⟩ := List.mem_iff_getElem?.1 h
      exact ⟨⟨snapshot, index, op⟩, mem_places_iff.2 ⟨g, hg, hindex⟩, rfl, rfl⟩

/-- It is somebody's turn as long as anything is queued. -/
theorem turnPlaces_ne_nil (h : p.IsSettled) (hne : p.operations ≠ []) : p.turnPlaces ≠ [] := by
  rw [← map_operation_places] at hne
  have hpairwise := pairwise_places p
  cases hplaces : p.places with
  | nil => simp [hplaces] at hne
  | cons first rest =>
      rw [hplaces] at hpairwise
      have hfirst : ∀ place ∈ p.places, first.snapshot ≤ place.snapshot := by
        intro place hplace
        rw [hplaces] at hplace
        rcases List.mem_cons.1 hplace with rfl | hplace
        · exact UInt64.le_refl _
        · rcases (List.pairwise_cons.1 hpairwise).1 place hplace with hlt | ⟨heq, -⟩
          · exact UInt64.le_of_lt hlt
          · exact UInt64.le_of_eq heq
      have hturn : first ∈ p.turnPlaces := by
        refine mem_turnPlaces_iff.2 ⟨hplaces ▸ List.mem_cons_self, fun _ s hs => ?_⟩
        obtain ⟨g, hg⟩ := OrderedMap.mem_keys_iff.1 hs
        obtain ⟨op, hop⟩ := List.exists_mem_of_ne_nil _ (h.operations_ne_nil hg)
        obtain ⟨place, hplace, rfl, -⟩ :=
          exists_place_of_mem_operationsAt ((operationsAt_of_get? hg).symm ▸ hop)
        exact hfirst place hplace
      exact List.ne_nil_of_mem hturn

/-- If everything waits and nothing is held, and nobody waits in a circle, then somebody
is ready. -/
theorem exists_isReady (h : p.IsSettled) (hacyclic : ¬ p.HasCycle) (hne : p.operations ≠ [])
    (hpending : ∀ op ∈ p.operations, op.status = .pending)
    (hfree : ∀ op ∈ p.operations, p.holds.isHeld op.id now = false) :
    ∃ place ∈ p.places, p.IsReady now place := by
  let waits (a b : Place) : Prop := p.WaitsFor a.operation.id b.operation.id
  have hwaits : ∀ a, ¬ TransGen waits a a := by
    intro a hcycle
    have hlift : TransGen p.WaitsFor a.operation.id a.operation.id :=
      hcycle.lift (fun place : Place => place.operation.id) fun _ _ hab => hab
    exact hacyclic ⟨_, hlift⟩
  obtain ⟨place, hturn, hnone⟩ := exists_related_to_none hwaits (turnPlaces_ne_nil h hne)
  obtain ⟨hplace, holdest⟩ := mem_turnPlaces_iff.1 hturn
  have hop := mem_operations_of_mem_places hplace
  refine ⟨place, hplace, hpending _ hop, fun date hdate => ?_, fun dep hdep hqueued => ?_, holdest⟩
  · have hheld := hfree _ hop
    rw [HoldTable.isHeld, Option.mem_def.1 hdate] at hheld
    simpa using hheld
  · obtain ⟨s, -, hwhere, hids⟩ := hqueued
    obtain ⟨op, hopAt, rfl⟩ := List.mem_map.1 hids
    obtain ⟨other, hother, rfl, rfl⟩ := exists_place_of_mem_operationsAt hopAt
    have hotherTurn : other ∈ p.turnPlaces := by
      refine mem_turnPlaces_iff.2 ⟨hother, fun hcommit => ?_⟩
      rcases hwhere with hsame | ⟨hflat, -⟩
      · rw [hsame]
        exact holdest hcommit
      · rw [hflat] at hcommit
        cases hcommit
    refine hnone other hotherTurn ⟨?_, place.operation, hop, rfl, hdep⟩
    exact List.mem_map_of_mem (mem_operations_of_mem_places hother)

/-- A pass chooses somebody if somebody is ready and nothing runs. -/
theorem chosen_ne_nil (hsuspended : p.isSuspended = false) (hidle : p.activeCount = 0)
    {place : Place} (hplace : place ∈ p.places) (hready : p.IsReady now place) :
    p.chosen now ≠ [] := by
  have hmem : place ∈ p.readyPlaces now := mem_readyPlaces_iff.2 ⟨hplace, hready⟩
  have hlength : 0 < (p.readyPlaces now).length := List.length_pos_of_mem hmem
  have hcapacity : 0 < p.capacity (p.readyPlaces now).length := by
    rw [capacity]
    split
    · exact hlength
    · omega
  rw [chosen, if_neg (by simp [hsuspended])]
  simp only [ne_eq, List.map_eq_nil_iff, List.take_eq_nil_iff, not_or]
  exact ⟨by omega, List.ne_nil_of_mem hmem⟩

theorem mem_operations_of_mem_chosen {op : Operation} (h : op ∈ p.chosen now) :
    op ∈ p.operations := by
  rw [chosen] at h
  split at h
  · cases h
  · obtain ⟨place, hplace, rfl⟩ := List.mem_map.1 h
    have hready := mem_readyPlaces_iff.1 (List.mem_of_mem_take hplace)
    exact mem_operations_of_mem_places hready.1

theorem isActive_activate_of_mem {chosen : List Identity} {op : Operation} (h : op.id ∈ chosen) :
    (op.activate chosen).status = .active := by
  simp [Operation.activate, h]

/-- After a pass of a queue without a cycle something runs, if there is something to run. -/
theorem exists_active_afterStarts (h : p.IsSettled) (hacyclic : ¬ p.HasCycle)
    (hne : p.operations ≠ []) (hsuspended : p.isSuspended = false)
    (hfree : ∀ op ∈ p.operations, op.status = .pending → p.holds.isHeld op.id now = false) :
    ∃ op ∈ (p.afterStarts now).operations, op.status = .active := by
  rw [afterStarts, operations_mapOperations]
  by_cases hactive : ∃ op ∈ p.operations, op.status = .active
  · obtain ⟨op, hop, hstatus⟩ := hactive
    refine ⟨_, List.mem_map_of_mem hop, ?_⟩
    rw [Operation.activate]
    split
    · rfl
    · exact hstatus
  · have hpending : ∀ op ∈ p.operations, op.status = .pending := by
      intro op hop
      have hunfinished := h.unfinished op hop
      rw [Operation.isTerminal] at hunfinished
      cases hstatus : op.status with
      | pending => rfl
      | active => exact absurd ⟨op, hop, hstatus⟩ hactive
      | completed => simp [hstatus, Status.isTerminal] at hunfinished
      | skipped => simp [hstatus, Status.isTerminal] at hunfinished
    have hidle : p.activeCount = 0 := by
      rw [activeCount, activeOperations, List.length_eq_zero_iff, List.filter_eq_nil_iff]
      intro op hop
      simp [hpending op hop]
    obtain ⟨place, hplace, hready⟩ := exists_isReady h hacyclic hne hpending
      fun op hop => hfree op hop (hpending op hop)
    obtain ⟨op, hop⟩ := List.exists_mem_of_ne_nil _
      (chosen_ne_nil hsuspended hidle hplace hready)
    refine ⟨_, List.mem_map_of_mem (mem_operations_of_mem_chosen hop), ?_⟩
    exact isActive_activate_of_mem (List.mem_map_of_mem hop)

/-- A pipeline whose commits are checked does not stand still: nobody waits in a circle,
and looking for work leaves something running, unless nothing is queued, the pipeline is
suspended, or a waiting operation is held. -/
theorem active_after_recheck (h : Reachable Checked p) :
    ¬ p.HasCycle ∧
      ∀ now, p.operations ≠ [] → p.isSuspended = false →
        (∀ op ∈ p.operations, op.status = .pending → p.holds.isHeld op.id now = false) →
          ∃ op ∈ (p.recheck now).2.operations, op.status = .active := by
  refine ⟨h.not_hasCycle, fun now hne hsuspended hfree => ?_⟩
  have hoperations : (p.recheck now).2.operations = (p.afterStarts now).operations := by
    rw [recheck, reschedule, schedule_eq h.isSettled, operations_announce]
  rw [hoperations]
  exact exists_active_afterStarts h.isSettled h.not_hasCycle hne hsuspended hfree

/-- A commit of two operations, the second of which waits for the first. -/
def pairCommit : Commit :=
  ((Commit.new 1).stage (.add (Operation.new (.ofNat 1)))).stage
    (.add ((Operation.new (.ofNat 2)).addDependency (.ofNat 1)))

/-- The first of the two is held for five seconds before it may start. -/
def pairRun : Pipeline :=
  ((((Pipeline.new "main" .commit).perform (.suspend 1)).perform
    (.apply pairCommit ⟨0, 0⟩)).perform
    (.setHold (.ofNat 1) "retry" (some ⟨5, 0⟩) ⟨0, 0⟩)).perform (.resume ⟨0, 0⟩)

theorem active_after_recheck_pairRun :
    Reachable Checked pairRun ∧ pairRun.activeCount = 0 ∧
      ∃ op ∈ (pairRun.recheck ⟨5, 0⟩).2.operations, op.status = .active := by
  have hchecked : Checked ((Pipeline.new "main" .commit).perform (.suspend 1))
      (.apply pairCommit ⟨0, 0⟩) :=
    ⟨.stage (.stage (.new 1) _) _, ⟨by decide +kernel, by decide +kernel⟩, by decide +kernel⟩
  have hreachable : Reachable Checked pairRun :=
    .step (.step (.step (.step (.new _ _) trivial) hchecked) trivial) trivial
  refine ⟨hreachable, by decide +kernel, (active_after_recheck hreachable).2 ⟨5, 0⟩ ?_ ?_ ?_⟩
  · decide +kernel
  · decide +kernel
  · decide +kernel

end Pipeline

end OperationQueue
