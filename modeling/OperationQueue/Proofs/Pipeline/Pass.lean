/-
# What a pass hands out

A pass starts one operation after another, each time the best one that is ready. Starting
an operation makes no other operation ready and keeps none from being ready, because a
dependency waits for its operation to leave the queue and not for it to run. So the
choices of a pass are settled before it begins: they are the ready operations in the order
of starting, as far as the limit allows.
-/
import OperationQueue.Proofs.Pipeline.Choice
import OperationQueue.Proofs.Pipeline.Starting

namespace OperationQueue

namespace Pipeline

variable {p : Pipeline} {now : Instant}

/-- The ready places of a queue in the order in which they are served. -/
def readyPlaces (p : Pipeline) (now : Instant) : List Place :=
  (p.places.filter fun place => p.IsReady now place).mergeSort fun a b => !decide (b.Before a)

/-- How many of a number of ready operations may start. -/
def capacity (p : Pipeline) (ready : Nat) : Nat :=
  if p.limit = 0 then ready else min ready (p.limit - p.activeCount)

/-- The operations that a pass chooses, in order. -/
def chosen (p : Pipeline) (now : Instant) : List Operation :=
  if p.isSuspended then []
  else ((p.readyPlaces now).take (p.capacity (p.readyPlaces now).length)).map (·.operation)

/-- The queue with the chosen operations running. -/
def afterStarts (p : Pipeline) (now : Instant) : Pipeline :=
  p.mapOperations (Operation.activate ((p.chosen now).map (·.id)))

/-! ## The ready places in order -/

theorem mem_readyPlaces_iff {place : Place} :
    place ∈ p.readyPlaces now ↔ place ∈ p.places ∧ p.IsReady now place := by
  simp [readyPlaces]

theorem length_readyPlaces_le (p : Pipeline) (now : Instant) :
    (p.readyPlaces now).length ≤ p.operations.length := by
  rw [readyPlaces, List.length_mergeSort, ← map_operation_places, List.length_map]
  exact List.length_filter_le _ _

private theorem Place.not_before_trans {a b c : Place} (hab : ¬ b.Before a) (hbc : ¬ c.Before b) :
    ¬ c.Before a := by
  simp only [Before, Earlier, UInt64.lt_iff_toNat_lt, ← UInt64.toNat_inj] at *
  omega

private theorem Place.not_before_total (a b : Place) : ¬ b.Before a ∨ ¬ a.Before b := by
  by_cases h : b.Before a
  · exact .inr fun h' => Place.Before.irrefl a (h'.trans h)
  · exact .inl h

theorem pairwise_readyPlaces (p : Pipeline) (now : Instant) :
    (p.readyPlaces now).Pairwise Place.Before := by
  have hsorted : (p.readyPlaces now).Pairwise fun a b => (!decide (b.Before a)) = true := by
    refine List.pairwise_mergeSort ?_ ?_ _
    · intro a b c hab hbc
      simp only [Bool.not_eq_true', decide_eq_false_iff_not] at *
      exact Place.not_before_trans hab hbc
    · intro a b
      simpa using Place.not_before_total a b
  have hdistinct : (p.readyPlaces now).Pairwise fun a b => a.Before b ∨ b.Before a := by
    have hfiltered : (p.places.filter fun place => p.IsReady now place).Pairwise
        fun a b => a.Before b ∨ b.Before a :=
      ((pairwise_places p).imp Place.before_or_before).filter _
    exact (List.mergeSort_perm _ _).symm.pairwise hfiltered fun hab => hab.symm
  apply (hsorted.and hdistinct).imp
  rintro a b ⟨hnot, hor⟩
  exact hor.resolve_right (by simpa using hnot)

/-- Places in the order of starting are determined by which places they are. -/
theorem eq_of_pairwise_before {xs ys : List Place} (hxs : xs.Pairwise Place.Before)
    (hys : ys.Pairwise Place.Before) (hmem : ∀ place, place ∈ xs ↔ place ∈ ys) : xs = ys := by
  have hnodup {zs : List Place} (hzs : zs.Pairwise Place.Before) : zs.Nodup := by
    apply hzs.imp
    rintro a _ hlt rfl
    exact Place.Before.irrefl a hlt
  refine List.Perm.eq_of_pairwise ?_ hxs hys
    ((List.perm_ext_iff_of_nodup (hnodup hxs) (hnodup hys)).2 hmem)
  intro a b _ _ hab hba
  exact absurd (hab.trans hba) (Place.Before.irrefl a)

/-! ## One start -/

section Start

variable {f : Operation → Operation}

/-- Which operations wait where does not depend on who runs. -/
theorem isQueuedFor_mapOperations (hid : ∀ op, (f op).id = op.id) (snapshot : Snapshot)
    (dep : Identity) :
    (p.mapOperations f).IsQueuedFor snapshot dep ↔ p.IsQueuedFor snapshot dep := by
  simp [IsQueuedFor, Function.comp_def, hid]

theorem isOldest_mapOperations (f : Operation → Operation) (snapshot : Snapshot) :
    (p.mapOperations f).IsOldest snapshot ↔ p.IsOldest snapshot := by
  rw [IsOldest, IsOldest, keys_graphs_mapOperations]

theorem isReady_mapOperations (hid : ∀ op, (f op).id = op.id) (place : Place) :
    (p.mapOperations f).IsReady now place ↔ p.IsReady now place := by
  simp [isReady_iff, isQueuedFor_mapOperations hid, isOldest_mapOperations]

theorem places_mapOperations (f : Operation → Operation) :
    (p.mapOperations f).places =
      p.places.map fun place => { place with operation := f place.operation } := by
  have hgraph (snapshot : Snapshot) (g : Graph) :
      Place.ofGraph snapshot { g with operations := g.operations.map f } =
        (Place.ofGraph snapshot g).map fun place => { place with operation := f place.operation } := by
    simp [Place.ofGraph, List.zipIdx_map, Function.comp_def]
  simp [places, mapOperations, List.flatMap_map, List.map_flatMap, hgraph]

end Start

/-- The queue after the start of one operation. -/
private abbrev started (p : Pipeline) (id : Identity) : Pipeline :=
  p.mapOperations fun op => if op.id = id then { op with status := .active } else op

private theorem id_start (id : Identity) (op : Operation) :
    (if op.id = id then { op with status := .active } else op).id = op.id :=
  ((Operation.KeepsPlace.status .active).ite (·.id = id)).id op

/-- After a start the other ready operations are ready in the same order. -/
theorem readyPlaces_eq_cons (h : p.ids.Nodup) {best : Place}
    (hbest : IsBest (p.places.filter fun place => p.IsReady now place) (some best)) :
    p.readyPlaces now = best :: (p.started best.operation.id).readyPlaces now := by
  obtain ⟨hmem, hfirst⟩ := hbest
  simp only [List.mem_filter, decide_eq_true_eq] at hmem hfirst
  have hrest : ∀ place, place ∈ (p.started best.operation.id).readyPlaces now ↔
      place ∈ p.readyPlaces now ∧ place ≠ best := by
    intro place
    rw [mem_readyPlaces_iff, mem_readyPlaces_iff, isReady_mapOperations (id_start _),
      places_mapOperations]
    constructor
    · rintro ⟨hplace, hready⟩
      obtain ⟨old, hold, rfl⟩ := List.mem_map.1 hplace
      by_cases hid : old.operation.id = best.operation.id
      · have hactive := hready.pending
        simp [hid] at hactive
      · simp only [hid, if_false] at hready ⊢
        exact ⟨⟨hold, hready⟩, fun heq => hid (heq ▸ rfl)⟩
    · rintro ⟨⟨hplace, hready⟩, hne⟩
      have hid : place.operation.id ≠ best.operation.id :=
        fun heq => hne (place_eq_of_id_eq h hplace hmem.1 heq)
      exact ⟨List.mem_map.2 ⟨place, hplace, by simp [hid]⟩, hready⟩
  refine eq_of_pairwise_before (pairwise_readyPlaces p now)
    (List.pairwise_cons.2 ⟨fun place hplace => ?_, pairwise_readyPlaces _ now⟩) fun place => ?_
  · obtain ⟨hready, hne⟩ := (hrest place).1 hplace
    exact (hfirst place (mem_readyPlaces_iff.1 hready)).resolve_left hne
  · rw [List.mem_cons, hrest]
    by_cases heq : place = best
    · simp [heq, mem_readyPlaces_iff, hmem]
    · simp [heq]

/-- A start takes one slot. -/
theorem activeCount_started (h : p.ids.Nodup) {op : Operation} (hop : op ∈ p.operations)
    (hpending : op.status = .pending) :
    (p.started op.id).activeCount = p.activeCount + 1 := by
  have hcount (ops : List Operation) (hnodup : (ops.map (·.id)).Nodup) (hmem : op ∈ ops) :
      (ops.map fun other => if other.id = op.id then { other with status := .active } else other).countP
        (·.status == .active) = ops.countP (·.status == .active) + 1 := by
    induction ops with
    | nil => cases hmem
    | cons first rest ih =>
        rw [List.map_cons, List.nodup_cons] at hnodup
        rcases List.mem_cons.1 hmem with rfl | hmem
        · have hrest : ∀ other ∈ rest, (if other.id = op.id then
              { other with status := .active } else other) = other := by
            intro other hother
            exact if_neg fun heq : other.id = op.id => hnodup.1 (heq ▸ List.mem_map_of_mem hother)
          simp [List.map_congr_left hrest, hpending]
        · have hfirst : first.id ≠ op.id := fun heq => hnodup.1 (heq ▸ List.mem_map_of_mem hmem)
          rw [List.map_cons, if_neg hfirst, List.countP_cons, List.countP_cons, ih hnodup.2 hmem]
          omega
  have hoperations := hcount p.operations h hop
  simpa only [activeCount, activeOperations, operations_mapOperations,
    List.countP_eq_length_filter] using hoperations

/-! ## A run of starts -/

theorem capacity_zero (p : Pipeline) : p.capacity 0 = 0 := by
  simp [capacity]

theorem capacity_of_full (h : ¬ p.hasFreeSlot = true) (n : Nat) : p.capacity n = 0 := by
  simp only [hasFreeSlot, Bool.or_eq_true, beq_iff_eq, decide_eq_true_eq] at h
  rw [capacity, if_neg (by omega)]
  omega

theorem capacity_succ {op : Operation} (h : p.ids.Nodup) (hop : op ∈ p.operations)
    (hpending : op.status = .pending) (hslot : p.hasFreeSlot = true) (n : Nat) :
    p.capacity (n + 1) = (p.started op.id).capacity n + 1 := by
  simp only [hasFreeSlot, Bool.or_eq_true, beq_iff_eq, decide_eq_true_eq] at hslot
  rw [capacity, capacity, activeCount_started h hop hpending, limit_mapOperations]
  split
  · rfl
  · omega

/-- A run of starts hands out the ready operations in order, one for each free slot. -/
theorem startUpTo_fst (h : p.IsSettled) (n : Nat) :
    (startUpTo now n p).1 =
      (((p.readyPlaces now).take (p.capacity n)).map (·.operation)).map fun op =>
        { op with status := .active } := by
  induction n generalizing p with
  | zero => simp [startUpTo, capacity_zero]
  | succ n ih =>
      rw [startUpTo]
      by_cases hslot : p.hasFreeSlot = true
      · rw [if_pos hslot]
        have hbest := isBest_nextReady? h now
        cases hnext : p.nextReady? now with
        | none =>
            rw [hnext] at hbest
            have hnil : p.readyPlaces now = [] := by
              refine List.eq_nil_iff_forall_not_mem.2 fun place hplace => hbest place ?_
              simpa [mem_readyPlaces_iff] using hplace
            simp [hnil]
        | some place =>
            rw [hnext] at hbest
            have hready := hbest.1
            simp only [List.mem_filter, decide_eq_true_eq] at hready
            have hop := mem_operations_of_mem_places hready.1
            have hpending := hready.2.pending
            have hsettled : (p.started place.operation.id).IsSettled := by
              have hmoved : (p.moveTo place.operation.id .active).IsSettled := h.moveTo _ rfl
              rwa [moveTo, update_eq_mapOperations h.nodup_ids] at hmoved
            dsimp only
            rw [update_eq_mapOperations h.nodup_ids, ih hsettled,
              readyPlaces_eq_cons h.nodup_ids hbest,
              capacity_succ h.nodup_ids hop hpending hslot]
            rfl
      · rw [if_neg hslot, capacity_of_full hslot]
        rfl

/-- A pass hands out what the queue lets it choose, running. -/
theorem schedule_fst (h : p.IsSettled) (now : Instant) :
    (p.schedule now).1 = (p.chosen now).map fun op => { op with status := .active } := by
  rw [schedule, chosen]
  split
  · rfl
  · rw [startUpTo_fst h]
    have hlength := length_readyPlaces_le p now
    have htake : (p.readyPlaces now).take (p.capacity p.operations.length) =
        (p.readyPlaces now).take (p.capacity (p.readyPlaces now).length) := by
      rw [capacity, capacity]
      split
      · rw [List.take_of_length_le hlength, List.take_of_length_le (Nat.le_refl _)]
      · rw [List.take_eq_take_iff]
        omega
    rw [htake]

/-- A pass hands out the chosen operations and leaves them running. -/
theorem schedule_eq (h : p.IsSettled) (now : Instant) :
    p.schedule now =
      ((p.chosen now).map fun op => { op with status := .active }, p.afterStarts now) := by
  have hids : (p.schedule now).1.map (·.id) = (p.chosen now).map (·.id) := by
    simp [schedule_fst h, Function.comp_def]
  have hsnd := schedule_snd h.nodup_ids now
  rw [hids] at hsnd
  exact Prod.ext (schedule_fst h now) hsnd

end Pipeline

end OperationQueue
