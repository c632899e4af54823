/-
# Ready operations

When an operation may start is said here without the scheduler: it waits, no date holds
it, none of its dependencies is queued where it looks, and its graph has its turn. The
scheduler looks a dependency up along the links between graphs; in a settled queue that
walk finds exactly the graphs that the plain statement speaks of.
-/
import OperationQueue.Proofs.Pipeline.Settled

namespace OperationQueue

namespace Pipeline

variable {p : Pipeline}

/-- The places of a graph, in order. -/
def Place.ofGraph (snapshot : Snapshot) (g : Graph) : List Place :=
  g.operations.zipIdx.map fun (op, index) => ⟨snapshot, index, op⟩

/-- The places of the queue, graph by graph. -/
def places (p : Pipeline) : List Place :=
  p.graphs.entries.flatMap fun (snapshot, g) => Place.ofGraph snapshot g

/-- Whether an identity is queued where the operations of a graph look for their
dependencies: in their own graph or, under the flat algorithm, in an earlier one. -/
def IsQueuedFor (p : Pipeline) (snapshot : Snapshot) (dep : Identity) : Prop :=
  ∃ s ∈ p.graphs.keys, (s = snapshot ∨ p.algorithm = .flat ∧ s < snapshot) ∧
    dep ∈ (p.operationsAt s).map (·.id)

instance (snapshot : Snapshot) (dep : Identity) : Decidable (p.IsQueuedFor snapshot dep) := by
  unfold IsQueuedFor; exact inferInstance

/-- No graph of the queue is older. -/
def IsOldest (p : Pipeline) (snapshot : Snapshot) : Prop := ∀ s ∈ p.graphs.keys, snapshot ≤ s

instance (snapshot : Snapshot) : Decidable (p.IsOldest snapshot) :=
  List.decidableBAll (snapshot ≤ ·) p.graphs.keys

/-- An operation is ready when it is waiting, its latest hold is not ahead, none of its
dependencies is queued where it looks, and, under the commit algorithm, no graph is
older than its own. -/
structure IsReady (p : Pipeline) (now : Instant) (place : Place) : Prop where
  pending : place.operation.status = .pending
  free : ∀ date ∈ p.holds.latest place.operation.id, ¬ now < date
  satisfied : ∀ dep ∈ place.operation.dependencies.toList, ¬ p.IsQueuedFor place.snapshot dep
  oldest : p.algorithm = .commit → p.IsOldest place.snapshot

theorem isReady_iff {now : Instant} {place : Place} :
    p.IsReady now place ↔
      place.operation.status = .pending ∧
      (∀ date ∈ p.holds.latest place.operation.id, ¬ now < date) ∧
      (∀ dep ∈ place.operation.dependencies.toList, ¬ p.IsQueuedFor place.snapshot dep) ∧
      (p.algorithm = .commit → p.IsOldest place.snapshot) :=
  ⟨fun h => ⟨h.pending, h.free, h.satisfied, h.oldest⟩,
    fun ⟨hpending, hfree, hsatisfied, holdest⟩ => ⟨hpending, hfree, hsatisfied, holdest⟩⟩

instance (now : Instant) (place : Place) : Decidable (p.IsReady now place) :=
  decidable_of_iff' _ isReady_iff

/-! ## Places -/

theorem Place.mem_ofGraph_iff {snapshot : Snapshot} {g : Graph} {place : Place} :
    place ∈ Place.ofGraph snapshot g ↔
      place.snapshot = snapshot ∧ g.operations[place.index]? = some place.operation := by
  obtain ⟨s, index, op⟩ := place
  simp only [Place.ofGraph, List.mem_map, Prod.exists, Place.mk.injEq]
  constructor
  · rintro ⟨found, i, hmem, rfl, rfl, rfl⟩
    exact ⟨rfl, List.mem_zipIdx_iff_getElem?.1 hmem⟩
  · rintro ⟨rfl, hget⟩
    exact ⟨op, index, List.mem_zipIdx_iff_getElem?.2 hget, rfl, rfl, rfl⟩

/-- A place of the queue is a position in one of its graphs. -/
theorem mem_places_iff {place : Place} :
    place ∈ p.places ↔ ∃ g, p.graphs.get? place.snapshot = some g ∧
      g.operations[place.index]? = some place.operation := by
  simp only [places, List.mem_flatMap, Place.mem_ofGraph_iff, Prod.exists]
  constructor
  · rintro ⟨s, g, hmem, rfl, hget⟩
    exact ⟨g, OrderedMap.get?_eq_some_iff.2 hmem, hget⟩
  · rintro ⟨g, hg, hget⟩
    exact ⟨place.snapshot, g, OrderedMap.get?_eq_some_iff.1 hg, rfl, hget⟩

theorem map_operation_places (p : Pipeline) : p.places.map (·.operation) = p.operations := by
  have hgraph (snapshot : Snapshot) (g : Graph) :
      (Place.ofGraph snapshot g).map (·.operation) = g.operations := by
    simp [Place.ofGraph, List.map_map, Function.comp_def, List.zipIdx_map_fst]
  simp only [places, operations, OrderedMap.values, List.map_flatMap, List.flatMap_map, hgraph]

theorem mem_operations_of_mem_places {place : Place} (h : place ∈ p.places) :
    place.operation ∈ p.operations := by
  rw [← map_operation_places]
  exact List.mem_map_of_mem h

/-- One place stands earlier in the queue than another: in an older graph, or in the same
graph further in front. -/
def Place.Earlier (a b : Place) : Prop :=
  a.snapshot < b.snapshot ∨ a.snapshot = b.snapshot ∧ a.index < b.index

/-- The places are listed in the order in which they stand. -/
theorem pairwise_places (p : Pipeline) : p.places.Pairwise Place.Earlier := by
  rw [places, List.pairwise_flatMap]
  constructor
  · rintro ⟨snapshot, g⟩ -
    have hindex : g.operations.zipIdx.Pairwise fun a b => a.2 < b.2 := by
      have hrange : (g.operations.zipIdx.map Prod.snd).Pairwise (· < ·) := by
        rw [List.zipIdx_map_snd]
        exact List.pairwise_lt_range'
      exact List.pairwise_map.1 hrange
    exact List.pairwise_map.2 (hindex.imp fun hlt => .inr ⟨rfl, hlt⟩)
  · apply p.graphs.ascending.imp
    rintro ⟨s, g⟩ ⟨t, g'⟩ hlt a ha b hb
    obtain ⟨rfl, -⟩ := Place.mem_ofGraph_iff.1 ha
    obtain ⟨rfl, -⟩ := Place.mem_ofGraph_iff.1 hb
    exact .inl (Std.compare_eq_lt.1 hlt)

/-- Places that hold one identity are the same place. -/
theorem place_eq_of_id_eq (h : p.ids.Nodup) {a b : Place} (ha : a ∈ p.places)
    (hb : b ∈ p.places) (hid : a.operation.id = b.operation.id) : a = b := by
  rw [ids, ← map_operation_places, List.map_map] at h
  exact List.inj_on_of_nodup_map h ha hb hid

/-! ## Looking up a dependency -/

theorem precedingSnapshot?_eq_none {snapshot : Snapshot}
    (h : p.precedingSnapshot? snapshot = none) : ∀ s ∈ p.graphs.keys, ¬ s < snapshot := by
  intro s hs hlt
  have hnil : p.graphs.keys.filter (· < snapshot) = [] := List.getLast?_eq_none_iff.1 h
  have hmem : s ∈ p.graphs.keys.filter (· < snapshot) := by simp [hs, hlt]
  simp [hnil] at hmem

/-- The keys of a map ascend, so the last of those before a snapshot is the largest. -/
theorem precedingSnapshot?_eq_some {snapshot before : Snapshot}
    (h : p.precedingSnapshot? snapshot = some before) :
    before ∈ p.graphs.keys ∧ before < snapshot ∧
      ∀ s ∈ p.graphs.keys, s < snapshot → s ≤ before := by
  obtain ⟨front, hfront⟩ := List.getLast?_eq_some_iff.1 h
  have hmem : before ∈ p.graphs.keys.filter (· < snapshot) := by simp [hfront]
  have hascending : (p.graphs.keys.filter (· < snapshot)).Pairwise (· < ·) := by
    have hkeys : p.graphs.keys.Pairwise (· < ·) :=
      List.pairwise_map.2 (p.graphs.ascending.imp Std.compare_eq_lt.1)
    exact hkeys.filter _
  refine ⟨(List.mem_filter.1 hmem).1, by simpa using (List.mem_filter.1 hmem).2, ?_⟩
  intro s hs hlt
  have hs' : s ∈ front ++ [before] := hfront ▸ List.mem_filter.2 ⟨hs, by simpa using hlt⟩
  rcases List.mem_append.1 hs' with hfirst | hlast
  · rw [hfront] at hascending
    exact UInt64.le_of_lt ((List.pairwise_append.1 hascending).2.2 s hfirst before (by simp))
  · rw [List.mem_singleton.1 hlast]
    exact UInt64.le_refl _

/-- One step back along the links leaves fewer graphs in front. -/
theorem length_filter_keys_lt {snapshot before : Snapshot} (hbefore : before ∈ p.graphs.keys)
    (hlt : before < snapshot) :
    (p.graphs.keys.filter (· < before)).length < (p.graphs.keys.filter (· < snapshot)).length := by
  have hfilter : p.graphs.keys.filter (· < before) =
      (p.graphs.keys.filter (· < snapshot)).filter (· < before) := by
    rw [List.filter_filter]
    apply List.filter_congr
    intro s _
    by_cases hs : s < before
    · simp [hs, UInt64.lt_trans hs hlt]
    · simp [hs]
  rw [hfilter, List.length_filter_lt_length_iff_exists]
  exact ⟨before, List.mem_filter.2 ⟨hbefore, by simpa using hlt⟩, by simp⟩

/-- Without a link to follow, only the graph itself counts. -/
theorem isQueuedFor_iff_of_none {snapshot : Snapshot} {dep : Identity}
    (hqueued : snapshot ∈ p.graphs.keys)
    (hlast : p.algorithm = .flat → p.precedingSnapshot? snapshot = none) :
    p.IsQueuedFor snapshot dep ↔ dep ∈ (p.operationsAt snapshot).map (·.id) := by
  constructor
  · rintro ⟨s, hs, rfl | ⟨hflat, hlt⟩, hdep⟩
    · exact hdep
    · exact absurd hlt (precedingSnapshot?_eq_none (hlast hflat) s hs)
  · intro hdep
    exact ⟨snapshot, hqueued, .inl rfl, hdep⟩

/-- With a link to follow, what counts for the graph before counts as well. -/
theorem isQueuedFor_iff_of_some {snapshot before : Snapshot} {dep : Identity}
    (hqueued : snapshot ∈ p.graphs.keys) (hflat : p.algorithm = .flat)
    (hlast : p.precedingSnapshot? snapshot = some before) :
    p.IsQueuedFor snapshot dep ↔
      dep ∈ (p.operationsAt snapshot).map (·.id) ∨ p.IsQueuedFor before dep := by
  obtain ⟨hbefore, hlt, hlargest⟩ := precedingSnapshot?_eq_some hlast
  constructor
  · rintro ⟨s, hs, rfl | ⟨-, hs'⟩, hdep⟩
    · exact .inl hdep
    · refine .inr ⟨s, hs, ?_, hdep⟩
      rcases UInt64.le_iff_lt_or_eq.1 (hlargest s hs hs') with hs' | rfl
      · exact .inr ⟨hflat, hs'⟩
      · exact .inl rfl
  · rintro (hdep | ⟨s, hs, heq | ⟨-, hs'⟩, hdep⟩)
    · exact ⟨snapshot, hqueued, .inl rfl, hdep⟩
    · exact ⟨s, hs, .inr ⟨hflat, heq ▸ hlt⟩, hdep⟩
    · exact ⟨s, hs, .inr ⟨hflat, UInt64.lt_trans hs' hlt⟩, hdep⟩

/-- A step of the walk: it ends at a graph that queues the dependency, since nothing
queued is finished, and goes on at any other. -/
theorem blocksAlong_succ (h : p.IsSettled) {snapshot : Snapshot} {g : Graph}
    (hg : p.graphs.get? snapshot = some g) (dep : Identity) (fuel : Nat) :
    p.blocksAlong dep (fuel + 1) (some snapshot) = true ↔
      dep ∈ (p.operationsAt snapshot).map (·.id) ∨ p.blocksAlong dep fuel g.previous = true := by
  have hat : p.operationsAt snapshot = g.operations := operationsAt_of_get? hg
  rw [blocksAlong, hg, hat]
  dsimp only
  cases hfind : g.find? dep with
  | some op =>
      have hop : op ∈ g.operations := List.mem_of_find?_eq_some hfind
      have hid : op.id = dep := by simpa using List.find?_some hfind
      have hunfinished : op.isTerminal = false :=
        h.unfinished op (mem_operations_iff.2 ⟨snapshot, by rwa [hat]⟩)
      simp only [Graph.blocks?, hfind, Option.map_some, hunfinished, Bool.not_false, true_iff]
      exact .inl (hid ▸ List.mem_map_of_mem hop)
  | none =>
      have habsent : dep ∉ g.operations.map (·.id) := by
        intro hmem
        obtain ⟨op, hop, hid⟩ := List.mem_map.1 hmem
        simpa [hid] using List.find?_eq_none.1 hfind op hop
      simp only [Graph.blocks?, hfind, Option.map_none]
      exact (or_iff_right habsent).symm

/-- The walk along the links of a settled queue finds exactly the graphs in which a
dependency counts. It passes each graph before a snapshot at most once, so as many steps
as there are such graphs, and one more, are enough. -/
theorem blocksAlong_iff (h : p.IsSettled) (dep : Identity) (fuel : Nat) (snapshot : Snapshot)
    (hfuel : (p.graphs.keys.filter (· < snapshot)).length < fuel)
    (hqueued : snapshot ∈ p.graphs.keys) :
    p.blocksAlong dep fuel (some snapshot) = true ↔ p.IsQueuedFor snapshot dep := by
  induction fuel generalizing snapshot with
  | zero => omega
  | succ fuel ih =>
      obtain ⟨g, hg⟩ := OrderedMap.mem_keys_iff.1 hqueued
      have hend : p.blocksAlong dep fuel none = false := by
        cases fuel <;> rfl
      rw [blocksAlong_succ h hg, h.previous_eq hg]
      by_cases hflat : p.algorithm = .flat
      · rw [if_pos hflat]
        cases hlast : p.precedingSnapshot? snapshot with
        | none =>
            rw [isQueuedFor_iff_of_none hqueued fun _ => hlast, hend]
            simp
        | some before =>
            obtain ⟨hbefore, hlt, -⟩ := precedingSnapshot?_eq_some hlast
            have hfewer := length_filter_keys_lt hbefore hlt
            rw [isQueuedFor_iff_of_some hqueued hflat hlast, ih before (by omega) hbefore]
      · rw [if_neg hflat, isQueuedFor_iff_of_none hqueued fun hflat' => absurd hflat' hflat, hend]
        simp

theorem dependencyBlocks_iff (h : p.IsSettled) {snapshot : Snapshot} (dep : Identity)
    (hqueued : snapshot ∈ p.graphs.keys) :
    p.dependencyBlocks snapshot dep = true ↔ p.IsQueuedFor snapshot dep := by
  refine blocksAlong_iff h dep _ snapshot ?_ hqueued
  have hlength : p.graphs.keys.length = p.graphCount := List.length_map _
  have hfilter := List.length_filter_le (fun s => decide (s < snapshot)) p.graphs.keys
  omega

end Pipeline

end OperationQueue
