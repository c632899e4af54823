/-
# The next operation

The scheduler finds the operation to start by two scans, one through the graphs and one
inside each graph, and each keeps the best operation that it has met. Together they
answer the ready operation that comes before all other ready ones. The scans need not be
compared with a sorted list: a best place is known by its members alone, and the best of
two stretches of the queue is the better of their best places.
-/
import OperationQueue.Proofs.Pipeline.Readiness

namespace OperationQueue

namespace Pipeline

variable {p : Pipeline}

/-! ## The order of starting -/

/-- One place is served before another: its operation has a higher priority, or the same
priority and an earlier place. -/
def Place.Before (a b : Place) : Prop :=
  b.operation.priority < a.operation.priority ∨
    a.operation.priority = b.operation.priority ∧ a.Earlier b

instance (a b : Place) : Decidable (a.Earlier b) := by
  unfold Place.Earlier; exact inferInstance

instance (a b : Place) : Decidable (a.Before b) := by
  unfold Place.Before; exact inferInstance

theorem Place.Earlier.trans {a b c : Place} (hab : a.Earlier b) (hbc : b.Earlier c) :
    a.Earlier c := by
  simp only [Earlier, UInt64.lt_iff_toNat_lt, ← UInt64.toNat_inj] at *
  omega

theorem Place.Before.trans {a b c : Place} (hab : a.Before b) (hbc : b.Before c) :
    a.Before c := by
  rcases hab with hab | ⟨hab, hearlier⟩ <;> rcases hbc with hbc | ⟨hbc, hearlier'⟩
  · exact .inl (Int.lt_trans hbc hab)
  · exact .inl (hbc ▸ hab)
  · exact .inl (hab ▸ hbc)
  · exact .inr ⟨hab.trans hbc, hearlier.trans hearlier'⟩

theorem Place.Before.irrefl (a : Place) : ¬ a.Before a := by
  simp [Before, Earlier]

/-- Of two places in the queue one is served before the other. -/
theorem Place.before_or_before {a b : Place} (h : a.Earlier b) : a.Before b ∨ b.Before a := by
  rcases Int.lt_trichotomy a.operation.priority b.operation.priority with hlt | heq | hlt
  · exact .inr (.inl hlt)
  · exact .inl (.inr ⟨heq, h⟩)
  · exact .inl (.inl hlt)

/-! ## Best places -/

/-- The choice from some places: one that is served before all others, or none because
there is no place. -/
def IsBest (places : List Place) : Option Place → Prop
  | none => ∀ place, place ∉ places
  | some best => best ∈ places ∧ ∀ place ∈ places, place = best ∨ best.Before place

/-- Of two places, the first earlier than the second, the one served first. -/
def Place.better (a b : Place) : Place :=
  if b.operation.priority ≤ a.operation.priority then a else b

theorem Place.better_eq (a b : Place) (h : a.Earlier b) :
    a.better b = a ∧ a.Before b ∨ a.better b = b ∧ b.Before a := by
  rw [better]
  split
  · next hle =>
    refine .inl ⟨rfl, ?_⟩
    rcases Int.lt_or_eq_of_le hle with hlt | heq
    · exact .inl hlt
    · exact .inr ⟨heq.symm, h⟩
  · next hlt => exact .inr ⟨rfl, .inl (Int.not_le.1 hlt)⟩

theorem IsBest.congr {places others : List Place} {best : Option Place}
    (h : IsBest places best) (hmem : ∀ place, place ∈ places ↔ place ∈ others) :
    IsBest others best := by
  cases best with
  | none => exact fun place hplace => h place ((hmem place).2 hplace)
  | some best =>
      exact ⟨(hmem best).1 h.1, fun place hplace => h.2 place ((hmem place).2 hplace)⟩

/-- The best of two stretches of the queue is the better of their best places. -/
theorem IsBest.append {front back : List Place} {a b : Option Place} (ha : IsBest front a)
    (hb : IsBest back b) (hearlier : ∀ x ∈ front, ∀ y ∈ back, x.Earlier y) :
    IsBest (front ++ back) (Option.merge Place.better a b) := by
  cases a with
  | none =>
      have hfront : front = [] := List.eq_nil_iff_forall_not_mem.2 ha
      simpa [hfront] using hb
  | some x =>
      cases b with
      | none =>
          have hback : back = [] := List.eq_nil_iff_forall_not_mem.2 hb
          simpa [hback] using ha
      | some y =>
          obtain ⟨hx, hfront⟩ := ha
          obtain ⟨hy, hback⟩ := hb
          rw [Option.merge_some_some]
          rcases x.better_eq y (hearlier x hx y hy) with ⟨heq, hxy⟩ | ⟨heq, hyx⟩
          · rw [heq]
            refine ⟨List.mem_append_left _ hx, fun place hplace => ?_⟩
            rcases List.mem_append.1 hplace with hplace | hplace
            · exact hfront place hplace
            · rcases hback place hplace with rfl | hbefore
              · exact .inr hxy
              · exact .inr (hxy.trans hbefore)
          · rw [heq]
            refine ⟨List.mem_append_right _ hy, fun place hplace => ?_⟩
            rcases List.mem_append.1 hplace with hplace | hplace
            · rcases hfront place hplace with rfl | hbefore
              · exact .inr hyx
              · exact .inr (hyx.trans hbefore)
            · exact hback place hplace

/-! ## The scan of a graph -/

/-- The best place of a graph and of the queue before it. -/
private theorem isBest_bestFrom {startable : Operation → Bool} {snapshot : Snapshot}
    {front : List Place} {best : Option (Nat × Operation)} (index : Nat) (ops : List Operation)
    (hbest : IsBest front (best.map fun (i, op) => ⟨snapshot, i, op⟩))
    (hearlier : ∀ x ∈ front, ∀ i op, index ≤ i → x.Earlier ⟨snapshot, i, op⟩) :
    IsBest
      (front ++ ((ops.zipIdx index).map fun (op, i) => (⟨snapshot, i, op⟩ : Place)).filter
        (startable ·.operation))
      ((Graph.bestFrom startable index best ops).map fun (i, op) => ⟨snapshot, i, op⟩) := by
  induction ops generalizing index front best with
  | nil => simpa [Graph.bestFrom] using hbest
  | cons op rest ih =>
      rw [Graph.bestFrom, List.zipIdx_cons, List.map_cons, List.filter_cons]
      by_cases hop : startable op = true
      · rw [if_pos hop, if_pos hop]
        have hsingle : IsBest [⟨snapshot, index, op⟩] (some ⟨snapshot, index, op⟩) :=
          ⟨List.mem_singleton_self _, fun place hplace => .inl (List.mem_singleton.1 hplace)⟩
        have hstep := hbest.append hsingle fun x hx y hy =>
          List.mem_singleton.1 hy ▸ hearlier x hx index op (Nat.le_refl _)
        have hbetter : Option.merge Place.better
            (best.map fun (i, op) => (⟨snapshot, i, op⟩ : Place)) (some ⟨snapshot, index, op⟩) =
              (Graph.better best index op).map fun (i, op) => ⟨snapshot, i, op⟩ := by
          cases best with
          | none => rfl
          | some chosen =>
              simp only [Graph.better, Option.map_some, Option.merge_some_some, Place.better]
              split <;> rfl
        rw [hbetter] at hstep
        have hrest := ih (index + 1) hstep fun x hx i other hi => ?_
        · simpa using hrest
        · rcases List.mem_append.1 hx with hx | hx
          · exact hearlier x hx i other (by omega)
          · rw [List.mem_singleton.1 hx]
            exact .inr ⟨rfl, hi⟩
      · rw [if_neg hop, if_neg hop]
        exact ih (index + 1) hbest fun x hx i other hi => hearlier x hx i other (by omega)

/-- A graph chooses the best of its operations that can start. -/
theorem isBest_graph (g : Graph) (snapshot : Snapshot) (holds : HoldTable) (now : Instant)
    (blocked : Identity → Bool) :
    IsBest ((Place.ofGraph snapshot g).filter fun place =>
        Graph.canStart holds now blocked place.operation)
      ((g.nextReady? holds now blocked).map fun (i, op) => ⟨snapshot, i, op⟩) := by
  have hnil : IsBest [] ((none : Option (Nat × Operation)).map fun (i, op) =>
      (⟨snapshot, i, op⟩ : Place)) := fun _ h => by cases h
  exact isBest_bestFrom 0 g.operations hnil fun _ h => by cases h

/-! ## The scan of the queue -/

/-- The places of some graphs whose operations can start. -/
private def startable (p : Pipeline) (now : Instant) (graphs : List (Snapshot × Graph)) :
    List Place :=
  graphs.flatMap fun (snapshot, g) => (Place.ofGraph snapshot g).filter fun place =>
    Graph.canStart p.holds now (p.dependencyBlocks snapshot) place.operation

private theorem isBest_foldl_betterPlace {now : Instant} {front : List Place}
    {best : Option Place} {graphs : List (Snapshot × Graph)} (hbest : IsBest front best)
    (hearlier : ∀ x ∈ front, ∀ e ∈ graphs, x.snapshot < e.1)
    (hascending : graphs.Pairwise fun a b => a.1 < b.1) :
    IsBest (front ++ p.startable now graphs) (graphs.foldl (p.betterPlace now) best) := by
  induction graphs generalizing front best with
  | nil => simpa [startable] using hbest
  | cons e rest ih =>
      obtain ⟨snapshot, g⟩ := e
      obtain ⟨hfirst, hrest⟩ := List.pairwise_cons.1 hascending
      have hgraph := isBest_graph g snapshot p.holds now (p.dependencyBlocks snapshot)
      have hstep := hbest.append hgraph fun x hx y hy => by
        obtain ⟨hy, -⟩ := Place.mem_ofGraph_iff.1 (List.mem_filter.1 hy).1
        exact .inl (hy ▸ hearlier x hx _ List.mem_cons_self)
      have hbetter : Option.merge Place.better best
          ((g.nextReady? p.holds now (p.dependencyBlocks snapshot)).map fun (i, op) =>
            ⟨snapshot, i, op⟩) = p.betterPlace now best (snapshot, g) := by
        rw [betterPlace]
        cases g.nextReady? p.holds now (p.dependencyBlocks snapshot) with
        | none => simp
        | some chosen =>
            cases best with
            | none => rfl
            | some place =>
                simp only [Option.map_some, Option.merge_some_some, Place.better]
                split <;> rfl
      rw [hbetter] at hstep
      have hnext := ih hstep (fun x hx e he => ?_) hrest
      · simpa [startable] using hnext
      · rcases List.mem_append.1 hx with hx | hx
        · exact hearlier x hx e (List.mem_cons_of_mem _ he)
        · obtain ⟨hx, -⟩ := Place.mem_ofGraph_iff.1 (List.mem_filter.1 hx).1
          exact hx ▸ hfirst e he

/-- In a settled queue every graph has an unfinished operation, so that under the commit
algorithm the oldest graph alone has its turn. -/
private theorem eligibleGraphs_of_commit (h : p.IsSettled) (hcommit : p.algorithm = .commit) :
    p.eligibleGraphs = p.graphs.entries.head?.toList := by
  have hunfinished : ∀ e ∈ p.graphs.entries, e.2.hasUnfinished = true := by
    rintro ⟨snapshot, g⟩ he
    have hg := OrderedMap.get?_eq_some_iff.2 he
    obtain ⟨op, hop⟩ := List.exists_mem_of_ne_nil _ (h.operations_ne_nil hg)
    have hqueued : op ∈ p.operations :=
      mem_operations_iff.2 ⟨snapshot, by rwa [operationsAt_of_get? hg]⟩
    simp only [Graph.hasUnfinished, List.any_eq_true]
    exact ⟨op, hop, by rw [h.unfinished op hqueued]; rfl⟩
  rw [eligibleGraphs, hcommit]
  simp only [OrderedMap.find?]
  cases hentries : p.graphs.entries with
  | nil => rfl
  | cons e rest => simp [hunfinished e (by simp [hentries])]

theorem mem_eligibleGraphs_iff (h : p.IsSettled) {snapshot : Snapshot} {g : Graph} :
    (snapshot, g) ∈ p.eligibleGraphs ↔ p.graphs.get? snapshot = some g ∧
      (p.algorithm = .commit → p.IsOldest snapshot) := by
  rw [OrderedMap.get?_eq_some_iff]
  cases halgorithm : p.algorithm with
  | flat => simp [eligibleGraphs, halgorithm]
  | commit =>
      rw [eligibleGraphs_of_commit h halgorithm]
      have hascending := p.graphs.ascending
      simp only [IsOldest, OrderedMap.keys, forall_const]
      cases hentries : p.graphs.entries with
      | nil => simp
      | cons e rest =>
          rw [hentries] at hascending
          have hfirst := (List.pairwise_cons.1 hascending).1
          simp only [List.head?_cons, Option.toList_some, List.mem_singleton]
          constructor
          · rintro rfl
            refine ⟨List.mem_cons_self, fun s hs => ?_⟩
            rcases List.mem_cons.1 hs with rfl | hs
            · exact UInt64.le_refl _
            · obtain ⟨other, hother, rfl⟩ := List.mem_map.1 hs
              exact UInt64.le_of_lt (Std.compare_eq_lt.1 (hfirst other hother))
          · rintro ⟨hmem, hleast⟩
            rcases List.mem_cons.1 hmem with heq | hmem
            · exact heq
            · have hlt : e.1 < snapshot := Std.compare_eq_lt.1 (hfirst _ hmem)
              exact absurd hlt (UInt64.not_lt.2 (hleast e.1 List.mem_cons_self))

theorem canStart_iff (h : p.IsSettled) {now : Instant} {place : Place} (hplace : place ∈ p.places) :
    Graph.canStart p.holds now (p.dependencyBlocks place.snapshot) place.operation = true ↔
      place.operation.status = .pending ∧
      (∀ date ∈ p.holds.latest place.operation.id, ¬ now < date) ∧
      ∀ dep ∈ place.operation.dependencies.toList, ¬ p.IsQueuedFor place.snapshot dep := by
  obtain ⟨g, hg, -⟩ := mem_places_iff.1 hplace
  have hqueued : place.snapshot ∈ p.graphs.keys := OrderedMap.mem_keys_iff.2 ⟨g, hg⟩
  have hheld : p.holds.isHeld place.operation.id now = false ↔
      ∀ date ∈ p.holds.latest place.operation.id, ¬ now < date := by
    rw [HoldTable.isHeld]
    cases p.holds.latest place.operation.id <;> simp
  simp [Graph.canStart, hheld, ← dependencyBlocks_iff h _ hqueued, and_assoc]

/-- The scheduler chooses the ready operation that is served before all other ready
operations, and none only if none is ready. -/
theorem isBest_nextReady? (h : p.IsSettled) (now : Instant) :
    IsBest (p.places.filter fun place => p.IsReady now place) (p.nextReady? now) := by
  have hascending : p.eligibleGraphs.Pairwise fun a b => a.1 < b.1 := by
    have hentries : p.graphs.entries.Pairwise fun a b => a.1 < b.1 :=
      p.graphs.ascending.imp Std.compare_eq_lt.1
    cases halgorithm : p.algorithm with
    | flat => simpa [eligibleGraphs, halgorithm] using hentries
    | commit =>
        rw [eligibleGraphs_of_commit h halgorithm]
        cases p.graphs.entries <;> simp
  have hnil : IsBest [] none := fun _ hmem => by cases hmem
  have hbest : IsBest (p.startable now p.eligibleGraphs) (p.nextReady? now) :=
    isBest_foldl_betterPlace hnil (fun _ hmem => by cases hmem) hascending
  apply hbest.congr
  intro place
  simp only [startable, List.mem_flatMap, List.mem_filter, Place.mem_ofGraph_iff, Prod.exists,
    decide_eq_true_eq]
  constructor
  · rintro ⟨snapshot, g, hmem, ⟨rfl, hindex⟩, hstart⟩
    obtain ⟨hg, holdest⟩ := (mem_eligibleGraphs_iff h).1 hmem
    have hplace : place ∈ p.places := mem_places_iff.2 ⟨g, hg, hindex⟩
    obtain ⟨hpending, hfree, hsatisfied⟩ := (canStart_iff h hplace).1 hstart
    exact ⟨hplace, hpending, hfree, hsatisfied, holdest⟩
  · rintro ⟨hplace, hready⟩
    obtain ⟨g, hg, hindex⟩ := mem_places_iff.1 hplace
    exact ⟨place.snapshot, g, (mem_eligibleGraphs_iff h).2 ⟨hg, hready.oldest⟩, ⟨rfl, hindex⟩,
      (canStart_iff h hplace).2 ⟨hready.pending, hready.free, hready.satisfied⟩⟩

end Pipeline

end OperationQueue
