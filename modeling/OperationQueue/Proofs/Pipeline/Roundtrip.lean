/-
# A queue and its own records

A settled queue is known by few things: which operations stand at each snapshot, which
holds they have, and the algorithm. Graphs without operations do not stay, and the links
between graphs follow from the snapshots that are in use. The records of a queue say all
of this, so a queue that is built again from its own records is the queue itself, whatever
was queued in the place where it is built.
-/
import OperationQueue.Proofs.Pipeline.Responding
import OperationQueue.Proofs.Store.Loading

namespace OperationQueue

namespace Pipeline

variable {p q : Pipeline}

/-! ## What a settled queue is known by -/

/-- There is a graph exactly where operations stand. -/
theorem IsReaped.get?_eq_none_iff (h : p.IsReaped) {snapshot : Snapshot} :
    p.graphs.get? snapshot = none ↔ p.operationsAt snapshot = [] := by
  constructor
  · intro hnone
    rw [operationsAt, hnone]
    rfl
  · intro hempty
    cases hg : p.graphs.get? snapshot with
    | none => rfl
    | some g => exact absurd (operationsAt_of_get? hg ▸ hempty) (h.operations_ne_nil hg)

/-- Queues with operations at the same snapshots have graphs at the same snapshots. -/
theorem IsReaped.keys_eq (hp : p.IsReaped) (hq : q.IsReaped)
    (hat : ∀ snapshot, p.operationsAt snapshot = q.operationsAt snapshot) :
    p.graphs.keys = q.graphs.keys := by
  have hbare : p.graphs.map (fun _ _ => ()) = q.graphs.map (fun _ _ => ()) := by
    apply OrderedMap.ext_get?
    intro snapshot
    have hnone : p.graphs.get? snapshot = none ↔ q.graphs.get? snapshot = none := by
      rw [hp.get?_eq_none_iff, hq.get?_eq_none_iff, hat]
    rw [OrderedMap.get?_map, OrderedMap.get?_map]
    cases hg : p.graphs.get? snapshot <;> cases hg' : q.graphs.get? snapshot <;>
      simp_all
  rw [← OrderedMap.keys_map p.graphs fun _ _ => (), hbare, OrderedMap.keys_map]

/-- The graph of a snapshot is made of the operations there and of the link that the algorithm
asks for. -/
theorem IsSettled.get?_graphs_eq (h : p.IsSettled) (snapshot : Snapshot) :
    p.graphs.get? snapshot =
      if p.operationsAt snapshot = [] then none
      else some
        { snapshot := snapshot
          operations := p.operationsAt snapshot
          previous := if p.algorithm = .flat then p.precedingSnapshot? snapshot else none } := by
  split
  · next hempty => exact h.get?_eq_none_iff.2 hempty
  · next hne =>
    cases hg : p.graphs.get? snapshot with
    | none => exact absurd (h.get?_eq_none_iff.1 hg) hne
    | some g =>
        have hsnapshot := h.snapshot_graph hg
        have hoperations := (operationsAt_of_get? hg).symm
        have hprevious := h.previous_eq hg
        obtain ⟨_, _, _⟩ := g
        rw [Option.some_inj, Graph.mk.injEq]
        exact ⟨hsnapshot, hoperations, hprevious⟩

/-- Two settled queues under one algorithm with the same operations at each snapshot have
the same graphs. -/
theorem IsSettled.graphs_eq (hp : p.IsSettled) (hq : q.IsSettled)
    (halgorithm : p.algorithm = q.algorithm)
    (hat : ∀ snapshot, p.operationsAt snapshot = q.operationsAt snapshot) :
    p.graphs = q.graphs := by
  have hkeys := hp.toIsReaped.keys_eq hq.toIsReaped hat
  apply OrderedMap.ext_get?
  intro snapshot
  have hpreceding : p.precedingSnapshot? snapshot = q.precedingSnapshot? snapshot := by
    rw [precedingSnapshot?, hkeys, ← precedingSnapshot?]
  rw [hp.get?_graphs_eq, hq.get?_graphs_eq, hat, halgorithm, hpreceding]

/-! ## The records of a settled queue -/

/-- Every record of a settled queue is restored as it is. -/
theorem IsSettled.restorable_stored (h : p.IsSettled) : restorable p.stored = p.stored := by
  have hids : p.stored.map (·.operation.id) = p.ids := by
    rw [stored, List.map_map]
    rfl
  apply restorable_eq_self (hids ▸ h.nodup_ids)
  intro r hr
  obtain ⟨op, hop, rfl⟩ := List.mem_map.1 hr
  exact ⟨h.unfinished op hop, h.unstaged op hop⟩

theorem operations_restorable_stored (h : p.IsSettled) :
    (restorable p.stored).map (·.operation) = p.operations := by
  rw [h.restorable_stored, stored, List.map_map]
  exact List.map_id' p.operations

/-- At each snapshot the same operations are restored. -/
theorem operationsAt_restore_stored (h : p.IsSettled) (q : Pipeline) (snapshot : Snapshot) :
    (q.restore p.stored).2.operationsAt snapshot = p.operationsAt snapshot := by
  rw [operationsAt_restore, operations_restorable_stored h, ← filter_operations h.toIsFiled]
  rfl

/-- Exactly the queued operations have records, and each record has all holds. -/
theorem holds_restore_stored (h : p.IsSettled) (q : Pipeline) :
    (q.restore p.stored).2.holds = p.holds := by
  have hentries : (q.restore p.stored).2.holds.byOperation = p.holds.byOperation := by
    apply OrderedMap.ext_get?
    intro id
    by_cases hid : id ∈ p.ids
    · obtain ⟨op, hop, rfl⟩ := List.mem_map.1 hid
      have hrecord : (⟨op, p.holds.ofOperation op.id⟩ : StoredOperation) ∈ restorable p.stored := by
        rw [h.restorable_stored]
        exact List.mem_map_of_mem hop
      rw [get?_holds_restore_of_mem hrecord]
      cases hentry : p.holds.byOperation.get? op.id with
      | none => simp [HoldTable.ofOperation, hentry, OrderedMap.isEmpty, OrderedMap.empty]
      | some holds => simp [HoldTable.ofOperation, hentry, (h.held hentry).1]
    · have hrecords : id ∉ (restorable p.stored).map (·.operation.id) := by
        rw [h.restorable_stored, stored, List.map_map]
        exact hid
      rw [get?_holds_restore_of_notMem hrecords]
      exact (Option.eq_none_iff_forall_ne_some.2 fun holds hentry =>
        hid (h.held hentry).2).symm
  exact congrArg HoldTable.mk hentries

theorem graphs_restore_stored (h : p.IsSettled) (halgorithm : q.algorithm = p.algorithm) :
    (q.restore p.stored).2.graphs = p.graphs :=
  (isSettled_restore q p.stored).graphs_eq h halgorithm (operationsAt_restore_stored h q)

/-! ## After any run -/

/-- A queue that is built again from its own records is as it was, in every part: its graphs,
its holds, its limit, its suspensions and what was announced of it. Built from them in the
place of any other queue under the same algorithm, it has the same graphs and the same
holds. -/
theorem Reachable.restore_stored {allowed : Pipeline → Action → Prop} (h : Reachable allowed p) :
    p.restore p.stored = (p.operations.length, p) ∧
      ∀ q : Pipeline, q.algorithm = p.algorithm →
        (q.restore p.stored).2.graphs = p.graphs ∧ (q.restore p.stored).2.holds = p.holds := by
  have hsettled := h.isSettled
  have hcount : (p.restore p.stored).1 = p.operations.length := by
    rw [← operations_restorable_stored hsettled, List.length_map]
    rfl
  have hgraphs := graphs_restore_stored hsettled (q := p) rfl
  have hholds := holds_restore_stored hsettled p
  have hrestored : (p.restore p.stored).2 = p := by
    obtain ⟨graphs, holds, heq⟩ : ∃ graphs holds, (p.restore p.stored).2 =
        { p with graphs := graphs, holds := holds,
                 activeFlag := isActive { p with graphs := graphs, holds := holds } } := ⟨_, _, rfl⟩
    rw [heq] at hgraphs hholds ⊢
    dsimp only at hgraphs hholds
    subst hgraphs hholds
    exact congrArg (fun flag => { p with activeFlag := flag }) h.activeFlag_eq.symm
  refine ⟨Prod.ext hcount hrestored, fun q halgorithm => ?_⟩
  exact ⟨graphs_restore_stored hsettled halgorithm, holds_restore_stored hsettled q⟩

/-- Requests after which a suspended queue has two graphs: an operation that was inserted
into the earlier one has outlived those that it joined, and the one in the later graph is
held. -/
def shuffledRun : List Action :=
  let first := Operation.new (.ofNat 1)
  let second := (Operation.new (.ofNat 2)).addDependency first.id
  let third := (Operation.new (.ofNat 3)).addDependency second.id
  [.apply ((Commit.new 1).add first) ⟨0, 0⟩, .apply ((Commit.new 4).add second) ⟨0, 0⟩,
    .suspend 2,
    .apply (((Commit.new 5).insert third 1).setStatus first.id .completed) ⟨0, 0⟩,
    .setHold second.id "retry" (some ⟨9, 0⟩) ⟨0, 0⟩, .setLimit 3 ⟨0, 0⟩]

/-- Its queue is found again, in its own place and in that of a queue that is in use. -/
theorem restore_shuffledRun :
    let p := shuffledRun.foldl perform (.new "main" .flat)
    let q := holdingRun.foldl perform (.new "other" .flat)
    Reachable (fun _ _ => True) p ∧ p.ids = [Identity.ofNat 3, Identity.ofNat 2] ∧
      p.restore p.stored = (2, p) ∧
      (q.restore p.stored).2.graphs = p.graphs ∧ (q.restore p.stored).2.holds = p.holds := by
  intro p q
  have hreachable : Reachable (fun _ _ => True) p :=
    (Reachable.new "main" .flat).foldl (fun _ _ => trivial) shuffledRun
  have hids : p.ids = [Identity.ofNat 3, Identity.ofNat 2] := by decide +kernel
  have hlength : p.operations.length = 2 := by
    rw [← List.length_map (f := (·.id))]
    exact congrArg List.length hids
  have halgorithm : q.algorithm = p.algorithm := by decide +kernel
  obtain ⟨hsame, hother⟩ := hreachable.restore_stored
  exact ⟨hreachable, hids, hlength ▸ hsame, hother q halgorithm⟩

end Pipeline

end OperationQueue
