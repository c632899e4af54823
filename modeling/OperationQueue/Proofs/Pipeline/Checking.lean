/-
# What the check of a commit foretells

The check looks at a queue and a commit and reckons what the queue will be. Applying the commit
does not look at that reckoning, so the two can differ, and they do in one place. A modification
of an operation that is not queued is passed over when the commit is applied, but it counts when
the commit is checked. Where no such modification takes part in a cycle, everybody who is
reckoned to wait for somebody does so afterwards.
-/
import OperationQueue.Proofs.Commit.Cycles
import OperationQueue.Proofs.Pipeline.Waiting

namespace OperationQueue

namespace Pipeline

open Relation

variable {p : Pipeline} {c : Commit} {id dep : Identity}

/-- The commit modifies an operation that is not queued. It may have left the queue or never
been in it, or it is new in the commit and was modified before it was added. -/
def IsStale (p : Pipeline) (c : Commit) (id : Identity) : Prop :=
  id ∉ p.ids ∧ ∃ m ∈ c.modified, m.id = id

instance (p : Pipeline) (c : Commit) (id : Identity) : Decidable (p.IsStale c id) :=
  inferInstanceAs (Decidable (id ∉ p.ids ∧ ∃ m ∈ c.modified, m.id = id))

/-! ## What stays queued -/

/-- A queued operation that is not reckoned to finish is queued afterwards, as edited. -/
theorem edited_mem_changeQueue (h : p.IsSettled) (hfresh : p.IsFresh c) {old : Operation}
    (hold : old ∈ p.operations) (hstays : c.finishes old.id = false) :
    p.edited c old ∈ (p.changeQueue c).2.operations := by
  rw [finishes_eq_isTerminal_edited hfresh hold (h.unfinished old hold)] at hstays
  exact (mem_operations_changeQueue h hfresh).2 (.inl ⟨old, hold, hstays, rfl⟩)

/-- A new operation that is not reckoned to finish is queued afterwards, without the
dependencies that nobody knows. -/
theorem exists_joined_mem_changeQueue (h : p.IsSettled) (hfresh : p.IsFresh c)
    (hconsistent : c.IsConsistent) {new : Operation} (hnew : new ∈ c.newOperations)
    (hstays : c.finishes new.id = false) :
    ∃ op ∈ (p.changeQueue c).2.operations, op.id = new.id ∧ ∀ dep ∈ new.dependencies.toList,
      (p.remaining c).knows c dep = true → dep ∈ op.dependencies.toList := by
  rw [finishes_eq_isTerminal_applyStaged hconsistent hfresh.nodup hnew] at hstays
  rw [← map_snd_newItems] at hnew
  obtain ⟨item, hitem, rfl⟩ := List.mem_map.1 hnew
  refine ⟨_, (mem_operations_changeQueue h hfresh).2 (.inr ⟨item, hitem, hstays, rfl⟩), rfl, ?_⟩
  intro dep hdep hknown
  exact Operation.mem_dependencies_retainDependencies.2 ⟨hdep, hknown⟩

/-- Whoever counts when the commit is checked and is not reckoned to finish is queued
afterwards, unless all that counts of it is a stale modification. -/
theorem mem_ids_changeQueue_of_counts (h : p.IsSettled) (hfresh : p.IsFresh c)
    (hconsistent : c.IsConsistent) {op : Operation} (hcounts : c.Counts p.operations op)
    (hstays : c.finishes op.id = false) (hactual : ¬ p.IsStale c op.id) :
    op.id ∈ (p.changeQueue c).2.ids := by
  have hqueued {old : Operation} (hold : old ∈ p.operations) (hfinishes : c.finishes old.id = false) :
      old.id ∈ (p.changeQueue c).2.ids := by
    rw [← (keepsPlace_edited p c).id old]
    exact List.mem_map_of_mem (edited_mem_changeQueue h hfresh hold hfinishes)
  cases hcounts with
  | queued mem _ => exact hqueued mem hstays
  | new mem =>
      obtain ⟨joined, hjoined, hid, -⟩ :=
        exists_joined_mem_changeQueue h hfresh hconsistent mem hstays
      exact hid ▸ List.mem_map_of_mem hjoined
  | modified mem =>
      have hid : op.id ∈ p.ids := by
        by_contra hgone
        exact hactual ⟨hgone, op, mem, rfl⟩
      obtain ⟨old, hold, heq⟩ := List.mem_map.1 hid
      rw [← heq] at hstays ⊢
      exact hqueued hold hstays

/-! ## Who waits afterwards -/

/-- What is queued after a fresh commit was known when the commit was applied, both before the
finished operations left and after. -/
theorem knows_of_mem_ids_changeQueue (h : p.IsSettled) (hfresh : p.IsFresh c)
    (hid : id ∈ (p.changeQueue c).2.ids) :
    p.knows c id = true ∧ (p.remaining c).knows c id = true := by
  obtain ⟨op, hop, rfl⟩ := List.mem_map.1 hid
  rw [knows, knows]
  rcases (mem_operations_changeQueue h hfresh).1 hop with
    ⟨old, hold, hstays, rfl⟩ | ⟨item, hitem, -, rfl⟩
  · have hremains : p.edited c old ∈ (p.remaining c).operations := by
      rw [remaining, mem_operations_reap, operations_mapOperations]
      exact ⟨List.mem_map_of_mem hold, hstays⟩
    have hbefore : p.isQueued (p.edited c old).id = true := by
      rw [(keepsPlace_edited p c).id]
      exact isQueued_iff.2 (List.mem_map_of_mem hold)
    have hafter : (p.remaining c).isQueued (p.edited c old).id = true :=
      isQueued_iff.2 (List.mem_map_of_mem hremains)
    rw [hbefore, hafter, Bool.or_true]
    exact ⟨rfl, rfl⟩
  · have hnew : c.isNew item.2.id = true :=
      Commit.isNew_iff.2 ⟨item.2, map_snd_newItems c ▸ List.mem_map_of_mem hitem, rfl⟩
    show (c.isNew item.2.id || _) = true ∧ (c.isNew item.2.id || _) = true
    rw [hnew, Bool.true_or]
    exact ⟨rfl, rfl⟩

/-- Whoever is reckoned to wait waits afterwards, if the dependency is queued then and no stale
modification is behind it. -/
theorem waitsFor_changeQueue_of_orders (h : p.IsSettled) (hfresh : p.IsFresh c)
    (hconsistent : c.IsConsistent) (horders : c.Orders p.operations dep id)
    (hdep : dep ∈ (p.changeQueue c).2.ids) (hactual : ¬ p.IsStale c id) :
    (p.changeQueue c).2.WaitsFor id dep := by
  obtain ⟨-, hstays, op, hcounts, rfl, hneeds⟩ := horders
  obtain ⟨hknown, hknownLater⟩ := knows_of_mem_ids_changeQueue h hfresh hdep
  refine ⟨hdep, ?_⟩
  cases hcounts with
  | queued mem unmodified =>
      refine ⟨_, edited_mem_changeQueue h hfresh mem hstays, (keepsPlace_edited p c).id op, ?_⟩
      rw [edited, Operation.dependencies_moved]
      rcases op.dependencies_modified (p.knows c) c.modified with
        ⟨-, hsame⟩ | ⟨m, hm, hid, -⟩
      · exact hsame ▸ hneeds
      · exact absurd hid (unmodified m hm)
  | new mem =>
      obtain ⟨joined, hjoined, hid, hkept⟩ :=
        exists_joined_mem_changeQueue h hfresh hconsistent mem hstays
      exact ⟨joined, hjoined, hid, hkept dep hneeds hknownLater⟩
  | modified mem =>
      have hid : op.id ∈ p.ids := by
        by_contra hgone
        exact hactual ⟨hgone, op, mem, rfl⟩
      obtain ⟨old, hold, heq⟩ := List.mem_map.1 hid
      have hedited := (keepsPlace_edited p c).id old
      refine ⟨_, edited_mem_changeQueue h hfresh hold (heq ▸ hstays), hedited.trans heq, ?_⟩
      rw [edited, Operation.dependencies_moved]
      rcases old.dependencies_modified (p.knows c) c.modified with
        ⟨hnone, -⟩ | ⟨m, hm, hmodified, hdeps⟩
      · exact absurd heq.symm (hnone op mem)
      · -- An operation is modified once, so this is the modification that was reckoned with.
        have hsame : m = op :=
          List.inj_on_of_nodup_map hconsistent.modified hm mem (hmodified.trans heq)
        rw [hdeps, hsame]
        exact Operation.mem_dependencies_retainDependencies.2 ⟨hneeds, hknown⟩

/-! ## The check and the queue -/

theorem hasCycle_applyCommit_iff (h : p.IsSettled) (now : Instant) :
    (p.applyCommit c now).2.HasCycle ↔ (p.changeQueue c).2.HasCycle := by
  have hpass : SameQueue (p.changeQueue c).2 (p.applyCommit c now).2 :=
    sameQueue_reschedule (h.changeQueue c).nodup_ids now _
  rw [HasCycle, HasCycle, hpass.waitsFor_eq]

/-- A cycle that is reckoned with is there afterwards, or a stale modification is on it. -/
theorem hasCycle_changeQueue_of_transGen (h : p.IsSettled) (hfresh : p.IsFresh c)
    (hconsistent : c.IsConsistent) (hcycle : TransGen (c.Orders p.operations) id id)
    (hactual : ∀ other, p.IsStale c other → ¬ TransGen (c.Orders p.operations) other other) :
    (p.changeQueue c).2.HasCycle := by
  -- Whoever is on a cycle waits for somebody, so it counts, and nothing stale is on one.
  have hqueued {other : Identity} (hother : TransGen (c.Orders p.operations) other other) :
      other ∈ (p.changeQueue c).2.ids := by
    obtain ⟨before, -, -, hstays, op, hcounts, rfl, -⟩ := TransGen.tail'_iff.1 hother
    exact mem_ids_changeQueue_of_counts h hfresh hconsistent hcounts hstays
      fun hstale => hactual _ hstale hother
  refine ⟨id, transGen_swap.1 (transGen_self_of_forall (fun a b horders hback => ?_) hcycle)⟩
  have ha : TransGen (c.Orders p.operations) a a := TransGen.head' horders hback
  have hb : TransGen (c.Orders p.operations) b b := TransGen.tail' hback horders
  exact waitsFor_changeQueue_of_orders h hfresh hconsistent horders (hqueued ha)
    fun hstale => hactual b hstale hb

/-- In every reachable pipeline the check of a fresh commit refuses it exactly if the queue
would have a cycle afterwards, or if the commit modifies an operation that is not queued and
this modification stands on a cycle. -/
theorem Reachable.checkCommit_eq_error_iff {allowed : Pipeline → Action → Prop}
    (h : Reachable allowed p) (hbuilt : c.Built) (hfresh : p.IsFresh c) (now : Instant) :
    (∃ e, p.checkCommit c = .error e) ↔
      (p.applyCommit c now).2.HasCycle ∨
        ∃ id, p.IsStale c id ∧ TransGen (c.Orders p.operations) id id := by
  rw [hasCycle_applyCommit_iff h.isSettled]
  constructor
  · intro hrefused
    obtain ⟨e, he⟩ := hrefused
    obtain ⟨id, -, hcycle⟩ := Commit.of_checkAgainst_eq_error he
    by_cases hstale : ∃ id, p.IsStale c id ∧ TransGen (c.Orders p.operations) id id
    · exact .inr hstale
    · exact .inl (hasCycle_changeQueue_of_transGen h.isSettled hfresh hbuilt.isConsistent hcycle
        fun other hother hon => hstale ⟨other, hother, hon⟩)
  · intro hcycle
    rcases hcycle with hcycle | ⟨id, -, hcycle⟩
    · rcases p.checkCommit_cases c with hok | ⟨id, hrefused⟩
      · exact absurd hcycle (not_hasCycle_changeQueue h.isSettled hfresh hbuilt hok)
      · exact ⟨_, hrefused⟩
    · obtain ⟨other, hrefused⟩ := Commit.checkAgainst_of_transGen hcycle
      exact ⟨_, hrefused⟩

/-! ## A refusal that nothing calls for -/

/-- Requests after which the second operation waits for the first, which has completed. -/
def completedRun : List Action :=
  let first := Operation.new (.ofNat 1)
  let second := (Operation.new (.ofNat 2)).addDependency first.id
  [.apply ((Commit.new 1).add first) ⟨0, 0⟩, .apply ((Commit.new 2).add second) ⟨0, 0⟩,
    .apply ((Commit.new 3).setStatus first.id .completed) ⟨0, 0⟩]

/-- The queue after these requests. -/
def completedQueue : Pipeline := completedRun.foldl perform (.new "main" .flat)

/-- Somebody still holds a copy of the completed operation and makes it wait for the second. -/
def lateCommit : Commit :=
  (Commit.new 4).modify ((Operation.new (.ofNat 1)).addDependency (.ofNat 2))

private theorem reachable_completedQueue : Reachable (fun _ _ => True) completedQueue :=
  (Reachable.new "main" .flat).foldl (fun _ _ => trivial) completedRun

private theorem not_hasCycle_lateCommit :
    ¬ (completedQueue.applyCommit lateCommit ⟨0, 0⟩).2.HasCycle := by
  -- The second operation is queued alone.
  have hnobody : ∀ op ∈ (completedQueue.applyCommit lateCommit ⟨0, 0⟩).2.operations,
      ∀ dep ∈ op.dependencies.toList,
        dep ∉ (completedQueue.applyCommit lateCommit ⟨0, 0⟩).2.ids := by
    decide +kernel
  intro hcycle
  obtain ⟨id, hcycle⟩ := hcycle
  obtain ⟨dep, ⟨hdep, op, hop, -, hmem⟩, -⟩ := TransGen.head'_iff.1 hcycle
  exact hnobody op hop dep hmem hdep

/-- The check refuses the late commit, so the modification that it passes over is on a cycle. -/
theorem isStale_of_lateCommit_refused :
    Reachable (fun _ _ => True) completedQueue ∧ lateCommit.Built ∧
      completedQueue.IsFresh lateCommit ∧
      ∃ id, completedQueue.IsStale lateCommit id ∧
        TransGen (lateCommit.Orders completedQueue.operations) id id := by
  have hbuilt : lateCommit.Built := .stage (.new 4) (.modify _)
  have hfresh : completedQueue.IsFresh lateCommit := by decide +kernel
  have hrefused : completedQueue.checkCommit lateCommit = .error (.cycle 4 (.ofNat 1)) := by
    decide +kernel
  refine ⟨reachable_completedQueue, hbuilt, hfresh, ?_⟩
  rcases (reachable_completedQueue.checkCommit_eq_error_iff hbuilt hfresh ⟨0, 0⟩).1 ⟨_, hrefused⟩ with
    hcycle | hstale
  · exact absurd hcycle not_hasCycle_lateCommit
  · exact hstale

/-- The late commit is refused although the queue has no cycle once it is applied. -/
theorem lateCommit_refused_and_not_hasCycle :
    Reachable (fun _ _ => True) completedQueue ∧ lateCommit.Built ∧
      completedQueue.IsFresh lateCommit ∧
      completedQueue.checkCommit lateCommit = .error (.cycle 4 (.ofNat 1)) ∧
      ¬ (completedQueue.applyCommit lateCommit ⟨0, 0⟩).2.HasCycle :=
  ⟨reachable_completedQueue, .stage (.new 4) (.modify _), by decide +kernel, by decide +kernel,
    not_hasCycle_lateCommit⟩

end Pipeline

end OperationQueue
