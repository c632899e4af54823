/-
# What a restart revives

A queue drops references to operations that nobody knows, and its row keeps them. When
such an operation comes later, the row waits for it and the queue does not; only a restart,
which builds the queue from the rows, makes the queue wait as well. So a restart can bring
a circle that no check has seen, exactly when a circle of stored references leads through
one that was dropped.
-/
import OperationQueue.Proofs.Registry.Serving

namespace OperationQueue

open Relation

/-- A stored operation has a stored operation of the same pipeline among its dependencies. -/
def MemoryStore.WaitsFor (s : MemoryStore) (rowid : Int) (id dep : Identity) : Prop :=
  (∃ row ∈ s.rows, row.pipeline = rowid ∧ row.operation.id = dep) ∧
    ∃ row ∈ s.rows, row.pipeline = rowid ∧ row.operation.id = id ∧
      dep ∈ row.operation.dependencies.toList

instance (s : MemoryStore) (rowid : Int) (id dep : Identity) : Decidable (s.WaitsFor rowid id dep) :=
  inferInstanceAs (Decidable ((∃ row ∈ s.rows, row.pipeline = rowid ∧ row.operation.id = dep) ∧
    ∃ row ∈ s.rows, row.pipeline = rowid ∧ row.operation.id = id ∧
      dep ∈ row.operation.dependencies.toList))

/-- A circle of stored references leads through one that the queue dropped. -/
def Member.RevivesCycle (s : MemoryStore) (m : Member) : Prop :=
  ∃ id dep, s.WaitsFor m.rowid id dep ∧ ¬ m.pipeline.WaitsFor id dep ∧
    ReflTransGen (s.WaitsFor m.rowid) dep id

variable {owner : Identity → Int} {s : MemoryStore} {rowid : Int} {p : Pipeline}

/-- A queue that is built from rows waits as the rows do. -/
theorem MemoryStore.IsSound.waitsFor_restore (hs : s.IsSound owner) (rowid : Int) (p : Pipeline) :
    (p.restore (s.load rowid)).2.WaitsFor = s.WaitsFor rowid := by
  have hmem (op : Operation) : op ∈ (p.restore (s.load rowid)).2.operations ↔
      ∃ row ∈ s.rows, row.pipeline = rowid ∧ row.operation = op := by
    rw [Pipeline.mem_operations_restore, hs.restorable_load]
    constructor
    · rintro ⟨r, hr, rfl⟩
      obtain ⟨row, hrow, hpipeline, rfl⟩ := MemoryStore.mem_load_iff.1 hr
      exact ⟨row, hrow, hpipeline, rfl⟩
    · rintro ⟨row, hrow, hpipeline, rfl⟩
      exact ⟨_, MemoryStore.mem_load_iff.2 ⟨row, hrow, hpipeline, rfl⟩, rfl⟩
  funext id dep
  simp only [Pipeline.WaitsFor, MemoryStore.WaitsFor, Pipeline.ids, List.mem_map, hmem, eq_iff_iff]
  constructor
  · rintro ⟨⟨_, ⟨row, hrow, hpipeline, rfl⟩, hdep⟩, _, ⟨other, hother, hpipeline', rfl⟩, hid, hwaits⟩
    exact ⟨⟨row, hrow, hpipeline, hdep⟩, other, hother, hpipeline', hid, hwaits⟩
  · rintro ⟨⟨row, hrow, hpipeline, hdep⟩, other, hother, hpipeline', hid, hwaits⟩
    exact ⟨⟨_, ⟨row, hrow, hpipeline, rfl⟩, hdep⟩, _, ⟨other, hother, hpipeline', rfl⟩, hid, hwaits⟩

/-- Where a queue has no cycle, its successor after a restart has one exactly if the rows
revive it. -/
theorem Member.hasCycle_restore_iff (hs : s.IsSound owner) {m : Member}
    (hacyclic : ¬ m.pipeline.HasCycle) (p : Pipeline) :
    (p.restore (s.load m.rowid)).2.HasCycle ↔ m.RevivesCycle s := by
  rw [Pipeline.HasCycle, hs.waitsFor_restore]
  constructor
  · rintro ⟨id, hcycle⟩
    by_contra hnone
    refine hacyclic ⟨id, transGen_self_of_forall (fun a b hwaits hback => ?_) hcycle⟩
    by_contra hdropped
    exact hnone ⟨a, b, hwaits, hdropped, hback⟩
  · rintro ⟨id, dep, hwaits, -, hback⟩
    exact ⟨id, TransGen.head' hwaits hback⟩

namespace Registry

variable {r : Registry MemoryStore} {m : Member} {c : Candidate}

theorem checkAlgorithm_self (name : String) (algorithm : Algorithm) (migrate : Bool) :
    Pipeline.checkAlgorithm name (some algorithm) algorithm migrate = .ok () :=
  if_neg fun h => h.1 rfl

/-- A member can be registered again on a new registry, and its queue is built from its
rows. -/
theorem IsInStep.register_new (h : IsInStep owner r) (hm : r.members.get? c.name = some m)
    (halgorithm : c.algorithm = m.pipeline.algorithm) :
    ∃ after n, (new r.store).register c = (.ok (), after) ∧
      MemoryStore.SameRows r.store after.store ∧ after.members.get? c.name = some n ∧
      n.pipeline = (c.pipeline.restore (r.store.load m.rowid)).2 := by
  have hrow := (h.member hm).row
  rw [← halgorithm] at hrow
  have hlookup := MemoryStore.lookup_eq_some h.names hrow c.previousNames
  obtain ⟨s, hregistered⟩ : ∃ s, r.store.register c.name c.previousNames c.algorithm =
      (⟨m.rowid, c.name, some c.algorithm⟩, s) := by
    rw [MemoryStore.register, hlookup]
    exact ⟨_, rfl⟩
  have hsame : MemoryStore.SameRows r.store s :=
    (MemoryStore.isRow_register h.names c.name c.previousNames c.algorithm hregistered).1
  have hload : s.load m.rowid = r.store.load m.rowid := by
    rw [MemoryStore.load, MemoryStore.load, hsame.rows, hsame.holds]
  have hlooked : Store.lookup r.store c.name c.previousNames =
      .ok (some ⟨m.rowid, c.name, some c.algorithm⟩) := congrArg Except.ok hlookup
  have hchecked : checkStored r.store c = .ok () := by
    rw [checkStored, hlooked]
    exact checkAlgorithm_self _ _ _
  have hrestored : restored s c ⟨m.rowid, c.name, some c.algorithm⟩ =
      .ok ⟨m.rowid, (c.pipeline.restore (r.store.load m.rowid)).2, c.previousNames, c.migrate,
        c.executor⟩ := by
    rw [← hload]
    have hchecked : Pipeline.checkAlgorithm c.pipeline.name (some c.algorithm)
        c.pipeline.algorithm c.migrate = .ok () := checkAlgorithm_self _ _ _
    simp only [restored, Store.load, Member.restore, bind, Except.bind, hchecked]
    rfl
  have hmigrated : migrated s c ⟨m.rowid, c.name, some c.algorithm⟩ = .ok s :=
    if_neg (by simp)
  have hfree : (new r.store).isTaken c = false := rfl
  exact ⟨_, _, register_eq_ok hfree hchecked (congrArg Except.ok hregistered) hrestored hmigrated,
    hsame, OrderedMap.get?_insert_self _ _ _, rfl⟩

/-! ## One more operation -/

/-- A transaction that only adds one operation. -/
def adding (name : String) (op : Operation) : Transaction := Transaction.empty.stage name (.add op)

/-- A commit that only adds an operation can be written if the operation has no row. -/
private theorem exists_written (s : MemoryStore) {op : Operation}
    (hnew : s.isStored op.id = false) (rowid : Int) (snapshot : Snapshot) :
    ∃ v, s.applyChangesets snapshot
      [⟨rowid, (((Commit.new 0).add op).stamp snapshot).changeset⟩] = .ok v := by
  have hrows : (((Commit.new 0).add op).stamp snapshot).newOperations =
      [{ (Commit.new 0).prepare op 0 with snapshot := snapshot }] := rfl
  have hrevisions : (((Commit.new 0).add op).stamp snapshot).revisions = [] := rfl
  have hwrites : (((Commit.new 0).add op).stamp snapshot).changeset = [] ∨
      ∃ row : Operation, row.id = op.id ∧
        (((Commit.new 0).add op).stamp snapshot).changeset = [.insert row] := by
    rw [Commit.changeset_eq, Commit.newRows, hrows, hrevisions, List.append_nil, List.filter_cons]
    split
    · exact .inr ⟨Operation.applyStaged { (Commit.new 0).prepare op 0 with snapshot := snapshot },
        rfl, rfl⟩
    · exact .inl rfl
  rcases hwrites with hnothing | ⟨row, hid, hinsert⟩
  · rw [hnothing]
    exact ⟨_, rfl⟩
  · have hwrite : ∃ v, MemoryStore.write rowid (.empty, s) (.insert row) = .ok v := by
      rw [MemoryStore.write, hid, hnew]
      exact ⟨_, rfl⟩
    obtain ⟨v, hv⟩ := hwrite
    rw [hinsert, MemoryStore.applyChangesets, MemoryStore.writeAll, List.foldlM_cons,
      List.foldlM_cons, hv]
    exact ⟨_, rfl⟩

/-- The commit of one operation that waits for nobody can be finished. -/
private theorem finish_adding (name : String) {op : Operation}
    (hindependent : op.dependencies = .empty) (snapshot : Snapshot) :
    (adding name op).finish snapshot =
      .ok (OrderedMap.empty.insert name (((Commit.new 0).add op).stamp snapshot)) := by
  have hnone : op.id ∉ (Pipeline.new "" .flat).ids := by
    intro hmem
    cases hmem
  have hcheck : ((Commit.new 0).add op).check = .ok () :=
    (Pipeline.checkCommit_add_eq_ok_iff hnone hindependent 0).2 (Pipeline.not_hasCycle_new _ _)
  have hvalues : (adding name op).commits.values = [(Commit.new 0).add op] := rfl
  have hall : [(Commit.new 0).add op].forM Commit.check = .ok () := by
    apply forM_eq_ok_of_forall
    intro staged hstaged
    rw [List.mem_singleton] at hstaged
    rw [hstaged, hcheck]
  rw [Transaction.finish, hvalues, hall]
  rfl

/-- One commit for a member has this member as its target. -/
private theorem targets_singleton {name : String} (hm : r.members.get? name = some m)
    (c : Commit) : r.targets (OrderedMap.empty.insert name c) = .ok [(m, c)] := by
  have hentries : (OrderedMap.empty.insert name c).entries = [(name, c)] := rfl
  rw [targets, hentries, List.mapM_cons]
  simp only [hm]
  rfl

/-- Adding an operation without dependencies succeeds exactly where the queue has no cycle. -/
theorem commit_adding (hm : r.members.get? m.pipeline.name = some m) {op : Operation}
    (hnew : r.store.isStored op.id = false) (hqueued : op.id ∉ m.pipeline.ids)
    (hindependent : op.dependencies = .empty) (now : Instant) :
    (¬ m.pipeline.HasCycle →
      ∃ committed, r.commit (adding m.pipeline.name op) now = .ok committed) ∧
    (m.pipeline.HasCycle →
      ∃ snapshot id, r.commit (adding m.pipeline.name op) now = .error (.cycle snapshot id)) := by
  have hchanges : (adding m.pipeline.name op).isEmpty = false := rfl
  have hnext : Store.nextSnapshot r.store = .ok (r.store.lastSnapshot + 1) := rfl
  have hfinish := finish_adding m.pipeline.name hindependent (r.store.lastSnapshot + 1)
  have haccepted := Pipeline.checkCommit_add_eq_ok_iff hqueued hindependent
    (r.store.lastSnapshot + 1)
  obtain ⟨written, hwritten⟩ := exists_written r.store hnew m.rowid (r.store.lastSnapshot + 1)
  generalize ((Commit.new 0).add op).stamp (r.store.lastSnapshot + 1) = c at *
  have htargets := targets_singleton hm c
  constructor
  · intro hacyclic
    refine commit_eq_ok hchanges hnext ⟨hfinish, htargets, fun target htarget => ?_, hwritten⟩ now
    rw [List.mem_singleton] at htarget
    rw [htarget]
    exact haccepted.2 hacyclic
  · intro hcycle
    rcases m.pipeline.checkCommit_cases c with hok | ⟨id, hrefused⟩
    · exact absurd hcycle (haccepted.1 hok)
    · refine ⟨c.snapshot, id, commit_eq_error hchanges hnext hfinish htargets ?_ now⟩
      have hbind : [(m, c)].forM (fun target => target.1.pipeline.checkCommit target.2) =
          (m.pipeline.checkCommit c >>= fun _ => .ok ()) := rfl
      rw [hbind, hrefused]
      rfl

/-! ## The live run and the restart -/

/-- An identity that no member queues has no row, as long as a registry is not given up. -/
theorem IsServing.isStored_eq_false (h : IsServing r) (hstep : IsInStep owner r) {id : Identity}
    (hnew : ∀ name n, r.members.get? name = some n → id ∉ n.pipeline.ids) :
    r.store.isStored id = false := by
  rw [MemoryStore.isStored, List.any_eq_false]
  intro row hrow hid
  obtain ⟨name, n, hn, hrowid⟩ := h.owned row hrow
  exact hnew name n hn
    ((hstep.member hn).queue.mem_ids_iff.2 ⟨row, hrow, hrowid.symm, by simpa using hid⟩)

/-- While a registry lives, an operation that waits for nobody can be added. -/
theorem commit_adding_live (h : Reachable (Serves owner) r) {name : String}
    (hm : r.member? name = some m) {op : Operation} (hindependent : op.dependencies = .empty)
    (hnew : ∀ name n, r.member? name = some n → op.id ∉ n.pipeline.ids) (now : Instant) :
    ∃ committed, r.commit (adding name op) now = .ok committed := by
  have hstep := h.isInStep_of_serves
  have hstored := h.isServing.isStored_eq_false hstep hnew
  have hname : m.pipeline.name = name := (hstep.member hm).name_eq
  subst hname
  exact (commit_adding hm hstored (hnew _ _ hm) hindependent now).1 (h.isServing.acyclic hm)

/-- A restart registers a member again, whose queue has a cycle exactly if the rows revive
one, and an operation that waits for nobody is refused for it. -/
theorem commit_adding_after_restart (h : Reachable (Serves owner) r)
    (hm : r.member? c.name = some m) (halgorithm : c.algorithm = m.pipeline.algorithm)
    {op : Operation} (hindependent : op.dependencies = .empty)
    (hnew : ∀ name n, r.member? name = some n → op.id ∉ n.pipeline.ids) (now : Instant) :
    ∃ after n, (new r.store).register c = (.ok (), after) ∧ after.member? c.name = some n ∧
      (n.pipeline.HasCycle ↔ m.RevivesCycle r.store) ∧
      (¬ n.pipeline.HasCycle →
        ∃ committed, after.commit (adding c.name op) now = .ok committed) ∧
      (n.pipeline.HasCycle →
        ∃ snapshot id, after.commit (adding c.name op) now = .error (.cycle snapshot id)) := by
  have hstep := h.isInStep_of_serves
  have hstored := h.isServing.isStored_eq_false hstep hnew
  obtain ⟨after, n, hregister, hsame, hn, hpipeline⟩ := hstep.register_new hm halgorithm
  have hname : n.pipeline.name = c.name := by
    rw [hpipeline]
    exact (Pipeline.sameSetup_restore c.pipeline _).name
  have hstored' : after.store.isStored op.id = false := by
    rw [MemoryStore.isStored, hsame.rows]
    exact hstored
  have hqueued : op.id ∉ n.pipeline.ids := by
    rw [hpipeline]
    intro hid
    obtain ⟨row, hrow, -, heq⟩ := (InStep.restore hstep.sound m.rowid c.pipeline).mem_ids_iff.1 hid
    rw [MemoryStore.isStored, List.any_eq_false] at hstored
    exact hstored row hrow (by simpa using heq)
  have hcycle : n.pipeline.HasCycle ↔ m.RevivesCycle r.store := by
    rw [hpipeline]
    exact Member.hasCycle_restore_iff hstep.sound (h.isServing.acyclic hm) c.pipeline
  have hadding := commit_adding (hname ▸ hn) hstored' hqueued hindependent now
  rw [hname] at hadding
  exact ⟨after, n, hregister, hn, hcycle, hadding⟩

/-- While a registry lives, no member waits in a circle, and an operation that waits for
nobody can be added. After a restart the same member waits in a circle, and refuses this
operation for it, exactly if a circle of its rows leads through a reference that its queue
had dropped. -/
theorem Reachable.commit_adding_restarted (h : Reachable (Serves owner) r)
    (hm : r.member? c.name = some m) (halgorithm : c.algorithm = m.pipeline.algorithm)
    {op : Operation} (hindependent : op.dependencies = .empty)
    (hnew : ∀ name n, r.member? name = some n → op.id ∉ n.pipeline.ids) (now : Instant) :
    (¬ m.pipeline.HasCycle ∧ ∃ committed, r.commit (adding c.name op) now = .ok committed) ∧
    ∃ after n, (Registry.new r.store).register c = (.ok (), after) ∧
      after.member? c.name = some n ∧
      (n.pipeline.HasCycle ↔ m.RevivesCycle r.store) ∧
      ((∃ committed, after.commit (adding c.name op) now = .ok committed) ↔
        ¬ m.RevivesCycle r.store) ∧
      (m.RevivesCycle r.store →
        ∃ snapshot id, after.commit (adding c.name op) now = .error (.cycle snapshot id)) := by
  obtain ⟨after, n, hregister, hn, hcycle, haccepts, hrefuses⟩ :=
    commit_adding_after_restart h hm halgorithm hindependent hnew now
  refine ⟨⟨h.isServing.acyclic hm, commit_adding_live h hm hindependent hnew now⟩, after, n,
    hregister, hn, hcycle, ?_, fun hrevives => hrefuses (hcycle.2 hrevives)⟩
  constructor
  · rintro ⟨committed, hcommitted⟩ hrevives
    obtain ⟨snapshot, id, hrefused⟩ := hrefuses (hcycle.2 hrevives)
    rw [hcommitted] at hrefused
    cases hrefused
  · intro hnone
    exact haccepts fun hhas => hnone (hcycle.1 hhas)

/-- Moves of a registry with one pipeline: of two operations that are added by two commits
the second waits for the first, and in a circle the first waits for the second as well,
which is still unknown when it comes. -/
def pairRun (circle : Bool) : List Move :=
  let first := Operation.new (.ofNat 1)
  let second := (Operation.new (.ofNat 2)).addDependency first.id
  [.register mainQueue,
    .commit (adding "main" (if circle then first.addDependency second.id else first)) ⟨0, 0⟩,
    .commit (adding "main" second) ⟨0, 0⟩]

private theorem reachable_pairRun (circle : Bool) :
    Reachable (Serves fun _ => 1) ((pairRun circle).foldl move (.new .empty)) := by
  simp only [pairRun, List.foldl_cons, List.foldl_nil]
  refine Reachable.step (.step (.step .new ⟨?_, ?_⟩) ⟨?_, ?_⟩) ⟨?_, ?_⟩
  · trivial
  · trivial
  · exact ⟨Transaction.Staged.empty.stage _ _, by cases circle <;> decide +kernel⟩
  · trivial
  · exact ⟨Transaction.Staged.empty.stage _ _, by cases circle <;> decide +kernel⟩
  · trivial

private theorem member_pairRun (circle : Bool) :
    ∃ m, ((pairRun circle).foldl move (.new .empty)).member? "main" = some m ∧ m.rowid = 1 ∧
      m.pipeline.algorithm = .flat := by
  have hdecided : (((pairRun circle).foldl move (.new .empty)).member? "main").map
      (fun m => (m.rowid, m.pipeline.algorithm)) = some (1, .flat) := by
    cases circle <;> decide +kernel
  obtain ⟨m, hm, heq⟩ := Option.map_eq_some_iff.1 hdecided
  exact ⟨m, hm, congrArg Prod.fst heq, congrArg Prod.snd heq⟩

private theorem notQueued_pairRun (circle : Bool) (name : String) (n : Member)
    (hn : ((pairRun circle).foldl move (.new .empty)).member? name = some n) :
    Identity.ofNat 3 ∉ n.pipeline.ids := by
  have hall : ∀ e ∈ ((pairRun circle).foldl move (.new .empty)).members.entries,
      Identity.ofNat 3 ∉ e.2.pipeline.ids := by
    cases circle <;> decide +kernel
  exact hall _ (OrderedMap.get?_eq_some_iff.1 hn)

/-- If only the second operation waits for the first, the queue drops nothing, and a third
operation that waits for nobody can be added before and after a restart. -/
theorem commit_adding_restarted_pairRun :
    (∃ committed, ((pairRun false).foldl move (.new .empty)).commit
      (adding "main" (Operation.new (.ofNat 3))) ⟨0, 0⟩ = .ok committed) ∧
    ∃ after n, (new ((pairRun false).foldl move (.new .empty)).store).register mainQueue =
        (.ok (), after) ∧ after.member? "main" = some n ∧ ¬ n.pipeline.HasCycle ∧
      ∃ committed, after.commit (adding "main" (Operation.new (.ofNat 3))) ⟨0, 0⟩ =
        .ok committed := by
  obtain ⟨m, hm, -, halgorithm⟩ := member_pairRun false
  have hmain : ((pairRun false).foldl move (.new .empty)).member? mainQueue.name = some m := hm
  have hindependent : (Operation.new (.ofNat 3)).dependencies = .empty := rfl
  obtain ⟨⟨-, hlive⟩, after, n, hregister, hn, hcycle, haccepts, -⟩ :=
    (reachable_pairRun false).commit_adding_restarted hmain halgorithm.symm hindependent
      (notQueued_pairRun false) ⟨0, 0⟩
  have hnone : ¬ m.RevivesCycle ((pairRun false).foldl move (.new .empty)).store := by
    have hall : ∀ e ∈ ((pairRun false).foldl move (.new .empty)).members.entries,
        ∀ row ∈ ((pairRun false).foldl move (.new .empty)).store.rows,
          ∀ dep ∈ row.operation.dependencies.toList,
            e.2.pipeline.WaitsFor row.operation.id dep := by
      decide +kernel
    rintro ⟨id, dep, ⟨-, row, hrow, -, rfl, hdep⟩, hdropped, -⟩
    exact hdropped (hall _ (OrderedMap.get?_eq_some_iff.1 hm) row hrow dep hdep)
  exact ⟨hlive, after, n, hregister, hn, fun hhas => hnone (hcycle.1 hhas), haccepts.2 hnone⟩

/-- If each waits for the other, both commits are accepted, and so is a third operation that
waits for nobody; but the restarted queue waits in a circle and refuses it. -/
theorem not_commit_adding_restarted :
    Reachable (Serves fun _ => 1) ((pairRun true).foldl move (.new .empty)) ∧
      ((pairRun true).foldl move (.new .empty)).store.lastSnapshot = 2 ∧
      (∃ committed, ((pairRun true).foldl move (.new .empty)).commit
        (adding "main" (Operation.new (.ofNat 3))) ⟨0, 0⟩ = .ok committed) ∧
      ∃ after n, (new ((pairRun true).foldl move (.new .empty)).store).register mainQueue =
          (.ok (), after) ∧ after.member? "main" = some n ∧ n.pipeline.HasCycle ∧
        ∃ snapshot id, after.commit (adding "main" (Operation.new (.ofNat 3))) ⟨0, 0⟩ =
          .error (.cycle snapshot id) := by
  obtain ⟨m, hm, hrowid, halgorithm⟩ := member_pairRun true
  have hmain : ((pairRun true).foldl move (.new .empty)).member? mainQueue.name = some m := hm
  have hindependent : (Operation.new (.ofNat 3)).dependencies = .empty := rfl
  obtain ⟨after, n, hregister, hn, hcycle, -, hrefuses⟩ := commit_adding_after_restart
    (reachable_pairRun true) hmain halgorithm.symm hindependent (notQueued_pairRun true) ⟨0, 0⟩
  have hrevives : m.RevivesCycle ((pairRun true).foldl move (.new .empty)).store := by
    refine ⟨.ofNat 1, .ofNat 2, ?_, ?_, .single ?_⟩
    · rw [hrowid]
      decide +kernel
    · have hall : ∀ e ∈ ((pairRun true).foldl move (.new .empty)).members.entries,
          ¬ e.2.pipeline.WaitsFor (.ofNat 1) (.ofNat 2) := by
        decide +kernel
      exact hall _ (OrderedMap.get?_eq_some_iff.1 hm)
    · rw [hrowid]
      decide +kernel
  exact ⟨reachable_pairRun true, by decide +kernel,
    commit_adding_live (reachable_pairRun true) hm hindependent (notQueued_pairRun true) ⟨0, 0⟩,
    after, n, hregister, hn, hcycle.2 hrevives, hrefuses (hcycle.2 hrevives)⟩

end Registry

end OperationQueue
