/-
# Runs of a registry

A registry over a store in memory starts without pipelines and goes on by registrations,
commits, holds and requests; now and then it is given up, and another one takes over the
store. Identities have owners: the row of the one pipeline under which an operation is ever
staged. Every move keeps the queues in step with the store, hence what a restart would read
back is, at any time, what the pipelines have queued.
-/
import OperationQueue.Proofs.Registry.Applying
import OperationQueue.Proofs.Registry.Committing
import OperationQueue.Proofs.Registry.Registering
import OperationQueue.Proofs.Store.Naming

namespace OperationQueue

/-- A member runs under its name and has the row of that name and of its algorithm, and its
queue is in step with the store. -/
structure Member.IsInStep (s : MemoryStore) (name : String) (m : Member) : Prop where
  name_eq : m.pipeline.name = name
  row : s.IsRow m.rowid name m.pipeline.algorithm
  queue : InStep s m.rowid m.pipeline

/-- A store that has the same rows of operations will do as well. -/
theorem Member.IsInStep.withStore {s t : MemoryStore} {name : String} {m : Member}
    (h : m.IsInStep s name) (hsame : MemoryStore.SameRows s t)
    (hrow : t.IsRow m.rowid name m.pipeline.algorithm) :
    m.IsInStep t name where
  name_eq := h.name_eq
  row := hrow
  queue := h.queue.withRows hsame

/-- What a commit does to a member: its part is written and applied, or nothing is written
for it. -/
inductive Member.Commits (owner : Identity → Int) (changes : List PipelineChangeset)
    (numbers : OrderedMap Identity Int) (now : Instant) (m : Member) : Member → Prop
  | applied (c : Commit) (written : ⟨m.rowid, c.changeset⟩ ∈ changes) (built : c.Built)
      (fresh : m.pipeline.IsFresh c) (owned : ∀ id ∈ c.mentions, owner id = m.rowid)
      (checked : m.pipeline.checkCommit c = .ok ()) :
      Commits owner changes numbers now m (m.applied now numbers c)
  | kept (other : ∀ change ∈ changes, m.rowid ≠ change.rowid) :
      Commits owner changes numbers now m m

theorem Member.Commits.rowid_eq {owner : Identity → Int} {changes : List PipelineChangeset}
    {numbers : OrderedMap Identity Int} {now : Instant} {m n : Member}
    (h : Member.Commits owner changes numbers now m n) : n.rowid = m.rowid := by
  cases h <;> rfl

namespace Registry

/-- What may happen to a registry. -/
inductive Move
  | register (c : Candidate)
  | restart
  | commit (tx : Transaction) (now : Instant)
  | setHold (name : String) (id : Identity) (context : String) (date : Option Instant)
      (now : Instant)
  | control (name : String) (action : Pipeline.Action)

/-- The registry after a move. One that fails leaves it as it was, except that a candidate
may be refused only after it got its row. -/
def move (r : Registry MemoryStore) : Move → Registry MemoryStore
  | .register c => (r.register c).2
  | .restart => new r.store
  | .commit tx now =>
    match r.commit tx now with
    | .ok committed => committed.registry
    | .error _ => r
  | .setHold name id context date now =>
    match r.setHold name id context date now with
    | .ok (_, after) => after
    | .error _ => r
  | .control name action =>
    match r.members.get? name with
    | some m => r.setPipeline name (m.pipeline.perform action)
    | none => r

/-- What a transaction may hold: the new operations of a commit are new to the queue of its
pipeline, and whatever the commit mentions belongs to this pipeline. -/
def Admits (owner : Identity → Int) (r : Registry MemoryStore) (tx : Transaction) : Prop :=
  ∀ e ∈ tx.commits.entries, ∀ m ∈ r.members.get? e.1,
    m.pipeline.IsFresh e.2 ∧ ∀ id ∈ e.2.mentions, owner id = m.rowid

instance (owner : Identity → Int) (r : Registry MemoryStore) (tx : Transaction) :
    Decidable (r.Admits owner tx) :=
  inferInstanceAs (Decidable (∀ e ∈ tx.commits.entries, ∀ m ∈ r.members.get? e.1,
    m.pipeline.IsFresh e.2 ∧ ∀ id ∈ e.2.mentions, owner id = m.rowid))

/-- What is asked of a move. -/
def Allows (owner : Identity → Int) (r : Registry MemoryStore) : Move → Prop
  | .commit tx _ => tx.Staged ∧ r.Admits owner tx
  | .control _ action => action.IsControl
  | _ => True

/-- A registry that some run leads to, by moves that are allowed where they are made. -/
inductive Reachable (allowed : Registry MemoryStore → Move → Prop) : Registry MemoryStore → Prop
  | new : Reachable allowed (.new .empty)
  | step {r : Registry MemoryStore} {m : Move} (reached : Reachable allowed r)
      (ok : allowed r m) : Reachable allowed (r.move m)

variable {owner : Identity → Int} {r : Registry MemoryStore} {s t : MemoryStore} {name : String}
  {m : Member}

/-- A store that is sound and names every row differently, and members that are in step
with it. -/
structure IsInStep (owner : Identity → Int) (r : Registry MemoryStore) : Prop where
  sound : r.store.IsSound owner
  names : r.store.HasDistinctNames
  member : ∀ {name m}, r.members.get? name = some m → m.IsInStep r.store name

theorem IsInStep.isNamed (h : IsInStep owner r) : r.IsNamed := fun hm => (h.member hm).name_eq

/-- Members of different names have different rows. -/
theorem IsInStep.rowid_ne (h : IsInStep owner r) {other : String} {n : Member}
    (hm : r.members.get? name = some m) (hn : r.members.get? other = some n) (hne : name ≠ other) :
    m.rowid ≠ n.rowid := by
  intro heq
  have hrow := (h.member hm).row
  rw [heq] at hrow
  exact hne (hrow.unique (h.member hn).row).1

/-! ## Registering and restarting -/

theorem isInStep_new (hs : s.IsSound owner) (hnames : s.HasDistinctNames) :
    IsInStep owner (new s) := by
  refine ⟨hs, hnames, fun hm => ?_⟩
  simp [new] at hm

/-- Storing the algorithm of a candidate changes its row at most. -/
theorem of_migrated_eq_ok {c : Candidate} {record : PipelineRecord}
    (h : migrated s c record = .ok t) :
    MemoryStore.SameRows s t ∧ (s.HasDistinctNames → t.HasDistinctNames) ∧
      (s.IsRow record.rowid c.name (record.storedAlgorithm.getD c.algorithm) →
        t.IsRow record.rowid c.name c.algorithm) ∧
      ∀ {rowid name stored}, s.IsRow rowid name stored → rowid ≠ record.rowid →
        t.IsRow rowid name stored := by
  rw [migrated] at h
  split at h
  · obtain ⟨hsame, hnames, hrows⟩ := MemoryStore.isRow_setAlgorithm h
    refine ⟨hsame, hnames, fun hrow => ?_, fun hrow hne => ?_⟩
    · simpa using hrows hrow
    · simpa [hne] using hrows hrow
  · next hsame =>
    cases h
    refine ⟨.refl s, id, fun hrow => ?_, fun hrow _ => hrow⟩
    cases hstored : record.storedAlgorithm with
    | none => simpa [hstored] using hrow
    | some stored =>
        have heq : stored = c.algorithm := by simpa [hstored] using hsame
        simpa [hstored, heq] using hrow

theorem IsInStep.register (h : IsInStep owner r) (c : Candidate) :
    IsInStep owner (r.register c).2 := by
  rcases register_cases r c with ⟨e, heq⟩ | ⟨record, s, henters, hregister⟩
  · rw [heq]
    exact h
  · have hregistered : r.store.register c.name c.previousNames c.algorithm = (record, s) :=
      Except.ok.inj henters.registered
    obtain ⟨hsame, hnames, hrow, hrows⟩ :=
      MemoryStore.isRow_register h.names c.name c.previousNames c.algorithm hregistered
    have hs : s.IsSound owner := hsame.isSound h.sound
    have hmembers : ∀ {name m}, r.members.get? name = some m → m.IsInStep s name := by
      intro name m hm
      obtain ⟨hname, hprevious⟩ := henters.ne_of_member hm
      exact (h.member hm).withStore hsame (hrows (h.member hm).row hname hprevious)
    rcases hregister with ⟨e, heq⟩ | ⟨m, t, hrestored, hmigrated, heq⟩
    · rw [heq]
      exact ⟨hs, hnames, hmembers⟩
    · rw [heq]
      obtain ⟨hsame', hnames', hown, hothers⟩ := of_migrated_eq_ok hmigrated
      obtain ⟨hrowid, -, records, hload, hpipeline⟩ := of_restored_eq_ok hrestored
      have hrecords : s.load record.rowid = records := Except.ok.inj hload
      have hsetup : Pipeline.SameSetup c.pipeline m.pipeline := by
        rw [hpipeline]
        exact Pipeline.sameSetup_restore c.pipeline records
      have hqueue : InStep s m.rowid m.pipeline := by
        rw [hrowid, hpipeline, ← hrecords]
        exact .restore hs record.rowid c.pipeline
      refine ⟨hsame'.isSound hs, hnames' hnames, fun {name n} hn => ?_⟩
      by_cases hname : name = c.name
      · rw [hname, OrderedMap.get?_insert_self] at hn
        cases hn
        rw [hname]
        refine ⟨hsetup.name, ?_, hqueue.withRows hsame'⟩
        rw [hrowid, hsetup.algorithm]
        exact hown hrow
      · rw [OrderedMap.get?_insert_of_ne _ hname] at hn
        have hne : n.rowid ≠ record.rowid := by
          intro heq
          have hmemberRow := (hmembers hn).row
          rw [heq] at hmemberRow
          exact hname (hmemberRow.unique hrow).1
        exact (hmembers hn).withStore hsame' (hothers (hmembers hn).row hne)

/-! ## Committing -/

/-- What an allowed commit does: changes of members are written, each member at most once
and with operations of its own, and every member takes its part. -/
structure Commits (owner : Identity → Int) (r : Registry MemoryStore) (now : Instant)
    (after : Registry MemoryStore) (snapshot : Snapshot) (changes : List PipelineChangeset)
    (numbers : OrderedMap Identity Int) : Prop where
  written : r.store.applyChangesets snapshot changes = .ok (numbers, after.store)
  sound : MemoryStore.AreSound owner changes
  distinct : (changes.map (·.rowid)).Nodup
  target : ∀ change ∈ changes, ∃ name m, r.members.get? name = some m ∧ m.rowid = change.rowid
  members : ∀ name, Option.Rel (Member.Commits owner changes numbers now)
    (r.members.get? name) (after.members.get? name)

/-- What an allowed commit brings for a target: its commit was built by staging, is fresh
for the queue, and mentions operations of this pipeline only. -/
private theorem of_mem_targets (h : IsInStep owner r) {tx : Transaction} {now : Instant}
    (hallowed : r.Allows owner (.commit tx now)) {snapshot : Snapshot}
    {commits : OrderedMap String Commit} {targets : List (Member × Commit)}
    {numbers : OrderedMap Identity Int} {store : MemoryStore}
    (hcarries : r.Carries tx snapshot commits targets numbers store) :
    ∀ target ∈ targets, r.members.get? target.1.pipeline.name = some target.1 ∧
      target.2.Built ∧ target.1.pipeline.IsFresh target.2 ∧
        ∀ id ∈ target.2.mentions, owner id = target.1.rowid := by
  rintro ⟨m, c⟩ htarget
  obtain ⟨hstaged, hadmitted⟩ := hallowed
  have hmember := (hcarries.of_isNamed h.isNamed).2 _ htarget
  obtain ⟨staged, ⟨hget, -⟩, heq⟩ := hcarries.exists_stages h.isNamed _ htarget
  obtain ⟨hfresh, howner⟩ := hadmitted _ (OrderedMap.get?_eq_some_iff.1 hget) m hmember
  dsimp only at heq hmember ⊢
  subst heq
  refine ⟨hmember, (hstaged.built hget).stamp snapshot,
    hfresh.of_ids_eq (staged.map_id_newOperations_stamp snapshot), ?_⟩
  rw [Commit.mentions_stamp]
  exact howner

theorem commits_of_commit_eq_ok (h : IsInStep owner r) {tx : Transaction} {now : Instant}
    (hallowed : r.Allows owner (.commit tx now)) {committed : Committed MemoryStore}
    (hcommit : r.commit tx now = .ok committed) :
    committed.registry = r ∨
      ∃ snapshot changes numbers, Commits owner r now committed.registry snapshot changes numbers := by
  rcases commit_cases hcommit with heq | ⟨snapshot, commits, targets, numbers, t, hcarries, heq⟩
  · exact .inl heq
  · have hmem := of_mem_targets h hallowed hcarries
    obtain ⟨hnames, hmembers⟩ := hcarries.of_isNamed h.isNamed
    have hsettled : ∀ target ∈ targets, target.1.pipeline.IsSettled := fun target htarget =>
      (h.member (hmem target htarget).1).queue.settled
    obtain ⟨hchanged, hkept⟩ :=
      get?_applyAll (r := { r with store := t }) hnames hmembers hsettled
    refine .inr ⟨snapshot, targets.map fun target => ⟨target.1.rowid, target.2.changeset⟩,
      numbers, ?_, ?_, ?_, ?_, fun name => ?_⟩
    · rw [heq, store_applyAll]
      exact hcarries.written
    · intro change hchange
      obtain ⟨target, htarget, rfl⟩ := List.mem_map.1 hchange
      obtain ⟨-, hbuilt, -, howner⟩ := hmem target htarget
      exact Commit.isSound_changeset hbuilt.isConsistent howner
    · rw [List.map_map, List.nodup_iff_pairwise_ne, List.pairwise_map]
      apply (List.pairwise_map.1 hnames).imp_of_mem
      intro one other hone hother hne
      exact h.rowid_ne (hmem one hone).1 (hmem other hother).1 hne
    · intro change hchange
      obtain ⟨target, htarget, rfl⟩ := List.mem_map.1 hchange
      exact ⟨_, _, (hmem target htarget).1, rfl⟩
    · rw [heq]
      by_cases htarget : name ∈ targets.map (·.1.pipeline.name)
      · obtain ⟨target, hmemTarget, rfl⟩ := List.mem_map.1 htarget
        obtain ⟨hm, hbuilt, hfresh, howner⟩ := hmem target hmemTarget
        rw [hchanged target hmemTarget, hm]
        exact .some (.applied target.2 (List.mem_map_of_mem hmemTarget) hbuilt hfresh howner
          (hcarries.checked target hmemTarget))
      · rw [hkept name htarget]
        cases hm : r.members.get? name with
        | none => exact .none
        | some m =>
            refine .some (.kept fun change hchange => ?_)
            obtain ⟨target, hmemTarget, rfl⟩ := List.mem_map.1 hchange
            apply h.rowid_ne hm (hmem target hmemTarget).1
            rintro rfl
            exact htarget (List.mem_map_of_mem hmemTarget)

theorem IsInStep.commits (h : IsInStep owner r) {now : Instant} {after : Registry MemoryStore}
    {snapshot : Snapshot} {changes : List PipelineChangeset} {numbers : OrderedMap Identity Int}
    (hcommits : Commits owner r now after snapshot changes numbers) : IsInStep owner after := by
  have hpipelines := MemoryStore.pipelines_applyChangesets hcommits.written
  refine ⟨h.sound.applyChangesets hcommits.sound hcommits.written, ?_, fun {name n} hn => ?_⟩
  · rw [MemoryStore.HasDistinctNames, hpipelines]
    exact h.names
  · have hrel := hcommits.members name
    rw [hn] at hrel
    generalize hm : r.members.get? name = found at hrel
    cases hrel with
    | @some m _ htakes =>
        have hmember := h.member hm
        cases htakes with
        | applied c written built fresh owned checked =>
            have hsetup : Pipeline.SameSetup m.pipeline (m.applied now numbers c).pipeline :=
              Pipeline.sameSetup_applyCommit hmember.queue.settled _ now
            refine ⟨hsetup.name.trans hmember.name_eq, ?_, ?_⟩
            · rw [hsetup.algorithm]
              exact hmember.row.of_pipelines_eq hpipelines
            · exact hmember.queue.applyCommit h.sound built.isConsistent fresh owned
                hcommits.sound hcommits.distinct written hcommits.written now
        | kept other =>
            have hsame := MemoryStore.sameFor_applyChangesets h.sound hcommits.sound other
              hcommits.written
            refine ⟨hmember.name_eq, hmember.row.of_pipelines_eq hpipelines,
              hmember.queue.of_store_eq hsame.operationsAt fun id hid => ?_⟩
            obtain ⟨row, hmemRow, hpipeline, rfl⟩ := hmember.queue.mem_ids_iff.1 hid
            exact hsame.holds _ ((h.sound.owned row hmemRow).trans hpipeline)

/-! ## Holding and controlling -/

/-- A member that is replaced, together with what is stored for it, stays in step if
everything else does. -/
theorem IsInStep.setPipeline (h : IsInStep owner r) (hm : r.members.get? name = some m)
    {q : Pipeline} (hq : InStep t m.rowid q) (hsetup : Pipeline.SameSetup m.pipeline q)
    (ht : t.IsSound owner) (hpipelines : t.pipelines = r.store.pipelines)
    (hothers : ∀ {other n}, r.members.get? other = some n → other ≠ name →
      InStep t n.rowid n.pipeline) :
    IsInStep owner (({ r with store := t } : Registry MemoryStore).setPipeline name q) := by
  refine ⟨?_, ?_, fun {other n} hn => ?_⟩
  · rw [store_setPipeline]
    exact ht
  · rw [store_setPipeline, MemoryStore.HasDistinctNames, hpipelines]
    exact h.names
  · rw [get?_setPipeline] at hn
    rw [store_setPipeline]
    by_cases hother : other = name
    · subst hother
      rw [if_pos rfl] at hn
      have hmember : ({ r with store := t } : Registry MemoryStore).members.get? other = some m := hm
      rw [hmember] at hn
      cases hn
      refine ⟨hsetup.name.trans (h.member hm).name_eq, ?_, hq⟩
      rw [hsetup.algorithm]
      exact (h.member hm).row.of_pipelines_eq hpipelines
    · rw [if_neg hother] at hn
      exact ⟨(h.member hn).name_eq, (h.member hn).row.of_pipelines_eq hpipelines,
        hothers hn hother⟩

theorem IsInStep.setHold (h : IsInStep owner r) {id : Identity} {context : String}
    {date : Option Instant} {now : Instant} {step : Step} {after : Registry MemoryStore}
    (hset : r.setHold name id context date now = .ok (step, after)) : IsInStep owner after := by
  rcases setHold_cases hset with heq | ⟨m, _, hm, hid, hsaved, heq⟩
  · rw [heq]
    exact h
  · cases hsaved
    rw [heq]
    have hqueue := (h.member hm).queue
    obtain ⟨row, hrow, hpipeline, hrowId⟩ := hqueue.mem_ids_iff.1 hid
    have hsetup : Pipeline.SameSetup m.pipeline (m.pipeline.setHold id context date now).2 :=
      Pipeline.sameSetup_perform hqueue.settled (.setHold id context date now)
    have hstored : id ∈ r.store.rows.map (·.operation.id) := List.mem_map.2 ⟨row, hrow, hrowId⟩
    refine h.setPipeline hm (hqueue.setHold id context date now) hsetup
      (h.sound.replaceHolds hstored _) rfl ?_
    intro other n hn hother
    refine (h.member hn).queue.of_store_eq (fun snapshot => rfl) fun id' hid' => ?_
    obtain ⟨row', hrow', hpipeline', hrowId'⟩ := (h.member hn).queue.mem_ids_iff.1 hid'
    apply HoldTable.ofOperation_replace_of_ne
    rintro rfl
    apply h.rowid_ne hn hm hother
    rw [← hpipeline, ← hpipeline', ← h.sound.owned row hrow, ← h.sound.owned row' hrow',
      hrowId, hrowId']

theorem IsInStep.control (h : IsInStep owner r) (hm : r.members.get? name = some m)
    {action : Pipeline.Action} (haction : action.IsControl) :
    IsInStep owner (r.setPipeline name (m.pipeline.perform action)) := by
  have hqueue := (h.member hm).queue
  have hnodup := hqueue.settled.nodup_ids
  have hperformed : InStep r.store m.rowid (m.pipeline.perform action) :=
    hqueue.sameQueue (Pipeline.sameQueue_perform hnodup haction.keepsQueue)
      (hqueue.settled.perform action) (Pipeline.holds_perform hnodup haction)
  exact h.setPipeline hm hperformed (Pipeline.sameSetup_perform hqueue.settled action)
    h.sound rfl fun hn _ => (h.member hn).queue

/-! ## All runs -/

theorem IsInStep.move (h : IsInStep owner r) {move : Move} (hallowed : r.Allows owner move) :
    IsInStep owner (r.move move) := by
  cases move with
  | register c => exact h.register c
  | restart => exact isInStep_new h.sound h.names
  | commit tx now =>
      rw [Registry.move]
      split
      · next committed hcommit =>
        rcases commits_of_commit_eq_ok h hallowed hcommit with heq | ⟨_, _, _, hcommits⟩
        · rw [heq]
          exact h
        · exact h.commits hcommits
      · exact h
  | setHold name id context date now =>
      rw [Registry.move]
      split
      · next after hset => exact h.setHold hset
      · exact h
  | control name action =>
      rw [Registry.move]
      split
      · next m hm => exact h.control hm hallowed
      · exact h

theorem Reachable.isInStep (h : Reachable (Allows owner) r) : IsInStep owner r := by
  induction h with
  | new => exact isInStep_new (MemoryStore.isSound_empty owner) List.nodup_nil
  | step _ ok ih => exact ih.move ok

/-- At any time, what is stored for a member and what it has queued agree one by one, in
order, and nothing stored is finished. -/
theorem Reachable.load_agrees_stored (h : Reachable (Allows owner) r)
    (hm : r.member? name = some m) :
    (∃ records, Store.load r.store m.rowid = .ok records ∧
      List.Forall₂ StoredOperation.Agrees records m.pipeline.stored) ∧
    ∀ row ∈ r.store.rows, row.operation.isTerminal = false :=
  ⟨⟨_, rfl, (h.isInStep.member hm).queue.forall₂_load⟩, h.isInStep.sound.unfinished⟩

/-- A pipeline that asks to be registered. -/
def mainQueue : Candidate := ⟨"main", .flat, 1, .empty, false, .recorder⟩

/-- Moves of a registry with one pipeline: of two operations the first is completed in the
second commit, which modifies the other, stored as active, and puts a third behind it. Then
the registry is given up, and another one takes over. -/
def restartRun : List Move :=
  let first := Operation.new (.ofNat 1)
  let second := (Operation.new (.ofNat 2)).addDependency first.id
  let third := Operation.new (.ofNat 3)
  let tx := ((Transaction.empty.stage "main" (.add first)).stage "main" (.add second)).stage "main"
    (.status second.id .active)
  let tx' := ((Transaction.empty.stage "main" (.status first.id .completed)).stage "main"
    (.modify { second with priority := 7 })).stage "main" (.insert third 1)
  [.register mainQueue, .commit tx ⟨0, 0⟩, .setHold "main" second.id "retry" (some ⟨5, 0⟩) ⟨0, 0⟩,
    .control "main" (.suspend 1), .commit tx' ⟨1, 0⟩, .restart, .register mainQueue]

/-- After the restart two operations are stored, and the queue agrees with them. -/
theorem load_agrees_stored_restartRun :
    ∃ m, (restartRun.foldl move (.new .empty)).member? "main" = some m ∧
      (restartRun.foldl move (.new .empty)).store.rows.length = 2 ∧
      ((∃ records, Store.load (restartRun.foldl move (.new .empty)).store m.rowid = .ok records ∧
        List.Forall₂ StoredOperation.Agrees records m.pipeline.stored) ∧
      ∀ row ∈ (restartRun.foldl move (.new .empty)).store.rows,
        row.operation.isTerminal = false) := by
  have hreachable : Reachable (Allows fun _ => 1) (restartRun.foldl move (.new .empty)) := by
    simp only [restartRun, List.foldl_cons, List.foldl_nil]
    refine Reachable.step (.step (.step (.step (.step (.step (.step .new ?_) ?_) ?_) ?_) ?_) ?_) ?_
    · trivial
    · exact ⟨((Transaction.Staged.empty.stage _ _).stage _ _).stage _ _, by decide +kernel⟩
    · trivial
    · trivial
    · exact ⟨((Transaction.Staged.empty.stage _ _).stage _ _).stage _ _, by decide +kernel⟩
    · trivial
    · trivial
  have hmember : ((restartRun.foldl move (.new .empty)).member? "main").isSome = true := by
    decide +kernel
  obtain ⟨m, hm⟩ := Option.isSome_iff_exists.1 hmember
  exact ⟨m, hm, by decide +kernel, hreachable.load_agrees_stored hm⟩

end Registry

end OperationQueue
