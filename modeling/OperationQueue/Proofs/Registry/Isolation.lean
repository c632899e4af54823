/-
# Queues that share a store

The queues of a registry are kept apart in memory: a commit that is staged for one pipeline
applies to its queue and to no other. In the store they lie side by side. The rows of a pipeline
are known by its number, and no two members have the same, but what a commit modifies, moves or
finishes it finds by the identity of the operation alone. So a commit for one pipeline reaches the
rows of another if it names an operation that is stored there, and it does so without a trace in
the queue of that other pipeline, until that queue is read back.
-/
import Mathlib.Data.List.Basic
import OperationQueue.Proofs.Commit.Changeset
import OperationQueue.Proofs.Registry.Live
import OperationQueue.Proofs.Store.Entries

namespace OperationQueue

namespace Commit

variable {c : Commit}

theorem revisions_stamp (c : Commit) (snapshot : Snapshot) :
    (c.stamp snapshot).revisions = c.revisions := by
  have hnew (id : Identity) : (c.stamp snapshot).isNew id = c.isNew id := by
    have hids := map_id_newOperations_stamp c snapshot
    have hoccurs (ops : List Operation) :
        Operation.occurs id ops = (ops.map (·.id)).contains id := by
      rw [Bool.eq_iff_iff, List.contains_iff_mem, Operation.occurs_iff, List.mem_map]
    rw [isNew, isNew, hoccurs, hoccurs, hids]
  have hwrites : (c.stamp snapshot).writesModification = c.writesModification := by
    funext op
    rw [writesModification, writesModification, hnew]
    rfl
  rw [revisions, revisions, hwrites]
  rfl

/-- Of the writes of a commit, its revisions alone find a row by the identity of the operation. -/
theorem reviseAll_changeset {σ : Type} [Store σ] [RowStore σ] [EntryStore σ] (c : Commit)
    (entry : EntryStore.Entry σ) :
    EntryStore.reviseAll c.changeset entry = EntryStore.reviseAll c.revisions entry := by
  have hinserts : ∀ w ∈ c.newRows.map RowWrite.insert, ∃ op, w = .insert op := by
    intro w hw
    obtain ⟨op, -, rfl⟩ := List.mem_map.1 hw
    exact ⟨op, rfl⟩
  rw [changeset_eq, EntryStore.reviseAll_append, EntryStore.reviseAll_of_inserts hinserts]
  rfl

end Commit

namespace Registry

open EntryStore

variable {σ : Type} [Store σ] [RowStore σ] [EntryStore σ]

/-- A registry that is opened on a numbered store, and all that becomes of it while nobody else
writes to the store. -/
inductive Opened : Registry σ → Prop
  | new {s : σ} (numbered : RowStore.IsNumbered s) : Opened (.new s)
  | register {r : Registry σ} (opened : Opened r) (c : Candidate) : Opened (r.register c).2
  | commit {r : Registry σ} {tx : Transaction} {now : Instant} {committed : Committed σ}
      (opened : Opened r) (ok : r.commit tx now = .ok committed) : Opened committed.registry
  | setHold {r after : Registry σ} {name : String} {id : Identity} {context : String}
      {date : Option Instant} {now : Instant} {step : Step} (opened : Opened r)
      (ok : r.setHold name id context date now = .ok (step, after)) : Opened after
  | control {r : Registry σ} {name : String} {m : Member} (opened : Opened r)
      (member : r.members.get? name = some m) (action : Pipeline.Action) :
      Opened (r.setPipeline name (m.pipeline.perform action))

variable {r : Registry σ} {s t : σ} {name other : String} {m : Member} {now : Instant}
  {tx : Transaction}

omit [EntryStore σ] in
theorem Opened.live (h : Opened r) : Live r := by
  induction h with
  | new numbered => exact .new numbered
  | register _ c ih => exact ih.register c
  | commit _ ok ih => exact ih.commit ok
  | setHold _ ok ih => exact ih.setHold ok
  | control _ member action ih => exact ih.control member action

/-! ## Whose row is whose -/

/-- The row of every member carries its name. -/
def HasNamedRows (r : Registry σ) : Prop :=
  ∀ name m, r.members.get? name = some m → HasName r.store m.rowid name

/-- What a member is replaced by keeps its row, so the rows carry the names as long as the store
keeps them. -/
theorem HasNamedRows.of_rowids (h : r.HasNamedRows) {after : Registry σ}
    (hnames : EntryStore.names after.store = EntryStore.names r.store)
    (hrowids : ∀ name n, after.members.get? name = some n →
      ∃ m, r.members.get? name = some m ∧ n.rowid = m.rowid) : after.HasNamedRows := by
  intro name n hn
  obtain ⟨m, hm, hrowid⟩ := hrowids name n hn
  rw [hrowid]
  exact (h name m hm).of_names_eq hnames

omit [Store σ] [RowStore σ] [EntryStore σ] in
theorem exists_of_get?_setPipeline {p : Pipeline} {n : Member}
    (h : (r.setPipeline name p).members.get? other = some n) :
    ∃ m, r.members.get? other = some m ∧ n.rowid = m.rowid := by
  rw [get?_setPipeline] at h
  split at h
  · next heq =>
    subst heq
    obtain ⟨m, hm, rfl⟩ := Option.map_eq_some_iff.1 h
    exact ⟨m, hm, rfl⟩
  · exact ⟨n, h, rfl⟩

theorem names_of_migrated {c : Candidate} {record : PipelineRecord}
    (h : migrated s c record = .ok t) : EntryStore.names t = EntryStore.names s := by
  rw [migrated] at h
  split at h
  · exact names_setAlgorithm h
  · cases h
    rfl

theorem HasNamedRows.register (h : r.HasNamedRows) (c : Candidate) :
    (r.register c).2.HasNamedRows := by
  rcases register_cases r c with ⟨e, heq⟩ | ⟨record, s, henters, hregister⟩
  · rw [heq]
    exact h
  · obtain ⟨hown, hothers⟩ := hasName_register henters.registered
    have hkept (name : String) (m : Member) (hm : r.members.get? name = some m) :
        HasName s m.rowid name := by
      obtain ⟨hne, hprevious⟩ := henters.ne_of_member hm
      exact hothers (h name m hm) hne hprevious
    rcases hregister with ⟨e, heq⟩ | ⟨m, t, hrestored, hmigrated, heq⟩
    · rw [heq]
      exact hkept
    · have hnames := names_of_migrated hmigrated
      have hrowid : m.rowid = record.rowid := (of_restored_eq_ok hrestored).1
      rw [heq]
      intro name n hn
      by_cases hname : name = c.name
      · subst hname
        rw [OrderedMap.get?_insert_self, Option.some.injEq] at hn
        rw [← hn, hrowid]
        exact hown.of_names_eq hnames
      · rw [OrderedMap.get?_insert_of_ne _ hname] at hn
        exact (hkept name n hn).of_names_eq hnames

theorem HasNamedRows.commit (h : r.HasNamedRows) (hr : r.IsSteady) {committed : Committed σ}
    (hcommit : r.commit tx now = .ok committed) : committed.registry.HasNamedRows := by
  rcases commit_cases hcommit with heq | ⟨snapshot, commits, targets, numbers, t, hcarries, heq⟩
  · rw [heq]
    exact h
  · obtain ⟨hdistinct, hmembers⟩ := hcarries.of_isNamed hr.isNamed
    have hsettled : ∀ target ∈ targets, target.1.pipeline.IsSettled :=
      fun target htarget => hr.settled (hmembers target htarget)
    rw [heq]
    refine h.of_rowids ?_ fun name n hn => ?_
    · rw [store_applyAll]
      exact names_applyChangesets hcarries.written
    · obtain ⟨m, hm, rfl | ⟨c, -, rfl⟩⟩ :=
        exists_of_get?_applyAll (r := { r with store := t }) hdistinct hmembers hsettled hn
      · exact ⟨n, hm, rfl⟩
      · exact ⟨m, hm, rfl⟩

theorem Opened.hasNamedRows (h : Opened r) : r.HasNamedRows := by
  induction h with
  | new _ =>
      intro name m hm
      simp [Registry.new] at hm
  | register _ c ih => exact ih.register c
  | commit opened ok ih => exact ih.commit opened.live.isSteady ok
  | setHold _ ok ih =>
      rcases setHold_cases ok with rfl | ⟨m, s, hm, -, hsaved, rfl⟩
      · exact ih
      · refine ih.of_rowids ?_ fun _ _ => exists_of_get?_setPipeline
        rw [store_setPipeline]
        exact names_saveHolds hsaved
  | control _ _ _ ih =>
      refine ih.of_rowids ?_ fun _ _ => exists_of_get?_setPipeline
      rw [store_setPipeline]

/-- Members of different names have different rows. -/
theorem HasNamedRows.rowid_ne (h : r.HasNamedRows) {n : Member}
    (hm : r.members.get? name = some m) (hn : r.members.get? other = some n)
    (hne : other ≠ name) : n.rowid ≠ m.rowid := by
  intro heq
  have hrow := h other n hn
  rw [heq] at hrow
  exact hne (hrow.unique (h name m hm))

/-! ## A commit for one pipeline -/

/-- The registry after a commit. One that fails leaves it as it was. -/
def afterCommit (r : Registry σ) (tx : Transaction) (now : Instant) : Registry σ :=
  match r.commit tx now with
  | .ok committed => committed.registry
  | .error _ => r

theorem exists_stages (h : tx.isEmpty = false) : ∃ name c, tx.Stages name c := by
  rw [Transaction.isEmpty, List.all_eq_false] at h
  obtain ⟨c, hc, hchanges⟩ := h
  obtain ⟨name, hget⟩ := OrderedMap.mem_values_iff.1 hc
  exact ⟨name, c, hget, Bool.eq_false_iff.2 hchanges⟩

omit [EntryStore σ] in
/-- A transaction with changes of one pipeline has that pipeline for its only target. -/
theorem exists_targets_eq (hr : r.IsSteady) {snapshot : Snapshot}
    {commits : OrderedMap String Commit} {targets : List (Member × Commit)}
    {numbers : OrderedMap Identity Int} (hchanges : tx.isEmpty = false)
    (htx : ∀ staged c, tx.Stages staged c → staged = other)
    (hcarries : r.Carries tx snapshot commits targets numbers t) :
    ∃ m, r.members.get? other = some m ∧ targets = [(m, (tx.commit other).stamp snapshot)] := by
  obtain ⟨hdistinct, hmembers⟩ := hcarries.of_isNamed hr.isNamed
  have htarget : ∀ target ∈ targets, target.1.pipeline.name = other ∧
      target.2 = (tx.commit other).stamp snapshot := by
    intro target htarget
    obtain ⟨staged, hstaged, heq⟩ := hcarries.exists_stages hr.isNamed target htarget
    have hname := htx _ _ hstaged
    have hcommit : tx.commit other = staged := by
      rw [Transaction.commit, ← hname, hstaged.1, Option.getD_some]
    exact ⟨hname, by rw [heq, hcommit]⟩
  cases targets with
  | nil =>
      obtain ⟨name, c, hstaged⟩ := exists_stages hchanges
      obtain ⟨target, htarget, -⟩ := hcarries.exists_target hr.isNamed hstaged
      cases htarget
  | cons target rest =>
      obtain ⟨hname, hcommit⟩ := htarget target List.mem_cons_self
      have hrest : rest = [] := by
        refine List.eq_nil_iff_forall_not_mem.2 fun later hlater => ?_
        have hlaterName := (htarget later (List.mem_cons_of_mem _ hlater)).1
        rw [List.map_cons, List.nodup_cons] at hdistinct
        exact hdistinct.1 (List.mem_map.2 ⟨later, hlater, hlaterName.trans hname.symm⟩)
      refine ⟨target.1, hname ▸ hmembers target List.mem_cons_self, ?_⟩
      rw [hrest, ← hcommit]

theorem revisions_of_isEmpty (h : tx.isEmpty = true) (name : String) :
    (tx.commit name).revisions = [] := by
  have hempty : (tx.commit name).isEmpty = true := by
    rw [Transaction.commit]
    cases hget : tx.commits.get? name with
    | none => rfl
    | some c => exact List.all_eq_true.1 h c (OrderedMap.mem_values_iff.2 ⟨name, hget⟩)
  simp only [Commit.isEmpty, Bool.and_eq_true, List.isEmpty_iff] at hempty
  have hstatuses : (tx.commit name).statuses.entries = [] := List.isEmpty_iff.1 hempty.2
  rw [Commit.revisions, hempty.1.2, hstatuses]
  rfl

/-- A commit with changes of one pipeline leaves every other member as it was, and makes of the
entries of that member what its revisions make of them. -/
theorem entries_commit (h : Opened r) (hm : r.members.get? name = some m) (hne : other ≠ name)
    (htx : ∀ staged c, tx.Stages staged c → staged = other) {committed : Committed σ}
    (hcommit : r.commit tx now = .ok committed) :
    committed.registry.members.get? name = some m ∧
      entries committed.registry.store m.rowid =
        (entries r.store m.rowid).filterMap (reviseAll (tx.commit other).revisions) := by
  have hsteady := h.live.isSteady
  rcases of_commit_eq_ok hcommit with
    ⟨hempty, -, -, hsame⟩ | ⟨hchanges, -, commits, targets, numbers, t, hcarries, happlied⟩
  · rw [hsame, revisions_of_isEmpty hempty]
    exact ⟨hm, List.filterMap_some.symm⟩
  · have hout : r.CarriesOut tx now committed.snapshot _ _ targets numbers :=
      hsteady.carriesOut hcarries
    have hnone : ∀ c, ¬ tx.Stages name c := fun c hstaged => hne (htx name c hstaged).symm
    have hstore := congrArg (fun answer => answer.2.store) happlied
    rw [store_applyAll] at hstore
    rw [happlied] at hout
    obtain ⟨n, hn, htargets⟩ := exists_targets_eq hsteady hchanges htx hcarries
    have hwritten := hcarries.written
    have hrowid : n.rowid ≠ m.rowid := h.hasNamedRows.rowid_ne hm hn hne
    refine ⟨(hout.kept hnone).trans hm, ?_⟩
    rw [htargets] at hwritten
    rw [← hstore, entries_applyChangesets hwritten (by simpa using hrowid)]
    apply List.filterMap_congr
    intro entry _
    rw [List.map_singleton, List.flatMap_singleton, Commit.reviseAll_changeset,
      Commit.revisions_stamp]

/-- The queues of a registry are isolated from each other, and their rows are as far as identities
are. A commit with changes of one pipeline leaves the queue of every other member as it was,
whatever it answers. What is stored of that member stays as it was if the commit fails, and
otherwise exactly if the modifications and statuses staged for the one pipeline leave every
operation stored for the other as it is; that they do if they name none of them. Then a restart
reads back what it would have read before. -/
theorem Opened.commit_elsewhere (h : Opened r) (hm : r.members.get? name = some m)
    (hne : other ≠ name) (htx : ∀ staged c, tx.Stages staged c → staged = other) (now : Instant) :
    (r.afterCommit tx now).members.get? name = some m ∧
      (entries (r.afterCommit tx now).store m.rowid = entries r.store m.rowid ↔
        (∃ e, r.commit tx now = .error e) ∨ ∀ entry ∈ entries r.store m.rowid,
          reviseAll (tx.commit other).revisions entry = some entry) ∧
      ((∀ entry ∈ entries r.store m.rowid, ∀ w ∈ (tx.commit other).revisions,
          isOf w.id entry = false) →
        entries (r.afterCommit tx now).store m.rowid = entries r.store m.rowid) ∧
      (entries (r.afterCommit tx now).store m.rowid = entries r.store m.rowid →
        Store.load (r.afterCommit tx now).store m.rowid = Store.load r.store m.rowid) := by
  rw [afterCommit]
  cases hcommit : r.commit tx now with
  | error e => exact ⟨hm, iff_of_true rfl (.inl ⟨e, rfl⟩), fun _ => rfl, load_congr⟩
  | ok committed =>
      obtain ⟨hmember, hentries⟩ := entries_commit h hm hne htx hcommit
      have hunchanged := List.filterMap_eq_map_iff_forall_eq_some
        (f := reviseAll (tx.commit other).revisions) (g := id) (l := entries r.store m.rowid)
      rw [List.map_id, ← hentries] at hunchanged
      refine ⟨hmember, ⟨fun hsame => .inr (hunchanged.1 hsame), ?_⟩, fun hunnamed => ?_, load_congr⟩
      · rintro (⟨e, he⟩ | hkept)
        · cases he
        · exact hunchanged.2 hkept
      · exact hunchanged.2 fun entry hentry => reviseAll_of_not_isOf (hunnamed entry hentry)

omit [EntryStore σ] in
theorem Opened.afterCommit (h : Opened r) (tx : Transaction) (now : Instant) :
    Opened (r.afterCommit tx now) := by
  rw [Registry.afterCommit]
  cases hcommit : r.commit tx now with
  | error e => exact h
  | ok committed => exact h.commit hcommit

/-- Two pipelines on one store, each with an operation. -/
def neighbours (s : σ) : Registry σ :=
  let candidate (name : String) : Candidate := ⟨name, .flat, 1, .empty, false, .recorder⟩
  let opened := (((new s).register (candidate "left")).2.register (candidate "right")).2
  let filling := (Transaction.empty.stage "right" (.add (.new (.ofNat 1)))).stage "left"
    (.add (.new (.ofNat 2)))
  opened.afterCommit filling ⟨0, 0⟩

omit [EntryStore σ] in
theorem opened_neighbours (hs : RowStore.IsNumbered s) : Opened (neighbours s) :=
  Opened.afterCommit (.register (.register (.new hs) _) _) _ _

/-- What is staged for one pipeline is staged for no other. -/
theorem eq_of_stages_stage {item : Staging Operation} {staged : String} {c : Commit}
    (h : (Transaction.empty.stage other item).Stages staged c) : staged = other := by
  by_contra hne
  have hget := h.1
  rw [Transaction.stage, OrderedMap.get?_insert_of_ne _ hne] at hget
  cases hget

/-- A pipeline gives its own operation another priority. -/
def reprioritised : Transaction :=
  Transaction.empty.stage "left" (.modify { Operation.new (.ofNat 2) with priority := 3 })

/-- In tables, a pipeline that modifies its own operation leaves its neighbour alone. -/
theorem commit_elsewhere_neighbours :
    ∃ m, (neighbours TableStore.empty).members.get? "right" = some m ∧
      m.pipeline.ids = [.ofNat 1] ∧
      ((neighbours TableStore.empty).afterCommit reprioritised ⟨0, 0⟩).members.get? "right" =
        some m ∧
      Store.load ((neighbours TableStore.empty).afterCommit reprioritised ⟨0, 0⟩).store m.rowid =
        Store.load (neighbours TableStore.empty).store m.rowid := by
  have hnumbered : RowStore.IsNumbered TableStore.empty := fun n hn => nomatch hn
  have hright : ((neighbours TableStore.empty).members.get? "right").map (fun m =>
      (m.rowid, m.pipeline.ids)) = some (2, [.ofNat 1]) := by decide +kernel
  obtain ⟨m, hm, heq⟩ := Option.map_eq_some_iff.1 hright
  obtain ⟨hrowid, hids⟩ := Prod.mk.inj heq
  have hunnamed : ∀ entry ∈ entries (neighbours TableStore.empty).store 2,
      ∀ w ∈ (reprioritised.commit "left").revisions, isOf w.id entry = false := by
    have hrows : ∀ entry ∈ TableStore.entries (neighbours TableStore.empty).store 2,
        ∀ w ∈ (reprioritised.commit "left").revisions, TableStore.isOf w.id entry = false := by
      decide +kernel
    exact hrows
  have hleft : ∀ staged c, reprioritised.Stages staged c → staged = "left" :=
    fun _ _ => eq_of_stages_stage
  obtain ⟨hmember, -, hkept, hload⟩ :=
    (opened_neighbours hnumbered).commit_elsewhere hm (by decide) hleft ⟨0, 0⟩
  exact ⟨m, hm, hids, hmember, hload (hkept (hrowid ▸ hunnamed))⟩

/-- A pipeline completes the operation of its neighbour. -/
def completion : Transaction :=
  Transaction.empty.stage "left" (.status (.ofNat 1) .completed)

/-- Completing the operation for the wrong pipeline leaves it queued and takes its row. -/
theorem not_entries_eq_commit_elsewhere :
    Opened (neighbours MemoryStore.empty) ∧
      (∀ staged c, completion.Stages staged c → staged = "left") ∧
      ∃ m, (neighbours MemoryStore.empty).members.get? "right" = some m ∧
        ((neighbours MemoryStore.empty).afterCommit completion ⟨0, 0⟩).members.get? "right" =
          some m ∧
        m.pipeline.ids = [.ofNat 1] ∧
        (entries (neighbours MemoryStore.empty).store m.rowid).map (·.operation.id) = [.ofNat 1] ∧
        entries ((neighbours MemoryStore.empty).afterCommit completion ⟨0, 0⟩).store m.rowid =
          [] := by
  have hright : ((neighbours MemoryStore.empty).members.get? "right").map (fun m =>
      (m.rowid, m.pipeline.ids)) = some (2, [.ofNat 1]) := by decide +kernel
  obtain ⟨m, hm, heq⟩ := Option.map_eq_some_iff.1 hright
  obtain ⟨hrowid, hids⟩ := Prod.mk.inj heq
  have hleft : ∀ staged c, completion.Stages staged c → staged = "left" :=
    fun _ _ => eq_of_stages_stage
  have hbefore : (MemoryStore.entries (neighbours MemoryStore.empty).store 2).map
      (·.operation.id) = [.ofNat 1] := by
    decide +kernel
  have hafter : MemoryStore.entries
      ((neighbours MemoryStore.empty).afterCommit completion ⟨0, 0⟩).store 2 = [] := by
    decide +kernel
  have hmember : ((neighbours MemoryStore.empty).afterCommit completion ⟨0, 0⟩).members.get?
      "right" = some m := by
    rw [Registry.afterCommit]
    cases hcommit : (neighbours MemoryStore.empty).commit completion ⟨0, 0⟩ with
    | error e => exact hm
    | ok committed =>
        exact (entries_commit (opened_neighbours trivial) hm (by decide) hleft hcommit).1
  refine ⟨opened_neighbours trivial, hleft, m, hm, hmember, hids, ?_, ?_⟩
  · rw [hrowid]
    exact hbefore
  · rw [hrowid]
    exact hafter

end Registry

end OperationQueue
