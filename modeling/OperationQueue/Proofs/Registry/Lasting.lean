/-
# Registries that last

A registry lasts through registrations, commits, holds, whatever leaves the queues as they are, and
restarts. If it is opened on rows with numbers, then every row and every queued operation has its
number from then on. So nobody in it depends on what a copy carries beside the change it was handed
over for: a transaction is committed as if it were bare.
-/
import OperationQueue.Proofs.Pipeline.Merging
import OperationQueue.Proofs.Registry.Live
import OperationQueue.Proofs.Store.Rows

namespace OperationQueue

namespace Registry

variable {σ : Type} [Store σ] [RowStore σ] [NumberingStore σ]

/-- A registry that is opened on rows with numbers, and all that becomes of it, restarts included,
while nobody else writes to the store. -/
inductive Lasting : Registry σ → Prop
  | new {s : σ} (numbered : RowStore.IsNumbered s) (rowids : NumberingStore.HasRowids s) :
      Lasting (.new s)
  | register {r : Registry σ} (lasting : Lasting r) (c : Candidate) : Lasting (r.register c).2
  | commit {r : Registry σ} {tx : Transaction} {now : Instant} {committed : Committed σ}
      (lasting : Lasting r) (ok : r.commit tx now = .ok committed) : Lasting committed.registry
  | setHold {r after : Registry σ} {name : String} {id : Identity} {context : String}
      {date : Option Instant} {now : Instant} {step : Step} (lasting : Lasting r)
      (ok : r.setHold name id context date now = .ok (step, after)) : Lasting after
  | control {r : Registry σ} {name : String} {m : Member} (lasting : Lasting r)
      (member : r.members.get? name = some m) {action : Pipeline.Action}
      (keepsQueue : action.KeepsQueue) :
      Lasting (r.setPipeline name (m.pipeline.perform action))
  | restart {r : Registry σ} (lasting : Lasting r) : Lasting (.new r.store)

/-- Every row and every queued operation has its number. -/
structure HasRowids (r : Registry σ) : Prop where
  store : NumberingStore.HasRowids r.store
  queued : ∀ {name m}, r.members.get? name = some m → m.pipeline.HasRowids

variable {r : Registry σ} {s t : σ} {name : String} {m : Member} {now : Instant}
  {tx : Transaction} {snapshot : Snapshot} {commits : OrderedMap String Commit}
  {targets : List (Member × Commit)} {numbers : OrderedMap Identity Int}

theorem hasRowids_restored {c : Candidate} {record : PipelineRecord}
    (hs : NumberingStore.HasRowids s) (h : restored s c record = .ok m) :
    m.pipeline.HasRowids := by
  obtain ⟨-, -, records, hload, hpipeline⟩ := of_restored_eq_ok h
  rw [hpipeline]
  exact Pipeline.hasRowids_restore (NumberingStore.isSome_rowid_of_load hs hload) _

/-- Every operation that gets a row is told its number. -/
theorem Carries.isSome_get? (h : r.Carries tx snapshot commits targets numbers t)
    {target : Member × Commit} (htarget : target ∈ targets) {op : Operation}
    (hop : op ∈ target.2.newOperations) (hstays : op.finishesWhenApplied = false) :
    (numbers.get? op.id).isSome := by
  have hinsert : .insert op.applyStaged ∈ target.2.changeset := by
    rw [Commit.changeset_eq, Commit.newRows]
    refine List.mem_append_left _ (List.mem_map_of_mem (List.mem_map_of_mem ?_))
    rw [List.mem_filter, hstays]
    exact ⟨hop, rfl⟩
  have hchange : (⟨target.1.rowid, target.2.changeset⟩ : PipelineChangeset) ∈
      targets.map fun target => ⟨target.1.rowid, target.2.changeset⟩ :=
    List.mem_map_of_mem htarget
  have hnumber : (numbers.get? op.applyStaged.id).isSome :=
    NumberingStore.isSome_get?_of_applyChangesets h.written hchange hinsert
  exact hnumber

namespace HasRowids

theorem insert (h : r.HasRowids) (hs : NumberingStore.HasRowids s) (hm : m.pipeline.HasRowids)
    (name : String) : HasRowids ⟨s, r.members.insert name m⟩ := by
  refine ⟨hs, fun {other n} hn => ?_⟩
  by_cases hother : other = name
  · subst hother
    rw [OrderedMap.get?_insert_self, Option.some.injEq] at hn
    exact hn ▸ hm
  · rw [OrderedMap.get?_insert_of_ne _ hother] at hn
    exact h.queued hn

theorem setPipeline (h : r.HasRowids) (hs : NumberingStore.HasRowids s)
    (hm : r.members.get? name = some m) {p : Pipeline} (hp : p.HasRowids) :
    ({ r with store := s }.setPipeline name p).HasRowids := by
  rw [Registry.setPipeline, hm]
  exact h.insert hs hp name

theorem register (h : r.HasRowids) (c : Candidate) : (r.register c).2.HasRowids := by
  rcases register_cases r c with ⟨e, heq⟩ | ⟨record, s, henters, hregister⟩
  · rw [heq]
    exact h
  · have hs : NumberingStore.HasRowids s :=
      h.store.of_rows_eq (NumberingStore.rows_register henters.registered)
    rcases hregister with ⟨e, heq⟩ | ⟨m, t, hrestored, hmigrated, heq⟩
    · rw [heq]
      exact ⟨hs, h.queued⟩
    · have ht : NumberingStore.HasRowids t := by
        rw [migrated] at hmigrated
        split at hmigrated
        · exact hs.of_rows_eq (NumberingStore.rows_setAlgorithm hmigrated)
        · cases hmigrated
          exact hs
      rw [heq]
      exact h.insert ht (hasRowids_restored hs hrestored) c.name

theorem commit (h : r.HasRowids) (hr : r.IsSteady) {committed : Committed σ}
    (hcommit : r.commit tx now = .ok committed) : committed.registry.HasRowids := by
  rcases commit_cases hcommit with heq | ⟨snapshot, commits, targets, numbers, t, hcarries, heq⟩
  · rw [heq]
    exact h
  · obtain ⟨hdistinct, hmembers⟩ := hcarries.of_isNamed hr.isNamed
    have hsettled : ∀ target ∈ targets, target.1.pipeline.IsSettled :=
      fun target htarget => hr.settled (hmembers target htarget)
    rw [heq]
    refine ⟨?_, fun {name n} hn => ?_⟩
    · rw [store_applyAll]
      exact h.store.applyChangesets hcarries.written
    · obtain ⟨m, hm, rfl | ⟨c, htarget, rfl⟩⟩ :=
        exists_of_get?_applyAll (r := { r with store := t }) hdistinct hmembers hsettled hn
      · exact h.queued hm
      · refine (h.queued hm).applyCommit (hr.settled hm) (fun op hop hstays => ?_) now
        rw [Commit.newOperations_assignRowids] at hop
        obtain ⟨new, hnew, rfl⟩ := List.mem_map.1 hop
        obtain ⟨rowid, hrowid⟩ := Option.isSome_iff_exists.1 (hcarries.isSome_get? htarget hnew hstays)
        rw [Operation.numbered, hrowid]
        rfl

theorem setHold (h : r.HasRowids) (hr : r.IsSteady) {id : Identity} {context : String}
    {date : Option Instant} {step : Step} {after : Registry σ}
    (hset : r.setHold name id context date now = .ok (step, after)) : after.HasRowids := by
  rcases setHold_cases hset with rfl | ⟨m, s, hm, -, hsaved, rfl⟩
  · exact h
  · have hs : NumberingStore.HasRowids s :=
      h.store.of_rows_eq (NumberingStore.rows_saveHolds hsaved)
    have hkept : (Pipeline.Action.setHold id context date now).KeepsQueue := trivial
    exact h.setPipeline hs hm ((h.queued hm).sameQueue
      (Pipeline.sameQueue_perform (hr.settled hm).nodup_ids hkept))

end HasRowids

theorem Lasting.live (h : Lasting r) : Live r := by
  induction h with
  | new numbered _ => exact .new numbered
  | register _ c ih => exact ih.register c
  | commit _ ok ih => exact ih.commit ok
  | setHold _ ok ih => exact ih.setHold ok
  | control _ member _ ih => exact ih.control member _
  | restart _ ih => exact .new ih.isSteady.numbered

/-- The numbers are there after whatever lasts. -/
theorem Lasting.hasRowids (h : Lasting r) : r.HasRowids := by
  induction h with
  | new _ rowids => exact ⟨rowids, fun hm => by simp [Registry.new] at hm⟩
  | register _ c ih => exact ih.register c
  | commit lasting ok ih => exact ih.commit lasting.live.isSteady ok
  | setHold lasting ok ih => exact ih.setHold lasting.live.isSteady ok
  | control lasting member keepsQueue ih =>
      exact ih.setPipeline ih.store member ((ih.queued member).sameQueue
        (Pipeline.sameQueue_perform (lasting.live.isSteady.settled member).nodup_ids keepsQueue))
  | restart _ ih => exact ⟨ih.store, fun hm => by simp [Registry.new] at hm⟩

/-! ## Bare transactions -/

omit [Store σ] [RowStore σ] [NumberingStore σ] in
/-- Bare commits are for the same members. -/
theorem targets_bare (r : Registry σ) (commits : OrderedMap String Commit) :
    r.targets (commits.map fun _ c => c.bare) =
      (r.targets commits).map fun targets => targets.map fun target => (target.1, target.2.bare) := by
  rw [targets, targets, OrderedMap.entries_map]
  apply mapM_map_eq
  intro e
  dsimp only
  cases r.members.get? e.1 <;> rfl

omit [Store σ] [RowStore σ] [NumberingStore σ] in
theorem applyAll_bare
    (h : ∀ target ∈ targets, target.1.pipeline.applyCommit (target.2.bare.assignRowids numbers) now =
      target.1.pipeline.applyCommit (target.2.assignRowids numbers) now) (r : Registry σ) :
    applyAll now numbers (targets.map fun target => (target.1, target.2.bare)) r =
      applyAll now numbers targets r := by
  induction targets generalizing r with
  | nil => rfl
  | cons target rest ih =>
      have hrest := ih fun later hlater => h later (List.mem_cons_of_mem _ hlater)
      rw [List.map_cons, applyAll, applyAll]
      dsimp only
      rw [h target List.mem_cons_self, hrest]

omit [Store σ] [RowStore σ] [NumberingStore σ] in
theorem checkCommit_bare (targets : List (Member × Commit)) :
    (targets.map fun target => (target.1, target.2.bare)).forM
        (fun target => target.1.pipeline.checkCommit target.2) =
      targets.forM fun target => target.1.pipeline.checkCommit target.2 := by
  rw [List.forM_eq_forM, List.forM_map]
  simp only [Pipeline.checkCommit, Commit.checkAgainst_bare]

theorem applyChangesets_bare (hs : NumberingStore.HasRowids s) (snapshot : Snapshot)
    (targets : List (Member × Commit)) :
    Store.applyChangesets s snapshot ((targets.map fun target => (target.1, target.2.bare)).map
        fun target => ⟨target.1.rowid, target.2.changeset⟩) =
      Store.applyChangesets s snapshot
        (targets.map fun target => ⟨target.1.rowid, target.2.changeset⟩) := by
  rw [← NumberingStore.applyChangesets_bare hs snapshot
    (targets.map fun target => ⟨target.1.rowid, target.2.changeset⟩)]
  simp only [List.map_map, Function.comp_def, Commit.changeset_bare]

/-- A registry in which everything has its number makes of a bare transaction what it makes of the
transaction, and answers the same. -/
theorem HasRowids.commit_bare (h : r.HasRowids) (hr : r.IsSteady) (tx : Transaction)
    (now : Instant) : r.commit tx.bare now = r.commit tx now := by
  rw [Registry.commit, Registry.commit, Transaction.isEmpty_bare]
  by_cases hempty : tx.isEmpty = true
  · rw [if_pos hempty, if_pos hempty]
  rw [if_neg hempty, if_neg hempty]
  refine bind_congr_of_ok fun snapshot _ => ?_
  rw [Transaction.finish_bare, map_bind_eq]
  refine bind_congr_of_ok fun commits hfinish => ?_
  rw [targets_bare, map_bind_eq]
  refine bind_congr_of_ok fun targets htargets => ?_
  rw [checkCommit_bare]
  refine bind_congr_of_ok fun _ hchecked => ?_
  rw [applyChangesets_bare h.store]
  refine bind_congr_of_ok fun written hwritten => ?_
  obtain ⟨numbers, store⟩ := written
  have hcarries : r.Carries tx snapshot commits targets numbers store :=
    ⟨hfinish, htargets, forall_of_forM_eq_ok hchecked, hwritten⟩
  obtain ⟨-, hmembers⟩ := hcarries.of_isNamed hr.isNamed
  dsimp only
  rw [applyAll_bare]
  intro target htarget
  have halike : Pipeline.AppliesAlike (target.2.assignRowids numbers)
      (target.2.bare.assignRowids numbers) :=
    Pipeline.appliesAlike_bare fun op hop hstays => hcarries.isSome_get? htarget hop hstays
  exact halike.applyCommit_eq (h.queued (hmembers target htarget)) now

end Registry

end OperationQueue
