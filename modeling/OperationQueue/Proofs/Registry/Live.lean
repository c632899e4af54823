/-
# Live registries

A registry over a store that writes row by row is live from the moment it is opened: it goes
on by registrations, commits, holds and whatever is asked of its pipelines, and others who
have the same store open may change it meanwhile. All this keeps three facts that a commit
relies on: the store is numbered, members run under their names, and their queues are settled.
A commit then changes the members for which something is staged, each by its own commit.
-/
import OperationQueue.Proofs.Registry.Committing
import OperationQueue.Proofs.Registry.Registering
import OperationQueue.Proofs.Store.RowByRow

namespace OperationQueue

namespace Registry

variable {σ : Type} [Store σ] [RowStore σ]

/-- A registry that is opened on a numbered store, and all that may become of it. What fails
leaves the registry as it was, except that a refused candidate may have got its row. -/
inductive Live : Registry σ → Prop
  | new {s : σ} (numbered : RowStore.IsNumbered s) : Live (.new s)
  | register {r : Registry σ} (live : Live r) (c : Candidate) : Live (r.register c).2
  | commit {r : Registry σ} {tx : Transaction} {now : Instant} {committed : Committed σ}
      (live : Live r) (ok : r.commit tx now = .ok committed) : Live committed.registry
  | setHold {r after : Registry σ} {name : String} {id : Identity} {context : String}
      {date : Option Instant} {now : Instant} {step : Step} (live : Live r)
      (ok : r.setHold name id context date now = .ok (step, after)) : Live after
  | control {r : Registry σ} {name : String} {m : Member} (live : Live r)
      (member : r.members.get? name = some m) (action : Pipeline.Action) :
      Live (r.setPipeline name (m.pipeline.perform action))
  | elsewhere {r : Registry σ} {s : σ} (live : Live r) (numbered : RowStore.IsNumbered s) :
      Live { r with store := s }

/-- The store is numbered, members run under their names, and their queues are settled. -/
structure IsSteady (r : Registry σ) : Prop where
  numbered : RowStore.IsNumbered r.store
  isNamed : r.IsNamed
  settled : ∀ {name m}, r.members.get? name = some m → m.pipeline.IsSettled

variable {r : Registry σ} {s t : σ} {name : String} {m : Member} {now : Instant}

theorem isSteady_new (hs : RowStore.IsNumbered s) : IsSteady (new s) := by
  refine ⟨hs, fun hm => ?_, fun hm => ?_⟩
  · simp [new] at hm
  · simp [new] at hm

namespace IsSteady

theorem withStore (h : r.IsSteady) (hs : RowStore.IsNumbered s) :
    IsSteady { r with store := s } :=
  ⟨hs, h.isNamed, h.settled⟩

/-- A member may take the place of a name if it runs under it and is settled. -/
theorem insert (h : r.IsSteady) (hname : m.pipeline.name = name)
    (hsettled : m.pipeline.IsSettled) :
    IsSteady { r with members := r.members.insert name m } := by
  have hmember {other : String} {n : Member}
      (hn : (r.members.insert name m).get? other = some n) :
      other = name ∧ n = m ∨ r.members.get? other = some n := by
    by_cases hother : other = name
    · subst hother
      rw [OrderedMap.get?_insert_self] at hn
      cases hn
      exact .inl ⟨rfl, rfl⟩
    · rw [OrderedMap.get?_insert_of_ne _ hother] at hn
      exact .inr hn
  refine ⟨h.numbered, fun hn => ?_, fun hn => ?_⟩
  · rcases hmember hn with ⟨rfl, rfl⟩ | hn
    · exact hname
    · exact h.isNamed hn
  · rcases hmember hn with ⟨-, rfl⟩ | hn
    · exact hsettled
    · exact h.settled hn

theorem setPipeline (h : r.IsSteady) (hm : r.members.get? name = some m) {q : Pipeline}
    (hsetup : Pipeline.SameSetup m.pipeline q) (hq : q.IsSettled) :
    (r.setPipeline name q).IsSteady := by
  rw [Registry.setPipeline, hm]
  exact h.insert (hsetup.name.trans (h.isNamed hm)) hq

theorem perform (h : r.IsSteady) (hm : r.members.get? name = some m) (action : Pipeline.Action) :
    (r.setPipeline name (m.pipeline.perform action)).IsSteady :=
  h.setPipeline hm (Pipeline.sameSetup_perform (h.settled hm) action)
    ((h.settled hm).perform action)

theorem register (h : r.IsSteady) (c : Candidate) : (r.register c).2.IsSteady := by
  rcases register_cases r c with ⟨e, heq⟩ | ⟨record, s, henters, hregister⟩
  · rw [heq]
    exact h
  · have hs : RowStore.IsNumbered s := RowStore.isNumbered_register h.numbered henters.registered
    rcases hregister with ⟨e, heq⟩ | ⟨m, t, hrestored, hmigrated, heq⟩
    · rw [heq]
      exact h.withStore hs
    · have ht : RowStore.IsNumbered t := by
        rw [migrated] at hmigrated
        split at hmigrated
        · exact RowStore.isNumbered_setAlgorithm hs hmigrated
        · cases hmigrated
          exact hs
      obtain ⟨-, -, records, -, hpipeline⟩ := of_restored_eq_ok hrestored
      have hname : m.pipeline.name = c.name := by
        rw [hpipeline]
        exact (Pipeline.sameSetup_restore c.pipeline records).name
      have hsettled : m.pipeline.IsSettled := by
        rw [hpipeline]
        exact Pipeline.isSettled_restore c.pipeline records
      rw [heq]
      exact (h.withStore ht).insert hname hsettled

theorem setHold (h : r.IsSteady) {id : Identity} {context : String} {date : Option Instant}
    {step : Step} {after : Registry σ}
    (hset : r.setHold name id context date now = .ok (step, after)) : after.IsSteady := by
  rcases setHold_cases hset with rfl | ⟨m, s, hm, -, hsaved, rfl⟩
  · exact h
  · have hs : RowStore.IsNumbered s := RowStore.isNumbered_saveHolds h.numbered hsaved
    exact (h.withStore hs).perform hm (.setHold id context date now)

theorem commit (h : r.IsSteady) {tx : Transaction} {committed : Committed σ}
    (hcommit : r.commit tx now = .ok committed) : committed.registry.IsSteady := by
  rcases commit_cases hcommit with heq | ⟨snapshot, commits, targets, numbers, t, hcarries, heq⟩
  · rw [heq]
    exact h
  · obtain ⟨hdistinct, hmembers⟩ := hcarries.of_isNamed h.isNamed
    have hsettled : ∀ target ∈ targets, target.1.pipeline.IsSettled :=
      fun target htarget => h.settled (hmembers target htarget)
    have hmember {name : String} {n : Member}
        (hn : committed.registry.members.get? name = some n) :
        n.pipeline.name = name ∧ n.pipeline.IsSettled := by
      rw [heq] at hn
      obtain ⟨m, hm, rfl | ⟨c, -, rfl⟩⟩ :=
        exists_of_get?_applyAll (r := { r with store := t }) hdistinct hmembers hsettled hn
      · exact ⟨h.isNamed hm, h.settled hm⟩
      · have hsetup := Pipeline.sameSetup_applyCommit (h.settled hm) (c.assignRowids numbers) now
        exact ⟨hsetup.name.trans (h.isNamed hm), (h.settled hm).applyCommit _ now⟩
    refine ⟨?_, fun hm => (hmember hm).1, fun hm => (hmember hm).2⟩
    rw [heq, store_applyAll]
    exact RowStore.isNumbered_applyChangesets h.numbered hcarries.written

end IsSteady

theorem Live.isSteady (h : Live r) : r.IsSteady := by
  induction h with
  | new hs => exact isSteady_new hs
  | register _ c ih => exact ih.register c
  | commit _ hok ih => exact ih.commit hok
  | setHold _ hok ih => exact ih.setHold hok
  | control _ hm action ih => exact ih.perform hm action
  | elsewhere _ hs ih => exact ih.withStore hs

/-! ## What a commit leaves -/

/-- A transaction is carried out under a number: it goes through every check, and the changes of
its targets are written. Every member for which something is staged has applied that with the
number, the others are as they were, and the steps of the targets are answered. -/
structure CarriesOut (r : Registry σ) (tx : Transaction) (now : Instant) (snapshot : Snapshot)
    (steps : List (String × Step)) (after : Registry σ) (targets : List (Member × Commit))
    (numbers : OrderedMap Identity Int) : Prop where
  carries : ∃ commits, r.Carries tx snapshot commits targets numbers after.store
  steps_eq : steps = targets.map fun target =>
    (target.1.pipeline.name, (target.1.pipeline.applyCommit (target.2.assignRowids numbers) now).1)
  applied : ∀ {name c}, tx.Stages name c → ∃ m, r.members.get? name = some m ∧
    after.members.get? name = some (m.applied now numbers (c.stamp snapshot))
  kept : ∀ {name}, (∀ c, ¬ tx.Stages name c) → after.members.get? name = r.members.get? name

variable {tx : Transaction}

theorem IsSteady.carriesOut (h : r.IsSteady) {snapshot : Snapshot}
    {commits : OrderedMap String Commit} {targets : List (Member × Commit)}
    {numbers : OrderedMap Identity Int}
    (hcarries : r.Carries tx snapshot commits targets numbers t) :
    r.CarriesOut tx now snapshot (applyAll now numbers targets { r with store := t }).1
      (applyAll now numbers targets { r with store := t }).2 targets numbers := by
  obtain ⟨hdistinct, hmembers⟩ := hcarries.of_isNamed h.isNamed
  have hsettled : ∀ target ∈ targets, target.1.pipeline.IsSettled :=
    fun target htarget => h.settled (hmembers target htarget)
  obtain ⟨hchanged, hkept⟩ := get?_applyAll (r := { r with store := t }) hdistinct hmembers hsettled
  refine ⟨⟨commits, ?_⟩, applyAll_fst hsettled _, fun {name c} hstaged => ?_,
    fun {name} hnone => ?_⟩
  · rw [store_applyAll]
    exact hcarries
  · obtain ⟨target, htarget, rfl, hcommit⟩ := hcarries.exists_target h.isNamed hstaged
    refine ⟨target.1, hmembers target htarget, ?_⟩
    rw [hchanged target htarget, hcommit]
  · have hkey : name ∉ targets.map (·.1.pipeline.name) := by
      intro hmem
      obtain ⟨target, htarget, rfl⟩ := List.mem_map.1 hmem
      obtain ⟨staged, hstaged, -⟩ := hcarries.exists_stages h.isNamed target htarget
      exact hnone staged hstaged
    exact hkept name hkey

/-- A commit that succeeds and has something to do is carried out under the number after the
last one. -/
theorem IsSteady.of_commit_eq_ok (h : r.IsSteady) {last : Snapshot}
    (hlast : Store.lastSnapshot r.store = .ok last) (hchanges : tx.isEmpty = false)
    {committed : Committed σ} (hcommit : r.commit tx now = .ok committed) :
    committed.snapshot = last + 1 ∧ ∃ targets numbers,
      r.CarriesOut tx now committed.snapshot committed.steps committed.registry targets numbers := by
  rcases Registry.of_commit_eq_ok hcommit with
    ⟨hempty, -⟩ | ⟨-, hnext, commits, targets, numbers, t, hcarries, happlied⟩
  · rw [hchanges] at hempty
    cases hempty
  · have hnumber : committed.snapshot = last + 1 := by
      rw [Store.nextSnapshot, hlast] at hnext
      exact (Except.ok.inj hnext).symm
    refine ⟨hnumber, targets, numbers, ?_⟩
    have hcarriesOut : r.CarriesOut tx now committed.snapshot _ _ targets numbers :=
      h.carriesOut hcarries
    rwa [happlied] at hcarriesOut

end Registry

end OperationQueue
