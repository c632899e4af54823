/-
# The rows of registered pipelines

A candidate is looked for under its name and under its previous names, so it may take over a row
that another pipeline left behind. It is refused if a member has one of these names or claims its
name, and so it never takes the row of a member. Then the row of every member stays labelled with
its name and its algorithm, from the registration on and through everything that follows, whether
later candidates are accepted or refused.
-/
import OperationQueue.Proofs.Registry.Isolation
import OperationQueue.Proofs.Store.Labels

namespace OperationQueue

namespace Registry

open LabelStore

variable {σ : Type} [Store σ] [RowStore σ] [EntryStore σ] [LabelStore σ] {r : Registry σ}
  {s t : σ} {c : Candidate} {record : PipelineRecord} {name other : String} {m n : Member}
  {now : Instant} {tx : Transaction}

/-- The row of every member carries its name and its algorithm. -/
def IsLabelled (r : Registry σ) : Prop :=
  ∀ name m, r.members.get? name = some m → HasLabel r.store m.rowid name m.pipeline.algorithm

/-- What a member is replaced by keeps its row and its algorithm, so the rows stay labelled as
long as the store keeps the labels. -/
theorem IsLabelled.of_setup (h : r.IsLabelled) {after : Registry σ}
    (hlabels : labels after.store = labels r.store)
    (hmembers : ∀ name n, after.members.get? name = some n → ∃ m, r.members.get? name = some m ∧
      n.rowid = m.rowid ∧ n.pipeline.algorithm = m.pipeline.algorithm) : after.IsLabelled := by
  intro name n hn
  obtain ⟨m, hm, hrowid, halgorithm⟩ := hmembers name n hn
  rw [hrowid, halgorithm]
  exact (h name m hm).of_labels_eq hlabels

omit [Store σ] [RowStore σ] [EntryStore σ] [LabelStore σ] in
/-- A pipeline that takes the place of a member's leaves its row. -/
theorem exists_of_get?_setPipeline_of_sameSetup {q : Pipeline}
    (hm : r.members.get? name = some m) (hsetup : Pipeline.SameSetup m.pipeline q)
    (hn : (r.setPipeline name q).members.get? other = some n) :
    ∃ old, r.members.get? other = some old ∧ n.rowid = old.rowid ∧
      n.pipeline.algorithm = old.pipeline.algorithm := by
  rw [get?_setPipeline] at hn
  split at hn
  · next heq =>
    subst heq
    rw [hm, Option.map_some, Option.some.injEq] at hn
    subst hn
    exact ⟨m, hm, rfl, hsetup.algorithm⟩
  · exact ⟨n, hn, rfl, rfl⟩

/-- The algorithm that the store has for a candidate in the end is its own. -/
theorem hasLabel_of_migrated (hrow : HasLabel s record.rowid c.name
      (record.storedAlgorithm.getD c.algorithm)) (h : migrated s c record = .ok t) :
    HasLabel t record.rowid c.name c.algorithm := by
  rw [migrated] at h
  split at h
  · have hset := hasLabel_setAlgorithm h hrow
    rwa [if_pos rfl] at hset
  · next hkept =>
    cases h
    have hsame : record.storedAlgorithm.getD c.algorithm = c.algorithm := by
      cases hstored : record.storedAlgorithm with
      | none => rfl
      | some stored => simpa [hstored] using hkept
    rwa [hsame] at hrow

/-- Migrating one row leaves the labels of the others. -/
theorem hasLabel_of_migrated_of_ne {rowid : Int} {stored : Algorithm}
    (hrow : HasLabel s rowid other stored) (hne : rowid ≠ record.rowid)
    (h : migrated s c record = .ok t) : HasLabel t rowid other stored := by
  rw [migrated] at h
  split at h
  · have hset := hasLabel_setAlgorithm h hrow
    rwa [if_neg hne] at hset
  · cases h
    exact hrow

omit [RowStore σ] [EntryStore σ] [LabelStore σ] in
theorem algorithm_of_restored (h : restored s c record = .ok m) :
    m.pipeline.algorithm = c.algorithm := by
  obtain ⟨-, -, records, -, hpipeline⟩ := of_restored_eq_ok h
  rw [hpipeline]
  exact (Pipeline.sameSetup_restore c.pipeline records).algorithm

theorem IsLabelled.register (h : r.IsLabelled) (c : Candidate) :
    (r.register c).2.IsLabelled := by
  rcases register_cases r c with ⟨e, heq⟩ | ⟨record, s, henters, hregister⟩
  · rw [heq]
    exact h
  · have hown := hasLabel_register henters.registered
    have hkept (name : String) (m : Member) (hm : r.members.get? name = some m) :
        HasLabel s m.rowid name m.pipeline.algorithm := by
      rcases (h name m hm).register henters.registered with hkept | ⟨hprevious, -⟩
      · exact hkept
      · rw [(henters.ne_of_member hm).2] at hprevious
        cases hprevious
    rcases hregister with ⟨e, heq⟩ | ⟨m, t, hrestored, hmigrated, heq⟩
    · rw [heq]
      exact hkept
    · rw [heq]
      intro name n hn
      by_cases hname : name = c.name
      · subst hname
        rw [OrderedMap.get?_insert_self, Option.some.injEq] at hn
        rw [← hn, (of_restored_eq_ok hrestored).1, algorithm_of_restored hrestored]
        exact hasLabel_of_migrated hown hmigrated
      · rw [OrderedMap.get?_insert_of_ne _ hname] at hn
        have hrow := hkept name n hn
        -- Two rows of one number would carry one name.
        have hapart : n.rowid ≠ record.rowid := fun heq =>
          hname ((heq ▸ hrow.hasName).unique hown.hasName)
        exact hasLabel_of_migrated_of_ne hrow hapart hmigrated

theorem IsLabelled.commit (h : r.IsLabelled) (hr : r.IsSteady) {committed : Committed σ}
    (hcommit : r.commit tx now = .ok committed) : committed.registry.IsLabelled := by
  rcases commit_cases hcommit with heq | ⟨snapshot, commits, targets, numbers, t, hcarries, heq⟩
  · rw [heq]
    exact h
  · obtain ⟨hdistinct, hmembers⟩ := hcarries.of_isNamed hr.isNamed
    have hsettled : ∀ target ∈ targets, target.1.pipeline.IsSettled :=
      fun target htarget => hr.settled (hmembers target htarget)
    rw [heq]
    refine h.of_setup ?_ fun name n hn => ?_
    · rw [store_applyAll]
      exact labels_applyChangesets hcarries.written
    · obtain ⟨m, hm, rfl | ⟨c, -, rfl⟩⟩ :=
        exists_of_get?_applyAll (r := { r with store := t }) hdistinct hmembers hsettled hn
      · exact ⟨n, hm, rfl, rfl⟩
      · have hsetup := Pipeline.sameSetup_applyCommit (hr.settled hm) (c.assignRowids numbers) now
        exact ⟨m, hm, rfl, hsetup.algorithm⟩

theorem IsLabelled.setHold (h : r.IsLabelled) (hr : r.IsSteady) {id : Identity} {context : String}
    {date : Option Instant} {step : Step} {after : Registry σ}
    (hset : r.setHold name id context date now = .ok (step, after)) : after.IsLabelled := by
  rcases setHold_cases hset with rfl | ⟨m, s, hm, -, hsaved, rfl⟩
  · exact h
  · have hsetup := Pipeline.sameSetup_perform (hr.settled hm) (.setHold id context date now)
    refine h.of_setup ?_ fun _ _ =>
      exists_of_get?_setPipeline_of_sameSetup (r := { r with store := s }) hm hsetup
    rw [store_setPipeline]
    exact labels_saveHolds hsaved

theorem Opened.isLabelled (h : Opened r) : r.IsLabelled := by
  induction h with
  | new _ =>
      intro name m hm
      simp [Registry.new] at hm
  | register _ c ih => exact ih.register c
  | commit opened ok ih => exact ih.commit opened.live.isSteady ok
  | setHold opened ok ih => exact ih.setHold opened.live.isSteady ok
  | control opened member action ih =>
      have hsetup := Pipeline.sameSetup_perform (opened.live.isSteady.settled member) action
      refine ih.of_setup ?_ fun _ _ => exists_of_get?_setPipeline_of_sameSetup member hsetup
      rw [store_setPipeline]

/-- Registered pipelines own rows of their own, and these carry their labels. Whatever a store
held when a registry was opened on it, and whichever candidates came since and were accepted or
refused: no two members have one row, and the row of a member is stored under the name of its
pipeline, which is the name that it is registered under, with the algorithm of its pipeline. -/
theorem Opened.owns_rows (h : Opened r) :
    (∀ {name other m n}, r.members.get? name = some m → r.members.get? other = some n →
      name ≠ other → m.rowid ≠ n.rowid) ∧
    ∀ {name m}, r.members.get? name = some m → m.pipeline.name = name ∧
      HasLabel r.store m.rowid m.pipeline.name m.pipeline.algorithm := by
  constructor
  · intro name other m n hm hn hne
    exact h.hasNamedRows.rowid_ne hn hm hne
  · intro name m hm
    have hname := h.live.isSteady.isNamed hm
    exact ⟨hname, hname ▸ h.isLabelled name m hm⟩

/-- A pipeline takes over a stored row under another name and with another algorithm, a second one
gets a new row, a third one claims the name of the first and is refused, and something is
committed. -/
def renamed : Registry TableStore :=
  let stored : TableStore := { TableStore.empty with pipelines := [⟨"uploads", .number 0⟩] }
  let transfers : Candidate :=
    ⟨"transfers", .flat, 1, .ofMembers ["uploads"], true, .recorder⟩
  let mail : Candidate := ⟨"mail", .commit, 1, .empty, false, .recorder⟩
  let claimant : Candidate := ⟨"uploads", .commit, 1, .ofMembers ["transfers"], false, .recorder⟩
  let registered := (((((new stored).register transfers).2.register mail).2).register claimant).2
  registered.afterCommit (Transaction.empty.stage "mail" (.add (.new (.ofNat 1)))) ⟨0, 0⟩

theorem owns_rows_renamed : ∃ m n, renamed.members.get? "transfers" = some m ∧
    renamed.members.get? "mail" = some n ∧ m.rowid ≠ n.rowid ∧
    HasLabel renamed.store m.rowid "transfers" .flat ∧
    HasLabel renamed.store n.rowid "mail" .commit := by
  have hopened : Opened renamed :=
    Opened.afterCommit (.register (.register (.register (.new fun n hn => nomatch hn) _) _) _) _ _
  have hmembers : (renamed.members.get? "transfers").map (·.pipeline.algorithm) = some .flat ∧
      (renamed.members.get? "mail").map (·.pipeline.algorithm) = some .commit := by decide +kernel
  obtain ⟨m, hm, hflat⟩ := Option.map_eq_some_iff.1 hmembers.1
  obtain ⟨n, hn, hcommit⟩ := Option.map_eq_some_iff.1 hmembers.2
  obtain ⟨hapart, hlabels⟩ := hopened.owns_rows
  obtain ⟨htransfers, hrow⟩ := hlabels hm
  obtain ⟨hmail, hrow'⟩ := hlabels hn
  rw [htransfers, hflat] at hrow
  rw [hmail, hcommit] at hrow'
  exact ⟨m, n, hm, hn, hapart hm hn (by decide), hrow, hrow'⟩

end Registry

end OperationQueue
