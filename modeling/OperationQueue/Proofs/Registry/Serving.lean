/-
# Registries that are not given up

As long as a registry lives, it holds all that is stored: every row is that of a member.
And its queues never wait in a circle, since each starts empty and every commit is checked
against it before anything is written.
-/
import OperationQueue.Proofs.Pipeline.Waiting
import OperationQueue.Proofs.Registry.Runs

namespace OperationQueue

namespace Registry

/-- A move that leaves the members where they are. -/
def Move.KeepsMembers : Move → Prop
  | .restart => False
  | _ => True

/-- What is asked of a move of a registry that is not given up. -/
def Serves (owner : Identity → Int) (r : Registry MemoryStore) (m : Move) : Prop :=
  r.Allows owner m ∧ m.KeepsMembers

/-- Every row is that of a member, and no member waits in a circle. -/
structure IsServing (r : Registry MemoryStore) : Prop where
  owned : ∀ row ∈ r.store.rows, ∃ name m, r.members.get? name = some m ∧ m.rowid = row.pipeline
  acyclic : ∀ {name m}, r.members.get? name = some m → ¬ m.pipeline.HasCycle

variable {owner : Identity → Int} {r : Registry MemoryStore} {s t : MemoryStore} {name : String}
  {m : Member}

theorem isServing_new : IsServing (new .empty) := by
  refine ⟨fun row hrow => (nomatch hrow), fun hm => ?_⟩
  simp [new] at hm

/-- Nothing is stored for a candidate that enters: a row of its own would be that of a member
of another name. -/
private theorem load_entered_eq_nil (h : IsServing r) (hstep : IsInStep owner r) {c : Candidate}
    {record : PipelineRecord} (henters : r.Enters c record s) : s.load record.rowid = [] := by
  have hregistered : r.store.register c.name c.previousNames c.algorithm = (record, s) :=
    Except.ok.inj henters.registered
  obtain ⟨hsame, -, hrow, hrows⟩ :=
    MemoryStore.isRow_register hstep.names c.name c.previousNames c.algorithm hregistered
  apply List.eq_nil_iff_forall_not_mem.2
  intro stored hstored
  obtain ⟨row, hmem, hpipeline, -⟩ := MemoryStore.mem_load_iff.1 hstored
  rw [hsame.rows] at hmem
  obtain ⟨other, n, hn, hrowid⟩ := h.owned row hmem
  obtain ⟨hother, hprevious⟩ := henters.ne_of_member hn
  have hotherRow := hrows (hstep.member hn).row hother hprevious
  rw [hrowid, hpipeline] at hotherRow
  exact hother (hotherRow.unique hrow).1

theorem IsServing.register (h : IsServing r) (hstep : IsInStep owner r) (c : Candidate) :
    IsServing (r.register c).2 := by
  rcases register_cases r c with ⟨e, heq⟩ | ⟨record, s, henters, hregister⟩
  · rw [heq]
    exact h
  · have hregistered : r.store.register c.name c.previousNames c.algorithm = (record, s) :=
      Except.ok.inj henters.registered
    obtain ⟨hsame, -⟩ :=
      MemoryStore.isRow_register hstep.names c.name c.previousNames c.algorithm hregistered
    rcases hregister with ⟨e, heq⟩ | ⟨m, t, hrestored, hmigrated, heq⟩
    · rw [heq]
      refine ⟨fun row hmem => ?_, h.acyclic⟩
      rw [hsame.rows] at hmem
      exact h.owned row hmem
    · rw [heq]
      obtain ⟨hsame', -⟩ := of_migrated_eq_ok hmigrated
      obtain ⟨-, -, records, hload, hpipeline⟩ := of_restored_eq_ok hrestored
      have hrecords : s.load record.rowid = records := Except.ok.inj hload
      rw [load_entered_eq_nil h hstep henters] at hrecords
      refine ⟨fun row hmem => ?_, fun {name n} hn => ?_⟩
      · rw [hsame'.rows, hsame.rows] at hmem
        obtain ⟨name, n, hn, hpipeline⟩ := h.owned row hmem
        have hname := (henters.ne_of_member hn).1
        exact ⟨name, n, (OrderedMap.get?_insert_of_ne _ hname _).trans hn, hpipeline⟩
      · by_cases hname : name = c.name
        · rw [hname, OrderedMap.get?_insert_self] at hn
          cases hn
          rw [hpipeline, ← hrecords]
          rintro ⟨id, hcycle⟩
          obtain ⟨dep, ⟨-, op, hop, -⟩, -⟩ := Relation.TransGen.head'_iff.1 hcycle
          obtain ⟨stored, hstored, -⟩ := Pipeline.mem_operations_restore.1 hop
          cases hstored
        · rw [OrderedMap.get?_insert_of_ne _ hname] at hn
          exact h.acyclic hn

/-- After a commit a row is still that of somebody who was a member before. -/
private theorem exists_member_of_mem_rows (h : IsServing r) (hstep : IsInStep owner r)
    {now : Instant} {after : Registry MemoryStore} {snapshot : Snapshot}
    {changes : List PipelineChangeset} {numbers : OrderedMap Identity Int}
    (hcommits : Commits owner r now after snapshot changes numbers) {row : MemoryRow}
    (hmem : row ∈ after.store.rows) :
    ∃ name m, r.members.get? name = some m ∧ m.rowid = row.pipeline := by
  by_cases hwritten : ∃ change ∈ changes, row.pipeline = change.rowid
  · obtain ⟨change, hchange, heq⟩ := hwritten
    obtain ⟨name, m, hm, hrowid⟩ := hcommits.target change hchange
    exact ⟨name, m, hm, hrowid.trans heq.symm⟩
  · have hother : ∀ change ∈ changes, row.pipeline ≠ change.rowid :=
      fun change hchange heq => hwritten ⟨change, hchange, heq⟩
    have hsame := MemoryStore.sameFor_applyChangesets hstep.sound hcommits.sound hother
      hcommits.written
    have hat : row.operation ∈ after.store.operationsAt row.pipeline row.operation.snapshot :=
      MemoryStore.mem_operationsAt_iff.2 ⟨row, hmem, rfl, rfl, rfl⟩
    rw [hsame.operationsAt] at hat
    obtain ⟨old, hold, hpipeline, -⟩ := MemoryStore.mem_operationsAt_iff.1 hat
    obtain ⟨name, m, hm, hrowid⟩ := h.owned old hold
    exact ⟨name, m, hm, hrowid.trans hpipeline⟩

/-- A member takes its part in a commit only after its check, which finds no cycle. -/
private theorem not_hasCycle_commits (hm : m.IsInStep r.store name) (hacyclic : ¬ m.pipeline.HasCycle)
    {changes : List PipelineChangeset} {numbers : OrderedMap Identity Int} {now : Instant}
    {n : Member} (htakes : Member.Commits owner changes numbers now m n) :
    ¬ n.pipeline.HasCycle := by
  cases htakes with
  | applied c written built fresh owned checked =>
      have hchecked : m.pipeline.Checked (.apply (c.assignRowids numbers) now) :=
        ⟨built.assignRowids numbers, fresh.assignRowids numbers,
          Pipeline.checkCommit_assignRowids numbers checked⟩
      have hafter : (m.applied now numbers c).pipeline =
          m.pipeline.perform (.apply (c.assignRowids numbers) now) := rfl
      rw [hafter]
      exact Pipeline.not_hasCycle_perform hm.queue.settled hacyclic hchecked
  | kept other => exact hacyclic

theorem IsServing.commits (h : IsServing r) (hstep : IsInStep owner r) {now : Instant}
    {after : Registry MemoryStore} {snapshot : Snapshot} {changes : List PipelineChangeset}
    {numbers : OrderedMap Identity Int}
    (hcommits : Commits owner r now after snapshot changes numbers) : IsServing after := by
  refine ⟨fun row hmem => ?_, fun {name n} hn => ?_⟩
  · obtain ⟨name, m, hm, hrowid⟩ := exists_member_of_mem_rows h hstep hcommits hmem
    have hrel := hcommits.members name
    rw [hm] at hrel
    generalize hn : after.members.get? name = found at hrel
    cases hrel with
    | @some _ n htakes => exact ⟨name, n, hn, htakes.rowid_eq.trans hrowid⟩
  · have hrel := hcommits.members name
    rw [hn] at hrel
    generalize hm : r.members.get? name = found at hrel
    cases hrel with
    | @some m _ htakes =>
        exact not_hasCycle_commits (hstep.member hm) (h.acyclic hm) htakes

/-- A member whose queue keeps its operations stays as it is. -/
theorem IsServing.setPipeline (h : IsServing r) (hm : r.members.get? name = some m) {q : Pipeline}
    (hsame : Pipeline.SameQueue m.pipeline q) (hrows : t.rows = r.store.rows) :
    IsServing (({ r with store := t } : Registry MemoryStore).setPipeline name q) := by
  have hget (other : String) : (({ r with store := t } : Registry MemoryStore).setPipeline name
      q).members.get? other = if other = name then some { m with pipeline := q }
        else r.members.get? other := by
    have hmember : ({ r with store := t } : Registry MemoryStore).members.get? name = some m := hm
    rw [get?_setPipeline, hmember]
    rfl
  refine ⟨fun row hmem => ?_, fun {other n} hn => ?_⟩
  · rw [store_setPipeline] at hmem
    obtain ⟨other, n, hn, hrowid⟩ := h.owned row (hrows ▸ hmem)
    by_cases hother : other = name
    · rw [hother, hm] at hn
      cases hn
      exact ⟨name, _, (hget name).trans (if_pos rfl), hrowid⟩
    · exact ⟨other, n, (hget other).trans ((if_neg hother).trans hn), hrowid⟩
  · rw [hget] at hn
    by_cases hother : other = name
    · rw [if_pos hother] at hn
      cases hn
      exact hsame.not_hasCycle (h.acyclic hm)
    · rw [if_neg hother] at hn
      exact h.acyclic hn

theorem IsServing.move (h : IsServing r) (hstep : IsInStep owner r) {move : Move}
    (hserves : Serves owner r move) : IsServing (r.move move) := by
  obtain ⟨hallowed, hkeeps⟩ := hserves
  cases move with
  | register c => exact h.register hstep c
  | restart => exact hkeeps.elim
  | commit tx now =>
      rw [Registry.move]
      split
      · next committed hcommit =>
        rcases commits_of_commit_eq_ok hstep hallowed hcommit with heq | ⟨_, _, _, hcommits⟩
        · rw [heq]
          exact h
        · exact h.commits hstep hcommits
      · exact h
  | setHold name id context date now =>
      rw [Registry.move]
      split
      · next after hset =>
        rcases setHold_cases hset with heq | ⟨m, _, hm, -, hsaved, heq⟩
        · rw [heq]
          exact h
        · cases hsaved
          rw [heq]
          have hholds : (Pipeline.Action.setHold id context date now).KeepsQueue := trivial
          have hsame := Pipeline.sameQueue_perform (hstep.member hm).queue.settled.nodup_ids hholds
          exact h.setPipeline hm hsame rfl
      · exact h
  | control name action =>
      rw [Registry.move]
      split
      · next m hm =>
        have haction : action.IsControl := hallowed
        exact h.setPipeline hm (Pipeline.sameQueue_perform
          (hstep.member hm).queue.settled.nodup_ids haction.keepsQueue) rfl
      · exact h

theorem Reachable.mono {allowed allowed' : Registry MemoryStore → Move → Prop}
    (himp : ∀ r m, allowed r m → allowed' r m) (h : Reachable allowed r) : Reachable allowed' r := by
  induction h with
  | new => exact .new
  | step _ ok ih => exact ih.step (himp _ _ ok)

theorem Reachable.isInStep_of_serves (h : Reachable (Serves owner) r) : IsInStep owner r :=
  (h.mono fun _ _ hserves => hserves.1).isInStep

theorem Reachable.isServing (h : Reachable (Serves owner) r) : IsServing r := by
  induction h with
  | new => exact isServing_new
  | step reached ok ih => exact ih.move reached.isInStep_of_serves ok

end Registry

end OperationQueue
