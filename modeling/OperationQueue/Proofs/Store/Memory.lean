/-
# What a commit leaves in memory

If identities belong to pipelines, the writes for one pipeline leave the rows and the holds
of all others alone. So what a pipeline has stored after a transaction depends on its own
writes only: they edit its operations one after the other, and the new ones come behind.
-/
import OperationQueue.Proofs.Result
import OperationQueue.Proofs.Store.Writing

namespace OperationQueue

namespace MemoryStore

variable {owner : Identity → Int} {pipeline other : Int} {s t : MemoryStore}
  {a b : OrderedMap Identity Int} {w : RowWrite} {ws : List RowWrite} {snapshot : Snapshot}

/-! ## The writes of one commit -/

/-- What a pipeline has stored, the numbers given to its operations and their holds do
not change. -/
structure SameFor (owner : Identity → Int) (pipeline : Int) (before after : Writing) : Prop where
  operationsAt : ∀ snapshot,
    after.2.operationsAt pipeline snapshot = before.2.operationsAt pipeline snapshot
  holds : ∀ id, owner id = pipeline → after.2.holds.ofOperation id = before.2.holds.ofOperation id
  assigned : ∀ id, owner id = pipeline → after.1.get? id = before.1.get? id

theorem SameFor.refl (w : Writing) : SameFor owner pipeline w w :=
  ⟨fun _ => rfl, fun _ _ => rfl, fun _ _ => rfl⟩

theorem SameFor.trans {u v w : Writing} (huv : SameFor owner pipeline u v)
    (hvw : SameFor owner pipeline v w) : SameFor owner pipeline u w where
  operationsAt snapshot := (hvw.operationsAt snapshot).trans (huv.operationsAt snapshot)
  holds id hid := (hvw.holds id hid).trans (huv.holds id hid)
  assigned id hid := (hvw.assigned id hid).trans (huv.assigned id hid)

/-- A write for one pipeline changes nothing for any other. -/
theorem sameFor_write (hs : s.IsSound owner) (hw : w.IsSound owner pipeline)
    (hother : other ≠ pipeline) (h : write pipeline (a, s) w = .ok (b, t)) :
    SameFor owner other (a, s) (b, t) := by
  have hne {id : Identity} (hid : owner id = other) : w.id ≠ id := by
    intro heq
    apply hother
    rw [← hid, ← heq, hw.owned]
  refine ⟨fun snapshot => ?_, fun id hid => ?_, fun id hid => get?_assigned_write h (hne hid)⟩
  · rw [operationsAt_write h, if_neg (Ne.symm hother), List.append_nil]
    have hedit : ∀ op ∈ s.operationsAt other snapshot, w.edit op = some op := by
      intro op hop
      obtain ⟨row, hrow, hpipeline, -, rfl⟩ := mem_operationsAt_iff.1 hop
      exact RowWrite.edit_of_ne (hne ((hs.owned row hrow).trans hpipeline))
    rw [List.filterMap_congr hedit, List.filterMap_some]
  · have hdelete : w ≠ .delete id := by
      rintro rfl
      exact hne hid rfl
    rw [ofOperation_write h, if_neg hdelete]

theorem IsSound.writes {u v : Writing} (hs : u.2.IsSound owner)
    (hws : ∀ w ∈ ws, w.IsSound owner pipeline)
    (h : ws.foldlM (MemoryStore.write pipeline) u = .ok v) : v.2.IsSound owner := by
  apply foldlM_invariant (fun u => u.2.IsSound owner) _ hs h
  intro w hw u v hu hwrite
  exact hu.write (hws w hw) hwrite

theorem sameFor_writes {u v : Writing} (hs : u.2.IsSound owner)
    (hws : ∀ w ∈ ws, w.IsSound owner pipeline) (hother : other ≠ pipeline)
    (h : ws.foldlM (write pipeline) u = .ok v) : SameFor owner other u v := by
  have hboth : v.2.IsSound owner ∧ SameFor owner other u v := by
    apply foldlM_invariant (fun m => m.2.IsSound owner ∧ SameFor owner other u m) _ ⟨hs, .refl u⟩ h
    rintro w hw m n ⟨hm, hsame⟩ hwrite
    exact ⟨hm.write (hws w hw) hwrite, hsame.trans (sameFor_write hm (hws w hw) hother hwrite)⟩
  exact hboth.2

/-- Whether no write comes after the insertion of its operation. -/
def InsertsLast (ws : List RowWrite) : Prop :=
  ws.Pairwise fun v w => ∀ op, v = .insert op → w.id ≠ op.id

private theorem get?_assigned_writes {u v : Writing} {id : Identity} (hid : ∀ w ∈ ws, w.id ≠ id)
    (h : ws.foldlM (write pipeline) u = .ok v) : v.1.get? id = u.1.get? id := by
  apply foldlM_invariant (fun m => m.1.get? id = u.1.get? id) _ rfl h
  intro w hw m n hm hwrite
  exact (get?_assigned_write hwrite (hid w hw)).trans hm

/-- What a pipeline has stored after its writes, if no write follows on an insertion: its
operations edited, and behind them the new ones under their numbers. -/
theorem operationsAt_writes {u v : Writing} (hws : InsertsLast ws)
    (h : ws.foldlM (write pipeline) u = .ok v) (snapshot : Snapshot) :
    v.2.operationsAt pipeline snapshot =
      (u.2.operationsAt pipeline snapshot).filterMap (RowWrite.editAll ws) ++
        (ws.flatMap (RowWrite.inserted v.1)).filter (·.snapshot == snapshot) := by
  induction ws generalizing u with
  | nil =>
      cases h
      have hnone : RowWrite.editAll [] = some := rfl
      simp [hnone]
  | cons w rest ih =>
      obtain ⟨m, hm, hrest⟩ := foldlM_cons_eq_ok h
      obtain ⟨hfirst, hlater⟩ := List.pairwise_cons.1 hws
      -- The new row of the first write is final, and so is its number.
      have hinserted : ((w.inserted m.1).filter (·.snapshot == snapshot)).filterMap
          (RowWrite.editAll rest) = (w.inserted v.1).filter (·.snapshot == snapshot) := by
        cases w with
        | insert op =>
            have hlast : ∀ w ∈ rest, w.id ≠ op.id := fun w' hw' => hfirst w' hw' op rfl
            have hnumber : v.1.get? op.id = m.1.get? op.id := get?_assigned_writes hlast hrest
            have hedit : RowWrite.editAll rest { op with rowid := m.1.get? op.id } =
                some { op with rowid := m.1.get? op.id } := RowWrite.editAll_of_ne hlast
            rw [RowWrite.inserted, RowWrite.inserted, hnumber]
            by_cases hsnapshot : op.snapshot = snapshot
            · subst hsnapshot
              simp [hedit]
            · simp [hsnapshot]
        | modify m => rfl
        | status id next => rfl
        | delete id => rfl
      have hedits : RowWrite.editAll (w :: rest) =
          fun op => (w.edit op).bind (RowWrite.editAll rest) := rfl
      rw [ih hlater hrest, operationsAt_write hm, if_pos rfl, List.filterMap_append, hinserted,
        List.filterMap_filterMap, hedits, List.flatMap_cons, List.filter_append, List.append_assoc]

/-- The writes of a pipeline take the holds of the operations that they remove. -/
theorem ofOperation_writes {u v : Writing} (h : ws.foldlM (write pipeline) u = .ok v)
    (id : Identity) :
    v.2.holds.ofOperation id =
      if .delete id ∈ ws then .empty else u.2.holds.ofOperation id := by
  induction ws generalizing u with
  | nil =>
      cases h
      simp
  | cons w rest ih =>
      obtain ⟨m, hm, hrest⟩ := foldlM_cons_eq_ok h
      rw [ih hrest, ofOperation_write hm]
      by_cases hw : w = .delete id
      · simp [hw]
      · simp [hw, Ne.symm hw]

/-! ## The writes of all commits of a transaction -/

section Changes

variable {changes : List PipelineChangeset} {u v : Writing}

/-- Every write is sound for the pipeline for which it is made. -/
def AreSound (owner : Identity → Int) (changes : List PipelineChangeset) : Prop :=
  ∀ change ∈ changes, ∀ w ∈ change.writes, w.IsSound owner change.rowid

/-- The writes of several pipelines, one pipeline after the other. -/
private abbrev writeChanges (changes : List PipelineChangeset) (u : Writing) :
    Except Error Writing :=
  changes.foldlM (fun w change => change.writes.foldlM (write change.rowid) w) u

private theorem IsSound.writeChanges (hs : u.2.IsSound owner) (hchanges : AreSound owner changes)
    (h : MemoryStore.writeChanges changes u = .ok v) : v.2.IsSound owner := by
  apply foldlM_invariant (fun u => u.2.IsSound owner) _ hs h
  intro change hchange u v hu hwrites
  exact hu.writes (hchanges change hchange) hwrites

private theorem sameFor_writeChanges (hs : u.2.IsSound owner) (hchanges : AreSound owner changes)
    (hother : ∀ change ∈ changes, other ≠ change.rowid)
    (h : MemoryStore.writeChanges changes u = .ok v) : SameFor owner other u v := by
  have hboth : v.2.IsSound owner ∧ SameFor owner other u v := by
    apply foldlM_invariant (fun m => m.2.IsSound owner ∧ SameFor owner other u m) _ ⟨hs, .refl u⟩ h
    rintro change hchange m n ⟨hm, hsame⟩ hwrites
    have hfirst := hchanges change hchange
    exact ⟨hm.writes hfirst hwrites,
      hsame.trans (sameFor_writes hm hfirst (hother change hchange) hwrites)⟩
  exact hboth.2

/-- The writes of one pipeline among those of several, each with a changeset of its own:
what comes before and behind them changes nothing for it. -/
private theorem exists_own_writes (hs : u.2.IsSound owner) (hchanges : AreSound owner changes)
    (hdistinct : (changes.map (·.rowid)).Nodup) {change : PipelineChangeset}
    (hmem : change ∈ changes) (h : MemoryStore.writeChanges changes u = .ok v) :
    ∃ before after, SameFor owner change.rowid u before ∧
      change.writes.foldlM (write change.rowid) before = .ok after ∧
      SameFor owner change.rowid after v := by
  induction changes generalizing u with
  | nil => cases hmem
  | cons first rest ih =>
      obtain ⟨m, hm, hrest⟩ := foldlM_cons_eq_ok h
      rw [List.map_cons, List.nodup_cons] at hdistinct
      have hfirst := hchanges first List.mem_cons_self
      have hlater : AreSound owner rest := fun later hlater =>
        hchanges later (List.mem_cons_of_mem _ hlater)
      have hsound : m.2.IsSound owner := hs.writes hfirst hm
      rcases List.mem_cons.1 hmem with rfl | hmem
      · refine ⟨u, m, .refl u, hm, sameFor_writeChanges hsound hlater ?_ hrest⟩
        intro later hlater heq
        exact hdistinct.1 (heq ▸ List.mem_map_of_mem hlater)
      · obtain ⟨before, after, hbefore, hown, hafter⟩ := ih hsound hlater hdistinct.2 hmem hrest
        have hother : change.rowid ≠ first.rowid := fun heq =>
          hdistinct.1 (heq ▸ List.mem_map_of_mem hmem)
        exact ⟨before, after, (sameFor_writes hs hfirst hother hm).trans hbefore, hown, hafter⟩

/-- Writing a transaction keeps a store sound. -/
theorem IsSound.applyChangesets (hs : s.IsSound owner) (hchanges : AreSound owner changes)
    (h : s.applyChangesets snapshot changes = .ok v) : v.2.IsSound owner := by
  obtain ⟨written, hwritten, h⟩ := exists_of_bind_eq_ok h
  cases h
  have hsound : written.2.IsSound owner := IsSound.writeChanges hs hchanges hwritten
  exact ⟨hsound.owned, hsound.nodup, hsound.numbered, hsound.unfinished, hsound.unstaged,
    hsound.held⟩

/-- A pipeline that a transaction does not write for has the same stored as before. -/
theorem sameFor_applyChangesets (hs : s.IsSound owner) (hchanges : AreSound owner changes)
    (hother : ∀ change ∈ changes, other ≠ change.rowid)
    (h : s.applyChangesets snapshot changes = .ok v) : SameFor owner other (.empty, s) v := by
  obtain ⟨written, hwritten, h⟩ := exists_of_bind_eq_ok h
  cases h
  have hsame : SameFor owner other (.empty, s) written :=
    sameFor_writeChanges hs hchanges hother hwritten
  exact ⟨hsame.operationsAt, hsame.holds, hsame.assigned⟩

/-- A pipeline that a transaction writes for has stored what its own writes make of what
it had, and the holds of removed operations are gone. -/
theorem own_applyChangesets (hs : s.IsSound owner) (hchanges : AreSound owner changes)
    (hdistinct : (changes.map (·.rowid)).Nodup) {change : PipelineChangeset}
    (hmem : change ∈ changes) (hlast : InsertsLast change.writes)
    (h : s.applyChangesets snapshot changes = .ok v) :
    (∀ snapshot, v.2.operationsAt change.rowid snapshot =
      (s.operationsAt change.rowid snapshot).filterMap (RowWrite.editAll change.writes) ++
        (change.writes.flatMap (RowWrite.inserted v.1)).filter (·.snapshot == snapshot)) ∧
    ∀ id, owner id = change.rowid → v.2.holds.ofOperation id =
      if .delete id ∈ change.writes then .empty else s.holds.ofOperation id := by
  obtain ⟨written, hwritten, h⟩ := exists_of_bind_eq_ok h
  cases h
  obtain ⟨before, after, hbefore, hown, hafter⟩ :=
    exists_own_writes hs hchanges hdistinct hmem hwritten
  have hnumbers : ∀ w ∈ change.writes, w.inserted after.1 = w.inserted written.1 := by
    intro w hw
    have howned := (hchanges change hmem w hw).owned
    cases w with
    | insert op => rw [RowWrite.inserted, RowWrite.inserted, hafter.assigned op.id howned]
    | modify m => rfl
    | status id next => rfl
    | delete id => rfl
  constructor
  · intro snapshot
    have hwrites := operationsAt_writes hlast hown snapshot
    rw [hbefore.operationsAt, List.flatMap_congr hnumbers] at hwrites
    exact (hafter.operationsAt snapshot).trans hwrites
  · intro id hid
    have hwrites := ofOperation_writes hown id
    rw [hbefore.holds id hid] at hwrites
    exact (hafter.holds id hid).trans hwrites

end Changes

end MemoryStore

end OperationQueue
