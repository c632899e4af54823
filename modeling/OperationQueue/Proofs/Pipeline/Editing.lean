/-
# What a commit makes of an operation

To one queued operation a commit is a row of modifications and a row of statuses, of
which those with another identity do nothing. Here it is said what an operation carries
after both: its status is the committed one, if there is one, and its dependencies are
its own or those of a modification.
-/
import OperationQueue.Pipeline.Committing
import OperationQueue.Proofs.Pipeline.Settled

namespace OperationQueue

namespace Operation

/-- Take over a modification that carries the identity of the operation. -/
def modifiedBy (knows : Identity → Bool) (op m : Operation) : Operation :=
  if op.id = m.id then op.mergeModification (m.retainDependencies knows) else op

/-- Move to a committed status of the operation where its life cycle allows it. -/
def movedBy (op : Operation) (e : Identity × Status) : Operation :=
  if op.id = e.1 ∧ op.status.canBecome e.2 = true then { op with status := e.2 } else op

/-- The effect of modifications on an operation. -/
def modified (knows : Identity → Bool) (modifications : List Operation) (op : Operation) :
    Operation :=
  modifications.foldl (modifiedBy knows) op

/-- The effect of committed statuses on an operation. -/
def moved (statuses : List (Identity × Status)) (op : Operation) : Operation :=
  statuses.foldl movedBy op

/-- Edits one after the other keep the place of an operation if each of them does. -/
theorem keepsPlace_foldl {α : Type} {f : Operation → α → Operation}
    (h : ∀ a, KeepsPlace fun op => f op a) (items : List α) :
    KeepsPlace fun op => items.foldl f op := by
  induction items with
  | nil => exact ⟨fun _ => rfl, fun _ => rfl, fun _ => rfl⟩
  | cons a rest ih => exact ih.comp (h a)

theorem keepsPlace_modified (knows : Identity → Bool) (modifications : List Operation) :
    KeepsPlace (modified knows modifications) := by
  have hstep (m : Operation) : KeepsPlace fun op => modifiedBy knows op m :=
    (KeepsPlace.modification (m.retainDependencies knows)).ite (·.id = m.id)
  exact keepsPlace_foldl hstep modifications

theorem keepsPlace_moved (statuses : List (Identity × Status)) : KeepsPlace (moved statuses) := by
  have hstep (e : Identity × Status) : KeepsPlace fun op => movedBy op e :=
    (KeepsPlace.status e.2).ite fun op => op.id = e.1 ∧ op.status.canBecome e.2 = true
  exact keepsPlace_foldl hstep statuses

/-! ## Statuses -/

theorem moved_of_notMem {statuses : List (Identity × Status)} {op : Operation}
    (h : op.id ∉ statuses.map (·.1)) : op.moved statuses = op := by
  induction statuses with
  | nil => rfl
  | cons e rest ih =>
      rw [List.map_cons, List.mem_cons, not_or] at h
      have hfirst : op.movedBy e = op := if_neg fun hmoves => h.1 hmoves.1
      rw [moved, List.foldl_cons, hfirst]
      exact ih h.2

theorem moved_of_mem {statuses : List (Identity × Status)} {op : Operation} {next : Status}
    (hnodup : (statuses.map (·.1)).Nodup) (hunfinished : op.isTerminal = false)
    (h : (op.id, next) ∈ statuses) : op.moved statuses = { op with status := next } := by
  induction statuses with
  | nil => cases h
  | cons e rest ih =>
      rw [List.map_cons, List.nodup_cons] at hnodup
      rw [moved, List.foldl_cons]
      rcases List.mem_cons.1 h with rfl | hrest
      · have hallowed : op.status.canBecome next = true := by
          have hstatus : op.status.isTerminal = false := hunfinished
          simp [Status.canBecome, hstatus]
        have hfirst : op.movedBy (op.id, next) = { op with status := next } :=
          if_pos ⟨rfl, hallowed⟩
        rw [hfirst]
        exact moved_of_notMem hnodup.1
      · have hne : op.id ≠ e.1 := by
          rintro heq
          exact hnodup.1 (heq ▸ List.mem_map_of_mem hrest)
        have hfirst : op.movedBy e = op := if_neg fun hmoves => hne hmoves.1
        rw [hfirst]
        exact ih hnodup.2 hrest

/-- An unfinished operation takes the status that is committed for it. -/
theorem moved_entries (statuses : OrderedMap Identity Status) {op : Operation}
    (h : op.isTerminal = false) :
    op.moved statuses.entries =
      { op with status := (statuses.get? op.id).getD op.status } := by
  cases hstatus : statuses.get? op.id with
  | none => exact moved_of_notMem (OrderedMap.get?_eq_none_iff.1 hstatus)
  | some next =>
      exact moved_of_mem statuses.nodup_keys h (OrderedMap.get?_eq_some_iff.1 hstatus)

@[simp]
theorem dependencies_moved (statuses : List (Identity × Status)) (op : Operation) :
    (op.moved statuses).dependencies = op.dependencies := by
  induction statuses generalizing op with
  | nil => rfl
  | cons e rest ih =>
      have hfirst : (op.movedBy e).dependencies = op.dependencies := by
        rw [movedBy]
        split <;> rfl
      rw [moved, List.foldl_cons]
      exact (ih _).trans hfirst

/-! ## Modifications -/

@[simp]
theorem mem_dependencies_retainDependencies {op : Operation} {keep : Identity → Bool}
    {dep : Identity} :
    dep ∈ (op.retainDependencies keep).dependencies.toList ↔
      dep ∈ op.dependencies.toList ∧ keep dep = true := by
  simp only [retainDependencies, OrderedSet.toList, OrderedMap.mem_keys_iff,
    OrderedMap.get?_filter, Option.filter_eq_some_iff]
  constructor
  · rintro ⟨u, hu, hkeep⟩
    exact ⟨⟨u, hu⟩, hkeep⟩
  · rintro ⟨⟨u, hu⟩, hkeep⟩
    exact ⟨u, hu, hkeep⟩

@[simp]
theorem status_modified (knows : Identity → Bool) (modifications : List Operation) (op : Operation) :
    (op.modified knows modifications).status = op.status := by
  induction modifications generalizing op with
  | nil => rfl
  | cons m rest ih =>
      have hfirst : (modifiedBy knows op m).status = op.status := by
        rw [modifiedBy]
        split <;> rfl
      rw [modified, List.foldl_cons]
      exact (ih _).trans hfirst

theorem isTerminal_modified (knows : Identity → Bool) (modifications : List Operation)
    (op : Operation) : (op.modified knows modifications).isTerminal = op.isTerminal := by
  rw [isTerminal, isTerminal, status_modified]

/-- The dependencies of a modified operation are those of a modification, as far as they
are known; they stay if there is none. -/
theorem dependencies_modified (knows : Identity → Bool) (modifications : List Operation)
    (op : Operation) :
    (∀ m ∈ modifications, m.id ≠ op.id) ∧
        (op.modified knows modifications).dependencies = op.dependencies ∨
      ∃ m ∈ modifications, m.id = op.id ∧
        (op.modified knows modifications).dependencies =
          (m.retainDependencies knows).dependencies := by
  induction modifications generalizing op with
  | nil => exact .inl ⟨fun _ h => (nomatch h), rfl⟩
  | cons m rest ih =>
      have hstep : op.modified knows (m :: rest) = (modifiedBy knows op m).modified knows rest := rfl
      have hid : (modifiedBy knows op m).id = op.id :=
        ((KeepsPlace.modification (m.retainDependencies knows)).ite (·.id = m.id)).id op
      rw [hstep]
      rcases ih (modifiedBy knows op m) with ⟨hnone, hsame⟩ | ⟨later, hlater, hlaterId, hdeps⟩
      · rw [hsame]
        by_cases hm : op.id = m.id
        · refine .inr ⟨m, List.mem_cons_self, hm.symm, ?_⟩
          rw [modifiedBy, if_pos hm]
          rfl
        · refine .inl ⟨fun other hother => ?_, ?_⟩
          · rcases List.mem_cons.1 hother with rfl | hother
            · exact Ne.symm hm
            · exact hid ▸ hnone other hother
          · rw [modifiedBy, if_neg hm]
      · exact .inr ⟨later, List.mem_cons_of_mem _ hlater, hlaterId.trans hid, hdeps⟩

end Operation

end OperationQueue
