/-
# What a commit takes from the copies handed to it

Whoever stages a change hands over a whole operation, and the copy may be old. The commit keeps
the copy as it is, with its status, its snapshot and its row number. Here all this is taken off:
a bare modification is left with what a modification is about, and a bare new operation has no
number. Staging bare requests in a bare commit gives what the staged commit is when bare, and no
check and no row write of a commit is about anything else.
-/
import OperationQueue.Proofs.Commit.Changeset
import OperationQueue.Transaction

namespace OperationQueue

namespace Operation

/-- What a modification takes from the operation that is handed over. -/
def content (op : Operation) : Operation :=
  { new op.id with dependencies := op.dependencies, priority := op.priority, payload := op.payload }

/-- An operation without what a modification changes. -/
def withoutContent (op : Operation) : Operation :=
  { op with dependencies := .empty, priority := 0, payload := [] }

/-- An operation without its status. -/
def withoutStatus (op : Operation) : Operation := { op with status := .pending }

/-- An operation without its row number. -/
def unnumbered (op : Operation) : Operation := { op with rowid := none }

/-- An operation without a status that waits to take effect. -/
def unstaged (op : Operation) : Operation := { op with staged := none }

@[simp]
theorem id_content (op : Operation) : op.content.id = op.id := rfl

@[simp]
theorem id_unnumbered (op : Operation) : op.unnumbered.id = op.id := rfl

/-- An operation that has its number takes nothing but the content of another one over. -/
theorem mergeModification_content {op : Operation} (h : op.rowid.isSome) (other : Operation) :
    op.mergeModification other.content = op.mergeModification other := by
  obtain ⟨rowid, hrowid⟩ := Option.isSome_iff_exists.1 h
  rw [mergeModification, mergeModification, hrowid]
  rfl

end Operation

namespace Dependencies

/-- Who waits for whom is a matter of contents. -/
theorem ofOperations_map_content (finishing : Identity → Bool) (ops : List Operation) :
    ofOperations finishing (ops.map Operation.content) = ofOperations finishing ops := by
  rw [ofOperations, ofOperations, List.filter_map]
  simp only [List.flatMap_map]
  rfl

end Dependencies

/-- A staging request that hands over no more than it is about. -/
def Staging.bare : Staging Operation → Staging Operation
  | .add op => .add op.unnumbered
  | .insert op snapshot => .insert op.unnumbered snapshot
  | .modify op => .modify op.content
  | .status id next => .status id next

/-- A row write that hands over no more than it is about. -/
def RowWrite.bare : RowWrite → RowWrite
  | .insert op => .insert op.unnumbered
  | .modify op => .modify op.content
  | .status id next => .status id next
  | .delete id => .delete id

namespace Commit

/-- A commit without the row numbers of its new operations, and with the contents of its
modifications only. -/
def bare (c : Commit) : Commit := c.mapOperations Operation.unnumbered Operation.content

variable {c : Commit}

theorem newOperations_bare (c : Commit) :
    c.bare.newOperations = c.newOperations.map Operation.unnumbered :=
  c.newOperations_mapOperations _ _

theorem isNew_bare (c : Commit) : c.bare.isNew = c.isNew :=
  c.isNew_mapOperations Operation.id_unnumbered _

theorem occurs_modified_bare (c : Commit) (id : Identity) :
    Operation.occurs id c.bare.modified = Operation.occurs id c.modified :=
  Operation.occurs_map Operation.id_content id c.modified

theorem isEmpty_bare (c : Commit) : c.bare.isEmpty = c.isEmpty := by
  simp [isEmpty, bare, mapOperations, OrderedMap.isEmpty]

/-! ## Staging -/

theorem bare_add (c : Commit) (op : Operation) : (c.add op).bare = c.bare.add op.unnumbered := by
  simp only [bare, mapOperations, add, List.map_append, List.map_singleton]
  rfl

theorem bare_insert (c : Commit) (op : Operation) (snapshot : Snapshot) :
    (c.insert op snapshot).bare = c.bare.insert op.unnumbered snapshot := by
  have hgraph : ((c.inserted.get? snapshot).getD [] ++ [c.prepare op snapshot]).map
      Operation.unnumbered =
        (c.bare.inserted.get? snapshot).getD [] ++ [c.bare.prepare op.unnumbered snapshot] := by
    rw [List.map_append, bare, mapOperations, OrderedMap.get?_map]
    cases c.inserted.get? snapshot <;> rfl
  simp only [insert, ← hgraph]
  simp only [bare, mapOperations, OrderedMap.map_insert]
  rfl

/-- A change of a new operation that does not depend on the row number may be made before or
after the number is taken off. -/
theorem updateNew?_bare {f f' : Operation → Operation}
    (hf : ∀ op, (f op).unnumbered = f' op.unnumbered) (c : Commit) (id : Identity) :
    c.bare.updateNew? id f' = (c.updateNew? id f).map bare := by
  have hid := Operation.id_unnumbered
  have hadded : Operation.occurs id c.bare.added = Operation.occurs id c.added :=
    Operation.occurs_map hid id c.added
  rw [updateNew?, updateNew?, hadded]
  by_cases hoccurs : Operation.occurs id c.added = true
  · rw [if_pos hoccurs, if_pos hoccurs, Option.map_some]
    simp only [bare, mapOperations, Operation.map_updateFirst hid f f' hf]
  · rw [if_neg hoccurs, if_neg hoccurs]
    simp only [bare, mapOperations, OrderedMap.find?_map, Operation.occurs_map hid, Option.map_map]
    apply Option.map_congr
    intro e _
    simp only [Function.comp_apply, bare, mapOperations, OrderedMap.map_insert,
      Operation.map_updateFirst hid f f' hf]

/-- How a modification takes the place of an operation that is new in the commit. -/
def replacing (op old : Operation) : Operation :=
  { op with snapshot := old.snapshot, status := .pending, staged := old.staged }

/-- Let a modification take the place of an earlier one, or come behind all others. -/
def withModification (c : Commit) (m : Operation) : Commit :=
  { c with
    modified :=
      if Operation.occurs m.id c.modified then Operation.updateFirst m.id (fun _ => m) c.modified
      else c.modified ++ [m] }

theorem modify_eq (c : Commit) (op : Operation) :
    c.modify op = (c.updateNew? op.id (replacing op)).getD
      (c.withModification op.unstaged) := by
  have hreplacing : replacing op = fun old =>
      { op with snapshot := old.snapshot, status := .pending, staged := old.staged } := rfl
  rw [modify, hreplacing]
  dsimp only
  cases c.updateNew? op.id fun old =>
    { op with snapshot := old.snapshot, status := .pending, staged := old.staged } <;> rfl

theorem bare_withModification (c : Commit) (m : Operation) :
    (c.withModification m).bare = c.bare.withModification m.content := by
  simp only [withModification, Operation.id_content, occurs_modified_bare]
  by_cases hoccurs : Operation.occurs m.id c.modified = true
  · simp only [hoccurs, if_true, bare, mapOperations]
    rw [Operation.map_updateFirst Operation.id_content (fun _ => m) (fun _ => m.content)
      fun _ => rfl]
  · simp only [hoccurs, bare, mapOperations]
    rw [if_neg Bool.false_ne_true, if_neg Bool.false_ne_true, List.map_append]
    rfl

theorem bare_modify (c : Commit) (op : Operation) :
    (c.modify op).bare = c.bare.modify op.content := by
  have hreplacing (old : Operation) :
      (replacing op old).unnumbered = replacing op.content old.unnumbered := rfl
  have hmodified : c.bare.withModification op.content.unstaged =
      (c.withModification op.unstaged).bare :=
    (bare_withModification c op.unstaged).symm
  rw [modify_eq, modify_eq, Operation.id_content, updateNew?_bare hreplacing, hmodified,
    Option.getD_map]

theorem bare_setStatus (c : Commit) (id : Identity) (next : Status) :
    (c.setStatus id next).bare = c.bare.setStatus id next := by
  have hstaged (op : Operation) : ({ op with staged := some next } : Operation).unnumbered =
      { op.unnumbered with staged := some next } := rfl
  rw [setStatus, setStatus, updateNew?_bare hstaged]
  cases c.updateNew? id fun op => { op with staged := some next } <;> rfl

/-- Staging looks at nothing that is taken off. -/
theorem bare_stage (c : Commit) (item : Staging Operation) :
    (c.stage item).bare = c.bare.stage item.bare := by
  cases item with
  | add op => exact bare_add c op
  | insert op snapshot => exact bare_insert c op snapshot
  | modify op => exact bare_modify c op
  | status id next => exact bare_setStatus c id next

theorem bare_stamp (c : Commit) (snapshot : Snapshot) :
    (c.stamp snapshot).bare = c.bare.stamp snapshot := by
  simp only [bare, mapOperations, stamp, List.map_map]
  rfl

/-! ## Checks -/

theorem finishes_bare (c : Commit) : c.bare.finishes = c.finishes := by
  funext id
  rw [finishes, finishes, newOperations_bare, List.any_map]
  rfl

/-- The search of the check goes through the same contents. -/
theorem cycleMember?_bare (c : Commit) (queued : List Operation) :
    c.bare.cycleMember? queued = c.cycleMember? queued := by
  have hcontents : (c.bare.resulting queued).map Operation.content =
      (c.resulting queued).map Operation.content := by
    have hcontents : c.bare.modified.map Operation.content = c.modified.map Operation.content := by
      rw [bare, mapOperations, List.map_map]
      rfl
    rw [resulting, resulting, newOperations_bare]
    simp only [occurs_modified_bare, List.map_append, hcontents, List.map_map]
    rfl
  rw [cycleMember?, cycleMember?, finishes_bare, ← Dependencies.ofOperations_map_content, hcontents,
    Dependencies.ofOperations_map_content]

theorem checkAgainst_bare (c : Commit) (queued : List Operation) :
    c.bare.checkAgainst queued = c.checkAgainst queued := by
  rw [checkAgainst, checkAgainst, cycleMember?_bare]
  rfl

/-! ## Row writes -/

theorem changeset_bare (c : Commit) : c.bare.changeset = c.changeset.map RowWrite.bare := by
  have hstatus (e : Identity × Status) : (statusWrite e.1 e.2).bare = statusWrite e.1 e.2 := by
    rw [statusWrite]
    split <;> rfl
  have hwrites : c.bare.writesModification ∘ Operation.content = c.writesModification := by
    funext op
    simp only [Function.comp_apply, writesModification, isNew_bare]
    rfl
  have hmodified : c.bare.modified = c.modified.map Operation.content := rfl
  have hstatuses : c.bare.statuses = c.statuses := rfl
  rw [changeset, changeset, newOperations_bare, hmodified, hstatuses]
  simp only [List.map_append, List.filter_map, List.map_map, hwrites, Function.comp_def, hstatus]
  rfl

end Commit

namespace Transaction

/-- A transaction of bare commits. -/
def bare (tx : Transaction) : Transaction := ⟨tx.commits.map fun _ c => c.bare⟩

theorem commit_bare (tx : Transaction) (pipeline : String) :
    tx.bare.commit pipeline = (tx.commit pipeline).bare := by
  rw [commit, commit, bare, OrderedMap.get?_map]
  cases tx.commits.get? pipeline <;> rfl

theorem bare_touch (tx : Transaction) (pipeline : String) :
    (tx.touch pipeline).bare = tx.bare.touch pipeline := by
  rw [touch, touch, commit_bare]
  exact congrArg Transaction.mk (OrderedMap.map_insert _ _ _ _)

theorem bare_stage (tx : Transaction) (pipeline : String) (item : Staging Operation) :
    (tx.stage pipeline item).bare = tx.bare.stage pipeline item.bare := by
  rw [stage, stage, commit_bare, ← Commit.bare_stage]
  exact congrArg Transaction.mk (OrderedMap.map_insert _ _ _ _)

theorem isEmpty_bare (tx : Transaction) : tx.bare.isEmpty = tx.isEmpty := by
  simp [isEmpty, bare, Function.comp_def, Commit.isEmpty_bare]

/-- A bare transaction is refused where the transaction is, and is finished into bare commits. -/
theorem finish_bare (tx : Transaction) (snapshot : Snapshot) :
    tx.bare.finish snapshot =
      (tx.finish snapshot).map fun commits => commits.map fun _ c => c.bare := by
  have hcheck (c : Commit) : c.bare.check = c.check := c.checkAgainst_bare []
  have hchecked : tx.bare.commits.values.forM Commit.check = tx.commits.values.forM Commit.check := by
    rw [bare, OrderedMap.values_map, List.forM_eq_forM, List.forM_map]
    simp only [hcheck]
  have hkept : (tx.bare.commits.filter fun _ c => !c.isEmpty).map (fun _ c => c.stamp snapshot) =
      ((tx.commits.filter fun _ c => !c.isEmpty).map fun _ c => c.stamp snapshot).map
        fun _ c => c.bare := by
    apply OrderedMap.ext
    simp only [bare, OrderedMap.entries_map, OrderedMap.entries_filter, List.filter_map,
      List.map_map, Function.comp_def, Commit.isEmpty_bare, Commit.bare_stamp]
  rw [finish, finish, hchecked, hkept]
  cases tx.commits.values.forM Commit.check <;> rfl

end Transaction

end OperationQueue
