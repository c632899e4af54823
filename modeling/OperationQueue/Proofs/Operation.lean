/-
# Operations that can be made

Every part of an operation can be set to any value, except that its dependencies never take in
its own identity. So the operations that somebody can have are those that do not wait for
themselves, and whatever is done to such an operation gives one again.
-/
import OperationQueue.Operation
import OperationQueue.Proofs.OrderedMap

namespace OperationQueue

namespace Operation

variable {op : Operation}

/-- An operation that somebody can have: it was made new, and its parts were set. -/
inductive Made : Operation → Prop
  | new (id : Identity) : Made (.new id)
  | addDependency {op : Operation} (made : Made op) (dep : Identity) : Made (op.addDependency dep)
  | removeDependency {op : Operation} (made : Made op) (dep : Identity) :
      Made (op.removeDependency dep)
  | setDependencies {op : Operation} (made : Made op) (deps : List Identity) :
      Made (op.setDependencies deps)
  | fill {op : Operation} (made : Made op) (rowid : Option Int) (snapshot : Snapshot)
      (status : Status) (staged : Option Status) (priority : Int) (payload : List UInt8) :
      Made { op with rowid, snapshot, status, staged, priority, payload }

theorem Made.not_self (h : op.Made) : op.id ∉ op.dependencies.toList := by
  induction h with
  | new id => exact List.not_mem_nil
  | @addDependency op _ dep ih =>
      rw [Operation.addDependency]
      split
      · exact ih
      · next hne =>
        rw [OrderedSet.mem_add, not_or]
        exact ⟨Ne.symm hne, ih⟩
  | removeDependency _ dep ih =>
      intro hmem
      exact ih (OrderedSet.mem_erase.1 hmem).2
  | @setDependencies op _ deps _ =>
      intro hmem
      have hkept := List.mem_filter.1 (OrderedSet.mem_ofMembers.1 hmem)
      exact of_decide_eq_true hkept.2 rfl
  | fill _ rowid snapshot status staged priority payload ih => exact ih

/-- An operation that does not wait for itself can be given its dependencies one by one. -/
theorem setDependencies_toList {dependencies : OrderedSet Identity} (h : op.id ∉ dependencies.toList) :
    op.setDependencies dependencies.toList = { op with dependencies := dependencies } := by
  have hsame : OrderedSet.ofMembers (dependencies.toList.filter (· ≠ op.id)) = dependencies := by
    apply OrderedSet.ext_mem
    intro dep
    rw [OrderedSet.mem_ofMembers, List.mem_filter, decide_eq_true_iff]
    constructor
    · exact fun hdep => hdep.1
    · intro hdep
      exact ⟨hdep, fun heq => h (heq ▸ hdep)⟩
  rw [setDependencies, hsame]

/-- The operations that can be made are those that do not wait for themselves. -/
theorem made_iff : op.Made ↔ op.id ∉ op.dependencies.toList := by
  constructor
  · exact Made.not_self
  · intro hself
    have hmade := ((Made.new op.id).setDependencies op.dependencies.toList).fill op.rowid
      op.snapshot op.status op.staged op.priority op.payload
    have hnew : (Operation.new op.id).id ∉ op.dependencies.toList := hself
    rw [setDependencies_toList hnew] at hmade
    exact hmade

namespace Made

/-- Setting any part but the dependencies, whatever else happens, keeps an operation made. -/
theorem of_eq {other : Operation} (h : op.Made) (hid : other.id = op.id)
    (hdependencies : other.dependencies = op.dependencies) : other.Made := by
  rw [made_iff, hid, hdependencies]
  exact h.not_self

theorem retainDependencies (h : op.Made) (keep : Identity → Bool) :
    (op.retainDependencies keep).Made := by
  rw [made_iff]
  intro hmem
  obtain ⟨u, hu⟩ := OrderedMap.mem_keys_iff.1 hmem
  rw [Operation.retainDependencies, OrderedMap.get?_filter, Option.filter_eq_some_iff] at hu
  exact h.not_self (OrderedMap.mem_keys_iff.2 ⟨u, hu.1⟩)

theorem edit (h : op.Made) (e : Edit) : (op.edit e).Made := by
  have hset : (e.dependencies.elim { op with priority := e.priority.getD op.priority }
      { op with priority := e.priority.getD op.priority }.setDependencies).Made := by
    have hpriority : { op with priority := e.priority.getD op.priority }.Made := h.of_eq rfl rfl
    cases e.dependencies with
    | none => exact hpriority
    | some deps => exact hpriority.setDependencies deps
  have hadded := List.foldlRecOn e.added Operation.addDependency hset
    fun op hop dep _ => hop.addDependency dep
  have hremoved := List.foldlRecOn e.removed Operation.removeDependency hadded
    fun op hop dep _ => hop.removeDependency dep
  exact hremoved.of_eq rfl rfl

/-- What a draft means can be made if what it writes out can, and everything queued. -/
theorem resolve {draft : Draft} (h : draft.written.Made) {queued : Identity → Option Operation}
    (hqueued : ∀ id op, queued id = some op → op.Made) : (draft.resolve queued).Made := by
  rw [Draft.resolve]
  split
  · next e old _ hold => exact (hqueued _ old hold).edit e
  · exact h

end Made

end Operation

end OperationQueue
