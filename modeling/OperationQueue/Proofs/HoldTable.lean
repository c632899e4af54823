/-
# Holds of one operation and of all others

Every change of a table of holds is about one operation. It gives that operation the
holds it says, and leaves those of every other operation as they were.
-/
import OperationQueue.HoldTable
import OperationQueue.Proofs.OrderedMap

namespace OperationQueue

namespace HoldTable

variable {table : HoldTable} {id other : Identity}

theorem eq_empty_of_isEmpty {holds : Holds} (h : holds.isEmpty = true) : holds = .empty :=
  OrderedMap.ext (List.isEmpty_iff.1 h)

/-- After a replacement the operation has an entry exactly if it has holds. -/
theorem get?_replace_self (holds : Holds) :
    (table.replace id holds).byOperation.get? id = if holds.isEmpty then none else some holds := by
  rw [replace]
  split <;> simp

theorem get?_replace_of_ne (h : other ≠ id) (holds : Holds) :
    (table.replace id holds).byOperation.get? other = table.byOperation.get? other := by
  rw [replace]
  split
  · exact OrderedMap.get?_erase_of_ne _ h
  · exact OrderedMap.get?_insert_of_ne _ h _

@[simp]
theorem ofOperation_replace_self (holds : Holds) :
    (table.replace id holds).ofOperation id = holds := by
  rw [ofOperation, get?_replace_self]
  split
  · next hempty => exact (eq_empty_of_isEmpty hempty).symm
  · rfl

theorem ofOperation_replace_of_ne (h : other ≠ id) (holds : Holds) :
    (table.replace id holds).ofOperation other = table.ofOperation other := by
  rw [ofOperation, get?_replace_of_ne h, ofOperation]

theorem remove_eq_replace : table.remove id = table.replace id .empty := rfl

@[simp]
theorem ofOperation_remove_self : (table.remove id).ofOperation id = .empty :=
  ofOperation_replace_self .empty

theorem ofOperation_remove_of_ne (h : other ≠ id) :
    (table.remove id).ofOperation other = table.ofOperation other :=
  ofOperation_replace_of_ne h .empty

/-- After removing several operations exactly the others keep their entries. -/
theorem get?_foldl_remove (removed : List Identity) :
    (removed.foldl remove table).byOperation.get? id =
      if id ∈ removed then none else table.byOperation.get? id := by
  induction removed generalizing table with
  | nil => simp
  | cons first rest ih =>
      rw [List.foldl_cons, ih]
      by_cases hfirst : id = first
      · subst hfirst
        simp [remove_eq_replace, get?_replace_self, OrderedMap.isEmpty, OrderedMap.empty]
      · simp [remove_eq_replace, get?_replace_of_ne hfirst, hfirst]

theorem ofOperation_foldl_remove (removed : List Identity) :
    (removed.foldl remove table).ofOperation id =
      if id ∈ removed then .empty else table.ofOperation id := by
  rw [ofOperation, get?_foldl_remove, ofOperation]
  split <;> rfl

/-- Setting a date gives the operation holds that differ under that context alone. -/
theorem exists_set_eq_replace (table : HoldTable) (id : Identity) (context : String)
    (date : Option Instant) :
    ∃ holds : Holds, table.set id context date = table.replace id holds ∧
      holds.get? context = date ∧
        ∀ other, other ≠ context → holds.get? other = table.get? id other := by
  cases date with
  | none =>
      exact ⟨_, rfl, OrderedMap.get?_erase_self _ _, fun _ hother =>
        OrderedMap.get?_erase_of_ne _ hother⟩
  | some date =>
      exact ⟨_, rfl, OrderedMap.get?_insert_self _ _ _, fun _ hother =>
        OrderedMap.get?_insert_of_ne _ hother date⟩

/-- Setting a date that is set already changes nothing. -/
theorem ofOperation_set_of_not_changes {context : String} {date : Option Instant}
    (h : table.changes id context date = false) :
    (table.set id context date).ofOperation id = table.ofOperation id := by
  have hdate : table.get? id context = date := by simpa [changes] using h
  obtain ⟨holds, hset, hself, hothers⟩ := table.exists_set_eq_replace id context date
  rw [hset, ofOperation_replace_self]
  apply OrderedMap.ext_get?
  intro other
  by_cases hother : other = context
  · rw [hother, hself, ← hdate, HoldTable.get?]
  · exact hothers other hother

theorem ofOperation_set_of_ne (h : other ≠ id) (context : String) (date : Option Instant) :
    (table.set id context date).ofOperation other = table.ofOperation other :=
  ofOperation_replace_of_ne h _

end HoldTable

end OperationQueue
