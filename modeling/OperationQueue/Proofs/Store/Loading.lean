/-
# What a pipeline reads back

A store gives the operations of a pipeline by snapshot, and within a snapshot in the order
of writing; a queue lists its operations graph by graph. So to compare the two, it is
enough to compare what they have at each snapshot.
-/
import Mathlib.Data.List.Forall2
import OperationQueue.Pipeline.Restoring
import OperationQueue.Proofs.Pipeline.Settled
import OperationQueue.Proofs.Store.Memory

namespace OperationQueue

/-! ## Sorted lists -/

section Sorting

variable {α κ : Type} [BEq κ] [LawfulBEq κ] {le : κ → κ → Bool} (key : α → κ)

/-- A sort by keys leaves entries of one key in their order. -/
theorem filter_mergeSort_by_key (trans : ∀ a b c, le a b → le b c → le a c)
    (total : ∀ a b, le a b || le b a) (xs : List α) (k : κ) :
    (xs.mergeSort fun a b => le (key a) (key b)).filter (key · == k) =
      xs.filter (key · == k) := by
  have hequal : (xs.filter (key · == k)).Pairwise fun a b => le (key a) (key b) = true := by
    apply List.pairwise_of_forall_mem_list
    intro a ha b hb
    have hka : key a = k := by simpa using (List.mem_filter.1 ha).2
    have hkb : key b = k := by simpa using (List.mem_filter.1 hb).2
    simpa [hka, hkb] using total k k
  have hsublist : (xs.filter (key · == k)).Sublist (xs.mergeSort fun a b => le (key a) (key b)) :=
    List.sublist_mergeSort (fun a b c => trans (key a) (key b) (key c))
      (fun a b => total (key a) (key b)) hequal List.filter_sublist
  have hfiltered := hsublist.filter (key · == k)
  rw [List.filter_filter] at hfiltered
  simp only [Bool.and_self] at hfiltered
  have hlength := ((List.mergeSort_perm xs fun a b => le (key a) (key b)).filter
    (key · == k)).length_eq
  exact (hfiltered.eq_of_length hlength.symm).symm

/-- A sort by keys puts the entries in the order of their keys, and those of one key stay in the
order in which they were. -/
theorem pairwise_mergeSort_by_key {R : α → α → Prop}
    (trans : ∀ a b c, le a b → le b c → le a c) (total : ∀ a b, le a b || le b a) {xs : List α}
    (h : xs.Pairwise R) :
    (xs.mergeSort fun a b => le (key a) (key b)).Pairwise fun a b =>
      le (key a) (key b) = true ∧ (key a = key b → R a b) := by
  have hsorted : (xs.mergeSort fun a b => le (key a) (key b)).Pairwise
      fun a b => le (key a) (key b) = true :=
    List.pairwise_mergeSort (fun a b c => trans (key a) (key b) (key c))
      (fun a b => total (key a) (key b)) xs
  refine hsorted.and (List.pairwise_iff_forall_sublist.2 fun {a b} hsublist heq => ?_)
  have hboth : [a, b].filter (key · == key b) = [a, b] := by simp [heq]
  have hfiltered := hsublist.filter (key · == key b)
  rw [hboth, filter_mergeSort_by_key key trans total] at hfiltered
  exact List.pairwise_iff_forall_sublist.1 h (hfiltered.trans List.filter_sublist)

end Sorting

/-! ## Lists by snapshot -/

section BySnapshot

variable {α β : Type} {key : α → Snapshot} {key' : β → Snapshot}

theorem decide_le_trans (a b c : Snapshot) (hab : decide (a ≤ b) = true)
    (hbc : decide (b ≤ c) = true) : decide (a ≤ c) = true :=
  decide_eq_true (UInt64.le_trans (of_decide_eq_true hab) (of_decide_eq_true hbc))

theorem decide_le_total (a b : Snapshot) : (decide (a ≤ b) || decide (b ≤ a)) = true := by
  simpa using UInt64.le_total a b

theorem pairwise_mergeSort_by_snapshot (key : α → Snapshot) (xs : List α) :
    (xs.mergeSort fun a b => decide (key a ≤ key b)).Pairwise fun a b => key a ≤ key b :=
  (List.pairwise_mergeSort (fun a b c => decide_le_trans (key a) (key b) (key c))
    (fun a b => decide_le_total (key a) (key b)) xs).imp of_decide_eq_true

/-- A sort by snapshots leaves entries of one snapshot in their order. -/
theorem filter_mergeSort_by_snapshot (key : α → Snapshot) (xs : List α) (snapshot : Snapshot) :
    (xs.mergeSort fun a b => decide (key a ≤ key b)).filter (key · == snapshot) =
      xs.filter (key · == snapshot) :=
  filter_mergeSort_by_key key decide_le_trans decide_le_total xs snapshot

/-- Lists that correspond at each snapshot have entries at the same ones. -/
private theorem exists_snapshot_iff {r : α → β → Prop} {xs : List α} {ys : List β}
    (h : ∀ snapshot, List.Forall₂ r (xs.filter (key · == snapshot))
      (ys.filter (key' · == snapshot))) (snapshot : Snapshot) :
    (∃ x ∈ xs, key x = snapshot) ↔ ∃ y ∈ ys, key' y = snapshot := by
  have hlength := (h snapshot).length_eq
  have hx : (∃ x ∈ xs, key x = snapshot) ↔ 0 < (xs.filter (key · == snapshot)).length := by
    simp [List.length_pos_iff_exists_mem]
  have hy : (∃ y ∈ ys, key' y = snapshot) ↔ 0 < (ys.filter (key' · == snapshot)).length := by
    simp [List.length_pos_iff_exists_mem]
  rw [hx, hy, hlength]

/-- Lists in the order of snapshots begin with the smallest one that occurs. -/
private theorem snapshot_head_eq {x : α} {xs : List α} {y : β} {ys : List β}
    (hx : ∀ a ∈ xs, key x ≤ key a) (hy : ∀ b ∈ ys, key' y ≤ key' b)
    (hmem : ∀ snapshot, (∃ a ∈ x :: xs, key a = snapshot) ↔ ∃ b ∈ y :: ys, key' b = snapshot) :
    key x = key' y := by
  obtain ⟨b, hb, hkeyb⟩ := (hmem (key x)).1 ⟨x, List.mem_cons_self, rfl⟩
  obtain ⟨a, ha, hkeya⟩ := (hmem (key' y)).2 ⟨y, List.mem_cons_self, rfl⟩
  apply UInt64.le_antisymm
  · rw [← hkeya]
    rcases List.mem_cons.1 ha with rfl | ha
    · exact UInt64.le_refl _
    · exact hx a ha
  · rw [← hkeyb]
    rcases List.mem_cons.1 hb with rfl | hb
    · exact UInt64.le_refl _
    · exact hy b hb

/-- Two lists in the order of snapshots correspond if they do at each snapshot. -/
theorem forall₂_of_filter_snapshot {r : α → β → Prop} {xs : List α} {ys : List β}
    (hxs : xs.Pairwise fun a b => key a ≤ key b) (hys : ys.Pairwise fun a b => key' a ≤ key' b)
    (h : ∀ snapshot, List.Forall₂ r (xs.filter (key · == snapshot))
      (ys.filter (key' · == snapshot))) : List.Forall₂ r xs ys := by
  have hmem := exists_snapshot_iff h
  induction xs generalizing ys with
  | nil =>
      cases ys with
      | nil => exact .nil
      | cons y ys =>
          obtain ⟨x, hx, -⟩ := (hmem (key' y)).2 ⟨y, List.mem_cons_self, rfl⟩
          cases hx
  | cons x xs ih =>
      obtain ⟨hfirst, hrest⟩ := List.pairwise_cons.1 hxs
      cases ys with
      | nil =>
          obtain ⟨y, hy, -⟩ := (hmem (key x)).1 ⟨x, List.mem_cons_self, rfl⟩
          cases hy
      | cons y ys =>
          obtain ⟨hfirst', hrest'⟩ := List.pairwise_cons.1 hys
          have hkey : key x = key' y := snapshot_head_eq hfirst hfirst' hmem
          have hhead := h (key x)
          rw [List.filter_cons_of_pos (by simp), List.filter_cons_of_pos (by simp [hkey])] at hhead
          obtain ⟨hr, htail⟩ := List.forall₂_cons.1 hhead
          have hlater : ∀ snapshot, List.Forall₂ r (xs.filter (key · == snapshot))
              (ys.filter (key' · == snapshot)) := by
            intro snapshot
            by_cases hsnapshot : key x = snapshot
            · rw [← hsnapshot]
              exact htail
            · have hboth := h snapshot
              rwa [List.filter_cons_of_neg (by simpa using hsnapshot),
                List.filter_cons_of_neg (by simpa [← hkey] using hsnapshot)] at hboth
          exact .cons hr (ih hrest hrest' hlater (exists_snapshot_iff hlater))

end BySnapshot

/-! ## The two lists -/

namespace MemoryStore

variable {s : MemoryStore} {pipeline : Int}

theorem pairwise_load (s : MemoryStore) (pipeline : Int) :
    (s.load pipeline).Pairwise fun a b => a.operation.snapshot ≤ b.operation.snapshot := by
  rw [load, List.pairwise_map]
  exact pairwise_mergeSort_by_snapshot (fun row : MemoryRow => row.operation.snapshot) _

theorem filter_load (s : MemoryStore) (pipeline : Int) (snapshot : Snapshot) :
    (s.load pipeline).filter (·.operation.snapshot == snapshot) =
      (s.operationsAt pipeline snapshot).map fun op => ⟨op, s.holds.ofOperation op.id⟩ := by
  have hrows := filter_mergeSort_by_snapshot (fun row : MemoryRow => row.operation.snapshot)
    (s.rows.filter (·.pipeline == pipeline)) snapshot
  rw [load, List.filter_map, operationsAt, List.map_map]
  have hfilter : (fun r : StoredOperation => r.operation.snapshot == snapshot) ∘
      (fun row : MemoryRow => ⟨row.operation, s.holds.ofOperation row.operation.id⟩) =
        fun row => row.operation.snapshot == snapshot := rfl
  rw [hfilter, hrows, List.filter_filter]
  have hcomm : (fun row : MemoryRow => (row.operation.snapshot == snapshot) &&
      (row.pipeline == pipeline)) =
        fun row => (row.pipeline == pipeline) && (row.operation.snapshot == snapshot) := by
    funext row
    exact Bool.and_comm _ _
  rw [hcomm]
  rfl

theorem mem_load_iff {r : StoredOperation} :
    r ∈ s.load pipeline ↔ ∃ row ∈ s.rows, row.pipeline = pipeline ∧
      r = ⟨row.operation, s.holds.ofOperation row.operation.id⟩ := by
  simp only [load, List.mem_map, List.mem_mergeSort, List.mem_filter, beq_iff_eq, and_assoc]
  constructor
  · rintro ⟨row, hrow, hpipeline, rfl⟩
    exact ⟨row, hrow, hpipeline, rfl⟩
  · rintro ⟨row, hrow, hpipeline, rfl⟩
    exact ⟨row, hrow, hpipeline, rfl⟩

/-- No operation is read back twice. -/
theorem IsSound.nodup_load {owner : Identity → Int} (h : s.IsSound owner) (pipeline : Int) :
    ((s.load pipeline).map (·.operation.id)).Nodup := by
  have hids : (s.load pipeline).map (·.operation.id) =
      ((s.rows.filter (·.pipeline == pipeline)).mergeSort fun a b =>
        a.operation.snapshot ≤ b.operation.snapshot).map (·.operation.id) := by
    rw [load, List.map_map]
    rfl
  rw [hids, ((List.mergeSort_perm _ _).map _).nodup_iff]
  exact (List.filter_sublist.map _).nodup h.nodup

end MemoryStore

namespace Pipeline

variable {p : Pipeline}

theorem pairwise_stored (h : p.IsFiled) :
    p.stored.Pairwise fun a b => a.operation.snapshot ≤ b.operation.snapshot := by
  have hkeys : p.graphs.keys.Pairwise (· < ·) :=
    List.pairwise_map.2 (p.graphs.ascending.imp Std.compare_eq_lt.1)
  rw [stored, List.pairwise_map, operations_eq_flatMap, List.pairwise_flatMap]
  constructor
  · intro snapshot _
    apply List.pairwise_of_forall_mem_list
    intro a ha b hb
    rw [h.snapshot_operation ha, h.snapshot_operation hb]
    exact UInt64.le_refl _
  · refine hkeys.imp fun {s t} hlt a ha b hb => ?_
    rw [h.snapshot_operation ha, h.snapshot_operation hb]
    exact UInt64.le_of_lt hlt

/-- The graph of a snapshot holds the queued operations of that snapshot. -/
theorem filter_operations (h : p.IsFiled) (snapshot : Snapshot) :
    p.operations.filter (·.snapshot == snapshot) = p.operationsAt snapshot := by
  have hkeys (keys : List Snapshot) (hnodup : keys.Nodup) :
      (keys.flatMap p.operationsAt).filter (·.snapshot == snapshot) =
        if snapshot ∈ keys then p.operationsAt snapshot else [] := by
    induction keys with
    | nil => rfl
    | cons key rest ih =>
        rw [List.nodup_cons] at hnodup
        rw [List.flatMap_cons, List.filter_append, ih hnodup.2]
        by_cases hkey : key = snapshot
        · subst hkey
          have hall : (p.operationsAt key).filter (·.snapshot == key) = p.operationsAt key :=
            List.filter_eq_self.2 fun op hop => by simp [h.snapshot_operation hop]
          simp [hall, hnodup.1]
        · have hnone : (p.operationsAt key).filter (·.snapshot == snapshot) = [] :=
            List.filter_eq_nil_iff.2 fun op hop => by simp [h.snapshot_operation hop, hkey]
          simp [hnone, Ne.symm hkey]
  rw [operations_eq_flatMap, hkeys _ p.graphs.nodup_keys]
  by_cases hsnapshot : snapshot ∈ p.graphs.keys
  · rw [if_pos hsnapshot]
  · rw [if_neg hsnapshot, operationsAt, OrderedMap.get?_eq_none_iff.2 hsnapshot]
    rfl

theorem filter_stored (h : p.IsFiled) (snapshot : Snapshot) :
    p.stored.filter (·.operation.snapshot == snapshot) =
      (p.operationsAt snapshot).map fun op => ⟨op, p.holds.ofOperation op.id⟩ := by
  rw [← filter_operations h, stored, List.filter_map]
  rfl

end Pipeline

end OperationQueue
