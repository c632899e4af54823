/-
# Entries and answers of a finite map

A map is given by its entries, and most statements about it are about what it answers
for a key. The two say the same: a key has a value exactly when the pair is an entry.
From this every operation is described by its answers, and two maps with the same
answers are equal.
-/
import OperationQueue.OrderedMap

namespace OperationQueue

namespace OrderedMap

variable {κ α β : Type} [Ord κ] [Std.LawfulEqOrd κ]

/-- In an ascending list a key comes before the keys of all later entries, so it is
none of them. -/
private theorem ne_of_ascending {key : κ} {value : α} {rest : List (κ × α)}
    (h : Ascending ((key, value) :: rest)) {e : κ × α} (he : e ∈ rest) : e.1 ≠ key := by
  intro heq
  have hlt := (List.pairwise_cons.1 h).1 e he
  simp [heq] at hlt

theorem lookup_eq_some_iff {key : κ} {value : α} {entries : List (κ × α)}
    (h : Ascending entries) : lookup key entries = some value ↔ (key, value) ∈ entries := by
  induction entries with
  | nil => simp [lookup]
  | cons e rest ih =>
      obtain ⟨k, a⟩ := e
      rw [lookup]
      by_cases heq : compare key k = .eq
      · have hk : key = k := Std.LawfulEqCmp.compare_eq_iff_eq.1 heq
        subst hk
        have hrest : (key, value) ∉ rest := fun hmem => ne_of_ascending h hmem rfl
        simp [hrest, eq_comm]
      · have hk : key ≠ k := fun e => heq (Std.LawfulEqCmp.compare_eq_iff_eq.2 e)
        rw [if_neg heq, ih (List.pairwise_cons.1 h).2]
        simp [hk]

/-- A key has a value exactly when the pair is an entry. -/
theorem get?_eq_some_iff {m : OrderedMap κ α} {key : κ} {value : α} :
    m.get? key = some value ↔ (key, value) ∈ m.entries :=
  lookup_eq_some_iff m.ascending

theorem mem_keys_iff {m : OrderedMap κ α} {key : κ} :
    key ∈ m.keys ↔ ∃ value, m.get? key = some value := by
  constructor
  · intro hmem
    obtain ⟨⟨k, value⟩, he, rfl⟩ := List.mem_map.1 hmem
    exact ⟨value, get?_eq_some_iff.2 he⟩
  · rintro ⟨value, hvalue⟩
    exact List.mem_map.2 ⟨(key, value), get?_eq_some_iff.1 hvalue, rfl⟩

theorem get?_eq_none_iff {m : OrderedMap κ α} {key : κ} :
    m.get? key = none ↔ key ∉ m.keys := by
  rw [mem_keys_iff, Option.eq_none_iff_forall_ne_some, not_exists]

theorem mem_values_iff {m : OrderedMap κ α} {value : α} :
    value ∈ m.values ↔ ∃ key, m.get? key = some value := by
  simp [values, get?_eq_some_iff]

/-- No key occurs twice. -/
theorem nodup_keys (m : OrderedMap κ α) : m.keys.Nodup := by
  refine List.pairwise_map.2 (m.ascending.imp ?_)
  intro a b hlt heq
  simp [heq] at hlt

/-! ## Answers after each operation -/

@[simp]
theorem get?_map (m : OrderedMap κ α) (f : κ → α → β) (key : κ) :
    (m.map f).get? key = (m.get? key).map (f key) := by
  ext value
  simp only [get?_eq_some_iff, entries_map, List.mem_map, Option.map_eq_some_iff, Prod.mk.injEq]
  constructor
  · rintro ⟨⟨k, a⟩, he, rfl, rfl⟩
    exact ⟨a, he, rfl⟩
  · rintro ⟨a, he, rfl⟩
    exact ⟨(key, a), he, rfl, rfl⟩

omit [Std.LawfulEqOrd κ] in
@[simp]
theorem values_map (m : OrderedMap κ α) (f : α → β) :
    (m.map fun _ => f).values = m.values.map f := by
  simp [values]

omit [Std.LawfulEqOrd κ] in
theorem find?_map (m : OrderedMap κ α) (f : α → β) (p : κ → β → Bool) :
    (m.map fun _ => f).find? p =
      (m.find? fun key value => p key (f value)).map fun e => (e.1, f e.2) := by
  rw [find?, entries_map, List.find?_map]
  rfl

@[simp]
theorem get?_filter (m : OrderedMap κ α) (keep : κ → α → Bool) (key : κ) :
    (m.filter keep).get? key = (m.get? key).filter (keep key) := by
  ext value
  simp only [get?_eq_some_iff, entries_filter, List.mem_filter, Option.filter_eq_some_iff]

@[simp]
theorem get?_erase_self (m : OrderedMap κ α) (key : κ) : (m.erase key).get? key = none := by
  rw [erase, get?_filter, Option.filter_eq_none_iff]
  simp

theorem get?_erase_of_ne (m : OrderedMap κ α) {key other : κ} (h : other ≠ key) :
    (m.erase key).get? other = m.get? other := by
  rw [erase, get?_filter]
  cases m.get? other <;> simp [h.symm]

/-! ## Maps as their answers -/

variable [Std.TransOrd κ]

theorem mem_keys_insert {m : OrderedMap κ α} {key other : κ} {value : α} :
    other ∈ (m.insert key value).keys ↔ other = key ∨ other ∈ m.keys := by
  rw [mem_keys_iff, mem_keys_iff]
  by_cases hother : other = key
  · simp [hother]
  · simp [hother, get?_insert_of_ne]

omit [Std.LawfulEqOrd κ] in
/-- The order of the keys makes two ascending lists with the same entries equal. -/
private theorem eq_of_mem_iff {a b : OrderedMap κ α} (h : ∀ e, e ∈ a.entries ↔ e ∈ b.entries) :
    a = b := by
  have irrefl (e : κ × α) : compare e.1 e.1 ≠ .lt := by simp
  have nodup (m : OrderedMap κ α) : m.entries.Nodup := by
    apply m.ascending.imp
    rintro x _ hlt rfl
    exact irrefl x hlt
  apply OrderedMap.ext
  refine List.Perm.eq_of_pairwise ?_ a.ascending b.ascending
    ((List.perm_ext_iff_of_nodup (nodup a) (nodup b)).2 h)
  intro x y _ _ hxy hyx
  exact absurd (Std.TransCmp.lt_trans hxy hyx) (irrefl x)

/-- Maps with the same answers are equal. -/
theorem ext_get? {a b : OrderedMap κ α} (h : ∀ key, a.get? key = b.get? key) : a = b := by
  apply eq_of_mem_iff
  rintro ⟨key, value⟩
  rw [← get?_eq_some_iff, ← get?_eq_some_iff, h]

/-- Replacing the values after an insertion is inserting the replaced value. -/
theorem map_insert (m : OrderedMap κ α) (f : κ → α → β) (key : κ) (value : α) :
    (m.insert key value).map f = (m.map f).insert key (f key value) := by
  apply ext_get?
  intro other
  by_cases hother : other = key
  · subst hother
    simp
  · rw [get?_map, get?_insert_of_ne _ hother, get?_insert_of_ne _ hother, get?_map]

/-- An insertion keeps what stands before and after the key, and puts the new entry in
the place of the old one if there was one. -/
theorem exists_entries_insert (m : OrderedMap κ α) (key : κ) (value : α) :
    ∃ before after,
      m.entries = before ++ ((m.get? key).map fun old => (key, old)).toList ++ after ∧
      (m.insert key value).entries = before ++ (key, value) :: after := by
  obtain ⟨entries, h⟩ := m
  simp only [get?, insert]
  induction entries with
  | nil => exact ⟨[], [], rfl, rfl⟩
  | cons e rest ih =>
      obtain ⟨k, a⟩ := e
      have hrest := (List.pairwise_cons.1 h).2
      rw [lookup, insertEntry]
      cases hc : compare key k with
      | lt =>
          have hnone : lookup key rest = none := by
            rw [Option.eq_none_iff_forall_ne_some]
            intro b hb
            have hkb := (List.pairwise_cons.1 h).1 _ ((lookup_eq_some_iff hrest).1 hb)
            have hkk := Std.TransCmp.lt_trans hc hkb
            simp at hkk
          exact ⟨[], (k, a) :: rest, by simp [hnone], by simp⟩
      | eq =>
          have hk : key = k := Std.LawfulEqCmp.compare_eq_iff_eq.1 hc
          subst hk
          exact ⟨[], rest, by simp, by simp⟩
      | gt =>
          obtain ⟨before, after, hold, hnew⟩ := ih hrest
          refine ⟨(k, a) :: before, after, ?_, ?_⟩
          · simpa using hold
          · simpa using hnew

/-- Of several entries with one key the last is collected. -/
theorem get?_ofList [BEq κ] [LawfulBEq κ] (entries : List (κ × α)) (key : κ) :
    (ofList entries).get? key = entries.reverse.lookup key := by
  have hfold (m : OrderedMap κ α) : (entries.foldl (fun m e => m.insert e.1 e.2) m).get? key =
      (entries.reverse.lookup key).or (m.get? key) := by
    induction entries generalizing m with
    | nil => rfl
    | cons e rest ih =>
        obtain ⟨k, a⟩ := e
        rw [List.foldl_cons, ih, List.reverse_cons, List.lookup_append, Option.or_assoc]
        congr 1
        by_cases hkey : key = k
        · subst hkey
          simp
        · have hne : (key == k) = false := beq_false_of_ne hkey
          simp [List.lookup_cons, hne, get?_insert_of_ne _ hkey]
  rw [ofList, hfold, get?_empty, Option.or_none]

/-- Collecting the entries of a map gives the map. -/
theorem ofList_entries (m : OrderedMap κ α) : ofList m.entries = m := by
  have hfold : ∀ {entries : List (κ × α)}, Ascending entries → ∀ (n : OrderedMap κ α) (key : κ),
      (entries.foldl (fun n e => n.insert e.1 e.2) n).get? key =
        (lookup key entries).or (n.get? key) := by
    intro entries h
    induction entries with
    | nil => exact fun _ _ => rfl
    | cons e rest ih =>
        obtain ⟨k, a⟩ := e
        intro n key
        have hrest := (List.pairwise_cons.1 h).2
        rw [List.foldl_cons, ih hrest]
        by_cases hkey : key = k
        · subst hkey
          have hnone : lookup key rest = none := by
            rw [Option.eq_none_iff_forall_ne_some]
            intro b hb
            exact ne_of_ascending h ((lookup_eq_some_iff hrest).1 hb) rfl
          simp [hnone, lookup]
        · have hne : compare key k ≠ .eq := fun heq => hkey (Std.LawfulEqCmp.compare_eq_iff_eq.1 heq)
          rw [get?_insert_of_ne _ hkey, lookup, if_neg hne]
  apply ext_get?
  intro key
  rw [ofList, hfold m.ascending, get?_empty, Option.or_none]
  rfl

end OrderedMap

namespace OrderedSet

variable {κ : Type} [Ord κ] [Std.TransOrd κ] [Std.LawfulEqOrd κ] {s t : OrderedSet κ} {x key : κ}

omit [Std.TransOrd κ] in
theorem mem_toList_iff : x ∈ s.toList ↔ s.get? x = some () := by
  rw [toList, OrderedMap.mem_keys_iff]
  constructor
  · rintro ⟨⟨⟩, hx⟩
    exact hx
  · exact fun hx => ⟨(), hx⟩

omit [Std.TransOrd κ] in
theorem contains_iff_mem : s.contains x = true ↔ x ∈ s.toList := by
  rw [toList, OrderedMap.mem_keys_iff, OrderedMap.contains, Option.isSome_iff_exists]

/-- A set is known by its members. -/
theorem ext_mem (h : ∀ x, x ∈ s.toList ↔ x ∈ t.toList) : s = t := by
  apply OrderedMap.ext_get?
  intro x
  apply Option.ext
  intro u
  exact mem_toList_iff.symm.trans ((h x).trans mem_toList_iff)

@[simp]
theorem mem_add : x ∈ (s.add key).toList ↔ x = key ∨ x ∈ s.toList := by
  rw [mem_toList_iff, mem_toList_iff, add]
  by_cases hx : x = key
  · simp [hx]
  · simp [hx, OrderedMap.get?_insert_of_ne]

omit [Std.TransOrd κ] in
@[simp]
theorem mem_erase : x ∈ toList (s.erase key) ↔ x ≠ key ∧ x ∈ s.toList := by
  rw [mem_toList_iff, mem_toList_iff]
  by_cases hx : x = key
  · simp [hx]
  · simp [hx, OrderedMap.get?_erase_of_ne]

@[simp]
theorem mem_ofMembers {members : List κ} : x ∈ (ofMembers members).toList ↔ x ∈ members := by
  have hfold (s : OrderedSet κ) :
      x ∈ (members.foldl add s).toList ↔ x ∈ members ∨ x ∈ s.toList := by
    induction members generalizing s with
    | nil => simp
    | cons key rest ih => rw [List.foldl_cons, ih, mem_add, List.mem_cons, or_left_comm, or_assoc]
  have hempty : x ∉ toList (OrderedMap.empty : OrderedMap κ Unit) := List.not_mem_nil
  rw [ofMembers, hfold]
  exact or_iff_left hempty

end OrderedSet

end OperationQueue
