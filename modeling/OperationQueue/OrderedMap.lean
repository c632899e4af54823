/-
# Finite maps in ascending key order

Answers list keys in ascending order, so the order belongs to the type: a map is
its list of entries together with the fact that the keys ascend strictly. Two
maps with the same entries are then equal, no key occurs twice, and every
traversal is an ordinary traversal of a list.

Each operation is said through `get?`: what it answers for the key it touched,
and that it answers the old value for every other key.
-/

namespace OperationQueue

/-- Entries whose keys ascend strictly. -/
def Ascending {κ α : Type} [Ord κ] (entries : List (κ × α)) : Prop :=
  entries.Pairwise fun a b => compare a.1 b.1 = .lt

/-- A finite map from keys to values, kept in ascending order of its keys. -/
structure OrderedMap (κ α : Type) [Ord κ] where
  /-- The entries, in ascending order of their keys. -/
  entries : List (κ × α)
  /-- No key occurs twice, and the keys ascend. -/
  ascending : Ascending entries

/-- A finite set, kept in ascending order. -/
abbrev OrderedSet (κ : Type) [Ord κ] := OrderedMap κ Unit

namespace OrderedMap

variable {κ α β : Type} [Ord κ]

instance [DecidableEq κ] [DecidableEq α] : DecidableEq (OrderedMap κ α) := fun a b =>
  if h : a.entries = b.entries then
    isTrue (by cases a; cases b; cases h; rfl)
  else
    isFalse fun e => h (congrArg entries e)

/-- A map is determined by its entries. -/
@[ext]
theorem ext {a b : OrderedMap κ α} (h : a.entries = b.entries) : a = b := by
  cases a; cases b; cases h; rfl

/-- The map without entries. -/
def empty : OrderedMap κ α := ⟨[], List.Pairwise.nil⟩

instance : Inhabited (OrderedMap κ α) := ⟨empty⟩

/-- The value that an entry list holds for a key. -/
def lookup (key : κ) : List (κ × α) → Option α
  | [] => none
  | (k, a) :: rest => if compare key k = .eq then some a else lookup key rest

/-- The value at a key. -/
def get? (m : OrderedMap κ α) (key : κ) : Option α := lookup key m.entries

/-- Whether a key has a value. -/
def contains (m : OrderedMap κ α) (key : κ) : Bool := (m.get? key).isSome

/-- The keys, ascending. -/
def keys (m : OrderedMap κ α) : List κ := m.entries.map (·.1)

/-- The values, in order of their keys. -/
def values (m : OrderedMap κ α) : List α := m.entries.map (·.2)

/-- Whether there is no entry. -/
def isEmpty (m : OrderedMap κ α) : Bool := m.entries.isEmpty

/-- The number of entries. -/
def size (m : OrderedMap κ α) : Nat := m.entries.length

/-- Put a value into an entry list: before the first larger key, or in place of
the value of an equal key. -/
def insertEntry (key : κ) (value : α) : List (κ × α) → List (κ × α)
  | [] => [(key, value)]
  | (k, a) :: rest =>
    match compare key k with
    | .lt => (key, value) :: (k, a) :: rest
    | .eq => (key, value) :: rest
    | .gt => (k, a) :: insertEntry key value rest

/-- Every entry after an insertion is the new one or an old one. -/
theorem mem_insertEntry {key : κ} {value : α} {entries : List (κ × α)} {e : κ × α}
    (h : e ∈ insertEntry key value entries) : e = (key, value) ∨ e ∈ entries := by
  induction entries with
  | nil => simpa [insertEntry] using h
  | cons x rest ih =>
    simp only [insertEntry] at h
    split at h
    · simpa using h
    · rcases List.mem_cons.1 h with h | h
      · exact .inl h
      · exact .inr (List.mem_cons_of_mem _ h)
    · rcases List.mem_cons.1 h with h | h
      · exact .inr (h ▸ List.mem_cons_self)
      · exact (ih h).imp_right (List.mem_cons_of_mem _)

/-- Insertion keeps the keys ascending. -/
theorem ascending_insertEntry [Std.TransOrd κ] [Std.LawfulEqOrd κ] (key : κ) (value : α)
    {entries : List (κ × α)} (h : Ascending entries) :
    Ascending (insertEntry key value entries) := by
  induction entries with
  | nil => exact List.pairwise_singleton _ _
  | cons x rest ih =>
    have hx := List.pairwise_cons.1 h
    simp only [insertEntry]
    split
    · next hlt =>
      refine List.pairwise_cons.2 ⟨fun e he => ?_, h⟩
      rcases List.mem_cons.1 he with rfl | he
      · exact hlt
      · exact Std.TransCmp.lt_trans hlt (hx.1 e he)
    · next heq =>
      have hk : key = x.1 := Std.LawfulEqCmp.compare_eq_iff_eq.1 heq
      subst hk
      exact List.pairwise_cons.2 ⟨fun e he => hx.1 e he, hx.2⟩
    · next hgt =>
      refine List.pairwise_cons.2 ⟨fun e he => ?_, ih hx.2⟩
      rcases mem_insertEntry he with rfl | he
      · exact Std.OrientedCmp.gt_iff_lt.1 hgt
      · exact hx.1 e he

/-- Set the value at a key. -/
def insert [Std.TransOrd κ] [Std.LawfulEqOrd κ] (m : OrderedMap κ α) (key : κ) (value : α) :
    OrderedMap κ α :=
  ⟨insertEntry key value m.entries, ascending_insertEntry key value m.ascending⟩

/-- Keep the entries that satisfy a condition. -/
def filter (m : OrderedMap κ α) (keep : κ → α → Bool) : OrderedMap κ α :=
  ⟨m.entries.filter fun e => keep e.1 e.2, m.ascending.filter _⟩

/-- Remove the entry at a key, if there is one. -/
def erase (m : OrderedMap κ α) (key : κ) : OrderedMap κ α :=
  m.filter fun k _ => compare key k != .eq

/-- Replace every value by a function of its key and itself. -/
def map (m : OrderedMap κ α) (f : κ → α → β) : OrderedMap κ β :=
  ⟨m.entries.map fun e => (e.1, f e.1 e.2), by
    unfold Ascending; exact List.pairwise_map.2 m.ascending⟩

/-- Collect entries; of two entries with one key the later wins. -/
def ofList [Std.TransOrd κ] [Std.LawfulEqOrd κ] (entries : List (κ × α)) : OrderedMap κ α :=
  entries.foldl (fun m e => m.insert e.1 e.2) empty

/-- The first entry, in order of keys, that satisfies a condition. -/
def find? (m : OrderedMap κ α) (p : κ → α → Bool) : Option (κ × α) :=
  m.entries.find? fun e => p e.1 e.2

/-! ## What each operation answers -/

@[simp]
theorem get?_empty (key : κ) : (empty : OrderedMap κ α).get? key = none := rfl

/-- The key just written has the value written. -/
theorem lookup_insertEntry_self [Std.TransOrd κ] [Std.LawfulEqOrd κ] (key : κ) (value : α)
    (entries : List (κ × α)) : lookup key (insertEntry key value entries) = some value := by
  induction entries with
  | nil => simp [insertEntry, lookup]
  | cons x rest ih =>
    simp only [insertEntry]
    split
    · simp [lookup]
    · simp [lookup]
    · next hgt => simp [lookup, hgt, ih]

/-- Writing at one key leaves every other key alone. -/
theorem lookup_insertEntry_of_ne [Std.TransOrd κ] [Std.LawfulEqOrd κ] {key other : κ}
    (h : other ≠ key) (value : α) (entries : List (κ × α)) :
    lookup other (insertEntry key value entries) = lookup other entries := by
  have hne : compare other key ≠ .eq := fun e => h (Std.LawfulEqCmp.compare_eq_iff_eq.1 e)
  induction entries with
  | nil => simp [insertEntry, lookup, hne]
  | cons x rest ih =>
    simp only [insertEntry]
    split
    · simp [lookup, hne]
    · next heq =>
      have hk : key = x.1 := Std.LawfulEqCmp.compare_eq_iff_eq.1 heq
      simp [lookup, ← hk, hne]
    · simp only [lookup, ih]

@[simp]
theorem get?_insert_self [Std.TransOrd κ] [Std.LawfulEqOrd κ] (m : OrderedMap κ α) (key : κ)
    (value : α) : (m.insert key value).get? key = some value :=
  lookup_insertEntry_self key value m.entries

theorem get?_insert_of_ne [Std.TransOrd κ] [Std.LawfulEqOrd κ] (m : OrderedMap κ α)
    {key other : κ} (h : other ≠ key) (value : α) :
    (m.insert key value).get? other = m.get? other :=
  lookup_insertEntry_of_ne h value m.entries

@[simp]
theorem entries_filter (m : OrderedMap κ α) (keep : κ → α → Bool) :
    (m.filter keep).entries = m.entries.filter fun e => keep e.1 e.2 := rfl

@[simp]
theorem entries_map (m : OrderedMap κ α) (f : κ → α → β) :
    (m.map f).entries = m.entries.map fun e => (e.1, f e.1 e.2) := rfl

@[simp]
theorem keys_map (m : OrderedMap κ α) (f : κ → α → β) : (m.map f).keys = m.keys := by
  simp [keys]

end OrderedMap

namespace OrderedSet

variable {κ : Type} [Ord κ]

/-- The members, ascending. -/
def toList (s : OrderedSet κ) : List κ := s.keys

/-- Add a member. -/
def add [Std.TransOrd κ] [Std.LawfulEqOrd κ] (s : OrderedSet κ) (key : κ) : OrderedSet κ :=
  s.insert key ()

/-- Collect members; repetitions count once. -/
def ofMembers [Std.TransOrd κ] [Std.LawfulEqOrd κ] (members : List κ) : OrderedSet κ :=
  members.foldl add OrderedMap.empty

end OrderedSet

end OperationQueue
