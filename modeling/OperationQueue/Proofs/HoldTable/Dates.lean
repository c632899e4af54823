/-
# A table of holds as one map of dates

The table keeps the holds of each operation in a map of its own, and no operation without a hold.
To all who ask it is one finite map, from an operation and a context to a date. Every call changes
the one map in the way that it says, whatever was called before: questions are answered from the
dates of the map, and a call reports a change exactly if it makes one.
-/
import Mathlib.Data.Set.Finite.List
import Mathlib.Order.Bounds.Basic
import OperationQueue.Proofs.HoldTable
import OperationQueue.Proofs.Instant

namespace OperationQueue

/-- The date until which each operation is held under each context, if it is held there. -/
abbrev HoldDates := Identity × String → Option Instant

/-- A call that may change what is held. -/
inductive HoldCall
  | set (id : Identity) (context : String) (date : Option Instant)
  | replace (id : Identity) (holds : List (String × Instant))
  | remove (id : Identity)
  | clear

namespace HoldDates

variable {dates : HoldDates} {id : Identity}

/-- Nothing is held. -/
def empty : HoldDates := fun _ => none

/-- What a call makes of the dates. Of several holds under one context the last counts. -/
def after (dates : HoldDates) : HoldCall → HoldDates
  | .set id context date => Function.update dates (id, context) date
  | .replace id holds => fun key => if key.1 = id then holds.reverse.lookup key.2 else dates key
  | .remove id => fun key => if key.1 = id then none else dates key
  | .clear => empty

/-- The dates of one operation, under any context. -/
def ofOperation (dates : HoldDates) (id : Identity) : Set Instant :=
  {date | ∃ context, dates (id, context) = some date}

theorem after_set_ne_iff {context : String} {date : Option Instant} :
    dates.after (.set id context date) ≠ dates ↔ dates (id, context) ≠ date := by
  rw [after, ne_eq, Function.update_eq_self_iff, eq_comm]

theorem after_remove_ne_iff :
    dates.after (.remove id) ≠ dates ↔ ∃ context date, dates (id, context) = some date := by
  rw [ne_eq, funext_iff, not_forall, Prod.exists]
  constructor
  · rintro ⟨other, context, hne⟩
    by_cases hother : other = id
    · subst hother
      simp only [after, if_true] at hne
      exact ⟨context, Option.ne_none_iff_exists'.1 (Ne.symm hne)⟩
    · exact absurd (if_neg hother) hne
  · rintro ⟨context, date, hdate⟩
    exact ⟨id, context, by simp [after, hdate]⟩

end HoldDates

namespace HoldTable

variable {table : HoldTable} {dates : HoldDates}

/-- The table after a call. -/
def after (table : HoldTable) : HoldCall → HoldTable
  | .set id context date => table.set id context date
  | .replace id holds => table.replace id (.ofList holds)
  | .remove id => table.remove id
  | .clear => .empty

/-- A table keeps dates: they are what it answers, and no operation has an entry without a hold. -/
structure Keeps (table : HoldTable) (dates : HoldDates) : Prop where
  get?_eq : ∀ id context, table.get? id context = dates (id, context)
  isEmpty_eq : ∀ {id holds}, table.byOperation.get? id = some holds → holds.isEmpty = false

/-! ## What a call does to the dates that are kept -/

theorem keeps_empty : empty.Keeps .empty := ⟨fun _ _ => rfl, fun h => nomatch h⟩

/-- Every call that is about one operation gives it some holds and leaves those of the others. -/
theorem Keeps.replace (h : table.Keeps dates) (id : Identity) (holds : Holds) :
    (table.replace id holds).Keeps
      fun key => if key.1 = id then holds.get? key.2 else dates key where
  get?_eq other context := by
    by_cases hother : other = id
    · subst hother
      rw [HoldTable.get?, ofOperation_replace_self, if_pos rfl]
    · rw [HoldTable.get?, ofOperation_replace_of_ne hother, if_neg hother]
      exact h.get?_eq other context
  isEmpty_eq {other kept} hkept := by
    by_cases hother : other = id
    · subst hother
      rw [get?_replace_self] at hkept
      split at hkept
      · cases hkept
      · next hempty =>
        cases hkept
        simpa using hempty
    · rw [get?_replace_of_ne hother] at hkept
      exact h.isEmpty_eq hkept

theorem Keeps.set (h : table.Keeps dates) (id : Identity) (context : String)
    (date : Option Instant) :
    (table.set id context date).Keeps (dates.after (.set id context date)) := by
  obtain ⟨holds, hset, hself, hothers⟩ := table.exists_set_eq_replace id context date
  have hdates : (fun key => if key.1 = id then holds.get? key.2 else dates key) =
      dates.after (.set id context date) := by
    funext ⟨other, under⟩
    rw [HoldDates.after, Function.update_apply]
    by_cases hother : other = id
    · subst hother
      by_cases hunder : under = context
      · subst hunder
        simp [hself]
      · simp [hunder, hothers under hunder, h.get?_eq]
    · simp [hother]
  rw [hset, ← hdates]
  exact h.replace id holds

theorem Keeps.after (h : table.Keeps dates) (call : HoldCall) :
    (table.after call).Keeps (dates.after call) := by
  cases call with
  | set id context date => exact h.set id context date
  | replace id holds =>
      have hreplaced := h.replace id (.ofList holds)
      simp only [OrderedMap.get?_ofList] at hreplaced
      exact hreplaced
  | remove id => exact h.replace id .empty
  | clear => exact keeps_empty

theorem Keeps.foldl_after (h : table.Keeps dates) (calls : List HoldCall) :
    (calls.foldl HoldTable.after table).Keeps (calls.foldl HoldDates.after dates) := by
  induction calls generalizing table dates with
  | nil => exact h
  | cons call rest ih => exact ih (h.after call)

/-! ## What is answered from the dates that are kept -/

/-- Everything that a table can be asked is answered from one finite map of dates, and what is
reported of a call is whether it changes that map. -/
structure Answers (table : HoldTable) (dates : HoldDates) : Prop where
  finite : {key | dates key ≠ none}.Finite
  get?_eq : ∀ id context, table.get? id context = dates (id, context)
  mem_ofOperation_iff : ∀ id context date,
    (context, date) ∈ (table.ofOperation id).entries ↔ dates (id, context) = some date
  mem_ofContext_iff : ∀ context id date,
    (id, date) ∈ table.ofContext context ↔ dates (id, context) = some date
  ascending_ofContext : ∀ context, Ascending (table.ofContext context)
  latest_eq_some_iff : ∀ id date,
    table.latest id = some date ↔ IsGreatest (dates.ofOperation id) date
  latest_eq_none_iff : ∀ id, table.latest id = none ↔ dates.ofOperation id = ∅
  isHeld_iff : ∀ id now, table.isHeld id now = true ↔ ∃ date ∈ dates.ofOperation id, now < date
  nextExpiry_eq_some_iff : ∀ ids now date, table.nextExpiry ids now = some date ↔
    IsLeast {date | now < date ∧ ∃ id ∈ ids, IsGreatest (dates.ofOperation id) date} date
  nextExpiry_eq_none_iff : ∀ ids now, table.nextExpiry ids now = none ↔
    {date | now < date ∧ ∃ id ∈ ids, IsGreatest (dates.ofOperation id) date} = ∅
  changes_iff : ∀ id context date,
    table.changes id context date = true ↔ dates.after (.set id context date) ≠ dates
  holdsAny_iff : ∀ id, table.holdsAny id = true ↔ dates.after (.remove id) ≠ dates
  isEmpty_iff : table.isEmpty = true ↔ dates = .empty

section

variable (h : table.Keeps dates)
include h

theorem Keeps.mem_ofOperation_iff {id : Identity} {context : String} {date : Instant} :
    (context, date) ∈ (table.ofOperation id).entries ↔ dates (id, context) = some date := by
  rw [← OrderedMap.get?_eq_some_iff, ← h.get?_eq, HoldTable.get?]

theorem Keeps.mem_values_iff {id : Identity} {date : Instant} :
    date ∈ (table.ofOperation id).values ↔ date ∈ dates.ofOperation id := by
  rw [OrderedMap.mem_values_iff]
  exact exists_congr fun context => by rw [← h.get?_eq, HoldTable.get?]

/-- An operation has an entry exactly if it has a date. -/
theorem Keeps.mem_keys_iff {id : Identity} :
    id ∈ table.byOperation.keys ↔ ∃ context date, dates (id, context) = some date := by
  rw [OrderedMap.mem_keys_iff]
  constructor
  · rintro ⟨holds, hholds⟩
    obtain ⟨⟨context, date⟩, hentry⟩ := List.exists_mem_of_ne_nil holds.entries (by
      simpa [OrderedMap.isEmpty] using h.isEmpty_eq hholds)
    refine ⟨context, date, h.mem_ofOperation_iff.1 ?_⟩
    rw [ofOperation, hholds]
    exact hentry
  · rintro ⟨context, date, hdate⟩
    cases hholds : table.byOperation.get? id with
    | none =>
        rw [← h.get?_eq, HoldTable.get?, ofOperation, hholds] at hdate
        cases hdate
    | some holds => exact ⟨holds, rfl⟩

theorem Keeps.mem_ofContext_iff {context : String} {id : Identity} {date : Instant} :
    (id, date) ∈ table.ofContext context ↔ dates (id, context) = some date := by
  rw [← h.get?_eq, HoldTable.get?, ofOperation]
  simp only [ofContext, List.mem_filterMap, Option.map_eq_some_iff, Prod.mk.injEq]
  constructor
  · rintro ⟨⟨other, holds⟩, hentry, found, hfound, rfl, rfl⟩
    rw [OrderedMap.get?_eq_some_iff.2 hentry]
    exact hfound
  · intro hdate
    cases hholds : table.byOperation.get? id with
    | none => rw [hholds] at hdate; cases hdate
    | some holds =>
        rw [hholds] at hdate
        exact ⟨(id, holds), OrderedMap.get?_eq_some_iff.1 hholds, date, hdate, rfl, rfl⟩

theorem Keeps.latest_eq_some_iff {id : Identity} {date : Instant} :
    table.latest id = some date ↔ IsGreatest (dates.ofOperation id) date := by
  rw [latest, Holds.latest, List.max?_eq_some_iff, IsGreatest, mem_upperBounds]
  simp only [h.mem_values_iff]

theorem Keeps.latest_eq_none_iff {id : Identity} :
    table.latest id = none ↔ dates.ofOperation id = ∅ := by
  rw [latest, Holds.latest, List.max?_eq_none_iff, List.eq_nil_iff_forall_not_mem,
    Set.eq_empty_iff_forall_notMem]
  exact forall_congr' fun date => by rw [h.mem_values_iff]

theorem Keeps.isHeld_iff {id : Identity} {now : Instant} :
    table.isHeld id now = true ↔ ∃ date ∈ dates.ofOperation id, now < date := by
  rw [isHeld, Option.any_eq_true]
  constructor
  · rintro ⟨date, hlatest, hahead⟩
    exact ⟨date, (h.latest_eq_some_iff.1 hlatest).1, of_decide_eq_true hahead⟩
  · rintro ⟨date, hdate, hahead⟩
    cases hlatest : table.latest id with
    | none => exact absurd hdate (h.latest_eq_none_iff.1 hlatest ▸ Set.notMem_empty date)
    | some last =>
        have hle := (h.latest_eq_some_iff.1 hlatest).2 hdate
        exact ⟨last, rfl, decide_eq_true (hahead.trans_le hle)⟩

theorem Keeps.mem_ahead_iff {ids : List Identity} {now date : Instant} :
    date ∈ (ids.filterMap table.latest).filter (fun date => now < date) ↔
      now < date ∧ ∃ id ∈ ids, IsGreatest (dates.ofOperation id) date := by
  simp only [List.mem_filter, List.mem_filterMap, h.latest_eq_some_iff, decide_eq_true_eq]
  exact and_comm

theorem Keeps.isEmpty_iff : table.isEmpty = true ↔ dates = .empty := by
  have hkeys : table.isEmpty = true ↔ table.byOperation.keys = [] := by
    simp [isEmpty, OrderedMap.isEmpty, OrderedMap.keys]
  rw [hkeys, List.eq_nil_iff_forall_not_mem, funext_iff, Prod.forall]
  refine forall_congr' fun id => ?_
  rw [h.mem_keys_iff, not_exists]
  exact forall_congr' fun context => by
    rw [HoldDates.empty, Option.eq_none_iff_forall_ne_some, not_exists]

/-- Only entries of the table have dates. -/
theorem Keeps.finite : {key | dates key ≠ none}.Finite := by
  apply (List.finite_toSet (table.byOperation.entries.flatMap fun e =>
    e.2.entries.map fun hold => (e.1, hold.1))).subset
  rintro ⟨id, context⟩ hdate
  obtain ⟨date, hdate⟩ := Option.ne_none_iff_exists'.1 hdate
  obtain ⟨holds, hholds⟩ := OrderedMap.mem_keys_iff.1 (h.mem_keys_iff.2 ⟨context, date, hdate⟩)
  have hhold := h.mem_ofOperation_iff.2 hdate
  rw [ofOperation, hholds] at hhold
  exact List.mem_flatMap.2 ⟨(id, holds), OrderedMap.get?_eq_some_iff.1 hholds,
    List.mem_map.2 ⟨(context, date), hhold, rfl⟩⟩

end

/-- Of each operation at most one date is listed, in the order of the operations. -/
theorem ascending_ofContext (table : HoldTable) (context : String) :
    Ascending (table.ofContext context) := by
  rw [Ascending, ofContext, List.pairwise_filterMap]
  apply table.byOperation.ascending.imp
  rintro a b hlt first hfirst second hsecond
  obtain ⟨_, -, rfl⟩ := Option.map_eq_some_iff.1 hfirst
  obtain ⟨_, -, rfl⟩ := Option.map_eq_some_iff.1 hsecond
  exact hlt

theorem Keeps.answers (h : table.Keeps dates) : table.Answers dates where
  finite := h.finite
  get?_eq := h.get?_eq
  mem_ofOperation_iff _ _ _ := h.mem_ofOperation_iff
  mem_ofContext_iff _ _ _ := h.mem_ofContext_iff
  ascending_ofContext := table.ascending_ofContext
  latest_eq_some_iff _ _ := h.latest_eq_some_iff
  latest_eq_none_iff _ := h.latest_eq_none_iff
  isHeld_iff _ _ := h.isHeld_iff
  nextExpiry_eq_some_iff ids now date := by
    rw [nextExpiry, List.min?_eq_some_iff, IsLeast, mem_lowerBounds]
    simp only [h.mem_ahead_iff, Set.mem_ofPred_eq]
  nextExpiry_eq_none_iff ids now := by
    rw [nextExpiry, List.min?_eq_none_iff, List.eq_nil_iff_forall_not_mem,
      Set.eq_empty_iff_forall_notMem]
    exact forall_congr' fun date => not_congr h.mem_ahead_iff
  changes_iff id context date := by
    rw [HoldDates.after_set_ne_iff, changes, bne_iff_ne, h.get?_eq]
  holdsAny_iff id := by
    rw [HoldDates.after_remove_ne_iff, holdsAny, OrderedMap.contains, Option.isSome_iff_exists,
      ← OrderedMap.mem_keys_iff, h.mem_keys_iff]
  isEmpty_iff := h.isEmpty_iff

/-- After any calls, a table that was empty in the beginning is the one map that these calls make of
the empty map. -/
theorem answers_foldl_after (calls : List HoldCall) :
    (calls.foldl HoldTable.after .empty).Answers (calls.foldl HoldDates.after .empty) :=
  (keeps_empty.foldl_after calls).answers

end HoldTable

end OperationQueue
