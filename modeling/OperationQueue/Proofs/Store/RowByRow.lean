/-
# Stores that write row by row

A store makes the writes of a commit one after the other. It makes them on a working copy, and
only the copy with all of them takes its place, under the number of the commit. What both
stores have in common is said here once: how they write a working copy and close it, and that
the number of the commit is the number of the last one afterwards.

A number is kept as a signed word, so the numbers of commits go up as long as they fit in one.
-/
import Mathlib.Algebra.Group.Int.Defs
import Mathlib.Algebra.Group.Nat.Defs
import OperationQueue.Proofs.Result
import OperationQueue.Store.Memory
import OperationQueue.Store.Table

namespace OperationQueue

/-- A store in the middle of a commit, with the row numbers given out so far. -/
abbrev WorkingCopy (σ : Type) := OrderedMap Identity Int × σ

namespace WorkingCopy

variable {σ : Type} {write : Int → WorkingCopy σ → RowWrite → Except Error (WorkingCopy σ)}
  {changes : List PipelineChangeset} {u v : WorkingCopy σ}

/-- Make the writes of all pipelines, one by one. -/
def writeAll (write : Int → WorkingCopy σ → RowWrite → Except Error (WorkingCopy σ))
    (changes : List PipelineChangeset) (u : WorkingCopy σ) : Except Error (WorkingCopy σ) :=
  changes.foldlM (fun u change => change.writes.foldlM (write change.rowid) u) u

/-- What each of some writes keeps, all of them keep. -/
theorem writeAll_invariant_of_mem (P : WorkingCopy σ → Prop)
    (hwrite : ∀ change ∈ changes, ∀ w ∈ change.writes, ∀ u v, P u →
      write change.rowid u w = .ok v → P v)
    (hu : P u) (h : writeAll write changes u = .ok v) : P v := by
  refine foldlM_invariant P (fun change hchange u v hu hwritten => ?_) hu h
  exact foldlM_invariant P (hwrite change hchange) hu hwritten

/-- What every write keeps, all writes keep. -/
theorem writeAll_invariant (P : WorkingCopy σ → Prop)
    (hwrite : ∀ {rowid w u v}, P u → write rowid u w = .ok v → P v) (hu : P u)
    (h : writeAll write changes u = .ok v) : P v :=
  writeAll_invariant_of_mem P (fun _ _ _ _ _ _ hu hw => hwrite hu hw) hu h

/-- What no write changes, all writes together do not change. -/
theorem eq_of_writeAll {α : Type} (f : σ → α)
    (hwrite : ∀ {rowid w u v}, write rowid u w = .ok v → f v.2 = f u.2)
    (h : writeAll write changes u = .ok v) : f v.2 = f u.2 :=
  writeAll_invariant (fun v => f v.2 = f u.2) (fun hv hw => (hwrite hw).trans hv) rfl h

end WorkingCopy

/-- A store that makes the writes of a commit one by one. -/
class RowStore (σ : Type) [Store σ] where
  /-- Make one write for a pipeline. -/
  write : Int → WorkingCopy σ → RowWrite → Except Error (WorkingCopy σ)
  /-- Give a store the number of the commit that was written. -/
  close : Snapshot → σ → σ
  /-- The number of the last commit is one that a commit can have. -/
  IsNumbered : σ → Prop
  applyChangesets_eq (s : σ) (snapshot : Snapshot) (changes : List PipelineChangeset) :
    Store.applyChangesets s snapshot changes =
      (WorkingCopy.writeAll write changes (.empty, s)).map fun u => (u.1, close snapshot u.2)
  isNumbered_register {s t : σ} {name : String} {previous : OrderedSet String}
    {algorithm : Algorithm} {record : PipelineRecord} :
    IsNumbered s → Store.register s name previous algorithm = .ok (record, t) → IsNumbered t
  isNumbered_setAlgorithm {s t : σ} {rowid : Int} {algorithm : Algorithm} :
    IsNumbered s → Store.setAlgorithm s rowid algorithm = .ok t → IsNumbered t
  isNumbered_saveHolds {s t : σ} {id : Identity} {holds : Holds} :
    IsNumbered s → Store.saveHolds s id holds = .ok t → IsNumbered t
  isNumbered_write {u v : WorkingCopy σ} {rowid : Int} {w : RowWrite} :
    IsNumbered u.2 → write rowid u w = .ok v → IsNumbered v.2
  isNumbered_close {s : σ} (snapshot : Snapshot) : IsNumbered s → IsNumbered (close snapshot s)
  lastSnapshot_write {u v : WorkingCopy σ} {rowid : Int} {w : RowWrite} :
    write rowid u w = .ok v → Store.lastSnapshot v.2 = Store.lastSnapshot u.2
  lastSnapshot_close {s : σ} {last : Snapshot} : IsNumbered s →
    Store.lastSnapshot s = .ok last → last.toNat < 2 ^ 63 - 1 →
      Store.lastSnapshot (close (last + 1) s) = .ok (last + 1)

namespace RowStore

variable {σ : Type} [Store σ] [RowStore σ] {s t : σ} {snapshot last : Snapshot}
  {changes : List PipelineChangeset} {numbers : OrderedMap Identity Int}

/-- A commit that is written is the working copy with all writes, closed. -/
theorem exists_of_applyChangesets_eq_ok
    (h : Store.applyChangesets s snapshot changes = .ok (numbers, t)) :
    ∃ copy, WorkingCopy.writeAll write changes (.empty, s) = .ok (numbers, copy) ∧
      t = close snapshot copy := by
  rw [applyChangesets_eq] at h
  cases hwritten : WorkingCopy.writeAll write changes (.empty, s) with
  | error e =>
      rw [hwritten] at h
      cases h
  | ok u =>
      rw [hwritten] at h
      cases h
      exact ⟨u.2, rfl, rfl⟩

theorem isNumbered_writeAll {u v : WorkingCopy σ} (hu : IsNumbered u.2)
    (h : WorkingCopy.writeAll write changes u = .ok v) : IsNumbered v.2 :=
  WorkingCopy.writeAll_invariant (fun u => IsNumbered u.2) isNumbered_write hu h

theorem isNumbered_applyChangesets (hs : IsNumbered s)
    (h : Store.applyChangesets s snapshot changes = .ok (numbers, t)) : IsNumbered t := by
  obtain ⟨copy, hwritten, rfl⟩ := exists_of_applyChangesets_eq_ok h
  exact isNumbered_close snapshot (isNumbered_writeAll hs hwritten)

/-- A commit that gets the number after the last one is the last one afterwards. -/
theorem lastSnapshot_applyChangesets (hs : IsNumbered s) (hlast : Store.lastSnapshot s = .ok last)
    (hroom : last.toNat < 2 ^ 63 - 1)
    (h : Store.applyChangesets s (last + 1) changes = .ok (numbers, t)) :
    Store.lastSnapshot t = .ok (last + 1) := by
  obtain ⟨copy, hwritten, rfl⟩ := exists_of_applyChangesets_eq_ok h
  have hcopy : IsNumbered copy := isNumbered_writeAll hs hwritten
  have hsame : Store.lastSnapshot copy = Store.lastSnapshot s :=
    WorkingCopy.eq_of_writeAll Store.lastSnapshot lastSnapshot_write hwritten
  exact lastSnapshot_close hcopy (hsame.trans hlast) hroom

end RowStore

/-! ## Numbers -/

namespace Snapshot

/-- A snapshot that fits in a signed word is written as it is. -/
theorem toWord_eq {s : Snapshot} (h : s.toNat < 2 ^ 63) : toWord s = s.toNat := by
  have hbits : 2 * s.toBitVec.toNat < 2 ^ 64 := by
    have htoNat : s.toBitVec.toNat = s.toNat := rfl
    omega
  exact BitVec.toInt_eq_toNat_of_lt hbits

/-- A snapshot that does not fit is written as a negative number. -/
theorem toWord_eq_sub {s : Snapshot} (h : 2 ^ 63 ≤ s.toNat) :
    toWord s = (s.toNat : Int) - 2 ^ 64 := by
  have hword : toWord s = s.toBitVec.toInt := rfl
  have htoNat : s.toBitVec.toNat = s.toNat := rfl
  rw [hword, BitVec.toInt_eq_toNat_cond, htoNat, if_neg (by omega)]
  rfl

theorem toWord_neg {s : Snapshot} (h : 2 ^ 63 ≤ s.toNat) : toWord s < 0 := by
  have hlt := s.toNat_lt
  rw [toWord_eq_sub h]
  omega

theorem toWord_lt (s : Snapshot) : toWord s < 2 ^ 63 := Int64.toInt_lt _

@[simp]
theorem ofWord_natCast_toNat (s : Snapshot) : ofWord (s.toNat : Int) = s := by
  simp [ofWord]

/-- A snapshot that fits is read back, and any other one is read as zero. -/
theorem ofWord_toWord (s : Snapshot) : ofWord (toWord s) = if s.toNat < 2 ^ 63 then s else 0 := by
  split
  · next hfits => rw [toWord_eq hfits, ofWord_natCast_toNat]
  · next hlarge =>
    rw [ofWord, Int.toNat_of_nonpos (Int.le_of_lt (toWord_neg (Nat.le_of_not_lt hlarge)))]
    rfl

theorem toNat_ofWord {n : Int} (h : n < 2 ^ 63) : (ofWord n).toNat = n.toNat := by
  rw [ofWord, UInt64.toNat_ofNat']
  exact Nat.mod_eq_of_lt (by omega)

theorem toNat_max (s t : Snapshot) : (max s t).toNat = max s.toNat t.toNat := by
  show (if s ≤ t then t else s).toNat = _
  by_cases hle : s ≤ t
  · rw [if_pos hle, Nat.max_eq_right (UInt64.le_iff_toNat_le.1 hle)]
  · rw [if_neg hle, Nat.max_eq_left (Nat.le_of_not_le (mt UInt64.le_iff_toNat_le.2 hle))]

theorem max_eq_left_of_toNat_le {s t : Snapshot} (h : t.toNat ≤ s.toNat) : max s t = s := by
  apply UInt64.toNat_inj.1
  rw [toNat_max, Nat.max_eq_left h]

theorem max_eq_right_of_toNat_le {s t : Snapshot} (h : s.toNat ≤ t.toNat) : max s t = t := by
  apply UInt64.toNat_inj.1
  rw [toNat_max, Nat.max_eq_right h]

/-- The larger one of two words is read as the larger one of two snapshots. -/
theorem ofWord_max {m n : Int} (hm : m < 2 ^ 63) (hn : n < 2 ^ 63) :
    ofWord (max m n) = max (ofWord m) (ofWord n) := by
  apply UInt64.toNat_inj.1
  rw [toNat_max, toNat_ofWord (Int.max_lt.2 ⟨hm, hn⟩), toNat_ofWord hm, toNat_ofWord hn]
  omega

theorem toNat_succ {last : Snapshot} (hroom : last.toNat < 2 ^ 63 - 1) :
    (last + 1).toNat = last.toNat + 1 := by
  have hone : (1 : UInt64).toNat = 1 := rfl
  rw [UInt64.toNat_add, hone]
  exact Nat.mod_eq_of_lt (by omega)

end Snapshot

/-! ## The store in memory -/

namespace MemoryStore

theorem lastSnapshot_write {u v : Writing} {pipeline : Int} {w : RowWrite}
    (h : write pipeline u w = .ok v) : v.2.lastSnapshot = u.2.lastSnapshot := by
  cases w with
  | insert op =>
      rw [write] at h
      split at h
      · cases h
      · cases h
        rfl
  | modify op => cases h; rfl
  | status id next => cases h; rfl
  | delete id => cases h; rfl

theorem lastSnapshot_writeAll {s : MemoryStore} {changes : List PipelineChangeset} {v : Writing}
    (h : s.writeAll changes = .ok v) : v.2.lastSnapshot = s.lastSnapshot := by
  have hwritten : WorkingCopy.writeAll write changes (.empty, s) = .ok v := h
  exact WorkingCopy.eq_of_writeAll lastSnapshot lastSnapshot_write hwritten

instance : RowStore MemoryStore where
  write := write
  close snapshot s := { s with lastSnapshot := max s.lastSnapshot snapshot }
  IsNumbered _ := True
  applyChangesets_eq s snapshot changes := by
    show s.applyChangesets snapshot changes = (s.writeAll changes).map _
    rw [applyChangesets]
    cases hwritten : s.writeAll changes with
    | error e => rfl
    | ok u =>
        rw [← lastSnapshot_writeAll hwritten]
        rfl
  isNumbered_register _ _ := trivial
  isNumbered_setAlgorithm _ _ := trivial
  isNumbered_saveHolds _ _ := trivial
  isNumbered_write _ _ := trivial
  isNumbered_close _ _ := trivial
  lastSnapshot_write h := congrArg Except.ok (lastSnapshot_write h)
  lastSnapshot_close {s last} _ hlast hroom := by
    cases hlast
    have hle : s.lastSnapshot ≤ s.lastSnapshot + 1 := by
      rw [UInt64.le_iff_toNat_le, Snapshot.toNat_succ hroom]
      exact Nat.le_succ _
    show Except.ok (if s.lastSnapshot ≤ s.lastSnapshot + 1 then _ else _) = _
    rw [if_pos hle]

end MemoryStore

/-! ## The store in tables -/

theorem Cell.raise_number (word n : Int) :
    raise word (.number n) = if n < word then .number word else .number n := by
  have hone : (0 : Int) < Double.one := by decide +kernel
  simp only [raise, units?, Int.mul_lt_mul_right hone]

theorem Cell.isBefore_number (m n : Int) : isBefore (.number m) (.number n) = decide (m ≤ n) := by
  have hone : (0 : Int) < Double.one := by decide +kernel
  simp only [isBefore, units?, Int.mul_le_mul_right hone]

namespace TableStore

variable {s t : TableStore}

theorem lastSnapshot_write {u v : Writing} {pipeline : Int} {w : RowWrite}
    (h : write pipeline u w = .ok v) : v.2.lastSnapshot = u.2.lastSnapshot := by
  cases w with
  | insert op =>
      rw [write] at h
      split at h
      · cases h
      · cases h
        rfl
  | modify op => cases h; rfl
  | status id next => cases h; rfl
  | delete id => cases h; rfl

theorem lastSnapshot_writeAll {changes : List PipelineChangeset} {v : Writing}
    (h : s.writeAll changes = .ok v) : v.2.lastSnapshot = s.lastSnapshot := by
  have hwritten : WorkingCopy.writeAll write changes (.empty, s) = .ok v := h
  exact WorkingCopy.eq_of_writeAll lastSnapshot lastSnapshot_write hwritten

/-- Give tables the number of the commit that was written. -/
def close (snapshot : Snapshot) (s : TableStore) : TableStore :=
  { s with
    lastSnapshot := some (s.lastSnapshot.elim (.number (Snapshot.toWord snapshot))
      (Cell.raise (Snapshot.toWord snapshot))) }

/-- A whole number in the cell of the last snapshot fits in a signed word. -/
def IsNumbered (s : TableStore) : Prop := ∀ n, s.lastSnapshot = some (.number n) → n < 2 ^ 63

theorem IsNumbered.of_eq (h : s.IsNumbered) (hsame : t.lastSnapshot = s.lastSnapshot) :
    t.IsNumbered := fun n hn => h n (hsame ▸ hn)

theorem IsNumbered.close (h : s.IsNumbered) (snapshot : Snapshot) :
    (TableStore.close snapshot s).IsNumbered := by
  have hword := Snapshot.toWord_lt snapshot
  intro n hn
  rw [TableStore.close, Option.some.injEq] at hn
  cases hcell : s.lastSnapshot with
  | none =>
      rw [hcell] at hn
      cases hn
      exact hword
  | some cell =>
      rw [hcell, Option.elim_some] at hn
      cases cell with
      | number m =>
          rw [Cell.raise_number] at hn
          split at hn
          · cases hn
            exact hword
          · cases hn
            exact h _ hcell
      | double units =>
          rw [Cell.raise] at hn
          dsimp only [Cell.units?] at hn
          split at hn
          · cases hn
            exact hword
          · cases hn
      | text content => cases hn

/-- A commit whose number fits is the last one afterwards, unless a later one was there. A number
that does not fit is forgotten. -/
theorem readLastSnapshot_close {last : Snapshot} (h : s.IsNumbered)
    (hlast : s.readLastSnapshot = .ok last) (snapshot : Snapshot) :
    (TableStore.close snapshot s).readLastSnapshot =
      .ok (if snapshot.toNat < 2 ^ 63 then max last snapshot else last) := by
  have hword := Snapshot.toWord_lt snapshot
  have hread : (TableStore.close snapshot s).readLastSnapshot =
      .ok (max last (Snapshot.ofWord (Snapshot.toWord snapshot))) := by
    rw [readLastSnapshot] at hlast
    rw [readLastSnapshot, close]
    cases hstored : s.lastSnapshot with
    | none =>
        rw [hstored] at hlast
        cases hlast
        exact congrArg Except.ok (Snapshot.max_eq_right_of_toNat_le (Nat.zero_le _)).symm
    | some cell =>
        rw [hstored] at hlast
        dsimp only at hlast
        cases cell with
        | number n =>
            cases hlast
            have hraised : Cell.raise (Snapshot.toWord snapshot) (.number n) =
                .number (max n (Snapshot.toWord snapshot)) := by
              rw [Cell.raise_number]
              split
              · next hlt => rw [Int.max_eq_right (Int.le_of_lt hlt)]
              · next hle => rw [Int.max_eq_left (Int.not_lt.1 hle)]
            rw [Option.elim_some, hraised]
            exact congrArg Except.ok (Snapshot.ofWord_max (h n hstored) hword)
        | double units => cases hlast
        | text content => cases hlast
  rw [hread, Snapshot.ofWord_toWord]
  split
  · rfl
  · rw [Snapshot.max_eq_left_of_toNat_le (Nat.zero_le _)]

/-- The next number is the last one afterwards as long as numbers fit. -/
theorem readLastSnapshot_close_succ {last : Snapshot} (h : s.IsNumbered)
    (hlast : s.readLastSnapshot = .ok last) (hroom : last.toNat < 2 ^ 63 - 1) :
    (TableStore.close (last + 1) s).readLastSnapshot = .ok (last + 1) := by
  have hsucc := Snapshot.toNat_succ hroom
  have hfits : (last + 1).toNat < 2 ^ 63 := by omega
  rw [readLastSnapshot_close h hlast, if_pos hfits,
    Snapshot.max_eq_right_of_toNat_le (by omega)]

theorem lastSnapshot_register {name : String} {previous : OrderedSet String}
    {algorithm : Algorithm} {record : PipelineRecord}
    (h : s.register name previous algorithm = .ok (record, t)) :
    t.lastSnapshot = s.lastSnapshot := by
  obtain ⟨found, -, h⟩ := exists_of_bind_eq_ok h
  cases found with
  | none => cases h; rfl
  | some record => cases h; rfl

theorem lastSnapshot_setAlgorithm {rowid : Int} {algorithm : Algorithm}
    (h : s.setAlgorithm rowid algorithm = .ok t) : t.lastSnapshot = s.lastSnapshot := by
  rw [setAlgorithm] at h
  split at h
  · cases h
    rfl
  · cases h

instance : RowStore TableStore where
  write := write
  close := close
  IsNumbered := IsNumbered
  applyChangesets_eq s snapshot changes := by
    show s.applyChangesets snapshot changes = (s.writeAll changes).map _
    rw [applyChangesets]
    cases hwritten : s.writeAll changes with
    | error e => rfl
    | ok u =>
        rw [← lastSnapshot_writeAll hwritten]
        rfl
  isNumbered_register hs h := hs.of_eq (lastSnapshot_register h)
  isNumbered_setAlgorithm hs h := hs.of_eq (lastSnapshot_setAlgorithm h)
  isNumbered_saveHolds hs h := by
    cases h
    exact hs.of_eq rfl
  isNumbered_write hs h := hs.of_eq (lastSnapshot_write h)
  isNumbered_close snapshot hs := hs.close snapshot
  lastSnapshot_write h := by
    show readLastSnapshot _ = readLastSnapshot _
    rw [readLastSnapshot, readLastSnapshot, lastSnapshot_write h]
  lastSnapshot_close hs hlast hroom := readLastSnapshot_close_succ hs hlast hroom

end TableStore

end OperationQueue
