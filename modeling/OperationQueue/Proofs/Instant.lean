/-
# Instants in order

Instants are ordered by their seconds first, and the place of a leap second is between the second
that it follows and the next one. Counting does not see it there: a number of nanoseconds is added
as if no leap second came on the way, and the time to an instant in a leap second is counted into
it. So the time until an instant, added to the present, leads to that instant or to an earlier one,
except that an instant in a leap second is overshot.
-/
import Mathlib.Order.Lattice
import OperationQueue.Instant

namespace OperationQueue

namespace Instant

variable {a b now later : Instant}

theorem lt_iff : a < b ↔ a.seconds < b.seconds ∨ a.seconds = b.seconds ∧ a.nanos < b.nanos :=
  Iff.rfl

theorem le_iff : a ≤ b ↔ a.seconds < b.seconds ∨ a.seconds = b.seconds ∧ a.nanos ≤ b.nanos := by
  have hle : a ≤ b ↔ ¬ b < a := Iff.rfl
  rw [hle, lt_iff]
  omega

instance : LinearOrder Instant where
  le_refl a := by
    rw [le_iff]
    omega
  le_trans a b c := by
    simp only [le_iff]
    omega
  le_antisymm a b := by
    obtain ⟨s, n⟩ := a
    obtain ⟨t, m⟩ := b
    simp only [le_iff, Instant.mk.injEq]
    omega
  le_total a b := by
    simp only [le_iff]
    omega
  lt_iff_le_not_ge a b := by
    simp only [lt_iff, le_iff]
    omega
  toDecidableLE := inferInstance
  toDecidableLT := inferInstance
  min_def _ _ := rfl
  max_def _ _ := rfl

/-! ## Counting on -/

/-- The instant a number of nanoseconds after the beginning of a second, no leap second among
them. -/
def ofNanos (seconds : Int) (nanos : Nat) : Instant :=
  ⟨seconds + nanos / 1000000000, nanos % 1000000000⟩

/-- The instant a number of nanoseconds after another. Only the leap second that this one may lie in
counts; others are not looked for. -/
def plus (t : Instant) (n : Nat) : Instant :=
  if t.isLeap then
    if 0 < n ∧ 2000000000 ≤ t.nanos + n then ofNanos t.seconds (t.nanos + n - 1000000000)
    else ⟨t.seconds, t.nanos + n⟩
  else ofNanos t.seconds (t.nanos + n)

theorem isLeap_iff : a.isLeap = true ↔ 1000000000 ≤ a.nanos := decide_eq_true_iff

theorem plus_mono (t : Instant) {m n : Nat} (h : m ≤ n) : t.plus m ≤ t.plus n := by
  rw [plus, plus]
  by_cases hleap : t.isLeap = true
  · rw [if_pos hleap, if_pos hleap]
    have hnanos := isLeap_iff.1 hleap
    split <;> split <;> simp only [le_iff, ofNanos, true_and] <;> omega
  · rw [if_neg hleap, if_neg hleap]
    simp only [le_iff, ofNanos]
    omega

/-- The time until an instant does not lead past it, unless it lies in a leap second. -/
theorem plus_nanosUntil_le (h : now ≤ later) (hregular : later.isLeap = false) :
    now.plus (now.nanosUntil later) ≤ later := by
  have hlater : later.nanos < 1000000000 := by simpa [isLeap] using hregular
  rw [le_iff] at h
  by_cases hleap : now.isLeap = true
  · have hnanos := isLeap_iff.1 hleap
    -- the leap second of the present is counted unless the day changes
    by_cases hday : now.secondOfDay < later.secondOfDay
    · have hextra : now.leapSeconds later = 1 := if_pos ⟨hday, hleap⟩
      rw [plus, if_pos hleap, nanosUntil, hextra]
      split <;> simp only [le_iff, ofNanos] <;> omega
    · have hextra : now.leapSeconds later = 0 := by simp [leapSeconds, hday, hregular]
      rw [plus, if_pos hleap, nanosUntil, hextra]
      split <;> simp only [le_iff, ofNanos] <;> omega
  · have hnanos : now.nanos < 1000000000 := by simpa [isLeap] using hleap
    have hextra : now.leapSeconds later = 0 := by simp [leapSeconds, hleap, hregular]
    rw [plus, if_neg hleap, nanosUntil, hextra]
    simp only [le_iff, ofNanos]
    omega

end Instant

end OperationQueue
