/-
# Characters of written numbers

The digits that are written are few characters, all of one byte and none of them a mark. So a text
of digits has as many bytes as digits, and a mark between two numbers is found again.
-/
import OperationQueue.Text.Digits

namespace OperationQueue

namespace Digits

variable {base width n : Nat} {c : Char}

theorem exists_of_mem_write (positive : 0 < base) (h : c ∈ write base width n) :
    ∃ d < base, c = digitChar d := by
  induction width generalizing n with
  | zero => cases h
  | succ width ih =>
      rw [write, List.mem_append, List.mem_singleton] at h
      rcases h with h | rfl
      · exact ih h
      · exact ⟨n % base, Nat.mod_lt n positive, rfl⟩

theorem isDigit_of_mem_write (positive : 0 < base) (small : base ≤ 16)
    (h : c ∈ write base width n) : isDigit base c = true := by
  obtain ⟨d, hd, rfl⟩ := exists_of_mem_write positive h
  rw [isDigit, digitValue?_digitChar small hd]
  rfl

/-- The characters that are digits of some base. -/
def written : List Char := (List.range 16).map digitChar

theorem mem_written (positive : 0 < base) (small : base ≤ 16) (h : c ∈ write base width n) :
    c ∈ written := by
  obtain ⟨d, hd, rfl⟩ := exists_of_mem_write positive h
  exact List.mem_map_of_mem (List.mem_range.2 (Nat.lt_of_lt_of_le hd small))

theorem forall_written {P : Char → Prop} (h : ∀ d < 16, P (digitChar d)) : ∀ c ∈ written, P c := by
  intro c hc
  obtain ⟨d, hd, rfl⟩ := List.mem_map.1 hc
  exact h d (List.mem_range.1 hd)

/-- A digit has one byte. -/
theorem utf8Size_written : ∀ c ∈ written, c.utf8Size = 1 := forall_written (by decide)

end Digits

/-- A text has at least as many bytes as characters. -/
theorem length_le_utf8ByteSize (cs : List Char) : cs.length ≤ (String.ofList cs).utf8ByteSize := by
  induction cs with
  | nil => exact Nat.zero_le _
  | cons c rest ih =>
      have hsize := c.utf8Size_pos
      rw [String.ofList_cons, String.utf8ByteSize_append, String.utf8ByteSize_singleton,
        List.length_cons]
      omega

/-- A text of characters of one byte each has as many bytes as characters. -/
theorem utf8ByteSize_ofList {cs : List Char} (h : ∀ c ∈ cs, c.utf8Size = 1) :
    (String.ofList cs).utf8ByteSize = cs.length := by
  induction cs with
  | nil => rfl
  | cons c rest ih =>
      have hrest := ih fun d hd => h d (List.mem_cons_of_mem _ hd)
      rw [String.ofList_cons, String.utf8ByteSize_append, String.utf8ByteSize_singleton,
        h c List.mem_cons_self, hrest, List.length_cons, Nat.add_comm]

end OperationQueue
