/-
# Identities that are read back

The written form of an identity reads back as the identity. Splitting at the hyphens gives the
groups that were joined, and the groups together are all digits. So two identities with one
written form are the same, and a store may look for the written form in place of the identity.
-/
import Mathlib.Algebra.Ring.Nat
import OperationQueue.Identity.Text
import OperationQueue.Proofs.Text.Digits

namespace OperationQueue

namespace Identity

variable {id other : Identity} {ds : List Char} {lengths : List Nat}

/-- The groups that are joined by hyphens. -/
def groups : List Nat → List Char → List (List Char)
  | [], _ => []
  | [_], digits => [digits]
  | n :: more, digits => digits.take n :: groups more (digits.drop n)

theorem groups_cons_cons (n m : Nat) (more : List Nat) (ds : List Char) :
    groups (n :: m :: more) ds = ds.take n :: groups (m :: more) (ds.drop n) := rfl

theorem hyphenate_cons_cons (n m : Nat) (more : List Nat) (ds : List Char) :
    hyphenate (n :: m :: more) ds = ds.take n ++ '-' :: hyphenate (m :: more) (ds.drop n) := rfl

theorem splitHyphens_of_notMem (h : '-' ∉ ds) : splitHyphens ds = [ds] := by
  induction ds with
  | nil => rfl
  | cons c rest ih =>
      rw [List.mem_cons, not_or] at h
      rw [splitHyphens, ih h.2]
      exact fun heq => h.1 heq.symm

theorem splitHyphens_append_hyphen (h : '-' ∉ ds) (rest : List Char) :
    splitHyphens (ds ++ '-' :: rest) = ds :: splitHyphens rest := by
  induction ds with
  | nil => rfl
  | cons c more ih =>
      rw [List.mem_cons, not_or] at h
      rw [List.cons_append, splitHyphens, ih h.2]
      exact fun heq => h.1 heq.symm

/-- Splitting undoes joining. -/
theorem splitHyphens_hyphenate (hlengths : lengths ≠ []) (h : '-' ∉ ds) :
    splitHyphens (hyphenate lengths ds) = groups lengths ds := by
  induction lengths generalizing ds with
  | nil => exact absurd rfl hlengths
  | cons n more ih =>
      cases more with
      | nil => exact splitHyphens_of_notMem h
      | cons m more =>
          have htake : '-' ∉ ds.take n := fun hmem => h (List.mem_of_mem_take hmem)
          have hdrop : '-' ∉ ds.drop n := fun hmem => h (List.mem_of_mem_drop hmem)
          rw [hyphenate_cons_cons, splitHyphens_append_hyphen htake, ih (List.cons_ne_nil _ _) hdrop,
            groups_cons_cons]

theorem flatten_groups (hlengths : lengths ≠ []) : (groups lengths ds).flatten = ds := by
  induction lengths generalizing ds with
  | nil => exact absurd rfl hlengths
  | cons n more ih =>
      cases more with
      | nil => simp [groups]
      | cons m more =>
          rw [groups_cons_cons, List.flatten_cons, ih (List.cons_ne_nil _ _), List.take_append_drop]

theorem map_length_groups (h : ds.length = lengths.sum) :
    (groups lengths ds).map List.length = lengths := by
  induction lengths generalizing ds with
  | nil => rfl
  | cons n more ih =>
      cases more with
      | nil => simpa [groups] using h
      | cons m more =>
          rw [List.sum_cons] at h
          have htake : (ds.take n).length = n := by
            rw [List.length_take]
            omega
          have hdrop : (ds.drop n).length = (m :: more).sum := by
            rw [List.length_drop]
            omega
          rw [groups_cons_cons, List.map_cons, htake, ih hdrop]

/-- There is a hyphen between any two groups. -/
theorem length_hyphenate (hlengths : lengths ≠ []) (h : lengths.sum ≤ ds.length) :
    (hyphenate lengths ds).length + 1 = ds.length + lengths.length := by
  induction lengths generalizing ds with
  | nil => exact absurd rfl hlengths
  | cons n more ih =>
      cases more with
      | nil => rfl
      | cons m more =>
          rw [List.sum_cons] at h
          have hrest : (m :: more).sum ≤ (ds.drop n).length := by
            rw [List.length_drop]
            omega
          have hlength := ih (List.cons_ne_nil _ _) hrest
          rw [List.length_drop] at hlength
          rw [hyphenate_cons_cons, List.length_append, List.length_cons, List.length_take,
            List.length_cons (a := n)]
          omega

theorem mem_hyphenate {c : Char} (h : c ∈ hyphenate lengths ds) : c = '-' ∨ c ∈ ds := by
  induction lengths generalizing ds with
  | nil => cases h
  | cons n more ih =>
      cases more with
      | nil => exact .inr h
      | cons m more =>
          rw [hyphenate_cons_cons, List.mem_append, List.mem_cons] at h
          rcases h with h | h | h
          · exact .inr (List.mem_of_mem_take h)
          · exact .inl h
          · exact (ih h).imp_right List.mem_of_mem_drop

/-! ## The written form -/

/-- The digits of an identity. -/
def digits (id : Identity) : List Char := Digits.write 16 32 id.value

theorem chars_eq (id : Identity) : id.chars = hyphenate groupLengths id.digits := rfl

theorem hyphen_notMem_digits (id : Identity) : '-' ∉ id.digits := by
  intro h
  have hwritten : '-' ∈ Digits.written := Digits.mem_written (by decide) (by decide) h
  revert hwritten
  decide

/-- The characters of a written identity are digits and hyphens. -/
theorem mem_chars {c : Char} (h : c ∈ id.chars) : c = '-' ∨ c ∈ Digits.written :=
  (mem_hyphenate h).imp_right (Digits.mem_written (by decide) (by decide))

theorem utf8ByteSize_text (id : Identity) : id.text.utf8ByteSize = 36 := by
  have hascii : ∀ c ∈ id.chars, c.utf8Size = 1 := by
    intro c hc
    rcases mem_chars hc with rfl | hc
    · rfl
    · exact Digits.utf8Size_written c hc
  have hdigits : id.digits.length = 32 := Digits.length_write 16 32 id.value
  have hsum : groupLengths.sum ≤ id.digits.length := by
    rw [hdigits]
    decide
  have hlength := length_hyphenate (by decide) hsum
  rw [hdigits, ← chars_eq] at hlength
  rw [text, utf8ByteSize_ofList hascii]
  exact Nat.succ.inj hlength

/-- The written form of an identity reads back as the identity. -/
theorem parse_text (id : Identity) : parse id.text = .ok id := by
  have hunwrap : unwrap id.text = (.groups, 0, id.chars) := by
    rw [unwrap, utf8ByteSize_text, text, String.toList_ofList]
    rfl
  have hgroups : splitHyphens id.chars = groups groupLengths id.digits :=
    splitHyphens_hyphenate (by decide) (hyphen_notMem_digits id)
  have hlengths : (groups groupLengths id.digits).map List.length = groupLengths :=
    map_length_groups (Digits.length_write 16 32 id.value)
  have hdigits : Digits.read? 16 id.digits = some id.value := by
    have hvalue : id.value % Nat.pow 16 32 = id.value := Nat.mod_eq_of_lt id.value_lt
    rw [digits, Digits.read?_write (by decide) (by decide), hvalue]
  have hread : ofText? id.text = some id := by
    rw [ofText?, hunwrap]
    dsimp only
    rw [hgroups, if_pos hlengths, flatten_groups (by decide), hdigits, Option.map_some, ofNat_value]
  rw [parse, hread]

theorem text_inj : id.text = other.text ↔ id = other := by
  constructor
  · intro h
    have hparsed := parse_text id
    rw [h, parse_text other] at hparsed
    exact (Except.ok.inj hparsed).symm
  · rintro rfl
    rfl

end Identity

end OperationQueue
