/-
# Identities of operations

An operation is known by a 128-bit identity. It is ordered as a number, and that
order is also the order of its written form, so "ascending identities" means the
same thing in the queue and in every text.
-/

namespace OperationQueue

/-- The number of identities, which is 2¹²⁸. -/
def Identity.count : Nat := 0x100000000000000000000000000000000

/-- A 128-bit identity. -/
structure Identity where
  /-- The identity read as a big-endian number. -/
  value : Nat
  /-- It fits in 128 bits. -/
  value_lt : value < Identity.count
deriving DecidableEq

namespace Identity

/-- The identity of a number, taken modulo 2¹²⁸. -/
def ofNat (n : Nat) : Identity := ⟨n % count, Nat.mod_lt _ (by decide)⟩

instance : Inhabited Identity := ⟨ofNat 0⟩

@[ext]
theorem ext {a b : Identity} (h : a.value = b.value) : a = b := by
  cases a; cases b; cases h; rfl

@[simp]
theorem ofNat_value (id : Identity) : ofNat id.value = id :=
  ext (Nat.mod_eq_of_lt id.value_lt)

instance : Ord Identity := ⟨fun a b => compare a.value b.value⟩

/-- Two identities stand in the order of their numbers. -/
theorem compare_eq (a b : Identity) : compare a b = compare a.value b.value := rfl

instance : Std.TransOrd Identity where
  eq_swap {a b} := by
    rw [compare_eq, compare_eq]; exact Std.OrientedCmp.eq_swap
  isLE_trans {a b c} hab hbc := by
    rw [compare_eq] at *; exact Std.TransCmp.isLE_trans hab hbc

instance : Std.LawfulEqOrd Identity where
  compare_self {a} := by rw [compare_eq]; exact Std.ReflCmp.compare_self
  eq_of_compare {a b} h := ext (Std.LawfulEqCmp.eq_of_compare (compare_eq a b ▸ h))

end Identity

end OperationQueue
