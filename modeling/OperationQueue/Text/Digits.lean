/-
# Digits in a base up to sixteen

Numbers of fixed width are written most significant digit first and padded with
zeros. Reading takes letters of either case. The two directions fit: what is written
in some digits reads back as the number modulo the base to the power of their count.
-/

namespace OperationQueue.Digits

/-- The character of a digit below sixteen; letters are small. -/
def digitChar (d : Nat) : Char :=
  if d < 10 then Char.ofNat (48 + d) else Char.ofNat (87 + d)

/-- The value of a digit character, if it is one in this base. -/
def digitValue? (base : Nat) (c : Char) : Option Nat :=
  let v :=
    if '0' ≤ c ∧ c ≤ '9' then c.toNat - 48
    else if 'a' ≤ c ∧ c ≤ 'f' then c.toNat - 87
    else if 'A' ≤ c ∧ c ≤ 'F' then c.toNat - 55
    else base
  if v < base then some v else none

/-- Whether a character is a digit of this base. -/
def isDigit (base : Nat) (c : Char) : Bool := (digitValue? base c).isSome

/-- The last `width` digits of a number. -/
def write (base : Nat) : Nat → Nat → List Char
  | 0, _ => []
  | width + 1, n => write base width (n / base) ++ [digitChar (n % base)]

/-- The number that a list of digits stands for; `none` if a character is not a
digit of this base. -/
def read? (base : Nat) (text : List Char) : Option Nat :=
  text.foldl (fun n c => n.bind fun n => (digitValue? base c).map (n * base + ·)) (some 0)

/-- A sign, if there is one: whether it is a minus, and what follows. -/
def splitSign : List Char → Bool × List Char
  | '-' :: rest => (true, rest)
  | '+' :: rest => (false, rest)
  | rest => (false, rest)

@[simp]
theorem length_write (base width n : Nat) : (write base width n).length = width := by
  induction width generalizing n with
  | zero => rfl
  | succ width ih => simp [write, ih]

/-- A digit reads back as itself. -/
theorem digitValue?_digitChar {base d : Nat} (small : base ≤ 16) (h : d < base) :
    digitValue? base (digitChar d) = some d := by
  have hd : d < 16 := Nat.lt_of_lt_of_le h small
  have : ∀ d < 16, (if '0' ≤ digitChar d ∧ digitChar d ≤ '9' then (digitChar d).toNat - 48
      else if 'a' ≤ digitChar d ∧ digitChar d ≤ 'f' then (digitChar d).toNat - 87
      else if 'A' ≤ digitChar d ∧ digitChar d ≤ 'F' then (digitChar d).toNat - 55
      else base) = d := by
    intro d hd
    match d, hd with
    | 0, _ | 1, _ | 2, _ | 3, _ | 4, _ | 5, _ | 6, _ | 7, _ | 8, _ | 9, _ | 10, _ | 11, _
    | 12, _ | 13, _ | 14, _ | 15, _ => rfl
    | _ + 16, h => exact absurd h (by omega)
  simp [digitValue?, this d hd, h]

/-- Reading undoes writing, up to the width. -/
theorem read?_write {base : Nat} (positive : 0 < base) (small : base ≤ 16) (width n : Nat) :
    read? base (write base width n) = some (n % Nat.pow base width) := by
  induction width generalizing n with
  | zero => simp [write, read?, Nat.mod_one]
  | succ width ih =>
    have power : Nat.pow base (width + 1) = base * Nat.pow base width := Nat.mul_comm _ _
    have key : n / base % Nat.pow base width * base + n % base =
        n % Nat.pow base (width + 1) := by
      rw [power, Nat.mod_mul, Nat.mul_comm base, Nat.add_comm]
    have := ih (n / base)
    unfold read? at this
    simp only [write, read?, List.foldl_append, this, List.foldl_cons, List.foldl_nil,
      Option.bind_some, digitValue?_digitChar small (Nat.mod_lt n positive), Option.map_some, key]

end OperationQueue.Digits
