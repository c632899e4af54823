/-
# Instants that are read back

The stored form of an instant reads back if its year has four digits. Every part is read off the
front of the text in the order in which the parts were written, whatever follows it. What is read
is the instant, with one exception: a leap second counts up the second of the minute, and only
second sixty is read as a leap second, so one that does not end a minute comes back as the second
after it. In any other year the stored form starts with a sign, and nothing is read.
-/
import OperationQueue.Instant.Timestamp
import OperationQueue.Proofs.Instant.Calendar
import OperationQueue.Proofs.Text.Digits

namespace OperationQueue

namespace Instant

variable {t : Instant} {n : Nat} {rest : List Char}

theorem readDigit_digitChar {d : Nat} (h : d < 10) : readDigit (Digits.digitChar d) = .ok d := by
  rw [readDigit, Digits.digitValue?_digitChar (by decide) h]

/-- Two digits are read as the last two of the number. -/
theorem readPair_write (n : Nat) (rest : List Char) :
    readPair (Digits.write 10 2 n ++ rest) = .ok (n % 100, rest) := by
  have hdigits : Digits.write 10 2 n ++ rest =
      Digits.digitChar (n / 10 % 10) :: Digits.digitChar (n % 10) :: rest := rfl
  have hvalue : n / 10 % 10 * 10 + n % 10 = n % 100 := by omega
  rw [hdigits, readPair, readDigit_digitChar (Nat.mod_lt _ (by decide)),
    readDigit_digitChar (Nat.mod_lt _ (by decide)), ← hvalue]
  rfl

theorem readMark_cons {allowed : List Char} {c : Char} (h : c ∈ allowed) (rest : List Char) :
    readMark allowed (c :: rest) = .ok rest := by
  rw [readMark, if_pos h]

/-- A year of four digits is read as two pairs. -/
theorem write_four (n : Nat) :
    Digits.write 10 4 n = Digits.write 10 2 (n / 100) ++ Digits.write 10 2 n := by
  have hcentury : n / 10 / 10 = n / 100 := by omega
  simp only [Digits.write, List.nil_append, List.cons_append, hcentury]

/-- The numbers of a date that exists have two digits. -/
theorem lt_of_isValid {date : CalendarDate} (h : date.isValid = true) :
    date.month < 100 ∧ date.day < 100 := by
  have hmonth : CalendarDate.daysInMonth date.year date.month ≤ 31 := by
    rw [CalendarDate.daysInMonth]
    split
    · split <;> decide
    · split <;> decide
  simp only [CalendarDate.isValid, Bool.and_eq_true, decide_eq_true_eq] at h
  omega

theorem readDate_yearChars {date : CalendarDate} (hyear : 0 ≤ date.year ∧ date.year ≤ 9999)
    (hvalid : date.isValid = true) (rest : List Char) :
    readDate (yearChars date.year ++ '-' :: (Digits.write 10 2 date.month ++
      '-' :: (Digits.write 10 2 date.day ++ rest))) = .ok (date, rest) := by
  obtain ⟨hmonth, hday⟩ := lt_of_isValid hvalid
  have hdate : (⟨(date.year.toNat / 100 % 100 : Nat) * 100 + (date.year.toNat % 100 : Nat),
      date.month % 100, date.day % 100⟩ : CalendarDate) = date := by
    have hdigits : ((date.year.toNat / 100 % 100 : Nat) * 100 + (date.year.toNat % 100 : Nat) : Int) =
        date.year := by omega
    rw [Nat.mod_eq_of_lt hmonth, Nat.mod_eq_of_lt hday, hdigits]
  have hhyphen (cs : List Char) : readMark ['-'] ('-' :: cs) = .ok cs := readMark_cons (by decide) cs
  rw [yearChars, if_pos hyear, write_four, List.append_assoc, readDate]
  simp only [readPair_write, hhyphen, bind, Except.bind, hdate, hvalid, if_true]

/-- Nine digits of a fraction are read as nanoseconds. -/
theorem readFraction_write (h : n < 1000000000) :
    readFraction (Digits.write 10 9 n ++ ['Z']) = .ok (n, ['Z']) := by
  have hlength : (Digits.write 10 9 n).length = 9 := Digits.length_write 10 9 n
  have hdigit : ∀ c ∈ Digits.write 10 9 n, Digits.isDigit 10 c = true :=
    fun c hc => Digits.isDigit_of_mem_write (by decide) (by decide) hc
  have htake : (Digits.write 10 9 n ++ ['Z']).takeWhile (Digits.isDigit 10) =
      Digits.write 10 9 n := by
    rw [List.takeWhile_append_of_pos hdigit]
    exact List.append_nil _
  have hdrop : (Digits.write 10 9 n ++ ['Z']).dropWhile (Digits.isDigit 10) = ['Z'] := by
    rw [List.dropWhile_append_of_pos hdigit]
    rfl
  have hvalue : Digits.read? 10 (Digits.write 10 9 n) = some n := by
    rw [Digits.read?_write (by decide) (by decide)]
    exact congrArg some (Nat.mod_eq_of_lt h)
  have hall : (Digits.write 10 9 n).take 9 = Digits.write 10 9 n :=
    List.take_of_length_le (Nat.le_of_eq hlength)
  rw [readFraction, htake, hdrop]
  cases hdigits : Digits.write 10 9 n with
  | nil =>
      rw [hdigits] at hlength
      cases hlength
  | cons c cs =>
      rw [hdigits] at hall hvalue hlength
      dsimp only
      rw [hall, hvalue, hlength]
      simp

theorem readTime_write {hour minute second nanos : Nat} (hhour : hour < 24) (hminute : minute < 60)
    (hsecond : second < 61) (hnanos : nanos < 1000000000) :
    readTime (Digits.write 10 2 hour ++ ':' :: (Digits.write 10 2 minute ++
      ':' :: (Digits.write 10 2 second ++ '.' :: (Digits.write 10 9 nanos ++ ['Z'])))) =
    .ok (if second = 60 then (hour * 3600 + minute * 60 + 59, nanos + 1000000000)
      else (hour * 3600 + minute * 60 + second, nanos), ['Z']) := by
  have hcolon (cs : List Char) : readMark [':'] (':' :: cs) = .ok cs := readMark_cons (by decide) cs
  have hrange : ¬ (24 ≤ hour ∨ 60 ≤ minute ∨ 61 ≤ second) := by omega
  have hhour : hour % 100 = hour := by omega
  have hminute : minute % 100 = minute := by omega
  have hsecond : second % 100 = second := by omega
  rw [readTime]
  simp only [readPair_write, hcolon, bind, Except.bind, hhour, hminute, hsecond,
    readFraction_write hnanos, if_neg hrange]

/-- The year in which an instant lies. -/
def year (t : Instant) : Int := (CalendarDate.ofDays (t.seconds / 86400)).year

/-- The year of an instant is written with four digits and without a sign. -/
def HasPlainYear (t : Instant) : Prop := 0 ≤ t.year ∧ t.year ≤ 9999

instance : DecidablePred HasPlainYear :=
  fun t => inferInstanceAs (Decidable (0 ≤ t.year ∧ t.year ≤ 9999))

/-- An instant lies in a leap second that does not end a minute. -/
def IsInnerLeap (t : Instant) : Prop := 1000000000 ≤ t.nanos ∧ t.seconds % 60 ≠ 59

instance : DecidablePred IsInnerLeap :=
  fun t => inferInstanceAs (Decidable (1000000000 ≤ t.nanos ∧ t.seconds % 60 ≠ 59))

/-- What the stored form of an instant is read as: a leap second inside a minute is shown as the
second after it. -/
def reread (t : Instant) : Instant :=
  if t.IsInnerLeap then ⟨t.seconds + 1, t.nanos - 1000000000⟩ else t

/-- An instant is read as itself exactly if it lies in no leap second inside a minute. -/
theorem reread_eq_self_iff : t.reread = t ↔ ¬ t.IsInnerLeap := by
  rw [reread]
  by_cases hinner : t.IsInnerLeap
  · rw [if_pos hinner]
    refine iff_of_false (fun heq => ?_) (not_not_intro hinner)
    have hseconds : t.seconds + 1 = t.seconds := congrArg Instant.seconds heq
    omega
  · rw [if_neg hinner]
    exact iff_of_true rfl hinner

theorem seconds_reread (t : Instant) :
    t.reread.seconds = t.seconds + if t.IsInnerLeap then 1 else 0 := by
  rw [reread]
  split
  · rfl
  · exact (Int.add_zero _).symm

/-- The time of day is read as it is written: second sixty as a leap second, and all others as the
seconds that they show. -/
theorem readTime_storedChars (h : t.nanos < 2000000000) :
    readTime (Digits.write 10 2 ((t.seconds % 86400).toNat / 3600) ++ ':' ::
      (Digits.write 10 2 ((t.seconds % 86400).toNat / 60 % 60) ++ ':' ::
        (Digits.write 10 2 ((t.seconds % 86400).toNat % 60 + if 1000000000 ≤ t.nanos then 1 else 0) ++
          '.' :: (Digits.write 10 9 (if 1000000000 ≤ t.nanos then t.nanos - 1000000000 else t.nanos) ++
            ['Z'])))) =
    .ok (((t.seconds % 86400).toNat + if t.IsInnerLeap then 1 else 0, t.reread.nanos), ['Z']) := by
  have hhour : (t.seconds % 86400).toNat / 3600 < 24 := by omega
  have hminute : (t.seconds % 86400).toNat / 60 % 60 < 60 := Nat.mod_lt _ (by decide)
  have hminutes : (t.seconds % 86400).toNat / 3600 * 3600 +
      (t.seconds % 86400).toNat / 60 % 60 * 60 + (t.seconds % 86400).toNat % 60 =
        (t.seconds % 86400).toNat := by omega
  by_cases hleap : 1000000000 ≤ t.nanos
  · simp only [if_pos hleap]
    rw [readTime_write hhour hminute (by omega) (by omega), reread]
    by_cases hends : t.seconds % 60 = 59
    · have hinner : ¬ t.IsInnerLeap := fun hinner => hinner.2 hends
      rw [if_pos (by omega), if_neg hinner, if_neg hinner, Except.ok.injEq, Prod.mk.injEq,
        Prod.mk.injEq]
      exact ⟨⟨by omega, by omega⟩, rfl⟩
    · -- Inside a minute the second that is shown is an ordinary one.
      have hinner : t.IsInnerLeap := ⟨hleap, hends⟩
      rw [if_neg (by omega), if_pos hinner, if_pos hinner, ← Nat.add_assoc, hminutes]
  · have hinner : ¬ t.IsInnerLeap := fun hinner => hleap hinner.1
    simp only [if_neg hleap, Nat.add_zero]
    rw [readTime_write hhour hminute (by omega) (by omega), if_neg (by omega), hminutes, reread,
      if_neg hinner, if_neg hinner]
    rfl

/-- The stored form is never too short to be read. -/
theorem parse_storedText_eq_readChars (t : Instant) :
    parse t.storedText = readChars t.storedChars := by
  have hlength : 19 ≤ t.storedChars.length := by
    rw [storedChars, dateTimeChars]
    simp only [List.length_append, List.length_cons, Digits.length_write]
    omega
  have hsize : ¬ t.storedText.utf8ByteSize < 19 := by
    have hbytes := length_le_utf8ByteSize t.storedChars
    rw [storedText]
    omega
  rw [parse, if_neg hsize, storedText, String.toList_ofList]

/-- The stored form of an instant reads back, but for a leap second inside a minute. -/
theorem parse_storedText (hyear : t.HasPlainYear) (hnanos : t.nanos < 2000000000) :
    parse t.storedText = .ok t.reread := by
  have hvalid := CalendarDate.isValid_ofDays (t.seconds / 86400)
  have hdays := CalendarDate.toDays_ofDays (t.seconds / 86400)
  have hmark (cs : List Char) : readMark ['T', 't', ' '] ('T' :: cs) = .ok cs :=
    readMark_cons (by decide) cs
  have hzone : readZone ['Z'] = .ok (0, []) := rfl
  have hoffset : isOffset 0 = true := rfl
  have hseconds : t.seconds / 86400 * 86400 +
      (((t.seconds % 86400).toNat + if t.IsInnerLeap then 1 else 0 : Nat) : Int) - 0 =
        t.reread.seconds := by
    rw [seconds_reread]
    split <;> omega
  have hread : readChars t.storedChars = .ok t.reread := by
    rw [storedChars, dateTimeChars, readChars]
    simp only [List.append_assoc, List.cons_append]
    rw [readDate_yearChars hyear hvalid]
    simp only [bind, Except.bind, hmark, readTime_storedChars hnanos, hzone, List.isEmpty_nil,
      Bool.not_true, Bool.false_eq_true, if_false, hoffset, if_true, hdays, hseconds]
  rw [parse_storedText_eq_readChars, hread]

/-! ## Years with a sign -/

/-- A sign is no digit, and no pair of digits starts with one. -/
theorem readPair_sign {c : Char} (h : c = '-' ∨ c = '+') (rest : List Char) :
    readPair (c :: rest) = .error .invalid := by
  have hdigit : readDigit c = .error .invalid := by rcases h with rfl | rfl <;> rfl
  cases rest with
  | nil => rfl
  | cons d rest =>
      rw [readPair, hdigit]
      rfl

/-- A year outside 0 to 9999 starts with a sign. -/
theorem exists_yearChars_eq {year : Int} (h : ¬ (0 ≤ year ∧ year ≤ 9999)) :
    ∃ c digits, yearChars year = c :: digits ∧ (c = '-' ∨ c = '+') := by
  rw [yearChars, if_neg h]
  refine ⟨_, _, rfl, ?_⟩
  split
  · exact .inl rfl
  · exact .inr rfl

/-- The stored form of an instant in such a year does not read back. -/
theorem parse_storedText_eq_error (h : ¬ t.HasPlainYear) :
    parse t.storedText = .error .invalid := by
  obtain ⟨c, digits, hyear, hsign⟩ := exists_yearChars_eq h
  obtain ⟨rest, hchars⟩ : ∃ rest, t.storedChars = c :: (digits ++ '-' :: rest) := by
    rw [year] at hyear
    rw [storedChars, dateTimeChars, hyear]
    simp only [List.append_assoc, List.cons_append]
    exact ⟨_, rfl⟩
  have hread : readChars t.storedChars = .error .invalid := by
    rw [hchars, readChars, readDate, readPair_sign hsign]
    rfl
  rw [parse_storedText_eq_readChars, hread]

end Instant

end OperationQueue
