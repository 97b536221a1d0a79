import AgenticLocalApp.Observability.AuditStores

/-!
# The text of a datetime column

An instant is written as fixed-width ISO-8601 text in UTC and read back from it.  The calendar is
the proleptic Gregorian one, in eras of 400 years that start in March.
-/

namespace AgenticLocalApp

namespace Timestamp

/-! ## Days -/

/-- The days from 1970-01-01 to a date. -/
def daysOfCivil (year month day : Int) : Int :=
  let y := if month ≤ 2 then year - 1 else year
  let yoe := y % 400
  let mp := if month ≤ 2 then month + 9 else month - 3
  let doy := (153 * mp + 2) / 5 + day - 1
  let doe := yoe * 365 + yoe / 4 - yoe / 100 + doy
  y / 400 * 146097 + doe - 719468

/-- The year of an era and the day of that year. -/
theorem yearOfEra_bounds {doe yoe doy : Int} (h0 : 0 ≤ doe) (h1 : doe < 146097)
    (hy : yoe = (doe - doe / 1460 + doe / 36524 - doe / 146096) / 365)
    (hd : doy = doe - (365 * yoe + yoe / 4 - yoe / 100)) :
    0 ≤ yoe ∧ yoe < 400 ∧ 0 ≤ doy ∧ doy ≤ 366 := by
  have hlast : doe / 146096 = 0 ∨ doe / 146096 = 1 := by omega
  have hcentury : doe / 36524 = 0 ∨ doe / 36524 = 1 ∨ doe / 36524 = 2 ∨ doe / 36524 = 3 ∨
      doe / 36524 = 4 := by omega
  -- within one century the leap days are those of every fourth year
  have hsame : yoe / 100 = doe / 36524 - doe / 146096 := by
    rcases hcentury with h | h | h | h | h <;> rcases hlast with h' | h' <;> omega
  refine ⟨by omega, by omega, ?_, ?_⟩
  · rcases hcentury with h | h | h | h | h <;> rcases hlast with h' | h' <;> rw [h, h'] at hsame <;>
      omega
  · rcases hcentury with h | h | h | h | h <;> rcases hlast with h' | h' <;> rw [h, h'] at hsame <;>
      omega

/-- What `civil` computes: the month counted from March, and from it the date. -/
theorem civil_spec (days : Int) :
    ∃ era yoe mp doy, 0 ≤ yoe ∧ yoe < 400 ∧ 0 ≤ mp ∧ mp ≤ 11 ∧
      days + 719468 = era * 146097 + (yoe * 365 + yoe / 4 - yoe / 100 + doy) ∧
      (153 * mp + 2) / 5 ≤ doy ∧ doy ≤ (153 * mp + 2) / 5 + 30 ∧
      civil days = (yoe + era * 400 + if (if mp < 10 then mp + 3 else mp - 9) ≤ 2 then 1 else 0,
        if mp < 10 then mp + 3 else mp - 9, doy - (153 * mp + 2) / 5 + 1) := by
  obtain ⟨doe, hdoe⟩ : ∃ doe, doe = (days + 719468) % 146097 := ⟨_, rfl⟩
  obtain ⟨yoe, hy⟩ : ∃ yoe, yoe = (doe - doe / 1460 + doe / 36524 - doe / 146096) / 365 := ⟨_, rfl⟩
  obtain ⟨doy, hd⟩ : ∃ doy, doy = doe - (365 * yoe + yoe / 4 - yoe / 100) := ⟨_, rfl⟩
  have hb := yearOfEra_bounds (by omega) (by omega) hy hd
  refine ⟨(days + 719468) / 146097, yoe, (5 * doy + 2) / 153, doy, hb.1, hb.2.1, by omega, by omega,
    by omega, by omega, by omega, ?_⟩
  simp only [civil, hdoe, hy, hd]

theorem daysOfCivil_civil (days : Int) :
    daysOfCivil (civil days).1 (civil days).2.1 (civil days).2.2 = days := by
  obtain ⟨era, yoe, mp, doy, h0, h1, hm0, hm1, hdays, -, -, hc⟩ := civil_spec days
  rw [hc]
  simp only [daysOfCivil]
  by_cases hmp : mp < 10
  · have hmonth : ¬ mp + 3 ≤ 2 := by omega
    rw [if_pos hmp, if_neg hmonth, if_neg hmonth, if_neg hmonth]
    have hera : (yoe + era * 400 + 0) / 400 = era := by omega
    have hyoe : (yoe + era * 400 + 0) % 400 = yoe := by omega
    rw [hera, hyoe, show mp + 3 - 3 = mp by omega]
    omega
  · have hmonth : mp - 9 ≤ 2 := by omega
    rw [if_neg hmp, if_pos hmonth, if_pos hmonth, if_pos hmonth]
    have hera : (yoe + era * 400 + 1 - 1) / 400 = era := by omega
    have hyoe : (yoe + era * 400 + 1 - 1) % 400 = yoe := by omega
    rw [hera, hyoe, show mp - 9 + 9 = mp by omega]
    omega

theorem civil_month (days : Int) : 1 ≤ (civil days).2.1 ∧ (civil days).2.1 ≤ 12 := by
  obtain ⟨era, yoe, mp, doy, -, -, h0, h1, -, -, -, hc⟩ := civil_spec days
  rw [hc]
  show 1 ≤ (if mp < 10 then mp + 3 else mp - 9) ∧ (if mp < 10 then mp + 3 else mp - 9) ≤ 12
  split <;> omega

theorem civil_day (days : Int) : 1 ≤ (civil days).2.2 ∧ (civil days).2.2 ≤ 31 := by
  obtain ⟨era, yoe, mp, doy, -, -, -, -, -, h0, h1, hc⟩ := civil_spec days
  rw [hc]
  show 1 ≤ doy - (153 * mp + 2) / 5 + 1 ∧ doy - (153 * mp + 2) / 5 + 1 ≤ 31
  omega

/-! ## Text -/

/-- The instants that a `datetime` in UTC can hold. -/
def InRange (t : Instant) : Prop :=
  1 ≤ (civil (t / 86400000000)).1 ∧ (civil (t / 86400000000)).1 ≤ 9999

instance (t : Instant) : Decidable (InRange t) := inferInstanceAs (Decidable (_ ∧ _))

/-- `isoformat(timespec="microseconds")` of an instant in UTC. -/
def utcText (t : Instant) : List Char :=
  let (year, month, day) := civil (t / 86400000000)
  let micros := (t % 86400000000).toNat
  let seconds := micros / 1000000
  padded 4 year.toNat ++ '-' :: (padded 2 month.toNat ++ '-' :: (padded 2 day.toNat ++ 'T' ::
    (padded 2 (seconds / 3600) ++ ':' :: (padded 2 (seconds / 60 % 60) ++ ':' ::
    (padded 2 (seconds % 60) ++ '.' :: (padded 6 (micros % 1000000) ++ "+00:00".toList))))))

/-- A number of `width` digits, and what follows it. -/
def readDigits (width : Nat) (cs : List Char) : Option (Nat × List Char) :=
  let digits := cs.take width
  if digits.length = width ∧ digits.all Char.isDigit then
    some (Nat.ofDigitChars 10 digits 0, cs.drop width)
  else none

/-- A separator and a number after it. -/
def readField (separator : Char) (width : Nat) : List Char → Option (Nat × List Char)
  | [] => none
  | c :: cs => if c = separator then readDigits width cs else none

/-- `datetime.fromisoformat`, of a text with microseconds in UTC. -/
def fromisoformat (cs : List Char) : Option Instant := do
  let year ← readDigits 4 cs
  let month ← readField '-' 2 year.2
  let day ← readField '-' 2 month.2
  let hour ← readField 'T' 2 day.2
  let minute ← readField ':' 2 hour.2
  let second ← readField ':' 2 minute.2
  let fraction ← readField '.' 6 second.2
  if fraction.2 = "+00:00".toList ∧ 1 ≤ year.1 ∧ 1 ≤ month.1 ∧ month.1 ≤ 12 ∧ 1 ≤ day.1 ∧
      day.1 ≤ 31 ∧ hour.1 < 24 ∧ minute.1 < 60 ∧ second.1 < 60 then
    some (daysOfCivil year.1 month.1 day.1 * 86400000000 +
      ((hour.1 * 3600 + minute.1 * 60 + second.1) * 1000000 + fraction.1 : Nat))
  else none

theorem length_padded {width n : Nat} (h : n < 10 ^ width) (hw : 0 < width) :
    (padded width n).length = width := by
  have hlen : (Nat.toDigits 10 n).length ≤ width :=
    (Nat.length_toDigits_le_iff (by decide) hw).2 h
  simp only [padded, List.length_append, List.length_replicate]
  omega

theorem ofDigitChars_padded (width n : Nat) : Nat.ofDigitChars 10 (padded width n) 0 = n := by
  have hzeros : ∀ k, Nat.ofDigitChars 10 (List.replicate k '0') 0 = 0 := by
    intro k
    induction k with
    | zero => rfl
    | succ k ih => exact ih
  rw [padded, Nat.ofDigitChars_append, hzeros, Nat.ofDigitChars_ten_toDigits]

theorem isDigit_padded (width n : Nat) : (padded width n).all Char.isDigit = true := by
  rw [padded, List.all_append, Bool.and_eq_true]
  constructor
  · rw [List.all_eq_true]
    intro c hc
    rw [List.eq_of_mem_replicate hc]
    decide
  · exact List.all_eq_true.2 fun c hc => Nat.isDigit_of_mem_toDigits (by decide) (by decide) hc

theorem readDigits_padded {width n : Nat} (h : n < 10 ^ width) (hw : 0 < width) (rest : List Char) :
    readDigits width (padded width n ++ rest) = some (n, rest) := by
  have hlen := length_padded h hw
  have htake : (padded width n ++ rest).take width = padded width n := by
    rw [List.take_append_of_le_length hlen.ge, List.take_of_length_le hlen.le]
  have hdrop : (padded width n ++ rest).drop width = rest := by
    exact List.drop_left' hlen
  rw [readDigits, htake, hdrop, if_pos ⟨hlen, isDigit_padded width n⟩, ofDigitChars_padded]

theorem readField_padded {width n : Nat} (h : n < 10 ^ width) (hw : 0 < width) (c : Char)
    (rest : List Char) : readField c width (c :: (padded width n ++ rest)) = some (n, rest) := by
  rw [readField, if_pos rfl, readDigits_padded h hw]

/-- An instant is read back from its text. -/
theorem fromisoformat_utcText {t : Instant} (h : InRange t) : fromisoformat (utcText t) = some t := by
  have hmonth := civil_month (t / 86400000000)
  have hday := civil_day (t / 86400000000)
  have hdays := daysOfCivil_civil (t / 86400000000)
  obtain ⟨hy1, hy2⟩ := h
  unfold utcText
  generalize civil (t / 86400000000) = date at *
  obtain ⟨year, month, day⟩ := date
  simp only at hmonth hday hdays hy1 hy2
  obtain ⟨micros, hmicros⟩ : ∃ micros, micros = (t % 86400000000).toNat := ⟨_, rfl⟩
  have hlt : micros < 86400000000 := by omega
  simp only [← hmicros]
  rw [fromisoformat, readDigits_padded (by omega) (by decide)]
  rw [Option.bind_eq_bind, Option.bind_some, readField_padded (by omega) (by decide)]
  rw [Option.bind_some, readField_padded (by omega) (by decide)]
  rw [Option.bind_some, readField_padded (by omega) (by decide)]
  rw [Option.bind_some, readField_padded (by omega) (by decide)]
  rw [Option.bind_some, readField_padded (by omega) (by decide)]
  rw [Option.bind_some, readField_padded (by omega) (by decide)]
  rw [Option.bind_some, if_pos ⟨rfl, by omega, by omega, by omega, by omega,
    by omega, by omega, by omega, by omega⟩]
  congr 1
  rw [Int.toNat_of_nonneg (by omega), Int.toNat_of_nonneg (by omega),
    Int.toNat_of_nonneg (by omega), hdays]
  have hsum : (micros / 1000000 / 3600 * 3600 + micros / 1000000 / 60 % 60 * 60 +
      micros / 1000000 % 60) * 1000000 + micros % 1000000 = micros := by omega
  simp only [hsum]
  have hclock : (micros : Int) = t % 86400000000 := by omega
  rw [hclock]
  exact Int.ediv_mul_add_emod t _

end Timestamp

end AgenticLocalApp
