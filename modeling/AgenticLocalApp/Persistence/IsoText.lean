import AgenticLocalApp.Persistence.DatetimeText

/-!
# The text of a timestamp

`isoformat` leaves the microseconds out when there are none, and prints the offset of the timestamp
as it is.  Still two timestamps that a `datetime` can hold are printed alike only if they are equal.
-/

namespace AgenticLocalApp

namespace Timestamp

/-- What a `datetime` can hold: its year has four digits, and its offset is less than a day. -/
def IsDatetime (t : Timestamp) : Prop :=
  InRange (t.instant + t.offset.getD 0 * 1000000) ∧ ∀ o ∈ t.offset, o.natAbs < 86400

theorem padded_append_inj {width m n : Nat} {r s : List Char} (hm : m < 10 ^ width)
    (hn : n < 10 ^ width) (hw : 0 < width) (h : padded width m ++ r = padded width n ++ s) :
    m = n ∧ r = s := by
  have hlen := (length_padded hm hw).trans (length_padded hn hw).symm
  obtain ⟨hp, hr⟩ := List.append_inj h hlen
  refine ⟨?_, hr⟩
  rw [← ofDigitChars_padded width m, hp, ofDigitChars_padded]

theorem offsetText_inj {a b : Int} (ha : a.natAbs < 86400) (hb : b.natAbs < 86400)
    (h : offsetText a = offsetText b) : a = b := by
  have hsplit : ∀ s : Int, offsetText s = (if s < 0 then '-' else '+') ::
      (padded 2 (s.natAbs / 3600) ++ (':' :: (padded 2 (s.natAbs / 60 % 60) ++
        if s.natAbs % 60 = 0 then [] else ':' :: (padded 2 (s.natAbs % 60) ++ [])))) := by
    intro s
    simp [offsetText]
  rw [hsplit, hsplit] at h
  obtain ⟨hsign, h⟩ := List.cons.inj h
  obtain ⟨hhour, h⟩ := padded_append_inj (by omega) (by omega) (by decide) h
  obtain ⟨hminute, h⟩ := padded_append_inj (by omega) (by omega) (by decide) (List.cons.inj h).2
  have hsecond : a.natAbs % 60 = b.natAbs % 60 := by
    split at h <;> split at h
    · omega
    · cases h
    · cases h
    · exact (padded_append_inj (by omega) (by omega) (by decide) (List.cons.inj h).2).1
  have hsame : a < 0 ↔ b < 0 := by
    by_cases h1 : a < 0 <;> by_cases h2 : b < 0 <;> simp [h1, h2] at hsign ⊢
  omega

/-- The text of date and time to the second, and what follows it. -/
def clockText (clock : Instant) (rest : List Char) : List Char :=
  let date := civil (clock / 86400000000)
  let seconds := (clock % 86400000000).toNat / 1000000
  padded 4 date.1.toNat ++ '-' :: (padded 2 date.2.1.toNat ++ '-' :: (padded 2 date.2.2.toNat ++
    'T' :: (padded 2 (seconds / 3600) ++ ':' :: (padded 2 (seconds / 60 % 60) ++ ':' ::
    (padded 2 (seconds % 60) ++ rest)))))

theorem clockText_inj {a b : Instant} {r s : List Char} (ha : InRange a) (hb : InRange b)
    (h : clockText a r = clockText b s) :
    a / 86400000000 = b / 86400000000 ∧
      (a % 86400000000).toNat / 1000000 = (b % 86400000000).toNat / 1000000 ∧ r = s := by
  have hma := civil_month (a / 86400000000)
  have hmb := civil_month (b / 86400000000)
  have hda := civil_day (a / 86400000000)
  have hdb := civil_day (b / 86400000000)
  have hya := daysOfCivil_civil (a / 86400000000)
  have hyb := daysOfCivil_civil (b / 86400000000)
  obtain ⟨ha1, ha2⟩ := ha
  obtain ⟨hb1, hb2⟩ := hb
  unfold clockText at h
  obtain ⟨hyear, h⟩ := padded_append_inj (by omega) (by omega) (by decide) h
  obtain ⟨hmonth, h⟩ := padded_append_inj (by omega) (by omega) (by decide) (List.cons.inj h).2
  obtain ⟨hday, h⟩ := padded_append_inj (by omega) (by omega) (by decide) (List.cons.inj h).2
  obtain ⟨hhour, h⟩ := padded_append_inj (by omega) (by omega) (by decide) (List.cons.inj h).2
  obtain ⟨hminute, h⟩ := padded_append_inj (by omega) (by omega) (by decide) (List.cons.inj h).2
  obtain ⟨hsecond, h⟩ := padded_append_inj (by omega) (by omega) (by decide) (List.cons.inj h).2
  refine ⟨?_, by omega, h⟩
  rw [← hya, ← hyb]
  congr 1 <;> omega

/-- The microseconds, if there are any. -/
def fractionText (fraction : Nat) : List Char :=
  if fraction = 0 then [] else '.' :: padded 6 fraction

def zoneText (offset : Option Int) : List Char := offset.elim [] offsetText

theorem zoneText_head (offset : Option Int) : ∀ c ∈ (zoneText offset).head?, c ≠ '.' := by
  intro c hc
  cases offset with
  | none => cases hc
  | some o =>
    have hhead : (zoneText (some o)).head? = some (if o < 0 then '-' else '+') := rfl
    rw [hhead] at hc
    obtain rfl := Option.some.inj hc
    split <;> decide

theorem fractionText_inj {m n : Nat} {o p : Option Int} (hm : m < 1000000) (hn : n < 1000000)
    (h : fractionText m ++ zoneText o = fractionText n ++ zoneText p) :
    m = n ∧ zoneText o = zoneText p := by
  unfold fractionText at h
  split at h <;> split at h
  · rename_i hm0 hn0
    exact ⟨hm0.trans hn0.symm, h⟩
  · exact absurd rfl (zoneText_head o '.' (by rw [show zoneText o = _ from h]; rfl))
  · exact absurd rfl (zoneText_head p '.' (by rw [show zoneText p = _ from h.symm]; rfl))
  · exact padded_append_inj (by omega) (by omega) (by decide) (List.cons.inj h).2

theorem zoneText_inj {o p : Option Int} (ho : ∀ a ∈ o, a.natAbs < 86400)
    (hp : ∀ a ∈ p, a.natAbs < 86400) (h : zoneText o = zoneText p) : o = p := by
  cases o with
  | none =>
    cases p with
    | none => rfl
    | some b => cases h
  | some a =>
    cases p with
    | none => cases h
    | some b => rw [offsetText_inj (ho a rfl) (hp b rfl) h]

/-- The microseconds of a timestamp on its own clock. -/
def clock (t : Timestamp) : Instant := t.instant + t.offset.getD 0 * 1000000

theorem isoformat_toList (t : Timestamp) :
    t.isoformat.toList = clockText t.clock
      (fractionText ((t.clock % 86400000000).toNat % 1000000) ++ zoneText t.offset) := by
  simp [isoformat, clockText, fractionText, zoneText, clock]
  rfl

theorem micros_eq {a b : Int} (hdays : a / 86400000000 = b / 86400000000)
    (hseconds : (a % 86400000000).toNat / 1000000 = (b % 86400000000).toNat / 1000000)
    (hfraction : (a % 86400000000).toNat % 1000000 = (b % 86400000000).toNat % 1000000) :
    a = b := by omega

/-- Two timestamps with the same text are the same. -/
theorem isoformat_inj {s t : Timestamp} (hs : s.IsDatetime) (ht : t.IsDatetime)
    (h : s.isoformat = t.isoformat) : s = t := by
  have htext := congrArg String.toList h
  rw [isoformat_toList, isoformat_toList] at htext
  obtain ⟨hdays, hseconds, htail⟩ := clockText_inj hs.1 ht.1 htext
  obtain ⟨hfraction, hzone⟩ := fractionText_inj (Nat.mod_lt _ (by decide))
    (Nat.mod_lt _ (by decide)) htail
  have hoffset := zoneText_inj hs.2 ht.2 hzone
  have hclock := micros_eq hdays hseconds hfraction
  obtain ⟨i, o⟩ := s
  obtain ⟨j, p⟩ := t
  obtain rfl : o = p := hoffset
  have hinstant : i = j := by simpa using hclock
  rw [hinstant]

end Timestamp

end AgenticLocalApp
