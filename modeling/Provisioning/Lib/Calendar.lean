import Mathlib.Algebra.Order.Ring.Nat
import Mathlib.Tactic.Linarith

/-!
# Days and their dates

The proleptic Gregorian calendar. A day is the number of days since 1970-01-01.
-/

namespace Lib

/-! ## Dates -/

structure Date where
  year : Nat
  month : Nat
  day : Nat
  deriving DecidableEq, Repr

namespace Date

/-- Days from 0000-03-01 to 1970-01-01. A year that begins in March ends with its leap day. -/
def epoch : Nat := 719468

/-- The year within a cycle of 400 years: centuries, then groups of four years, then years. The last
one of each may be a day longer. -/
def yearOfCycle (dayOfCycle : Nat) : Nat :=
  let century := min (dayOfCycle / 36524) 3
  let dayOfCentury := dayOfCycle - 36524 * century
  let dayOfLeap := dayOfCentury % 1461
  100 * century + 4 * (dayOfCentury / 1461) + min (dayOfLeap / 365) 3

def daysBeforeYear (yearOfCycle : Nat) : Nat := 365 * yearOfCycle + yearOfCycle / 4 - yearOfCycle / 100

/-- Days before a month of a year that begins in March. -/
def daysBeforeMonth (month : Nat) : Nat := (153 * month + 2) / 5

def ofDays (days : Nat) : Date :=
  let dayOfCycle := (days + epoch) % 146097
  let year := yearOfCycle dayOfCycle
  let dayOfYear := dayOfCycle - daysBeforeYear year
  let month := (5 * dayOfYear + 2) / 153
  { year := 400 * ((days + epoch) / 146097) + year + if month < 10 then 0 else 1
    month := if month < 10 then month + 3 else month - 9
    day := dayOfYear - daysBeforeMonth month + 1 }

def toDays (d : Date) : Nat :=
  let year := if d.month ≤ 2 then d.year - 1 else d.year
  let month := if d.month ≤ 2 then d.month + 9 else d.month - 3
  146097 * (year / 400) + daysBeforeYear (year % 400) + (daysBeforeMonth month + d.day - 1) - epoch

theorem yearOfCycle_spec {n : Nat} (h : n < 146097) :
    yearOfCycle n < 400 ∧ daysBeforeYear (yearOfCycle n) ≤ n ∧ n < daysBeforeYear (yearOfCycle n) + 366 := by
  unfold yearOfCycle daysBeforeYear
  simp only
  generalize hcentury : min (n / 36524) 3 = century
  have hc : century ≤ 3 ∧ 36524 * century ≤ n ∧ n - 36524 * century ≤ 36524 := by omega
  generalize hleft : n - 36524 * century = left at *
  generalize hyear : min (left % 1461 / 365) 3 = year
  have hq : left / 1461 ≤ 24 := by omega
  have hr := Nat.div_add_mod left 1461
  have hy : year ≤ 3 ∧ 365 * year ≤ left % 1461 ∧ left % 1461 < 365 * year + 366 := by omega
  generalize left % 1461 = day at *
  generalize left / 1461 = quad at *
  have h₁ : (100 * century + 4 * quad + year) / 4 = 25 * century + quad := by omega
  have h₂ : (100 * century + 4 * quad + year) / 100 = century := by omega
  rw [h₁, h₂]
  omega

theorem month_spec {n : Nat} (h : n < 366) :
    (5 * n + 2) / 153 < 12 ∧ daysBeforeMonth ((5 * n + 2) / 153) ≤ n ∧
      n < daysBeforeMonth ((5 * n + 2) / 153) + 31 := by
  unfold daysBeforeMonth
  omega

theorem month_ofDays (days : Nat) : 1 ≤ (ofDays days).month ∧ (ofDays days).month ≤ 12 := by
  have hcycle := yearOfCycle_spec (Nat.mod_lt (days + epoch) (show 0 < 146097 by omega))
  have hmonth := month_spec (n := (days + epoch) % 146097 -
    daysBeforeYear (yearOfCycle ((days + epoch) % 146097))) (by omega)
  unfold ofDays
  simp only
  split <;> omega

theorem day_ofDays (days : Nat) : 1 ≤ (ofDays days).day ∧ (ofDays days).day ≤ 31 := by
  have hcycle := yearOfCycle_spec (Nat.mod_lt (days + epoch) (show 0 < 146097 by omega))
  have hmonth := month_spec (n := (days + epoch) % 146097 -
    daysBeforeYear (yearOfCycle ((days + epoch) % 146097))) (by omega)
  unfold ofDays
  simp only
  omega

theorem toDays_ofDays (days : Nat) : (ofDays days).toDays = days := by
  have hcycle := yearOfCycle_spec (Nat.mod_lt (days + epoch) (show 0 < 146097 by omega))
  have hmonth := month_spec (n := (days + epoch) % 146097 -
    daysBeforeYear (yearOfCycle ((days + epoch) % 146097))) (by omega)
  have hsplit := Nat.div_add_mod (days + epoch) 146097
  unfold toDays ofDays
  simp only
  generalize (days + epoch) % 146097 = n at *
  generalize (days + epoch) / 146097 = era at *
  generalize yearOfCycle n = year at *
  generalize hday : n - daysBeforeYear year = dayOfYear at *
  generalize (5 * dayOfYear + 2) / 153 = month at *
  by_cases hm : month < 10
  · have h₁ : ¬ month + 3 ≤ 2 := by omega
    have h₂ : (400 * era + year + 0) / 400 = era := by omega
    have h₃ : (400 * era + year + 0) % 400 = year := by omega
    have h₄ : month + 3 - 3 = month := by omega
    simp only [hm, h₁, if_true, if_false, h₂, h₃, h₄]
    omega
  · have h₁ : month - 9 ≤ 2 := by omega
    have h₂ : (400 * era + year + 1 - 1) / 400 = era := by omega
    have h₃ : (400 * era + year + 1 - 1) % 400 = year := by omega
    have h₄ : month - 9 + 9 = month := by omega
    simp only [hm, h₁, if_true, if_false, h₂, h₃, h₄]
    omega

theorem ofDays_injective : Function.Injective ofDays := by
  intro a b h
  rw [← toDays_ofDays a, h, toDays_ofDays]

end Date

/-! ## Decimal text -/

/-- `n` in decimal, with zeros before it up to the width. -/
def padded (width n : Nat) : List Char :=
  List.replicate (width - (Nat.toDigits 10 n).length) '0' ++ Nat.toDigits 10 n

theorem ofDigitChars_padded (width n : Nat) : Nat.ofDigitChars 10 (padded width n) 0 = n := by
  unfold padded
  rw [Nat.ofDigitChars_append, Nat.ofDigitChars_replicate_zero, Nat.mul_zero, Nat.ofDigitChars_ten_toDigits]

theorem ofDigitChars_padded_init (width n init : Nat) :
    Nat.ofDigitChars 10 (padded width n) init = 10 ^ (padded width n).length * init + n := by
  rw [Nat.ofDigitChars_eq_ofDigitChars_zero, ofDigitChars_padded]

theorem length_padded_eq_iff {width n : Nat} (hw : 0 < width) :
    (padded width n).length = width ↔ n < 10 ^ width := by
  rw [← Nat.length_toDigits_le_iff (by omega) hw]
  unfold padded
  rw [List.length_append, List.length_replicate]
  omega

theorem le_length_padded (width n : Nat) : width ≤ (padded width n).length := by
  unfold padded
  rw [List.length_append, List.length_replicate]
  omega

theorem isDigit_of_mem_padded {width n : Nat} {c : Char} (hc : c ∈ padded width n) : c.isDigit := by
  unfold padded at hc
  rcases List.mem_append.1 hc with hc | hc
  · rw [(List.mem_replicate.1 hc).2]
    rfl
  · exact Nat.isDigit_of_mem_toDigits (by omega) (by omega) hc

end Lib
