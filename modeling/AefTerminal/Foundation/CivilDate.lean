import Mathlib.Order.Basic
import Mathlib.Order.Lattice
import Mathlib.Data.Nat.Basic
import Mathlib.Tactic.SplitIfs

/-!
# Civil dates

Dates of the proleptic Gregorian calendar as year, month and day, with no upper bound on the
year. Only dates that exist can be built: `ofParts` is where a date is refused. The order is the
one of the text `YYYY-MM-DD`; the ordinal counts days from the first of January of the year 1,
which is a Monday.

## Main results

* `CivilDate.ofParts_eq_some`: what `ofParts` accepts
* `CivilDate.lt_nextDay`, `CivilDate.nextDay_le_of_lt`: the next day is the next date in the order
* `CivilDate.ordinal_nextDay`, `CivilDate.weekday_nextDay`: the next day in the count of days
-/

namespace Foundation

/-- A leap year of the Gregorian calendar. -/
abbrev IsLeap (year : ℕ) : Prop := year % 4 = 0 ∧ (year % 100 ≠ 0 ∨ year % 400 = 0)

def daysInMonth (year month : ℕ) : ℕ :=
  if month = 2 then if IsLeap year then 29 else 28
  else if month = 4 ∨ month = 6 ∨ month = 9 ∨ month = 11 then 30
  else 31

theorem daysInMonth_pos (year month : ℕ) : 28 ≤ daysInMonth year month := by
  unfold daysInMonth
  split_ifs <;> omega

theorem daysInMonth_le (year month : ℕ) : daysInMonth year month ≤ 31 := by
  unfold daysInMonth
  split_ifs <;> omega

/-- A date that exists. -/
structure CivilDate where
  year : ℕ
  month : ℕ
  day : ℕ
  one_le_year : 1 ≤ year
  month_mem : 1 ≤ month ∧ month ≤ 12
  day_mem : 1 ≤ day ∧ day ≤ daysInMonth year month
deriving DecidableEq, Repr

namespace CivilDate

variable {d e : CivilDate}

theorem ext_parts (hy : d.year = e.year) (hm : d.month = e.month) (hd : d.day = e.day) : d = e := by
  obtain ⟨y, m, k, _, _, _⟩ := d
  obtain ⟨y', m', k', _, _, _⟩ := e
  obtain rfl : y = y' := hy
  obtain rfl : m = m' := hm
  obtain rfl : k = k' := hd
  rfl

/-- The date with these parts, if there is one. -/
def ofParts (year month day : ℕ) : Option CivilDate :=
  if h : 1 ≤ year ∧ (1 ≤ month ∧ month ≤ 12) ∧ 1 ≤ day ∧ day ≤ daysInMonth year month then
    some ⟨year, month, day, h.1, h.2.1, h.2.2⟩
  else none

theorem ofParts_eq_some {year month day : ℕ} :
    ofParts year month day = some d ↔ d.year = year ∧ d.month = month ∧ d.day = day := by
  unfold ofParts
  split_ifs with h
  · constructor
    · intro heq
      cases heq
      exact ⟨rfl, rfl, rfl⟩
    · rintro ⟨hy, hm, hd⟩
      exact congrArg some (ext_parts hy.symm hm.symm hd.symm)
  · refine ⟨fun heq => heq.elim, ?_⟩
    rintro ⟨rfl, rfl, rfl⟩
    exact absurd ⟨d.one_le_year, d.month_mem, d.day_mem⟩ h

theorem ofParts_eq_none {year month day : ℕ} :
    ofParts year month day = none ↔
      ∀ d : CivilDate, ¬ (d.year = year ∧ d.month = month ∧ d.day = day) := by
  constructor
  · intro hnone d hd
    rw [ofParts_eq_some.mpr hd] at hnone
    exact nomatch hnone
  · intro hall
    cases h : ofParts year month day with
    | none => rfl
    | some d => exact absurd (ofParts_eq_some.mp h) (hall d)

/-! ### The order

A month has fewer than 32 days and a year fewer than 13 months, so one number in mixed radix
orders the dates. -/

/-- What one year counts for in `rank`. -/
def yearRank : ℕ := 13 * 32

def rank (d : CivilDate) : ℕ := d.year * yearRank + d.month * 32 + d.day

theorem day_lt (d : CivilDate) : d.day < 32 :=
  Nat.lt_succ_of_le (d.day_mem.2.trans (daysInMonth_le _ _))

theorem rank_injective : Function.Injective rank := by
  intro d e h
  have hd := d.day_lt
  have he := e.day_lt
  have hdm := d.month_mem
  have hem := e.month_mem
  simp only [rank, yearRank] at h
  exact ext_parts (by omega) (by omega) (by omega)

instance : LinearOrder CivilDate := LinearOrder.lift' rank rank_injective

theorem le_iff_rank : d ≤ e ↔ d.rank ≤ e.rank := Iff.rfl

theorem lt_iff_rank : d < e ↔ d.rank < e.rank := by
  rw [← not_le, ← not_le, le_iff_rank]

/-! ### The next day -/

def nextDay (d : CivilDate) : CivilDate :=
  if hday : d.day < daysInMonth d.year d.month then
    ⟨d.year, d.month, d.day + 1, d.one_le_year, d.month_mem, Nat.le_add_left _ _, hday⟩
  else if hmonth : d.month < 12 then
    ⟨d.year, d.month + 1, 1, d.one_le_year, ⟨Nat.le_add_left _ _, hmonth⟩, le_rfl,
      (by decide : 1 ≤ 28).trans (daysInMonth_pos _ _)⟩
  else
    ⟨d.year + 1, 1, 1, Nat.le_add_left _ _, by decide, le_rfl,
      (by decide : 1 ≤ 28).trans (daysInMonth_pos _ _)⟩

theorem lt_nextDay (d : CivilDate) : d < d.nextDay := by
  have hd := d.day_lt
  have hm := d.month_mem
  rw [lt_iff_rank]
  unfold nextDay rank yearRank
  split_ifs <;> dsimp only <;> omega

/-- No date lies between a date and its next day. -/
theorem nextDay_le_of_lt (h : d < e) : d.nextDay ≤ e := by
  have hd := d.day_lt
  have hm := d.month_mem
  have he := e.day_mem
  have hem := e.month_mem
  have helt := e.day_lt
  rw [lt_iff_rank] at h
  rw [le_iff_rank]
  unfold nextDay
  split_ifs with hday hmonth
  · simp only [rank, yearRank] at h ⊢
    omega
  · -- in the same month `e` would be after its last day
    have hsame : ¬ (e.year = d.year ∧ e.month = d.month) := by
      rintro ⟨hy, hmo⟩
      rw [hy, hmo] at he
      simp only [rank, yearRank, hy, hmo] at h
      omega
    simp only [rank, yearRank] at h ⊢
    omega
  · have hsame : ¬ (e.year = d.year ∧ e.month = d.month) := by
      rintro ⟨hy, hmo⟩
      rw [hy, hmo] at he
      simp only [rank, yearRank, hy, hmo] at h
      omega
    simp only [rank, yearRank] at h ⊢
    omega

/-! ### The count of days -/

/-- The days of the years before `year`. -/
def daysBeforeYear (year : ℕ) : ℕ :=
  (year - 1) * 365 + (year - 1) / 4 - (year - 1) / 100 + (year - 1) / 400

/-- The days of the first `months` months of a year. -/
def daysOfMonths (year : ℕ) : ℕ → ℕ
  | 0 => 0
  | month + 1 => daysOfMonths year month + daysInMonth year (month + 1)

/-- The number of the day, 1 for the first of January of the year 1. -/
def ordinal (d : CivilDate) : ℕ :=
  daysBeforeYear d.year + daysOfMonths d.year (d.month - 1) + d.day

/-- The day of the week, 0 for Monday. -/
def weekday (d : CivilDate) : ℕ := (d.ordinal + 6) % 7

theorem daysOfMonths_twelve (year : ℕ) :
    daysOfMonths year 12 = 365 + if IsLeap year then 1 else 0 := by
  by_cases hleap : IsLeap year
  · simp [daysOfMonths, daysInMonth, if_pos hleap]
  · simp [daysOfMonths, daysInMonth, if_neg hleap]

theorem daysBeforeYear_succ {year : ℕ} (h : 1 ≤ year) :
    daysBeforeYear (year + 1) = daysBeforeYear year + daysOfMonths year 12 := by
  obtain ⟨n, rfl⟩ : ∃ n, year = n + 1 := ⟨year - 1, by omega⟩
  have htwelve := daysOfMonths_twelve (n + 1)
  generalize daysOfMonths (n + 1) 12 = days at htwelve ⊢
  unfold daysBeforeYear
  rw [Nat.add_sub_cancel, Nat.add_sub_cancel]
  by_cases hleap : IsLeap (n + 1)
  · rw [if_pos hleap] at htwelve
    obtain ⟨hfour, hhundred⟩ := hleap
    omega
  · rw [if_neg hleap] at htwelve
    rw [IsLeap, not_and_or, not_or, not_not] at hleap
    rcases hleap with hfour | ⟨hhundred, hfourhundred⟩
    · have hquarter : (n + 1) / 4 = n / 4 := by omega
      have hhundredth : (n + 1) / 100 = n / 100 := by omega
      have hlast : (n + 1) / 400 = n / 400 := by omega
      omega
    · have hquarter : (n + 1) / 4 = n / 4 + 1 := by omega
      have hhundredth : (n + 1) / 100 = n / 100 + 1 := by omega
      have hlast : (n + 1) / 400 = n / 400 := by omega
      omega

theorem ordinal_nextDay (d : CivilDate) : d.nextDay.ordinal = d.ordinal + 1 := by
  have hm := d.month_mem
  have hd := d.day_mem
  have hsucc : daysOfMonths d.year d.month
      = daysOfMonths d.year (d.month - 1) + daysInMonth d.year d.month := by
    obtain ⟨month, hmonth⟩ : ∃ month, d.month = month + 1 := ⟨d.month - 1, by omega⟩
    rw [hmonth]
    rfl
  unfold nextDay ordinal
  split_ifs with hday hmonth
  · dsimp only
    omega
  · dsimp only
    rw [Nat.add_sub_cancel, hsucc]
    omega
  · have htwelve : d.month = 12 := by omega
    rw [htwelve] at hsucc hd hday
    have hyear := daysBeforeYear_succ d.one_le_year
    have hjanuary : daysOfMonths (d.year + 1) (1 - 1) = 0 := rfl
    rw [htwelve]
    dsimp only
    omega

theorem weekday_nextDay (d : CivilDate) : d.nextDay.weekday = (d.weekday + 1) % 7 := by
  rw [weekday, weekday, ordinal_nextDay]
  omega

end CivilDate

end Foundation
