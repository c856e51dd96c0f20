import Mathlib.Order.Bounds.Basic
import Mathlib.Data.List.Basic
import AefTerminal.Domain.Bar
import AefTerminal.Foundation.CivilDate

/-!
# Session dates and written expiries

A message belongs to the session date of its publication instant: the local date, the next one
from the evening cutoff on, and then the first weekday. An expiry written as a month and a day
is completed with the year of that session date; a message without one falls back on its reported
days to expiry, then on the profile.

The zone is a parameter: a local date that never goes back, and a time of day of which nothing is
assumed.

## Main results

* `isLeast_skipWeekend`: the roll over a weekend ends on the first weekday
* `sessionDate_weekday`, `localDate_le_sessionDate`: where a session date lies
* `sessionDate_mono_iff`: the session dates follow the instants exactly where the clock does not
  go back over the cutoff
* `expiryFromContent_resolves_iff`: when a written date is completed with the right year
-/

namespace AefTerminal

open Foundation

/-- The local time of an exchange zone. -/
structure ZoneClock where
  localDate : Time → CivilDate
  /-- Microseconds since midnight. -/
  timeOfDay : Time → ℕ
  localDate_mono : ∀ {t t' : Time}, t ≤ t' → localDate t ≤ localDate t'

/-- `time(20, 15)`. -/
def eveningCutoff : ℕ := (20 * 60 + 15) * 60 * 1000000

/-- The loop over the days of a weekend. -/
def skipWeekend (sessionDay : CivilDate) : CivilDate :=
  if 5 ≤ sessionDay.weekday then skipWeekend sessionDay.nextDay else sessionDay
termination_by (7 - sessionDay.weekday) % 7
decreasing_by
  have hlt : sessionDay.weekday < 7 := Nat.mod_lt _ (by decide)
  rw [CivilDate.weekday_nextDay]
  omega

/-- The date before the roll over a weekend. -/
def ZoneClock.rolledDate (clock : ZoneClock) (publishedAt : Time) : CivilDate :=
  if eveningCutoff ≤ clock.timeOfDay publishedAt then (clock.localDate publishedAt).nextDay
  else clock.localDate publishedAt

/-- `discord_source_session_date`. -/
def discordSourceSessionDate (clock : ZoneClock) (publishedAt : Time) : CivilDate :=
  skipWeekend (clock.rolledDate publishedAt)

/-! ### The roll over a weekend -/

variable {d session : CivilDate}

theorem skipWeekend_of_weekday (h : d.weekday < 5) : skipWeekend d = d := by
  rw [skipWeekend, if_neg (not_le.mpr h)]

theorem skipWeekend_of_weekend (h : 5 ≤ d.weekday) :
    skipWeekend d = skipWeekend d.nextDay := by
  rw [skipWeekend, if_pos h]

/-- The first weekday that is not before the day. -/
theorem isLeast_skipWeekend (d : CivilDate) :
    IsLeast {e | d ≤ e ∧ e.weekday < 5} (skipWeekend d) := by
  induction d using skipWeekend.induct with
  | case1 d hend ih =>
    rw [skipWeekend_of_weekend hend]
    obtain ⟨⟨hle, hweek⟩, hleast⟩ := ih
    refine ⟨⟨(d.lt_nextDay.trans_le hle).le, hweek⟩, fun e he => hleast ⟨?_, he.2⟩⟩
    have hne : d ≠ e := fun heq => absurd (heq ▸ he.2) (not_lt.mpr hend)
    exact CivilDate.nextDay_le_of_lt (lt_of_le_of_ne he.1 hne)
  | case2 d hend =>
    have hweek : d.weekday < 5 := not_le.mp hend
    rw [skipWeekend_of_weekday hweek]
    exact ⟨⟨le_rfl, hweek⟩, fun e he => he.1⟩

theorem le_skipWeekend (d : CivilDate) : d ≤ skipWeekend d := (isLeast_skipWeekend d).1.1

theorem skipWeekend_mono {e : CivilDate} (h : d ≤ e) : skipWeekend d ≤ skipWeekend e :=
  (isLeast_skipWeekend d).2 ⟨h.trans (le_skipWeekend e), (isLeast_skipWeekend e).1.2⟩

/-! ### Where a session date lies -/

variable (clock : ZoneClock)

theorem sessionDate_weekday (t : Time) : (discordSourceSessionDate clock t).weekday < 5 :=
  (isLeast_skipWeekend _).1.2

theorem ZoneClock.localDate_le_rolledDate (t : Time) :
    clock.localDate t ≤ clock.rolledDate t := by
  unfold ZoneClock.rolledDate
  split_ifs
  · exact (CivilDate.lt_nextDay _).le
  · exact le_rfl

theorem ZoneClock.rolledDate_le_nextDay (t : Time) :
    clock.rolledDate t ≤ (clock.localDate t).nextDay := by
  unfold ZoneClock.rolledDate
  split_ifs
  · exact le_rfl
  · exact (CivilDate.lt_nextDay _).le

theorem localDate_le_sessionDate (t : Time) :
    clock.localDate t ≤ discordSourceSessionDate clock t :=
  (clock.localDate_le_rolledDate t).trans (le_skipWeekend _)

/-- On one weekday the clock does not show a time before the cutoff after one from it on. -/
def ZoneClock.KeepsCutoff : Prop :=
  ∀ t t', t ≤ t' → clock.localDate t = clock.localDate t' → (clock.localDate t).weekday < 5 →
    eveningCutoff ≤ clock.timeOfDay t → eveningCutoff ≤ clock.timeOfDay t'

theorem sessionDate_le_of_localDate_lt {t t' : Time}
    (h : clock.localDate t < clock.localDate t') :
    discordSourceSessionDate clock t ≤ discordSourceSessionDate clock t' :=
  skipWeekend_mono <|
    calc clock.rolledDate t ≤ (clock.localDate t).nextDay := clock.rolledDate_le_nextDay t
      _ ≤ clock.localDate t' := CivilDate.nextDay_le_of_lt h
      _ ≤ clock.rolledDate t' := clock.localDate_le_rolledDate t'

theorem sessionDate_mono_iff :
    (∀ t t', t ≤ t' → discordSourceSessionDate clock t ≤ discordSourceSessionDate clock t') ↔
      clock.KeepsCutoff := by
  constructor
  · intro hmono t t' hle hdate hweek hpassed
    by_contra hnot
    have hsession := hmono t t' hle
    simp only [discordSourceSessionDate, ZoneClock.rolledDate, if_pos hpassed, if_neg hnot,
      ← hdate] at hsession
    rw [skipWeekend_of_weekday hweek] at hsession
    exact absurd ((le_skipWeekend _).trans hsession) (not_le.mpr (CivilDate.lt_nextDay _))
  · intro hkeeps t t' hle
    rcases (clock.localDate_mono hle).lt_or_eq with hlt | hdate
    · exact sessionDate_le_of_localDate_lt clock hlt
    · by_cases hpassed : eveningCutoff ≤ clock.timeOfDay t
      · by_cases hweek : (clock.localDate t).weekday < 5
        · have hpassed' := hkeeps t t' hle hdate hweek hpassed
          simp only [discordSourceSessionDate, ZoneClock.rolledDate, if_pos hpassed,
            if_pos hpassed', hdate, le_refl]
        · -- a weekend ends on the same Monday from each of its days
          rw [not_lt] at hweek
          have hfirst : discordSourceSessionDate clock t = skipWeekend (clock.localDate t) := by
            rw [discordSourceSessionDate, ZoneClock.rolledDate, if_pos hpassed,
              ← skipWeekend_of_weekend hweek]
          rw [hfirst, hdate]
          exact skipWeekend_mono (clock.localDate_le_rolledDate t')
      · have hfirst : clock.rolledDate t = clock.localDate t := if_neg hpassed
        rw [discordSourceSessionDate, hfirst, hdate]
        exact skipWeekend_mono (clock.localDate_le_rolledDate t')

/-! ### Written expiries -/

/-- What the two expiry patterns find in a message. -/
structure ExpiryText where
  /-- The name of a month, in lower case, and the number after it. -/
  monthDay : Option (String × ℕ)
  /-- The number before `dte`. -/
  dte : Option ℕ

def monthNumber (name : String) : Option ℕ :=
  [("jan", 1), ("january", 1), ("feb", 2), ("february", 2), ("mar", 3), ("march", 3),
    ("apr", 4), ("april", 4), ("may", 5), ("jun", 6), ("june", 6), ("jul", 7), ("july", 7),
    ("aug", 8), ("august", 8), ("sep", 9), ("september", 9), ("oct", 10), ("october", 10),
    ("nov", 11), ("november", 11), ("dec", 12), ("december", 12)].lookup name

/-- `_expiry_from_content`: the expiry, the reported days to expiry and the reason code. -/
def expiryFromContent (text : ExpiryText) (publishedDay : CivilDate) (defaultDte : ℤ) :
    Option CivilDate × Option ℕ × String :=
  match text.monthDay with
  | some (name, day) =>
    match (monthNumber name).bind fun month => CivilDate.ofParts publishedDay.year month day with
    | some expiry => (some expiry, none, "explicit_expiry")
    | none => (none, none, "explicit_expiry_invalid")
  | none =>
    match text.dte with
    | some reportedDte =>
      if reportedDte = 0 then (some publishedDay, some 0, "source_reported_0dte")
      else (none, some reportedDte, "relative_expiry_reported")
    | none =>
      if defaultDte = 0 then (some publishedDay, some 0, "source_profile_0dte")
      else (none, none, "expiry_missing")

/-- The month and the day a message writes. -/
def ExpiryText.written (text : ExpiryText) : Option (ℕ × ℕ) :=
  text.monthDay.bind fun md => (monthNumber md.1).map fun month => (month, md.2)

variable {text : ExpiryText}

theorem expiryFromContent_of_written {month day : ℕ}
    (h : text.written = some (month, day)) (session : CivilDate) (defaultDte : ℤ) :
    (expiryFromContent text session defaultDte).1 = CivilDate.ofParts session.year month day := by
  obtain ⟨⟨name, day'⟩, hmd, hmonth⟩ := Option.bind_eq_some_iff.mp h
  obtain ⟨month', hnumber, heq⟩ := Option.map_eq_some_iff.mp hmonth
  obtain ⟨rfl, rfl⟩ := Prod.mk.inj heq
  simp only [expiryFromContent, hmd, hnumber, Option.bind_some]
  cases CivilDate.ofParts session.year month' day' <;> rfl

/-- A message that writes no date has no expiry but its session date. -/
theorem expiryFromContent_of_not_written (h : text.written = none) {defaultDte : ℤ}
    (hd : (expiryFromContent text session defaultDte).1 = some d) : d = session := by
  unfold expiryFromContent at hd
  cases hmd : text.monthDay with
  | some md =>
    obtain ⟨name, day⟩ := md
    have hnumber : monthNumber name = none := by
      rw [ExpiryText.written, hmd, Option.bind_some] at h
      exact Option.map_eq_none_iff.mp h
    simp only [hmd, hnumber, Option.bind_none] at hd
    exact absurd hd (Option.not_mem_none d)
  | none =>
    simp only [hmd] at hd
    split at hd
    · split_ifs at hd
      · exact (Option.some.inj hd).symm
    · split_ifs at hd
      · exact (Option.some.inj hd).symm

/-- The dates with this month and day from a session date on, within a year of it. -/
def occurrences (session : CivilDate) (month day : ℕ) : Set CivilDate :=
  {d | d.month = month ∧ d.day = day ∧ session ≤ d ∧
    d.rank ≤ session.rank + CivilDate.yearRank}

/-- An expiry is the first of a set of dates, no expiry says that the set is empty. -/
def IsFirstOf (dates : Set CivilDate) : Option CivilDate → Prop
  | some d => IsLeast dates d
  | none => dates = ∅

/-- The year of the session date is the right one for a month and a day: the date is not over
yet, or does not exist and comes back no sooner than in a year. -/
def YearFits (session : CivilDate) (month day : ℕ) : Prop :=
  (∀ d, CivilDate.ofParts session.year month day = some d → session ≤ d) ∧
    (CivilDate.ofParts session.year month day = none →
      ∀ d, CivilDate.ofParts (session.year + 1) month day = some d →
        session.rank + CivilDate.yearRank < d.rank)

theorem occurrences_year {month day : ℕ} (h : d ∈ occurrences session month day) :
    d.year = session.year ∨ d.year = session.year + 1 := by
  obtain ⟨-, -, hle, hyear⟩ := h
  rw [CivilDate.le_iff_rank] at hle
  have hd := d.day_lt
  have hs := session.day_lt
  have hdm := d.month_mem
  have hsm := session.month_mem
  simp only [CivilDate.rank, CivilDate.yearRank] at hle hyear
  omega

/-- A date of the session's own year is within a year of it. -/
theorem rank_le_of_year_eq (h : d.year = session.year) :
    d.rank ≤ session.rank + CivilDate.yearRank := by
  have hd := d.day_lt
  have hdm := d.month_mem
  simp only [CivilDate.rank, CivilDate.yearRank, h]
  omega

theorem le_of_year_eq_succ (h : d.year = session.year + 1) :
    session ≤ d := by
  have hs := session.day_lt
  have hsm := session.month_mem
  rw [CivilDate.le_iff_rank]
  simp only [CivilDate.rank, CivilDate.yearRank, h]
  omega

theorem isFirstOf_ofParts_iff (session : CivilDate) (month day : ℕ) :
    IsFirstOf (occurrences session month day) (CivilDate.ofParts session.year month day) ↔
      YearFits session month day := by
  unfold YearFits
  cases h : CivilDate.ofParts session.year month day with
  | some d =>
    obtain ⟨hy, hm, hd⟩ := CivilDate.ofParts_eq_some.mp h
    constructor
    · intro hleast
      refine ⟨fun e he => ?_, fun hnone => nomatch hnone⟩
      cases he
      exact hleast.1.2.2.1
    · rintro ⟨hahead, -⟩
      refine ⟨⟨hm, hd, hahead d rfl, rank_le_of_year_eq hy⟩, fun e he => ?_⟩
      rcases occurrences_year he with hey | hey
      · exact (CivilDate.ext_parts (hy.trans hey.symm) (hm.trans he.1.symm)
          (hd.trans he.2.1.symm)).le
      · exact le_of_year_eq_succ (hey.trans (congrArg (· + 1) hy.symm))
  | none =>
    constructor
    · intro hempty
      refine ⟨fun e he => (nomatch he), fun _ d hnext => ?_⟩
      obtain ⟨hy, hm, hd⟩ := CivilDate.ofParts_eq_some.mp hnext
      by_contra hlate
      have hmem : d ∈ occurrences session month day :=
        ⟨hm, hd, le_of_year_eq_succ hy, not_lt.mp hlate⟩
      rw [show occurrences session month day = ∅ from hempty] at hmem
      exact hmem
    · rintro ⟨-, hnext⟩
      refine Set.eq_empty_iff_forall_notMem.mpr fun d hmem => ?_
      rcases occurrences_year hmem with hy | hy
      · exact CivilDate.ofParts_eq_none.mp h d ⟨hy, hmem.1, hmem.2.1⟩
      · have hlater := hnext rfl d (CivilDate.ofParts_eq_some.mpr ⟨hy, hmem.1, hmem.2.1⟩)
        exact absurd hmem.2.2.2 (not_le.mpr hlater)

/-- A written date is resolved to its first occurrence exactly where the session's year fits. -/
theorem expiryFromContent_resolves_iff {month day : ℕ}
    (h : text.written = some (month, day)) (session : CivilDate) (defaultDte : ℤ) :
    IsFirstOf (occurrences session month day) (expiryFromContent text session defaultDte).1 ↔
      YearFits session month day := by
  rw [expiryFromContent_of_written h]
  exact isFirstOf_ofParts_iff session month day

/-- Where the years fit, an expiry is never before its session date. -/
theorem session_le_expiry {defaultDte : ℤ}
    (hfits : ∀ month day, text.written = some (month, day) → YearFits session month day)
    (hd : (expiryFromContent text session defaultDte).1 = some d) : session ≤ d := by
  cases h : text.written with
  | none => exact (expiryFromContent_of_not_written h hd).ge
  | some md =>
    obtain ⟨month, day⟩ := md
    rw [expiryFromContent_of_written h] at hd
    exact (hfits month day h).1 d hd

end AefTerminal
