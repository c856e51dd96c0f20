import AefTerminal.Foundation.Tiling
import AefTerminal.History.Derived
import AefTerminal.Sessions.SlotCoverage

/-!
# The bars of a session

A provider has a grid of bars. The grid of most begins its bars at whole steps from the epoch on;
IBKR begins the first bar of a session where the session does. `provider_session_bar_buckets` goes
through a session from bar to bar.

`interval_bucket` takes the second of an instant with `int`, that is towards zero: before the epoch
the fractions of a step's last second belong to the step after it.

## Main definitions

* `providerBarBucket`, `providerSessionBarBuckets`
* `WithinSteps`: the sessions whose bars tile them

## Main results

* `buckets_tile_iff`
* `startsAt_pairwise`, `startsAt_le_of_before`: the bars of sessions that follow each other begin in
  order, also before the epoch
-/

namespace AefTerminal

open Foundation

/-- A timeframe, by its `interval_minutes`, which are never below one. -/
structure Timeframe where
  minutes : ℕ
  pos : 1 ≤ minutes

namespace Timeframe

/-- `interval_seconds` -/
def seconds (timeframe : Timeframe) : ℤ := timeframe.minutes * 60

/-- `timedelta(minutes=max(interval_minutes(interval), 1))` -/
def step (timeframe : Timeframe) : Time := (max timeframe.minutes 1 : ℕ) * 60 * microseconds

/-- `interval_bucket` -/
def bucket (timeframe : Timeframe) (ts : Time) : Time :=
  let epoch := ts.tdiv microseconds
  (epoch - epoch % timeframe.seconds) * microseconds

end Timeframe

/-- The chart intervals among the timeframes. -/
def ChartInterval.timeframe (interval : ChartInterval) : Timeframe :=
  ⟨interval.minutes, by cases interval <;> decide⟩

/-! ### The grids -/

inductive ProviderGrid
  | base
  | ibkr
  deriving DecidableEq, Repr

def ProviderBarBucket.span (b : ProviderBarBucket) : Span Time := ⟨b.startsAt, b.closesAt⟩

/-- `ProviderAdapter._provider_bar_bucket_for_qualified` -/
def baseBarBucket (timeframe : Timeframe) (ts : Time) (sessionOpen sessionClose : Option Time) :
    Option ProviderBarBucket :=
  if ∃ opensAt ∈ sessionOpen, ts < opensAt then none
  else if ∃ closesAt ∈ sessionClose, closesAt ≤ ts then none
  else
    let startsAt := timeframe.bucket ts
    let bucketClose := match sessionClose with
      | some closesAt => min (startsAt + timeframe.step) closesAt
      | none => startsAt + timeframe.step
    if bucketClose ≤ startsAt then none else some ⟨startsAt, bucketClose⟩

/-- `IbkrAdapter._provider_bar_bucket_for_qualified`: the opening partial bar starts at the open. -/
def ibkrBarBucket (timeframe : Timeframe) (ts : Time) (sessionOpen sessionClose : Option Time) :
    Option ProviderBarBucket :=
  match baseBarBucket timeframe ts sessionOpen sessionClose, sessionOpen with
  | some b, some opensAt =>
    if b.closesAt ≤ max b.startsAt opensAt then none
    else some ⟨max b.startsAt opensAt, b.closesAt⟩
  | b, _ => b

/-- `provider_bar_bucket` -/
def providerBarBucket (grid : ProviderGrid) (timeframe : Timeframe) (ts : Time)
    (sessionOpen sessionClose : Option Time) : Option ProviderBarBucket :=
  match grid with
  | .base => baseBarBucket timeframe ts sessionOpen sessionClose
  | .ibkr => ibkrBarBucket timeframe ts sessionOpen sessionClose

/-- The bar of an instant of a session. -/
def sessionBarBucket (grid : ProviderGrid) (timeframe : Timeframe) (session : Span Time) (ts : Time) :
    Option ProviderBarBucket :=
  providerBarBucket grid timeframe ts (some session.starts) (some session.ends)

/-- `provider_session_bar_buckets` -/
def providerSessionBarBuckets (grid : ProviderGrid) (timeframe : Timeframe) (session : Span Time) :
    List ProviderBarBucket :=
  if session.ends ≤ session.starts then []
  else walkCells ProviderBarBucket.span (sessionBarBucket grid timeframe session) session.ends
    session.starts

/-! ### The steps -/

section Steps

variable {timeframe : Timeframe} {ts k : ℤ}

theorem Timeframe.step_eq (timeframe : Timeframe) :
    timeframe.step = timeframe.seconds * microseconds := by
  rw [step, max_eq_left timeframe.pos, seconds]

theorem one_le_microseconds : 1 ≤ microseconds := by decide

theorem Timeframe.seconds_pos (timeframe : Timeframe) : 60 ≤ timeframe.seconds := by
  have hpos := timeframe.pos
  rw [seconds]
  omega

theorem Timeframe.step_pos (timeframe : Timeframe) : 0 < timeframe.step := by
  rw [step_eq]
  exact Int.mul_pos (by have := timeframe.seconds_pos; omega) (by decide)

/-- An instant lies in its step. -/
theorem Timeframe.step_holds (timeframe : Timeframe) (ts : Time) :
    ts / timeframe.step * timeframe.step ≤ ts ∧
      ts < ts / timeframe.step * timeframe.step + timeframe.step :=
  ⟨Int.ediv_mul_le ts timeframe.step_pos.ne',
    (Int.lt_ediv_add_one_mul_self ts timeframe.step_pos).trans_eq (by ring)⟩

/-- The seconds of an instant, towards zero. -/
theorem tdiv_of_nonneg {n : ℤ} (h : 0 ≤ n) : n.tdiv microseconds * microseconds ≤ n ∧
    n < n.tdiv microseconds * microseconds + microseconds := by
  have hmod := Int.tmod_add_tdiv_mul n microseconds
  have hnonneg : 0 ≤ n.tmod microseconds := Int.tmod_nonneg _ h
  have hlt : n.tmod microseconds < microseconds := Int.tmod_lt_of_pos _ (by decide)
  constructor <;> omega

theorem tdiv_of_neg {n : ℤ} (h : n < 0) : n ≤ n.tdiv microseconds * microseconds ∧
    n.tdiv microseconds * microseconds < n + microseconds := by
  have hpos : 0 ≤ -n := by omega
  obtain ⟨hle, hlt⟩ := tdiv_of_nonneg hpos
  rw [Int.neg_tdiv, Int.neg_mul] at hle hlt
  constructor <;> omega

/-- The step of an instant is read off its second. -/
theorem bucket_eq_of_second (hlow : k * timeframe.seconds ≤ ts.tdiv microseconds)
    (hhigh : ts.tdiv microseconds < k * timeframe.seconds + timeframe.seconds) :
    timeframe.bucket ts = k * timeframe.step := by
  have hpos : 0 < timeframe.seconds := lt_of_lt_of_le (by decide) timeframe.seconds_pos
  have hdiv : ts.tdiv microseconds / timeframe.seconds = k :=
    (Int.ediv_eq_iff_of_pos hpos).mpr ⟨hlow, hhigh⟩
  have hsplit := Int.mul_ediv_add_emod (ts.tdiv microseconds) timeframe.seconds
  rw [hdiv, mul_comm] at hsplit
  rw [Timeframe.bucket, timeframe.step_eq, ← mul_assoc]
  exact congrArg (· * microseconds) (by omega)

/-- An instant of a step, but for the fractions of its last second before the epoch. -/
theorem bucket_eq (hlow : k * timeframe.step ≤ ts) (hhigh : ts < k * timeframe.step + timeframe.step)
    (h : 0 ≤ ts ∨ ts ≤ k * timeframe.step + timeframe.step - microseconds) :
    timeframe.bucket ts = k * timeframe.step := by
  rw [timeframe.step_eq, ← mul_assoc] at hlow hhigh h
  simp only [microseconds] at hlow hhigh h
  rcases lt_or_ge ts 0 with hneg | hnonneg
  · obtain ⟨hle, hlt⟩ := tdiv_of_neg hneg
    simp only [microseconds] at hle hlt
    exact bucket_eq_of_second (by simp only [microseconds]; omega) (by simp only [microseconds]; omega)
  · obtain ⟨hle, hlt⟩ := tdiv_of_nonneg hnonneg
    simp only [microseconds] at hle hlt
    exact bucket_eq_of_second (by simp only [microseconds]; omega) (by simp only [microseconds]; omega)

/-- Those fractions belong to the step after it. -/
theorem bucket_eq_next (hneg : ts < 0) (hhigh : ts < k * timeframe.step + timeframe.step)
    (h : k * timeframe.step + timeframe.step - microseconds < ts) :
    timeframe.bucket ts = k * timeframe.step + timeframe.step := by
  have hnext : k * timeframe.step + timeframe.step = (k + 1) * timeframe.step := by ring
  have hseconds : (k + 1) * timeframe.seconds = k * timeframe.seconds + timeframe.seconds := by ring
  have hpos := timeframe.seconds_pos
  obtain ⟨hle, hlt⟩ := tdiv_of_neg hneg
  rw [hnext]
  rw [timeframe.step_eq, ← mul_assoc] at hhigh h
  simp only [microseconds] at hle hlt hhigh h
  refine bucket_eq_of_second ?_ ?_
  · rw [hseconds]
    simp only [microseconds]
    omega
  · rw [hseconds]
    simp only [microseconds]
    omega

theorem Timeframe.bucket_mono (timeframe : Timeframe) {ts ts' : Time} (h : ts ≤ ts') :
    timeframe.bucket ts ≤ timeframe.bucket ts' := by
  have hepoch : ts.tdiv microseconds ≤ ts'.tdiv microseconds := Int.tdiv_le_tdiv (by decide) h
  have hpos : 0 < timeframe.seconds := lt_of_lt_of_le (by decide) timeframe.seconds_pos
  have hfloor : ts.tdiv microseconds / timeframe.seconds ≤
      ts'.tdiv microseconds / timeframe.seconds := Int.ediv_le_ediv hpos hepoch
  have hstart (e : ℤ) : e - e % timeframe.seconds = timeframe.seconds * (e / timeframe.seconds) := by
    have hsplit := Int.mul_ediv_add_emod e timeframe.seconds
    omega
  rw [bucket, bucket, hstart, hstart]
  exact mul_le_mul_of_nonneg_right (mul_le_mul_of_nonneg_left hfloor hpos.le) (by decide)

end Steps

/-! ### Sessions -/

/-- The session begins at or after the epoch, or ends before the last second of the step in which it
begins is over. -/
def WithinSteps (timeframe : Timeframe) (session : Span Time) : Prop :=
  0 ≤ session.starts ∨
    session.ends ≤ (session.starts / timeframe.step + 1) * timeframe.step - microseconds + 1

instance (timeframe : Timeframe) (session : Span Time) : Decidable (WithinSteps timeframe session) :=
  inferInstanceAs (Decidable (_ ∨ _))

/-- Where the bar of a step begins in a session. -/
def ProviderGrid.start (grid : ProviderGrid) (session : Span Time) (stepStart : Time) : Time :=
  match grid with
  | .base => stepStart
  | .ibkr => max stepStart session.starts

section Session

variable {grid : ProviderGrid} {timeframe : Timeframe} {session : Span Time} {ts : Time}
  {b : ProviderBarBucket}

theorem baseBarBucket_eq (hts : session.Holds ts) :
    baseBarBucket timeframe ts (some session.starts) (some session.ends) =
      if min (timeframe.bucket ts + timeframe.step) session.ends ≤ timeframe.bucket ts then none
      else some ⟨timeframe.bucket ts, min (timeframe.bucket ts + timeframe.step) session.ends⟩ := by
  rw [baseBarBucket, if_neg (by simpa using hts.1), if_neg (by simpa using hts.2)]

theorem ibkrBarBucket_eq (hts : session.Holds ts) :
    ibkrBarBucket timeframe ts (some session.starts) (some session.ends) =
      if min (timeframe.bucket ts + timeframe.step) session.ends ≤
          max (timeframe.bucket ts) session.starts then none
      else some ⟨max (timeframe.bucket ts) session.starts,
        min (timeframe.bucket ts + timeframe.step) session.ends⟩ := by
  simp only [ibkrBarBucket, baseBarBucket_eq hts]
  by_cases hclose : min (timeframe.bucket ts + timeframe.step) session.ends ≤ timeframe.bucket ts
  · rw [if_pos hclose, if_pos (hclose.trans (le_max_left _ _))]
  · rw [if_neg hclose]

/-- The bar of an instant of a session. -/
theorem sessionBarBucket_eq (hts : session.Holds ts) :
    sessionBarBucket grid timeframe session ts =
      if min (timeframe.bucket ts + timeframe.step) session.ends ≤
          grid.start session (timeframe.bucket ts) then none
      else some ⟨grid.start session (timeframe.bucket ts),
        min (timeframe.bucket ts + timeframe.step) session.ends⟩ := by
  cases grid with
  | base => exact baseBarBucket_eq hts
  | ibkr => exact ibkrBarBucket_eq hts

/-- What a bar of a session is. -/
theorem sessionBarBucket_eq_some (hts : session.Holds ts)
    (h : sessionBarBucket grid timeframe session ts = some b) :
    b.startsAt = grid.start session (timeframe.bucket ts) ∧
      b.closesAt = min (timeframe.bucket ts + timeframe.step) session.ends ∧
      b.startsAt < b.closesAt := by
  rw [sessionBarBucket_eq hts] at h
  split at h
  · exact nomatch h
  · rename_i hproper
    cases h
    exact ⟨rfl, rfl, not_le.mp hproper⟩

theorem ProviderGrid.le_start (grid : ProviderGrid) (session : Span Time) (stepStart : Time) :
    stepStart ≤ grid.start session stepStart := by
  cases grid with
  | base => exact le_rfl
  | ibkr => exact le_max_left _ _

theorem ProviderGrid.start_le (hts : session.Holds ts) {stepStart : Time} (h : stepStart ≤ ts) :
    grid.start session stepStart ≤ ts := by
  cases grid with
  | base => exact h
  | ibkr => exact max_le h hts.1

/-- No bar of a session begins before the step of its instant. -/
theorem bucket_le_startsAt (hts : session.Holds ts)
    (h : sessionBarBucket grid timeframe session ts = some b) : timeframe.bucket ts ≤ b.startsAt := by
  rw [(sessionBarBucket_eq_some hts h).1]
  exact grid.le_start session _

/-- The start of an instant's step. -/
theorem bucket_of_within (hwithin : WithinSteps timeframe session) (hts : session.Holds ts) :
    timeframe.bucket ts = ts / timeframe.step * timeframe.step := by
  have hstep := timeframe.step_pos
  obtain ⟨hlow, hhigh⟩ := timeframe.step_holds ts
  refine bucket_eq hlow hhigh (hwithin.imp (fun h => h.trans hts.1) fun h => ?_)
  -- Such a session ends in the step in which it begins.
  have hbefore : ts < (session.starts / timeframe.step + 1) * timeframe.step :=
    lt_of_lt_of_le hts.2 (h.trans (by linarith [one_le_microseconds]))
  have hsame : ts / timeframe.step = session.starts / timeframe.step := by
    refine le_antisymm ?_ (Int.ediv_le_ediv hstep hts.1)
    exact Int.lt_add_one_iff.mp (Int.ediv_lt_of_lt_mul hstep hbefore)
  have hlast : ts + 1 ≤ _ := (Int.add_one_le_iff.mpr hts.2).trans h
  rw [← hsame] at hlast
  have hring : (ts / timeframe.step + 1) * timeframe.step =
      ts / timeframe.step * timeframe.step + timeframe.step := by ring
  rw [hring] at hlast
  exact Int.add_le_add_iff_right 1 |>.mp hlast

/-- The bar of an instant, where its step begins with it. -/
theorem sessionBarBucket_of_within (hwithin : WithinSteps timeframe session)
    (hts : session.Holds ts) : sessionBarBucket grid timeframe session ts =
      some ⟨grid.start session (ts / timeframe.step * timeframe.step),
        min (ts / timeframe.step * timeframe.step + timeframe.step) session.ends⟩ := by
  obtain ⟨hlow, hhigh⟩ := timeframe.step_holds ts
  rw [sessionBarBucket_eq hts, bucket_of_within hwithin hts, if_neg]
  exact not_le.mpr (lt_of_le_of_lt (ProviderGrid.start_le hts hlow) (lt_min hhigh hts.2))

theorem regularOn_of_within (grid : ProviderGrid) (hwithin : WithinSteps timeframe session) :
    RegularOn ProviderBarBucket.span (sessionBarBucket grid timeframe session) session where
  held := by
    intro t ht
    obtain ⟨hlow, hhigh⟩ := timeframe.step_holds t
    exact ⟨_, sessionBarBucket_of_within hwithin ht,
      ⟨ProviderGrid.start_le ht hlow, lt_min hhigh ht.2⟩, min_le_right _ _⟩
  same := by
    intro t t' b ht ht' hb hholds
    rw [sessionBarBucket_of_within hwithin ht] at hb
    cases hb
    have hlow : t / timeframe.step * timeframe.step ≤ t' :=
      (grid.le_start session _).trans hholds.1
    have hhigh : t' < t / timeframe.step * timeframe.step + timeframe.step :=
      lt_of_lt_of_le hholds.2 (min_le_left _ _)
    have hsame : t' / timeframe.step = t / timeframe.step :=
      (Int.ediv_eq_iff_of_pos timeframe.step_pos).mpr ⟨hlow, hhigh⟩
    rw [sessionBarBucket_of_within hwithin ht', hsame]

/-- No bar is longer than the timeframe. -/
theorem sessionBarBucket_short (hts : session.Holds ts)
    (h : sessionBarBucket grid timeframe session ts = some b) :
    b.closesAt - b.startsAt ≤ timeframe.step := by
  have hstart := bucket_le_startsAt hts h
  have hclose : b.closesAt ≤ timeframe.bucket ts + timeframe.step :=
    (sessionBarBucket_eq_some hts h).2.1.trans_le (min_le_left _ _)
  linarith

/-! ### The order of the bars -/

theorem sessionBarBucket_bounds (hts : session.Holds ts)
    (h : sessionBarBucket grid timeframe session ts = some b) :
    b.startsAt < b.closesAt ∧ b.closesAt ≤ session.ends := by
  obtain ⟨-, hcloses, hproper⟩ := sessionBarBucket_eq_some hts h
  exact ⟨hproper, hcloses.trans_le (min_le_right _ _)⟩

theorem ProviderGrid.start_mono (grid : ProviderGrid) {stepStart stepStart' : Time}
    (h : stepStart ≤ stepStart') : grid.start session stepStart ≤ grid.start session stepStart' := by
  cases grid with
  | base => exact h
  | ibkr => exact max_le_max h le_rfl

theorem mem_providerSessionBarBuckets (hb : b ∈ providerSessionBarBuckets grid timeframe session) :
    ∃ ts, session.Holds ts ∧ sessionBarBucket grid timeframe session ts = some b ∧
      ts < b.closesAt := by
  rw [providerSessionBarBuckets] at hb
  split at hb
  · exact nomatch hb
  · obtain ⟨ts, hle, hlt, hcell, hcloses⟩ := walkCells_found hb
    exact ⟨ts, ⟨hle, hlt⟩, hcell, hcloses⟩

theorem startsAt_pairwise (grid : ProviderGrid) (timeframe : Timeframe) (session : Span Time) :
    (providerSessionBarBuckets grid timeframe session).Pairwise fun b b' =>
      b.startsAt ≤ b'.startsAt := by
  rw [providerSessionBarBuckets]
  split
  · exact .nil
  · refine walkCells_pairwise fun ts ts' b b' hle hlater hlt hb hb' => ?_
    rw [(sessionBarBucket_eq_some ⟨hle, hlater.trans_lt hlt⟩ hb).1,
      (sessionBarBucket_eq_some ⟨hle.trans hlater, hlt⟩ hb').1]
    exact grid.start_mono (timeframe.bucket_mono hlater)

/-- The bars of a session begin no later than those of a session after it. -/
theorem startsAt_le_of_before {session' : Span Time} {b' : ProviderBarBucket}
    (hbefore : session.ends ≤ session'.starts)
    (hb : b ∈ providerSessionBarBuckets grid timeframe session)
    (hb' : b' ∈ providerSessionBarBuckets grid timeframe session') : b.startsAt ≤ b'.startsAt := by
  obtain ⟨ts, hts, hcell, -⟩ := mem_providerSessionBarBuckets hb
  obtain ⟨ts', hts', hcell', -⟩ := mem_providerSessionBarBuckets hb'
  obtain ⟨hlt, hends⟩ := sessionBarBucket_bounds hts hcell
  rw [(sessionBarBucket_eq_some hts' hcell').1]
  cases grid with
  | base =>
    rw [(sessionBarBucket_eq_some hts hcell).1]
    exact timeframe.bucket_mono (hts.2.le.trans (hbefore.trans hts'.1))
  | ibkr => exact (hlt.le.trans (hends.trans hbefore)).trans (le_max_right _ _)

/-- The bars tile the session, each the bar of its instants, and none longer than the timeframe. -/
def BarsTile (grid : ProviderGrid) (timeframe : Timeframe) (session : Span Time) : Prop :=
  Tiles ProviderBarBucket.span (sessionBarBucket grid timeframe session) session
      (providerSessionBarBuckets grid timeframe session) ∧
    ∀ b ∈ providerSessionBarBuckets grid timeframe session, b.closesAt - b.startsAt ≤ timeframe.step

theorem barsTile_of_within (hproper : session.Proper) (hwithin : WithinSteps timeframe session) :
    BarsTile grid timeframe session := by
  have htiles : Tiles ProviderBarBucket.span (sessionBarBucket grid timeframe session) session
      (providerSessionBarBuckets grid timeframe session) := by
    rw [providerSessionBarBuckets, if_neg (not_le.mpr hproper)]
    exact walkCells_tiles (regularOn_of_within grid hwithin) hproper
  refine ⟨htiles, fun b hb => ?_⟩
  obtain ⟨t, ht, hcell⟩ := htiles.found b hb
  exact sessionBarBucket_short ht hcell

/-- An instant in the fractions of a step's last second before the epoch has no bar that holds it. -/
theorem within_of_barsTile (hproper : session.Proper) (h : BarsTile grid timeframe session) :
    WithinSteps timeframe session := by
  by_contra hnot
  rw [WithinSteps, not_or, not_le, not_le] at hnot
  obtain ⟨hneg, hends⟩ := hnot
  set k := session.starts / timeframe.step with hk
  have hstep := timeframe.step_pos
  have hring : (k + 1) * timeframe.step = k * timeframe.step + timeframe.step := by ring
  have hstarts : session.starts < k * timeframe.step + timeframe.step :=
    (timeframe.step_holds session.starts).2
  have hnonpos : k * timeframe.step + timeframe.step ≤ 0 := by
    have hklt : k < 0 := Int.ediv_neg_of_neg_of_pos hneg hstep
    rw [← hring]
    exact Int.mul_nonpos_of_nonpos_of_nonneg (Int.add_one_le_iff.mpr hklt) hstep.le
  rw [hring] at hends
  set last := k * timeframe.step + timeframe.step with hlast
  have hmid : max session.starts (last - microseconds + 1) < last :=
    max_lt hstarts (by linarith [show (1000000 : ℤ) = microseconds from rfl])
  have hts : session.Holds (max session.starts (last - microseconds + 1)) :=
    ⟨le_max_left _ _, max_lt hproper hends⟩
  have hbucket : timeframe.bucket (max session.starts (last - microseconds + 1)) = last :=
    bucket_eq_next (hmid.trans_le hnonpos) hmid
      (lt_of_lt_of_le (lt_add_one _) (le_max_right _ _))
  obtain ⟨b, hcell, hfilter⟩ := h.1.own _ hts
  have hb : b ∈ (providerSessionBarBuckets grid timeframe session).filter fun b =>
      b.span.Holds (max session.starts (last - microseconds + 1)) := by
    rw [hfilter]
    exact List.mem_singleton_self b
  have hholds : b.span.Holds (max session.starts (last - microseconds + 1)) := by
    simpa using (List.mem_filter.mp hb).2
  have hstartsAt := bucket_le_startsAt hts hcell
  rw [hbucket] at hstartsAt
  exact absurd (hstartsAt.trans hholds.1) (not_le.mpr hmid)

/-- **The bars of a session.** They tile it on either grid exactly where it begins at or after the
epoch, or ends before the last second of its first step is over. -/
theorem buckets_tile_iff (grid : ProviderGrid) (timeframe : Timeframe) (session : Span Time)
    (hproper : session.Proper) :
    BarsTile grid timeframe session ↔ WithinSteps timeframe session :=
  ⟨within_of_barsTile hproper, barsTile_of_within hproper⟩

/-- A session from 9:31 to 9:37:30 on a grid of five minutes. -/
theorem buckets_tile_iff_morning :
    (⟨34260000000, 34650000000⟩ : Span Time).Proper ∧
      BarsTile .ibkr ⟨5, by decide⟩ ⟨34260000000, 34650000000⟩ :=
  ⟨by decide, (buckets_tile_iff .ibkr ⟨5, by decide⟩ _ (by decide)).mpr (by decide)⟩

/-- A session that begins half a second before the epoch. -/
theorem buckets_leave_instant : ¬ BarsTile .base ⟨1, by decide⟩ ⟨-500000, 60000000⟩ := fun h =>
  absurd (within_of_barsTile (by decide) h) (by decide)

end Session

end AefTerminal
