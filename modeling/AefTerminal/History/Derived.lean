import AefTerminal.Domain.Bar
import AefTerminal.Foundation.Cover
import AefTerminal.Foundation.Fallible
import AefTerminal.Foundation.Grouping

/-!
# Derived chart bars

A chart-only interval has no bars of its own: `derive_chart_bars` projects the bars of its source
interval, bucket by bucket. A bucket that is over is shown where all its source bars are there and
confirmed, and left out else; the bucket in progress is shown as a preview.

The source bars come in any order and more than once, from a whole read or page by page.

## Main definitions

* `intervalBucket`, `deriveChartBars`
* `BuiltFrom`: what a confirmed derived bar says of its source bars

## Main results

* `derived_bars`
-/

namespace AefTerminal

open Foundation

def isDerivedChartInterval (interval : ChartInterval) : Bool := interval = .m3

def intervalSeconds (interval : ChartInterval) : ℤ := interval.minutes * 60

def microseconds : ℤ := 1000000

/-- The start of the interval around an instant. `int(ts.timestamp())` is the second towards zero. -/
def intervalBucket (ts : Time) (interval : ChartInterval) : Time :=
  let epoch := ts.tdiv microseconds
  (epoch - epoch % intervalSeconds interval) * microseconds

/-- The route of a derived bar, where all its source bars have the same. -/
def derivedProvenance (sourceBars : List Bar) (sourceInterval : BarInterval) :
    Option BarProvenance := do
  let provenances ← sourceBars.mapM Bar.provenance
  let first ← provenances.head?
  let identity (p : BarProvenance) :=
    (p.provider, p.instrumentId, p.routeFingerprint, p.providerContractId, p.providerContractType,
      p.dataType)
  guard (∀ p ∈ provenances, identity p = identity first)
  pure
    { provider := first.provider
      instrumentId := first.instrumentId
      routeFingerprint := first.routeFingerprint
      requestType := .deterministicAggregation
      providerContractId :=
        if first.providerContractId ≠ "" then first.providerContractId else "CANONICAL_STORAGE"
      providerContractType := first.providerContractType
      dataType := first.dataType
      sourceTimeframe := some sourceInterval.toChart.minutes }

def highest (first : Bar) (rest : List Bar) : ℚ := (rest.map Bar.high).foldl max first.high

def lowest (first : Bar) (rest : List Bar) : ℚ := (rest.map Bar.low).foldl min first.low

theorem highest_spec (first : Bar) (rest : List Bar) :
    (∀ c ∈ first :: rest, c.high ≤ highest first rest) ∧
      ∃ c ∈ first :: rest, highest first rest = c.high :=
  foldl_max_map_spec Bar.high first rest

theorem lowest_spec (first : Bar) (rest : List Bar) :
    (∀ c ∈ first :: rest, lowest first rest ≤ c.low) ∧
      ∃ c ∈ first :: rest, lowest first rest = c.low :=
  foldl_max_map_spec (α := ℚᵒᵈ) Bar.low first rest

/-- The last of the source bars. -/
def lastChild (first : Bar) (rest : List Bar) : Bar := rest.getLast?.getD first

theorem lastChild_mem (first : Bar) (rest : List Bar) : lastChild first rest ∈ first :: rest := by
  rw [lastChild]
  cases hlast : rest.getLast? with
  | none => simp
  | some c => exact List.mem_cons_of_mem _ (List.mem_of_getLast? hlast)

/-- One bar for the bucket of the source bars. -/
def derivedBar (interval : ChartInterval) (sourceInterval : BarInterval) (bucket : Time)
    (first : Bar) (rest : List Bar) (confirmed : Bool) : Bar where
  symbol := (lastChild first rest).symbol
  ts := bucket
  «open» := first.open
  high := highest first rest
  low := lowest first rest
  close := (lastChild first rest).close
  volume := ((first :: rest).map fun c => max c.volume 0).sum
  timeframe := interval
  source := "derived:" ++ sourceInterval.text
  closed := confirmed
  state := if confirmed then .confirmed else .forming
  provenance := derivedProvenance (first :: rest) sourceInterval
  volume_nonneg := by
    refine List.sum_nonneg fun v hv => ?_
    obtain ⟨c, -, rfl⟩ := List.mem_map.mp hv
    exact le_max_right _ _
  geometry := by
    obtain ⟨hhigh, -⟩ := highest_spec first rest
    obtain ⟨hlow, -⟩ := lowest_spec first rest
    have hlast := lastChild_mem first rest
    have hopen := first.geometry
    have hclose := (lastChild first rest).geometry
    exact ⟨max_le ((le_max_left _ _).trans (hopen.1.trans (hhigh first (by simp))))
        ((le_max_right _ _).trans (hclose.1.trans (hhigh _ hlast))),
      le_min ((hlow first (by simp)).trans (hopen.2.trans (min_le_left _ _)))
        ((hlow _ hlast).trans (hclose.2.trans (min_le_right _ _)))⟩
  lifecycle := lifecycle_ite confirmed

/-- How many source bars a bucket has. -/
def childCount (interval : ChartInterval) : ℤ :=
  intervalSeconds interval / intervalSeconds (canonicalBarSourceInterval interval).toChart

def sourceSpan (interval : ChartInterval) : Time :=
  intervalSeconds (canonicalBarSourceInterval interval).toChart * microseconds

def targetSpan (interval : ChartInterval) : Time := intervalSeconds interval * microseconds

/-- The bucket is over. -/
def elapsed (interval : ChartInterval) (current bucket : Time) : Bool :=
  bucket + targetSpan interval ≤ current

/-- The bucket has all its source bars. -/
def completeBucket (interval : ChartInterval) (bucket : Time) (children : List Bar) : Bool :=
  children.length = childCount interval ∧
    ∀ child ∈ children.zipIdx, child.1.ts = bucket + sourceSpan interval * child.2

def confirmedBucket (interval : ChartInterval) (current bucket : Time) (children : List Bar) :
    Bool :=
  elapsed interval current bucket && completeBucket interval bucket children &&
    children.all fun child => child.closed && child.state = .confirmed

/-- The bar of one bucket, where it has one. -/
def projectBucket (interval : ChartInterval) (current bucket : Time) : List Bar → Option Bar
  | [] => none
  | first :: rest =>
    let confirmed := confirmedBucket interval current bucket (first :: rest)
    if elapsed interval current bucket && !confirmed then none
    else some <|
      derivedBar interval (canonicalBarSourceInterval interval) bucket first rest confirmed

def sourceTimeframeMismatch (interval : ChartInterval) : String :=
  s!"DERIVED_CHART_SOURCE_TIMEFRAME_MISMATCH target={interval.minutes}m source={(canonicalBarSourceInterval interval).text}"

def intervalRatioInvalid (interval : ChartInterval) : String :=
  s!"DERIVED_CHART_INTERVAL_RATIO_INVALID target={interval.minutes}m source={(canonicalBarSourceInterval interval).text}"

/-- The bars of the buckets of source bars in the order of their timestamps. -/
def projectedBars (interval : ChartInterval) (current : Time) (ordered : List Bar) : List Bar :=
  (Dict.groupedBy (fun bar => intervalBucket bar.ts interval) ordered).entries.filterMap fun group =>
    projectBucket interval current group.1 group.2

/-- Project provider or persisted source bars onto a virtual chart timeframe. `current` is `as_of`,
or the time of the call. -/
def deriveChartBars (bars : List Bar) (interval : ChartInterval) (current : Time) :
    Except String (List Bar) :=
  if isDerivedChartInterval interval = false then pure bars
  else do
    let sourceInterval := canonicalBarSourceInterval interval
    let ordered := latestSorted Bar.ts bars
    require (∀ bar ∈ ordered, bar.timeframe = sourceInterval.toChart)
      (sourceTimeframeMismatch interval)
    require (intervalSeconds interval % intervalSeconds sourceInterval.toChart = 0)
      (intervalRatioInvalid interval)
    pure (projectedBars interval current ordered)

/-! ### The buckets -/

theorem intervalSeconds_pos (interval : ChartInterval) : 0 < intervalSeconds interval := by
  cases interval <;> decide

theorem intervalBucket_mono (interval : ChartInterval) {ts ts' : Time} (h : ts ≤ ts') :
    intervalBucket ts interval ≤ intervalBucket ts' interval := by
  have hepoch : ts.tdiv microseconds ≤ ts'.tdiv microseconds := Int.tdiv_le_tdiv (by decide) h
  have hstep := intervalSeconds_pos interval
  have hfloor : ts.tdiv microseconds / intervalSeconds interval ≤
      ts'.tdiv microseconds / intervalSeconds interval := Int.ediv_le_ediv hstep hepoch
  have hstart (e : ℤ) : e - e % intervalSeconds interval =
      intervalSeconds interval * (e / intervalSeconds interval) := by
    have hsplit := Int.mul_ediv_add_emod e (intervalSeconds interval)
    omega
  rw [intervalBucket, intervalBucket, hstart, hstart]
  exact mul_le_mul_of_nonneg_right (mul_le_mul_of_nonneg_left hfloor hstep.le) (by decide)

/-- A bucket comes after another only where its timestamps do. -/
theorem lt_of_intervalBucket_lt {interval : ChartInterval} {ts ts' : Time}
    (h : intervalBucket ts interval < intervalBucket ts' interval) : ts < ts' :=
  lt_of_not_ge fun hle => absurd (intervalBucket_mono interval hle) (not_le.mpr h)

/-- The timestamps that the source bars of a bucket have. -/
def childSlots (interval : ChartInterval) (bucket : Time) : List Time :=
  (List.range (childCount interval).toNat).map fun i : ℕ => bucket + sourceSpan interval * (i : ℤ)

/-- The source bars of a bucket: of each timestamp the bar that was given last. -/
def IsChildOf (bars : List Bar) (interval : ChartInterval) (bucket : Time) (c : Bar) : Prop :=
  lastWith Bar.ts bars c.ts = some c ∧ intervalBucket c.ts interval = bucket

/-- A bar of the full set of confirmed source bars of its bucket, each where the one before it
ends. -/
structure BuiltFrom (bars : List Bar) (interval : ChartInterval) (d : Bar)
    (children : List Bar) : Prop where
  full : ∀ c, c ∈ children ↔ IsChildOf bars interval d.ts c
  contiguous : children.map Bar.ts = childSlots interval d.ts
  confirmed : ∀ c ∈ children, c.state = .confirmed
  opens : children.head?.map Bar.open = some d.open
  closes : children.getLast?.map Bar.close = some d.close
  high : (∀ c ∈ children, c.high ≤ d.high) ∧ ∃ c ∈ children, d.high = c.high
  low : (∀ c ∈ children, d.low ≤ c.low) ∧ ∃ c ∈ children, d.low = c.low
  volume : d.volume = (children.map Bar.volume).sum

variable {interval : ChartInterval} {current bucket : Time} {bars children : List Bar} {d : Bar}

theorem completeBucket_iff :
    completeBucket interval bucket children = true ↔
      children.map Bar.ts = childSlots interval bucket := by
  have hcount : ((childCount interval).toNat : ℤ) = childCount interval :=
    Int.toNat_of_nonneg (Int.ediv_nonneg (intervalSeconds_pos _).le (intervalSeconds_pos _).le)
  have hlen : (childSlots interval bucket).length = (childCount interval).toNat := by
    simp [childSlots]
  rw [completeBucket, decide_eq_true_iff, ← hcount, Int.ofNat_inj]
  constructor
  · rintro ⟨hchildren, hall⟩
    refine List.ext_getElem (by simp [hchildren, hlen]) fun i hi _ => ?_
    rw [List.length_map] at hi
    have hchild := hall (children[i], i) (List.mk_mem_zipIdx_iff_getElem?.mpr (by simp [hi]))
    simpa [childSlots] using hchild
  · intro heq
    have hchildren : children.length = (childCount interval).toNat := by
      rw [← hlen, ← heq, List.length_map]
    refine ⟨hchildren, fun ⟨c, i⟩ hc => ?_⟩
    have hget : children[i]? = some c := List.mk_mem_zipIdx_iff_getElem?.mp hc
    obtain ⟨hi, rfl⟩ := List.getElem?_eq_some_iff.mp hget
    have hslot : (children.map Bar.ts)[i]? = (childSlots interval bucket)[i]? := by rw [heq]
    simpa [childSlots, ← hchildren, hi] using hslot

theorem confirmedBucket_iff :
    confirmedBucket interval current bucket children = true ↔
      bucket + targetSpan interval ≤ current ∧
        children.map Bar.ts = childSlots interval bucket ∧
        ∀ c ∈ children, c.state = .confirmed := by
  have hall : (children.all fun child => child.closed && child.state = .confirmed) = true ↔
      ∀ c ∈ children, c.state = .confirmed := by
    rw [List.all_eq_true]
    refine forall₂_congr fun c _ => ?_
    rw [Bool.and_eq_true, c.lifecycle, decide_eq_true_iff, and_self]
  rw [confirmedBucket, Bool.and_eq_true, Bool.and_eq_true, hall, completeBucket_iff, elapsed,
    decide_eq_true_iff, and_assoc]

/-- A confirmed bar of a bucket: when there is one, and which. -/
theorem projectBucket_confirmed_iff :
    (projectBucket interval current bucket children = some d ∧ d.closed = true) ↔
      ∃ first rest, children = first :: rest ∧
        confirmedBucket interval current bucket children = true ∧
        d = derivedBar interval (canonicalBarSourceInterval interval) bucket first rest true := by
  cases children with
  | nil => simp [projectBucket]
  | cons first rest =>
    rw [projectBucket]
    cases hconfirmed : confirmedBucket interval current bucket (first :: rest) with
    | true =>
      rw [Bool.not_true, Bool.and_false, if_neg (by decide)]
      constructor
      · rintro ⟨hd, -⟩
        exact ⟨first, rest, rfl, rfl, (Option.some.inj hd).symm⟩
      · rintro ⟨_, _, hcons, -, rfl⟩
        cases hcons
        exact ⟨rfl, rfl⟩
    | false =>
      refine ⟨fun ⟨hd, hclosed⟩ => ?_, fun ⟨_, _, _, hfalse, _⟩ => nomatch hfalse⟩
      -- a bar of a bucket that is not confirmed is not closed
      split at hd
      · exact nomatch hd
      · cases hd
        exact nomatch hclosed

/-- What is confirmed stays as it is. -/
theorem projectBucket_mono {current' : Time} (hle : current ≤ current')
    (h : projectBucket interval current bucket children = some d) (hd : d.closed = true) :
    projectBucket interval current' bucket children = some d := by
  obtain ⟨first, rest, hcons, hconfirmed, heq⟩ := projectBucket_confirmed_iff.mp ⟨h, hd⟩
  obtain ⟨hover, hrest⟩ := confirmedBucket_iff.mp hconfirmed
  exact (projectBucket_confirmed_iff.mpr
    ⟨first, rest, hcons, confirmedBucket_iff.mpr ⟨hover.trans hle, hrest⟩, heq⟩).1

/-! ### The projection -/

/-- The groups are the buckets with their source bars. -/
theorem mem_grouped_iff {group : Time × List Bar} :
    group ∈ (Dict.groupedBy (fun bar => intervalBucket bar.ts interval)
        (latestSorted Bar.ts bars)).entries ↔
      (∃ c, IsChildOf bars interval group.1 c) ∧
        group.2 = (latestSorted Bar.ts bars).filter fun c =>
          intervalBucket c.ts interval = group.1 := by
  rw [Dict.entries_groupedBy, List.mem_map]
  constructor
  · rintro ⟨k, hk, rfl⟩
    obtain ⟨c, hc, rfl⟩ := List.mem_map.mp (List.mem_eraseDups.mp hk)
    exact ⟨⟨c, mem_latestSorted.mp hc, rfl⟩, rfl⟩
  · rintro ⟨⟨c, hc, hbucket⟩, hgroup⟩
    refine ⟨group.1, List.mem_eraseDups.mpr ?_, Prod.ext rfl hgroup.symm⟩
    exact List.mem_map.mpr ⟨c, mem_latestSorted.mpr hc, hbucket⟩

theorem mem_filter_iff {c : Bar} :
    c ∈ (latestSorted Bar.ts bars).filter (fun c => intervalBucket c.ts interval = bucket) ↔
      IsChildOf bars interval bucket c := by
  rw [List.mem_filter, mem_latestSorted, decide_eq_true_iff, IsChildOf]

/-- The source bars of a bucket, in the order of their timestamps, are one list. -/
theorem eq_filter_of_isChildOf (hmem : ∀ c, c ∈ children ↔ IsChildOf bars interval bucket c)
    (hslots : children.map Bar.ts = childSlots interval bucket) :
    children = (latestSorted Bar.ts bars).filter fun c => intervalBucket c.ts interval = bucket := by
  have hspan : 0 < sourceSpan interval := Int.mul_pos (intervalSeconds_pos _) (by decide)
  have hsorted : (childSlots interval bucket).Pairwise (· < ·) := by
    refine List.pairwise_map.mpr (List.pairwise_lt_range.imp fun {i j} hij => ?_)
    have hlt : sourceSpan interval * (i : ℤ) < sourceSpan interval * (j : ℤ) :=
      Int.mul_lt_mul_of_pos_left (Int.ofNat_lt.mpr hij) hspan
    exact Int.add_lt_add_left hlt bucket
  have hchildren : children.Pairwise fun a b => a.ts < b.ts := List.pairwise_map.mp (hslots ▸ hsorted)
  refine eq_of_pairwise_key_lt hchildren (pairwise_latestSorted.filter _) fun c => ?_
  rw [hmem, mem_filter_iff]

theorem builtFrom_derivedBar {first : Bar} {rest : List Bar}
    (hmem : ∀ c, c ∈ first :: rest ↔ IsChildOf bars interval bucket c)
    (hslots : (first :: rest).map Bar.ts = childSlots interval bucket)
    (hstate : ∀ c ∈ first :: rest, c.state = .confirmed) :
    BuiltFrom bars interval
      (derivedBar interval (canonicalBarSourceInterval interval) bucket first rest true)
      (first :: rest) where
  full := hmem
  contiguous := hslots
  confirmed := hstate
  opens := rfl
  closes := by
    rw [List.getLast?_cons]
    rfl
  high := highest_spec first rest
  low := lowest_spec first rest
  volume := by
    refine congrArg List.sum (List.map_congr_left fun c _ => ?_)
    exact max_eq_left c.volume_nonneg

/-- The confirmed bars are those of the full buckets that are over. -/
theorem mem_projectedBars_iff :
    (d ∈ projectedBars interval current (latestSorted Bar.ts bars) ∧ d.closed = true) ↔
      ∃ first rest bucket, bucket + targetSpan interval ≤ current ∧
        (∀ c, c ∈ first :: rest ↔ IsChildOf bars interval bucket c) ∧
        (first :: rest).map Bar.ts = childSlots interval bucket ∧
        (∀ c ∈ first :: rest, c.state = .confirmed) ∧
        d = derivedBar interval (canonicalBarSourceInterval interval) bucket first rest true := by
  rw [projectedBars, List.mem_filterMap]
  constructor
  · rintro ⟨⟨⟨bucket, children⟩, hgroup, hproject⟩, hclosed⟩
    obtain ⟨first, rest, hcons, hconfirmed, rfl⟩ :=
      projectBucket_confirmed_iff.mp ⟨hproject, hclosed⟩
    obtain ⟨hover, hslots, hstate⟩ := confirmedBucket_iff.mp hconfirmed
    obtain ⟨-, hchildren⟩ := mem_grouped_iff.mp hgroup
    dsimp only at hcons hchildren hslots hstate
    subst hcons
    refine ⟨first, rest, bucket, hover, fun c => ?_, hslots, hstate, rfl⟩
    rw [hchildren, mem_filter_iff]
  · rintro ⟨first, rest, bucket, hover, hmem, hslots, hstate, rfl⟩
    have hgroup : (bucket, first :: rest) ∈
        (Dict.groupedBy (fun bar => intervalBucket bar.ts interval)
          (latestSorted Bar.ts bars)).entries :=
      mem_grouped_iff.mpr ⟨⟨first, (hmem first).mp (by simp)⟩, eq_filter_of_isChildOf hmem hslots⟩
    obtain ⟨hproject, hclosed⟩ := projectBucket_confirmed_iff.mpr
      ⟨first, rest, rfl, confirmedBucket_iff.mpr ⟨hover, hslots, hstate⟩, rfl⟩
    exact ⟨⟨_, hgroup, hproject⟩, hclosed⟩

theorem sublist_filterMap {α β : Type*} {f g : α → Option β} {p : β → Bool}
    (h : ∀ a b, f a = some b → p b = true → g a = some b) (l : List α) :
    ((l.filterMap f).filter p).Sublist ((l.filterMap g).filter p) := by
  rw [List.filter_filterMap, List.filter_filterMap]
  induction l with
  | nil => exact .slnil
  | cons a l ih =>
    rw [List.filterMap_cons, List.filterMap_cons]
    cases hf : (f a).filter p with
    | none => cases (g a).filter p with
      | none => exact ih
      | some b => exact ih.cons b
    | some b =>
      obtain ⟨hfa, hb⟩ := Option.filter_eq_some_iff.mp hf
      rw [Option.filter_eq_some_iff.mpr ⟨h a b hfa hb, hb⟩]
      exact ih.cons_cons b

/-! ### Derived bars -/

theorem deriveChartBars_eq (hderived : isDerivedChartInterval interval = true) :
    deriveChartBars bars interval current =
      if ∀ bar ∈ latestSorted Bar.ts bars,
          bar.timeframe = (canonicalBarSourceInterval interval).toChart then
        .ok (projectedBars interval current (latestSorted Bar.ts bars))
      else .error (sourceTimeframeMismatch interval) := by
  have hratio : intervalSeconds interval %
      intervalSeconds (canonicalBarSourceInterval interval).toChart = 0 := by
    cases interval <;> decide
  rw [deriveChartBars, hderived, if_neg (by decide)]
  dsimp only
  rw [require_eq_ok (u := .unit).mpr hratio]
  split
  · rename_i hall
    rw [require_eq_ok (u := .unit).mpr hall]
    rfl
  · rename_i hsome
    rw [require_eq_error.mpr ⟨hsome, rfl⟩]
    rfl

/-- Bars without a common bucket are projected one after the other. -/
theorem projectedBars_append {ordered ordered' : List Bar}
    (h : ∀ a ∈ ordered, ∀ b ∈ ordered', intervalBucket a.ts interval ≠ intervalBucket b.ts interval) :
    projectedBars interval current (ordered ++ ordered') =
      projectedBars interval current ordered ++ projectedBars interval current ordered' := by
  rw [projectedBars, Dict.entries_groupedBy_append h, List.filterMap_append]
  rfl

/-- Bars whose buckets come before those of other bars are derived apart from them. -/
theorem deriveChartBars_append {bars' : List Bar}
    (hderived : isDerivedChartInterval interval = true)
    (h : ∀ a ∈ bars, ∀ b ∈ bars', intervalBucket a.ts interval < intervalBucket b.ts interval) :
    deriveChartBars (bars ++ bars') interval current = (do
      let derived ← deriveChartBars bars interval current
      let derived' ← deriveChartBars bars' interval current
      pure (derived ++ derived')) := by
  have hordered : latestSorted Bar.ts (bars ++ bars') =
      latestSorted Bar.ts bars ++ latestSorted Bar.ts bars' :=
    latestSorted_append fun a ha b hb => lt_of_intervalBucket_lt (h a ha b hb)
  have hbuckets : ∀ a ∈ latestSorted Bar.ts bars, ∀ b ∈ latestSorted Bar.ts bars',
      intervalBucket a.ts interval ≠ intervalBucket b.ts interval := fun a ha b hb =>
    (h a (mem_of_lastWith (mem_latestSorted.mp ha)) b
      (mem_of_lastWith (mem_latestSorted.mp hb))).ne
  rw [deriveChartBars_eq hderived, deriveChartBars_eq hderived, deriveChartBars_eq hderived,
    hordered, projectedBars_append hbuckets]
  simp only [List.forall_mem_append]
  by_cases hfirst : ∀ bar ∈ latestSorted Bar.ts bars,
      bar.timeframe = (canonicalBarSourceInterval interval).toChart
  · by_cases hsecond : ∀ bar ∈ latestSorted Bar.ts bars',
        bar.timeframe = (canonicalBarSourceInterval interval).toChart
    · rw [if_pos ⟨hfirst, hsecond⟩, if_pos hfirst, if_pos hsecond]
      rfl
    · rw [if_neg fun hboth => hsecond hboth.2, if_pos hfirst, if_neg hsecond]
      rfl
  · rw [if_neg fun hboth => hfirst hboth.1, if_neg hfirst]
    rfl

/-- Reading in segments, none of which cuts a bucket, is reading at once. -/
theorem deriveChartBars_flatten (hderived : isDerivedChartInterval interval = true)
    (segments : List (List Bar))
    (h : segments.Pairwise fun s s' =>
      ∀ a ∈ s, ∀ b ∈ s', intervalBucket a.ts interval < intervalBucket b.ts interval) :
    deriveChartBars segments.flatten interval current =
      List.flatten <$> segments.mapM fun s => deriveChartBars s interval current := by
  induction segments with
  | nil =>
    have hnil : latestSorted Bar.ts ([] : List Bar) = [] := rfl
    rw [List.flatten_nil, deriveChartBars_eq hderived, hnil, if_pos (List.forall_mem_nil _)]
    rfl
  | cons s segments ih =>
    obtain ⟨hfirst, hrest⟩ := List.pairwise_cons.mp h
    rw [List.flatten_cons, deriveChartBars_append hderived, ih hrest, List.mapM_cons]
    · cases deriveChartBars s interval current with
      | error e => rfl
      | ok derived => cases segments.mapM fun s => deriveChartBars s interval current with
        | error e => rfl
        | ok pages => rfl
    · intro a ha b hb
      obtain ⟨s', hs', hb⟩ := List.mem_flatten.mp hb
      exact hfirst s' hs' a ha b hb

theorem deriveChartBars_eq_ok {out : List Bar} (hderived : isDerivedChartInterval interval = true)
    (h : deriveChartBars bars interval current = .ok out) :
    (∀ bar ∈ latestSorted Bar.ts bars,
      bar.timeframe = (canonicalBarSourceInterval interval).toChart) ∧
      out = projectedBars interval current (latestSorted Bar.ts bars) := by
  rw [deriveChartBars_eq hderived] at h
  split at h
  · exact ⟨‹_›, (Except.ok.inj h).symm⟩
  · exact nomatch h

/-- What the projection promises of an interval. -/
structure DerivesBars (interval : ChartInterval) : Prop where
  /-- A confirmed bar is built from the full set of confirmed source bars of its bucket. -/
  built : ∀ bars current out, deriveChartBars bars interval current = .ok out →
    ∀ d ∈ out, d.closed = true → ∃ children, BuiltFrom bars interval d children
  /-- A bucket that is over and has all its source bars confirmed has its bar. -/
  shown : ∀ bars current out, deriveChartBars bars interval current = .ok out →
    ∀ bucket children, bucket + targetSpan interval ≤ current →
      (∀ c, c ∈ children ↔ IsChildOf bars interval bucket c) →
      children.map Bar.ts = childSlots interval bucket → (∀ c ∈ children, c.state = .confirmed) →
      ∃ d ∈ out, d.ts = bucket ∧ d.closed = true ∧ BuiltFrom bars interval d children
  /-- The confirmed bars only become more. -/
  grows : ∀ bars current current' out, current ≤ current' →
    deriveChartBars bars interval current = .ok out →
    ∃ out', deriveChartBars bars interval current' = .ok out' ∧
      (out.filter Bar.closed).Sublist (out'.filter Bar.closed)
  /-- Of each timestamp only the bar given last counts. -/
  latest : ∀ bars bars' current, (∀ ts, lastWith Bar.ts bars' ts = lastWith Bar.ts bars ts) →
    deriveChartBars bars' interval current = deriveChartBars bars interval current
  order : ∀ bars bars' current, (bars.map Bar.ts).Nodup → bars'.Perm bars →
    deriveChartBars bars' interval current = deriveChartBars bars interval current
  /-- Segments that cut no bucket are derived one by one. -/
  segments : ∀ (segments : List (List Bar)) current,
    (segments.Pairwise fun s s' => ∀ a ∈ s, ∀ b ∈ s',
      intervalBucket a.ts interval < intervalBucket b.ts interval) →
    deriveChartBars segments.flatten interval current =
      List.flatten <$> segments.mapM fun s => deriveChartBars s interval current

theorem derived_bars (hderived : isDerivedChartInterval interval = true) :
    DerivesBars interval := by
  have hlatest (bars bars' : List Bar) (current : Time)
      (h : ∀ ts, lastWith Bar.ts bars' ts = lastWith Bar.ts bars ts) :
      deriveChartBars bars' interval current = deriveChartBars bars interval current := by
    rw [deriveChartBars_eq hderived, deriveChartBars_eq hderived, latestSorted_congr h]
  refine
    { built := fun bars current out hout d hd hclosed => ?_
      shown := fun bars current out hout bucket children hover hmem hslots hstate => ?_
      grows := fun bars current current' out hle hout => ?_
      latest := hlatest
      order := fun bars bars' current hnodup hperm =>
        hlatest bars bars' current (lastWith_perm hnodup hperm)
      segments := fun segments current h => deriveChartBars_flatten hderived segments h }
  · obtain ⟨-, rfl⟩ := deriveChartBars_eq_ok hderived hout
    obtain ⟨first, rest, bucket, -, hmem, hslots, hstate, rfl⟩ :=
      mem_projectedBars_iff.mp ⟨hd, hclosed⟩
    exact ⟨first :: rest, builtFrom_derivedBar hmem hslots hstate⟩
  · obtain ⟨-, rfl⟩ := deriveChartBars_eq_ok hderived hout
    cases children with
    | nil =>
      have hcount : (childCount interval).toNat ≠ 0 := by
        cases interval <;> first | exact absurd hderived (by decide) | decide
      have hlength := congrArg List.length hslots
      exact absurd (by simpa [childSlots] using hlength.symm) hcount
    | cons first rest =>
      obtain ⟨hd, hclosed⟩ := mem_projectedBars_iff.mpr
        ⟨first, rest, bucket, hover, hmem, hslots, hstate, rfl⟩
      exact ⟨_, hd, rfl, hclosed, builtFrom_derivedBar hmem hslots hstate⟩
  · obtain ⟨htimeframes, rfl⟩ := deriveChartBars_eq_ok hderived hout
    refine ⟨_, by rw [deriveChartBars_eq hderived, if_pos htimeframes], ?_⟩
    exact sublist_filterMap (fun group d h hd => projectBucket_mono hle h hd) _

theorem derived_bars_m3 : DerivesBars .m3 := derived_bars (by decide)

end AefTerminal
