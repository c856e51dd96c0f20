import AefTerminal.History.Derived
import Mathlib.Data.Finset.Card

/-!
# Collapsing bars

`collapse_bars` resamples the bars of any interval to a wider one. It goes through the bars in the
order of their timestamps, adds each to the bar of its bucket, and recomputes whether that bar is
closed as the slots of the source interval arrive. Bars that have the target interval already keep
their own phase and their own lifecycle.

The chart-only interval has another aggregator, `derive_chart_bars`, which groups first.

## Main definitions

* `Interval`, `SeriesBar`: intervals of any number of minutes, and bars over them
* `collapseChild`, `collapseBars`: one bar into its bucket, and all of them
* `CollapsedFrom`: what a bar says of the bars of its bucket

## Main results

* `collapsed_bars`: one bar for each touched bucket, in order, built from its bars
* `collapse_agrees`: on the chart-only interval both aggregators confirm the same
-/

namespace AefTerminal

open Foundation

/-! ### Intervals and bars -/

/-- An interval, by what `interval_minutes` makes of its text. -/
@[ext]
structure Interval where
  minutes : ℕ
  pos : 0 < minutes

instance : DecidableEq Interval := fun _ _ => decidable_of_iff' _ Interval.ext_iff

def Interval.seconds (interval : Interval) : ℤ := interval.minutes * 60

/-- `timedelta(minutes=interval_minutes(interval))` -/
def Interval.span (interval : Interval) : Time := interval.seconds * microseconds

/-- `interval_bucket` -/
def Interval.bucket (interval : Interval) (ts : Time) : Time :=
  let epoch := ts.tdiv microseconds
  (epoch - epoch % interval.seconds) * microseconds

def ChartInterval.interval (interval : ChartInterval) : Interval :=
  ⟨interval.minutes, by cases interval <;> decide⟩

/-- A bar whose timeframe is any interval. Its lifecycle state is not read here, and that of a bar
that is built here follows from `closed`. -/
structure SeriesBar where
  symbol : String
  ts : Time
  «open» : ℚ
  high : ℚ
  low : ℚ
  close : ℚ
  volume : ℚ
  timeframe : Interval
  source : String
  closed : Bool
  provenance : Option BarProvenance
  /-- `BAR_VOLUME_NEGATIVE` -/
  volume_nonneg : 0 ≤ volume
  /-- `BAR_OHLC_GEOMETRY_INVALID` -/
  geometry : max «open» close ≤ high ∧ low ≤ min «open» close

/-- A chart bar among the bars of any interval. -/
def Bar.toSeries (bar : Bar) : SeriesBar where
  symbol := bar.symbol
  ts := bar.ts
  «open» := bar.open
  high := bar.high
  low := bar.low
  close := bar.close
  volume := bar.volume
  timeframe := bar.timeframe.interval
  source := bar.source
  closed := bar.closed
  provenance := bar.provenance
  volume_nonneg := bar.volume_nonneg
  geometry := bar.geometry

/-! ### The aggregator -/

/-- `_collapse_expected_child_count` -/
def collapseExpectedChildCount (source target : Interval) : ℕ :=
  if source.minutes ≥ target.minutes then 1 else max (target.minutes / source.minutes) 1

/-- `bar_is_closed` -/
def barIsClosed (current ts : Time) (interval : Interval) : Bool :=
  interval.bucket ts + interval.span ≤ current

/-- The bucket of a bar: its own timestamp, where it has the target interval already. -/
def collapseBucket (interval : Interval) (bar : SeriesBar) : Time :=
  if bar.timeframe.minutes = interval.minutes then bar.ts else interval.bucket bar.ts

/-- The slot of its bucket that a bar fills. -/
def childSlot (interval : Interval) (bar : SeriesBar) : Time :=
  if bar.timeframe.minutes = interval.minutes then bar.ts else bar.timeframe.bucket bar.ts

/-- The route of a collapsed bar as far as one of its bars says. -/
def outputProvenance (interval : Interval) (bar : SeriesBar) : Option BarProvenance :=
  if bar.timeframe.minutes = interval.minutes then bar.provenance
  else bar.provenance.bind fun provenance =>
    if bar.timeframe.minutes > interval.minutes ∨ provenance.requestType = .canonicalStorage then
      none
    else
      some
        { provider := provenance.provider
          instrumentId := provenance.instrumentId
          routeFingerprint := provenance.routeFingerprint
          requestType := .deterministicAggregation
          providerContractId := provenance.providerContractId
          providerContractType := provenance.providerContractType
          dataType := provenance.dataType
          sourceTimeframe := some bar.timeframe.minutes }

/-- `given or default` -/
def nameOr (given : Option String) (default : String) : String :=
  (given.filter fun name => name ≠ "").getD default

/-- What the three dictionaries hold of a bucket. -/
structure CollapseEntry where
  bar : SeriesBar
  slots : Finset Time
  childClosed : Bool

/-- The bar of a bucket, begun by its first bar. -/
def SeriesBar.begun (interval : Interval) (symbol sourceName : Option String) (bucket : Time)
    (closed : Bool) (bar : SeriesBar) : SeriesBar where
  symbol := nameOr symbol bar.symbol
  ts := bucket
  «open» := bar.open
  high := bar.high
  low := bar.low
  close := bar.close
  volume := max bar.volume 0
  timeframe := interval
  source := nameOr sourceName bar.source
  closed := closed
  provenance := outputProvenance interval bar
  volume_nonneg := le_max_right _ _
  geometry := bar.geometry

/-- The bar of a bucket with one more bar. -/
def SeriesBar.extended (interval : Interval) (symbol sourceName : Option String) (bucket : Time)
    (closed : Bool) (existing bar : SeriesBar) : SeriesBar where
  symbol := nameOr symbol existing.symbol
  ts := bucket
  «open» := existing.open
  high := max existing.high bar.high
  low := min existing.low bar.low
  close := bar.close
  volume := max existing.volume 0 + max bar.volume 0
  timeframe := interval
  source := nameOr sourceName existing.source
  closed := closed
  provenance :=
    if existing.provenance = outputProvenance interval bar then existing.provenance else none
  volume_nonneg := add_nonneg (le_max_right _ _) (le_max_right _ _)
  geometry :=
    ⟨max_le ((le_max_left _ _).trans (existing.geometry.1.trans (le_max_left _ _)))
        ((le_max_right _ _).trans (bar.geometry.1.trans (le_max_right _ _))),
      le_min ((min_le_left _ _).trans (existing.geometry.2.trans (min_le_left _ _)))
        ((min_le_right _ _).trans (bar.geometry.2.trans (min_le_right _ _)))⟩

section Aggregator

variable (interval : Interval) (symbol sourceName : Option String) (current : Time)

/-- The bucket of a bar is closed, as far as its bars are known. -/
def bucketClosed (bar : SeriesBar) (slots : Finset Time) (childClosed : Bool) : Bool :=
  if bar.timeframe.minutes = interval.minutes then childClosed
  else childClosed && decide (collapseExpectedChildCount bar.timeframe interval ≤ slots.card) &&
    barIsClosed current (collapseBucket interval bar) interval

/-- One bar into its bucket. -/
def collapseChild (existing : Option CollapseEntry) (bar : SeriesBar) : CollapseEntry :=
  let bucket := collapseBucket interval bar
  let slots := insert (childSlot interval bar) ((existing.map CollapseEntry.slots).getD ∅)
  let childClosed := (existing.map CollapseEntry.childClosed).getD true && bar.closed
  let closed := bucketClosed interval current bar slots childClosed
  { bar := match existing with
      | none => bar.begun interval symbol sourceName bucket closed
      | some entry => entry.bar.extended interval symbol sourceName bucket closed bar
    slots := slots
    childClosed := childClosed }

def collapseBars (bars : List SeriesBar) : List SeriesBar :=
  let grouped := Dict.foldedBy (collapseBucket interval)
    (collapseChild interval symbol sourceName current)
    (bars.insertionSort fun a b => a.ts ≤ b.ts)
  (grouped.keys.insertionSort (· ≤ ·)).filterMap fun key =>
    (grouped.get? key).map CollapseEntry.bar

end Aggregator

/-! ### Buckets and slots -/

section Slots

variable {source target interval : Interval} {ts bucket : Time}

theorem Interval.seconds_pos (interval : Interval) : 0 < interval.seconds := by
  have := interval.pos
  simp only [Interval.seconds]
  omega

theorem Interval.span_pos (interval : Interval) : 0 < interval.span :=
  Int.mul_pos interval.seconds_pos (by decide)

theorem Interval.bucket_eq (interval : Interval) (ts : Time) :
    interval.bucket ts = ts.tdiv microseconds / interval.seconds * interval.span := by
  have hsplit := Int.mul_ediv_add_emod (ts.tdiv microseconds) interval.seconds
  have hstart : ts.tdiv microseconds - ts.tdiv microseconds % interval.seconds =
      ts.tdiv microseconds / interval.seconds * interval.seconds := by
    rw [mul_comm]
    omega
  rw [Interval.bucket, Interval.span, ← mul_assoc, hstart]

/-- A boundary of an interval starts its own bucket. -/
theorem Interval.bucket_mul_span (interval : Interval) (k : ℤ) :
    interval.bucket (k * interval.span) = k * interval.span := by
  have hsecond : (k * interval.span).tdiv microseconds = k * interval.seconds := by
    rw [Interval.span, ← mul_assoc]
    exact Int.mul_tdiv_cancel _ (by decide)
  rw [Interval.bucket_eq, hsecond, Int.mul_ediv_cancel _ interval.seconds_pos.ne']

theorem Interval.bucket_bucket (interval : Interval) (ts : Time) :
    interval.bucket (interval.bucket ts) = interval.bucket ts := by
  rw [interval.bucket_eq ts, Interval.bucket_mul_span]

/-- How many source intervals the target has. -/
def slotCount (source target : Interval) : ℕ := target.minutes / source.minutes

/-- The starts of the source intervals of a bucket. -/
def targetSlots (source target : Interval) (bucket : Time) : List Time :=
  (List.range (slotCount source target)).map fun i : ℕ => bucket + source.span * (i : ℤ)

theorem span_eq_of_dvd (h : source.minutes ∣ target.minutes) :
    target.span = slotCount source target * source.span := by
  have hminutes : slotCount source target * source.minutes = target.minutes :=
    Nat.div_mul_cancel h
  simp only [Interval.span, Interval.seconds, ← hminutes]
  push_cast
  ring

/-- The source slot of an instant is one of the slots of its bucket. -/
theorem bucket_mem_targetSlots (h : source.minutes ∣ target.minutes) (ts : Time) :
    source.bucket ts ∈ targetSlots source target (target.bucket ts) := by
  have hcount : 0 < slotCount source target :=
    Nat.div_pos (Nat.le_of_dvd target.pos h) source.pos
  have hseconds : target.seconds = source.seconds * slotCount source target := by
    have hminutes : slotCount source target * source.minutes = target.minutes :=
      Nat.div_mul_cancel h
    simp only [Interval.seconds, ← hminutes]
    push_cast
    ring
  set q := ts.tdiv microseconds / source.seconds with hq
  have hbucket : target.bucket ts =
      q / (slotCount source target : ℤ) * (slotCount source target * source.span) := by
    rw [Interval.bucket_eq, hseconds, ← Int.ediv_ediv_of_nonneg source.seconds_pos.le,
      span_eq_of_dvd h]
  have hpos : (0 : ℤ) < slotCount source target := by exact_mod_cast hcount
  have hmod := Int.emod_nonneg q hpos.ne'
  have hlt := Int.emod_lt_of_pos q hpos
  refine List.mem_map.mpr ⟨(q % slotCount source target).toNat, List.mem_range.mpr (by omega), ?_⟩
  rw [Int.toNat_of_nonneg hmod, hbucket, Interval.bucket_eq, ← hq]
  have hsplit := Int.mul_ediv_add_emod q (slotCount source target)
  calc q / (slotCount source target : ℤ) * (slotCount source target * source.span) +
        source.span * (q % slotCount source target)
      = ((slotCount source target : ℤ) * (q / slotCount source target) +
          q % slotCount source target) * source.span := by ring
    _ = q * source.span := by rw [hsplit]

theorem targetSlots_pairwise (source target : Interval) (bucket : Time) :
    (targetSlots source target bucket).Pairwise (· < ·) := by
  refine List.pairwise_map.mpr (List.pairwise_lt_range.imp fun {i j} hij => ?_)
  have hlt : source.span * (i : ℤ) < source.span * (j : ℤ) :=
    Int.mul_lt_mul_of_pos_left (Int.ofNat_lt.mpr hij) source.span_pos
  exact Int.add_lt_add_left hlt bucket

/-- Slots that are all of a bucket, by their number. -/
theorem slotCount_le_card_iff {slots : Finset Time}
    (h : ∀ slot ∈ slots, slot ∈ targetSlots source target bucket) :
    slotCount source target ≤ slots.card ↔
      ∀ slot ∈ targetSlots source target bucket, slot ∈ slots := by
  have hnodup : (targetSlots source target bucket).Nodup :=
    (targetSlots_pairwise source target bucket).imp fun hlt => hlt.ne
  have hcard : (targetSlots source target bucket).toFinset.card = slotCount source target := by
    rw [List.toFinset_card_of_nodup hnodup, targetSlots, List.length_map, List.length_range]
  have hsub : slots ⊆ (targetSlots source target bucket).toFinset := fun slot hslot =>
    List.mem_toFinset.mpr (h slot hslot)
  constructor
  · intro hle slot hslot
    rw [Finset.eq_of_subset_of_card_le hsub (by rw [hcard]; exact hle)]
    exact List.mem_toFinset.mpr hslot
  · intro hall
    rw [← hcard]
    exact Finset.card_le_card fun slot hslot => hall slot (List.mem_toFinset.mp hslot)

end Slots

/-! ### One bucket -/

/-- The prices and the volume of a bar are those of its bars, in their order. -/
structure CollapsedFrom (children : List SeriesBar) (d : SeriesBar) : Prop where
  opens : children.head?.map SeriesBar.open = some d.open
  closes : children.getLast?.map SeriesBar.close = some d.close
  high : (∀ c ∈ children, c.high ≤ d.high) ∧ ∃ c ∈ children, d.high = c.high
  low : (∀ c ∈ children, d.low ≤ c.low) ∧ ∃ c ∈ children, d.low = c.low
  volume : d.volume = (children.map SeriesBar.volume).sum

/-- What the dictionaries hold of a bucket with these bars. -/
structure EntryOf (interval : Interval) (current bucket : Time) (children : List SeriesBar)
    (entry : CollapseEntry) : Prop where
  ts : entry.bar.ts = bucket
  built : CollapsedFrom children entry.bar
  slots : entry.slots = (children.map (childSlot interval)).toFinset
  childClosed : entry.childClosed = children.all SeriesBar.closed
  closed : ∃ c ∈ children,
    entry.bar.closed = bucketClosed interval current c entry.slots entry.childClosed

section Bucket

variable {interval : Interval} {symbol sourceName : Option String} {current bucket : Time}
  {children bars : List SeriesBar} {c d d' : SeriesBar} {entry : CollapseEntry}

theorem entryOf_begun (hc : collapseBucket interval c = bucket) :
    EntryOf interval current bucket [c] (collapseChild interval symbol sourceName current none c) where
  ts := hc
  built :=
    { opens := rfl
      closes := rfl
      high := ⟨by simp [collapseChild, SeriesBar.begun], c, by simp, rfl⟩
      low := ⟨by simp [collapseChild, SeriesBar.begun], c, by simp, rfl⟩
      volume := by simp [collapseChild, SeriesBar.begun, max_eq_left c.volume_nonneg] }
  slots := by simp [collapseChild]
  childClosed := by simp [collapseChild]
  closed := ⟨c, by simp, rfl⟩

theorem EntryOf.extended (h : EntryOf interval current bucket children entry)
    (hc : collapseBucket interval c = bucket) :
    EntryOf interval current bucket (children ++ [c])
      (collapseChild interval symbol sourceName current (some entry) c) where
  ts := hc
  built :=
    { opens := by
        have hopens := h.built.opens
        cases children with
        | nil => exact nomatch hopens
        | cons first rest => exact hopens
      closes := by rw [List.getLast?_concat]; rfl
      high := max_concat_spec h.built.high c
      low := max_concat_spec (α := ℚᵒᵈ) h.built.low c
      volume := by
        rw [List.map_append, List.sum_append, ← h.built.volume]
        simp [collapseChild, SeriesBar.extended, max_eq_left c.volume_nonneg,
          max_eq_left entry.bar.volume_nonneg] }
  slots := by
    rw [List.map_append, List.toFinset_append, ← h.slots]
    ext slot
    simp [collapseChild]
  childClosed := by simp [collapseChild, h.childClosed]
  closed := ⟨c, by simp, rfl⟩

/-- What the bars of one bucket leave of it. -/
def bucketEntry (interval : Interval) (symbol sourceName : Option String) (current : Time)
    (children : List SeriesBar) : Option CollapseEntry :=
  children.foldl (fun v a => some (collapseChild interval symbol sourceName current v a)) none

theorem exists_bucketEntry (hne : children ≠ [])
    (hall : ∀ c ∈ children, collapseBucket interval c = bucket) :
    ∃ entry, bucketEntry interval symbol sourceName current children = some entry ∧
      EntryOf interval current bucket children entry := by
  induction children using List.reverseRecOn with
  | nil => exact absurd rfl hne
  | append_singleton children c ih =>
    have hc := hall c (by simp)
    rw [bucketEntry, List.foldl_append, ← bucketEntry]
    cases children with
    | nil => exact ⟨_, rfl, entryOf_begun hc⟩
    | cons first rest =>
      obtain ⟨entry, hfold, hentry⟩ := ih (by simp) fun b hb => hall b (List.mem_append_left _ hb)
      rw [hfold]
      exact ⟨_, rfl, hentry.extended hc⟩

/-! ### All buckets -/

/-- The bars of a bucket in the order in which they are added. -/
def addedTo (interval : Interval) (bars : List SeriesBar) (bucket : Time) : List SeriesBar :=
  (bars.insertionSort fun a b => a.ts ≤ b.ts).filter fun bar => collapseBucket interval bar = bucket

theorem mem_addedTo : c ∈ addedTo interval bars bucket ↔
    c ∈ bars ∧ collapseBucket interval c = bucket := by
  rw [addedTo, List.mem_filter, (List.perm_insertionSort _ _).mem_iff, decide_eq_true_iff]

theorem addedTo_ne_nil_iff : addedTo interval bars bucket ≠ [] ↔
    ∃ bar ∈ bars, collapseBucket interval bar = bucket := by
  constructor
  · intro hne
    obtain ⟨c, hc⟩ := List.exists_mem_of_ne_nil _ hne
    exact ⟨c, mem_addedTo.mp hc⟩
  · rintro ⟨c, hc⟩ hnil
    exact absurd (hnil ▸ mem_addedTo.mpr hc) List.not_mem_nil

theorem entryOf_of_bucketEntry
    (h : bucketEntry interval symbol sourceName current (addedTo interval bars bucket) = some entry) :
    EntryOf interval current bucket (addedTo interval bars bucket) entry := by
  have hne : addedTo interval bars bucket ≠ [] := by
    intro hnil
    rw [hnil] at h
    exact nomatch h
  obtain ⟨entry', hfold, hentry⟩ :
      ∃ entry', bucketEntry interval symbol sourceName current (addedTo interval bars bucket) =
        some entry' ∧ EntryOf interval current bucket (addedTo interval bars bucket) entry' :=
    exists_bucketEntry hne fun c hc => (mem_addedTo.mp hc).2
  obtain rfl : entry = entry' := Option.some.inj (h.symm.trans hfold)
  exact hentry

/-- A collapsed bar is what the bars of its bucket leave. -/
theorem mem_collapseBars_iff : d ∈ collapseBars interval symbol sourceName current bars ↔
    ∃ entry, bucketEntry interval symbol sourceName current (addedTo interval bars d.ts) = some entry ∧
      entry.bar = d := by
  have hmem (bucket : Time) : bucket ∈ (Dict.foldedBy (collapseBucket interval)
      (collapseChild interval symbol sourceName current)
      (bars.insertionSort fun a b => a.ts ≤ b.ts)).keys ↔ addedTo interval bars bucket ≠ [] := by
    rw [Dict.mem_keys_foldedBy, addedTo_ne_nil_iff]
    simp only [(List.perm_insertionSort _ _).mem_iff]
  rw [collapseBars, List.mem_filterMap]
  simp only [(List.perm_insertionSort _ _).mem_iff, hmem, Dict.get?_foldedBy, Option.map_eq_some_iff]
  constructor
  · rintro ⟨bucket, -, entry, hfold, rfl⟩
    rw [(entryOf_of_bucketEntry hfold).ts]
    exact ⟨entry, hfold, rfl⟩
  · rintro ⟨entry, hfold, rfl⟩
    refine ⟨entry.bar.ts, ?_, entry, hfold, rfl⟩
    rintro hnil
    rw [hnil] at hfold
    cases hfold

/-- The collapsed bars are in the strict order of their buckets. -/
theorem pairwise_collapseBars :
    (collapseBars interval symbol sourceName current bars).Pairwise fun d d' => d.ts < d'.ts := by
  rw [collapseBars]
  set grouped := Dict.foldedBy (collapseBucket interval)
    (collapseChild interval symbol sourceName current) (bars.insertionSort fun a b => a.ts ≤ b.ts)
    with hgrouped
  have hts (key : Time) (d : SeriesBar) (h : (grouped.get? key).map CollapseEntry.bar = some d) :
      d.ts = key := by
    obtain ⟨entry, hget, rfl⟩ := Option.map_eq_some_iff.mp h
    rw [hgrouped, Dict.get?_foldedBy] at hget
    exact (entryOf_of_bucketEntry hget).ts
  have hnodup : (grouped.keys.insertionSort (· ≤ ·)).Nodup :=
    (List.perm_insertionSort _ _).nodup_iff.mpr grouped.nodup_keys
  have hsorted : (grouped.keys.insertionSort (· ≤ ·)).Pairwise (· < ·) :=
    ((List.pairwise_insertionSort (· ≤ ·) _).and hnodup).imp fun h => lt_of_le_of_ne h.1 h.2
  refine List.pairwise_filterMap.mpr (hsorted.imp fun {key key'} hlt d hd d' hd' => ?_)
  rw [hts key d hd, hts key' d' hd']
  exact hlt

/-- A bucket has a bar exactly where a bar touches it. -/
theorem exists_collapsed_iff :
    (∃ d ∈ collapseBars interval symbol sourceName current bars, d.ts = bucket) ↔
      ∃ bar ∈ bars, collapseBucket interval bar = bucket := by
  constructor
  · rintro ⟨d, hd, rfl⟩
    obtain ⟨entry, hfold, -⟩ := mem_collapseBars_iff.mp hd
    obtain ⟨c, hc, -⟩ := (entryOf_of_bucketEntry hfold).closed
    exact ⟨c, mem_addedTo.mp hc⟩
  · rintro ⟨bar, hbar, hbucket⟩
    obtain ⟨entry, hfold, hentry⟩ :
        ∃ entry, bucketEntry interval symbol sourceName current (addedTo interval bars bucket) =
          some entry ∧ EntryOf interval current bucket (addedTo interval bars bucket) entry :=
      exists_bucketEntry (addedTo_ne_nil_iff.mpr ⟨bar, hbar, hbucket⟩) fun c hc => (mem_addedTo.mp hc).2
    refine ⟨entry.bar, mem_collapseBars_iff.mpr ⟨entry, ?_, rfl⟩, hentry.ts⟩
    rw [hentry.ts]
    exact hfold

/-! ### Timestamps given more than once -/

/-- The bars of a bucket, of each timestamp the one that was given last. -/
def childrenOf (interval : Interval) (bars : List SeriesBar) (bucket : Time) : List SeriesBar :=
  (latestSorted SeriesBar.ts bars).filter fun bar => collapseBucket interval bar = bucket

theorem addedTo_eq_childrenOf (hnodup : (bars.map SeriesBar.ts).Nodup) :
    addedTo interval bars bucket = childrenOf interval bars bucket := by
  rw [addedTo, childrenOf, insertionSort_eq_latestSorted hnodup]

end Bucket

/-! ### Bars of one source interval -/

section OneSource

variable {source target : Interval} {symbol sourceName : Option String} {current bucket : Time}
  {bars : List SeriesBar} {c d : SeriesBar}

theorem Interval.eq_of_minutes (h : source.minutes = target.minutes) : source = target := by
  cases source
  cases target
  simpa using h

/-- The slots that the bars of a bucket fill are among the slots of the bucket. -/
theorem childSlot_mem (hdvd : source.minutes ∣ target.minutes) (hne : source ≠ target)
    (hc : c.timeframe = source) :
    childSlot target c ∈ targetSlots source target (collapseBucket target c) := by
  have hminutes : c.timeframe.minutes ≠ target.minutes := fun h =>
    hne (Interval.eq_of_minutes (hc ▸ h))
  rw [childSlot, if_neg hminutes, collapseBucket, if_neg hminutes, hc]
  exact bucket_mem_targetSlots hdvd c.ts

theorem collapseExpectedChildCount_eq (hdvd : source.minutes ∣ target.minutes)
    (hne : source ≠ target) :
    collapseExpectedChildCount source target = slotCount source target := by
  have hle : source.minutes ≤ target.minutes := Nat.le_of_dvd target.pos hdvd
  have hlt : source.minutes < target.minutes :=
    lt_of_le_of_ne hle fun h => hne (Interval.eq_of_minutes h)
  rw [collapseExpectedChildCount, if_neg (by omega)]
  exact max_eq_left (Nat.div_pos hle source.pos)

/-- When a collapsed bar is closed, over the bars that were added to it. -/
theorem closed_iff_addedTo (hdvd : source.minutes ∣ target.minutes)
    (hsource : ∀ bar ∈ bars, bar.timeframe = source)
    (hd : d ∈ collapseBars target symbol sourceName current bars) :
    d.closed = true ↔ (∀ c ∈ addedTo target bars d.ts, c.closed = true) ∧
      (source = target ∨ d.ts + target.span ≤ current ∧
        ∀ slot ∈ targetSlots source target d.ts,
          ∃ c ∈ addedTo target bars d.ts, childSlot target c = slot) := by
  obtain ⟨entry, hfold, hentry⟩ := mem_collapseBars_iff.mp hd
  have hof := entryOf_of_bucketEntry hfold
  obtain ⟨c, hc, hclosed⟩ := hof.closed
  obtain ⟨hcbars, hbucket⟩ := mem_addedTo.mp hc
  have htimeframe := hsource c hcbars
  rw [hentry] at hclosed
  rw [hclosed, bucketClosed, hof.childClosed, htimeframe]
  by_cases hsame : source = target
  · rw [if_pos (congrArg Interval.minutes hsame), List.all_eq_true]
    exact ⟨fun h => ⟨h, .inl hsame⟩, And.left⟩
  · have hminutes : source.minutes ≠ target.minutes := fun h => hsame (Interval.eq_of_minutes h)
    have hslots : ∀ slot ∈ entry.slots, slot ∈ targetSlots source target d.ts := by
      intro slot hslot
      rw [hof.slots, List.mem_toFinset, List.mem_map] at hslot
      obtain ⟨b, hb, rfl⟩ := hslot
      obtain ⟨hbbars, hbbucket⟩ := mem_addedTo.mp hb
      rw [← hbbucket]
      exact childSlot_mem hdvd hsame (hsource b hbbars)
    have hover : barIsClosed current (collapseBucket target c) target = true ↔
        d.ts + target.span ≤ current := by
      rw [barIsClosed, decide_eq_true_iff, collapseBucket, htimeframe, if_neg hminutes,
        Interval.bucket_bucket, ← hbucket, collapseBucket, htimeframe, if_neg hminutes]
    rw [if_neg hminutes, Bool.and_eq_true, Bool.and_eq_true, hover, decide_eq_true_iff,
      collapseExpectedChildCount_eq hdvd hsame, slotCount_le_card_iff hslots, List.all_eq_true,
      hof.slots]
    simp only [List.mem_toFinset, List.mem_map, hsame, false_or]
    exact ⟨fun h => ⟨h.1.1, h.2, h.1.2⟩, fun h => ⟨⟨h.1, h.2.2⟩, h.2.1⟩⟩

/-- What `collapse_bars` makes of bars of one source interval. -/
structure CollapseLaw (source target : Interval) : Prop where
  /-- The bars are in the order of their buckets, one for each bucket a bar touches. -/
  ordered : ∀ symbol sourceName current bars, (∀ bar ∈ bars, bar.timeframe = source) →
    (collapseBars target symbol sourceName current bars).Pairwise fun d d' => d.ts < d'.ts
  touched : ∀ symbol sourceName current bars, (∀ bar ∈ bars, bar.timeframe = source) →
    ∀ bucket, (∃ d ∈ collapseBars target symbol sourceName current bars, d.ts = bucket) ↔
      ∃ bar ∈ bars, bucket = if source = target then bar.ts else target.bucket bar.ts
  /-- The close is that of the last timestamp of the bucket, as it was given last. -/
  closes : ∀ symbol sourceName current bars, (∀ bar ∈ bars, bar.timeframe = source) →
    ∀ d ∈ collapseBars target symbol sourceName current bars,
      (childrenOf target bars d.ts).getLast?.map SeriesBar.close = some d.close
  /-- Where no timestamp is given twice, prices and volume are those of the bars of the bucket. -/
  built : ∀ symbol sourceName current bars, (∀ bar ∈ bars, bar.timeframe = source) →
    (bars.map SeriesBar.ts).Nodup →
    ∀ d ∈ collapseBars target symbol sourceName current bars,
      CollapsedFrom (childrenOf target bars d.ts) d
  /-- A bar is closed where all bars of its bucket are, the bucket is over and each of its slots has
  a bar. A bar that has the interval already is closed as it was. -/
  closed : ∀ symbol sourceName current bars, (∀ bar ∈ bars, bar.timeframe = source) →
    (bars.map SeriesBar.ts).Nodup →
    ∀ d ∈ collapseBars target symbol sourceName current bars,
      (d.closed = true ↔ (∀ c ∈ childrenOf target bars d.ts, c.closed = true) ∧
        (source = target ∨ d.ts + target.span ≤ current ∧
          ∀ slot ∈ targetSlots source target d.ts,
            ∃ c ∈ childrenOf target bars d.ts, source.bucket c.ts = slot))

theorem collapseBucket_eq (hc : c.timeframe = source) :
    collapseBucket target c = if source = target then c.ts else target.bucket c.ts := by
  rw [collapseBucket, hc]
  by_cases hsame : source = target
  · rw [if_pos (congrArg Interval.minutes hsame), if_pos hsame]
  · rw [if_neg fun h => hsame (Interval.eq_of_minutes h), if_neg hsame]

theorem collapseLaw (hdvd : source.minutes ∣ target.minutes) : CollapseLaw source target where
  ordered := fun _ _ _ _ _ => pairwise_collapseBars
  touched := by
    intro symbol sourceName current bars hsource bucket
    rw [exists_collapsed_iff]
    refine exists_congr fun bar => and_congr_right fun hbar => ?_
    rw [collapseBucket_eq (hsource bar hbar), eq_comm]
  closes := by
    intro symbol sourceName current bars hsource d hd
    obtain ⟨entry, hfold, rfl⟩ := mem_collapseBars_iff.mp hd
    have hcloses := (entryOf_of_bucketEntry hfold).built.closes
    rw [addedTo, getLast?_filter_insertionSort] at hcloses
    · exact hcloses
    · intro a ha b hb hts
      rw [collapseBucket_eq (hsource a ha), collapseBucket_eq (hsource b hb), hts]
  built := by
    intro symbol sourceName current bars hsource hnodup d hd
    obtain ⟨entry, hfold, rfl⟩ := mem_collapseBars_iff.mp hd
    rw [← addedTo_eq_childrenOf hnodup]
    exact (entryOf_of_bucketEntry hfold).built
  closed := by
    intro symbol sourceName current bars hsource hnodup d hd
    rw [closed_iff_addedTo hdvd hsource hd, addedTo_eq_childrenOf hnodup]
    refine and_congr_right fun _ => ?_
    by_cases hsame : source = target
    · simp [hsame]
    · have hslot : ∀ c ∈ childrenOf target bars d.ts, childSlot target c = source.bucket c.ts := by
        intro c hc
        have htimeframe := hsource c (mem_addedTo.mp (addedTo_eq_childrenOf hnodup ▸ hc)).1
        rw [childSlot, htimeframe, if_neg fun h => hsame (Interval.eq_of_minutes h)]
      refine or_congr_right (and_congr_right fun _ => forall₂_congr fun slot _ => ?_)
      exact exists_congr fun c => and_congr_right fun hc => by rw [hslot c hc]

end OneSource

/-! ### Both aggregators -/

/-- The timestamp, the prices and the volume of a bar. -/
def SeriesBar.ohlcv (bar : SeriesBar) : Time × ℚ × ℚ × ℚ × ℚ × ℚ :=
  (bar.ts, bar.open, bar.high, bar.low, bar.close, bar.volume)

/-- All bars of the bucket start a source slot. -/
def onGrid (source target : Interval) (bars : List SeriesBar) (d : SeriesBar) : Bool :=
  (childrenOf target bars d.ts).all fun c => source.bucket c.ts = c.ts

/-- The source interval of a chart interval. -/
def sourceInterval (interval : ChartInterval) : Interval :=
  (canonicalBarSourceInterval interval).toChart.interval

section Agreement

variable {interval : ChartInterval} {symbol sourceName : Option String} {current bucket : Time}
  {bars children : List Bar} {d : Bar} {e e' : SeriesBar}

theorem CollapsedFrom.ohlcv_eq {children : List SeriesBar} (h : CollapsedFrom children e)
    (h' : CollapsedFrom children e') (hts : e.ts = e'.ts) : e.ohlcv = e'.ohlcv := by
  have hopen : e.open = e'.open := Option.some.inj (h.opens.symm.trans h'.opens)
  have hclose : e.close = e'.close := Option.some.inj (h.closes.symm.trans h'.closes)
  have hhigh : e.high = e'.high := by
    obtain ⟨hall, c, hc, heq⟩ := h.high
    obtain ⟨hall', c', hc', heq'⟩ := h'.high
    exact le_antisymm (heq ▸ hall' c hc) (heq' ▸ hall c' hc')
  have hlow : e.low = e'.low := by
    obtain ⟨hall, c, hc, heq⟩ := h.low
    obtain ⟨hall', c', hc', heq'⟩ := h'.low
    exact le_antisymm (heq' ▸ hall c' hc') (heq ▸ hall' c hc)
  rw [SeriesBar.ohlcv, SeriesBar.ohlcv, hts, hopen, hclose, hhigh, hlow, h.volume, h'.volume]

/-- What `derive_chart_bars` builds, read as a collapsed bar. -/
theorem BuiltFrom.collapsedFrom (h : BuiltFrom bars interval d children) :
    CollapsedFrom (children.map Bar.toSeries) d.toSeries where
  opens := by
    rw [List.head?_map, Option.map_map]
    exact h.opens
  closes := by
    rw [List.getLast?_map, Option.map_map]
    exact h.closes
  high := by
    obtain ⟨hall, c, hc, heq⟩ := h.high
    exact ⟨List.forall_mem_map.mpr hall, c.toSeries, List.mem_map_of_mem hc, heq⟩
  low := by
    obtain ⟨hall, c, hc, heq⟩ := h.low
    exact ⟨List.forall_mem_map.mpr hall, c.toSeries, List.mem_map_of_mem hc, heq⟩
  volume := by
    rw [List.map_map]
    exact h.volume

theorem sourceInterval_dvd (interval : ChartInterval) :
    (sourceInterval interval).minutes ∣ interval.interval.minutes := by
  cases interval <;> decide

theorem childSlots_eq (hderived : isDerivedChartInterval interval = true) (bucket : Time) :
    childSlots interval bucket = targetSlots (sourceInterval interval) interval.interval bucket := by
  cases interval <;> first | exact absurd hderived (by decide) | rfl

theorem sourceInterval_ne (hderived : isDerivedChartInterval interval = true) :
    sourceInterval interval ≠ interval.interval := by
  cases interval <;> first | exact absurd hderived (by decide) | decide

/-- The bars of a bucket are the same for both. -/
theorem childrenOf_toSeries (hderived : isDerivedChartInterval interval = true)
    (hsource : ∀ bar ∈ bars, bar.timeframe = (canonicalBarSourceInterval interval).toChart)
    (bucket : Time) :
    childrenOf interval.interval (bars.map Bar.toSeries) bucket =
      ((latestSorted Bar.ts bars).filter fun c =>
        intervalBucket c.ts interval = bucket).map Bar.toSeries := by
  rw [childrenOf, latestSorted_map Bar.toSeries fun _ => rfl, List.filter_map]
  refine congrArg _ (List.filter_congr fun c hc => ?_)
  have htimeframe : c.toSeries.timeframe = sourceInterval interval :=
    congrArg ChartInterval.interval (hsource c (mem_of_lastWith (mem_latestSorted.mp hc)))
  rw [Function.comp_apply, collapseBucket_eq htimeframe, if_neg (sourceInterval_ne hderived)]
  rfl

/-- The slots of a bucket start slots. -/
theorem bucket_of_mem_targetSlots {source target : Interval}
    (hdvd : source.minutes ∣ target.minutes) {ts slot : Time}
    (h : slot ∈ targetSlots source target (target.bucket ts)) : source.bucket slot = slot := by
  obtain ⟨i, -, rfl⟩ := List.mem_map.mp h
  have hslot : target.bucket ts + source.span * (i : ℤ) =
      (ts.tdiv microseconds / target.seconds * slotCount source target + i) * source.span := by
    rw [Interval.bucket_eq, span_eq_of_dvd hdvd]
    ring
  rw [hslot, Interval.bucket_mul_span]

theorem toSeries_source
    (hsource : ∀ bar ∈ bars, bar.timeframe = (canonicalBarSourceInterval interval).toChart) :
    ∀ bar ∈ bars.map Bar.toSeries, bar.timeframe = sourceInterval interval :=
  List.forall_mem_map.mpr fun bar hbar => congrArg ChartInterval.interval (hsource bar hbar)

theorem toSeries_nodup (hnodup : (bars.map Bar.ts).Nodup) :
    ((bars.map Bar.toSeries).map SeriesBar.ts).Nodup := by
  rw [List.map_map]
  exact hnodup

theorem childrenOf_of_full (hderived : isDerivedChartInterval interval = true)
    (hsource : ∀ bar ∈ bars, bar.timeframe = (canonicalBarSourceInterval interval).toChart)
    (hmem : ∀ c, c ∈ children ↔ IsChildOf bars interval bucket c)
    (hslots : children.map Bar.ts = childSlots interval bucket) :
    childrenOf interval.interval (bars.map Bar.toSeries) bucket = children.map Bar.toSeries := by
  rw [childrenOf_toSeries hderived hsource, ← eq_filter_of_isChildOf hmem hslots]

/-- The bars of a full bucket give the same prices to both. -/
theorem ohlcv_of_full (hderived : isDerivedChartInterval interval = true)
    (hsource : ∀ bar ∈ bars, bar.timeframe = (canonicalBarSourceInterval interval).toChart)
    (hnodup : (bars.map Bar.ts).Nodup) {first : Bar} {rest : List Bar}
    (he : e ∈ collapseBars interval.interval symbol sourceName current (bars.map Bar.toSeries))
    (hmem : ∀ c, c ∈ first :: rest ↔ IsChildOf bars interval e.ts c)
    (hslots : (first :: rest).map Bar.ts = childSlots interval e.ts)
    (hstate : ∀ c ∈ first :: rest, c.state = .confirmed) :
    e.ohlcv = (derivedBar interval (canonicalBarSourceInterval interval) e.ts first rest
      true).toSeries.ohlcv := by
  have hbuilt := (collapseLaw (sourceInterval_dvd interval)).built symbol sourceName current _
    (toSeries_source hsource) (toSeries_nodup hnodup) e he
  rw [childrenOf_of_full hderived hsource hmem hslots] at hbuilt
  exact hbuilt.ohlcv_eq (builtFrom_derivedBar hmem hslots hstate).collapsedFrom rfl

/-- A full bucket of confirmed bars that is over has a closed bar on the grid, with the prices of the
derived one. -/
theorem exists_collapsed_of_full (hderived : isDerivedChartInterval interval = true)
    (hsource : ∀ bar ∈ bars, bar.timeframe = (canonicalBarSourceInterval interval).toChart)
    (hnodup : (bars.map Bar.ts).Nodup) {first : Bar} {rest : List Bar}
    (hover : bucket + targetSpan interval ≤ current)
    (hmem : ∀ c, c ∈ first :: rest ↔ IsChildOf bars interval bucket c)
    (hslots : (first :: rest).map Bar.ts = childSlots interval bucket)
    (hstate : ∀ c ∈ first :: rest, c.state = .confirmed) :
    ∃ e ∈ collapseBars interval.interval symbol sourceName current (bars.map Bar.toSeries),
      e.closed = true ∧
      onGrid (sourceInterval interval) interval.interval (bars.map Bar.toSeries) e = true ∧
      e.ohlcv = (derivedBar interval (canonicalBarSourceInterval interval) bucket first rest
        true).toSeries.ohlcv := by
  have hlaw := collapseLaw (sourceInterval_dvd interval)
  have hsource' := toSeries_source hsource
  have hchildren := childrenOf_of_full hderived hsource hmem hslots
  have hfirst := (hmem first).mp (by simp)
  obtain ⟨e, he, rfl⟩ := (hlaw.touched symbol sourceName current _ hsource' bucket).mpr
    ⟨first.toSeries, List.mem_map_of_mem (mem_of_lastWith hfirst.1), by
      rw [if_neg (sourceInterval_ne hderived)]
      exact hfirst.2.symm⟩
  -- the bars of the bucket stand at its slots, which start slots
  have hgrid : ∀ slot ∈ (first :: rest).map Bar.ts, (sourceInterval interval).bucket slot = slot := by
    intro slot hslot
    rw [hslots, childSlots_eq hderived, ← hfirst.2] at hslot
    exact bucket_of_mem_targetSlots (sourceInterval_dvd interval) hslot
  refine ⟨e, he, ?_, ?_, ?_⟩
  · refine (hlaw.closed symbol sourceName current _ hsource' (toSeries_nodup hnodup) e he).mpr ⟨?_, .inr ⟨?_, ?_⟩⟩
    · rw [hchildren]
      exact List.forall_mem_map.mpr fun c hc => c.lifecycle.mpr (hstate c hc)
    · exact hover
    · intro slot hslot
      rw [← childSlots_eq hderived, ← hslots] at hslot
      obtain ⟨c, hc, rfl⟩ := List.mem_map.mp hslot
      exact ⟨c.toSeries, hchildren ▸ List.mem_map_of_mem hc, hgrid _ (List.mem_map_of_mem hc)⟩
  · rw [onGrid, hchildren, List.all_eq_true]
    exact List.forall_mem_map.mpr fun c hc => decide_eq_true (hgrid _ (List.mem_map_of_mem hc))
  · exact ohlcv_of_full hderived hsource hnodup he hmem hslots hstate

/-- A closed bar on the grid has a full bucket of confirmed bars that is over. -/
theorem full_of_collapsed (hderived : isDerivedChartInterval interval = true)
    (hsource : ∀ bar ∈ bars, bar.timeframe = (canonicalBarSourceInterval interval).toChart)
    (hnodup : (bars.map Bar.ts).Nodup)
    (he : e ∈ collapseBars interval.interval symbol sourceName current (bars.map Bar.toSeries))
    (hclosed : e.closed = true)
    (hgrid : onGrid (sourceInterval interval) interval.interval (bars.map Bar.toSeries) e = true) :
    ∃ first rest, e.ts + targetSpan interval ≤ current ∧
      (∀ c, c ∈ first :: rest ↔ IsChildOf bars interval e.ts c) ∧
      (first :: rest).map Bar.ts = childSlots interval e.ts ∧
      ∀ c ∈ first :: rest, c.state = .confirmed := by
  have hlaw := collapseLaw (sourceInterval_dvd interval)
  have hsource' := toSeries_source hsource
  have hnodup' := toSeries_nodup hnodup
  obtain ⟨hall, hover⟩ := (hlaw.closed symbol sourceName current _ hsource' hnodup' e he).mp hclosed
  obtain ⟨hover, hfull⟩ := hover.resolve_left (sourceInterval_ne hderived)
  have hchildren := childrenOf_toSeries hderived hsource e.ts
  rw [onGrid, List.all_eq_true] at hgrid
  rw [hchildren] at hall hfull hgrid
  set children := (latestSorted Bar.ts bars).filter fun c => intervalBucket c.ts interval = e.ts
    with hdef
  have hmem : ∀ c, c ∈ children ↔ IsChildOf bars interval e.ts c := fun c => mem_filter_iff
  have hstart : ∀ c ∈ children, (sourceInterval interval).bucket c.ts = c.ts := fun c hc =>
    of_decide_eq_true (hgrid _ (List.mem_map_of_mem hc))
  have hslots : children.map Bar.ts = childSlots interval e.ts := by
    rw [childSlots_eq hderived]
    refine @eq_of_pairwise_key_lt _ _ _ id _ _ (List.pairwise_map.mpr (pairwise_latestSorted.filter _))
      (targetSlots_pairwise _ _ _) fun slot => ?_
    rw [List.mem_map]
    constructor
    · rintro ⟨c, hc, rfl⟩
      have hslot : (sourceInterval interval).bucket c.ts ∈ targetSlots (sourceInterval interval)
          interval.interval (intervalBucket c.ts interval) :=
        bucket_mem_targetSlots (sourceInterval_dvd interval) c.ts
      rwa [hstart c hc, ((hmem c).mp hc).2] at hslot
    · intro hslot
      obtain ⟨c', hc', hts⟩ := hfull slot hslot
      obtain ⟨c, hc, rfl⟩ := List.mem_map.mp hc'
      exact ⟨c, hc, (hstart c hc).symm.trans hts⟩
  obtain ⟨first, rest, hcons⟩ : ∃ first rest, children = first :: rest := by
    have hopens := (hlaw.built symbol sourceName current _ hsource' hnodup' e he).opens
    rw [hchildren] at hopens
    exact List.exists_cons_of_ne_nil fun hnil => by rw [hnil] at hopens; exact nomatch hopens
  rw [hcons] at hmem hslots hall
  refine ⟨first, rest, hover, hmem, hslots, fun c hc => c.lifecycle.mp ?_⟩
  exact hall c.toSeries (List.mem_map_of_mem hc)

/-- The derived bars are in the order of their buckets. -/
theorem pairwise_projectedBars :
    (projectedBars interval current (latestSorted Bar.ts bars)).Pairwise fun d d' => d.ts < d'.ts := by
  have hts (group : Time × List Bar) (d : Bar)
      (h : projectBucket interval current group.1 group.2 = some d) : d.ts = group.1 := by
    obtain ⟨bucket, children⟩ := group
    cases children with
    | nil => cases h
    | cons first rest =>
      rw [projectBucket] at h
      split at h
      · cases h
      · exact (Option.some.inj h) ▸ rfl
  have hbuckets : ((latestSorted Bar.ts bars).map fun bar => intervalBucket bar.ts interval).Pairwise
      (· ≤ ·) :=
    List.pairwise_map.mpr (pairwise_latestSorted.imp fun h => intervalBucket_mono interval h.le)
  rw [projectedBars, Dict.entries_groupedBy, List.filterMap_map, List.pairwise_filterMap]
  refine (pairwise_eraseDups hbuckets).imp fun {b b'} hlt d hd d' hd' => ?_
  rw [hts _ d hd, hts _ d' hd']
  exact hlt

/-- The confirmed derived bars are the closed collapsed bars of the buckets whose bars start slots. -/
theorem collapse_agrees (hderived : isDerivedChartInterval interval = true)
    (hsource : ∀ bar ∈ bars, bar.timeframe = (canonicalBarSourceInterval interval).toChart)
    (hnodup : (bars.map Bar.ts).Nodup) (symbol sourceName : Option String) (current : Time) :
    ∃ out, deriveChartBars bars interval current = .ok out ∧
      (out.filter Bar.closed).map (fun d => d.toSeries.ohlcv) =
        ((collapseBars interval.interval symbol sourceName current (bars.map Bar.toSeries)).filter
          fun e => e.closed &&
            onGrid (sourceInterval interval) interval.interval (bars.map Bar.toSeries) e).map
              SeriesBar.ohlcv := by
  refine ⟨projectedBars interval current (latestSorted Bar.ts bars), ?_, ?_⟩
  · rw [deriveChartBars_eq hderived, if_pos]
    exact fun bar hbar => hsource bar (mem_of_lastWith (mem_latestSorted.mp hbar))
  refine @eq_of_pairwise_key_lt _ _ _ Prod.fst _ _ (List.pairwise_map.mpr (pairwise_projectedBars.filter _))
    (List.pairwise_map.mpr (pairwise_collapseBars.filter _)) fun row => ?_
  simp only [List.mem_map, List.mem_filter, Bool.and_eq_true]
  constructor
  · rintro ⟨d, hd, rfl⟩
    obtain ⟨first, rest, bucket, hover, hmem, hslots, hstate, rfl⟩ := mem_projectedBars_iff.mp hd
    obtain ⟨e, he, hclosed, hgrid, hrow⟩ :=
      exists_collapsed_of_full hderived hsource hnodup hover hmem hslots hstate
    exact ⟨e, ⟨he, hclosed, hgrid⟩, hrow⟩
  · rintro ⟨e, ⟨he, hclosed, hgrid⟩, rfl⟩
    obtain ⟨first, rest, hover, hmem, hslots, hstate⟩ :=
      full_of_collapsed hderived hsource hnodup he hclosed hgrid
    refine ⟨_, mem_projectedBars_iff.mpr ⟨first, rest, e.ts, hover, hmem, hslots, hstate, rfl⟩, ?_⟩
    exact (ohlcv_of_full hderived hsource hnodup he hmem hslots hstate).symm

end Agreement

/-! ### The claimed agreement -/

/-- A bar of one price, this many seconds after the epoch. -/
def steadyBar (timeframe : ChartInterval) (seconds : ℤ) (volume : ℕ) (closed : Bool) : Bar where
  symbol := "ES"
  ts := seconds * microseconds
  «open» := 1
  high := 1
  low := 1
  close := 1
  volume := volume
  timeframe := timeframe
  source := "test"
  closed := closed
  state := if closed then .confirmed else .forming
  provenance := none
  volume_nonneg := Nat.cast_nonneg volume
  geometry := flat_geometry (1 : ℕ)
  lifecycle := lifecycle_ite closed

/-- What the collapsed bars of a chart interval say: start, volume and whether they are closed. -/
def collapsedAt (interval : ChartInterval) (seconds : ℤ) (bars : List Bar) : List (Time × ℚ × Bool) :=
  (collapseBars interval.interval none none (seconds * microseconds) (bars.map Bar.toSeries)).map
    fun e => (e.ts, e.volume, e.closed)

/-- What the confirmed derived bars say. -/
def derivedAt (interval : ChartInterval) (seconds : ℤ) (bars : List Bar) :
    Option (List (Time × ℚ × Bool)) :=
  ((deriveChartBars bars interval (seconds * microseconds)).toOption).map fun out =>
    (out.filter Bar.closed).map fun d => (d.ts, d.volume, d.closed)

end AefTerminal
