import AefTerminal.Foundation.SlidingWindow
import Mathlib.Algebra.BigOperators.Ring.List
import Mathlib.Algebra.Order.Field.Rat
import Mathlib.Data.List.MinMax
import Mathlib.Tactic.FieldSimp
import Mathlib.Tactic.Positivity
import Mathlib.Tactic.Ring

/-!
# Rolling series of the indicators

The indicators read each series through a window that ends at an index. `mean_at`, `stdev_at`,
`rolling_high` and `rolling_low` cut the window out; the `rolling_*_series` functions compute the
values of all indices in one pass, over running sums or a monotone queue of candidate indices.

Values are exact rationals. The square root of the deviation is a parameter: it is applied to the
variance and nothing is asked of it.

## Main results

* `rollingMeanSeries_eq`, `rollingStdevSeries_eq`, `rollingExtremeSeries_eq`: each pass computes what
  its definition reads off the window
* `rollingSeries_eq_definitions`: the four of them together
-/

namespace AefTerminal

open Foundation

/-! ### Reading one index -/

/-- `values[start:end]`, for bounds that are not negative. -/
def slice (values : List ℚ) (start stop : ℕ) : List ℚ := (values.take stop).drop start

/-- `max(length, 1)` -/
def windowLen (length : ℤ) : ℕ := (max length 1).toNat

/-- `max(0, end - max(length, 1))` -/
def windowStart (stop : ℕ) (length : ℤ) : ℕ := ((stop : ℤ) - max length 1).toNat

/-- `fmean` of a window. -/
def fmean (window : List ℚ) : ℚ := window.sum / window.length

def meanAt (values : List ℚ) (index : ℕ) (length : ℤ) : ℚ :=
  let window := slice values (windowStart (index + 1) length) (index + 1)
  if window = [] then 0 else fmean window

section Stdev

variable {β : Type*} [Zero β] (root : ℚ → β)

def stdevAt (values : List ℚ) (index : ℕ) (length : ℤ) : β :=
  let window := slice values (windowStart (index + 1) length) (index + 1)
  if window.length ≤ 1 then 0
  else
    let origin := window.headD 0
    let centered := window.map fun value => value - origin
    let mean := centered.sum / centered.length
    root ((centered.map fun value => (value - mean) ^ 2).sum / centered.length)

end Stdev

/-- `max(..)` or `min(..)` of a window, which raises on an empty one. -/
def extremeOf (high : Bool) (window : List ℚ) : Except String ℚ :=
  match if high then window.max? else window.min? with
  | some value => .ok value
  | none => .error (if high then "max() iterable argument is empty"
      else "min() iterable argument is empty")

def rollingExtreme (high : Bool) (values : List ℚ) (index : ℕ) (length : ℤ)
    (excludeCurrent : Bool) : Except String (Option ℚ) :=
  let stop := if excludeCurrent then index else index + 1
  let start := windowStart stop length
  if stop ≤ start then .ok none else (extremeOf high (slice values start stop)).map some

def rollingHigh (values : List ℚ) (index : ℕ) (length : ℤ) (excludeCurrent : Bool) :
    Except String (Option ℚ) :=
  rollingExtreme true values index length excludeCurrent

def rollingLow (values : List ℚ) (index : ℕ) (length : ℤ) (excludeCurrent : Bool) :
    Except String (Option ℚ) :=
  rollingExtreme false values index length excludeCurrent

/-! ### The passes -/

/-- What the pass of `rolling_mean_series` carries. -/
structure MeanPass where
  window : List ℚ
  total : ℚ
  out : List ℚ

def MeanPass.step (window_len : ℕ) (s : MeanPass) (value : ℚ) : MeanPass :=
  let window := s.window ++ [value]
  let total := s.total + value
  let full := window_len < window.length
  let left := if full then window.tail else window
  let total := if full then total - window.headD 0 else total
  { window := left
    total := total
    out := s.out ++ [if left = [] then 0 else total / left.length] }

def rollingMeanSeries (values : List ℚ) (length : ℤ) : List ℚ :=
  (values.foldl (MeanPass.step (windowLen length)) { window := [], total := 0, out := [] }).out

/-- What the pass of `rolling_stdev_series` carries. -/
structure StdevPass (β : Type*) where
  window : List ℚ
  total : ℚ
  totalSq : ℚ
  out : List β

section StdevSeries

variable {β : Type*} [Zero β] (root : ℚ → β)

def StdevPass.step (window_len : ℕ) (s : StdevPass β) (value : ℚ) : StdevPass β :=
  let window := s.window ++ [value]
  let total := s.total + value
  let totalSq := s.totalSq + value * value
  let full := window_len < window.length
  let old := window.headD 0
  let left := if full then window.tail else window
  let total := if full then total - old else total
  let totalSq := if full then totalSq - old * old else totalSq
  let mean := total / left.length
  let variance := max (totalSq / left.length - mean * mean) 0
  { window := left
    total := total
    totalSq := totalSq
    out := s.out ++ [if left.length ≤ 1 then 0 else root variance] }

def rollingStdevSeries (values : List ℚ) (length : ℤ) : List β :=
  (values.foldl (StdevPass.step root (windowLen length))
    { window := [], total := 0, totalSq := 0, out := [] }).out

end StdevSeries

/-- A candidate stays before a value that is not strictly better. -/
def KeepsCandidate (high : Bool) (candidateValue value : ℚ) : Prop :=
  (high = true ∧ candidateValue ≥ value) ∨ (high = false ∧ candidateValue ≤ value)

instance (high : Bool) : DecidableRel (KeepsCandidate high) :=
  fun _ _ => inferInstanceAs (Decidable (_ ∨ _))

/-- What the pass of `_rolling_extreme_series` carries. -/
structure ExtremePass where
  candidates : List ℕ
  out : List (Option ℚ)

/-- `float(values[index])`, for an index of the list. -/
def valueOf (values : List ℚ) (index : ℕ) : ℚ := values.getD index 0

/-- One index. Without the current element the queue is read before the element joins it, and its
window ends one element earlier. -/
def ExtremePass.step (values : List ℚ) (window_len : ℕ) (excludeCurrent high : Bool)
    (s : ExtremePass) (index : ℕ) : ExtremePass :=
  if excludeCurrent then
    let candidates := evictFront (index - window_len) s.candidates
    { candidates := pushBack (KeepsCandidate high) (valueOf values) index candidates
      out := s.out ++ [candidates.head?.map (valueOf values)] }
  else
    let candidates := evictFront (index + 1 - window_len)
      (pushBack (KeepsCandidate high) (valueOf values) index s.candidates)
    { candidates := candidates
      out := s.out ++ [candidates.head?.map (valueOf values)] }

def rollingExtremeSeries (values : List ℚ) (length : ℤ) (excludeCurrent high : Bool) :
    List (Option ℚ) :=
  ((List.range values.length).foldl
    (ExtremePass.step values (windowLen length) excludeCurrent high)
    { candidates := [], out := [] }).out

def rollingHighSeries (values : List ℚ) (length : ℤ) (excludeCurrent : Bool) : List (Option ℚ) :=
  rollingExtremeSeries values length excludeCurrent true

def rollingLowSeries (values : List ℚ) (length : ℤ) (excludeCurrent : Bool) : List (Option ℚ) :=
  rollingExtremeSeries values length excludeCurrent false

/-! ### The window of an index -/

variable {values : List ℚ} {length : ℤ} {index stop : ℕ} {high excludeCurrent : Bool}

theorem windowLen_pos (length : ℤ) : 0 < windowLen length := by
  simp only [windowLen]
  omega

theorem windowStart_eq (stop : ℕ) (length : ℤ) :
    windowStart stop length = stop - windowLen length := by
  simp only [windowStart, windowLen]
  omega

theorem slice_eq_rtake (h : stop ≤ values.length) :
    slice values (windowStart stop length) stop = (values.take stop).rtake (windowLen length) := by
  rw [slice, rtake_eq_drop, List.length_take_of_le h, windowStart_eq]

theorem mem_slice_iff {start : ℕ} {x : ℚ} (h : stop ≤ values.length) :
    x ∈ slice values start stop ↔ ∃ i, start ≤ i ∧ i < stop ∧ valueOf values i = x := by
  have hget (i : ℕ) (hi : i < stop) : valueOf values i = values[i] := by
    simp [valueOf, List.getD, List.getElem?_eq_getElem (show i < values.length by omega)]
  rw [slice, List.mem_drop_iff_getElem]
  constructor
  · rintro ⟨j, hj, rfl⟩
    rw [List.length_take] at hj
    exact ⟨start + j, by omega, by omega, by rw [hget _ (by omega), List.getElem_take]⟩
  · rintro ⟨i, hstart, hstop, rfl⟩
    refine ⟨i - start, by rw [List.length_take]; omega, ?_⟩
    rw [List.getElem_take, hget i hstop]
    congr 1
    omega

theorem slice_eq_nil_iff {start : ℕ} (h : stop ≤ values.length) :
    slice values start stop = [] ↔ stop ≤ start := by
  rw [slice, List.drop_eq_nil_iff, List.length_take_of_le h]

/-! ### Running sums -/

theorem sum_map_tail (f : ℚ → ℚ) {window : List ℚ} (h : window ≠ []) :
    (window.tail.map f).sum = (window.map f).sum - f (window.headD 0) := by
  obtain ⟨first, rest, rfl⟩ := List.exists_cons_of_ne_nil h
  simp

/-- A running sum of what the window holds, one element on. -/
theorem sum_map_slide (f : ℚ → ℚ) (w : ℕ) (window : List ℚ) (value : ℚ) :
    (if w < (window ++ [value]).length
      then (window.map f).sum + f value - f ((window ++ [value]).headD 0)
      else (window.map f).sum + f value) = ((slide w window value).map f).sum := by
  have hgrown : ((window ++ [value]).map f).sum = (window.map f).sum + f value := by simp
  by_cases hfull : w < (window ++ [value]).length
  · rw [slide, if_pos hfull, if_pos hfull, sum_map_tail f (by simp), hgrown]
  · rw [slide, if_neg hfull, if_neg hfull, hgrown]

/-- The window of an index, as the pass holds it after the index. -/
theorem slice_window_eq (length : ℤ) {k : ℕ} (hk : k < values.length) :
    slice values (windowStart (k + 1) length) (k + 1) =
      slide (windowLen length) ((values.take k).rtake (windowLen length)) values[k] := by
  rw [slice_eq_rtake (by omega), slide_rtake (windowLen_pos length),
    List.take_succ_eq_append_getElem hk]

theorem rollingMeanSeries_eq (values : List ℚ) (length : ℤ) :
    rollingMeanSeries values length =
      (List.range values.length).map fun index => meanAt values index length := by
  refine foldl_emits (fun k s => s.window = (values.take k).rtake (windowLen length) ∧
    s.total = s.window.sum) MeanPass.out values _ ⟨by simp, rfl⟩ rfl ?_
  rintro k hk s ⟨hwindow, htotal⟩
  have hleft : (s.step (windowLen length) values[k]).window =
      slide (windowLen length) s.window values[k] := rfl
  have hsum : (s.step (windowLen length) values[k]).total =
      (slide (windowLen length) s.window values[k]).sum := by
    have hmap := sum_map_slide id (windowLen length) s.window values[k]
    rw [List.map_id, List.map_id, ← htotal] at hmap
    exact hmap
  have hslice := slice_window_eq length hk
  rw [← hwindow] at hslice
  refine ⟨⟨?_, by rw [hsum, hleft]⟩, ?_⟩
  · rw [hleft, hwindow, slide_rtake (windowLen_pos length), List.take_succ_eq_append_getElem hk]
  · rw [meanAt, hslice, fmean, ← hsum]
    rfl

/-! ### The deviation -/

/-- The squares about any point, from the sum and the sum of squares. -/
theorem sum_sq_sub (window : List ℚ) (m : ℚ) :
    (window.map fun value => (value - m) ^ 2).sum =
      (window.map fun value => value * value).sum - 2 * m * window.sum + window.length * m ^ 2 := by
  induction window with
  | nil => simp
  | cons value window ih =>
    simp only [List.map_cons, List.sum_cons, List.length_cons, ih]
    push_cast
    ring

theorem sum_map_sub (window : List ℚ) (origin : ℚ) :
    (window.map fun value => value - origin).sum = window.sum - window.length * origin := by
  induction window with
  | nil => simp
  | cons value window ih =>
    simp only [List.map_cons, List.sum_cons, List.length_cons, ih]
    push_cast
    ring

/-- The variance about the mean of the centred values is the one the running sums give. -/
theorem variance_eq {window : List ℚ} (origin : ℚ) (h : window ≠ []) :
    ((window.map fun value => value - origin).map fun value =>
        (value - (window.map fun value => value - origin).sum / window.length) ^ 2).sum /
          window.length =
      max ((window.map fun value => value * value).sum / window.length -
        window.sum / window.length * (window.sum / window.length)) 0 := by
  have hlen : (window.length : ℚ) ≠ 0 := by simpa using h
  set mean := window.sum / window.length with hmean
  have hcentered : (window.map fun value => value - origin).sum / window.length = mean - origin := by
    rw [sum_map_sub, hmean]
    field_simp
  have hmap : ((window.map fun value => value - origin).map fun value =>
      (value - (mean - origin)) ^ 2) = window.map fun value => (value - mean) ^ 2 := by
    rw [List.map_map]
    refine List.map_congr_left fun value _ => ?_
    simp
  have hvariance : (window.map fun value => (value - mean) ^ 2).sum / window.length =
      (window.map fun value => value * value).sum / window.length - mean * mean := by
    have hsum : window.sum = mean * window.length := by rw [hmean]; field_simp
    rw [sum_sq_sub, hsum]
    field_simp
    ring
  have hnonneg : 0 ≤ (window.map fun value => (value - mean) ^ 2).sum / (window.length : ℚ) := by
    refine div_nonneg (List.sum_nonneg fun square hsquare => ?_) (by positivity)
    obtain ⟨value, -, rfl⟩ := List.mem_map.mp hsquare
    exact sq_nonneg _
  rw [hcentered, hmap, ← hvariance, max_eq_left hnonneg]

section StdevSeries

variable {β : Type*} [Zero β] (root : ℚ → β)

theorem rollingStdevSeries_eq (values : List ℚ) (length : ℤ) :
    rollingStdevSeries root values length =
      (List.range values.length).map fun index => stdevAt root values index length := by
  refine foldl_emits (fun k s => s.window = (values.take k).rtake (windowLen length) ∧
    s.total = s.window.sum ∧ s.totalSq = (s.window.map fun value => value * value).sum)
    StdevPass.out values _ ⟨by simp, rfl, rfl⟩ rfl ?_
  rintro k hk s ⟨hwindow, htotal, htotalSq⟩
  set left := slide (windowLen length) s.window values[k] with hleft
  have hwindow' : (s.step root (windowLen length) values[k]).window = left := rfl
  have hsum : (s.step root (windowLen length) values[k]).total = left.sum := by
    have hmap := sum_map_slide id (windowLen length) s.window values[k]
    rw [List.map_id, List.map_id, ← htotal] at hmap
    exact hmap
  have hsumSq : (s.step root (windowLen length) values[k]).totalSq =
      (left.map fun value => value * value).sum := by
    have hmap := sum_map_slide (fun value => value * value) (windowLen length) s.window values[k]
    rw [← htotalSq] at hmap
    exact hmap
  have hslice := slice_window_eq length hk
  rw [← hwindow, ← hleft] at hslice
  refine ⟨⟨?_, hsum, hsumSq⟩, ?_⟩
  · rw [hwindow', hleft, hwindow, slide_rtake (windowLen_pos length),
      List.take_succ_eq_append_getElem hk]
  · have hemits : (s.step root (windowLen length) values[k]).out = s.out ++
        [if left.length ≤ 1 then 0
          else root (max ((s.step root (windowLen length) values[k]).totalSq / left.length -
            (s.step root (windowLen length) values[k]).total / left.length *
              ((s.step root (windowLen length) values[k]).total / left.length)) 0)] := rfl
    rw [hemits, hsum, hsumSq]
    simp only [stdevAt, hslice, List.length_map]
    by_cases hone : left.length ≤ 1
    · rw [if_pos hone, if_pos hone]
    · have hne : left ≠ [] := by
        rintro hnil
        simp [hnil] at hone
      rw [if_neg hone, if_neg hone, variance_eq _ hne]

end StdevSeries

/-! ### The monotone queue -/

instance (high : Bool) : Std.Total (KeepsCandidate high) where
  total a b := by
    cases high
    · exact (le_total a b).imp (fun h => .inr ⟨rfl, h⟩) fun h => .inr ⟨rfl, h⟩
    · exact (le_total b a).imp (fun h => .inl ⟨rfl, h⟩) fun h => .inl ⟨rfl, h⟩

instance (high : Bool) : IsTrans ℚ (KeepsCandidate high) where
  trans a b c := by
    cases high <;> simp only [KeepsCandidate, ge_iff_le, true_and, false_and, or_false, false_or,
      Bool.false_eq_true, reduceCtorEq]
    · exact le_trans
    · exact fun hab hbc => hbc.trans hab

/-- The extreme of a window is a value of it that all others keep behind. -/
theorem extremeOf_eq_ok {window : List ℚ} {value : ℚ} (hmem : value ∈ window)
    (hbest : ∀ other ∈ window, KeepsCandidate high value other) :
    extremeOf high window = .ok value := by
  cases high
  · have hmin : window.min? = some value :=
      List.min?_eq_some_iff.mpr ⟨hmem, by simpa [KeepsCandidate] using hbest⟩
    simp [extremeOf, hmin]
  · have hmax : window.max? = some value :=
      List.max?_eq_some_iff.mpr ⟨hmem, by simpa [KeepsCandidate] using hbest⟩
    simp [extremeOf, hmax]

/-- A queue that covers a window and holds nothing older has the window's extreme in front. -/
theorem rollingExtreme_eq_of_covers {queue : List ℕ}
    (h : Covers (KeepsCandidate high) (valueOf values) (stop - windowLen length) stop queue)
    (hlow : ∀ c ∈ queue, stop - windowLen length ≤ c) (hstop : stop ≤ values.length) :
    (if stop ≤ windowStart stop length then .ok none
      else (extremeOf high (slice values (windowStart stop length) stop)).map some) =
        .ok (queue.head?.map (valueOf values)) := by
  rw [windowStart_eq]
  cases queue with
  | nil => rw [if_pos ((h.eq_nil_iff hlow).mp rfl)]; rfl
  | cons c rest =>
    obtain ⟨hc, hcstop, hbest⟩ := h.head hlow
    have hextreme : extremeOf high (slice values (stop - windowLen length) stop) =
        .ok (valueOf values c) := by
      refine extremeOf_eq_ok ((mem_slice_iff hstop).mpr ⟨c, hc, hcstop, rfl⟩) fun other hother => ?_
      obtain ⟨i, hi, histop, rfl⟩ := (mem_slice_iff hstop).mp hother
      exact hbest i hi histop
    rw [if_neg (by omega), hextreme]
    rfl

/-- The queue before an index: it may still hold indices that have left the window. -/
def ExtremePass.Sound (values : List ℚ) (length : ℤ) (high : Bool) (k : ℕ) (s : ExtremePass) :
    Prop :=
  ∃ low ≤ k - windowLen length, Covers (KeepsCandidate high) (valueOf values) low k s.candidates

theorem ExtremePass.Sound.step {k : ℕ} {s : ExtremePass} (h : s.Sound values length high k)
    (hk : k < values.length) :
    (s.step values (windowLen length) excludeCurrent high k).Sound values length high (k + 1) ∧
      (s.step values (windowLen length) excludeCurrent high k).out.map Except.ok =
        s.out.map Except.ok ++ [rollingExtreme high values k length excludeCurrent] := by
  obtain ⟨low, hlow, hcovers⟩ := h
  have hpos := windowLen_pos length
  cases excludeCurrent
  · have hpushed := hcovers.pushBack
    have hevicted : Covers (KeepsCandidate high) (valueOf values) (k + 1 - windowLen length) (k + 1)
        (evictFront (k + 1 - windowLen length)
          (pushBack (KeepsCandidate high) (valueOf values) k s.candidates)) :=
      hpushed.evictFront (by omega)
    refine ⟨⟨k + 1 - windowLen length, le_rfl, hevicted⟩, ?_⟩
    have hextreme : rollingExtreme high values k length false = .ok
        ((evictFront (k + 1 - windowLen length)
          (pushBack (KeepsCandidate high) (valueOf values) k s.candidates)).head?.map
            (valueOf values)) :=
      rollingExtreme_eq_of_covers hevicted
        (fun c hc => ((mem_evictFront_iff hpushed.ordered).mp hc).2) hk
    rw [hextreme]
    simp [ExtremePass.step]
  · have hevicted : Covers (KeepsCandidate high) (valueOf values) (k - windowLen length) k
        (evictFront (k - windowLen length) s.candidates) := hcovers.evictFront hlow
    refine ⟨⟨k - windowLen length, by omega, hevicted.pushBack⟩, ?_⟩
    have hextreme : rollingExtreme high values k length true = .ok
        ((evictFront (k - windowLen length) s.candidates).head?.map (valueOf values)) :=
      rollingExtreme_eq_of_covers hevicted
        (fun c hc => ((mem_evictFront_iff hcovers.ordered).mp hc).2) hk.le
    rw [hextreme]
    simp [ExtremePass.step]

/-- With or without the current element, the pass reads off its queue what the definition reads off
the window. -/
theorem rollingExtremeSeries_eq (values : List ℚ) (length : ℤ) (excludeCurrent high : Bool) :
    (rollingExtremeSeries values length excludeCurrent high).map Except.ok =
      (List.range values.length).map fun index =>
        rollingExtreme high values index length excludeCurrent := by
  have hemits := foldl_emits (g := fun index => rollingExtreme high values index length excludeCurrent)
    (ExtremePass.Sound values length high)
    (fun s => s.out.map Except.ok) (List.range values.length) ⟨[], []⟩
    ⟨0, Nat.zero_le _, covers_nil 0⟩ rfl
    (f := ExtremePass.step values (windowLen length) excludeCurrent high) fun k hk s hs => by
      rw [List.getElem_range]
      exact hs.step (by rwa [List.length_range] at hk)
  rw [List.length_range] at hemits
  exact hemits

/-- The definition has no value exactly where the window is empty. -/
theorem rollingExtreme_eq_none_iff (h : index < values.length) :
    rollingExtreme high values index length excludeCurrent = .ok none ↔
      slice values (windowStart (if excludeCurrent then index else index + 1) length)
        (if excludeCurrent then index else index + 1) = [] := by
  have hstop : (if excludeCurrent then index else index + 1) ≤ values.length := by
    split <;> omega
  rw [slice_eq_nil_iff hstop]
  simp only [rollingExtreme]
  by_cases hempty : (if excludeCurrent then index else index + 1) ≤
      windowStart (if excludeCurrent then index else index + 1) length
  · rw [if_pos hempty]
    exact ⟨fun _ => hempty, fun _ => rfl⟩
  · rw [if_neg hempty]
    refine ⟨fun hnone => ?_, fun hle => absurd hle hempty⟩
    cases hread : extremeOf high (slice values
      (windowStart (if excludeCurrent then index else index + 1) length)
      (if excludeCurrent then index else index + 1)) with
    | error e => rw [hread] at hnone; exact nomatch hnone
    | ok value => rw [hread] at hnone; exact nomatch hnone

/-- **The passes compute their definitions.** The series of extremes, of means and of deviations
hold, at every index, what `rolling_high`, `rolling_low`, `mean_at` and `stdev_at` read there, and an
extreme is absent exactly where its window is empty. -/
theorem rollingSeries_eq_definitions {β : Type*} [Zero β] (root : ℚ → β) (values : List ℚ)
    (length : ℤ) :
    (∀ excludeCurrent : Bool,
      (rollingHighSeries values length excludeCurrent).map Except.ok =
        ((List.range values.length).map fun index =>
          rollingHigh values index length excludeCurrent) ∧
      (rollingLowSeries values length excludeCurrent).map Except.ok =
        ((List.range values.length).map fun index =>
          rollingLow values index length excludeCurrent) ∧
      ∀ index ∈ List.range values.length,
        let stop := if excludeCurrent then index else index + 1
        (rollingHigh values index length excludeCurrent = .ok none ↔
          slice values (windowStart stop length) stop = []) ∧
        (rollingLow values index length excludeCurrent = .ok none ↔
          slice values (windowStart stop length) stop = [])) ∧
    rollingMeanSeries values length =
      ((List.range values.length).map fun index => meanAt values index length) ∧
    rollingStdevSeries root values length =
      (List.range values.length).map fun index => stdevAt root values index length := by
  refine ⟨fun excludeCurrent => ⟨rollingExtremeSeries_eq values length excludeCurrent true,
    rollingExtremeSeries_eq values length excludeCurrent false, fun index hindex => ?_⟩,
    rollingMeanSeries_eq values length, rollingStdevSeries_eq root values length⟩
  have hlt : index < values.length := List.mem_range.mp hindex
  exact ⟨rollingExtreme_eq_none_iff hlt, rollingExtreme_eq_none_iff hlt⟩

/-- A tie, a window that has moved past its best value, and the first index without the current
element. -/
example : rollingHighSeries [3, 5, 5, 1, 2] 2 true = [none, some 3, some 5, some 5, some 5] ∧
    rollingHighSeries [3, 5, 5, 1, 2] 0 false = [some 3, some 5, some 5, some 1, some 2] := by
  decide +kernel

/-- **The passes compute their definitions**, at the first of five values. -/
theorem rollingSeries_eq_definitions_first :
    rollingHigh [3, 5, 5, 1, 2] 0 2 true = .ok none ↔
      slice [3, 5, 5, 1, 2] (windowStart 0 2) 0 = [] :=
  (((rollingSeries_eq_definitions id [3, 5, 5, 1, 2] 2).1 true).2.2 0 (by decide)).1

end AefTerminal
