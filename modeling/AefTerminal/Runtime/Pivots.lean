import AefTerminal.Domain.Bar
import Mathlib.Data.List.Chain

/-!
# Alternating pivots

`alternating_pivot_points` goes through the bars that have enough bars on both sides, and takes those
that are the extreme of their window. Pivots alternate: one of the type of the last pivot takes its
place where it is more extreme, and is passed over where it is not. So the last pivot may still be
repainted by bars that come later, and no other.

## Main definitions

* `alternatingPivotPoints`
* `RepaintsLast`: what later bars may do to the pivots

## Main results

* `PivotSequence`: the pivots alternate, in order, and each is the extreme of its window
* `only_last_pivot_repaints`
-/

namespace AefTerminal

/-- `1` for a high, `-1` for a low. -/
inductive PivotType
  | high | low
  deriving DecidableEq, Repr

structure Pivot where
  index : ℕ
  ts : Time
  price : ℚ
  type : PivotType
  deriving DecidableEq, Repr

/-- The bars from `left` before the index up to `right` after it. -/
def pivotWindow (bars : List Bar) (left right index : ℕ) : List Bar :=
  (bars.drop (index - left)).take (left + right + 1)

/-- The bar is the extreme of its window; where it is both, its colour decides. -/
def pivotTypeOf (window : List Bar) (bar : Bar) : Option PivotType :=
  let isHigh := decide (∀ item ∈ window, item.high ≤ bar.high)
  let isLow := decide (∀ item ∈ window, bar.low ≤ item.low)
  if !isHigh && !isLow then none
  else if isHigh && !isLow then some .high
  else if isLow && !isHigh then some .low
  else if bar.close < bar.open then some .high
  else some .low

def PivotType.priceOf (type : PivotType) (bar : Bar) : ℚ :=
  match type with
  | .high => bar.high
  | .low => bar.low

/-- The pivot at an index, if there is one. -/
def pivotAt (bars : List Bar) (left right index : ℕ) : Option Pivot := do
  let bar ← bars[index]?
  let type ← pivotTypeOf (pivotWindow bars left right index) bar
  pure ⟨index, bar.ts, type.priceOf bar, type⟩

/-- The price of the first is more extreme than that of the second. -/
def PivotType.MoreExtreme (type : PivotType) (price previous : ℚ) : Prop :=
  match type with
  | .high => previous < price
  | .low => price < previous

instance (type : PivotType) (price previous : ℚ) : Decidable (type.MoreExtreme price previous) := by
  cases type <;> exact inferInstanceAs (Decidable (_ < _))

/-- The bar does not go beyond the price. -/
def PivotType.Bounds (type : PivotType) (price : ℚ) (bar : Bar) : Prop :=
  match type with
  | .high => bar.high ≤ price
  | .low => price ≤ bar.low

/-- One round of the loop. -/
def pushPivot (pivots : List Pivot) (pivot : Pivot) : List Pivot :=
  match pivots.getLast? with
  | none => [pivot]
  | some previous =>
    if previous.type = pivot.type then
      if pivot.type.MoreExtreme pivot.price previous.price then pivots.dropLast ++ [pivot]
      else pivots
    else pivots ++ [pivot]

/-- `alternating_pivot_points` -/
def alternatingPivotPoints (bars : List Bar) (left right : ℕ) : List Pivot :=
  if bars.length < left + right + 2 then []
  else ((List.range' left (bars.length - right - left)).filterMap (pivotAt bars left right)).foldl
    pushPivot []

/-! ### What the bars of a window say -/

/-- The pivot is the extreme of its window. -/
structure Pivot.IsExtreme (p : Pivot) (bars : List Bar) (left right : ℕ) : Prop where
  bar : ∃ bar, bars[p.index]? = some bar ∧ p.ts = bar.ts ∧ p.price = p.type.priceOf bar
  within : left ≤ p.index ∧ p.index + right < bars.length
  extreme : ∀ i bar, p.index - left ≤ i → i ≤ p.index + right → bars[i]? = some bar →
    p.type.Bounds p.price bar

section Window

variable {bars more : List Bar} {left right index i : ℕ} {bar : Bar} {p : Pivot}

theorem mem_pivotWindow (hleft : left ≤ index) (hi : index - left ≤ i) (hi' : i ≤ index + right)
    (hbar : bars[i]? = some bar) : bar ∈ pivotWindow bars left right index := by
  refine List.mem_of_getElem? (i := i - (index - left)) ?_
  rw [pivotWindow, List.getElem?_take_of_lt (by omega), List.getElem?_drop]
  rwa [Nat.add_sub_cancel' hi]

theorem bounds_of_pivotTypeOf {window : List Bar} {type : PivotType}
    (h : pivotTypeOf window bar = some type) : ∀ item ∈ window, type.Bounds (type.priceOf bar) item := by
  rw [pivotTypeOf] at h
  by_cases hhigh : ∀ item ∈ window, item.high ≤ bar.high
  · by_cases hlow : ∀ item ∈ window, bar.low ≤ item.low
    · cases type with
      | high => exact hhigh
      | low => exact hlow
    · simp only [decide_eq_true hhigh, decide_eq_false hlow] at h
      obtain rfl : PivotType.high = type := Option.some.inj h
      exact hhigh
  · by_cases hlow : ∀ item ∈ window, bar.low ≤ item.low
    · simp only [decide_eq_false hhigh, decide_eq_true hlow] at h
      obtain rfl : PivotType.low = type := Option.some.inj h
      exact hlow
    · simp only [decide_eq_false hhigh, decide_eq_false hlow] at h
      exact absurd h.symm (Option.some_ne_none type)

/-- What the loop finds at an index. -/
theorem pivotAt_eq_some (h : pivotAt bars left right index = some p) : ∃ bar type,
    bars[index]? = some bar ∧ pivotTypeOf (pivotWindow bars left right index) bar = some type ∧
      p = ⟨index, bar.ts, type.priceOf bar, type⟩ := by
  rw [pivotAt] at h
  obtain ⟨bar, hbar, h⟩ := Option.bind_eq_some_iff.mp h
  obtain ⟨type, htype, h⟩ := Option.bind_eq_some_iff.mp h
  exact ⟨bar, type, hbar, htype, (Option.some.inj h).symm⟩

theorem isExtreme_pivotAt (hleft : left ≤ index) (hright : index + right < bars.length)
    (h : pivotAt bars left right index = some p) : p.IsExtreme bars left right := by
  obtain ⟨bar, type, hbar, htype, rfl⟩ := pivotAt_eq_some h
  refine ⟨⟨bar, hbar, rfl, rfl⟩, ⟨hleft, hright⟩, fun i item hi hi' hitem => ?_⟩
  exact bounds_of_pivotTypeOf htype item (mem_pivotWindow hleft hi hi' hitem)

/-- Later bars change no window that was complete. -/
theorem pivotAt_append (hleft : left ≤ index) (hright : index + right < bars.length)
    (more : List Bar) : pivotAt (bars ++ more) left right index = pivotAt bars left right index := by
  have hwindow : pivotWindow (bars ++ more) left right index = pivotWindow bars left right index := by
    rw [pivotWindow, pivotWindow, List.drop_append_of_le_length (by omega),
      List.take_append_of_le_length (by rw [List.length_drop]; omega)]
  rw [pivotAt, pivotAt, List.getElem?_append_left (by omega), hwindow]

end Window

/-! ### What the loop leaves -/

/-- The pivots alternate, each later than the one before. -/
structure PivotSequence (pivots : List Pivot) : Prop where
  alternate : pivots.IsChain fun p q => p.type ≠ q.type
  later : pivots.Pairwise fun p q => p.index < q.index

/-- A pivot of the same type, later and more extreme. -/
structure Pivot.Supersedes (q last : Pivot) : Prop where
  type : q.type = last.type
  later : last.index < q.index
  extreme : q.type.MoreExtreme q.price last.price

/-- All pivots but the last stay; the last stays or is superseded. -/
def RepaintsLast (old new : List Pivot) : Prop :=
  ∃ tail, new = old.dropLast ++ tail ∧
    ∀ last ∈ old.getLast?, ∃ q ∈ tail.head?, q = last ∨ q.Supersedes last

section Loop

variable {pivots pivots' old new new' found : List Pivot} {p q r last : Pivot}

theorem PivotType.MoreExtreme.trans {type : PivotType} {a b c : ℚ} (h : type.MoreExtreme a b)
    (h' : type.MoreExtreme b c) : type.MoreExtreme a c := by
  cases type with
  | high => exact lt_trans h' h
  | low => exact lt_trans h h'

theorem Pivot.Supersedes.trans (h : r.Supersedes q) (h' : q.Supersedes p) : r.Supersedes p :=
  ⟨h.type.trans h'.type, h'.later.trans h.later, h.extreme.trans (h.type ▸ h'.extreme)⟩

theorem RepaintsLast.refl (pivots : List Pivot) : RepaintsLast pivots pivots := by
  cases hlast : pivots.getLast? with
  | none => exact ⟨pivots, by rw [List.getLast?_eq_none_iff.mp hlast]; rfl, fun last h => by simp_all⟩
  | some last =>
    refine ⟨[last], ?_, fun last' h => ⟨last, rfl, .inl ?_⟩⟩
    · exact (List.dropLast_append_getLast? last hlast).symm
    · exact Option.some.inj (hlast.symm.trans h)

theorem RepaintsLast.trans (h : RepaintsLast old new) (h' : RepaintsLast new new') :
    RepaintsLast old new' := by
  obtain ⟨tail, rfl, hlast⟩ := h
  obtain ⟨tail', rfl, hlast'⟩ := h'
  cases tail with
  | nil =>
    have hold : old.getLast? = none := by
      by_contra hne
      obtain ⟨last, hsome⟩ := Option.ne_none_iff_exists'.mp hne
      obtain ⟨q, hq, -⟩ := hlast last hsome
      exact absurd hq (by simp)
    refine ⟨tail', ?_, fun last h => by simp_all⟩
    rw [List.getLast?_eq_none_iff.mp hold]
    rfl
  | cons q rest =>
    cases rest with
    | nil =>
      -- the only new pivot is the last one
      refine ⟨tail', ?_, fun last hlastOld => ?_⟩
      · rw [List.dropLast_append_of_ne_nil (List.cons_ne_nil q []), List.dropLast_singleton,
          List.append_nil]
      · obtain ⟨q', hq', hcases⟩ := hlast' q (by simp)
        obtain ⟨q₀, hq₀, hold⟩ := hlast last hlastOld
        cases hq₀
        refine ⟨q', hq', ?_⟩
        rcases hcases with rfl | hnew
        · exact hold
        · rcases hold with rfl | hold
          · exact .inr hnew
          · exact .inr (hnew.trans hold)
    | cons r rest =>
      refine ⟨q :: (r :: rest).dropLast ++ tail', ?_, hlast⟩
      rw [List.dropLast_append_of_ne_nil (List.cons_ne_nil q _), List.dropLast_cons_of_ne_nil (List.cons_ne_nil r rest)]
      simp

/-- What one round does. -/
theorem pushPivot_cases (pivots : List Pivot) (p : Pivot) :
    (pivots = [] ∧ pushPivot pivots p = [p]) ∨
    ∃ before last, pivots = before ++ [last] ∧
      ((last.type ≠ p.type ∧ pushPivot pivots p = before ++ [last, p]) ∨
        (last.type = p.type ∧ p.type.MoreExtreme p.price last.price ∧
          pushPivot pivots p = before ++ [p]) ∨
        (last.type = p.type ∧ pushPivot pivots p = pivots)) := by
  rw [pushPivot]
  cases hlast : pivots.getLast? with
  | none => exact .inl ⟨List.getLast?_eq_none_iff.mp hlast, rfl⟩
  | some last =>
    have hpivots : pivots = pivots.dropLast ++ [last] :=
      (List.dropLast_append_getLast? last hlast).symm
    refine .inr ⟨pivots.dropLast, last, hpivots, ?_⟩
    dsimp only
    split_ifs with htype hextreme
    · exact .inr (.inl ⟨htype, hextreme, rfl⟩)
    · exact .inr (.inr ⟨htype, rfl⟩)
    · refine .inl ⟨htype, ?_⟩
      nth_rewrite 1 [hpivots]
      rw [List.append_assoc]
      rfl

theorem mem_pushPivot (h : q ∈ pushPivot pivots p) : q ∈ pivots ∨ q = p := by
  obtain ⟨rfl, heq⟩ | ⟨before, last, rfl, ⟨-, heq⟩ | ⟨-, -, heq⟩ | ⟨-, heq⟩⟩ := pushPivot_cases pivots p
  · rw [heq] at h
    exact .inr (List.mem_singleton.mp h)
  · rw [heq] at h
    simp only [List.mem_append, List.mem_cons, List.not_mem_nil, or_false] at h ⊢
    tauto
  · rw [heq] at h
    simp only [List.mem_append, List.mem_singleton] at h ⊢
    tauto
  · rw [heq] at h
    exact .inl h

theorem repaintsLast_pushPivot (hlater : ∀ q ∈ pivots, q.index < p.index) :
    RepaintsLast pivots (pushPivot pivots p) := by
  obtain ⟨rfl, heq⟩ | ⟨before, last, rfl, hcases⟩ := pushPivot_cases pivots p
  · exact ⟨pushPivot [] p, rfl, fun last h => absurd h (Option.not_mem_none last)⟩
  · have hdrop : (before ++ [last]).dropLast = before := List.dropLast_concat
    have hget : ∀ last' ∈ (before ++ [last]).getLast?, last' = last := fun last' h => by
      rw [List.getLast?_concat] at h
      exact (Option.some.inj h).symm
    obtain ⟨-, heq⟩ | ⟨htype, hextreme, heq⟩ | ⟨-, heq⟩ := hcases
    · exact ⟨[last, p], by rw [heq, hdrop], fun last' h => ⟨last, rfl, .inl (hget last' h).symm⟩⟩
    · refine ⟨[p], by rw [heq, hdrop], fun last' h => ⟨p, rfl, .inr ?_⟩⟩
      obtain rfl := hget last' h
      exact ⟨htype.symm, hlater last' (by simp), hextreme⟩
    · rw [heq]
      exact .refl _

theorem PivotSequence.pushPivot (h : PivotSequence pivots) (hlater : ∀ q ∈ pivots, q.index < p.index) :
    PivotSequence (pushPivot pivots p) := by
  obtain ⟨rfl, heq⟩ | ⟨before, last, rfl, hcases⟩ := pushPivot_cases pivots p
  · rw [heq]
    exact ⟨.singleton p, List.pairwise_singleton _ p⟩
  · have hbefore : ∀ q ∈ before, q.index < p.index := fun q hq => hlater q (List.mem_append_left _ hq)
    obtain ⟨htype, heq⟩ | ⟨htype, hextreme, heq⟩ | ⟨-, heq⟩ := hcases
    · rw [heq, List.append_cons]
      refine ⟨h.alternate.append (.singleton p) fun q hq r hr => ?_,
        List.pairwise_append.mpr ⟨h.later, List.pairwise_singleton _ p, fun q hq r hr => ?_⟩⟩
      · rw [List.getLast?_concat] at hq
        cases hq
        cases hr
        exact htype
      · obtain rfl := List.mem_singleton.mp hr
        exact hlater q hq
    · -- the new pivot has the type of the one it replaces
      rw [heq]
      obtain ⟨hchain, -, hlink⟩ := List.isChain_append.mp h.alternate
      obtain ⟨hpairwise, -, -⟩ := List.pairwise_append.mp h.later
      refine ⟨hchain.append (.singleton p) fun q hq r hr => ?_,
        List.pairwise_append.mpr ⟨hpairwise, List.pairwise_singleton _ p, fun q hq r hr => ?_⟩⟩
      · cases hr
        exact htype ▸ hlink q hq last rfl
      · obtain rfl := List.mem_singleton.mp hr
        exact hbefore q hq
    · rwa [heq]

/-- The loop over pivots that are found later and later. -/
theorem foldl_pushPivot (h : PivotSequence pivots) (hfound : found.Pairwise fun p q => p.index < q.index)
    (hlater : ∀ p ∈ pivots, ∀ q ∈ found, p.index < q.index) :
    PivotSequence (found.foldl AefTerminal.pushPivot pivots) ∧
      RepaintsLast pivots (found.foldl AefTerminal.pushPivot pivots) ∧
      ∀ p ∈ found.foldl AefTerminal.pushPivot pivots, p ∈ pivots ∨ p ∈ found := by
  induction found generalizing pivots with
  | nil => exact ⟨h, .refl _, fun p hp => .inl hp⟩
  | cons q found ih =>
    obtain ⟨hq, hfound⟩ := List.pairwise_cons.mp hfound
    have hbefore : ∀ p ∈ pivots, p.index < q.index := fun p hp => hlater p hp q (by simp)
    obtain ⟨hsequence, hrepaints, hmem⟩ := ih (h.pushPivot hbefore) hfound fun p hp r hr => by
      rcases mem_pushPivot hp with hp | rfl
      · exact hlater p hp r (List.mem_cons_of_mem _ hr)
      · exact hq r hr
    refine ⟨hsequence, (repaintsLast_pushPivot hbefore).trans hrepaints, fun p hp => ?_⟩
    rcases hmem p hp with hp | hp
    · rcases mem_pushPivot hp with hp | rfl
      · exact .inl hp
      · exact .inr List.mem_cons_self
    · exact .inr (List.mem_cons_of_mem _ hp)

end Loop

/-! ### Runs -/

section Runs

variable {bars more : List Bar} {left right : ℕ} {p : Pivot}

/-- What the loop finds, in order. -/
def foundPivots (bars : List Bar) (left right : ℕ) : List Pivot :=
  (List.range' left (bars.length - right - left)).filterMap (pivotAt bars left right)

theorem pairwise_foundPivots : (foundPivots bars left right).Pairwise fun p q => p.index < q.index := by
  refine List.Pairwise.filterMap _ (fun i j hij p hp q hq => ?_) List.pairwise_lt_range'
  obtain ⟨_, _, -, -, rfl⟩ := pivotAt_eq_some hp
  obtain ⟨_, _, -, -, rfl⟩ := pivotAt_eq_some hq
  exact hij

theorem isExtreme_of_mem (hp : p ∈ foundPivots bars left right) : p.IsExtreme bars left right := by
  obtain ⟨i, hi, hpivot⟩ := List.mem_filterMap.mp hp
  rw [List.mem_range'_1] at hi
  exact isExtreme_pivotAt hi.1 (by omega) hpivot

/-- Later bars leave what was found. -/
theorem foundPivots_append (hbars : left + right ≤ bars.length) (more : List Bar) :
    ∃ later, foundPivots (bars ++ more) left right = foundPivots bars left right ++ later := by
  refine ⟨(List.range' (left + (bars.length - right - left)) more.length).filterMap
    (pivotAt (bars ++ more) left right), ?_⟩
  have hsplit : (bars ++ more).length - right - left =
      (bars.length - right - left) + more.length := by
    rw [List.length_append]
    omega
  rw [foundPivots, hsplit, ← List.range'_append_1, List.filterMap_append, foundPivots]
  refine congrArg (· ++ _) (List.filterMap_congr fun i hi => ?_)
  rw [List.mem_range'_1] at hi
  exact pivotAt_append hi.1 (by omega) more

theorem pivotSequence_nil : PivotSequence [] := ⟨.nil, .nil⟩

/-- The pivots of any bars. -/
theorem alternatingPivotPoints_spec (bars : List Bar) (left right : ℕ) :
    PivotSequence (alternatingPivotPoints bars left right) ∧
      ∀ p ∈ alternatingPivotPoints bars left right, p.IsExtreme bars left right := by
  rw [alternatingPivotPoints]
  split_ifs
  · exact ⟨pivotSequence_nil, fun p hp => absurd hp List.not_mem_nil⟩
  · obtain ⟨hsequence, -, hmem⟩ := foldl_pushPivot pivotSequence_nil
      (@pairwise_foundPivots bars left right) fun p hp => absurd hp List.not_mem_nil
    exact ⟨hsequence, fun p hp => isExtreme_of_mem ((hmem p hp).resolve_left List.not_mem_nil)⟩

end Runs

/-- **Only the last pivot may repaint.** Later bars keep all pivots but the last, and replace the last
by none but a later and more extreme one of its type. Pivots alternate in order, and each is the
extreme of its window. -/
theorem only_last_pivot_repaints (bars more : List Bar) (left right : ℕ) :
    RepaintsLast (alternatingPivotPoints bars left right)
        (alternatingPivotPoints (bars ++ more) left right) ∧
      PivotSequence (alternatingPivotPoints bars left right) ∧
      ∀ p ∈ alternatingPivotPoints bars left right, p.IsExtreme bars left right := by
  refine ⟨?_, alternatingPivotPoints_spec bars left right⟩
  by_cases hshort : bars.length < left + right + 2
  · -- without pivots there is nothing to keep
    rw [alternatingPivotPoints, if_pos hshort]
    exact ⟨_, rfl, fun last h => absurd h (Option.not_mem_none last)⟩
  · have hlonger : ¬ (bars ++ more).length < left + right + 2 := by
      rw [List.length_append]
      omega
    obtain ⟨later, hlater⟩ := @foundPivots_append bars left right (by omega) more
    have hfound := @pairwise_foundPivots (bars ++ more) left right
    rw [hlater] at hfound
    obtain ⟨hold, hnew, hbetween⟩ := List.pairwise_append.mp hfound
    obtain ⟨hsequence, -, hmem⟩ := foldl_pushPivot pivotSequence_nil hold fun p hp =>
      absurd hp List.not_mem_nil
    have hafter : ∀ p ∈ (foundPivots bars left right).foldl pushPivot [], ∀ q ∈ later,
        p.index < q.index := fun p hp =>
      hbetween p ((hmem p hp).resolve_left List.not_mem_nil)
    rw [alternatingPivotPoints, alternatingPivotPoints, if_neg hshort, if_neg hlonger,
      ← foundPivots, ← foundPivots, hlater, List.foldl_append]
    exact (foldl_pushPivot hsequence hnew hafter).2.1

end AefTerminal
