import AefTerminal.Paper.Execution

/-!
# A normalized trade plan

`normalize_trade_plan` puts the stop of a plan outside its signal bar, decides whether the plan is
coherent, and returns its levels rounded to four decimals. The levels are judged again by those who
get them: by `paper_trade_from_signal`, which admits a signal, and by `execution_plan_rejection`.

The plan is judged before the rounding. So a coherent one may come back with levels that coincide, or
with its stop within the bar; and of two plans at the minimum ratio one may fall below it. The
admission of a signal takes that minimum exactly, where the others leave room for roundoff.

## Main definitions

* `normalizeTradePlan`, `paperTradeFromSignal`
* `StaysCoherent`: what the levels of a coherent plan should be
* `RoundingKeeps`: the condition

## Main results

* `roundDigits_mono`
* `stays_coherent_iff`
-/

namespace AefTerminal

/-! ### Rounding keeps the order -/

theorem roundHalfEven_bounds (x : ℚ) : ⌊x⌋ ≤ roundHalfEven x ∧ roundHalfEven x ≤ ⌊x⌋ + 1 := by
  unfold roundHalfEven
  dsimp only
  split_ifs <;> omega

theorem roundHalfEven_mono {x y : ℚ} (h : x ≤ y) : roundHalfEven x ≤ roundHalfEven y := by
  rcases (Int.floor_le_floor h).lt_or_eq with hlt | heq
  · have hx := (roundHalfEven_bounds x).2
    have hy := (roundHalfEven_bounds y).1
    omega
  · -- In one cell the fractions decide.
    unfold roundHalfEven
    dsimp only
    rw [heq]
    split_ifs <;> first | omega | linarith

theorem roundDigits_mono (digits : ℕ) {x y : ℚ} (h : x ≤ y) :
    roundDigits digits x ≤ roundDigits digits y := by
  have hten : (0 : ℚ) ≤ 10 ^ digits := by positivity
  have hscaled := roundHalfEven_mono (mul_le_mul_of_nonneg_right h hten)
  exact div_le_div_of_nonneg_right (Int.cast_le.mpr hscaled) hten

/-! ### Normalization -/

/-- Why a plan is not coherent. -/
inductive PlanBlock
  | invalidDistance
  | incomplete
  | stopNotAboveEntry
  | targetNotBelowEntry
  | stopNotBelowEntry
  | targetNotAboveEntry
  | flatDirection
  | invalidMinimum
  | rrBelowMinimum (rr minimum : ℚ)
  | incoherent
  | stopBreached
  deriving DecidableEq

/-- `blocked_reason`, with the format `:.2f` as a parameter. -/
def PlanBlock.text (twoDigits : ℚ → String) : PlanBlock → String
  | invalidDistance => "invalid trade plan distance"
  | incomplete => "incomplete trade plan"
  | stopNotAboveEntry => "stop not above entry"
  | targetNotBelowEntry => "target not below entry"
  | stopNotBelowEntry => "stop not below entry"
  | targetNotAboveEntry => "target not above entry"
  | flatDirection => "flat direction"
  | invalidMinimum => "invalid minimum reward/risk"
  | rrBelowMinimum rr minimum => "RR " ++ twoDigits rr ++ " below min " ++ twoDigits minimum
  | incoherent => "incoherent trade plan"
  | stopBreached => "plan stop already breached on signal bar"

structure NormalizedPlan where
  entry : Option ℚ
  stop : Option ℚ
  target : Option ℚ
  coherent : Bool
  blocked : Option PlanBlock
  rr : Option ℚ
  deriving DecidableEq

/-- `plan_stop_breached`: the bar already traded through the stop. -/
def planStopBreached (direction : Direction) (stop : Option ℚ) (bar : Bar) : Bool :=
  match stop with
  | none => false
  | some stop =>
    match direction with
    | .short => decide (stop ≤ bar.high)
    | .long => decide (bar.low ≤ stop)
    | .flat => false

/-- `anchored_invalidation_stop`. -/
def anchoredInvalidationStop (direction : Direction) (structural : ℚ) (bar : Bar) (atrPad : ℚ) : ℚ :=
  match direction with
  | .short => max (max structural bar.high) bar.close + max atrPad 0
  | .long => min (min structural bar.low) bar.close - max atrPad 0
  | .flat => structural

/-- The entry that is judged: of a market entry the close of the bar. -/
def plannedPrice (bar : Option Bar) (useMarketEntry : Bool) (entry : ℚ) : ℚ :=
  match bar with
  | some bar => if useMarketEntry then bar.close else entry
  | none => entry

/-- The stop that is judged. -/
def anchoredStop (direction : Direction) (bar : Option Bar) (stop pad : ℚ) : ℚ :=
  match bar with
  | some bar => anchoredInvalidationStop direction stop bar (max pad 0)
  | none => stop

def geometryBlock (direction : Direction) (entry stop target : ℚ) : Option PlanBlock :=
  match direction with
  | .short =>
    if stop ≤ entry then some .stopNotAboveEntry
    else if entry ≤ target then some .targetNotBelowEntry
    else none
  | .long =>
    if entry ≤ stop then some .stopNotBelowEntry
    else if target ≤ entry then some .targetNotAboveEntry
    else none
  | .flat => some .flatDirection

/-- The ratio of a coherent plan against the minimum that is asked for. -/
def ratioBlock (direction : Direction) (entry stop target : ℚ) (minRr : WireField ℚ) :
    Option PlanBlock :=
  match minRr with
  | .missing => none
  | .invalid => some .invalidMinimum
  | .value minimum =>
    match rewardRisk direction entry stop target with
    | some rr => if rrBelowMinimum rr (max minimum 0) then some (.rrBelowMinimum rr minimum) else none
    | none => none

/-- Whether the levels are coherent, and if not, why. -/
def judgePlan (direction : Direction) (entry stop target : ℚ) (bar : Option Bar)
    (minRr : WireField ℚ) : Bool × Option PlanBlock :=
  let judged : Bool × Option PlanBlock :=
    if coherentTradePlan direction (some entry) (some stop) (some target) then
      match ratioBlock direction entry stop target minRr with
      | some block => (false, some block)
      | none => (true, geometryBlock direction entry stop target)
    else (false, (geometryBlock direction entry stop target).or (some .incoherent))
  if judged.1 ∧ bar.any (planStopBreached direction (some stop) ·) then (false, some .stopBreached)
  else judged

/-- `normalize_trade_plan`. -/
def normalizeTradePlan (direction : Direction) (entry stop target : Option ℚ) (bar : Option Bar)
    (atrPad : Option ℚ) (minRr : WireField ℚ) (useMarketEntry : Bool) : NormalizedPlan :=
  match atrPad with
  | none => ⟨entry, stop, target, false, some .invalidDistance, none⟩
  | some pad =>
    match entry, stop, target with
    | some entry, some stop, some target =>
      let entry := plannedPrice bar useMarketEntry entry
      let stop := anchoredStop direction bar stop pad
      let judged := judgePlan direction entry stop target bar minRr
      ⟨roundPrice (some entry), roundPrice (some stop), roundPrice (some target), judged.1, judged.2,
        roundPrice (rewardRisk direction entry stop target)⟩
    | entry, stop, target => ⟨entry, stop, target, false, some .incomplete, none⟩

/-! ### The admission of a signal -/

/-- The levels of a raw signal and of its plan. -/
structure PaperSignalLevels where
  entry : WireField ℚ
  trigger : WireField ℚ
  stop : WireField ℚ
  target : WireField ℚ
  planEntry : WireField ℚ
  planTrigger : WireField ℚ
  planStop : WireField ℚ
  planTarget : WireField ℚ

/-- The first field that is there, where it is a number. -/
def firstNumber : List (WireField ℚ) → Option ℚ
  | [] => none
  | .missing :: fields => firstNumber fields
  | .invalid :: _ => none
  | .value x :: _ => some x

/-- The level checks of `paper_trade_from_signal`, and the levels of its trade. -/
def paperTradeFromSignal (side : PaperSide) (raw : PaperSignalLevels) (minRr : ℚ) :
    Option (ℚ × ℚ × ℚ) :=
  match firstNumber [raw.entry, raw.trigger, raw.planEntry, raw.planTrigger],
    firstNumber [raw.stop, raw.planStop], firstNumber [raw.target, raw.planTarget] with
  | some entry, some stop, some target =>
    if coherentTradePlan side.direction (some entry) (some stop) (some target) then
      let risk := |entry - stop|
      let reward := |target - entry|
      let rr := (rewardRisk side.direction entry stop target).getD 0
      if risk ≤ 0 ∨ reward ≤ 0 then none
      else if rr < minRr then none
      else if risk > max (|entry| * (1 / 5)) (reward * 25) then none
      else some (entry, stop, target)
    else none
  | _, _, _ => none

/-- A signal that carries the levels of a plan. -/
def NormalizedPlan.signal (plan : NormalizedPlan) : PaperSignalLevels where
  entry := .ofOption plan.entry
  trigger := .missing
  stop := .ofOption plan.stop
  target := .ofOption plan.target
  planEntry := .missing
  planTrigger := .missing
  planStop := .missing
  planTarget := .missing

/-! ### A plan that stays coherent -/

/-- The bound on the distance of a stop. -/
def StopDistanceMet (entry stop target : ℚ) : Prop :=
  |entry - stop| ≤ max (|entry| * (1 / 5)) (|target - entry| * 25)

instance (entry stop target : ℚ) : Decidable (StopDistanceMet entry stop target) :=
  inferInstanceAs (Decidable (_ ≤ _))

/-- The levels are strictly coherent, outside the bar on the side of the stop, and where the bound on
the stop is met, admitted by both. -/
structure StaysCoherent (direction : Direction) (bar : Option Bar) (minRr : ℚ)
    (plan : NormalizedPlan) : Prop where
  coherent : coherentTradePlan direction plan.entry plan.stop plan.target = true
  outside : ∀ b ∈ bar, planStopBreached direction plan.stop b = false
  admitted : ∀ entry ∈ plan.entry, ∀ stop ∈ plan.stop, ∀ target ∈ plan.target,
    StopDistanceMet entry stop target →
      (∀ side : PaperSide, side.direction = direction →
        paperTradeFromSignal side plan.signal minRr = some (entry, stop, target)) ∧
      executionPlanRejection direction (some entry) (some stop) (some target) (some minRr) = none

/-- Rounding to four decimals keeps the levels apart and the stop outside the bar, and where the bound
on the stop is met it leaves the reward at the minimum or above. -/
structure RoundingKeeps (direction : Direction) (entry stop target : ℚ) (bar : Option Bar)
    (minRr : ℚ) : Prop where
  stop_apart : roundDigits 4 stop ≠ roundDigits 4 entry
  target_apart : roundDigits 4 target ≠ roundDigits 4 entry
  outside : ∀ b ∈ bar, planStopBreached direction (some (roundDigits 4 stop)) b = false
  ratio : StopDistanceMet (roundDigits 4 entry) (roundDigits 4 stop) (roundDigits 4 target) →
    minRr * |roundDigits 4 entry - roundDigits 4 stop| ≤
      |roundDigits 4 target - roundDigits 4 entry|

section

variable {direction : Direction} {entry stop target minRr : ℚ} {bar : Option Bar}

theorem coherent_of_judgePlan {minimum : WireField ℚ}
    (h : (judgePlan direction entry stop target bar minimum).1 = true) :
    coherentTradePlan direction (some entry) (some stop) (some target) = true := by
  by_contra hnot
  rw [judgePlan, if_neg hnot] at h
  simp at h

/-- Rounding a coherent plan leaves it coherent where it keeps the levels apart. -/
theorem coherent_round_iff
    (h : coherentTradePlan direction (some entry) (some stop) (some target) = true) :
    coherentTradePlan direction (some (roundDigits 4 entry)) (some (roundDigits 4 stop))
        (some (roundDigits 4 target)) = true ↔
      roundDigits 4 stop ≠ roundDigits 4 entry ∧ roundDigits 4 target ≠ roundDigits 4 entry := by
  cases direction with
  | long =>
    obtain ⟨hstop, htarget⟩ := of_decide_eq_true h
    have hstop' := roundDigits_mono 4 hstop.le
    have htarget' := roundDigits_mono 4 htarget.le
    simp only [coherentTradePlan, decide_eq_true_eq]
    exact ⟨fun h => ⟨h.1.ne, h.2.ne'⟩,
      fun h => ⟨lt_of_le_of_ne hstop' h.1, lt_of_le_of_ne htarget' h.2.symm⟩⟩
  | short =>
    obtain ⟨htarget, hstop⟩ := of_decide_eq_true h
    have hstop' := roundDigits_mono 4 hstop.le
    have htarget' := roundDigits_mono 4 htarget.le
    simp only [coherentTradePlan, decide_eq_true_eq]
    exact ⟨fun h => ⟨h.2.ne', h.1.ne⟩,
      fun h => ⟨lt_of_le_of_ne htarget' h.2, lt_of_le_of_ne hstop' h.1.symm⟩⟩
  | flat => exact absurd h (by simp [coherentTradePlan])

/-- A coherent plan has a risk and a reward. -/
theorem distances_pos
    (h : coherentTradePlan direction (some entry) (some stop) (some target) = true) :
    0 < |entry - stop| ∧ 0 < |target - entry| := by
  rw [abs_pos, abs_pos, sub_ne_zero, sub_ne_zero]
  cases direction with
  | long =>
    obtain ⟨hstop, htarget⟩ := of_decide_eq_true h
    exact ⟨hstop.ne', htarget.ne'⟩
  | short =>
    obtain ⟨htarget, hstop⟩ := of_decide_eq_true h
    exact ⟨hstop.ne, htarget.ne⟩
  | flat => exact absurd h (by simp [coherentTradePlan])

theorem rewardRisk_of_coherent
    (h : coherentTradePlan direction (some entry) (some stop) (some target) = true) :
    rewardRisk direction entry stop target = some (|target - entry| / |entry - stop|) := by
  rw [rewardRisk, if_pos h, if_neg (not_le.mpr (distances_pos h).1)]

/-- The admission of a coherent signal whose stop is not too far is a matter of its ratio. -/
theorem paperTradeFromSignal_eq_iff {side : PaperSide} {plan : NormalizedPlan}
    (hentry : plan.entry = some entry) (hstop : plan.stop = some stop)
    (htarget : plan.target = some target)
    (h : coherentTradePlan side.direction (some entry) (some stop) (some target) = true)
    (hmet : StopDistanceMet entry stop target) :
    paperTradeFromSignal side plan.signal minRr = some (entry, stop, target) ↔
      minRr * |entry - stop| ≤ |target - entry| := by
  obtain ⟨hrisk, hreward⟩ := distances_pos h
  have hdistances : ¬ (|entry - stop| ≤ 0 ∨ |target - entry| ≤ 0) := by
    rw [not_or, not_le, not_le]
    exact ⟨hrisk, hreward⟩
  simp only [paperTradeFromSignal, NormalizedPlan.signal, hentry, hstop, htarget,
    WireField.ofOption, firstNumber, h, if_true, hdistances, if_false, rewardRisk_of_coherent h,
    Option.getD_some, gt_iff_lt, not_lt.mpr hmet]
  rw [← le_div_iff₀ hrisk, ← not_lt]
  split_ifs with hbelow
  · exact iff_of_false nofun (not_not.mpr hbelow)
  · exact iff_of_true rfl hbelow

/-- A ratio at the minimum is not rejected at the fill. -/
theorem not_rejected_of_ratio
    (h : coherentTradePlan direction (some entry) (some stop) (some target) = true)
    (hmet : StopDistanceMet entry stop target)
    (hratio : minRr * |entry - stop| ≤ |target - entry|) :
    executionPlanRejection direction (some entry) (some stop) (some target) (some minRr) = none := by
  obtain ⟨hrisk, hreward⟩ := distances_pos h
  have hbreached : planStopBreachedAtPrice direction (some stop) (some entry) = false := by
    cases direction with
    | long => exact decide_eq_false (not_le.mpr (of_decide_eq_true h).1)
    | short => exact decide_eq_false (not_le.mpr (of_decide_eq_true h).2)
    | flat => rfl
  have hminimum : max minRr 0 ≤ |target - entry| / |entry - stop| :=
    max_le ((le_div_iff₀ hrisk).mpr hratio) (div_nonneg hreward.le hrisk.le)
  have hrr : rrBelowMinimum (|target - entry| / |entry - stop|) (max minRr 0) = false := by
    rw [rrBelowMinimum, decide_eq_false (not_lt.mpr hminimum), Bool.false_and]
  have hrejection : rrRejection (rewardRisk direction entry stop target) (some minRr) = none := by
    rw [rewardRisk_of_coherent h, rrRejection, hrr]
    rfl
  have hdistance : riskRejection entry stop target = none := by
    rw [riskRejection, if_neg (by rw [not_or, not_le, not_le]; exact ⟨hrisk, hreward⟩), if_neg (not_lt.mpr hmet)]
  simp only [executionPlanRejection, hbreached, h, hrejection, hdistance, Bool.false_eq_true,
    if_false, if_true]
  rfl

end

/-- **A coherent plan.** Its levels stay coherent, outside the bar and admitted exactly where rounding
keeps them so. -/
theorem stays_coherent_iff {direction : Direction} {entry stop target pad minRr : ℚ}
    {bar : Option Bar} {useMarketEntry : Bool}
    (h : (normalizeTradePlan direction (some entry) (some stop) (some target) bar (some pad)
      (.value minRr) useMarketEntry).coherent = true) :
    StaysCoherent direction bar minRr (normalizeTradePlan direction (some entry) (some stop)
        (some target) bar (some pad) (.value minRr) useMarketEntry) ↔
      RoundingKeeps direction (plannedPrice bar useMarketEntry entry)
        (anchoredStop direction bar stop pad) target bar minRr := by
  have hcoherent := coherent_of_judgePlan h
  generalize hplan : normalizeTradePlan direction (some entry) (some stop) (some target) bar
    (some pad) (.value minRr) useMarketEntry = plan
  have hentry : plan.entry = some (roundDigits 4 (plannedPrice bar useMarketEntry entry)) := by
    rw [← hplan]
    rfl
  have hstop : plan.stop = some (roundDigits 4 (anchoredStop direction bar stop pad)) := by
    rw [← hplan]
    rfl
  have htarget : plan.target = some (roundDigits 4 target) := by
    rw [← hplan]
    rfl
  have hround := coherent_round_iff hcoherent
  generalize plannedPrice bar useMarketEntry entry = price at *
  generalize anchoredStop direction bar stop pad = anchored at *
  constructor
  · intro hstays
    have hkept := hstays.coherent
    rw [hentry, hstop, htarget] at hkept
    obtain ⟨hapart, hapart'⟩ := hround.mp hkept
    refine ⟨hapart, hapart', hstop ▸ hstays.outside, fun hmet => ?_⟩
    have hadmitted := (hstays.admitted _ hentry _ hstop _ htarget hmet).1
    obtain ⟨side, rfl⟩ : ∃ side : PaperSide, side.direction = direction := by
      cases direction with
      | long => exact ⟨.long, rfl⟩
      | short => exact ⟨.short, rfl⟩
      | flat => exact absurd hkept (by simp [coherentTradePlan])
    exact (paperTradeFromSignal_eq_iff hentry hstop htarget hkept hmet).mp (hadmitted side rfl)
  · intro hkeeps
    have hkept := hround.mpr ⟨hkeeps.stop_apart, hkeeps.target_apart⟩
    refine ⟨?_, ?_, ?_⟩
    · rwa [hentry, hstop, htarget]
    · rw [hstop]
      exact hkeeps.outside
    · rw [hentry, hstop, htarget]
      intro entry' hentry' stop' hstop' target' htarget' hmet
      cases hentry'
      cases hstop'
      cases htarget'
      have hratio := hkeeps.ratio hmet
      refine ⟨fun side hside => ?_, not_rejected_of_ratio hkept hmet hratio⟩
      subst hside
      exact (paperTradeFromSignal_eq_iff hentry hstop htarget hkept hmet).mpr hratio

/-! ### A low price -/

/-- A bar around four hundred-thousandths. -/
def lowPricedBar : Bar where
  symbol := "PEPE"
  ts := 0
  «open» := 4 / 100000
  high := 5 / 100000
  low := 3 / 100000
  close := 4 / 100000
  volume := 0
  timeframe := .m1
  source := "coinbase"
  closed := true
  state := .confirmed
  provenance := none
  volume_nonneg := (flat_geometry 0).2
  geometry := by decide +kernel
  lifecycle := lifecycle_ite true

/-- The stop and the entry of a coherent plan both come back as zero. -/
theorem low_price_loses_coherence :
    ¬ ∀ direction entry stop target bar pad minRr useMarketEntry,
      (normalizeTradePlan direction (some entry) (some stop) (some target) bar (some pad)
        (.value minRr) useMarketEntry).coherent = true →
      StaysCoherent direction bar minRr (normalizeTradePlan direction (some entry) (some stop)
        (some target) bar (some pad) (.value minRr) useMarketEntry) := by
  intro hclaim
  have hstays := hclaim .long (4 / 100000) (2 / 100000) (1 / 10000) (some lowPricedBar) 0 (3 / 2) true
    (by decide +kernel)
  exact absurd hstays.coherent (by decide +kernel)

theorem stays_coherent_iff_hundred :
    StaysCoherent .long none 2 (normalizeTradePlan .long (some 100) (some 98) (some 104) none (some 0)
      (.value 2) true) :=
  (stays_coherent_iff (by decide +kernel)).mpr
    ⟨by decide +kernel, by decide +kernel, by decide +kernel, by decide +kernel⟩

end AefTerminal
