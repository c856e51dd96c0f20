import AefTerminal.Backtest.Replay
import Mathlib.Order.Bounds.Basic

/-!
# The prices a simulated trade closes at

A simulated trade opens on the first bar that contains its entry, and closes on the first bar from
there that touches one of its levels, at that level. A bar touches a stop as soon as it lies beyond
it, so that a bar which gaps over the level closes the trade at a price that did not trade. The
lifecycle of a plan tells such a bar apart: it proves closure, but no fill.

## Main definitions

* `TradeBars`: the bars of a series, as a trade divides them
* `FillsAtTradedPrices`: the bar that closes the trade trades at its level

## Main results

* `simulateTrade_divides`: which bars a trade opens on, is held over and closes on
* `simulates_traded_prices_iff`
-/

namespace AefTerminal

open Foundation

/-- The price is in the range of the bar. -/
def Bar.TradesAt (bar : Bar) (price : ℚ) : Prop := bar.low ≤ price ∧ price ≤ bar.high

instance (bar : Bar) (price : ℚ) : Decidable (bar.TradesAt price) :=
  inferInstanceAs (Decidable (_ ∧ _))

theorem Bar.tradesAt_close (bar : Bar) : bar.TradesAt bar.close :=
  ⟨bar.geometry.2.trans (min_le_right _ _), (le_max_right _ _).trans bar.geometry.1⟩

/-! ### What a bar says of a plan -/

namespace TradePlan

variable (plan : TradePlan) (bar : Bar)

/-- The excursions of one bar. -/
def best : ℚ :=
  match plan.side with
  | .long => bar.high - plan.entry
  | .short => plan.entry - bar.low

def worst : ℚ :=
  match plan.side with
  | .long => bar.low - plan.entry
  | .short => plan.entry - bar.high

def stopTouched : Bool :=
  match plan.side with
  | .long => bar.low ≤ plan.stop
  | .short => plan.stop ≤ bar.high

def targetTouched : Bool :=
  match plan.side with
  | .long => plan.target ≤ bar.high
  | .short => bar.low ≤ plan.target

def touched : Bool := plan.stopTouched bar || plan.targetTouched bar

/-- How a trade ends that the bar closes: the stop first, and at the close where no level is touched. -/
def exitOn : ExitReason × ℚ :=
  if plan.stopTouched bar then (.stop, plan.stop)
  else if plan.targetTouched bar then (.target, plan.target)
  else (.timeout, bar.close)

variable {plan bar}

theorem exitOn_of_not_touched (h : plan.touched bar = false) : plan.exitOn bar = (.timeout, bar.close) := by
  obtain ⟨hstop, htarget⟩ := Bool.or_eq_false_iff.mp h
  rw [exitOn, hstop, htarget]
  rfl

/-- What a price in the range of a bar earns is between the excursions. -/
theorem pnl_mem_of_tradesAt {price : ℚ} (h : bar.TradesAt price) :
    plan.worst bar ≤ plan.pnl price ∧ plan.pnl price ≤ plan.best bar := by
  rw [worst, pnl, best]
  cases plan.side with
  | long => exact ⟨sub_le_sub_right h.1 _, sub_le_sub_right h.2 _⟩
  | short => exact ⟨sub_le_sub_left h.2 _, sub_le_sub_left h.1 _⟩

/-- The stop loses no more than the bar that touches it did, and the target earns no more. -/
theorem pnl_stop (h : plan.stopTouched bar = true) :
    plan.worst bar ≤ plan.pnl plan.stop ∧ plan.pnl plan.stop ≤ 0 := by
  have hstop := plan.brackets.1
  rw [stopTouched] at h
  rw [worst, pnl]
  revert h hstop
  cases plan.side with
  | long =>
    intro h hstop
    exact ⟨sub_le_sub_right (of_decide_eq_true h) _, sub_nonpos.mpr (le_of_lt hstop)⟩
  | short =>
    intro h hstop
    exact ⟨sub_le_sub_left (of_decide_eq_true h) _, sub_nonpos.mpr (le_of_lt hstop)⟩

theorem pnl_target (h : plan.targetTouched bar = true) :
    0 ≤ plan.pnl plan.target ∧ plan.pnl plan.target ≤ plan.best bar := by
  have htarget := plan.brackets.2
  rw [targetTouched] at h
  rw [pnl, best]
  revert h htarget
  cases plan.side with
  | long =>
    intro h htarget
    exact ⟨sub_nonneg.mpr (le_of_lt htarget), sub_le_sub_right (of_decide_eq_true h) _⟩
  | short =>
    intro h htarget
    exact ⟨sub_nonneg.mpr (le_of_lt htarget), sub_le_sub_left (of_decide_eq_true h) _⟩

/-- Whatever closes the trade, the result is between the excursions of the bar, or zero. -/
theorem pnl_exitOn (plan : TradePlan) (bar : Bar) :
    min 0 (plan.worst bar) ≤ plan.pnl (plan.exitOn bar).2 ∧
      plan.pnl (plan.exitOn bar).2 ≤ max 0 (plan.best bar) := by
  rw [exitOn]
  split_ifs with hstop htarget
  · obtain ⟨hworst, hloss⟩ := pnl_stop hstop
    exact ⟨(min_le_right _ _).trans hworst, hloss.trans (le_max_left _ _)⟩
  · obtain ⟨hgain, hbest⟩ := pnl_target htarget
    exact ⟨(min_le_left _ _).trans hgain, hbest.trans (le_max_right _ _)⟩
  · obtain ⟨hworst, hbest⟩ : plan.worst bar ≤ _ ∧ _ := pnl_mem_of_tradesAt bar.tradesAt_close
    exact ⟨(min_le_right _ _).trans hworst, hbest.trans (le_max_right _ _)⟩

end TradePlan

/-! ### What a trade has seen of the bars it was held over -/

/-- The excursions are those of the bars, and zero. -/
structure HeldOver (plan : TradePlan) (ts : Time) (held : List Bar) (s : OpenTrade) : Prop where
  openedAt : s.openedAt = ts
  holdBars : s.holdBars = held.length
  mfe : IsGreatest {x | x = 0 ∨ ∃ bar ∈ held, x = plan.best bar} s.mfe
  mae : IsLeast {x | x = 0 ∨ ∃ bar ∈ held, x = plan.worst bar} s.mae

/-- Nothing closed the trade yet. -/
structure OpenTrade.IsOpen (s : OpenTrade) : Prop where
  exitPrice : s.exitPrice = none
  exitReason : s.exitReason = .timeout

/-- The bar closed the trade. -/
structure OpenTrade.ClosedBy (plan : TradePlan) (bar : Bar) (s : OpenTrade) : Prop where
  closedAt : s.closedAt = some bar.ts
  exitReason : s.exitReason = (plan.exitOn bar).1
  exitPrice : s.exitPrice = some (plan.exitOn bar).2

section Hold

variable {plan : TradePlan} {ts : Time} {held bars : List Bar} {s : OpenTrade} {item : Bar}

theorem excursions_concat (f : Bar → ℚ) (held : List Bar) (bar : Bar) :
    {x | x = 0 ∨ ∃ b ∈ held ++ [bar], x = f b} = {x | x = 0 ∨ ∃ b ∈ held, x = f b} ∪ {f bar} := by
  ext x
  simp only [List.mem_append, List.mem_singleton, Set.mem_ofPred_eq, Set.mem_union,
    Set.mem_singleton_iff, or_and_right, exists_or, exists_eq_left, or_assoc]

theorem HeldOver.start (plan : TradePlan) (ts : Time) : HeldOver plan ts [] (.start ts) where
  openedAt := rfl
  holdBars := rfl
  mfe := by simp [OpenTrade.start, IsGreatest, upperBounds]
  mae := by simp [OpenTrade.start, IsLeast, lowerBounds]

/-- What one bar does, in the words of the plan. -/
theorem openTrade_bar_eq (plan : TradePlan) (s : OpenTrade) (bar : Bar) :
    s.bar plan bar =
      let held := { s with mfe := max s.mfe (plan.best bar), mae := min s.mae (plan.worst bar),
                           holdBars := s.holdBars + 1 }
      if plan.touched bar then
        { held with exitPrice := some (plan.exitOn bar).2, exitReason := (plan.exitOn bar).1,
                    closedAt := some bar.ts }
      else held := by
  rw [OpenTrade.bar, TradePlan.touched, TradePlan.exitOn, TradePlan.best, TradePlan.worst,
    TradePlan.stopTouched, TradePlan.targetTouched]
  cases plan.side with
  | long =>
    dsimp only
    cases decide (bar.low ≤ plan.stop) <;> cases decide (plan.target ≤ bar.high) <;> rfl
  | short =>
    dsimp only
    cases decide (plan.stop ≤ bar.high) <;> cases decide (bar.low ≤ plan.target) <;> rfl

theorem HeldOver.bar (h : HeldOver plan ts held s) (bar : Bar) :
    HeldOver plan ts (held ++ [bar]) (s.bar plan bar) := by
  rw [openTrade_bar_eq]
  have hlength : s.holdBars + 1 = (held ++ [bar]).length := by
    rw [List.length_append, h.holdBars]
    rfl
  have hmfe := h.mfe.union (@isGreatest_singleton ℚ _ (plan.best bar))
  have hmae := h.mae.union (@isLeast_singleton ℚ _ (plan.worst bar))
  rw [← excursions_concat] at hmfe hmae
  dsimp only
  split
  · exact ⟨h.openedAt, hlength, hmfe, hmae⟩
  · exact ⟨h.openedAt, hlength, hmfe, hmae⟩

theorem closedBy_of_touched (h : plan.touched item = true) (s : OpenTrade) :
    (s.bar plan item).ClosedBy plan item := by
  rw [openTrade_bar_eq, if_pos h]
  exact ⟨rfl, rfl, rfl⟩

theorem isOpen_of_not_touched (h : plan.touched item = false) (hs : s.IsOpen) :
    (s.bar plan item).IsOpen := by
  rw [openTrade_bar_eq, if_neg (by simp [h])]
  exact ⟨hs.exitPrice, hs.exitReason⟩

/-- The bars of an open trade: they are held over up to the first that touches a level. -/
theorem holdTrade_divides (hheld : HeldOver plan ts held s) (hs : s.IsOpen) (hne : bars ≠ []) :
    ∃ during closing after, bars = during ++ closing :: after ∧
      (∀ b ∈ during, plan.touched b = false) ∧
      HeldOver plan ts (held ++ during ++ [closing]) (holdTrade plan s bars) ∧
      (plan.touched closing = true ∧ (holdTrade plan s bars).ClosedBy plan closing ∨
        plan.touched closing = false ∧ after = [] ∧ (holdTrade plan s bars).IsOpen) := by
  induction bars generalizing s held with
  | nil => exact absurd rfl hne
  | cons bar rest ih =>
    have hbar := hheld.bar bar
    rw [holdTrade]
    cases htouched : plan.touched bar with
    | true =>
      have hclosed := closedBy_of_touched htouched s
      rw [if_pos (by rw [hclosed.exitPrice]; rfl)]
      exact ⟨[], bar, rest, rfl, by simp, by simpa using hbar, .inl ⟨htouched, hclosed⟩⟩
    | false =>
      have hopen := isOpen_of_not_touched htouched hs
      rw [if_neg (by simp [hopen.exitPrice])]
      cases rest with
      | nil =>
        rw [holdTrade]
        exact ⟨[], bar, [], rfl, by simp, by simpa using hbar, .inr ⟨htouched, rfl, hopen⟩⟩
      | cons next rest =>
        obtain ⟨during, closing, after, heq, hduring, hrest, hcloses⟩ :=
          ih hbar hopen (List.cons_ne_nil next rest)
        refine ⟨bar :: during, closing, after, by rw [heq]; rfl, ?_, by simpa using hrest, hcloses⟩
        intro b hb
        rcases List.mem_cons.mp hb with rfl | hb
        · exact htouched
        · exact hduring b hb

theorem HeldOver.timeout (h : HeldOver plan ts held s) (bars : List Bar) :
    HeldOver plan ts held (s.timeout bars) := by
  rw [OpenTrade.timeout]
  split
  · exact ⟨h.openedAt, h.holdBars, h.mfe, h.mae⟩
  · exact h

/-- The result of a trade is between its excursions. -/
theorem HeldOver.pnl_mem (h : HeldOver plan ts held s) (hmem : item ∈ held) :
    (s.mae ≤ plan.pnl (plan.exitOn item).2 ∧ plan.pnl (plan.exitOn item).2 ≤ s.mfe) ∧
      s.mae ≤ 0 ∧ 0 ≤ s.mfe := by
  obtain ⟨hlow, hhigh⟩ := plan.pnl_exitOn item
  have hmae : s.mae ≤ 0 := h.mae.2 (.inl rfl)
  have hmfe : 0 ≤ s.mfe := h.mfe.2 (.inl rfl)
  have hworst : s.mae ≤ plan.worst item := h.mae.2 (.inr ⟨item, hmem, rfl⟩)
  have hbest : plan.best item ≤ s.mfe := h.mfe.2 (.inr ⟨item, hmem, rfl⟩)
  exact ⟨⟨(le_min hmae hworst).trans hlow, hhigh.trans (max_le hmfe hbest)⟩, hmae, hmfe⟩

end Hold

/-! ### The bars of a trade -/

/-- The bars of a series: those before the trade, those that leave it open, the one that closes it,
and those after it. -/
structure TradeBars where
  before : List Bar
  during : List Bar
  closing : Bar
  after : List Bar

def TradeBars.all (t : TradeBars) : List Bar := t.before ++ (t.during ++ t.closing :: t.after)

def TradeBars.held (t : TradeBars) : List Bar := t.during ++ [t.closing]

/-- The first of the bars held. -/
def TradeBars.opening (t : TradeBars) : Bar := t.during.headD t.closing

structure TradeBars.Divides (t : TradeBars) (plan : TradePlan) (bars : List Bar) : Prop where
  all_eq : t.all = bars
  before : ∀ bar ∈ t.before, entryHit bar plan.entry = false
  opening : entryHit t.opening plan.entry = true
  during : ∀ bar ∈ t.during, plan.touched bar = false
  closing : plan.touched t.closing = true ∨ t.after = []

/-- What a trade reports of its run; only its figures are rounded. -/
structure BacktestTrade.Reports (trade : BacktestTrade) (plan : TradePlan) (s : OpenTrade) : Prop where
  openedAt : trade.openedAt = s.openedAt
  closedAt : trade.closedAt = s.closedAt
  exitPrice : trade.exitPrice = s.exitPrice
  exitReason : trade.exitReason = s.exitReason
  holdBars : trade.holdBars = s.holdBars
  pnlPoints : trade.pnlPoints = (s.exitPrice.map plan.pnl).map (roundDigits 4)
  mfePoints : trade.mfePoints = roundDigits 4 s.mfe
  maePoints : trade.maePoints = roundDigits 4 s.mae

section Divide

variable {plan : TradePlan} {bars : List Bar} {s : OpenTrade} {signalBar : Bar}
  {features : TradeFeatures} {trade : BacktestTrade} {t : TradeBars}

theorem simulateBars_eq_none : simulateBars plan bars = none ↔
    ∀ bar ∈ bars, entryHit bar plan.entry = false := by
  induction bars with
  | nil => simp [simulateBars]
  | cons bar rest ih =>
    rw [simulateBars, List.forall_mem_cons]
    cases entryHit bar plan.entry with
    | true => simp
    | false => simp [ih]

/-- The bar that closed the trade, once the horizon has ended. -/
theorem closedBy_timeout {closing : Bar} {after : List Bar}
    (hcloses : plan.touched closing = true ∧ s.ClosedBy plan closing ∨
      plan.touched closing = false ∧ after = [] ∧ s.IsOpen) (before : List Bar) :
    (s.timeout (before ++ closing :: after)).ClosedBy plan closing := by
  rcases hcloses with ⟨-, hclosed⟩ | ⟨htouched, rfl, hopen⟩
  · rw [OpenTrade.timeout, hclosed.exitPrice]
    exact hclosed
  · rw [OpenTrade.timeout, hopen.exitPrice, List.getLast?_concat]
    have hexit := TradePlan.exitOn_of_not_touched htouched
    exact ⟨rfl, by rw [hexit]; exact hopen.exitReason, by rw [hexit]⟩

theorem simulateBars_divides (h : simulateBars plan bars = some s) :
    ∃ t : TradeBars, t.Divides plan bars ∧ HeldOver plan t.opening.ts t.held (s.timeout bars) ∧
      (s.timeout bars).ClosedBy plan t.closing := by
  suffices hdivides : ∀ before : List Bar, ∃ t : TradeBars, t.Divides plan bars ∧
      HeldOver plan t.opening.ts t.held (s.timeout (before ++ bars)) ∧
      (s.timeout (before ++ bars)).ClosedBy plan t.closing from hdivides []
  induction bars with
  | nil => exact absurd h.symm (Option.some_ne_none s)
  | cons bar rest ih =>
    intro before
    rw [simulateBars] at h
    cases hhit : entryHit bar plan.entry with
    | true =>
      rw [if_pos hhit] at h
      obtain ⟨during, closing, after, heq, hduring, hheld, hcloses⟩ :=
        holdTrade_divides (HeldOver.start plan bar.ts) ⟨rfl, rfl⟩ (List.cons_ne_nil bar rest)
      rw [Option.some.inj h] at hheld hcloses
      have hopening : during.headD closing = bar := by
        cases during with
        | nil => exact (List.cons.inj heq).1.symm
        | cons first during => exact (List.cons.inj heq).1.symm
      refine ⟨⟨[], during, closing, after⟩, ⟨heq.symm, by simp, ?_, hduring, ?_⟩, ?_, ?_⟩
      · rw [TradeBars.opening, hopening]
        exact hhit
      · exact hcloses.imp And.left fun h => h.2.1
      · rw [TradeBars.opening, hopening]
        exact hheld.timeout _
      · rw [heq, ← List.append_assoc]
        exact closedBy_timeout hcloses _
    | false =>
      rw [if_neg (by simp [hhit])] at h
      obtain ⟨t, hdivides, hheld, hclosed⟩ := ih h (before ++ [bar])
      rw [List.append_assoc] at hheld hclosed
      refine ⟨{ t with before := bar :: t.before }, ⟨?_, ?_, hdivides.opening, hdivides.during,
        hdivides.closing⟩, hheld, hclosed⟩
      · exact congrArg (bar :: ·) hdivides.all_eq
      · exact List.forall_mem_cons.mpr ⟨hhit, hdivides.before⟩

theorem simulateTrade_eq_none : simulateTrade plan signalBar bars features = none ↔
    ∀ bar ∈ bars, entryHit bar plan.entry = false := by
  rw [simulateTrade, if_neg (not_le.mpr plan.risk_pos), Option.map_eq_none_iff, simulateBars_eq_none]

/-- A trade opens on the first bar that contains its entry, and closes on the first from there that
touches a level, or on the last. -/
theorem simulateTrade_divides (h : simulateTrade plan signalBar bars features = some trade) :
    ∃ (t : TradeBars) (s : OpenTrade), t.Divides plan bars ∧ trade.Reports plan s ∧
      HeldOver plan t.opening.ts t.held s ∧ s.ClosedBy plan t.closing := by
  rw [simulateTrade, if_neg (not_le.mpr plan.risk_pos)] at h
  obtain ⟨s, hs, rfl⟩ := Option.map_eq_some_iff.mp h
  obtain ⟨t, hdivides, hheld, hclosed⟩ := simulateBars_divides hs
  exact ⟨t, s.timeout bars, hdivides, ⟨rfl, rfl, rfl, rfl, rfl, rfl, rfl, rfl⟩, hheld, hclosed⟩

/-! ### Gaps -/

/-- The first bar from the entry on that touches a level. -/
def closingTouch (plan : TradePlan) (bars : List Bar) : Option Bar :=
  (bars.dropWhile fun bar => !entryHit bar plan.entry).find? plan.touched

/-- The bar that closes the trade does not gap over the level it closes it at. -/
def FillsAtTradedPrices (plan : TradePlan) (bars : List Bar) : Prop :=
  ∀ bar ∈ closingTouch plan bars, bar.TradesAt (plan.exitOn bar).2

theorem TradeBars.Divides.closingTouch_eq (h : t.Divides plan bars) :
    closingTouch plan bars = if plan.touched t.closing then some t.closing else none := by
  have hfrom : bars.dropWhile (fun bar => !entryHit bar plan.entry) =
      t.during ++ t.closing :: t.after := by
    have hopening := h.opening
    rw [← h.all_eq, TradeBars.all, List.dropWhile_append_of_pos fun bar hbar => by
      rw [h.before bar hbar]; rfl]
    rw [TradeBars.opening] at hopening
    cases hduring : t.during with
    | nil =>
      rw [hduring] at hopening
      exact List.dropWhile_cons_of_neg (by simpa using hopening)
    | cons first during =>
      rw [hduring] at hopening
      exact List.dropWhile_cons_of_neg (by simpa using hopening)
  have hnone : t.during.find? plan.touched = none :=
    List.find?_eq_none.mpr fun bar hbar => by simp [h.during bar hbar]
  rw [closingTouch, hfrom, List.find?_append, hnone, Option.none_or, List.find?_cons]
  cases htouched : plan.touched t.closing with
  | true => rfl
  | false =>
    rw [h.closing.resolve_left (by simp [htouched])]
    rfl

end Divide

/-- **Simulated trades trade at traded prices.** There is no trade exactly where no bar contains the
entry. A trade opens on the first bar that does and closes on the first from there that touches a
level, or on the last; it closes at a price of that bar, and its result is between its excursions,
which are those of the bars held. -/
def SimulatesTradedPrices (plan : TradePlan) (signalBar : Bar) (bars : List Bar)
    (features : TradeFeatures) : Prop :=
  (simulateTrade plan signalBar bars features = none ↔
    ∀ bar ∈ bars, entryHit bar plan.entry = false) ∧
  ∀ trade ∈ simulateTrade plan signalBar bars features, ∃ (t : TradeBars) (s : OpenTrade),
    t.Divides plan bars ∧ trade.Reports plan s ∧ HeldOver plan t.opening.ts t.held s ∧
      s.ClosedBy plan t.closing ∧
      ∃ price ∈ s.exitPrice, t.closing.TradesAt price ∧
        (s.mae ≤ plan.pnl price ∧ plan.pnl price ≤ s.mfe) ∧ s.mae ≤ 0 ∧ 0 ≤ s.mfe

/-- A trade at a traded price did not gap over its level. -/
theorem SimulatesTradedPrices.fills {plan : TradePlan} {signalBar : Bar} {bars : List Bar}
    {features : TradeFeatures} (h : SimulatesTradedPrices plan signalBar bars features) :
    FillsAtTradedPrices plan bars := by
  cases htrade : simulateTrade plan signalBar bars features with
  | none =>
    have hpassed : bars.dropWhile (fun bar => !entryHit bar plan.entry) = [] :=
      List.dropWhile_eq_nil_iff.mpr fun bar hbar => by
        rw [simulateTrade_eq_none.mp htrade bar hbar]; rfl
    intro bar hbar
    rw [closingTouch, hpassed] at hbar
    exact absurd hbar (Option.not_mem_none bar)
  | some trade =>
    obtain ⟨t, s, hdivides, -, -, hclosed, price, hprice, htrades, -⟩ := h.2 trade htrade
    cases (hclosed.exitPrice.symm.trans hprice)
    intro bar hbar
    rw [hdivides.closingTouch_eq] at hbar
    split at hbar
    · rwa [← Option.some.inj hbar]
    · exact absurd hbar (Option.not_mem_none bar)

/-- A simulated trade trades at traded prices exactly where the bar that closes it does not gap over
the level it closes it at. -/
theorem simulates_traded_prices_iff (plan : TradePlan) (signalBar : Bar) (bars : List Bar)
    (features : TradeFeatures) :
    SimulatesTradedPrices plan signalBar bars features ↔ FillsAtTradedPrices plan bars := by
  refine ⟨SimulatesTradedPrices.fills, fun h => ⟨simulateTrade_eq_none, fun trade htrade => ?_⟩⟩
  obtain ⟨t, s, hdivides, hreports, hheld, hclosed⟩ := simulateTrade_divides htrade
  have htrades : t.closing.TradesAt (plan.exitOn t.closing).2 := by
    cases htouched : plan.touched t.closing with
    | true => exact h t.closing (by rw [hdivides.closingTouch_eq, if_pos htouched]; rfl)
    | false =>
      rw [TradePlan.exitOn_of_not_touched htouched]
      exact t.closing.tradesAt_close
  exact ⟨t, s, hdivides, hreports, hheld, hclosed, _, hclosed.exitPrice, htrades,
    hheld.pnl_mem (List.mem_append_right _ List.mem_cons_self)⟩

/-! ### A bar that gaps over the stop -/

/-- A bar with a single price. -/
def pricedBar (minute : ℤ) (price : ℚ) : Bar where
  symbol := "ES"
  ts := minute * microsecondsPerMinute
  «open» := price
  high := price
  low := price
  close := price
  volume := 10
  timeframe := .m1
  source := "ibkr"
  closed := true
  state := .confirmed
  provenance := none
  volume_nonneg := Nat.ofNat_nonneg 10
  geometry := flat_geometry price
  lifecycle := lifecycle_ite true

def stoppedPlan : TradePlan where
  source := "breakout_accumulation"
  setup := "transit"
  side := .long
  confidence := 82
  entry := 100
  stop := 98
  target := 102
  inverted := none
  stopMultiplier := none
  targetMode := none
  brackets := ⟨show (98 : ℚ) < 100 by decide +kernel, show (100 : ℚ) < 102 by decide +kernel⟩

def plainFeatures : TradeFeatures where
  tick := none
  tickProfile := none
  riskPoints := 2
  rewardPoints := 2
  plannedRr := 1
  inverted := false
  stopMultiplier := 1
  targetMode := "same"
  executionTimeframe := .m1

/-- The market falls from 100 to 90; the trade is closed at 98. -/
theorem gap_closes_at_untraded_price :
    ¬ SimulatesTradedPrices stoppedPlan (pricedBar 0 100) [pricedBar 1 100, pricedBar 2 90]
      plainFeatures := fun h =>
  have htouch : closingTouch stoppedPlan [pricedBar 1 100, pricedBar 2 90] = some (pricedBar 2 90) := by
    decide +kernel
  absurd (h.fills _ htouch) (by decide +kernel)

end AefTerminal
