import AefTerminal.Backtest.Agreement

/-!
# A backtest does not look ahead

The windows, the bars a signal is executed on and the last usable index are computed from
different rules. Where the horizon is not negative they agree on one thing: what a pass reads is
observed by the end of the history. A longer history that starts with the shorter one has the same
passes, followed by more, so its trades are those of the shorter one, followed by more.

Lower-timeframe bars are a mode of execution: without any, a signal is executed on parent bars.
Two runs are compared in the same mode. The parent bar after a signal may also start before the
end of the signal's interval, where a session opened with a partial bar; only lower-timeframe bars
are held to that clock.

## Main definitions

* `Extends`: the inputs of a run on a longer history
* `TradedWithin`: where a trade opens and closes, seen from its signal

## Main results

* `backtests_causal`: single and batch runs
-/

namespace AefTerminal

open Foundation

/-! ### Slices and indices -/

/-- A slice that ends inside a list is the same in a longer one. -/
theorem pythonSlice_of_prefix {α : Type} {l l' : List α} (h : l <+: l') {start stop : ℤ}
    (hstart : 0 ≤ start) (hstop : 0 ≤ stop) (hle : stop ≤ l.length) :
    pythonSlice l start stop = pythonSlice l' start stop := by
  obtain ⟨m, rfl⟩ := h
  have hlength : stop.toNat ≤ l.length := by omega
  simp only [pythonSlice, if_neg (not_lt.mpr hstart), if_neg (not_lt.mpr hstop)]
  rw [List.take_append_of_le_length hlength]

theorem BacktestArgs.stride_pos (args : BacktestArgs) : 0 < args.stride := by
  rw [BacktestArgs.stride]
  omega

variable {index : ℕ} {args : BacktestArgs}

/-- An index of the walk is past the warm-up and leaves room for the horizon. -/
theorem mem_indices {length : ℕ} (h : index ∈ args.indices length) :
    2 ≤ index ∧ (index : ℤ) + 1 + args.horizon ≤ length := by
  rw [BacktestArgs.indices] at h
  obtain ⟨k, hk, rfl⟩ := List.mem_range'.mp h
  have hstride := args.stride_pos
  rw [Nat.lt_div_iff_mul_lt hstride] at hk
  have hfirst : 2 ≤ args.firstIndex := by
    rw [BacktestArgs.firstIndex]
    omega
  have hcomm : k * args.stride = args.stride * k := Nat.mul_comm ..
  have hlast : args.firstIndex + args.stride * k ≤ args.lastIndex length := by omega
  rw [BacktestArgs.lastIndex] at hlast
  push_cast
  omega

variable {closed bars : List Bar}

/-- A history that is walked at all has bars. -/
theorem ne_nil_of_mem_indices
    (hhorizon : 0 ≤ args.horizon) (h : index ∈ args.indices closed.length) : closed ≠ [] := by
  rintro rfl
  obtain ⟨-, hroom⟩ := mem_indices h
  simp only [List.length_nil] at hroom
  omega

/-- On a longer history the walk visits the same windows first. -/
theorem indices_prefix {length length' : ℕ} (h : length ≤ length') :
    args.indices length <+: args.indices length' := by
  have hlast : args.lastIndex length ≤ args.lastIndex length' := by
    rw [BacktestArgs.lastIndex, BacktestArgs.lastIndex]
    omega
  have hcount : (args.lastIndex length + args.stride - args.firstIndex) / args.stride ≤
      (args.lastIndex length' + args.stride - args.firstIndex) / args.stride :=
    Nat.div_le_div_right (by omega)
  obtain ⟨more, hmore⟩ := Nat.exists_eq_add_of_le hcount
  rw [BacktestArgs.indices, BacktestArgs.indices, hmore, ← List.range'_append]
  exact List.prefix_append ..

/-- The bars of the horizon, where the slice does not count from the end. -/
theorem future_eq (hhorizon : 0 ≤ args.horizon) :
    args.future closed index = (closed.take (index + 1 + args.horizon.toNat)).drop (index + 1) := by
  have hstart : ¬ ((index : ℤ) + 1 < 0) := by omega
  have hstop : ¬ ((index : ℤ) + 1 + args.horizon < 0) := by omega
  have hstop' : ((index : ℤ) + 1 + args.horizon).toNat = index + 1 + args.horizon.toNat := by omega
  simp only [BacktestArgs.future, pythonSlice, if_neg hstart, if_neg hstop, hstop']
  rfl

variable {bar : Bar}

/-- A bar of the horizon is one of the bars after the signal bar. -/
theorem mem_future (hhorizon : 0 ≤ args.horizon) (hbar : bar ∈ args.future closed index) :
    ∃ j, index < j ∧ j ≤ index + args.horizon.toNat ∧ closed[j]? = some bar := by
  rw [future_eq hhorizon] at hbar
  obtain ⟨k, hk⟩ := List.mem_iff_getElem?.mp hbar
  rw [List.getElem?_drop, List.getElem?_take] at hk
  split at hk
  case isTrue hlt => exact ⟨index + 1 + k, by omega, by omega, hk⟩
  case isFalse => exact absurd hk nofun

/-- The last bar of the horizon is there, where there is a horizon. -/
theorem getLast?_future
    (hindex : index ∈ args.indices closed.length) (hhorizon : 0 < args.horizon) :
    ∃ last, (args.future closed index).getLast? = some last ∧
      closed[index + args.horizon.toNat]? = some last := by
  obtain ⟨-, hroom⟩ := mem_indices hindex
  have hlast : index + args.horizon.toNat < closed.length := by omega
  have hlength : (args.future closed index).length = args.horizon.toNat := by
    rw [future_eq hhorizon.le, List.length_drop, List.length_take]
    omega
  refine ⟨closed[index + args.horizon.toNat], ?_, List.getElem?_eq_getElem hlast⟩
  rw [List.getLast?_eq_getElem?, hlength, future_eq hhorizon.le, List.getElem?_drop,
    List.getElem?_take, if_pos (by omega), ← List.getElem?_eq_getElem hlast]
  congr 1
  omega

theorem Series.ts_le (h : Series bars) {i j : ℕ} {a b : Bar}
    (ha : bars[i]? = some a) (hb : bars[j]? = some b) (hij : i ≤ j) : a.ts ≤ b.ts := by
  obtain ⟨hi, rfl⟩ := List.getElem?_eq_some_iff.mp ha
  obtain ⟨hj, rfl⟩ := List.getElem?_eq_some_iff.mp hb
  obtain hlt | rfl := lt_or_eq_of_le hij
  · exact le_of_lt (List.pairwise_iff_getElem.mp h.sorted i j hi hj hlt)
  · exact le_refl _

theorem Series.ts_lt (h : Series bars) {i j : ℕ} {a b : Bar}
    (ha : bars[i]? = some a) (hb : bars[j]? = some b) (hij : i < j) : a.ts < b.ts := by
  obtain ⟨hi, rfl⟩ := List.getElem?_eq_some_iff.mp ha
  obtain ⟨hj, rfl⟩ := List.getElem?_eq_some_iff.mp hb
  exact List.pairwise_iff_getElem.mp h.sorted i j hi hj hij

/-! ### The bars of a signal -/

variable {signalBar : Bar} {p : BacktestInputs}

/-- The bars a signal is executed on: parent bars of the horizon, or lower-timeframe bars between
the clock of the signal and the end of the horizon. -/
theorem mem_executionBars (h : bar ∈ executionBars args p index signalBar) :
    (p.fast = [] ∧ bar ∈ args.future p.closed index) ∨
      (bar ∈ p.fast ∧ signalBarObservedAt signalBar ≤ bar.ts ∧
        ∃ last, (args.future p.closed index).getLast? = some last ∧
          signalBarObservedAt bar ≤ signalBarObservedAt last) := by
  unfold executionBars fastExecutionWindow at h
  split at h
  case h_1 hfast => exact .inl ⟨hfast, h⟩
  case h_2 hnone _ =>
    rw [List.getLast?_eq_none_iff.mp hnone] at h
    exact absurd h (by simp)
  case h_3 last hlast _ =>
    rw [List.mem_filter] at h
    obtain ⟨hbar, hclock⟩ := h
    rw [Bool.and_eq_true, decide_eq_true_eq, decide_eq_true_eq] at hclock
    exact .inr ⟨hbar, hclock.1, last, hlast, hclock.2⟩

/-- Where a trade opens and closes, seen from its signal. -/
structure TradedAt (args : BacktestArgs) (p : BacktestInputs) (trade : BacktestTrade) (index : ℕ)
    (signalBar last : Bar) : Prop where
  mem_indices : index ∈ args.indices p.closed.length
  signal_at : p.closed[index]? = some signalBar
  /-- The last bar of the horizon. -/
  last_at : p.closed[index + args.horizon.toNat]? = some last
  simulated : ∃ plan features,
    simulateTrade plan signalBar (executionBars args p index signalBar) features = some trade
  opens_after : signalBar.ts < trade.openedAt
  opens_observed : p.fast ≠ [] → signalBarObservedAt signalBar ≤ trade.openedAt
  opens_next : p.fast = [] →
    ∃ next, p.closed[index + 1]? = some next ∧ next.ts ≤ trade.openedAt
  closes : ∃ closedAt, trade.closedAt = some closedAt ∧ closedAt < signalBarObservedAt last

/-- A trade of a run, with some signal. -/
def TradedWithin (args : BacktestArgs) (p : BacktestInputs) (trade : BacktestTrade) : Prop :=
  ∃ index signalBar last, TradedAt args p trade index signalBar last

variable {features : TradeFeatures}

/-- A simulated trade opens after its signal and closes within the horizon. -/
theorem tradedWithin_of_simulated {plan : TradePlan} {trade : BacktestTrade}
    (hclosed : Series p.closed) (hhorizon : 0 ≤ args.horizon)
    (hindex : index ∈ args.indices p.closed.length) (hsignal : p.closed[index]? = some signalBar)
    (h : simulateTrade plan signalBar (executionBars args p index signalBar) features =
      some trade) : TradedWithin args p trade := by
  obtain ⟨⟨first, hfirst, hopened⟩, final, hfinal, hclosedAt⟩ := simulateTrade_spec h
  -- there is a bar, so there is a horizon
  have hpos : 0 < args.horizon := by
    by_contra hnot
    have hzero : args.horizon.toNat = 0 := by omega
    have hempty : args.future p.closed index = [] := by
      rw [future_eq hhorizon, hzero, List.drop_take_self]
    obtain ⟨-, hmem⟩ | ⟨-, -, last, hlast, -⟩ := mem_executionBars hfirst
    · rw [hempty] at hmem
      exact absurd hmem (by simp)
    · rw [hempty] at hlast
      exact absurd hlast nofun
  obtain ⟨last, hgetLast, hlast⟩ := getLast?_future hindex hpos
  have hobserved := ts_lt_observed signalBar
  refine ⟨index, signalBar, last, hindex, hsignal, hlast, ⟨plan, features, h⟩, ?_, ?_, ?_,
    final.ts, hclosedAt, ?_⟩
  · obtain ⟨-, hmem⟩ | ⟨-, hclock, -⟩ := mem_executionBars hfirst
    · obtain ⟨j, hj, -, hbar⟩ := mem_future hhorizon hmem
      exact hopened ▸ hclosed.ts_lt hsignal hbar hj
    · exact hopened ▸ hobserved.trans_le hclock
  · intro hfast
    obtain ⟨hnone, -⟩ | ⟨-, hclock, -⟩ := mem_executionBars hfirst
    · exact absurd hnone hfast
    · exact hopened ▸ hclock
  · intro hfast
    obtain ⟨-, hmem⟩ | ⟨hmem, -⟩ := mem_executionBars hfirst
    · obtain ⟨j, hj, -, hbar⟩ := mem_future hhorizon hmem
      have hnext : index + 1 < p.closed.length := by
        obtain ⟨-, hroom⟩ := mem_indices hindex
        omega
      exact ⟨_, List.getElem?_eq_getElem hnext,
        hopened ▸ hclosed.ts_le (List.getElem?_eq_getElem hnext) hbar hj⟩
    · rw [hfast] at hmem
      exact absurd hmem (by simp)
  · obtain ⟨-, hmem⟩ | ⟨-, -, last', hlast', hend⟩ := mem_executionBars hfinal
    · obtain ⟨j, -, hj, hbar⟩ := mem_future hhorizon hmem
      exact (hclosed.ts_le hbar hlast hj).trans_lt (ts_lt_observed last)
    · cases (hgetLast.symm.trans hlast')
      exact (ts_lt_observed final).trans_le hend

/-! ### A longer history -/

/-- What admission says of the inputs of a run. -/
structure AdmittedInputs (args : BacktestArgs) (p : BacktestInputs) : Prop where
  closed : Series p.closed
  fast : Series p.fast
  timeframe : p.executionTimeframe = p.fast.head?.map Bar.timeframe
  ticks : prepareTicks args (p.closed.head?.map Bar.timeframe) = .ok (p.tickRows, p.tickLevels)

variable {fastEntryBars : Option (List Bar)}

theorem admitted_of_prepared (h : prepareBacktest args bars fastEntryBars = .ok p) :
    AdmittedInputs args p ∧ p.closed = bars.filter (!isProvisionalBar ·) ∧
      p.fast = (fastEntryBars.getD []).filter (!isProvisionalBar ·) ∧
      (p.fast = [] ↔ fastEntryBars.getD [] = []) := by
  obtain ⟨closed, hclosed, h⟩ := bind_eq_ok.mp h
  obtain ⟨⟨fast, timeframe⟩, hfast, h⟩ := bind_eq_ok.mp h
  obtain ⟨⟨rows, levels⟩, hticks, h⟩ := bind_eq_ok.mp h
  obtain rfl := pure_eq_ok.mp h
  obtain ⟨hclosed, hseries⟩ := admitReplayConfirmedBars_spec hclosed
  obtain ⟨hfast, hfastSeries, hgiven, htimeframe⟩ := prepareFastEntryBars_spec hfast
  exact ⟨⟨hseries, hfastSeries, htimeframe, hticks⟩, hclosed, hfast, hgiven⟩

/-- The lower-timeframe bars of two runs are the same up to the end of a history. -/
def AgreeUpTo (bars fast fast' : List Bar) : Prop :=
  ∀ last ∈ bars.getLast?,
    fast.filter (fun bar => decide (signalBarObservedAt bar ≤ signalBarObservedAt last)) =
      fast'.filter (fun bar => decide (signalBarObservedAt bar ≤ signalBarObservedAt last))

/-- The inputs `p'` go on where `p` ends, in the same mode of execution. -/
structure Extends (args : BacktestArgs) (p p' : BacktestInputs) : Prop where
  admitted : AdmittedInputs args p
  admitted' : AdmittedInputs args p'
  closed : p.closed <+: p'.closed
  mode : p.fast = [] ↔ p'.fast = []
  agree : AgreeUpTo p.closed p.fast p'.fast

/-- What a run is given goes on where what another is given ends. -/
theorem extends_of_prepared {p' : BacktestInputs} {later : List Bar}
    {fastEntryBars' : Option (List Bar)} (h : prepareBacktest args bars fastEntryBars = .ok p)
    (h' : prepareBacktest args (bars ++ later) fastEntryBars' = .ok p')
    (hmode : fastEntryBars.getD [] = [] ↔ fastEntryBars'.getD [] = [])
    (hagree : AgreeUpTo (bars.filter (!isProvisionalBar ·)) (fastEntryBars.getD [])
      (fastEntryBars'.getD [])) : Extends args p p' := by
  obtain ⟨hadmitted, hclosed, hfast, hgiven⟩ := admitted_of_prepared h
  obtain ⟨hadmitted', hclosed', hfast', hgiven'⟩ := admitted_of_prepared h'
  refine ⟨hadmitted, hadmitted', ?_, ?_, ?_⟩
  · rw [hclosed, hclosed', List.filter_append]
    exact List.prefix_append ..
  · rw [hgiven, hgiven', hmode]
  · intro last hlast
    rw [hclosed] at hlast
    rw [hfast, hfast', List.filter_comm, List.filter_comm _ _ (fastEntryBars'.getD []),
      hagree last hlast]

variable {args : BacktestArgs} {p p' : BacktestInputs}

/-- A history that is walked at all has the tick rows of every longer one. -/
theorem Extends.ticks (h : Extends args p p') (hne : p.closed ≠ []) :
    p.tickRows = p'.tickRows ∧ p.tickLevels = p'.tickLevels := by
  obtain ⟨more, hmore⟩ := h.closed
  have hhead : p'.closed.head?.map Bar.timeframe = p.closed.head?.map Bar.timeframe := by
    rw [← hmore, List.head?_append_of_ne_nil _ hne]
  have hticks := h.admitted'.ticks
  rw [hhead, h.admitted.ticks] at hticks
  exact Prod.mk.inj (Except.ok.inj hticks)

/-- A bar of the horizon is observed by the end of the history. -/
theorem observed_le_end (hclosed : Series closed) (hhorizon : 0 ≤ args.horizon) {last endBar : Bar}
    (hlast : (args.future closed index).getLast? = some last) (hend : closed.getLast? = some endBar) :
    signalBarObservedAt last ≤ signalBarObservedAt endBar := by
  obtain ⟨j, -, -, hj⟩ := mem_future hhorizon (List.mem_of_getLast? hlast)
  have hmem := List.mem_of_getElem? hj
  rw [List.getLast?_eq_getElem?] at hend
  have hlt : j < closed.length := (List.getElem?_eq_some_iff.mp hj).1
  exact hclosed.observed_le hmem (List.mem_of_getElem? hend) (hclosed.ts_le hj hend (by omega))

/-- A signal is executed on the same bars in a longer history. -/
theorem Extends.executionBars_eq (h : Extends args p p') (hhorizon : 0 ≤ args.horizon)
    (hindex : index ∈ args.indices p.closed.length) (signalBar : Bar) :
    executionBars args p index signalBar = executionBars args p' index signalBar := by
  obtain ⟨-, hroom⟩ := mem_indices hindex
  have hfuture : args.future p.closed index = args.future p'.closed index :=
    pythonSlice_of_prefix h.closed (by omega) (by omega) hroom
  unfold executionBars
  rw [← hfuture]
  by_cases hfast : p.fast = []
  · rw [hfast, h.mode.mp hfast]
  · have hfast' : p'.fast ≠ [] := fun hnil => hfast (h.mode.mpr hnil)
    cases hlast : (args.future p.closed index).getLast? with
    | none =>
      rw [List.getLast?_eq_none_iff.mp hlast, fastExecutionWindow_nil, fastExecutionWindow_nil]
    | some last =>
      have hne := ne_nil_of_mem_indices hhorizon hindex
      have hend := List.getLast?_eq_some_getLast hne
      have hle := observed_le_end h.admitted.closed hhorizon hlast hend
      -- the window keeps nothing that is observed after the history
      have hwindow : ∀ fast : List Bar, fast.filter (fun bar =>
            decide (signalBarObservedAt signalBar ≤ bar.ts) &&
              decide (signalBarObservedAt bar ≤ signalBarObservedAt last)) =
          (fast.filter fun bar => decide (signalBarObservedAt bar ≤
            signalBarObservedAt (p.closed.getLast hne))).filter (fun bar =>
              decide (signalBarObservedAt signalBar ≤ bar.ts) &&
                decide (signalBarObservedAt bar ≤ signalBarObservedAt last)) := by
        intro fast
        rw [List.filter_filter]
        refine List.filter_congr fun bar _ => ?_
        by_cases hbar : signalBarObservedAt bar ≤ signalBarObservedAt last
        · simp [hbar, hbar.trans hle]
        · simp [hbar]
      rw [fastExecutionWindow_of_last hfast hlast, fastExecutionWindow_of_last hfast' hlast,
        hwindow p.fast, hwindow p'.fast, h.agree _ hend]

/-- The timeframe of the bars a signal is executed on is that of the mode. -/
theorem AdmittedInputs.executionTimeframe_eq (h : AdmittedInputs args p) (hbar : bar ∈ p.fast) :
    p.executionTimeframe = some bar.timeframe := by
  rw [h.timeframe]
  cases hfast : p.fast with
  | nil =>
    rw [hfast] at hbar
    exact absurd hbar (by simp)
  | cons first rest =>
    have hfirst : first ∈ p.fast := hfast ▸ List.mem_cons_self ..
    rw [List.head?_cons, Option.map_some, h.fast.timeframe first hfirst bar hbar]

/-- A signal that is executed on some bar has the same mode in a longer history. -/
theorem Extends.executionTimeframe_eq (h : Extends args p p') (hhorizon : 0 ≤ args.horizon)
    (hindex : index ∈ args.indices p.closed.length)
    (hne : executionBars args p index signalBar ≠ []) :
    p.executionTimeframe = p'.executionTimeframe := by
  obtain ⟨bar, hbar⟩ := List.exists_mem_of_ne_nil _ hne
  have hbar' := hbar
  rw [h.executionBars_eq hhorizon hindex] at hbar'
  obtain ⟨hfast, -⟩ | ⟨hmem, -⟩ := mem_executionBars hbar
  · rw [h.admitted.timeframe, h.admitted'.timeframe, hfast, h.mode.mp hfast]
  · obtain ⟨hfast', -⟩ | ⟨hmem', -⟩ := mem_executionBars hbar'
    · rw [h.mode.mpr hfast'] at hmem
      exact absurd hmem (by simp)
    · rw [h.admitted.executionTimeframe_eq hmem, h.admitted'.executionTimeframe_eq hmem']

/-- A simulated trade, with features that are of the mode of a run. -/
theorem Extends.simulateTrade_eq (h : Extends args p p') (hhorizon : 0 ≤ args.horizon)
    (hindex : index ∈ args.indices p.closed.length) (plan : TradePlan) (signalBar : Bar)
    {features' : TradeFeatures}
    (hfeatures : p.executionTimeframe = p'.executionTimeframe → features = features') :
    simulateTrade plan signalBar (executionBars args p index signalBar) features =
      simulateTrade plan signalBar (executionBars args p' index signalBar)
        features' := by
  rw [← h.executionBars_eq hhorizon hindex]
  by_cases hne : executionBars args p index signalBar = []
  · rw [hne, simulateTrade_nil, simulateTrade_nil]
  · rw [hfeatures (h.executionTimeframe_eq hhorizon hindex hne)]

/-- A window is analysed the same way in a longer history. -/
theorem Extends.analyzeIndex_eq (h : Extends args p p') (analyze : WindowAnalysis)
    (hhorizon : 0 ≤ args.horizon) (hindex : index ∈ args.indices p.closed.length) :
    analyzeIndex analyze args p index = analyzeIndex analyze args p' index := by
  obtain ⟨-, hroom⟩ := mem_indices hindex
  have hlt : index < p.closed.length := by omega
  have hbar : p.closed[index]? = p'.closed[index]? := by
    obtain ⟨more, hmore⟩ := h.closed
    rw [← hmore, List.getElem?_append_left hlt]
  have hwindow : args.window p.closed index = args.window p'.closed index := by
    rw [BacktestArgs.window, BacktestArgs.window]
    refine pythonSlice_of_prefix h.closed ?_ (by omega) (by omega)
    split
    · exact le_refl 0
    · split
      · exact le_refl 0
      · exact le_max_left ..
  unfold analyzeIndex
  rw [← hbar, ← hwindow]

/-- A pass of the single run is the same in a longer history. -/
theorem Extends.backtestPass_eq (h : Extends args p p') (analyze : WindowAnalysis)
    (options : BacktestOptions) (hhorizon : 0 ≤ args.horizon)
    (hindex : index ∈ args.indices p.closed.length) (s : BacktestState) :
    backtestPass analyze args options p s index =
      backtestPass analyze args options p' s index := by
  obtain ⟨hrows, hlevels⟩ := h.ticks (ne_nil_of_mem_indices hhorizon hindex)
  have htrade : ∀ plan signalBar,
      simulateTrade plan signalBar (executionBars args p index signalBar)
        (signalFeatures options p plan signalBar) =
      simulateTrade plan signalBar (executionBars args p' index signalBar)
        (signalFeatures options p' plan signalBar) := by
    intro plan signalBar
    refine h.simulateTrade_eq hhorizon hindex plan signalBar fun htimeframe => ?_
    rw [signalFeatures, signalFeatures, hrows, hlevels, htimeframe]
  unfold backtestPass
  rw [h.analyzeIndex_eq analyze hhorizon hindex]
  simp only [htrade]

/-- So is a pass of the batch. -/
theorem Extends.variantPass_eq (h : Extends args p p') (hhorizon : 0 ≤ args.horizon)
    (hindex : index ∈ args.indices p.closed.length) (variant : BacktestVariant)
    (analysed : Bar × Snapshot) (s : BacktestState) :
    variantPass args p variant analysed index s =
      variantPass args p' variant analysed index s := by
  obtain ⟨hrows, hlevels⟩ := h.ticks (ne_nil_of_mem_indices hhorizon hindex)
  have htrade : ∀ plan signalBar,
      simulateTrade plan signalBar (executionBars args p index signalBar)
        (variantFeaturePayload p plan signalBar variant.mode) =
      simulateTrade plan signalBar (executionBars args p' index signalBar)
        (variantFeaturePayload p' plan signalBar variant.mode) := by
    intro plan signalBar
    refine h.simulateTrade_eq hhorizon hindex plan signalBar fun htimeframe => ?_
    rw [variantFeaturePayload, variantFeaturePayload, hrows, hlevels, htimeframe]
  unfold variantPass
  simp only [htrade]

/-! ### Runs -/

variable {analyze : WindowAnalysis}

theorem getElem?_of_analyzeIndex
    {snapshot : Snapshot} (h : analyzeIndex analyze args p index = .ok (signalBar, snapshot)) :
    p.closed[index]? = some signalBar := by
  unfold analyzeIndex at h
  split at h
  case h_1 => exact absurd h nofun
  case h_2 bar hbar =>
    obtain ⟨_, -, hpair⟩ := map_eq_ok.mp h
    rw [hbar, (Prod.mk.inj hpair).1]

/-- The trades go on from `trades`, each new one within the horizon of its signal. -/
def TradesFrom (args : BacktestArgs) (p : BacktestInputs) (trades trades' : List BacktestTrade) :
    Prop :=
  ∃ more, trades' = trades ++ more ∧ ∀ trade ∈ more, TradedWithin args p trade

theorem TradesFrom.refl (trades : List BacktestTrade) : TradesFrom args p trades trades :=
  ⟨[], (List.append_nil _).symm, by simp⟩

theorem TradesFrom.trans {t u v : List BacktestTrade} (h : TradesFrom args p t u)
    (h' : TradesFrom args p u v) : TradesFrom args p t v := by
  obtain ⟨more, rfl, hmore⟩ := h
  obtain ⟨more', rfl, hmore'⟩ := h'
  refine ⟨more ++ more', List.append_assoc .., fun trade htrade => ?_⟩
  obtain htrade | htrade := List.mem_append.mp htrade
  · exact hmore trade htrade
  · exact hmore' trade htrade

variable {s t : BacktestState}

/-- Recording a signal adds its trade, if there is one. -/
theorem tradesFrom_recordSignal {plan : TradePlan} (hclosed : Series p.closed)
    (hhorizon : 0 ≤ args.horizon) (hindex : index ∈ args.indices p.closed.length)
    (hsignal : p.closed[index]? = some signalBar)
    (h : recordSignal s plan signalBar (simulateTrade plan signalBar
      (executionBars args p index signalBar) features) = some t) :
    TradesFrom args p s.trades t.trades := by
  simp only [recordSignal] at h
  split at h
  case isTrue => exact absurd h nofun
  case isFalse =>
    cases h
    refine ⟨_, rfl, fun trade htrade => ?_⟩
    exact tradedWithin_of_simulated hclosed hhorizon hindex hsignal (Option.mem_toList.mp htrade)

variable {options : BacktestOptions}

theorem tradesFrom_backtestPass (hclosed : Series p.closed) (hhorizon : 0 ≤ args.horizon)
    (hindex : index ∈ args.indices p.closed.length)
    (h : backtestPass analyze args options p s index = .ok (some t)) :
    TradesFrom args p s.trades t.trades := by
  obtain ⟨⟨signalBar, snapshot⟩, hanalyzed, h⟩ := bind_eq_ok.mp h
  obtain ⟨plan, -, h⟩ := bind_eq_ok.mp h
  cases plan with
  | none => exact absurd (pure_eq_ok.mp h) nofun
  | some plan =>
    simp only at h
    split at h
    case isTrue => exact absurd (pure_eq_ok.mp h) nofun
    case isFalse =>
      split at h
      case isTrue => exact absurd (pure_eq_ok.mp h) nofun
      case isFalse =>
        exact tradesFrom_recordSignal hclosed hhorizon hindex (getElem?_of_analyzeIndex hanalyzed)
          (pure_eq_ok.mp h)

/-- The body of one variant: its window is analysed, then its plan is traded. -/
theorem tradesFrom_variantPass {member : String × BacktestVariant}
    (hclosed : Series p.closed) (hhorizon : 0 ≤ args.horizon)
    (hindex : index ∈ args.indices p.closed.length) (h : aloneBody (analyzeIndex analyze args p)
      (fun member : String × BacktestVariant => variantPass args p member.2) member s index =
        .ok t) : TradesFrom args p s.trades t.trades := by
  obtain ⟨⟨signalBar, snapshot⟩, hanalyzed, h⟩ := bind_eq_ok.mp h
  obtain ⟨plan, -, h⟩ := bind_eq_ok.mp h
  cases plan with
  | none => exact pure_eq_ok.mp h ▸ .refl _
  | some plan =>
    obtain rfl := pure_eq_ok.mp h
    cases hrecord : recordSignal s plan signalBar (simulateTrade plan signalBar
        (executionBars args p index signalBar)
        (variantFeaturePayload p plan signalBar member.2.mode)) with
    | none => exact .refl _
    | some t =>
      exact tradesFrom_recordSignal hclosed hhorizon hindex (getElem?_of_analyzeIndex hanalyzed)
        hrecord

/-- A walk of the single run over some of its windows. -/
theorem tradesFrom_runAfter {l : List ℕ} (hclosed : Series p.closed) (hhorizon : 0 ≤ args.horizon)
    (hl : ∀ index ∈ l, index ∈ args.indices p.closed.length)
    (h : runAfter args.limitReached (backtestPass analyze args options p) l s = .ok t) :
    TradesFrom args p s.trades t.trades := by
  have hpass : ∀ index ∈ l, ∀ u v : BacktestState, TradesFrom args p s.trades u.trades →
      backtestPass analyze args options p u index = .ok (some v) →
      TradesFrom args p s.trades v.trades := fun index hindex u v hu huv =>
    hu.trans (tradesFrom_backtestPass hclosed hhorizon (hl index hindex) huv)
  exact runAfter_induct (P := fun u => TradesFrom args p s.trades u.trades) hpass (.refl _) h

/-- A walk of one variant over some of its windows. -/
theorem tradesFrom_runUntil {member : String × BacktestVariant}
    {l : List ℕ} (hclosed : Series p.closed) (hhorizon : 0 ≤ args.horizon)
    (hl : ∀ index ∈ l, index ∈ args.indices p.closed.length)
    (h : runUntil args.limitReached (aloneBody (analyzeIndex analyze args p)
      (fun member : String × BacktestVariant => variantPass args p member.2) member) l s =
        .ok t) : TradesFrom args p s.trades t.trades := by
  have hpass : ∀ index ∈ l, ∀ u v : BacktestState, TradesFrom args p s.trades u.trades →
      aloneBody (analyzeIndex analyze args p)
        (fun member : String × BacktestVariant => variantPass args p member.2) member u index =
          .ok v → TradesFrom args p s.trades v.trades := fun index hindex u v hu huv =>
    hu.trans (tradesFrom_variantPass hclosed hhorizon (hl index hindex) huv)
  exact runUntil_induct (P := fun u => TradesFrom args p s.trades u.trades) hpass (.refl _) h

/-- The single run on a longer history starts with the trades of the shorter one. -/
theorem Extends.trades_single (h : Extends args p p') (analyze : WindowAnalysis)
    (options : BacktestOptions) (hhorizon : 0 ≤ args.horizon) {s' : BacktestState}
    (hs : runAfter args.limitReached (backtestPass analyze args options p)
      (args.indices p.closed.length) .initial = .ok s)
    (hs' : runAfter args.limitReached (backtestPass analyze args options p')
      (args.indices p'.closed.length) .initial = .ok s') : s.trades <+: s'.trades := by
  obtain ⟨rest, hrest⟩ : args.indices p.closed.length <+: args.indices p'.closed.length :=
    indices_prefix h.closed.length_le
  have hmem : ∀ index ∈ rest, index ∈ args.indices p'.closed.length := fun index hindex =>
    hrest ▸ List.mem_append_right _ hindex
  rw [← hrest] at hs'
  obtain ⟨u, hu, hend⟩ := exists_runAfter_of_append hs'
  rw [← runAfter_congr fun index hindex t => h.backtestPass_eq analyze options hhorizon hindex t,
    hs] at hu
  cases hu
  obtain rfl | hgoesOn := hend
  · exact List.prefix_refl _
  · obtain ⟨more, hmore, -⟩ := tradesFrom_runAfter h.admitted'.closed hhorizon hmem hgoesOn
    exact ⟨more, hmore.symm⟩

/-- So does one variant of a batch. -/
theorem Extends.trades_variant (h : Extends args p p') (analyze : WindowAnalysis)
    (hhorizon : 0 ≤ args.horizon) {member state state' : (String × BacktestVariant) × BacktestState}
    (hs : Alone args.limitReached (analyzeIndex analyze args p)
      (fun member : String × BacktestVariant => variantPass args p member.2)
      (args.indices p.closed.length) member state)
    (hs' : Alone args.limitReached (analyzeIndex analyze args p')
      (fun member : String × BacktestVariant => variantPass args p' member.2)
      (args.indices p'.closed.length) member state') :
    state.1 = state'.1 ∧ state.2.trades <+: state'.2.trades := by
  obtain ⟨hmember, hs⟩ := hs
  obtain ⟨hmember', hs'⟩ := hs'
  refine ⟨hmember.symm.trans hmember', ?_⟩
  obtain ⟨rest, hrest⟩ : args.indices p.closed.length <+: args.indices p'.closed.length :=
    indices_prefix h.closed.length_le
  have hmem : ∀ index ∈ rest, index ∈ args.indices p'.closed.length := fun index hindex =>
    hrest ▸ List.mem_append_right _ hindex
  have hbody : ∀ index ∈ args.indices p.closed.length, ∀ t : BacktestState,
      aloneBody (analyzeIndex analyze args p)
        (fun member : String × BacktestVariant => variantPass args p member.2) member.1 t index =
      aloneBody (analyzeIndex analyze args p')
        (fun member : String × BacktestVariant => variantPass args p' member.2) member.1 t
        index := by
    intro index hindex t
    rw [aloneBody, aloneBody, h.analyzeIndex_eq analyze hhorizon hindex]
    exact congrArg _ (funext fun analysed => h.variantPass_eq hhorizon hindex _ analysed t)
  rw [← hrest, runUntil_append, ← runUntil_congr hbody, hs] at hs'
  obtain ⟨more, hmore, -⟩ := tradesFrom_runUntil h.admitted'.closed hhorizon hmem hs'
  exact ⟨more, hmore.symm⟩

/-- The trades of a run are within the horizons of their signals. -/
theorem tradedWithin_of_tradesFrom (h : TradesFrom args p BacktestState.initial.trades s.trades) :
    ∀ trade ∈ s.trades, TradedWithin args p trade := by
  obtain ⟨more, hmore, hwithin⟩ := h
  rw [hmore]
  exact hwithin

/-- What a batch ran on its own: the states of its variants and the inputs. -/
theorem states_of_runBacktestVariants {variants : List BacktestVariant}
    {results : List (String × BacktestResult)}
    (h : runBacktestVariants analyze args variants bars fastEntryBars = .ok results) :
    ∃ p states, prepareBacktest args bars fastEntryBars = .ok p ∧
      List.Forall₂ (Alone args.limitReached (analyzeIndex analyze args p)
          (fun member : String × BacktestVariant => variantPass args p member.2)
          (args.indices p.closed.length))
        ((variantStates variants).entries.map fun variant => (variant, .initial)) states ∧
      results = states.map fun state =>
        (state.1.1, summarizeTrades state.2.trades p.executionTimeframe) := by
  obtain ⟨p, hp, h⟩ := bind_eq_ok.mp h
  obtain ⟨states, hstates, h⟩ := bind_eq_ok.mp h
  exact ⟨p, states, hp, runTogether_eq_ok_iff.mp hstates, (pure_eq_ok.mp h).symm⟩

theorem state_of_runBacktest {result : BacktestResult}
    (h : runBacktest analyze args options bars fastEntryBars = .ok result) :
    ∃ p s, prepareBacktest args bars fastEntryBars = .ok p ∧
      runAfter args.limitReached (backtestPass analyze args options p)
        (args.indices p.closed.length) .initial = .ok s ∧ result.trades = s.trades := by
  obtain ⟨p, hp, h⟩ := bind_eq_ok.mp h
  obtain ⟨s, hs, h⟩ := bind_eq_ok.mp h
  exact ⟨p, s, hp, hs, (congrArg BacktestResult.trades (pure_eq_ok.mp h)).symm⟩

/-- Neither run looks ahead, for a horizon that is not negative and runs in one mode of execution:
on a longer history, with lower-timeframe bars that are the same up to the end of the shorter one,
it has the same trades first, and each trade is within the horizon of its signal. -/
theorem backtests_causal (analyze : WindowAnalysis) (args : BacktestArgs)
    (options : BacktestOptions) (variants : List BacktestVariant) (bars later : List Bar)
    (fastEntryBars fastEntryBars' : Option (List Bar)) (hhorizon : 0 ≤ args.horizon)
    (hmode : fastEntryBars.getD [] = [] ↔ fastEntryBars'.getD [] = [])
    (hagree : AgreeUpTo (bars.filter (!isProvisionalBar ·)) (fastEntryBars.getD [])
      (fastEntryBars'.getD [])) :
    (∀ result result', runBacktest analyze args options bars fastEntryBars = .ok result →
      runBacktest analyze args options (bars ++ later) fastEntryBars' = .ok result' →
      result.trades <+: result'.trades) ∧
    (∀ results results', runBacktestVariants analyze args variants bars fastEntryBars = .ok results →
      runBacktestVariants analyze args variants (bars ++ later) fastEntryBars' = .ok results' →
      List.Forall₂ (fun entry entry' => entry.1 = entry'.1 ∧ entry.2.trades <+: entry'.2.trades)
        results results') ∧
    ∀ p, prepareBacktest args bars fastEntryBars = .ok p →
      (∀ result, runBacktest analyze args options bars fastEntryBars = .ok result →
        ∀ trade ∈ result.trades, TradedWithin args p trade) ∧
      ∀ results, runBacktestVariants analyze args variants bars fastEntryBars = .ok results →
        ∀ entry ∈ results, ∀ trade ∈ entry.2.trades, TradedWithin args p trade := by
  refine ⟨fun result result' h h' => ?_, fun results results' h h' => ?_, fun p hp => ⟨?_, ?_⟩⟩
  · obtain ⟨p, s, hp, hs, hresult⟩ := state_of_runBacktest h
    obtain ⟨p', s', hp', hs', hresult'⟩ := state_of_runBacktest h'
    have hextends : Extends args p p' := extends_of_prepared hp hp' hmode hagree
    rw [hresult, hresult']
    exact hextends.trades_single analyze options hhorizon hs hs'
  · obtain ⟨p, states, hp, hstates, rfl⟩ := states_of_runBacktestVariants h
    obtain ⟨p', states', hp', hstates', rfl⟩ := states_of_runBacktestVariants h'
    have hextends : Extends args p p' := extends_of_prepared hp hp' hmode hagree
    rw [List.forall₂_map_left_iff, List.forall₂_map_right_iff]
    have hboth := exists_forall₂_iff.mp ⟨_, hstates.flip, hstates'⟩
    refine hboth.imp fun state state' hmember => ?_
    obtain ⟨member, hs, hs'⟩ := hmember
    obtain ⟨hid, htrades⟩ := hextends.trades_variant analyze hhorizon hs hs'
    have hvariant : state.1.1 = state'.1.1 := congrArg Prod.fst hid
    exact ⟨hvariant, htrades⟩
  · intro result h
    obtain ⟨q, s, hq, hs, hresult⟩ := state_of_runBacktest h
    cases (hp.symm.trans hq)
    obtain ⟨hadmitted, -⟩ := admitted_of_prepared hp
    rw [hresult]
    exact tradedWithin_of_tradesFrom
      (tradesFrom_runAfter hadmitted.closed hhorizon (fun _ hindex => hindex) hs)
  · intro results h entry hentry
    obtain ⟨q, states, hq, hstates, rfl⟩ := states_of_runBacktestVariants h
    cases (hp.symm.trans hq)
    obtain ⟨hadmitted, -⟩ := admitted_of_prepared hp
    obtain ⟨state, hstate, rfl⟩ := List.mem_map.mp hentry
    obtain ⟨member, hmember, -, hs⟩ := exists_of_forall₂_of_mem hstates.flip hstate
    obtain ⟨variant, -, rfl⟩ := List.mem_map.mp hmember
    exact tradedWithin_of_tradesFrom
      (tradesFrom_runUntil hadmitted.closed hhorizon (fun _ hindex => hindex) hs)

theorem backtests_causal_sample :
    (0 ≤ (sampleArgs none).horizon ∧ ((none : Option (List Bar)).getD [] = [] ↔
      (none : Option (List Bar)).getD [] = [])) ∧
    ∀ result result', runBacktest sampleAnalysis (sampleArgs none) sampleVariant.options
        sampleBars none = .ok result →
      runBacktest sampleAnalysis (sampleArgs none) sampleVariant.options
        (sampleBars ++ [sampleBar .m5 30, sampleBar .m5 35]) none = .ok result' →
      result.trades <+: result'.trades :=
  have hhorizon : 0 ≤ (sampleArgs none).horizon := by decide
  ⟨⟨hhorizon, Iff.rfl⟩,
    (backtests_causal sampleAnalysis (sampleArgs none) sampleVariant.options [sampleVariant]
      sampleBars [sampleBar .m5 30, sampleBar .m5 35] none none hhorizon Iff.rfl
      fun _ _ => rfl).1⟩

/-! ### What the horizon and the mode of execution are needed for -/

/-- Two runs whose trades differ in some respect do not extend each other. -/
theorem not_prefix_of_projection {α : Type} {f : BacktestTrade → α} {l l' : List α}
    {run run' : Except BacktestError BacktestResult}
    (h : run.toOption.map (fun result => result.trades.map f) = some l)
    (h' : run'.toOption.map (fun result => result.trades.map f) = some l') (hnot : ¬ l <+: l') :
    ¬ ∀ result result', run = .ok result → run' = .ok result' →
      result.trades <+: result'.trades := by
  intro hinit
  cases run with
  | error e => exact absurd h nofun
  | ok result =>
    cases run' with
    | error e => exact absurd h' nofun
    | ok result' =>
      cases h
      cases h'
      exact hnot ((hinit result result' rfl rfl).map f)

/-- Six more bars of five minutes. -/
def sampleLater : List Bar := [30, 35, 40, 45, 50, 55].map (sampleBar .m5)

/-- One-minute bars after the end of the sample history. -/
def sampleFast : List Bar := [40, 41].map (sampleBar .m1)

def negativeHorizon : BacktestArgs := { sampleArgs (some 1) with horizon := -4 }

/-- Bars of an hour, the third of them cut short after thirty minutes. -/
def partialBars : List Bar := [0, 60, 120, 150, 210].map (sampleBar .m60)

/-- Three ways in which the trades depend on what is not yet observed: lower-timeframe bars that are
given to the longer run only; a negative horizon, whose slice counts from the end of the history;
and a parent bar that starts before its predecessor is taken to be complete. -/
theorem lookahead_cases :
    (AgreeUpTo (sampleBars.filter (!isProvisionalBar ·)) [] sampleFast ∧
      ¬ ∀ result result', runBacktest sampleAnalysis (sampleArgs none) sampleVariant.options
          sampleBars none = .ok result →
        runBacktest sampleAnalysis (sampleArgs none) sampleVariant.options
          (sampleBars ++ sampleLater) (some sampleFast) = .ok result' →
        result.trades <+: result'.trades) ∧
    (¬ ∀ result result', runBacktest sampleAnalysis negativeHorizon sampleVariant.options
          sampleBars none = .ok result →
        runBacktest sampleAnalysis negativeHorizon sampleVariant.options
          (sampleBars ++ sampleLater) none = .ok result' →
        result.trades <+: result'.trades) ∧
    ((sampleArgs none).indices partialBars.length = [2] ∧
      partialBars[2]?.map signalBarObservedAt = some (180 * microsecondsPerMinute) ∧
      (runBacktest sampleAnalysis (sampleArgs none) sampleVariant.options partialBars
          none).toOption.map (fun result => result.trades.map BacktestTrade.openedAt) =
        some [150 * microsecondsPerMinute]) := by
  refine ⟨⟨?_, ?_⟩, ?_, ?_, ?_, ?_⟩
  · have hagree : ∀ last ∈ (sampleBars.filter (!isProvisionalBar ·)).getLast?,
        ([] : List Bar) = sampleFast.filter (fun bar =>
          decide (signalBarObservedAt bar ≤ signalBarObservedAt last)) := by decide +kernel
    exact fun last hlast => hagree last hlast
  · have hshort : (runBacktest sampleAnalysis (sampleArgs none) sampleVariant.options sampleBars
        none).toOption.map (fun result => result.trades.map BacktestTrade.openedAt) =
        some [15 * microsecondsPerMinute, 20 * microsecondsPerMinute] := by decide +kernel
    have hlong : (runBacktest sampleAnalysis (sampleArgs none) sampleVariant.options
        (sampleBars ++ sampleLater) (some sampleFast)).toOption.map (fun result =>
          result.trades.map BacktestTrade.openedAt) =
        some [40 * microsecondsPerMinute, 40 * microsecondsPerMinute] := by decide +kernel
    exact not_prefix_of_projection hshort hlong (by decide)
  · have hshort : (runBacktest sampleAnalysis negativeHorizon sampleVariant.options sampleBars
        none).toOption.map (fun result => result.trades.map BacktestTrade.closedAt) =
        some [some (20 * microsecondsPerMinute)] := by decide +kernel
    have hlong : (runBacktest sampleAnalysis negativeHorizon sampleVariant.options
        (sampleBars ++ sampleLater) none).toOption.map (fun result =>
          result.trades.map BacktestTrade.closedAt) =
        some [some (50 * microsecondsPerMinute)] := by decide +kernel
    exact not_prefix_of_projection hshort hlong (by decide)
  · decide +kernel
  · decide +kernel
  · decide +kernel

end AefTerminal
