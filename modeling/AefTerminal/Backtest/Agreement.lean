import AefTerminal.Backtest.Run

/-!
# Batch and single backtests agree

A batch analyses each window once for all its variants. Run on its own, a variant would have it
analysed again, with the same snapshot, so the batch should return for each variant what a single
run returns.

The passes are the same: the feature payloads are written differently, but they differ only for a
plan that does not name the multiplier it was widened by, and only a multiplier of one leaves a
plan like that. What is different is the limit. The single walk tests it after a signal was
recorded, the batch before a window is analysed, which is the same while the limit is one or more.
A limit of zero or less ends the batch before the first window and the single walk after its first
signal.

## Main definitions

* `VariantsAgree`: the batch returns what the single runs return, and raises what one of them does
* `FirstPlanUntouched`: the first plan of a walk is not traded

## Main results

* `variants_agree_iff`
-/

namespace AefTerminal

open Foundation

/-- The single run of a variant, without filters. -/
def BacktestVariant.options (variant : BacktestVariant) : BacktestOptions where
  invertSources := variant.invertSources
  edgeBlocks := []
  stopMultiplier := variant.multiplier
  targetMode := variant.mode
  includeSources := []

/-- For each variant the batch returns what a single run returns. What the batch raises, the
single run of some variant raises too. -/
structure VariantsAgree (analyze : WindowAnalysis) (args : BacktestArgs)
    (variants : List BacktestVariant) (bars : List Bar) (fastEntryBars : Option (List Bar)) :
    Prop where
  results : ∀ results, runBacktestVariants analyze args variants bars fastEntryBars = .ok results →
    List.Forall₂ (fun variant entry => entry.1 = variant.variantId ∧
      runBacktest analyze args variant.options bars fastEntryBars = .ok entry.2) variants results
  raises : ∀ e, runBacktestVariants analyze args variants bars fastEntryBars = .error e →
    variants ≠ [] → ∃ variant ∈ variants,
      runBacktest analyze args variant.options bars fastEntryBars = .error e

/-- No window raises up to the first one with a plan, and no execution bar of that one touches the
entry of the plan. -/
def FirstPlanUntouched (analyze : WindowAnalysis) (args : BacktestArgs) (p : BacktestInputs)
    (variant : BacktestVariant) : List ℕ → Prop
  | [] => True
  | index :: rest =>
    ∃ signalBar snapshot plan, analyzeIndex analyze args p index = .ok (signalBar, snapshot) ∧
      tradePlanFromSnapshot snapshot (normalizedSourceSet variant.invertSources)
        variant.multiplier variant.mode = .ok plan ∧
      match plan with
      | none => FirstPlanUntouched analyze args p variant rest
      | some plan => ∀ bar ∈ executionBars args p index signalBar, entryHit bar plan.entry = false

variable {analyze : WindowAnalysis} {args : BacktestArgs} {p : BacktestInputs}
  {variant : BacktestVariant} {variants : List BacktestVariant} {bars : List Bar}
  {fastEntryBars : Option (List Bar)}

/-! ### One pass -/

theorem BacktestVariant.multiplier_ne_zero (variant : BacktestVariant) :
    variant.multiplier ≠ 0 := by
  rw [BacktestVariant.multiplier]
  split
  · exact one_ne_zero
  · split
    case isTrue => exact one_ne_zero
    case isFalse h => exact h

variable {snapshot : Snapshot} {plan : TradePlan}

/-- The two feature payloads of a variant's plan are the same. -/
theorem signalFeatures_options {sources : List String}
    (hplan : tradePlanFromSnapshot snapshot sources variant.multiplier variant.mode =
      .ok (some plan)) (signalBar : Bar) :
    signalFeatures variant.options p plan signalBar =
      variantFeaturePayload p plan signalBar variant.mode := by
  have hmultiplier : plan.shownStopMultiplier variant.multiplier = plan.shownStopMultiplier 1 := by
    rw [TradePlan.shownStopMultiplier, TradePlan.shownStopMultiplier,
      tradePlanFromSnapshot_stopMultiplier hplan]
    by_cases hone : variant.multiplier = 1
    · rw [if_pos hone]
      exact hone
    · simp only [if_neg hone, if_neg variant.multiplier_ne_zero]
  simp only [signalFeatures, variantFeaturePayload, BacktestVariant.options, hmultiplier]

/-- The pass of a single run, for the options of a variant. -/
theorem backtestPass_options (s : BacktestState) (index : ℕ) :
    backtestPass analyze args variant.options p s index =
      (do
        let (signalBar, snapshot) ← analyzeIndex analyze args p index
        match ← tradePlanFromSnapshot snapshot (normalizedSourceSet variant.invertSources)
            variant.multiplier variant.mode with
        | none => return none
        | some plan =>
          let trade := simulateTrade plan signalBar (executionBars args p index signalBar)
            (variantFeaturePayload p plan signalBar variant.mode)
          return recordSignal s plan signalBar trade) := by
  rw [backtestPass]
  cases analyzeIndex analyze args p index with
  | error e => rfl
  | ok analysed =>
    obtain ⟨signalBar, snapshot⟩ := analysed
    change (tradePlanFromSnapshot snapshot (normalizedSourceSet variant.invertSources)
      variant.multiplier variant.mode >>= _) = (tradePlanFromSnapshot snapshot
        (normalizedSourceSet variant.invertSources) variant.multiplier variant.mode >>= _)
    cases hplan : tradePlanFromSnapshot snapshot (normalizedSourceSet variant.invertSources)
        variant.multiplier variant.mode with
    | error e => rfl
    | ok plan =>
      cases plan with
      | none => rfl
      | some plan =>
        have hincluded : excluded plan
            (normalizedSourceAllowlist variant.options.includeSources) = false := rfl
        have hfeatures : signalFeatures variant.options p plan signalBar =
            variantFeaturePayload p plan signalBar variant.mode := signalFeatures_options hplan _
        change (if (false : Bool) = true then
            (Except.ok none : Except BacktestError (Option BacktestState))
          else if excluded plan (normalizedSourceAllowlist variant.options.includeSources) then
            .ok none
          else .ok (recordSignal s plan signalBar (simulateTrade plan signalBar
            (executionBars args p index signalBar)
            (signalFeatures variant.options p plan signalBar)))) = _
        rw [if_neg (by simp), hincluded, if_neg (by simp), hfeatures]
        rfl

/-- A pass of the single run is a pass of the batch. -/
theorem unskipped_backtestPass (id : String) :
    unskipped (backtestPass analyze args variant.options p) =
      aloneBody (analyzeIndex analyze args p)
        (fun member : String × BacktestVariant => variantPass args p member.2) (id, variant) := by
  funext s index
  rw [unskipped, backtestPass_options, aloneBody]
  cases analyzeIndex analyze args p index with
  | error e => rfl
  | ok analysed =>
    obtain ⟨signalBar, snapshot⟩ := analysed
    change (fun t : Option BacktestState => t.getD s) <$> (tradePlanFromSnapshot snapshot
        (normalizedSourceSet variant.invertSources) variant.multiplier variant.mode >>= _) =
      variantPass args p variant (signalBar, snapshot) index s
    rw [variantPass]
    cases tradePlanFromSnapshot snapshot (normalizedSourceSet variant.invertSources)
        variant.multiplier variant.mode with
    | error e => rfl
    | ok plan =>
      cases plan with
      | none => rfl
      | some plan => rfl

/-! ### The walk -/

/-- `states` in the order of the variants. -/
theorem variantStates_entries (hids : (variants.map BacktestVariant.variantId).Nodup)
    (hne : ∀ variant ∈ variants, variant.variantId ≠ "") :
    (variantStates variants).entries = variants.map fun variant => (variant.variantId, variant) := by
  induction variants using List.reverseRecOn with
  | nil => rfl
  | append_singleton init last ih =>
    rw [List.map_append, List.nodup_append] at hids
    have hinit := ih hids.1 fun variant h => hne variant (List.mem_append_left _ h)
    have hkeys : (variantStates init).keys = init.map BacktestVariant.variantId := by
      rw [Dict.keys, hinit, List.map_map]
      rfl
    have hnew : last.variantId ∉ (variantStates init).keys := by
      rw [hkeys]
      exact fun hmem => hids.2.2 _ hmem _ (List.mem_singleton_self _) rfl
    have hlast : last.variantId ≠ "" := hne last (by simp)
    rw [variantStates, List.foldl_append, List.foldl_cons, List.foldl_nil, if_neg hlast,
      ← variantStates, Dict.entries_insert_of_notMem hnew, hinit, List.map_append]
    rfl

/-- Whether the limit is reached before there is a trade. -/
theorem limitReached_initial :
    args.limitReached .initial = true ↔ ∃ limit ∈ args.maxSignals, limit ≤ 0 := by
  rw [BacktestArgs.limitReached]
  cases args.maxSignals with
  | none => simp
  | some limit => simp [BacktestState.initial]

/-- Once the limit is zero or less, it is always reached. -/
theorem limitReached_of_initial (h : args.limitReached .initial = true) (s : BacktestState) :
    args.limitReached s = true := by
  obtain ⟨limit, hlimit, hle⟩ := limitReached_initial.mp h
  rw [BacktestArgs.limitReached, hlimit]
  simp only [decide_eq_true_eq]
  omega

variable {signalBar : Bar}

theorem simulateTrade_eq_none_iff {bars : List Bar} {features : TradeFeatures} :
    simulateTrade plan signalBar bars features = none ↔
      ∀ bar ∈ bars, entryHit bar plan.entry = false := by
  rw [simulateTrade, if_neg (not_le.mpr plan.risk_pos), Option.map_eq_none_iff]
  induction bars with
  | nil => simp [simulateBars]
  | cons bar rest ih =>
    rw [simulateBars]
    cases hbar : entryHit bar plan.entry with
    | true => simp [hbar]
    | false => simp [hbar, ih]

variable {index : ℕ}

/-- A pass with a plan, from the start of a walk. -/
theorem backtestPass_initial
    (hanalyzed : analyzeIndex analyze args p index = .ok (signalBar, snapshot))
    (hplan : tradePlanFromSnapshot snapshot (normalizedSourceSet variant.invertSources)
      variant.multiplier variant.mode = .ok (some plan)) :
    ∃ s, backtestPass analyze args variant.options p .initial index = .ok (some s) ∧
      (s.trades = [] ↔
        ∀ bar ∈ executionBars args p index signalBar, entryHit bar plan.entry = false) := by
  let trade := simulateTrade plan signalBar (executionBars args p index signalBar)
    (variantFeaturePayload p plan signalBar variant.mode)
  refine ⟨⟨trade.toList, [(plan.setup, plan.side, signalBar.ts)]⟩, ?_, ?_⟩
  · rw [backtestPass_options, hanalyzed]
    change (tradePlanFromSnapshot snapshot (normalizedSourceSet variant.invertSources)
      variant.multiplier variant.mode >>= _) = _
    rw [hplan]
    rfl
  · rw [← simulateTrade_eq_none_iff]
    exact Option.toList_eq_nil_iff

theorem backtestPass_of_none
    {s : BacktestState} (hanalyzed : analyzeIndex analyze args p index = .ok (signalBar, snapshot))
    (hplan : tradePlanFromSnapshot snapshot (normalizedSourceSet variant.invertSources)
      variant.multiplier variant.mode = .ok none) :
    backtestPass analyze args variant.options p s index = .ok none := by
  rw [backtestPass_options, hanalyzed]
  change (tradePlanFromSnapshot snapshot (normalizedSourceSet variant.invertSources)
    variant.multiplier variant.mode >>= _) = _
  rw [hplan]
  rfl

/-- A pass that returns got a snapshot and made of it what it could. -/
theorem analyzed_of_backtestPass {s : BacktestState} {r : Option BacktestState}
    (h : backtestPass analyze args variant.options p s index = .ok r) :
    ∃ signalBar snapshot plan, analyzeIndex analyze args p index = .ok (signalBar, snapshot) ∧
      tradePlanFromSnapshot snapshot (normalizedSourceSet variant.invertSources)
        variant.multiplier variant.mode = .ok plan := by
  rw [backtestPass_options] at h
  obtain ⟨⟨signalBar, snapshot⟩, hanalyzed, h⟩ := bind_eq_ok.mp h
  obtain ⟨plan, hplan, -⟩ := bind_eq_ok.mp h
  exact ⟨signalBar, snapshot, plan, hanalyzed, hplan⟩

/-- Where the limit is zero or less, a single run has no trade exactly when its first plan is not
traded. -/
theorem runAfter_untraded_iff (hlimit : args.limitReached .initial = true) {l : List ℕ} :
    (∃ s, runAfter args.limitReached (backtestPass analyze args variant.options p) l .initial =
      .ok s ∧ s.trades = []) ↔ FirstPlanUntouched analyze args p variant l := by
  induction l with
  | nil => exact ⟨fun _ => trivial, fun _ => ⟨.initial, rfl, rfl⟩⟩
  | cons index rest ih =>
    rw [runAfter, FirstPlanUntouched]
    constructor
    · rintro ⟨s, hs, htrades⟩
      obtain ⟨r, hpass, hs⟩ := bind_eq_ok.mp hs
      obtain ⟨signalBar, snapshot, plan, hanalyzed, hplan⟩ := analyzed_of_backtestPass hpass
      refine ⟨signalBar, snapshot, plan, hanalyzed, hplan, ?_⟩
      cases plan with
      | none =>
        cases (hpass.symm.trans (backtestPass_of_none hanalyzed hplan))
        exact ih.mp ⟨s, hs, htrades⟩
      | some plan =>
        obtain ⟨t, ht, huntouched⟩ := backtestPass_initial hanalyzed hplan
        cases (hpass.symm.trans ht)
        change (if args.limitReached t then Except.ok t else _) = _ at hs
        rw [if_pos (limitReached_of_initial hlimit t)] at hs
        cases hs
        exact huntouched.mp htrades
    · rintro ⟨signalBar, snapshot, plan, hanalyzed, hplan, h⟩
      cases plan with
      | none =>
        rw [backtestPass_of_none hanalyzed hplan]
        exact ih.mpr h
      | some plan =>
        obtain ⟨t, ht, huntouched⟩ := backtestPass_initial hanalyzed hplan
        refine ⟨t, ?_, huntouched.mpr h⟩
        rw [ht]
        exact if_pos (limitReached_of_initial hlimit t)

/-! ### Both runs -/

/-- What a single run makes of its prepared inputs. -/
theorem runBacktest_of_prepared {options : BacktestOptions}
    (hp : prepareBacktest args bars fastEntryBars = .ok p) :
    runBacktest analyze args options bars fastEntryBars =
      (fun s => summarizeTrades s.trades p.executionTimeframe) <$>
        runAfter args.limitReached (backtestPass analyze args options p)
          (args.indices p.closed.length) .initial := by
  rw [runBacktest, hp]
  rfl

theorem runBacktestVariants_of_prepared (hp : prepareBacktest args bars fastEntryBars = .ok p)
    (hids : (variants.map BacktestVariant.variantId).Nodup)
    (hne : ∀ variant ∈ variants, variant.variantId ≠ "") :
    runBacktestVariants analyze args variants bars fastEntryBars =
      (fun states => states.map fun state =>
        (state.1.1, summarizeTrades state.2.trades p.executionTimeframe)) <$>
        runTogether args.limitReached (analyzeIndex analyze args p)
          (fun member : String × BacktestVariant => variantPass args p member.2)
          (args.indices p.closed.length)
          (variants.map fun variant => ((variant.variantId, variant), .initial)) := by
  rw [runBacktestVariants, hp, variantStates_entries hids hne, List.map_map]
  rfl

/-- Inputs that are rejected are rejected by both. -/
theorem variantsAgree_of_rejected {e : BacktestError}
    (h : prepareBacktest args bars fastEntryBars = .error e) :
    VariantsAgree analyze args variants bars fastEntryBars where
  results results hresults := by
    rw [runBacktestVariants, h] at hresults
    exact absurd hresults nofun
  raises e' he' hvariants := by
    obtain ⟨variant, hvariant⟩ := List.exists_mem_of_ne_nil variants hvariants
    refine ⟨variant, hvariant, ?_⟩
    rw [runBacktestVariants, h] at he'
    rw [runBacktest, h]
    exact congrArg _ (Except.error.inj he')

/-- While the limit is not reached from the start, a single run is the variant on its own. -/
theorem runAfter_options (hlimit : args.limitReached .initial = false) (l : List ℕ) (id : String) :
    runAfter args.limitReached (backtestPass analyze args variant.options p) l .initial =
      runUntil args.limitReached (aloneBody (analyzeIndex analyze args p)
        (fun member : String × BacktestVariant => variantPass args p member.2) (id, variant))
        l .initial := by
  rw [runAfter_eq_runUntil hlimit, unskipped_backtestPass id]

theorem variantsAgree_of_limit (hp : prepareBacktest args bars fastEntryBars = .ok p)
    (hids : (variants.map BacktestVariant.variantId).Nodup)
    (hne : ∀ variant ∈ variants, variant.variantId ≠ "")
    (hlimit : args.limitReached .initial = false) :
    VariantsAgree analyze args variants bars fastEntryBars where
  results results hresults := by
    rw [runBacktestVariants_of_prepared hp hids hne] at hresults
    obtain ⟨states, hstates, rfl⟩ := map_eq_ok.mp hresults
    rw [runTogether_eq_ok_iff, List.forall₂_map_left_iff] at hstates
    rw [List.forall₂_map_right_iff]
    refine hstates.imp fun variant state hstate => ?_
    obtain ⟨hmember, hrun⟩ := hstate
    rw [← hmember]
    refine ⟨rfl, ?_⟩
    rw [runBacktest_of_prepared hp, runAfter_options hlimit _ variant.variantId, hrun]
    rfl
  raises e he _ := by
    rw [runBacktestVariants_of_prepared hp hids hne, map_eq_error] at he
    obtain ⟨member, hmember, hrun⟩ := exists_of_runTogether_eq_error he
    obtain ⟨variant, hvariant, rfl⟩ := List.mem_map.mp hmember
    refine ⟨variant, hvariant, ?_⟩
    rw [runBacktest_of_prepared hp, map_eq_error, runAfter_options hlimit _ variant.variantId]
    exact hrun

/-- With a limit of zero or less the batch has no trades. -/
theorem runBacktestVariants_of_limit (hp : prepareBacktest args bars fastEntryBars = .ok p)
    (hids : (variants.map BacktestVariant.variantId).Nodup)
    (hne : ∀ variant ∈ variants, variant.variantId ≠ "")
    (hlimit : args.limitReached .initial = true) :
    runBacktestVariants analyze args variants bars fastEntryBars =
      .ok (variants.map fun variant =>
        (variant.variantId, summarizeTrades [] p.executionTimeframe)) := by
  have hstop : ∀ member ∈ variants.map fun variant =>
      ((variant.variantId, variant), BacktestState.initial),
      args.limitReached member.2 = true := fun member _ => limitReached_of_initial hlimit _
  rw [runBacktestVariants_of_prepared hp hids hne,
    runTogether_eq_ok_iff.mpr ((forall₂_alone_of_stop hstop).mpr rfl)]
  change Except.ok (List.map _ (List.map _ _)) = _
  rw [List.map_map]
  rfl

theorem variantsAgree_iff_of_limit (hp : prepareBacktest args bars fastEntryBars = .ok p)
    (hids : (variants.map BacktestVariant.variantId).Nodup)
    (hne : ∀ variant ∈ variants, variant.variantId ≠ "")
    (hlimit : args.limitReached .initial = true) :
    VariantsAgree analyze args variants bars fastEntryBars ↔
      ∀ variant ∈ variants,
        FirstPlanUntouched analyze args p variant (args.indices p.closed.length) := by
  have hbatch : runBacktestVariants analyze args variants bars fastEntryBars = _ :=
    runBacktestVariants_of_limit hp hids hne hlimit
  have hsingle : ∀ variant : BacktestVariant,
      runBacktest analyze args variant.options bars fastEntryBars =
        .ok (summarizeTrades [] p.executionTimeframe) ↔
      FirstPlanUntouched analyze args p variant (args.indices p.closed.length) := by
    intro variant
    rw [runBacktest_of_prepared hp, map_eq_ok, ← runAfter_untraded_iff hlimit]
    refine exists_congr fun s => and_congr_right fun _ => ?_
    constructor
    · exact fun h => congrArg BacktestResult.trades h
    · exact fun h => by rw [h]
  constructor
  · intro h variant hvariant
    have hresults := h.results _ hbatch
    rw [List.forall₂_map_right_iff, List.forall₂_same] at hresults
    exact (hsingle variant).mp (hresults variant hvariant).2
  · intro h
    refine ⟨fun results hresults => ?_, fun e he => ?_⟩
    · cases (hbatch.symm.trans hresults)
      rw [List.forall₂_map_right_iff, List.forall₂_same]
      exact fun variant hvariant => ⟨rfl, (hsingle variant).mpr (h variant hvariant)⟩
    · exact absurd (hbatch.symm.trans he) nofun

/-- The batch agrees with the single runs exactly when the limit is none or one and more, the
inputs are rejected, or no variant has its first plan traded. -/
theorem variants_agree_iff (analyze : WindowAnalysis) (args : BacktestArgs)
    (variants : List BacktestVariant) (bars : List Bar) (fastEntryBars : Option (List Bar))
    (hids : (variants.map BacktestVariant.variantId).Nodup)
    (hne : ∀ variant ∈ variants, variant.variantId ≠ "") :
    VariantsAgree analyze args variants bars fastEntryBars ↔
      (∀ limit ∈ args.maxSignals, 1 ≤ limit) ∨
        ∀ p, prepareBacktest args bars fastEntryBars = .ok p → ∀ variant ∈ variants,
          FirstPlanUntouched analyze args p variant (args.indices p.closed.length) := by
  have hlimits : (∀ limit ∈ args.maxSignals, 1 ≤ limit) ↔
      args.limitReached .initial = false := by
    rw [← Bool.not_eq_true, limitReached_initial]
    push Not
    rfl
  rw [hlimits]
  cases hp : prepareBacktest args bars fastEntryBars with
  | error e =>
    exact ⟨fun _ => .inr fun p hp => absurd hp nofun, fun _ => variantsAgree_of_rejected hp⟩
  | ok p =>
    cases hlimit : args.limitReached .initial with
    | false => exact ⟨fun _ => .inl rfl, fun _ => variantsAgree_of_limit hp hids hne hlimit⟩
    | true =>
      rw [variantsAgree_iff_of_limit hp hids hne hlimit]
      constructor
      · exact fun h => .inr fun q hq => Except.ok.inj hq ▸ h
      · exact fun h => h.resolve_left (by simp) p rfl

/-! ### A run with a limit of zero -/

/-- A bar from 99 to 101 of the sample route. -/
def sampleBar (timeframe : ChartInterval) (minute : ℤ) : Bar where
  symbol := "ES"
  ts := minute * microsecondsPerMinute
  «open» := 100
  high := 101
  low := 99
  close := 100
  volume := 10
  timeframe := timeframe
  source := "test"
  closed := true
  state := .confirmed
  provenance := some
    { provider := "ibkr", instrumentId := "es", routeFingerprint := "r1", requestType := .historical
      providerContractId := "1", providerContractType := "FUT", dataType := "TRADES"
      sourceTimeframe := none }
  volume_nonneg := by decide
  geometry := by decide
  lifecycle := lifecycle_ite true

def sampleRoute : ReplayRoute := ⟨"ibkr", "es", "r1", none⟩

/-- A long setup that is executable at 100. -/
def sampleSetup : TradeSetup where
  executionAuthority := some
    { contract := some tradeSetupAuthorityContract, state := some "ready", ready := true
      providerId := some "engine", providerIds := some ["engine"]
      reasonCode := some "trade_setup_authority_ready" }
  ok := true
  action := some "GO"
  side := some "long"
  kind := some "fade"
  plan := ⟨.number 100, .null, .number 98, .number 102⟩
  signalSource := some "absorption_trap"
  triggerEventValid := true
  quality := .number 82
  confluence := []

/-- Every window has the sample setup. -/
def sampleAnalysis : WindowAnalysis := fun _ => some ⟨some sampleSetup⟩

def sampleArgs (maxSignals : Option ℤ) : BacktestArgs where
  route := sampleRoute
  displaySymbol := none
  warmup := 2
  horizon := 2
  step := 1
  maxSignals := maxSignals
  analysisLookback := none
  tickHistory := none
  tickProfileHistory := none

def sampleVariant : BacktestVariant := ⟨"base", [], none, none⟩

/-- Six bars of five minutes. -/
def sampleBars : List Bar := [0, 5, 10, 15, 20, 25].map (sampleBar .m5)

/-- With `max_signals = 0` the batch has no trade and the single run has one. -/
theorem limit_zero_disagrees :
    ¬ VariantsAgree sampleAnalysis (sampleArgs (some 0)) [sampleVariant] sampleBars none := by
  intro h
  have hbatch : (runBacktestVariants sampleAnalysis (sampleArgs (some 0)) [sampleVariant]
      sampleBars none).toOption.map (fun results => results.map fun entry =>
        entry.2.trades.length) = some [0] := by decide +kernel
  have hsingle : (runBacktest sampleAnalysis (sampleArgs (some 0)) sampleVariant.options
      sampleBars none).toOption.map (fun result => result.trades.length) = some 1 := by
    decide +kernel
  cases hresults : runBacktestVariants sampleAnalysis (sampleArgs (some 0)) [sampleVariant]
      sampleBars none with
  | error e =>
    rw [hresults] at hbatch
    exact absurd hbatch nofun
  | ok results =>
    obtain ⟨entry, rest, ⟨-, hrun⟩, -, rfl⟩ :=
      List.forall₂_cons_left_iff.mp (h.results results hresults)
    rw [hresults] at hbatch
    rw [hrun] at hsingle
    have hnone : entry.2.trades.length = 0 := (List.cons.inj (Option.some.inj hbatch)).1
    have hone : entry.2.trades.length = 1 := Option.some.inj hsingle
    omega

theorem variants_agree_iff_one :
    (([sampleVariant].map BacktestVariant.variantId).Nodup ∧
      ∀ variant ∈ [sampleVariant], variant.variantId ≠ "") ∧
    VariantsAgree sampleAnalysis (sampleArgs (some 1)) [sampleVariant] sampleBars none :=
  have hids : ([sampleVariant].map BacktestVariant.variantId).Nodup := by decide
  have hne : ∀ variant ∈ [sampleVariant], variant.variantId ≠ "" := by decide
  ⟨⟨hids, hne⟩, (variants_agree_iff sampleAnalysis (sampleArgs (some 1)) [sampleVariant] sampleBars
    none hids hne).mpr (.inl (by decide))⟩

end AefTerminal
