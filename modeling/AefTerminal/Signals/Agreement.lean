import AefTerminal.Foundation.Fallible
import AefTerminal.Signals.Lifecycle

/-!
# The two evaluators of a lifecycle

The payload evaluator scans every bar after the opening for a terminal level. The evaluator of bars
and signals does not: what fills a plan does not end it, and before its fill a plan ends only by
its age. After the fill it looks at least as closely, its protective level is the stop or a trail
before it, so a bar that passes it reaches neither level. The wire form rounds the levels to four
digits, and that may bring a level into such a bar.

So the two agree on a plan that goes on exactly when no bar up to the fill reaches a rounded level
and rounding brings none into a later bar. On what has ended they agree always.

## Main results

* `planLifecycleFromWire_asDict`: what is written is read back, with its prices rounded
* `evaluators_agree_iff`, `evaluators_disagree`
-/

namespace AefTerminal

open Foundation

/-! ### Rounding -/

theorem roundHalfEven_intCast (n : ℤ) : roundHalfEven n = n := by
  unfold roundHalfEven
  simp

theorem roundDigits_idem (digits : ℕ) (x : ℚ) :
    roundDigits digits (roundDigits digits x) = roundDigits digits x := by
  have hten : (10 ^ digits : ℚ) ≠ 0 := by positivity
  unfold roundDigits
  rw [div_mul_cancel₀ _ hten, roundHalfEven_intCast]

@[simp] theorem roundPrice_idem (price : Option ℚ) : roundPrice (roundPrice price) = roundPrice price := by
  cases price with
  | none => rfl
  | some x => exact congrArg some (roundDigits_idem 4 x)

/-! ### The wire form -/

variable {α : Type}

@[simp] theorem WireField.getD_value (default a : α) :
    (WireField.value a).getD default = some a := rfl

@[simp] theorem WireField.getD_missing (default : α) :
    WireField.missing.getD default = some default := rfl

@[simp] theorem WireField.required_value (a : α) :
    (WireField.value a).required = some a := rfl

@[simp] theorem WireField.optional_ofOption (a : Option α) :
    (WireField.ofOption a).optional = some a := by
  cases a <;> rfl

@[simp] theorem WireField.required_ofOption (a : Option α) :
    (WireField.ofOption a).required = a := by
  cases a <;> rfl

namespace PlanLifecycle

variable {l : PlanLifecycle} {payload : LifecyclePayload} {bars : List Bar}

/-- The lifecycle as its payload tells it. -/
def rounded (l : PlanLifecycle) : PlanLifecycle where
  toLifecycleFields := { l.toLifecycleFields with
    entry := roundPrice l.entry
    stop := roundPrice l.stop
    target := roundPrice l.target
    trail := roundPrice l.trail
    exitPrice := roundPrice l.exitPrice }
  admitted := by
    obtain ⟨hdirection, hreason, hopen, hwaits, hfollows, hfilled⟩ := l.admitted
    refine ⟨hdirection, hreason, fun h => ?_, hwaits, hfollows, hfilled⟩
    obtain ⟨hprice, hclosed⟩ := hopen h
    exact ⟨by simp [hprice, roundPrice], hclosed⟩

theorem writeTo_rounded (l : PlanLifecycle) (payload : LifecyclePayload) :
    l.rounded.writeTo payload = l.writeTo payload := by
  simp [writeTo, rounded]

end PlanLifecycle

/-- **The wire form.** What `as_dict` writes is admitted, with its prices rounded. -/
theorem planLifecycleFromWire_asDict (l : PlanLifecycle) :
    planLifecycleFromWire l.asDict = some l.rounded := by
  obtain ⟨hdirection, hreason, hopen, hwaits, hfollows, hfilled⟩ := l.admitted
  have hprice : l.state.terminal = false → roundPrice l.exitPrice = none ∧ l.closedTs = none :=
    l.rounded.admitted.open
  have hobsolete : false = true → l.state.terminal = true := nofun
  unfold planLifecycleFromWire PlanLifecycle.asDict PlanLifecycle.writeTo
  simp only [WireField.getD_value, WireField.getD_missing, WireField.required_value,
    WireField.optional_ofOption, WireField.required_ofOption, Option.bind_eq_bind,
    Option.bind_some, guard_of trivial, guard_of hreason, guard_of hobsolete, guard_of hdirection,
    guard_of hprice, guard_of hwaits, guard_of hfollows, guard_of hfilled]
  exact dif_pos l.rounded.admitted

/-! ### One bar -/

/-- The bar lies strictly between the levels. -/
def PlanClear (direction : Direction) (stop target : ℚ) (bar : Bar) : Prop :=
  match direction with
  | .long => stop < bar.low ∧ bar.high < target
  | .short => target < bar.low ∧ bar.high < stop
  | .flat => True

/-- The close lies strictly between the levels. -/
def CloseClear (direction : Direction) (stop target : ℚ) (bar : Bar) : Prop :=
  match direction with
  | .long => stop < bar.close ∧ bar.close < target
  | .short => target < bar.close ∧ bar.close < stop
  | .flat => True

variable {bar : Bar}

theorem closeEventOf_eq_none {reached : Bool × Bool} {targetPrice protectivePrice : Option ℚ}
    {protective : { state : LifecycleState // state.terminal = true }} :
    closeEventOf bar reached targetPrice protectivePrice protective = none ↔
      reached = (false, false) := by
  unfold closeEventOf
  split <;> simp

/-- The protective level is the stop or lies before it. -/
theorem protectiveOf_spec (direction : Direction) (stop target : ℚ) (trail : Option ℚ) :
    ∃ level, (protectiveOf direction (some stop) (some target) trail).1 = some level ∧
      (level = stop ∨ direction = .long ∧ stop < level ∨ direction = .short ∧ level < stop) := by
  unfold protectiveOf
  cases trail with
  | none => exact ⟨stop, rfl, .inl rfl⟩
  | some value =>
    dsimp only
    split_ifs with hstricter
    · refine ⟨value, rfl, .inr ?_⟩
      cases direction with
      | long => exact .inl ⟨rfl, (of_decide_eq_true hstricter).1 stop rfl⟩
      | short => exact .inr ⟨rfl, (of_decide_eq_true hstricter).1 stop rfl⟩
      | flat => exact absurd hstricter (by simp)
    · exact ⟨stop, rfl, .inl rfl⟩

variable {stop target : ℚ} {direction : Direction}

/-- A bar passes the plan exactly when it lies strictly between the protective level and the
target: it opens within its range. -/
theorem resolvePlanBarCloseEvent_eq_none (hdirection : direction ≠ .flat)
    {level : ℚ} {trail : Option ℚ}
    (hlevel : (protectiveOf direction (some stop) (some target) trail).1 = some level) :
    resolvePlanBarCloseEvent direction (some stop) (some target) trail bar true = none ↔
      PlanClear direction level target bar := by
  have hlow : bar.low ≤ bar.open := bar.geometry.2.trans (min_le_left ..)
  have hhigh : bar.open ≤ bar.high := (le_max_left ..).trans bar.geometry.1
  unfold resolvePlanBarCloseEvent
  rw [if_neg hdirection]
  dsimp only
  rw [hlevel, if_neg (by simp), Option.or_eq_none_iff, closeEventOf_eq_none, closeEventOf_eq_none]
  cases direction with
  | long =>
    simp only [beyond, touched, PlanClear, Option.any_some, Prod.mk.injEq, decide_eq_false_iff_not]
    constructor
    · rintro ⟨⟨hgap, hgap'⟩, htarget, htouched⟩
      exact ⟨by grind, by grind⟩
    · rintro ⟨hbelow, habove⟩
      exact ⟨⟨by linarith, by linarith⟩, by grind, by grind⟩
  | short =>
    simp only [beyond, touched, PlanClear, Option.any_some, Prod.mk.injEq, decide_eq_false_iff_not]
    constructor
    · rintro ⟨⟨hgap, hgap'⟩, htarget, htouched⟩
      exact ⟨by grind, by grind⟩
    · rintro ⟨hbelow, habove⟩
      exact ⟨⟨by linarith, by linarith⟩, by grind, by grind⟩
  | flat => exact absurd rfl hdirection

/-- Without a trail the levels are the stop and the target. -/
theorem resolve_untrailed_eq_none (hdirection : direction ≠ .flat) :
    resolvePlanBarCloseEvent direction (some stop) (some target) none bar true = none ↔
      PlanClear direction stop target bar :=
  resolvePlanBarCloseEvent_eq_none hdirection rfl

/-- A bar that passes a trail passes the stop. -/
theorem planClear_of_resolve (hdirection : direction ≠ .flat) {trail : Option ℚ}
    (h : resolvePlanBarCloseEvent direction (some stop) (some target) trail bar true = none) :
    PlanClear direction stop target bar := by
  obtain ⟨level, hlevel, hbefore⟩ := protectiveOf_spec direction stop target trail
  have hclear := (resolvePlanBarCloseEvent_eq_none hdirection hlevel).mp h
  rcases hbefore with rfl | ⟨rfl, hlt⟩ | ⟨rfl, hlt⟩
  · exact hclear
  · exact ⟨hlt.trans hclear.1, hclear.2⟩
  · exact ⟨hclear.1, hclear.2.trans hlt⟩

theorem resolve_close_eq_none (hdirection : direction ≠ .flat) :
    resolvePlanBarCloseEvent direction (some stop) (some target) none bar false = none ↔
      CloseClear direction stop target bar := by
  unfold resolvePlanBarCloseEvent protectiveOf
  rw [if_neg hdirection]
  dsimp only
  rw [if_pos (by simp), closeEventOf_eq_none]
  cases direction with
  | long => simp [closedBeyond, CloseClear, and_comm]
  | short => simp [closedBeyond, CloseClear]
  | flat => exact absurd rfl hdirection

/-! ### What the bars say of a followed plan -/

/-- Every bar after the fill passed the plan. -/
structure ActivePlan.Tracks (plan : ActivePlan) (Seen : ℕ → Bar → Prop) (offset index : ℕ) :
    Prop where
  filled : plan.filled = plan.filledIndex.isSome
  opened : plan.openedIndex < index
  fill : ∀ f ∈ plan.filledIndex, offset ≤ f ∧ f < index ∧ ∀ i bar, Seen i bar → f < i →
    PlanClear plan.direction plan.stop plan.target bar

theorem ActivePlan.Tracks.unfilled {plan : ActivePlan} {Seen : ℕ → Bar → Prop} {offset index : ℕ}
    (h : plan.Tracks Seen offset index) (hfilled : plan.filled = false) :
    plan.filledIndex = none := by
  have hnone := h.filled.symm.trans hfilled
  simpa using hnone

/-- A new plan was filled with its bar, or was not. -/
theorem SignalState.tracks_plan (signal : SignalState) {Seen : ℕ → Bar → Prop} {offset index : ℕ}
    (bar : Bar) {entry : ℚ}
    (h : coherentTradePlan signal.direction (some entry) (some stop) (some target) = true)
    (hle : offset ≤ index) (hseen : ∀ i b, Seen i b → i < index + 1) :
    (signal.plan index bar h).Tracks Seen offset (index + 1) := by
  refine ⟨?_, Nat.lt_succ_self _, fun f hf => ?_⟩
  · show decide (signal.action = .go) = (if signal.action = .go then some index else none).isSome
    by_cases hgo : signal.action = .go
    · simp [hgo]
    · simp [hgo]
  · have hsome : (if signal.action = .go then some index else none) = some f := hf
    split_ifs at hsome
    cases hsome
    refine ⟨hle, Nat.lt_succ_self _, fun i b hi hlt => ?_⟩
    exact absurd (hseen i b hi) (Nat.not_lt.mpr hlt)

namespace Evaluation

variable {e : Evaluation} {p : LifecycleParams} {Seen : ℕ → Bar → Prop} {offset index : ℕ}
  {bar : Bar} {signal : SignalState}

/-- The invariant before the bar with number `index`. -/
structure Inv (e : Evaluation) (Seen : ℕ → Bar → Prop) (offset index : ℕ) : Prop where
  lower : offset ≤ index
  seen : ∀ i bar, Seen i bar → i < index
  active : ∀ plan ∈ e.active, plan.Tracks Seen offset index
  closed : ∀ l ∈ e.lastClosed, l.state.terminal = true ∧ (l.state.hit = true → l.filled = true)

/-- One more bar is seen. -/
def Next (Seen : ℕ → Bar → Prop) (index : ℕ) (bar : Bar) (i : ℕ) (b : Bar) : Prop :=
  Seen i b ∨ i = index ∧ b = bar

theorem Inv.next_seen (h : e.Inv Seen offset index) (i : ℕ) (b : Bar)
    (hnext : Next Seen index bar i b) : i < index + 1 := by
  rcases hnext with hseen | ⟨rfl, -⟩
  · exact Nat.lt_succ_of_lt (h.seen i b hseen)
  · exact Nat.lt_succ_self i

theorem Inv.expireUnfilled (h : e.Inv Seen offset index) (p : LifecycleParams) (bar : Bar) :
    (e.expireUnfilled p index bar).Inv Seen offset index ∧
      ∀ plan ∈ (e.expireUnfilled p index bar).active, 0 < plan.ageBars := by
  unfold Evaluation.expireUnfilled
  cases hactive : e.active with
  | none => exact ⟨h, by simp [hactive]⟩
  | some plan =>
    have htracks := h.active plan hactive
    dsimp only
    split_ifs with hold
    · refine ⟨⟨h.lower, h.seen, fun plan' hplan => absurd hplan (Option.not_mem_none plan'),
        fun l hl => ?_⟩, fun plan' hplan => absurd hplan (Option.not_mem_none plan')⟩
      have hstate : l.state = .expired := by
        rw [← Option.some.inj hl]
        rfl
      rw [hstate]
      exact ⟨rfl, fun hhit => absurd hhit (by decide)⟩
    · refine ⟨⟨h.lower, h.seen, fun plan' hplan => ?_, h.closed⟩, fun plan' hplan => ?_⟩
      · cases hplan
        exact ⟨htracks.filled, htracks.opened, htracks.fill⟩
      · cases hplan
        exact Nat.sub_pos_of_lt htracks.opened

theorem Inv.follow (h : e.Inv Seen offset index) (hage : ∀ plan ∈ e.active, 0 < plan.ageBars) :
    (e.follow p index bar signal).Inv (Next Seen index bar) offset (index + 1) := by
  have hoffset : offset ≤ index + 1 := h.lower.trans (Nat.le_succ _)
  unfold Evaluation.follow
  cases hactive : e.active with
  | none => exact ⟨hoffset, h.next_seen, by simp [hactive], h.closed⟩
  | some plan =>
    have htracks := h.active plan hactive
    have hopened := Nat.lt_succ_of_lt htracks.opened
    dsimp only
    split_ifs with hfilled hfills
    · cases hexit : plan.exit bar signal with
      | some event =>
        refine ⟨hoffset, h.next_seen, fun plan' hplan => absurd hplan (Option.not_mem_none plan'),
          fun l hl => ?_⟩
        cases hl
        exact ⟨event.terminal, fun _ => hfilled.1⟩
      | none =>
        refine ⟨hoffset, h.next_seen, fun plan' hplan => ?_, h.closed⟩
        cases hplan
        refine ⟨htracks.filled, hopened, fun f hf => ?_⟩
        obtain ⟨hle, hlt, hclear⟩ := htracks.fill f hf
        refine ⟨hle, Nat.lt_succ_of_lt hlt, fun i b hnext hfi => ?_⟩
        rcases hnext with hseen | ⟨-, rfl⟩
        · exact hclear i b hseen hfi
        · exact planClear_of_resolve plan.direction_ne (Option.or_eq_none_iff.mp hexit).1
    · refine ⟨hoffset, h.next_seen, fun plan' hplan => ?_, h.closed⟩
      cases hplan
      refine ⟨rfl, hopened, fun f hf => ?_⟩
      obtain rfl : index = f := Option.some.inj hf
      refine ⟨h.lower, Nat.lt_succ_self _, fun i b hnext hlt => ?_⟩
      exact absurd (h.next_seen i b hnext) (Nat.not_lt.mpr hlt)
    · refine ⟨hoffset, h.next_seen, fun plan' hplan => ?_, h.closed⟩
      cases (hactive.symm.trans hplan)
      have hunfilled : plan.filled = false := by
        by_contra hne
        exact hfilled ⟨by simpa using hne, hage plan hactive⟩
      refine ⟨htracks.filled, hopened, fun f hf => ?_⟩
      rw [htracks.unfilled hunfilled] at hf
      exact absurd hf (by simp)

theorem Inv.openPlan (h : e.Inv (Next Seen index bar) offset (index + 1)) (hle : offset ≤ index) :
    (e.openPlan index bar signal).Inv (Next Seen index bar) offset (index + 1) := by
  unfold Evaluation.openPlan
  split_ifs with hopens
  · split
    · split_ifs with hcoherent
      · refine ⟨h.lower, h.seen, fun plan hplan => ?_, h.closed⟩
        cases hplan
        exact signal.tracks_plan bar hcoherent hle h.seen
      · exact h
    · exact h
  · exact h

/-- One bar. -/
theorem Inv.step (h : e.Inv Seen offset index) (p : LifecycleParams) (bar : Bar)
    (signal : SignalState) :
    (e.step p index bar signal).Inv (Next Seen index bar) offset (index + 1) := by
  obtain ⟨hinv, hage⟩ := h.expireUnfilled p bar
  exact (hinv.follow hage).openPlan h.lower

/-- All bars: each of them is seen. -/
theorem Inv.foldl (p : LifecycleParams) (entries : List (Bar × SignalState)) :
    ∀ {index : ℕ} {e : Evaluation} {Seen : ℕ → Bar → Prop}, e.Inv Seen offset index →
      ∃ Seen' : ℕ → Bar → Prop, (∀ i b, Seen i b → Seen' i b) ∧
        (∀ k entry, entries[k]? = some entry → Seen' (index + k) entry.1) ∧
        ((entries.zipIdx index).foldl (fun e entry => e.step p entry.2 entry.1.1 entry.1.2) e).Inv
          Seen' offset (index + entries.length) := by
  induction entries with
  | nil => exact fun {index e Seen} h => ⟨Seen, fun _ _ => id, fun _ _ hk => by simp at hk, h⟩
  | cons entry entries ih =>
    intro index e Seen h
    obtain ⟨Seen', hkeep, hseen, hinv⟩ := ih (h.step p entry.1 entry.2)
    refine ⟨Seen', fun i b hi => hkeep i b (.inl hi), fun k other hk => ?_, ?_⟩
    · cases k with
      | zero =>
        obtain rfl : entry = other := Option.some.inj hk
        exact hkeep _ _ (.inr ⟨rfl, rfl⟩)
      | succ k =>
        have hnext := hseen k other hk
        rwa [Nat.add_assoc, Nat.add_comm 1 k] at hnext
    · rw [List.zipIdx_cons, List.foldl_cons, List.length_cons, Nat.add_comm entries.length 1,
        ← Nat.add_assoc]
      exact hinv

end Evaluation

section Evaluate

variable {p : LifecycleParams} {bars : List Bar} {signals : List SignalState}

/-- The evaluation has met the bars from the first signal on. -/
theorem exists_evaluate_inv (p : LifecycleParams) (bars : List Bar)
    (signals : List SignalState) :
    ∃ Seen : ℕ → Bar → Prop, (∀ i bar, bars.length - signals.length ≤ i → bars[i]? = some bar →
        Seen i bar) ∧
      (evaluate p bars signals).Inv Seen (bars.length - signals.length)
        (bars.length - signals.length + ((bars.drop (bars.length - signals.length)).zip signals).length) := by
  have hstart : (⟨none, none⟩ : Evaluation).Inv (fun _ _ => False) (bars.length - signals.length)
      (bars.length - signals.length) :=
    ⟨le_rfl, fun _ _ h => h.elim, fun plan h => absurd h (Option.not_mem_none plan),
      fun l h => absurd h (Option.not_mem_none l)⟩
  obtain ⟨Seen, -, hseen, hinv⟩ := hstart.foldl p
    ((bars.drop (bars.length - signals.length)).zip signals)
  refine ⟨Seen, fun i bar hle hbar => ?_, hinv⟩
  obtain ⟨k, rfl⟩ := Nat.exists_eq_add_of_le hle
  have hlt : bars.length - signals.length + k < bars.length := (List.getElem?_eq_some_iff.mp hbar).1
  have hsignal : k < signals.length := by omega
  refine hseen k (bar, signals[k]) ?_
  rw [List.getElem?_zip_eq_some, List.getElem?_drop]
  exact ⟨hbar, List.getElem?_eq_getElem hsignal⟩

/-- A bar after the fill of the plan that is followed. -/
theorem clear_after_fill {plan : ActivePlan} (hplan : plan ∈ (evaluate p bars signals).active)
    {f j : ℕ} (hf : f ∈ plan.filledIndex) (hlt : f < j) {bar : Bar} (hbar : bars[j]? = some bar) :
    PlanClear plan.direction plan.stop plan.target bar := by
  obtain ⟨Seen, hseen, hinv⟩ := exists_evaluate_inv p bars signals
  obtain ⟨hle, -, hclear⟩ := (hinv.active plan hplan).fill f hf
  exact hclear j bar (hseen j bar (hle.trans hlt.le) hbar) hlt

theorem lastClosed_spec {l : PlanLifecycle} (hl : l ∈ (evaluate p bars signals).lastClosed) :
    l.state.terminal = true ∧ (l.state.hit = true → l.filled = true) := by
  obtain ⟨_, _, hinv⟩ := exists_evaluate_inv p bars signals
  exact hinv.closed l hl

/-- Without bars or without signals nothing is followed. -/
theorem nonempty_of_active {plan : ActivePlan} (hplan : plan ∈ (evaluate p bars signals).active) :
    ¬(bars = [] ∨ signals = []) := by
  rintro (rfl | rfl)
  · exact absurd hplan (by simp [evaluate])
  · exact absurd hplan (by simp [evaluate])

/-- What is reported. -/
theorem mem_lifecycleFromSignals {l : PlanLifecycle} (hl : l ∈ lifecycleFromSignals p bars signals) :
    (∃ plan ∈ (evaluate p bars signals).active, l = plan.lifecycle p.source) ∨
      l.state.terminal = true ∧ (l.state.hit = true → l.filled = true) := by
  unfold lifecycleFromSignals Evaluation.result at hl
  split_ifs at hl
  · exact absurd hl (Option.not_mem_none l)
  cases hactive : (evaluate p bars signals).active with
  | none =>
    rw [hactive] at hl
    exact .inr (lastClosed_spec hl)
  | some plan =>
    rw [hactive] at hl
    exact .inl ⟨plan, rfl, (Option.some.inj hl).symm⟩

theorem lifecycle_mem {plan : ActivePlan} (hplan : plan ∈ (evaluate p bars signals).active) :
    plan.lifecycle p.source ∈ lifecycleFromSignals p bars signals := by
  unfold lifecycleFromSignals Evaluation.result
  rw [if_neg (nonempty_of_active hplan), Option.mem_def.mp hplan]
  rfl

end Evaluate

/-! ### The scan of a payload -/

theorem mem_barsAfterSignal {bars : List Bar} {openedTs : Time} :
    bar ∈ barsAfterSignal bars (some openedTs) ↔ bar ∈ bars ∧ openedTs < bar.ts := by
  simp [barsAfterSignal]

/-- The scan of the bars meets no event: it stays between the levels. -/
theorem tradePlanCloseEvent_eq_none (hdirection : direction ≠ .flat)
    {entry : ℚ} {bars : List Bar} {openedTs : Time} :
    tradePlanCloseEvent direction (some entry) (some stop) (some target) bars (some openedTs) = none ↔
      (coherentTradePlan direction (some entry) (some stop) (some target) = true →
        (∀ bar ∈ bars, openedTs < bar.ts → PlanClear direction stop target bar) ∧
          ((∀ bar ∈ bars, ¬openedTs < bar.ts) → ∀ last ∈ bars.getLast?,
            CloseClear direction stop target last)) := by
  unfold tradePlanCloseEvent
  cases hlast : bars.getLast? with
  | none =>
    obtain rfl := List.getLast?_eq_none_iff.mp hlast
    simp
  | some last =>
    dsimp only
    by_cases hcoherent : coherentTradePlan direction (some entry) (some stop) (some target) = true
    · rw [if_neg (by simp [hcoherent])]
      cases hscan : barsAfterSignal bars (some openedTs) with
      | nil =>
        have hnone : ∀ bar ∈ bars, ¬openedTs < bar.ts := fun bar hbar hlt =>
          absurd (mem_barsAfterSignal.mpr ⟨hbar, hlt⟩) (by simp [hscan])
        constructor
        · intro h _
          refine ⟨fun bar hbar hlt => absurd hlt (hnone bar hbar), fun _ last' hlast' => ?_⟩
          cases hlast'
          exact (resolve_close_eq_none hdirection).mp h
        · exact fun h => (resolve_close_eq_none hdirection).mpr ((h hcoherent).2 hnone last rfl)
      | cons first rest =>
        have hfirst : first ∈ bars ∧ openedTs < first.ts :=
          mem_barsAfterSignal.mp (by simp [hscan])
        dsimp only
        rw [← hscan, List.findSome?_eq_none_iff]
        constructor
        · intro h _
          refine ⟨fun bar hbar hlt => ?_, fun hnone => absurd hfirst.2 (hnone first hfirst.1)⟩
          exact (resolve_untrailed_eq_none hdirection).mp
            (h bar (mem_barsAfterSignal.mpr ⟨hbar, hlt⟩))
        · intro h bar hbar
          obtain ⟨hmem, hlt⟩ := mem_barsAfterSignal.mp hbar
          exact (resolve_untrailed_eq_none hdirection).mpr ((h hcoherent).1 bar hmem hlt)
    · simp [hcoherent]

/-! ### Agreement -/

/-- The payload of a lifecycle that is active stays active at its levels; of one that has ended
nothing changes; and in both a plan that was hit was filled. -/
structure EvaluatorsAgree (l : PlanLifecycle) (bars : List Bar) : Prop where
  active : l.state.active = true →
    (expireLifecyclePayload l.asDict bars).active = .value true ∧
      (expireLifecyclePayload l.asDict bars).entry = l.asDict.entry ∧
      (expireLifecyclePayload l.asDict bars).stop = l.asDict.stop ∧
      (expireLifecyclePayload l.asDict bars).target = l.asDict.target ∧
      (expireLifecyclePayload l.asDict bars).trail = l.asDict.trail
  ended : l.state.terminal = true →
    (expireLifecyclePayload l.asDict bars).state = .value l.state ∧
      (expireLifecyclePayload l.asDict bars).exitPrice = l.asDict.exitPrice ∧
      (expireLifecyclePayload l.asDict bars).closedTs = l.asDict.closedTs
  filled : ∀ payload ∈ [l.asDict, expireLifecyclePayload l.asDict bars], ∀ state,
    payload.state = .value state → state.hit = true → payload.filled = .value true

/-- The fill of the plan lies before a bar. -/
def ActivePlan.FilledBefore (plan : ActivePlan) (j : ℕ) : Prop := ∃ f ∈ plan.filledIndex, f < j

/-- The levels of the wire form lie on the two sides of the entry. -/
def ActivePlan.coherentRounded (plan : ActivePlan) : Bool :=
  coherentTradePlan plan.direction (roundPrice plan.entry) (roundPrice plan.stop)
    (roundPrice plan.target)

/-- The bar lies strictly between the levels of the wire form. -/
def ActivePlan.ClearRounded (plan : ActivePlan) (bar : Bar) : Prop :=
  PlanClear plan.direction (roundDigits 4 plan.stop) (roundDigits 4 plan.target) bar

/-- No bar up to the fill reaches a level of the wire form, rounding brings none into a bar after
the fill, and without a bar after the opening the last close lies between them. -/
structure ActivePlan.PassesRounded (plan : ActivePlan) (bars : List Bar) : Prop where
  upToFill : ∀ (j : ℕ) bar, bars[j]? = some bar → plan.openedTs < bar.ts → ¬plan.FilledBefore j →
    plan.ClearRounded bar
  afterFill : ∀ (j : ℕ) bar, bars[j]? = some bar → plan.openedTs < bar.ts → plan.FilledBefore j →
    PlanClear plan.direction plan.stop plan.target bar → plan.ClearRounded bar
  unscanned : (∀ bar ∈ bars, ¬plan.openedTs < bar.ts) → ∀ last ∈ bars.getLast?,
    CloseClear plan.direction (roundDigits 4 plan.stop) (roundDigits 4 plan.target) last

theorem LifecycleState.not_active {state : LifecycleState} (h : state.terminal = true) :
    state.active = false := by
  revert h
  cases state <;> decide

theorem LifecycleState.not_hit {state : LifecycleState} (h : state.active = true) :
    state.hit = false := by
  revert h
  cases state <;> decide

section Payload

variable {l : PlanLifecycle} {bars : List Bar}

/-- The event of the levels that the payload carries. -/
def PlanLifecycle.wireEvent (l : PlanLifecycle) (bars : List Bar) : Option LifecycleCloseEvent :=
  tradePlanCloseEvent l.direction (roundPrice l.entry) (roundPrice l.stop) (roundPrice l.target)
    bars l.openedTs

theorem expire_asDict_of_terminal (hterminal : l.state.terminal = true) :
    expireLifecyclePayload l.asDict bars = { l.asDict with obsolete := .value true } := by
  have hactive : ¬l.rounded.state.active = true := by
    show ¬l.state.active = true
    simp [LifecycleState.not_active hterminal]
  have hterminal' : l.rounded.state.terminal = true := hterminal
  unfold expireLifecyclePayload
  rw [planLifecycleFromWire_asDict]
  dsimp only
  rw [dif_neg hactive, if_pos hterminal', PlanLifecycle.writeTo_rounded]
  rfl

theorem expire_asDict_of_none (hactive : l.state.active = true) (hevent : l.wireEvent bars = none) :
    expireLifecyclePayload l.asDict bars = l.asDict := by
  have hactive' : l.rounded.state.active = true := hactive
  have hevent' : tradePlanCloseEvent l.rounded.direction l.rounded.entry l.rounded.stop
      l.rounded.target bars l.rounded.openedTs = none := hevent
  unfold expireLifecyclePayload
  rw [planLifecycleFromWire_asDict]
  dsimp only
  rw [dif_pos hactive', hevent', PlanLifecycle.writeTo_rounded]
  split_ifs <;> rfl

theorem expire_asDict_of_some (hactive : l.state.active = true) {event : LifecycleCloseEvent}
    (hevent : l.wireEvent bars = some event) :
    (expireLifecyclePayload l.asDict bars).active = .value false := by
  have hactive' : l.rounded.state.active = true := hactive
  have hevent' : tradePlanCloseEvent l.rounded.direction l.rounded.entry l.rounded.stop
      l.rounded.target bars l.rounded.openedTs = some event := hevent
  have hbars : ¬bars = [] := by
    rintro rfl
    exact absurd hevent (by simp [PlanLifecycle.wireEvent, tradePlanCloseEvent])
  unfold expireLifecyclePayload
  rw [planLifecycleFromWire_asDict]
  dsimp only
  rw [dif_pos hactive', if_neg hbars, hevent']
  exact congrArg WireField.value (LifecycleState.not_active event.terminal)

/-- What has ended stays as it is. -/
theorem evaluatorsAgree_of_terminal (hterminal : l.state.terminal = true)
    (hfilled : l.state.hit = true → l.filled = true) : EvaluatorsAgree l bars := by
  have hactive := LifecycleState.not_active hterminal
  refine ⟨fun h => absurd h (by simp [hactive]), fun _ => ?_, fun payload hpayload state hstate hhit => ?_⟩
  · rw [expire_asDict_of_terminal hterminal]
    exact ⟨rfl, rfl, rfl⟩
  · rw [expire_asDict_of_terminal hterminal] at hpayload
    have hkept : payload.state = .value l.state ∧ payload.filled = .value l.filled := by
      rcases List.mem_pair.mp hpayload with rfl | rfl <;> exact ⟨rfl, rfl⟩
    rw [hkept.1] at hstate
    cases hstate
    rw [hkept.2, hfilled hhit]

/-- An active lifecycle: the payload has to meet no event. -/
theorem evaluatorsAgree_iff_of_active (hactive : l.state.active = true) :
    EvaluatorsAgree l bars ↔ l.wireEvent bars = none := by
  constructor
  · intro h
    cases hevent : l.wireEvent bars with
    | none => rfl
    | some event =>
      have htrue := (h.active hactive).1
      rw [expire_asDict_of_some hactive hevent] at htrue
      exact absurd htrue (by decide)
  · intro hevent
    have hkept := expire_asDict_of_none hactive hevent
    refine ⟨fun _ => ?_, fun h => ?_, fun payload hpayload state hstate hhit => ?_⟩
    · rw [hkept]
      exact ⟨congrArg WireField.value hactive, rfl, rfl, rfl, rfl⟩
    · exact absurd hactive (by simp [LifecycleState.not_active h])
    · have hpayload' : payload = l.asDict := by
        rw [hkept] at hpayload
        simpa using hpayload
      rw [hpayload'] at hstate
      cases hstate
      exact absurd hhit (by simp [LifecycleState.not_hit hactive])

end Payload

theorem ActivePlan.lifecycle_active (plan : ActivePlan) (source : String) :
    (plan.lifecycle source).state.active = true := by
  show (if plan.filled then LifecycleState.follow else LifecycleState.waitEntry).active = true
  cases plan.filled <;> rfl

/-- The scan of a followed plan. -/
theorem wireEvent_eq_none_iff {p : LifecycleParams} {bars : List Bar} {signals : List SignalState}
    {plan : ActivePlan} (hplan : plan ∈ (evaluate p bars signals).active) (source : String) :
    (plan.lifecycle source).wireEvent bars = none ↔
      (plan.coherentRounded = true → plan.PassesRounded bars) := by
  refine (tradePlanCloseEvent_eq_none plan.direction_ne).trans (imp_congr_right fun _ => ?_)
  constructor
  · rintro ⟨hscan, hlast⟩
    exact ⟨fun j bar hbar hlt _ => hscan bar (List.mem_of_getElem? hbar) hlt,
      fun j bar hbar hlt _ _ => hscan bar (List.mem_of_getElem? hbar) hlt, hlast⟩
  · intro h
    refine ⟨fun bar hmem hlt => ?_, h.unscanned⟩
    obtain ⟨j, hbar⟩ := List.getElem?_of_mem hmem
    by_cases hbefore : plan.FilledBefore j
    · obtain ⟨f, hf, hfj⟩ := hbefore
      exact h.afterFill j bar hbar hlt ⟨f, hf, hfj⟩ (clear_after_fill hplan hf hfj hbar)
    · exact h.upToFill j bar hbar hlt hbefore

/-- **The two evaluators** agree on what is reported exactly when it has ended, or its levels lose
their order in the wire form, or its bars pass the levels of the wire form. -/
theorem evaluators_agree_iff (p : LifecycleParams) (bars : List Bar) (signals : List SignalState) :
    (∀ l ∈ lifecycleFromSignals p bars signals, EvaluatorsAgree l bars) ↔
      ∀ plan ∈ (evaluate p bars signals).active, plan.coherentRounded = true →
        plan.PassesRounded bars := by
  constructor
  · intro h plan hplan
    have hagree := h _ (lifecycle_mem hplan)
    rw [evaluatorsAgree_iff_of_active (plan.lifecycle_active p.source)] at hagree
    exact (wireEvent_eq_none_iff hplan p.source).mp hagree
  · intro h l hl
    rcases mem_lifecycleFromSignals hl with ⟨plan, hplan, rfl⟩ | ⟨hterminal, hfilled⟩
    · rw [evaluatorsAgree_iff_of_active (plan.lifecycle_active p.source)]
      exact (wireEvent_eq_none_iff hplan p.source).mpr (h plan hplan)
    · exact evaluatorsAgree_of_terminal hterminal hfilled

/-! ### An armed plan filled by the bar that reaches its levels -/

/-- The bar that arms a long plan, entered at 100 between 98 and 104. -/
def armingBar : Bar where
  symbol := "MES"
  ts := 0
  «open» := 101
  high := 102
  low := 201 / 2
  close := 101
  volume := 0
  timeframe := .m1
  source := "ibkr"
  closed := true
  state := .confirmed
  provenance := none
  volume_nonneg := Nat.cast_nonneg 0
  geometry := by decide +kernel
  lifecycle := lifecycle_ite true

/-- The bar after it goes through the entry and both levels. -/
def fillingBar : Bar :=
  { armingBar with
    ts := 60000000
    high := 105
    low := 97
    close := 104
    geometry := by decide +kernel }

def armedSignals : List SignalState :=
  [⟨.arm, .long, some 100, some 98, some 104, none⟩, ⟨.wait, .flat, none, none, none, none⟩]

def armedParams : LifecycleParams := ⟨"breakout", [], 18, some (11 / 10)⟩

/-- The bars and signals fill the plan, which goes on; the payload of the same lifecycle ends. -/
theorem evaluators_disagree :
    (lifecycleFromSignals armedParams [armingBar, fillingBar] armedSignals).map (fun l =>
        (l.state, (expireLifecyclePayload l.asDict [armingBar, fillingBar]).state)) =
      some (.follow, .value .targetAndStopHit) ∧
    ¬∀ l ∈ lifecycleFromSignals armedParams [armingBar, fillingBar] armedSignals,
      EvaluatorsAgree l [armingBar, fillingBar] := by
  have hactive : (lifecycleFromSignals armedParams [armingBar, fillingBar] armedSignals).map
      (fun l => (l.state.active,
        (expireLifecyclePayload l.asDict [armingBar, fillingBar]).active)) =
      some (true, .value false) := by decide +kernel
  refine ⟨by decide +kernel, fun h => ?_⟩
  obtain ⟨l, hl, hpair⟩ := Option.map_eq_some_iff.mp hactive
  obtain ⟨hl_active, hexpired⟩ := Prod.mk.inj hpair
  have hagree := ((h l hl).active hl_active).1
  rw [hexpired] at hagree
  exact absurd hagree (by decide)

end AefTerminal
