import AefTerminal.Signals.Agreement
import Mathlib.Data.List.Induction

/-!
# The run of a plan

`lifecycle_from_signals` opens a plan with a signal, fills it with the bar that touches its entry, and
meets every later bar with the levels it carries into it: the target, and behind the price the stop or
a trail that is stricter. The trail of a bar is computed from its close, so it counts from the next bar
on.

What is said here of the reported lifecycle names the bars of the run: the one that opened the plan,
the one that filled it, and where it has ended the one that ended it, which is the first after the fill
that leaves the levels or has a signal of the other direction.

An open beyond one level decides for that level, whatever else the bar touches. Both are reported only
where the bar opens between the levels and touches both.

## Main definitions

* `PlanTerms`, `PlanTerms.trailInto`, `PlanTerms.level`
* `PlanTerms.FilledAt`, `PlanTerms.Passed`

## Main results

* `lifecycle_run_law`
-/

namespace AefTerminal

/-! ### Plans -/

/-- What stays the same of a plan. -/
structure PlanTerms where
  direction : Direction
  entry : ℚ
  stop : ℚ
  target : ℚ
  coherent : coherentTradePlan direction (some entry) (some stop) (some target) = true
  deriving DecidableEq

def ActivePlan.terms (plan : ActivePlan) : PlanTerms :=
  ⟨plan.direction, plan.entry, plan.stop, plan.target, plan.coherent⟩

/-- The plan that a signal proposes with its bar. -/
def SignalState.terms (signal : SignalState) (bar : Bar) : Option PlanTerms :=
  if signal.action ∈ [.go, .arm] ∧ signal.direction ≠ .flat then
    match signal.trigger.or (some bar.close), signal.stop.or signal.invalidation, signal.target with
    | some entry, some stop, some target =>
      if h : coherentTradePlan signal.direction (some entry) (some stop) (some target) = true then
        some ⟨signal.direction, entry, stop, target, h⟩
      else none
    | _, _, _ => none
  else none

/-- The bars that have a signal, with it. -/
def signalRows (bars : List Bar) (signals : List SignalState) : List (Bar × SignalState) :=
  (bars.drop (bars.length - signals.length)).zip signals

/-- The first value is at most as far from the price as the second, behind it. -/
def Tightens (direction : Direction) (level level' : ℚ) : Prop :=
  match direction with
  | .long => level ≤ level'
  | .short => level' ≤ level
  | .flat => True

namespace PlanTerms

variable (p : LifecycleParams) (offset : ℕ) (rows : List (Bar × SignalState)) (plan : PlanTerms)

/-- The trail that a plan filled at row `f` carries into a row. -/
def trailInto (f : ℕ) : ℕ → Option ℚ
  | 0 => some plan.stop
  | j + 1 =>
    if f < j then
      match rows[j]? with
      | some row => nextPlanTrail plan.direction (trailInto f j) (some plan.stop) row.1.close
          (p.atr (offset + j) row.1) p.trailAtr
      | none => trailInto f j
    else some plan.stop

/-- The protective level with a trail. -/
def level (trail : Option ℚ) : ℚ :=
  (protectiveOf plan.direction (some plan.stop) (some plan.target) trail).1.getD plan.stop

/-- The plan that row `o` opens is filled at row `f`: at once by a `GO`, and else by the first later
row that touches the entry, within the age. -/
structure FilledAt (o f : ℕ) : Prop where
  opened : ∃ row, rows[o]? = some row ∧ row.2.terms row.1 = some plan ∧
    (row.2.action = .go ∧ f = o ∨ row.2.action ≠ .go ∧ o < f ∧ ((f - o : ℕ) : ℤ) ≤ p.maxAgeBars ∧
      ∃ filling, rows[f]? = some filling ∧ touched filling.1 plan.entry = true)
  untouched : ∀ i row, o < i → i < f → rows[i]? = some row → touched row.1 plan.entry = false

/-- Every row after the fill and before row `j` lies strictly between the target and the level that
is carried into it, and has no signal of the other direction. -/
def Passed (f j : ℕ) : Prop :=
  ∀ i row, f < i → i < j → rows[i]? = some row →
    PlanClear plan.direction (plan.level (plan.trailInto p offset rows f i)) plan.target row.1 ∧
      row.2.opposite plan.direction = false

/-- How the plan ends with a row, with the trail that is carried into it. -/
def exit (trail : Option ℚ) (row : Bar × SignalState) : Option LifecycleCloseEvent :=
  (resolvePlanBarCloseEvent plan.direction (some plan.stop) (some plan.target) trail row.1 true).or
    (if row.2.opposite plan.direction then some ⟨.reversed, some row.1.close, row.1.ts, by decide⟩
      else none)

end PlanTerms

/-! ### One row -/

section Row

variable {plan : PlanTerms} {trail : Option ℚ} {row : Bar × SignalState}
  {event : LifecycleCloseEvent} {x : ℚ}

theorem PlanTerms.direction_ne (plan : PlanTerms) : plan.direction ≠ .flat := by
  intro h
  have hcoherent := plan.coherent
  rw [h] at hcoherent
  exact absurd hcoherent (by simp [coherentTradePlan])

theorem PlanTerms.long_coherent (h : plan.direction = .long) :
    plan.stop < plan.entry ∧ plan.entry < plan.target := by
  have hcoherent := plan.coherent
  rw [h] at hcoherent
  exact of_decide_eq_true hcoherent

theorem PlanTerms.short_coherent (h : plan.direction = .short) :
    plan.target < plan.entry ∧ plan.entry < plan.stop := by
  have hcoherent := plan.coherent
  rw [h] at hcoherent
  exact of_decide_eq_true hcoherent

theorem PlanTerms.protective_eq (plan : PlanTerms) (trail : Option ℚ) :
    (protectiveOf plan.direction (some plan.stop) (some plan.target) trail).1 =
      some (plan.level trail) := by
  obtain ⟨level, hlevel, -⟩ := protectiveOf_spec plan.direction plan.stop plan.target trail
  rw [PlanTerms.level, hlevel, Option.getD_some]

/-- A price lies beyond neither level. -/
def OpensBetween (direction : Direction) (level target : ℚ) (bar : Bar) : Prop :=
  match direction with
  | .long => level ≤ bar.open ∧ bar.open ≤ target
  | .short => target ≤ bar.open ∧ bar.open ≤ level
  | .flat => True

/-- The level of a plan lies on the other side of its target. -/
theorem PlanTerms.level_target (plan : PlanTerms) (trail : Option ℚ) :
    (plan.direction = .long → plan.level trail < plan.target) ∧
      (plan.direction = .short → plan.target < plan.level trail) := by
  have hlong := @PlanTerms.long_coherent plan
  have hshort := @PlanTerms.short_coherent plan
  cases trail with
  | none =>
    have hlevel : plan.level none = plan.stop := rfl
    rw [hlevel]
    exact ⟨fun h => (hlong h).1.trans (hlong h).2, fun h => (hshort h).1.trans (hshort h).2⟩
  | some value =>
    simp only [PlanTerms.level, protectiveOf]
    constructor
    · intro h
      simp only [h]
      split_ifs with hstricter
      · exact (of_decide_eq_true hstricter).2 _ rfl
      · exact (hlong h).1.trans (hlong h).2
    · intro h
      simp only [h]
      split_ifs with hstricter
      · exact (of_decide_eq_true hstricter).2 _ rfl
      · exact (hshort h).1.trans (hshort h).2

theorem PlanTerms.exit_eq_none : plan.exit trail row = none ↔
    PlanClear plan.direction (plan.level trail) plan.target row.1 ∧
      row.2.opposite plan.direction = false := by
  rw [PlanTerms.exit, Option.or_eq_none_iff,
    resolvePlanBarCloseEvent_eq_none plan.direction_ne (plan.protective_eq trail)]
  refine and_congr_right fun _ => ?_
  split_ifs with hopposite
  · simp [hopposite]
  · simpa using hopposite

/-- What a row reports of a plan. -/
structure PlanTerms.Reports (plan : PlanTerms) (trail : Option ℚ) (row : Bar × SignalState)
    (state : LifecycleState) (exitPrice : Option ℚ) : Prop where
  both_iff : state = .targetAndStopHit ↔
    OpensBetween plan.direction (plan.level trail) plan.target row.1 ∧
      touched row.1 plan.target = true ∧ touched row.1 (plan.level trail) = true
  reversed_iff : state = .reversed ↔
    PlanClear plan.direction (plan.level trail) plan.target row.1
  price : ∀ x ∈ exitPrice, row.1.low ≤ x ∧ x ≤ row.1.high

/-- The state of a protective level is one of two. -/
theorem protectiveOf_state (direction : Direction) (stop target trail : Option ℚ) :
    (protectiveOf direction stop target trail).2.1 = .stopHit ∨
      (protectiveOf direction stop target trail).2.1 = .trailStop := by
  unfold protectiveOf
  cases trail with
  | none => exact .inl rfl
  | some value =>
    dsimp only
    split_ifs
    · exact .inr rfl
    · exact .inl rfl

theorem touched_iff {bar : Bar} {price : ℚ} :
    touched bar price = true ↔ bar.low ≤ price ∧ price ≤ bar.high := decide_eq_true_iff

theorem beyond_eq_iff {direction : Direction} {level target : ℚ} {bar : Bar}
    (hdirection : direction ≠ .flat) :
    beyond direction bar.open (some target) (some level) = (false, false) ↔
      OpensBetween direction level target bar := by
  cases direction with
  | long => simp [beyond, OpensBetween, and_comm]
  | short => simp [beyond, OpensBetween]
  | flat => exact absurd rfl hdirection

/-- No price is beyond both levels. -/
theorem PlanTerms.beyond_ne (plan : PlanTerms) (trail : Option ℚ) (price : ℚ) :
    beyond plan.direction price (some plan.target) (some (plan.level trail)) ≠ (true, true) := by
  obtain ⟨hlong, hshort⟩ := plan.level_target trail
  intro hboth
  cases hdirection : plan.direction with
  | long =>
    simp only [hdirection, beyond, Option.any_some, Prod.mk.injEq, decide_eq_true_eq] at hboth
    exact absurd (hboth.1.trans hboth.2) (not_lt.mpr (hlong hdirection).le)
  | short =>
    simp only [hdirection, beyond, Option.any_some, Prod.mk.injEq, decide_eq_true_eq] at hboth
    exact absurd (hboth.2.trans hboth.1) (not_lt.mpr (hshort hdirection).le)
  | flat => exact absurd hdirection plan.direction_ne

/-- The event of what a row reached, at its open or with its range. -/
theorem PlanTerms.resolve_eq (plan : PlanTerms) (trail : Option ℚ) (bar : Bar) :
    resolvePlanBarCloseEvent plan.direction (some plan.stop) (some plan.target) trail bar true =
      (closeEventOf bar (beyond plan.direction bar.open (some plan.target) (some (plan.level trail)))
        none none (protectiveOf plan.direction (some plan.stop) (some plan.target) trail).2).or
      (closeEventOf bar (touched bar plan.target, touched bar (plan.level trail)) (some plan.target)
        (some (plan.level trail))
        (protectiveOf plan.direction (some plan.stop) (some plan.target) trail).2) := by
  rw [resolvePlanBarCloseEvent, if_neg plan.direction_ne]
  dsimp only
  rw [plan.protective_eq, if_neg (by simp)]
  rfl

/-- A row that ends a plan at its levels. -/
theorem PlanTerms.reports_of_resolve
    (h : resolvePlanBarCloseEvent plan.direction (some plan.stop) (some plan.target) trail row.1
      true = some event) : plan.Reports trail row event.state event.exitPrice := by
  have hunclear : ¬ PlanClear plan.direction (plan.level trail) plan.target row.1 := fun hclear => by
    rw [(resolvePlanBarCloseEvent_eq_none plan.direction_ne (plan.protective_eq trail)).mpr hclear] at h
    exact nomatch h
  have hopens : beyond plan.direction row.1.open (some plan.target) (some (plan.level trail)) =
      (false, false) ↔ OpensBetween plan.direction (plan.level trail) plan.target row.1 :=
    beyond_eq_iff plan.direction_ne
  have hone := plan.beyond_ne trail row.1.open
  obtain ⟨⟨state, hterminal⟩, hprotective⟩ : ∃ protective,
      (protectiveOf plan.direction (some plan.stop) (some plan.target) trail).2 = protective :=
    ⟨_, rfl⟩
  have hstate : state = .stopHit ∨ state = .trailStop := by
    have hstates := protectiveOf_state plan.direction (some plan.stop) (some plan.target) trail
    rwa [hprotective] at hstates
  have hstates : state ≠ .targetAndStopHit ∧ state ≠ .reversed := by
    rcases hstate with rfl | rfl <;> decide
  rw [plan.resolve_eq, hprotective] at h
  rcases hbeyond : beyond plan.direction row.1.open (some plan.target) (some (plan.level trail))
    with ⟨_ | _, _ | _⟩
  · -- The bar opens between the levels: its range decides.
    have hbetween := hopens.mp hbeyond
    rw [hbeyond] at h
    cases htarget : touched row.1 plan.target <;>
      cases hlevel : touched row.1 (plan.level trail)
    · rw [htarget, hlevel] at h
      exact nomatch h
    · rw [htarget, hlevel] at h
      cases h
      refine ⟨iff_of_false hstates.1 ?_, iff_of_false hstates.2 hunclear, fun x hx => ?_⟩
      · exact fun hboth => absurd (htarget.symm.trans hboth.2.1) (by simp)
      · exact Option.some.inj hx ▸ touched_iff.mp hlevel
    · rw [htarget, hlevel] at h
      cases h
      refine ⟨iff_of_false nofun ?_, iff_of_false nofun hunclear, fun x hx => ?_⟩
      · exact fun hboth => absurd (hlevel.symm.trans hboth.2.2) (by simp)
      · exact Option.some.inj hx ▸ touched_iff.mp htarget
    · rw [htarget, hlevel] at h
      cases h
      exact ⟨iff_of_true rfl ⟨hbetween, htarget, hlevel⟩, iff_of_false nofun hunclear, nofun⟩
  all_goals
    have hoff : ¬ OpensBetween plan.direction (plan.level trail) plan.target row.1 := fun hbetween => by
      rw [hopens.mpr hbetween] at hbeyond
      exact nomatch hbeyond
    rw [hbeyond] at h
  · cases h
    exact ⟨iff_of_false hstates.1 fun hboth => hoff hboth.1, iff_of_false hstates.2 hunclear, nofun⟩
  · cases h
    exact ⟨iff_of_false nofun fun hboth => hoff hboth.1, iff_of_false nofun hunclear,
      nofun⟩
  · exact absurd hbeyond hone

/-- A row that passes the levels of a plan touches neither. -/
theorem untouched_of_clear {direction : Direction} (hdirection : direction ≠ .flat)
    {level target : ℚ} {bar : Bar} (h : PlanClear direction level target bar) :
    touched bar target = false := by
  refine decide_eq_false fun htouched => ?_
  cases direction with
  | long => exact absurd h.2 (not_lt.mpr htouched.2)
  | short => exact absurd h.1 (not_lt.mpr htouched.1)
  | flat => exact absurd rfl hdirection

theorem PlanTerms.reports_of_exit (h : plan.exit trail row = some event) :
    plan.Reports trail row event.state event.exitPrice := by
  rw [PlanTerms.exit] at h
  cases hresolve : resolvePlanBarCloseEvent plan.direction (some plan.stop) (some plan.target) trail
    row.1 true with
  | some event' =>
    rw [hresolve, Option.some_or] at h
    exact Option.some.inj h ▸ PlanTerms.reports_of_resolve hresolve
  | none =>
    rw [hresolve, Option.none_or] at h
    have hclear := (resolvePlanBarCloseEvent_eq_none plan.direction_ne (plan.protective_eq trail)).mp
      hresolve
    split_ifs at h
    cases h
    refine ⟨⟨by simp, fun hboth => ?_⟩, iff_of_true rfl hclear, fun x hx => ?_⟩
    · have huntouched := untouched_of_clear plan.direction_ne hclear
      exact absurd (huntouched.symm.trans hboth.2.1) (by simp)
    · cases hx
      exact ⟨row.1.geometry.2.trans (min_le_right _ _), (le_max_right _ _).trans row.1.geometry.1⟩

end Row

/-! ### The trail -/

/-- A trail lies at the stop or nearer to the price, and before the target. -/
def TrailBetween (direction : Direction) (stop target trail : ℚ) : Prop :=
  match direction with
  | .long => stop ≤ trail ∧ trail < target
  | .short => target < trail ∧ trail ≤ stop
  | .flat => True

theorem Tightens.refl (direction : Direction) (level : ℚ) : Tightens direction level level := by
  cases direction with
  | long => exact le_rfl
  | short => exact le_rfl
  | flat => trivial

theorem TrailBetween.tightens {direction : Direction} {stop target trail : ℚ}
    (h : TrailBetween direction stop target trail) : Tightens direction stop trail := by
  cases direction with
  | long => exact h.1
  | short => exact h.2
  | flat => trivial

section Trail

variable {p : LifecycleParams} {offset : ℕ} {rows : List (Bar × SignalState)} {plan : PlanTerms}
  {f i j : ℕ} {t t' : ℚ} {carried : Option ℚ} {row : Bar × SignalState}

theorem PlanTerms.stop_between (plan : PlanTerms) :
    TrailBetween plan.direction plan.stop plan.target plan.stop := by
  cases hdirection : plan.direction with
  | long =>
    have hcoherent := plan.long_coherent hdirection
    exact ⟨le_rfl, hcoherent.1.trans hcoherent.2⟩
  | short =>
    have hcoherent := plan.short_coherent hdirection
    exact ⟨hcoherent.1.trans hcoherent.2, le_rfl⟩
  | flat => exact absurd hdirection plan.direction_ne

/-- A trail that lies between is the protective level. -/
theorem PlanTerms.level_some (h : TrailBetween plan.direction plan.stop plan.target t) :
    plan.level (some t) = t := by
  have hne := plan.direction_ne
  cases hdirection : plan.direction with
  | long =>
    rw [hdirection] at h
    rcases h.1.eq_or_lt with heq | hlt
    · simp [PlanTerms.level, protectiveOf, hdirection, heq]
    · simp [PlanTerms.level, protectiveOf, hdirection, hlt, h.2]
  | short =>
    rw [hdirection] at h
    rcases h.2.eq_or_lt with heq | hlt
    · simp [PlanTerms.level, protectiveOf, hdirection, heq]
    · simp [PlanTerms.level, protectiveOf, hdirection, hlt, h.1]
  | flat => exact absurd hdirection hne

/-- The next trail is no further from the price than the one before, and before the target where the
close is. -/
theorem PlanTerms.next_spec {level atr : ℚ} {bar : Bar} {multiplier : Option ℚ}
    (hclear : PlanClear plan.direction level plan.target bar)
    (hcarried : ∀ t ∈ carried, TrailBetween plan.direction plan.stop plan.target t)
    (ht' : t' ∈ nextPlanTrail plan.direction carried (some plan.stop) bar.close atr multiplier) :
    TrailBetween plan.direction plan.stop plan.target t' ∧
      ∀ t ∈ carried, Tightens plan.direction t t' := by
  have hlow : bar.low ≤ bar.close := bar.geometry.2.trans (min_le_right _ _)
  have hhigh : bar.close ≤ bar.high := (le_max_right _ _).trans bar.geometry.1
  rw [nextPlanTrail, if_neg plan.direction_ne] at ht'
  obtain ⟨multiplier, -, rfl⟩ := Option.map_eq_some_iff.mp ht'
  have hdistance : 0 ≤ max atr 0 * max multiplier 0 :=
    mul_nonneg (le_max_right _ _) (le_max_right _ _)
  generalize max atr 0 * max multiplier 0 = distance at hdistance
  -- The trail starts from the carried one, or from the stop.
  obtain ⟨base, hbase, hbetween, hcarry⟩ : ∃ base, ((carried.or (some plan.stop)).getD bar.close) =
      base ∧ TrailBetween plan.direction plan.stop plan.target base ∧ ∀ t ∈ carried, t = base := by
    cases carried with
    | none => exact ⟨_, rfl, plan.stop_between, nofun⟩
    | some t => exact ⟨t, rfl, hcarried t rfl, fun _ ht => (Option.some.inj ht).symm⟩
  dsimp only
  rw [hbase]
  cases hdirection : plan.direction with
  | long =>
    rw [hdirection] at hclear hbetween
    rw [if_pos rfl]
    refine ⟨⟨hbetween.1.trans (le_max_left _ _), max_lt hbetween.2 ?_⟩, fun t ht => ?_⟩
    · linarith [hclear.2]
    · exact hcarry t ht ▸ le_max_left _ _
  | short =>
    rw [hdirection] at hclear hbetween
    rw [if_neg (by simp)]
    refine ⟨⟨lt_min hbetween.1 ?_, (min_le_left _ _).trans hbetween.2⟩, fun t ht => ?_⟩
    · linarith [hclear.1]
    · exact hcarry t ht ▸ min_le_left _ _
  | flat => exact absurd hdirection plan.direction_ne

theorem trailInto_of_le (h : i ≤ f + 1) :
    plan.trailInto p offset rows f i = some plan.stop := by
  cases i with
  | zero => rfl
  | succ i => rw [PlanTerms.trailInto, if_neg (by omega)]

theorem trailInto_step (h : f < j) (hrow : rows[j]? = some row) :
    plan.trailInto p offset rows f (j + 1) =
      nextPlanTrail plan.direction (plan.trailInto p offset rows f j) (some plan.stop) row.1.close
        (p.atr (offset + j) row.1) p.trailAtr := by
  rw [PlanTerms.trailInto, if_pos h, hrow]

/-- Rows that come later do not change a trail. -/
theorem trailInto_append (later : List (Bar × SignalState)) (h : j ≤ rows.length) :
    plan.trailInto p offset (rows ++ later) f j = plan.trailInto p offset rows f j := by
  induction j with
  | zero => rfl
  | succ j ih =>
    rw [PlanTerms.trailInto, PlanTerms.trailInto, List.getElem?_append_left (by omega),
      ih (by omega)]

/-- The trails of a plan that is followed lie between its stop and its target. -/
theorem trailInto_between (hpassed : plan.Passed p offset rows f j) (hij : i ≤ j) :
    ∀ t ∈ plan.trailInto p offset rows f i,
      TrailBetween plan.direction plan.stop plan.target t := by
  induction i with
  | zero =>
    intro t ht
    cases ht
    exact plan.stop_between
  | succ i ih =>
    intro t ht
    rcases le_or_gt (i + 1) (f + 1) with hle | hlt
    · rw [trailInto_of_le hle] at ht
      cases ht
      exact plan.stop_between
    · have hfi : f < i := by omega
      cases hrow : rows[i]? with
      | none =>
        rw [PlanTerms.trailInto, if_pos hfi, hrow] at ht
        exact ih (by omega) t ht
      | some row =>
        rw [trailInto_step hfi hrow] at ht
        exact (PlanTerms.next_spec (hpassed i row hfi (by omega) hrow).1 (ih (by omega)) ht).1

/-- Without a multiplier the stop is carried. -/
theorem trailInto_of_no_atr (h : p.trailAtr = none) :
    ∀ t ∈ plan.trailInto p offset rows f i, t = plan.stop := by
  induction i with
  | zero => exact fun t ht => (Option.some.inj ht).symm
  | succ i ih =>
    intro t ht
    rw [PlanTerms.trailInto] at ht
    split_ifs at ht
    · split at ht
      · rw [nextPlanTrail, if_neg plan.direction_ne, h] at ht
        exact nomatch ht
      · exact ih t ht
    · exact (Option.some.inj ht).symm

/-- What the trails of a followed plan do from row to row. -/
structure TrailTightens (p : LifecycleParams) (offset : ℕ) (rows : List (Bar × SignalState))
    (plan : PlanTerms) (f j : ℕ) : Prop where
  level : ∀ i, f < i → i < j → Tightens plan.direction
    (plan.level (plan.trailInto p offset rows f i))
    (plan.level (plan.trailInto p offset rows f (i + 1)))
  trail : ∀ i, f < i → i < j → ∀ t ∈ plan.trailInto p offset rows f i,
    ∀ t' ∈ plan.trailInto p offset rows f (i + 1), Tightens plan.direction t t'
  kept : p.trailAtr ≠ none → ∀ i, plan.trailInto p offset rows f i ≠ none

theorem trailInto_ne_none (h : p.trailAtr ≠ none) (i : ℕ) :
    plan.trailInto p offset rows f i ≠ none := by
  obtain ⟨multiplier, hmultiplier⟩ := Option.ne_none_iff_exists'.mp h
  induction i with
  | zero => exact nofun
  | succ i ih =>
    rw [PlanTerms.trailInto]
    split_ifs
    · split
      · rw [nextPlanTrail, if_neg plan.direction_ne, hmultiplier]
        exact nofun
      · exact ih
    · exact nofun

/-- The trails of a followed plan only tighten. -/
theorem trailTightens_of_passed (hpassed : plan.Passed p offset rows f j) :
    TrailTightens p offset rows plan f j := by
  have htrail : ∀ i, f < i → i < j → ∀ t ∈ plan.trailInto p offset rows f i,
      ∀ t' ∈ plan.trailInto p offset rows f (i + 1), Tightens plan.direction t t' := by
    intro i hfi hij t ht t' ht'
    cases hrow : rows[i]? with
    | none =>
      rw [PlanTerms.trailInto, if_pos hfi, hrow] at ht'
      cases (ht.symm.trans ht')
      exact .refl _ _
    | some row =>
      rw [trailInto_step hfi hrow] at ht'
      exact (PlanTerms.next_spec (hpassed i row hfi hij hrow).1
        (trailInto_between hpassed hij.le) ht').2 t ht
  refine ⟨fun i hfi hij => ?_, htrail, trailInto_ne_none⟩
  have hbetween := trailInto_between hpassed hij.le
  have hbetween' := trailInto_between hpassed (show i + 1 ≤ j by omega)
  have hnone : plan.level none = plan.stop := rfl
  cases ht : plan.trailInto p offset rows f i with
  | none =>
    cases ht' : plan.trailInto p offset rows f (i + 1) with
    | none => exact .refl _ _
    | some t' =>
      rw [hnone, PlanTerms.level_some (hbetween' t' ht')]
      exact (hbetween' t' ht').tightens
  | some t =>
    cases ht' : plan.trailInto p offset rows f (i + 1) with
    | none =>
      have hatr : p.trailAtr = none := by
        by_contra hatr
        exact trailInto_ne_none hatr _ ht'
      rw [trailInto_of_no_atr hatr t ht, hnone, PlanTerms.level_some plan.stop_between]
      exact .refl _ _
    | some t' =>
      rw [PlanTerms.level_some (hbetween t ht), PlanTerms.level_some (hbetween' t' ht')]
      exact htrail i hfi hij t ht t' ht'

end Trail

/-! ### The run -/

/-- The evaluation of rows. -/
def evaluateRows (p : LifecycleParams) (offset : ℕ) (rows : List (Bar × SignalState)) : Evaluation :=
  (rows.zipIdx offset).foldl (fun e entry => e.step p entry.2 entry.1.1 entry.1.2) ⟨none, none⟩

theorem evaluateRows_concat (p : LifecycleParams) (offset : ℕ) (rows : List (Bar × SignalState))
    (row : Bar × SignalState) : evaluateRows p offset (rows ++ [row]) =
      (evaluateRows p offset rows).step p (offset + rows.length) row.1 row.2 := by
  rw [evaluateRows, List.zipIdx_append, List.foldl_append]
  rfl

section Run

variable {p : LifecycleParams} {offset : ℕ} {rows : List (Bar × SignalState)} {plan : ActivePlan}
  {terms : PlanTerms} {o f j : ℕ} {row : Bar × SignalState} {e : Evaluation} {l : PlanLifecycle}

/-- Row `o` opened the plan, and no later row has touched its entry. -/
structure ActivePlan.Waits (rows : List (Bar × SignalState)) (plan : ActivePlan) (o : ℕ) : Prop where
  filled : plan.filled = false
  opened : ∃ row, rows[o]? = some row ∧ row.2.terms row.1 = some plan.terms ∧ row.2.action ≠ .go
  untouched : ∀ i row, o < i → rows[i]? = some row → touched row.1 plan.entry = false

/-- Row `f` filled the plan, and it has passed all later rows. -/
structure ActivePlan.Runs (p : LifecycleParams) (offset : ℕ) (rows : List (Bar × SignalState))
    (plan : ActivePlan) (o f : ℕ) : Prop where
  filled : plan.filled = true
  filledAt : plan.terms.FilledAt p rows o f
  before : f < rows.length
  filledTs : ∀ row, rows[f]? = some row → plan.filledTs = some row.1.ts
  trail : plan.trail = plan.terms.trailInto p offset rows f rows.length
  passed : plan.terms.Passed p offset rows f rows.length

/-- The lifecycle of a plan that ended with row `j`. -/
structure PlanLifecycle.EndsAt (p : LifecycleParams) (offset : ℕ)
    (rows : List (Bar × SignalState)) (l : PlanLifecycle) (terms : PlanTerms) (o f j : ℕ) :
    Prop where
  direction : l.direction = terms.direction
  entry : l.entry = some terms.entry
  stop : l.stop = some terms.stop
  target : l.target = some terms.target
  filledAt : terms.FilledAt p rows o f
  after : f < j
  filledTs : ∀ row, rows[f]? = some row → l.filledTs = some row.1.ts
  trail : l.trail = terms.trailInto p offset rows f j
  passed : terms.Passed p offset rows f j
  ends : ∃ row event, rows[j]? = some row ∧
    terms.exit (terms.trailInto p offset rows f j) row = some event ∧ l.state = event.state ∧
      l.exitPrice = event.exitPrice ∧ l.closedTs = some row.1.ts

/-- What the evaluation has after its rows. -/
structure Evaluation.RunInv (p : LifecycleParams) (offset : ℕ) (rows : List (Bar × SignalState))
    (e : Evaluation) : Prop where
  active : ∀ plan ∈ e.active, ∃ o, plan.openedIndex = offset + o ∧ o < rows.length ∧
    (plan.Waits rows o ∨ ∃ f, plan.Runs p offset rows o f)
  closed : ∀ l ∈ e.lastClosed, l.state = .expired ∨ ∃ terms o f j, l.EndsAt p offset rows terms o f j

/-! ### More rows -/

theorem getElem?_of_append {later : List (Bar × SignalState)} {i : ℕ} (hlt : i < rows.length)
    (h : (rows ++ later)[i]? = some row) : rows[i]? = some row := by
  rwa [List.getElem?_append_left hlt] at h

theorem getElem?_append_of_some {later : List (Bar × SignalState)} {i : ℕ}
    (h : rows[i]? = some row) : (rows ++ later)[i]? = some row := by
  rwa [List.getElem?_append_left (List.getElem?_eq_some_iff.mp h).1]

theorem PlanTerms.FilledAt.append (h : terms.FilledAt p rows o f) (hf : f < rows.length)
    (later : List (Bar × SignalState)) : terms.FilledAt p (rows ++ later) o f := by
  obtain ⟨row, hrow, hterms, hfill⟩ := h.opened
  refine ⟨⟨row, getElem?_append_of_some hrow, hterms, hfill.imp_right ?_⟩, fun i row' hoi hif hrow' => ?_⟩
  · rintro ⟨hgo, hof, hage, filling, hfilling, htouched⟩
    exact ⟨hgo, hof, hage, filling, getElem?_append_of_some hfilling, htouched⟩
  · exact h.untouched i row' hoi hif (getElem?_of_append (by omega) hrow')

theorem PlanTerms.Passed.append (h : terms.Passed p offset rows f j) (hj : j ≤ rows.length)
    (later : List (Bar × SignalState)) : terms.Passed p offset (rows ++ later) f j := by
  intro i row hfi hij hrow
  rw [trailInto_append later (by omega)]
  exact h i row hfi hij (getElem?_of_append (by omega) hrow)

theorem PlanLifecycle.EndsAt.append (h : l.EndsAt p offset rows terms o f j)
    (later : List (Bar × SignalState)) : l.EndsAt p offset (rows ++ later) terms o f j := by
  obtain ⟨row, event, hrow, hexit, hends⟩ := h.ends
  have hj : j < rows.length := (List.getElem?_eq_some_iff.mp hrow).1
  have hf : f < rows.length := h.after.trans hj
  have htrail : terms.trailInto p offset (rows ++ later) f j = terms.trailInto p offset rows f j :=
    trailInto_append later hj.le
  exact ⟨h.direction, h.entry, h.stop, h.target, h.filledAt.append hf later, h.after,
    fun row hrow => h.filledTs row (getElem?_of_append hf hrow), htrail ▸ h.trail,
    h.passed.append hj.le later,
    row, event, getElem?_append_of_some hrow, htrail ▸ hexit, hends⟩

/-- A new row is the last one. -/
theorem getElem?_concat_cases {i : ℕ} {row' : Bar × SignalState}
    (h : (rows ++ [row])[i]? = some row') :
    rows[i]? = some row' ∨ i = rows.length ∧ row' = row := by
  rcases lt_trichotomy i rows.length with hlt | rfl | hgt
  · exact .inl (getElem?_of_append hlt h)
  · rw [List.getElem?_concat_length] at h
    exact .inr ⟨rfl, (Option.some.inj h).symm⟩
  · rw [List.getElem?_eq_none (by rw [List.length_append, List.length_singleton]; omega)] at h
    exact nomatch h

theorem length_concat : (rows ++ [row]).length = rows.length + 1 := by
  rw [List.length_append, List.length_singleton]

theorem ActivePlan.Waits.concat (h : plan.Waits rows o) (hrow : touched row.1 plan.entry = false) :
    plan.Waits (rows ++ [row]) o := by
  obtain ⟨opening, hopening, hopened⟩ := h.opened
  refine ⟨h.filled, ⟨opening, getElem?_append_of_some hopening, hopened⟩, fun i row' hoi hrow' => ?_⟩
  rcases getElem?_concat_cases hrow' with hold | ⟨-, rfl⟩
  · exact h.untouched i row' hoi hold
  · exact hrow

/-- The row that touches the entry fills the plan. -/
theorem ActivePlan.Waits.fill (h : plan.Waits rows o) (ho : o < rows.length)
    (hage : ((rows.length - o : ℕ) : ℤ) ≤ p.maxAgeBars)
    (hrow : touched row.1 plan.entry = true) :
    (plan.fill (offset + rows.length) row.1).Runs p offset (rows ++ [row]) o rows.length := by
  obtain ⟨opening, hopening, hterms, hgo⟩ := h.opened
  have hlast : (rows ++ [row])[rows.length]? = some row := List.getElem?_concat_length
  refine ⟨rfl, ⟨⟨opening, getElem?_append_of_some hopening, hterms, .inr ⟨hgo, ho, hage, row, hlast,
    hrow⟩⟩, fun i row' hoi hif hrow' => ?_⟩, ?_, fun row' hrow' => ?_, ?_, fun i row' hfi hij => ?_⟩
  · exact h.untouched i row' hoi (getElem?_of_append hif hrow')
  · rw [length_concat]
    exact Nat.lt_succ_self _
  · rw [hlast] at hrow'
    exact congrArg (fun row : Bar × SignalState => some row.1.ts) (Option.some.inj hrow')
  · rw [length_concat, trailInto_of_le le_rfl]
    rfl
  · rw [length_concat] at hij
    omega

/-- A row that does not end a plan. -/
theorem ActivePlan.Runs.concat (h : plan.Runs p offset rows o f)
    (hexit : plan.terms.exit plan.trail row = none) {plan' : ActivePlan}
    (hterms : plan'.terms = plan.terms) (hfilled : plan'.filled = true)
    (hts : plan'.filledTs = plan.filledTs)
    (htrail : plan'.trail = nextPlanTrail plan.direction plan.trail (some plan.stop) row.1.close
      (p.atr (offset + rows.length) row.1) p.trailAtr) :
    plan'.Runs p offset (rows ++ [row]) o f := by
  have hlast : (rows ++ [row])[rows.length]? = some row := List.getElem?_concat_length
  have hinto : plan.terms.trailInto p offset (rows ++ [row]) f rows.length = plan.trail := by
    rw [trailInto_append _ le_rfl, h.trail]
  refine ⟨hfilled, hterms ▸ h.filledAt.append h.before _, ?_, fun row' hrow' => ?_, ?_, ?_⟩
  · rw [length_concat]
    exact Nat.lt_succ_of_lt h.before
  · rw [hts]
    exact h.filledTs row' (getElem?_of_append h.before hrow')
  · rw [length_concat, hterms, trailInto_step h.before hlast, hinto, htrail]
    rfl
  · rw [length_concat, hterms]
    intro i row' hfi hij hrow'
    rcases getElem?_concat_cases hrow' with hold | ⟨rfl, rfl⟩
    · exact h.passed.append le_rfl _ i row' hfi (List.getElem?_eq_some_iff.mp hold).1 hrow'
    · rw [hinto]
      exact PlanTerms.exit_eq_none.mp hexit

/-- A row that ends a plan. -/
theorem ActivePlan.Runs.close (h : plan.Runs p offset rows o f) {event : LifecycleCloseEvent}
    (hexit : plan.terms.exit plan.trail row = some event) (source : String) :
    (plan.close source event.state event.terminal event.exitPrice row.1.ts).EndsAt p offset
      (rows ++ [row]) plan.terms o f rows.length := by
  have hlast : (rows ++ [row])[rows.length]? = some row := List.getElem?_concat_length
  have hinto : plan.terms.trailInto p offset (rows ++ [row]) f rows.length = plan.trail := by
    rw [trailInto_append _ le_rfl, h.trail]
  exact ⟨rfl, rfl, rfl, rfl, h.filledAt.append h.before _, h.before,
    fun row' hrow' => h.filledTs row' (getElem?_of_append h.before hrow'), hinto.symm,
    h.passed.append le_rfl _, row, event, hlast, hinto ▸ hexit, rfl, rfl, rfl⟩

/-! ### One step of the evaluation -/

/-- After its expiry, the plan that is left is within its age. -/
theorem Evaluation.RunInv.expireUnfilled (h : e.RunInv p offset rows) (bar : Bar) :
    (∀ plan ∈ (e.expireUnfilled p (offset + rows.length) bar).active, ∃ o,
      plan.openedIndex = offset + o ∧ o < rows.length ∧ plan.ageBars = rows.length - o ∧
        (plan.Waits rows o ∧ ((rows.length - o : ℕ) : ℤ) ≤ p.maxAgeBars ∨
          ∃ f, plan.Runs p offset rows o f)) ∧
      ∀ l ∈ (e.expireUnfilled p (offset + rows.length) bar).lastClosed,
        l.state = .expired ∨ ∃ terms o f j, l.EndsAt p offset rows terms o f j := by
  unfold Evaluation.expireUnfilled
  cases hactive : e.active with
  | none => exact ⟨fun plan hplan => (by cases hactive.symm.trans hplan), h.closed⟩
  | some plan =>
    obtain ⟨o, hopened, ho, hplan⟩ := h.active plan hactive
    have hage : offset + rows.length - plan.openedIndex = rows.length - o := by omega
    dsimp only
    split_ifs with hold
    · refine ⟨fun plan h => absurd h (Option.not_mem_none plan), fun l hl => .inl ?_⟩
      cases hl
      rfl
    · refine ⟨fun plan' hplan' => ?_, h.closed⟩
      cases hplan'
      refine ⟨o, hopened, ho, hage, hplan.imp (fun hwaits => ⟨?_, ?_⟩) (.imp fun f hruns => ?_)⟩
      · exact ⟨hwaits.filled, hwaits.opened, hwaits.untouched⟩
      · rw [hage] at hold
        exact not_lt.mp fun hlt => hold ⟨hwaits.filled, hlt⟩
      · exact ⟨hruns.filled, hruns.filledAt, hruns.before, hruns.filledTs, hruns.trail, hruns.passed⟩

/-- The plan that a signal opens with its bar. -/
theorem Evaluation.openPlan_cases (e : Evaluation) (index : ℕ) (row : Bar × SignalState) :
    e.openPlan index row.1 row.2 = e ∨
      e.active = none ∧ ∃ plan, e.openPlan index row.1 row.2 = { e with active := some plan } ∧
        row.2.terms row.1 = some plan.terms ∧ plan.openedIndex = index ∧
        plan.trail = some plan.stop ∧
        (row.2.action = .go ∧ plan.filled = true ∧ plan.filledTs = some row.1.ts ∨
          row.2.action ≠ .go ∧ plan.filled = false) := by
  rw [Evaluation.openPlan]
  split_ifs with hopens
  · split
    · rename_i entry stop target hentry hstop htarget
      split_ifs with hcoherent
      · refine .inr ⟨Option.isNone_iff_eq_none.mp hopens.1, _, rfl, ?_, rfl, rfl, ?_⟩
        · rw [SignalState.terms, if_pos hopens.2, hentry, hstop, htarget]
          exact dif_pos hcoherent
        · by_cases hgo : row.2.action = .go
          · exact .inl ⟨hgo, decide_eq_true hgo, if_pos hgo⟩
          · exact .inr ⟨hgo, decide_eq_false hgo⟩
      · exact .inl rfl
    · exact .inl rfl
  · exact .inl rfl

/-- **One row.** -/
theorem Evaluation.RunInv.step (h : e.RunInv p offset rows) (row : Bar × SignalState) :
    (e.step p (offset + rows.length) row.1 row.2).RunInv p offset (rows ++ [row]) := by
  obtain ⟨hactive, hclosed⟩ := h.expireUnfilled row.1
  rw [Evaluation.step]
  generalize e.expireUnfilled p (offset + rows.length) row.1 = aged at hactive hclosed
  have hlen : (rows ++ [row]).length = rows.length + 1 := length_concat
  have hclosed' : ∀ l ∈ aged.lastClosed, l.state = .expired ∨
      ∃ terms o f j, l.EndsAt p offset (rows ++ [row]) terms o f j := fun l hl =>
    (hclosed l hl).imp_right fun ⟨terms, o, f, j, hends⟩ => ⟨terms, o, f, j, hends.append _⟩
  have hfollow : (aged.follow p (offset + rows.length) row.1 row.2).RunInv p offset
      (rows ++ [row]) := by
    unfold Evaluation.follow
    cases hplan : aged.active with
    | none => exact ⟨fun plan h => (nomatch hplan.symm.trans h), hclosed'⟩
    | some plan =>
      obtain ⟨o, hopened, ho, hage, hcase⟩ := hactive plan hplan
      have hpositive : 0 < plan.ageBars := by omega
      have ho' : o < (rows ++ [row]).length := by omega
      dsimp only
      rcases hcase with ⟨hwaits, hinTime⟩ | ⟨f, hruns⟩
      · rw [if_neg fun hfilled => absurd (hwaits.filled.symm.trans hfilled.1) (by simp)]
        split_ifs with htouched
        · refine ⟨fun plan' hplan' => ?_, hclosed'⟩
          cases hplan'
          exact ⟨o, hopened, ho', .inr ⟨rows.length, hwaits.fill ho hinTime htouched.2.2⟩⟩
        · refine ⟨fun plan' hplan' => ?_, hclosed'⟩
          cases (hplan.symm.trans hplan')
          have huntouched : touched row.1 plan.entry = false := by
            by_contra hne
            exact htouched ⟨hwaits.filled, hpositive, by simpa using hne⟩
          exact ⟨o, hopened, ho', .inl (hwaits.concat huntouched)⟩
      · rw [if_pos ⟨hruns.filled, hpositive⟩]
        cases hexit : plan.exit row.1 row.2 with
        | some event =>
          refine ⟨fun plan h => absurd h (Option.not_mem_none plan), fun l hl => .inr ?_⟩
          cases hl
          exact ⟨plan.terms, o, f, rows.length, hruns.close hexit p.source⟩
        | none =>
          refine ⟨fun plan' hplan' => ?_, hclosed'⟩
          cases hplan'
          exact ⟨o, hopened, ho', .inr ⟨f, hruns.concat hexit rfl hruns.filled rfl rfl⟩⟩
  generalize aged.follow p (offset + rows.length) row.1 row.2 = followed at hfollow
  rcases followed.openPlan_cases (offset + rows.length) row with hsame | ⟨-, plan, heq, hterms,
    hindex, htrail, hfill⟩
  · rwa [hsame]
  · rw [heq]
    refine ⟨fun plan' hplan' => ?_, hfollow.closed⟩
    cases hplan'
    have hlast : (rows ++ [row])[rows.length]? = some row := List.getElem?_concat_length
    refine ⟨rows.length, hindex, by omega, ?_⟩
    rcases hfill with ⟨hgo, hfilled, hts⟩ | ⟨hgo, hfilled⟩
    · refine .inr ⟨rows.length, hfilled, ⟨⟨row, hlast, hterms, .inl ⟨hgo, rfl⟩⟩, ?_⟩, by omega, ?_, ?_, ?_⟩
      · intro i row' hoi hif
        omega
      · intro row' hrow'
        rw [hts, ← Option.some.inj (hlast.symm.trans hrow')]
      · rw [htrail, hlen, trailInto_of_le le_rfl]
        rfl
      · intro i row' hfi hij
        omega
    · refine .inl ⟨hfilled, ⟨row, hlast, hterms, hgo⟩, fun i row' hoi hrow' => ?_⟩
      have hlt := (List.getElem?_eq_some_iff.mp hrow').1
      omega

/-- All rows. -/
theorem runInv_evaluateRows (p : LifecycleParams) (offset : ℕ) (rows : List (Bar × SignalState)) :
    (evaluateRows p offset rows).RunInv p offset rows := by
  induction rows using List.reverseRecOn with
  | nil => exact ⟨fun plan h => absurd h (Option.not_mem_none plan),
      fun l h => absurd h (Option.not_mem_none l)⟩
  | append_singleton rows row ih =>
    rw [evaluateRows_concat]
    exact ih.step row

end Run

/-! ### What is reported -/

section Reported

variable {p : LifecycleParams} {bars : List Bar} {signals : List SignalState} {l : PlanLifecycle}

/-- The first bar that has a signal. -/
def signalOffset (bars : List Bar) (signals : List SignalState) : ℕ := bars.length - signals.length

/-- A bar from the first signal on has a row. -/
theorem exists_row {i : ℕ} {bar : Bar} (hle : signalOffset bars signals ≤ i)
    (hbar : bars[i]? = some bar) :
    ∃ signal, (signalRows bars signals)[i - signalOffset bars signals]? = some (bar, signal) := by
  have hlt := (List.getElem?_eq_some_iff.mp hbar).1
  have hsignal : i - signalOffset bars signals < signals.length := by
    rw [signalOffset] at hle ⊢
    omega
  refine ⟨signals[i - signalOffset bars signals], ?_⟩
  rw [signalRows, List.getElem?_zip_eq_some, List.getElem?_drop]
  refine ⟨?_, List.getElem?_eq_getElem hsignal⟩
  rwa [← signalOffset, Nat.add_sub_cancel' hle]

/-- The lifecycle of a filled plan that goes on. Bars are counted from the first one, rows from the
first signal. -/
structure PlanLifecycle.Follows (p : LifecycleParams) (bars : List Bar) (signals : List SignalState)
    (l : PlanLifecycle) (terms : PlanTerms) (o f : ℕ) : Prop where
  levels : l.direction = terms.direction ∧ l.entry = some terms.entry ∧ l.stop = some terms.stop ∧
    l.target = some terms.target
  filledAt : terms.FilledAt p (signalRows bars signals) o f
  filledTs : ∀ row, (signalRows bars signals)[f]? = some row → l.filledTs = some row.1.ts
  trail : l.trail = terms.trailInto p (signalOffset bars signals) (signalRows bars signals) f
    (signalRows bars signals).length
  between : ∀ i bar, signalOffset bars signals + f < i → bars[i]? = some bar →
    PlanClear terms.direction (terms.level (terms.trailInto p (signalOffset bars signals)
      (signalRows bars signals) f (i - signalOffset bars signals))) terms.target bar
  tightens : TrailTightens p (signalOffset bars signals) (signalRows bars signals) terms f
    (signalRows bars signals).length

/-- The lifecycle of a filled plan that row `j` ended. -/
structure PlanLifecycle.Ended (p : LifecycleParams) (bars : List Bar) (signals : List SignalState)
    (l : PlanLifecycle) (terms : PlanTerms) (o f j : ℕ) : Prop where
  levels : l.direction = terms.direction ∧ l.entry = some terms.entry ∧ l.stop = some terms.stop ∧
    l.target = some terms.target
  filledAt : terms.FilledAt p (signalRows bars signals) o f
  filledTs : ∀ row, (signalRows bars signals)[f]? = some row → l.filledTs = some row.1.ts
  after : f < j
  passed : terms.Passed p (signalOffset bars signals) (signalRows bars signals) f j
  tightens : TrailTightens p (signalOffset bars signals) (signalRows bars signals) terms f j
  closing : ∃ row, (signalRows bars signals)[j]? = some row ∧ l.closedTs = some row.1.ts ∧
    ¬ (PlanClear terms.direction (terms.level (terms.trailInto p (signalOffset bars signals)
        (signalRows bars signals) f j)) terms.target row.1 ∧
      row.2.opposite terms.direction = false) ∧
    terms.Reports (terms.trailInto p (signalOffset bars signals) (signalRows bars signals) f j) row
      l.state l.exitPrice

/-- **The run of a plan.** A filled plan that goes on has passed every bar after its fill, and its trail
has only tightened. One that has ended otherwise than by its age ended with the first row after its fill
that did not pass; both levels are reported exactly where that row opens between them and touches both,
and a price of the exit lies in its range. -/
theorem lifecycle_run_law (hl : l ∈ lifecycleFromSignals p bars signals) :
    (l.state.active = true → l.filled = true → ∃ terms o f, l.Follows p bars signals terms o f) ∧
      (l.state.terminal = true → l.state ≠ .expired →
        ∃ terms o f j, l.Ended p bars signals terms o f j) := by
  have hinv : (evaluate p bars signals).RunInv p (signalOffset bars signals)
      (signalRows bars signals) := runInv_evaluateRows p _ _
  unfold lifecycleFromSignals Evaluation.result at hl
  split_ifs at hl
  · exact nomatch hl
  cases hactive : (evaluate p bars signals).active with
  | none =>
    rw [hactive] at hl
    refine ⟨fun hgoes => ?_, fun _ hexpired => ?_⟩
    · have hended := LifecycleState.not_active (lastClosed_spec hl).1
      exact absurd (hgoes.symm.trans hended) (by simp)
    · obtain ⟨terms, o, f, j, h⟩ := (hinv.closed l hl).resolve_left hexpired
      obtain ⟨row, event, hrow, hexit, hstate, hprice, hts⟩ := h.ends
      refine ⟨terms, o, f, j, ⟨h.direction, h.entry, h.stop, h.target⟩, h.filledAt, h.filledTs,
        h.after, h.passed, trailTightens_of_passed h.passed, row, hrow, hts, fun hclear => ?_, ?_⟩
      · exact nomatch hexit.symm.trans (PlanTerms.exit_eq_none.mpr hclear)
      · rw [hstate, hprice]
        exact PlanTerms.reports_of_exit hexit
  | some plan =>
    rw [hactive] at hl
    cases hl
    refine ⟨fun _ hfilled => ?_, fun hended => ?_⟩
    · obtain ⟨o, -, -, hwaits | ⟨f, hruns⟩⟩ := hinv.active plan hactive
      · exact absurd (hwaits.filled.symm.trans hfilled) (by simp)
      · refine ⟨plan.terms, o, f, ⟨rfl, rfl, rfl, rfl⟩, hruns.filledAt, hruns.filledTs, hruns.trail,
          fun i bar hlt hbar => ?_, trailTightens_of_passed hruns.passed⟩
        have hle : signalOffset bars signals ≤ i := by omega
        obtain ⟨signal, hrow⟩ := exists_row hle hbar
        have hlater : f < i - signalOffset bars signals := by omega
        exact (hruns.passed _ _ hlater (List.getElem?_eq_some_iff.mp hrow).1 hrow).1
    · have hgoes := plan.lifecycle_active p.source
      exact absurd (hgoes.symm.trans (LifecycleState.not_active hended)) (by simp)

end Reported

/-! ### A bar that opens beyond the stop and reaches the target -/

def gapBar : Bar :=
  { armingBar with
    ts := 60000000
    «open» := 97
    high := 105
    low := 96
    close := 100
    geometry := by decide +kernel }

def goSignals : List SignalState :=
  [⟨.go, .long, some 100, some 98, some 104, none⟩, ⟨.wait, .flat, none, none, none, none⟩]

theorem gap_stops : (lifecycleFromSignals armedParams [armingBar, gapBar] goSignals).map (fun l =>
    (l.state, l.stop, l.target, l.trail, l.closedTs)) =
      some (.stopHit, some 98, some 104, some 98, some gapBar.ts) := by
  decide +kernel

theorem lifecycle_run_law_gap :
    ∃ l ∈ lifecycleFromSignals armedParams [armingBar, gapBar] goSignals, l.state = .stopHit ∧
      ∃ terms o f j, l.Ended armedParams [armingBar, gapBar] goSignals terms o f j := by
  obtain ⟨l, hl, hfields⟩ := Option.map_eq_some_iff.mp gap_stops
  have hstate : l.state = .stopHit := congrArg Prod.fst hfields
  exact ⟨l, hl, hstate, (lifecycle_run_law hl).2 (by rw [hstate]; rfl) (by rw [hstate]; decide)⟩

/-- It touches both levels of the plan, and only the stop is reported. -/
theorem gap_touches_both :
    ¬ ∀ p bars signals l bar stop target, l ∈ lifecycleFromSignals p bars signals →
      l.state.hit = true → bar ∈ bars → l.closedTs = some bar.ts → l.stop = some stop →
      l.target = some target → l.trail = some stop → touched bar stop = true →
      touched bar target = true → l.state = .targetAndStopHit := by
  intro hclaim
  obtain ⟨l, hl, hfields⟩ := Option.map_eq_some_iff.mp gap_stops
  simp only [Prod.mk.injEq] at hfields
  obtain ⟨hstate, hstop, htarget, htrail, hclosed⟩ := hfields
  have hboth := hclaim armedParams [armingBar, gapBar] goSignals l gapBar 98 104 hl
    (by rw [hstate]; rfl) (by simp) hclosed hstop htarget htrail (by decide +kernel) (by decide +kernel)
  exact nomatch hstate.symm.trans hboth

end AefTerminal
