import AefTerminal.ChartHistory.Runtime
import AefTerminal.ChartEvents.GenerationFence

/-!
# No stale history for a caller

What a caller gets from the cache was checked when it was returned, and what it gets from a load
that ends after the call was checked when the load ended. There is a third way. Between the last
step of a load and its completion callback the load has ended and is still in flight, and a call
that joins it gets its result without a check. If the generation of the chart moved in between, as
it does when a commit that failed in its thread invalidates its write, that result was never
current since the call.

Nowhere else is a result out of date: where no call joins a load that ended at another generation
than the present one, what a call returns was current at some moment since it was made. The cache
is right in every run.

## Main results

* `ChartHistoryState.never_stale`, `ChartHistoryState.joins_stale`
-/

namespace AefTerminal

open Foundation

/-- The bars were read at the generation of the load. -/
structure ConfirmedChartHistoryLoad.Labelled (load : ConfirmedChartHistoryLoad) : Prop where
  readFrom : load.readFrom = load.canonicalGeneration
  readTo : load.readTo = load.canonicalGeneration

/-- What a load has read so far. -/
def LoadPhase.Sound : LoadPhase → Prop
  | .reading _ generation readFrom => readFrom = generation
  | .planning _ load => load.Labelled
  | .ended (some load) => load.Labelled
  | _ => True

namespace ChartHistoryState

variable {getsizeof : ConfirmedChartHistoryLoad → ℕ} {s t : ChartHistoryState} {caller task : ℕ}
  {c : HistoryCaller} {key : ChartCacheKey} {result : ConfirmedChartHistoryLoad} {now : ℚ}

/-- The generation of the result was the current one of its chart at some moment since the call. -/
def Since (s : ChartHistoryState) (c : HistoryCaller) (result : ConfirmedChartHistoryLoad) : Prop :=
  s.tables.HeldSince c.calledAt fun table =>
    table.generation c.key.scope = result.canonicalGeneration

/-- What the callers were returned is not stale, and the cache holds what was read under the
generation at which it was read. -/
structure NeverStale (s : ChartHistoryState) : Prop where
  returned : ∀ caller c result, s.callers caller = some c → c.phase = .returned result →
    s.Since c result
  cached : ∀ key cached, s.resultCache.get? key = some cached →
    cached.result.canonicalGeneration = cached.generation ∧
      cached.result.readFrom = cached.generation ∧ cached.result.readTo = cached.generation

/-- The result of the ended load that a call would join under the lock. -/
def endedJoined (s : ChartHistoryState) (key : ChartCacheKey) (now : ℚ) :
    Option ConfirmedChartHistoryLoad :=
  match (s.pruneResultCache now).cachedResult key (s.table.generation key.scope) now with
  | some _ => none
  | none =>
    match s.inflight.get? key with
    | none => none
    | some existing =>
      match (s.loads existing.task).map HistoryLoad.phase with
      | some (.ended result) => result
      | _ => none

/-- No call joins a load that has ended at another generation than the present one. -/
def JoinsCurrent (s : ChartHistoryState) : Act → Prop
  | .lock caller _ now => ∀ c ∈ s.callers caller, ∀ result ∈ s.endedJoined c.key now,
    result.canonicalGeneration = s.table.generation c.key.scope
  | _ => True

instance (s : ChartHistoryState) : ∀ a, Decidable (s.JoinsCurrent a)
  | .lock caller _ now => inferInstanceAs (Decidable (∀ c ∈ s.callers caller,
      ∀ result ∈ s.endedJoined c.key now,
        result.canonicalGeneration = s.table.generation c.key.scope))
  | .perform _ | .call .. | .resume .. | .resumeRepair .. | .deliver _ | .abandon _ | .load ..
  | .callback .. => inferInstanceAs (Decidable True)

/-- The invariant. -/
structure Inv (s : ChartHistoryState) : Prop where
  called : ∀ caller c, s.callers caller = some c → c.calledAt ≤ s.tables.commits
  joined : ∀ caller c task, s.callers caller = some c → c.phase = .joined task →
    ∃ load, s.loads task = some load ∧ load.key = c.key ∧
      ∀ result, load.phase = .ended (some result) → s.Since c result
  returned : ∀ caller c result, s.callers caller = some c → c.phase = .returned result →
    s.Since c result
  inflight : ∀ key existing, s.inflight.get? key = some existing →
    ∃ load, s.loads existing.task = some load ∧ load.key = key
  loads : ∀ task load, s.loads task = some load → load.phase.Sound
  cached : ∀ key cached, s.resultCache.get? key = some cached →
    cached.result.canonicalGeneration = cached.generation ∧ cached.result.Labelled

theorem Inv.start (table : ChartEvents) : (start table).Inv :=
  ⟨fun _ _ h => (nomatch h), fun _ _ _ h => (nomatch h), fun _ _ _ h => (nomatch h),
    fun _ _ h => (nomatch h), fun _ _ h => (nomatch h), fun _ _ h => (nomatch h)⟩

theorem Inv.neverStale (h : s.Inv) : s.NeverStale :=
  ⟨h.returned, fun key cached hcached => by
    obtain ⟨heq, hlabelled⟩ := h.cached key cached hcached
    exact ⟨heq, hlabelled.readFrom.trans heq, hlabelled.readTo.trans heq⟩⟩

/-! ### The cache -/

/-- What stays in the cache is what was in it. -/
theorem get?_resultCache_prune {cached : CachedHistoryResult}
    (h : (s.pruneResultCache now).resultCache.get? key = some cached) :
    s.resultCache.get? key = some cached := by
  unfold pruneResultCache dropResults at h
  simp only [Dict.get?_eraseAll] at h
  split_ifs at h
  exact h

theorem Inv.prune (h : s.Inv) (now : ℚ) : (s.pruneResultCache now).Inv :=
  ⟨h.called, h.joined, h.returned, h.inflight, h.loads,
    fun key cached hcached => h.cached key cached (get?_resultCache_prune hcached)⟩

theorem Inv.forget (h : s.Inv) (key : ChartCacheKey) : (s.forgetCacheGeneration key).Inv := by
  unfold forgetCacheGeneration
  split
  · exact h
  · exact ⟨h.called, h.joined, h.returned, h.inflight, h.loads, h.cached⟩

/-- What the cache returns is current. -/
theorem cachedResult_spec (h : s.Inv) {generation : ℕ}
    (hcached : s.cachedResult key generation now = some result) :
    s.table.generation key.scope = result.canonicalGeneration := by
  unfold cachedResult at hcached
  split at hcached
  · exact absurd hcached (by simp)
  · rename_i cached hget
    split_ifs at hcached with hfresh
    split at hcached
    · rename_i observed hok
      cases hcached
      rw [(h.cached key cached hget).1, hfresh.1]
      exact (ChartEvents.requireChartBarsGeneration_eq_ok hok).1
    · exact absurd hcached (by simp)

theorem Inv.finishInflightLoad (h : s.Inv) (getsizeof : ConfirmedChartHistoryLoad → ℕ)
    {result : Option ConfirmedChartHistoryLoad} (hresult : ∀ r ∈ result, r.Labelled)
    (cacheGeneration : ℕ) (now : ℚ) :
    (s.finishInflightLoad getsizeof key task result cacheGeneration now).Inv := by
  have herased : ({ s with inflight := s.inflight.erase key } : ChartHistoryState).Inv := by
    refine ⟨h.called, h.joined, h.returned, fun other existing hget => ?_, h.loads, h.cached⟩
    rw [Dict.get?_erase] at hget
    split_ifs at hget
    exact h.inflight other existing hget
  unfold ChartHistoryState.finishInflightLoad
  split_ifs with howner
  · exact h
  · cases result with
    | none => exact herased.forget key
    | some result =>
      dsimp only
      split_ifs with hgeneration
      · exact herased.forget key
      · split
        · exact herased.forget key
        · refine Inv.prune ?_ now
          refine ⟨h.called, h.joined, h.returned, herased.inflight, h.loads,
            fun other cached hget => ?_⟩
          rw [Dict.get?_insert] at hget
          split_ifs at hget
          · cases hget
            exact ⟨rfl, hresult result rfl⟩
          · exact h.cached other cached hget

/-! ### A load -/

theorem sound_retry (attempt : ℕ) :
    (retry attempt).Sound ∧ ∀ r, retry attempt ≠ .ended (some r) := by
  unfold retry
  split
  · exact ⟨trivial, fun r => by simp⟩
  · exact ⟨trivial, fun r => by simp⟩

theorem sound_conclude {load : ConfirmedChartHistoryLoad} (h : load.Labelled) (attempt : ℕ) :
    (s.conclude key attempt load).Sound ∧
      ∀ r, s.conclude key attempt load = .ended (some r) →
        s.table.generation key.scope = r.canonicalGeneration := by
  unfold conclude
  split
  · rename_i observed hok
    refine ⟨h, fun r hr => ?_⟩
    cases hr
    exact (ChartEvents.requireChartBarsGeneration_eq_ok hok).1
  · exact (sound_retry attempt).imp_right fun hne r hr => absurd hr (hne r)

theorem sound_beginRead (s : ChartHistoryState) (key : ChartCacheKey) (attempt generation : ℕ) :
    (s.beginRead key attempt generation).Sound ∧
      ∀ r, s.beginRead key attempt generation ≠ .ended (some r) := by
  unfold beginRead
  split
  · rename_i observed hok
    exact ⟨(ChartEvents.requireChartBarsGeneration_eq_ok hok).1, fun r => by simp⟩
  · exact sound_retry attempt

theorem sound_endRead {attempt generation readFrom : ℕ} (h : readFrom = generation)
    (bars : List Bar) (warning : String) (supported : Bool) :
    (s.endRead key attempt generation readFrom bars warning supported).Sound ∧
      ∀ r, s.endRead key attempt generation readFrom bars warning supported = .ended (some r) →
        s.table.generation key.scope = r.canonicalGeneration := by
  unfold endRead
  split
  · exact (sound_retry attempt).imp_right fun hne r hr => absurd hr (hne r)
  · rename_i observed hok
    have hlabelled : ConfirmedChartHistoryLoad.Labelled
        ⟨bars, warning, generation, readFrom, s.table.generation key.scope⟩ :=
      ⟨h, (ChartEvents.requireChartBarsGeneration_eq_ok hok).1⟩
    dsimp only
    split_ifs with hsupported
    · exact ⟨hlabelled, fun r hr => absurd hr (by simp)⟩
    · exact sound_conclude hlabelled attempt

/-- A load ends with a result only at the generation of the result. -/
theorem nextPhase_spec {phase phase' : LoadPhase} {event : LoadEvent}
    (h : phase.Sound) (hnext : s.nextPhase key phase event = some phase') :
    phase'.Sound ∧ ∀ r, phase' = .ended (some r) →
      s.table.generation key.scope = r.canonicalGeneration := by
  unfold nextPhase at hnext
  split at hnext
  · exact absurd hnext (by simp)
  · cases hnext
    exact ⟨trivial, fun r hr => absurd hr (by simp)⟩
  · split_ifs at hnext with hwrite hattempt
    · cases hnext
      exact ⟨trivial, fun r hr => absurd hr (by simp)⟩
    · cases hnext
      obtain ⟨hsound, hne⟩ := sound_beginRead s key _ _
      exact ⟨hsound, fun r hr => absurd hr (hne r)⟩
  · cases hnext
    obtain ⟨hsound, hne⟩ := sound_beginRead s _ _ _
    exact ⟨hsound, fun r hr => absurd hr (hne r)⟩
  · cases hnext
    exact sound_endRead h ..
  · cases hnext
    exact sound_conclude h _
  · exact absurd hnext (by simp)

theorem loads_setLoad_self (s : ChartHistoryState) (task : ℕ) (load : HistoryLoad) :
    (s.setLoad task load).loads task = some load := Function.update_self ..

theorem loads_setLoad_of_ne (s : ChartHistoryState) {other task : ℕ} (h : other ≠ task)
    (load : HistoryLoad) : (s.setLoad task load).loads other = s.loads other :=
  Function.update_of_ne h ..

/-- A load takes a step, and ends only at the generation of its result. -/
theorem Inv.replaceLoad (h : s.Inv) {load : HistoryLoad} (hload : s.loads task = some load)
    (load' : HistoryLoad) (hkey : load'.key = load.key) (hsound : load'.phase.Sound)
    (hended : ∀ r, load'.phase = .ended (some r) → load.phase = .ended (some r) ∨
      s.table.generation load.key.scope = r.canonicalGeneration) : (s.setLoad task load').Inv := by
  have hself := s.loads_setLoad_self task load'
  refine ⟨h.called, fun caller c joined hcaller hphase => ?_, h.returned,
    fun key existing hget => ?_, fun other load₁ hget => ?_, h.cached⟩
  · obtain ⟨load₁, hload₁, hkey₁, hsince⟩ := h.joined caller c joined hcaller hphase
    by_cases heq : joined = task
    · subst heq
      obtain rfl : load = load₁ := Option.some.inj (hload.symm.trans hload₁)
      refine ⟨load', hself, hkey.trans hkey₁, fun r hr => ?_⟩
      rcases hended r hr with hr | hcurrent
      · exact hsince r hr
      · exact MarkedHistory.heldSince_current (h.called caller c hcaller) (hkey₁ ▸ hcurrent)
    · exact ⟨load₁, (s.loads_setLoad_of_ne heq _).trans hload₁, hkey₁, hsince⟩
  · obtain ⟨load₁, hload₁, hkey₁⟩ := h.inflight key existing hget
    by_cases heq : existing.task = task
    · rw [heq] at hload₁ ⊢
      obtain rfl : load = load₁ := Option.some.inj (hload.symm.trans hload₁)
      exact ⟨load', hself, hkey.trans hkey₁⟩
    · exact ⟨load₁, (s.loads_setLoad_of_ne heq _).trans hload₁, hkey₁⟩
  · by_cases heq : other = task
    · subst heq
      cases (hself.symm.trans hget)
      exact hsound
    · exact h.loads other load₁ ((s.loads_setLoad_of_ne heq _).symm.trans hget)

/-- A new load. -/
theorem Inv.addLoad (h : s.Inv) (hnew : s.loads task = none) (load : HistoryLoad)
    (hsound : load.phase.Sound) : (s.setLoad task load).Inv := by
  have hother {other : ℕ} {load' : HistoryLoad} (hload : s.loads other = some load') :
      (s.setLoad task load).loads other = some load' := by
    have hne : other ≠ task := fun heq => by
      rw [heq, hnew] at hload
      exact absurd hload (by simp)
    exact (s.loads_setLoad_of_ne hne _).trans hload
  refine ⟨h.called, fun caller c joined hcaller hjoined => ?_, h.returned,
    fun key existing hget => ?_, fun other load' hget => ?_, h.cached⟩
  · obtain ⟨load', hload', hrest⟩ := h.joined caller c joined hcaller hjoined
    exact ⟨load', hother hload', hrest⟩
  · obtain ⟨load', hload', hkey⟩ := h.inflight key existing hget
    exact ⟨load', hother hload', hkey⟩
  · by_cases heq : other = task
    · subst heq
      cases ((s.loads_setLoad_self other load).symm.trans hget)
      exact hsound
    · exact h.loads other load' ((s.loads_setLoad_of_ne heq _).symm.trans hget)

/-! ### A call -/

/-- A caller takes a step. -/
theorem Inv.setCaller (h : s.Inv) (hcalled : c.calledAt ≤ s.tables.commits)
    (hjoined : ∀ task, c.phase = .joined task → ∃ load, s.loads task = some load ∧
      load.key = c.key ∧ ∀ r, load.phase = .ended (some r) → s.Since c r)
    (hreturned : ∀ r, c.phase = .returned r → s.Since c r) : (s.setCaller caller c).Inv := by
  have hcases {other : ℕ} {c' : HistoryCaller}
      (hget : (s.setCaller caller c).callers other = some c') :
      c' = c ∨ s.callers other = some c' := by
    by_cases heq : other = caller
    · subst heq
      have hself : (s.setCaller other c).callers other = some c := Function.update_self ..
      exact .inl (Option.some.inj (hself.symm.trans hget)).symm
    · have hsame : (s.setCaller caller c).callers other = s.callers other :=
        Function.update_of_ne heq ..
      exact .inr (hsame.symm.trans hget)
  refine ⟨fun other c' hget => ?_, fun other c' joined hget hphase => ?_,
    fun other c' r hget hphase => ?_, h.inflight, h.loads, h.cached⟩
  · rcases hcases hget with rfl | hget
    · exact hcalled
    · exact h.called other c' hget
  · rcases hcases hget with rfl | hget
    · exact hjoined joined hphase
    · exact h.joined other c' joined hget hphase
  · rcases hcases hget with rfl | hget
    · exact hreturned r hphase
    · exact h.returned other c' r hget hphase

/-- A caller goes on, or is returned what it may be returned. -/
theorem Inv.setPhase (h : s.Inv) (hcaller : s.callers caller = some c) {phase : CallerPhase}
    (hjoined : ∀ task, phase ≠ .joined task) (hreturned : ∀ r, phase = .returned r → s.Since c r) :
    (s.setCaller caller { c with phase := phase }).Inv :=
  h.setCaller (h.called caller c hcaller) (fun task hphase => absurd hphase (hjoined task)) hreturned

/-- A caller gets a result that is current. -/
theorem Inv.returnCurrent (h : s.Inv) (hcaller : s.callers caller = some c)
    (hcurrent : s.table.generation c.key.scope = result.canonicalGeneration) :
    (s.setCaller caller { c with phase := .returned result }).Inv := by
  refine h.setPhase hcaller nofun fun r hphase => ?_
  obtain rfl : result = r := CallerPhase.returned.inj hphase
  exact MarkedHistory.heldSince_current (h.called caller c hcaller) hcurrent

/-- A caller joins a load for its key. -/
theorem Inv.join (h : s.Inv) (hcaller : s.callers caller = some c) {load : HistoryLoad}
    (hload : s.loads task = some load) (hkey : load.key = c.key)
    (hended : ∀ r, load.phase = .ended (some r) →
      s.table.generation c.key.scope = r.canonicalGeneration) :
    (s.setCaller caller { c with phase := .joined task }).Inv := by
  refine h.setCaller (h.called caller c hcaller) (fun joined hphase => ?_)
    fun r hphase => (nomatch hphase)
  obtain rfl : task = joined := CallerPhase.joined.inj hphase
  refine ⟨load, hload, hkey, fun r hr => ?_⟩
  exact MarkedHistory.heldSince_current (h.called caller c hcaller) (hended r hr)

theorem Inv.resume (h : s.Inv) (hcaller : s.callers caller = some c) (now : ℚ) :
    (s.resume caller c now).Inv := by
  have hpruned := h.prune now
  unfold ChartHistoryState.resume
  dsimp only
  split
  · rename_i result hcached
    exact hpruned.returnCurrent hcaller (cachedResult_spec hpruned hcached)
  · exact hpruned.setPhase hcaller nofun nofun

theorem Inv.startLoad (h : s.Inv) (hnew : s.loads task = none) (key : ChartCacheKey) :
    (s.startLoad key task).Inv := by
  have hadded := h.addLoad hnew ⟨key, .waiting 0, some ((s.cacheGeneration.get? key).getD 0)⟩ trivial
  refine ⟨hadded.called, hadded.joined, hadded.returned, fun other existing hget => ?_,
    hadded.loads, hadded.cached⟩
  have hget' : (s.inflight.insert key _).get? other = some existing := hget
  rw [Dict.get?_insert] at hget'
  split_ifs at hget' with heq
  · cases hget'
    exact ⟨_, s.loads_setLoad_self task _, heq.symm⟩
  · exact hadded.inflight other existing hget'

theorem Inv.lock (h : s.Inv) (hcaller : s.callers caller = some c) (hnew : s.loads task = none)
    (hjoins : ∀ r ∈ s.endedJoined c.key now, r.canonicalGeneration =
      s.table.generation c.key.scope) : (s.lock caller c task now).Inv := by
  have hpruned := h.prune now
  unfold ChartHistoryState.lock
  dsimp only
  split
  · rename_i result hcached
    exact hpruned.returnCurrent hcaller (cachedResult_spec hpruned hcached)
  · rename_i hmiss
    split
    · rename_i existing hexisting
      obtain ⟨load, hload, hkey⟩ := hpruned.inflight c.key existing hexisting
      refine hpruned.join hcaller hload hkey fun r hr => (hjoins r ?_).symm
      have hload' : s.loads existing.task = some load := hload
      unfold endedJoined
      rw [show (s.pruneResultCache now).cachedResult c.key (s.table.generation c.key.scope) now =
        none from hmiss]
      dsimp only
      rw [show s.inflight.get? c.key = some existing from hexisting]
      dsimp only
      rw [hload', Option.map_some, hr]
      rfl
    · have hstarted := hpruned.startLoad hnew c.key
      exact hstarted.join hcaller (loads_setLoad_self ..) rfl fun r hr => (nomatch hr)

/-! ### Runs -/

theorem Step.inv {a : Act} (h : s.Inv) (hok : JoinsCurrent s a) (hstep : Step getsizeof s a t) :
    t.Inv := by
  cases hstep with
  | perform a =>
    have hext := MarkedHistory.extends_commit s.tables (s.table.perform a)
    refine ⟨fun caller c hcaller => (h.called caller c hcaller).trans hext.commits_le,
      fun caller c task hcaller hphase => ?_,
      fun caller c r hcaller hphase => (h.returned caller c r hcaller hphase).extends hext,
      h.inflight, h.loads, h.cached⟩
    obtain ⟨load, hload, hkey, hsince⟩ := h.joined caller c task hcaller hphase
    exact ⟨load, hload, hkey, fun r hr => (hsince r hr).extends hext⟩
  | call caller key repairWindow hnew =>
    exact h.setCaller le_rfl nofun nofun
  | resume now hcaller hphase hrepair hstable => exact h.resume hcaller now
  | @resumeRepair caller c task hcaller hphase hrepair hstable hnew =>
    have hadded := h.addLoad hnew ⟨c.key, .waiting 0, none⟩ trivial
    exact hadded.join hcaller (loads_setLoad_self ..) rfl fun r hr => (nomatch hr)
  | lock task now hcaller hphase hnew => exact h.lock hcaller hnew (hok _ hcaller)
  | @deliver caller task c load result hcaller hphase hload hended =>
    obtain ⟨load', hload', hkey, hsince⟩ := h.joined _ _ task hcaller hphase
    obtain rfl : load = load' := Option.some.inj (hload.symm.trans hload')
    cases result with
    | none => exact h.setPhase hcaller nofun nofun
    | some result =>
      refine h.setPhase hcaller nofun fun r hphase => ?_
      obtain rfl : result = r := CallerPhase.returned.inj hphase
      exact hsince result hended
  | abandon hcaller hphase => exact h.setPhase hcaller nofun nofun
  | load event hload hnext =>
    obtain ⟨hsound, hended⟩ := nextPhase_spec (h.loads _ _ hload) hnext
    exact h.replaceLoad hload _ rfl hsound fun r hr => .inr (hended r hr)
  | @callback task load result cacheGeneration now hload hended hcallback =>
    have hsound := h.loads _ _ hload
    have hreplaced := h.replaceLoad hload { load with callback := none } rfl hsound
      fun r hr => .inl hr
    refine hreplaced.finishInflightLoad getsizeof (fun r hr => ?_) cacheGeneration now
    rw [hended, Option.mem_def.mp hr] at hsound
    exact hsound

/-- **No stale history.** In every run in which no call joins a load that has ended at another
generation than the present one. -/
theorem never_stale {table : ChartEvents} {as : List Act}
    (hrun : Run (Guarded JoinsCurrent (Step getsizeof)) (start table) as s) : s.NeverStale := by
  have hinv : Inv s := hrun.invariant (fun _ _ _ h hstep => hstep.2.inv h hstep.1) (.start table)
  exact hinv.neverStale

def demoKey : ChartCacheKey :=
  ⟨"demo", "demo:1", "route", .m1, "1d", false, none, none, by decide,
    fun h => absurd h (by decide)⟩

def demoLoad : ConfirmedChartHistoryLoad := ⟨[], "", 0, 0, 0⟩

/-- A call that waits. -/
def demoCaller (calledAt : ℕ) : HistoryCaller := ⟨demoKey, false, calledAt, .waiting⟩

/-- The load of the first call has ended; its callback is still to run. -/
def demoEnded : ChartHistoryState :=
  let s := (start .initial).setCaller 0 (demoCaller 0)
  let s := (s.resume 0 (demoCaller 0) 0).lock 0 { demoCaller 0 with phase := .locking } 0 0
  let s := s.setLoad 0 ⟨demoKey, .opening 0, some 0⟩
  let s := s.setLoad 0 ⟨demoKey, .reading 0 0 0, some 0⟩
  s.setLoad 0 ⟨demoKey, .ended (some demoLoad), some 0⟩

theorem demoEnded_run : Run (Guarded JoinsCurrent (Step getsizeof)) (start .initial)
    [.call 0 demoKey false, .resume 0 0, .lock 0 0 0, .load 0 .resumed, .load 0 .resumed,
      .load 0 (.bars [] "" false)] demoEnded :=
  .cons ⟨trivial, .call 0 demoKey false rfl⟩ <|
  .cons ⟨trivial, .resume (c := demoCaller 0) 0 rfl rfl rfl rfl⟩ <|
  .cons ⟨by decide +kernel, .lock (c := { demoCaller 0 with phase := .locking }) 0 0 rfl rfl rfl⟩ <|
  .cons ⟨trivial, .load .resumed rfl rfl⟩ <|
  .cons ⟨trivial, .load .resumed rfl rfl⟩ <|
  .cons ⟨trivial, .load (.bars [] "" false) rfl rfl⟩ <| .nil _

/-- A second call joins it and is returned its result. -/
def demoJoin (s : ChartHistoryState) : ChartHistoryState :=
  let c := demoCaller s.tables.commits
  let s := (s.setCaller 1 c).resume 1 c 1
  let s := s.lock 1 { c with phase := .locking } 1 1
  s.setCaller 1 { c with phase := .returned demoLoad }

/-- It joins while the generation is the same. -/
theorem never_stale_joined :
    (demoJoin demoEnded).callers 1 = some { demoCaller 0 with phase := .returned demoLoad } ∧
      (demoJoin demoEnded).NeverStale := by
  have hrun : Run (Guarded JoinsCurrent (Step fun _ => 0)) demoEnded
      [.call 1 demoKey false, .resume 1 1, .lock 1 1 1, .deliver 1] (demoJoin demoEnded) :=
    .cons ⟨trivial, .call 1 demoKey false rfl⟩ <|
    .cons ⟨trivial, .resume (c := demoCaller 0) 1 rfl rfl rfl rfl⟩ <|
    .cons ⟨by decide +kernel,
      .lock (c := { demoCaller 0 with phase := .locking }) 1 1 rfl rfl rfl⟩ <|
    .cons ⟨trivial, .deliver (c := { demoCaller 0 with phase := .joined 0 }) rfl rfl rfl rfl⟩ <|
    .nil _
  exact ⟨rfl, never_stale (demoEnded_run.append hrun)⟩

/-- A commit that fails in its thread invalidates its write. -/
def demoInvalidated : ChartHistoryState :=
  (demoEnded.perform (.beginWrite 0 demoKey.scope)).perform
    (.invalidateWrite ⟨demoKey.scope, 0, 1⟩ "uncertain")

/-- The second call is made after that, and is returned what the ended load had read before. -/
theorem joins_stale : ∃ as s, Run (Step fun _ => 0) (start .initial) as s ∧ ¬ s.NeverStale := by
  have hrun : Run (Step fun _ => 0) demoEnded
      [.perform (.beginWrite 0 demoKey.scope),
        .perform (.invalidateWrite ⟨demoKey.scope, 0, 1⟩ "uncertain"), .call 1 demoKey false,
        .resume 1 1, .lock 1 1 1, .deliver 1] (demoJoin demoInvalidated) :=
    .cons (.perform _) <| .cons (.perform _) <|
    .cons (.call 1 demoKey false rfl) <|
    .cons (.resume (c := demoCaller 2) 1 rfl rfl rfl rfl) <|
    .cons (.lock (c := { demoCaller 2 with phase := .locking }) 1 1 rfl rfl rfl) <|
    .cons (.deliver (c := { demoCaller 2 with phase := .joined 0 }) rfl rfl rfl rfl) <| .nil _
  refine ⟨_, _, demoEnded_run.unguard.append hrun, fun h => ?_⟩
  obtain ⟨j, table, hle, hj, hgeneration⟩ :=
    h.returned 1 { demoCaller 2 with phase := .returned demoLoad } demoLoad rfl rfl
  obtain ⟨hlt, -⟩ := List.getElem?_eq_some_iff.mp hj
  have hnow : j = 2 := Nat.le_antisymm (Nat.le_of_lt_succ hlt) hle
  subst hnow
  obtain rfl : demoInvalidated.table = table := Option.some.inj hj
  exact absurd hgeneration (by decide +kernel)

end ChartHistoryState

end AefTerminal
