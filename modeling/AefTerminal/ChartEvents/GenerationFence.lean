import AefTerminal.ChartEvents.Guards
import Mathlib.Data.List.Range

/-!
# The generation as a fence

A reader captures a scope's generation, works, and has it checked before its result is used: by
the read fence, on beginning a write or on beginning a publication. The check is sound when equal
generations mean that nothing took effect in between.

The generation of a scope is one entry of a map bounded at `maxGenerationKeys` scopes. Evicting
an entry sets the scope back to `0`, and a fence captured at `0` opens again
(`generation_fence_evicted`). Apart from that the fence is sound: over any run that evicts no
generation it never decreases, and equal captures enclose no effect (`generation_fence`).

## Main results

* `ChartEvents.generation_perform`: an act moves at most one scope, forward, and evicts at most one
* `ChartEvents.generation_fence_evicted`, `ChartEvents.generation_fence`
-/

namespace AefTerminal

open Foundation

namespace ChartEvents

variable {s t u : ChartEvents} {a : ChartEventAct} {k key : ChartRefreshKey} {reason : String}
  {bars : List Bar}

/-- Calls by any party in any order, with any guard. -/
abbrev Calls (s : ChartEvents) (a : ChartEventAct) (t : ChartEvents) : Prop := t = s.perform a

/-- The advance a call makes: a publication of a scope still at its expected generation, or an
invalidation by a write that is held and that no publication has settled. -/
def advances (s : ChartEvents) : ChartEventAct → Option (ChartRefreshKey × String × List Bar)
  | .publish key reason bars expected =>
    if ∃ g, expected = some g ∧ s.generation key ≠ g then none else some (key, reason, bars)
  | .invalidateWrite guard reason =>
    if s.writesInProgress.get? guard.key = some guard.token ∧
        s.generation guard.key = guard.expectedGeneration
    then some (guard.key, reason, []) else none
  | _ => none

/-- A publication or an uncertain write takes effect on a scope. -/
def TakesEffect (k : ChartRefreshKey) (s : ChartEvents) (a : ChartEventAct) : Prop :=
  ∃ reason bars, s.advances a = some (k, reason, bars)

/-- The call drops the generation of some scope from the bounded map. -/
def EvictsGeneration (s : ChartEvents) (a : ChartEventAct) : Prop :=
  ∃ key reason bars, s.advances a = some (key, reason, bars) ∧
    s.evictedScope key reason bars ≠ none

/-- A check of scope `k` at generation `g` passes: the read fence, a write or a publication. -/
def Accepts (s : ChartEvents) (k : ChartRefreshKey) (g : ℕ) : Prop :=
  (∃ observed, s.requireChartBarsGeneration g k = .ok observed) ∨
    (∃ r, s.beginChartBarsWrite g k = .ok r) ∨
      ∃ scopes r, ⟨k, g⟩ ∈ scopes ∧ s.beginChartBarsPublication scopes = .ok r

theorem Accepts.generation_eq {g : ℕ} (h : s.Accepts k g) : s.generation k = g := by
  rcases h with ⟨observed, h⟩ | ⟨⟨guard, t⟩, h⟩ | ⟨scopes, ⟨guard, t⟩, hmem, h⟩
  · exact (requireChartBarsGeneration_eq_ok h).1
  · exact (beginChartBarsWrite_eq_ok h).1
  · obtain ⟨-, hscopes, hfree, -⟩ := beginChartBarsPublication_eq_ok h
    exact (hfree _ ((hscopes k g).mpr hmem)).2

/-! ### What one call does to the generations -/

/-- A call that advances no scope leaves the map of generations alone. -/
theorem generations_perform_of_advances_none (h : s.advances a = none) :
    (s.perform a).generations = s.generations := by
  cases a with
  | requireGeneration expected key => rfl
  | beginWrite expected key =>
    simp only [perform]
    rcases hok : s.beginChartBarsWrite expected key with e | ⟨guard, t⟩
    · rfl
    · obtain ⟨-, -, -, -, rfl⟩ := beginChartBarsWrite_eq_ok hok
      rfl
  | endWrite guard =>
    simp only [perform]
    rcases hok : s.endChartBarsWrite guard with e | t
    · rfl
    · obtain ⟨-, rfl⟩ := endChartBarsWrite_eq_ok hok
      rfl
  | invalidateWrite guard reason =>
    simp only [perform]
    rcases hok : s.invalidateChartBarsWrite guard reason with e | ⟨g, t⟩
    · rfl
    · obtain ⟨hheld, -, -, rfl⟩ := invalidateChartBarsWrite_eq_ok hok
      have hne : s.generation guard.key ≠ guard.expectedGeneration := fun heq => by
        simp [advances, hheld, heq] at h
      rw [invalidateGeneration, if_neg hne]
      rfl
  | publish key reason bars expected =>
    simp only [advances] at h
    split at h
    · rename_i hc
      simp only [perform, publishChartBarsUpdated, if_pos hc]
    · exact absurd h (by simp)
  | beginPublication scopes =>
    simp only [perform]
    rcases hok : s.beginChartBarsPublication scopes with e | ⟨guard, t⟩
    · rfl
    · obtain ⟨-, -, -, ⟨hg, -, -⟩, -⟩ := beginChartBarsPublication_eq_ok hok
      exact hg
  | endPublication guard =>
    simp only [perform]
    rcases hok : s.endChartBarsPublication guard with e | t
    · rfl
    · obtain ⟨-, ⟨hg, -, -⟩, -⟩ := endChartBarsPublication_eq_ok hok
      exact hg
  | addWaiter key => rfl
  | removeWaiter key => rfl

theorem generations_perform_of_advances (h : s.advances a = some (key, reason, bars)) :
    (s.perform a).generations = (s.advance key reason bars).generations := by
  cases a with
  | publish key reason bars expected =>
    simp only [advances] at h
    split at h
    · exact absurd h (by simp)
    · rename_i hc
      obtain ⟨rfl, rfl, rfl⟩ := by simpa using h
      simp only [perform, publishChartBarsUpdated, if_neg hc]
  | invalidateWrite guard reason =>
    simp only [advances] at h
    split at h
    · rename_i hc
      obtain ⟨rfl, rfl, rfl⟩ := by simpa using h
      simp only [perform, invalidateChartBarsWrite, invalidateGeneration, hc.1, hc.2]
      simp [releaseWrite]
    · exact absurd h (by simp)
  | _ => exact absurd h (by simp [advances])

/-- An act moves at most one scope, forward by one, and evicts at most one. -/
theorem generation_perform (s : ChartEvents) (a : ChartEventAct) :
    (s.advances a = none ∧ ∀ k, (s.perform a).generation k = s.generation k) ∨
      ∃ key reason bars, s.advances a = some (key, reason, bars) ∧
        ∀ k, (s.perform a).generation k =
          if k = key then s.generation key + 1
          else if s.evictedScope key reason bars = some k then 0 else s.generation k := by
  rcases h : s.advances a with _ | ⟨key, reason, bars⟩
  · refine .inl ⟨rfl, fun k => ?_⟩
    simp only [generation, generations_perform_of_advances_none h]
  · refine .inr ⟨key, reason, bars, rfl, fun k => ?_⟩
    rw [← generation_advance]
    simp only [generation, generations_perform_of_advances h]

theorem generation_le_perform (h : ¬ s.EvictsGeneration a) (k : ChartRefreshKey) :
    s.generation k ≤ (s.perform a).generation k := by
  rcases s.generation_perform a with ⟨-, heq⟩ | ⟨key, reason, bars, hadv, heq⟩
  · exact (heq k).ge
  · have hev : s.evictedScope key reason bars = none := by
      by_contra hne
      exact h ⟨key, reason, bars, hadv, hne⟩
    rw [heq, hev]
    by_cases hk : k = key <;> simp [hk]

theorem generation_lt_perform (h : s.TakesEffect k a) :
    s.generation k < (s.perform a).generation k := by
  obtain ⟨reason, bars, hadv⟩ := h
  rcases s.generation_perform a with ⟨hnone, -⟩ | ⟨key, reason', bars', hadv', heq⟩
  · exact absurd (hadv.symm.trans hnone) (by simp)
  · have hkey : k = key := congrArg Prod.fst (Option.some.inj (hadv.symm.trans hadv'))
    rw [heq, if_pos hkey, hkey]
    exact Nat.lt_succ_self _

/-! ### The fence -/

abbrev KeepingGenerations : ChartEvents → ChartEventAct → ChartEvents → Prop :=
  Guarded (fun s a => ¬ s.EvictsGeneration a) Calls

/-- **The generation fence.** Over a run that evicts no generation, from any table: the generation
of a scope does not decrease, and if a check of a scope passes at the end with the generation
captured at the start, then no publication and no uncertain write of that scope took effect in
between. -/
theorem generation_fence {acts : List ChartEventAct} (h : Run KeepingGenerations s acts t)
    (k : ChartRefreshKey) :
    s.generation k ≤ t.generation k ∧
      (t.Accepts k (s.generation k) →
        ∀ before a after u v, acts = before ++ a :: after →
          Run KeepingGenerations s before u → KeepingGenerations u a v →
          Run KeepingGenerations v after t → ¬ u.TakesEffect k a) := by
  have hmono : ∀ s a t, KeepingGenerations s a t → s.generation k ≤ t.generation k := by
    rintro s a t ⟨hkeep, rfl⟩
    exact generation_le_perform hkeep k
  have heffect : ∀ s a t, KeepingGenerations s a t → s.TakesEffect k a →
      s.generation k < t.generation k := by
    rintro s a t ⟨-, rfl⟩ he
    exact generation_lt_perform he
  refine ⟨h.monotone hmono, fun hacc before a after u v _ hbefore hstep hafter => ?_⟩
  exact Run.no_effect_of_version_eq hmono heffect hbefore hstep hafter hacc.generation_eq

/-- One publication of one scope evicts nothing. -/
theorem generation_fence_published :
    let key : ChartRefreshKey := ⟨"ES", "route", .m1, by decide, by decide⟩
    initial.generation key ≤
      (initial.perform (.publish key "canonical_commit" [] none)).generation key := by
  intro key
  have hkeep : ¬ initial.EvictsGeneration (.publish key "canonical_commit" [] none) := by
    rintro ⟨key', reason, bars, hadv, hne⟩
    obtain ⟨rfl, rfl, rfl⟩ := by simpa [advances] using hadv
    exact hne (by decide)
  exact (generation_fence (.single ⟨hkeep, rfl⟩) key).1

/-! ### A fence that opens again

The scopes `freshKey 0, freshKey 1, …` are published once each. The bounded map of events forgets
a scope's events first; when the map of generations overflows, its oldest scope has none left. -/

def freshKey (i : ℕ) : ChartRefreshKey where
  instrumentId := String.ofList (List.replicate (i + 1) 'i')
  routeFingerprint := "route"
  interval := .m1
  instrumentId_ne h := by
    have hl := congrArg String.toList h
    simp at hl
  routeFingerprint_ne := by decide

theorem freshKey_injective : Function.Injective freshKey := by
  intro i j h
  have hl := congrArg (fun k => k.instrumentId.toList.length) h
  simpa [freshKey] using hl

def publishFresh (i : ℕ) : ChartEventAct := .publish (freshKey i) "canonical_commit" [] none

/-- The table after the first `n` fresh scopes were published. -/
def published (n : ℕ) : ChartEvents := (List.range n).foldl (fun s i => s.perform (publishFresh i))
  initial

theorem published_succ (n : ℕ) : published (n + 1) = (published n).perform (publishFresh n) := by
  rw [published, List.range_succ, List.foldl_append]
  rfl

theorem run_published (n : ℕ) :
    Run Calls initial ((List.range n).map publishFresh) (published n) := by
  induction n with
  | zero => exact .nil _
  | succ n ih =>
    rw [List.range_succ, List.map_append, published_succ]
    exact ih.snoc rfl

/-- The shape of `published n`: all scopes have a generation, the last `maxRefreshKeys` have
events, and nothing is guarded. -/
structure Fresh (n : ℕ) (s : ChartEvents) : Prop where
  generations : s.generations.keys = (List.range n).map freshKey
  events : s.events.keys = (List.range' (n - 1024) (min n 1024)).map freshKey
  writesInProgress : s.writesInProgress = .empty
  publicationsInProgress : s.publicationsInProgress = .empty
  waiters : s.waiters = []

theorem freshKey_notMem {n : ℕ} {l : List ℕ} (h : n ∉ l) : freshKey n ∉ l.map freshKey := by
  intro hmem
  obtain ⟨i, hi, heq⟩ := List.mem_map.mp hmem
  exact h (freshKey_injective heq ▸ hi)

/-- Recording a fresh scope's event drops the events of the scope `maxRefreshKeys` before it. -/
theorem Fresh.storeEvent {n : ℕ} (h : Fresh n s) (g : ℕ) (reason : String) (bars : List Bar) :
    Fresh (n + 1) ((s.setGeneration (freshKey n) g).storeEvent (freshKey n) g reason bars) := by
  have hgen : (s.setGeneration (freshKey n) g).generations.keys =
      (List.range (n + 1)).map freshKey := by
    have hnew : freshKey n ∉ s.generations.keys := by
      rw [h.generations]
      exact freshKey_notMem (by simp)
    rw [setGeneration, Dict.keys_insert_of_notMem hnew, h.generations, List.range_succ]
    simp
  obtain ⟨s', hs'⟩ : ∃ s', s' = (s.setGeneration (freshKey n) g).storeEvent (freshKey n) g
    reason bars := ⟨_, rfl⟩
  rw [← hs']
  simp only [ChartEvents.storeEvent] at hs'
  obtain ⟨appended, happ⟩ : ∃ appended, appended =
      (s.setGeneration (freshKey n) g).appendEvent (freshKey n)
        { instrumentId := (freshKey n).instrumentId
          interval := (freshKey n).interval
          generation := g
          routeFingerprint := (freshKey n).routeFingerprint
          reason := if reason = "" then "canonical_commit" else reason
          bars } := ⟨_, rfl⟩
  rw [← happ] at hs'
  have hkeys : appended.events.keys = (List.range' (n - 1024) (min n 1024 + 1)).map freshKey := by
    have hnew : freshKey n ∉ s.events.keys := by
      rw [h.events]
      refine freshKey_notMem fun hmem => ?_
      rw [List.mem_range'_1] at hmem
      omega
    have hlast : n - 1024 + min n 1024 = n := by omega
    rw [happ, appendEvent]
    simp only [setGeneration]
    rw [Dict.keys_insert_of_notMem hnew, h.events, List.range'_1_concat, hlast]
    simp
  have hwaiters : appended.waiters = [] := by rw [happ]; exact h.waiters
  refine ⟨?_, ?_, ?_, ?_, ?_⟩
  · rw [hs', evictEvents_generations, happ]
    exact hgen
  · rw [hs', evictEvents]
    by_cases hn : n < 1024
    · have hstale : appended.staleEventKey (freshKey n) = none := by
        rw [staleEventKey, if_neg]
        rw [← Dict.length_keys, hkeys, List.length_map, List.length_range', maxRefreshKeys]
        omega
      rw [hstale]
      simp only [hkeys]
      rw [show n + 1 - 1024 = n - 1024 from by omega, show min (n + 1) 1024 = min n 1024 + 1 from
        by omega]
    · -- the oldest scope with events is not the one just published
      have hcons : appended.events.keys =
          freshKey (n - 1024) :: (List.range' (n + 1 - 1024) (min (n + 1) 1024)).map freshKey := by
        rw [hkeys, List.range'_succ, List.map_cons]
        rw [show n - 1024 + 1 = n + 1 - 1024 from by omega, show min n 1024 = min (n + 1) 1024 from
          by omega]
      have hne : freshKey (n - 1024) ≠ freshKey n := fun heq => by
        have := freshKey_injective heq
        omega
      have hstale : appended.staleEventKey (freshKey n) = some (freshKey (n - 1024)) := by
        rw [staleEventKey, if_pos]
        · rw [hcons, List.find?_cons_of_pos]
          simp [hne, hwaiters]
        · rw [← Dict.length_keys, hkeys, List.length_map, List.length_range', maxRefreshKeys]
          omega
      rw [hstale]
      simp only
      rw [Dict.keys_erase, hcons, List.filter_cons_of_neg (by simp), List.filter_eq_self]
      intro k hk
      obtain ⟨i, hi, rfl⟩ := List.mem_map.mp hk
      rw [List.mem_range'_1] at hi
      rw [decide_eq_true_eq]
      intro heq
      have := freshKey_injective heq
      omega
  · rw [hs', evictEvents_writesInProgress, happ]
    exact h.writesInProgress
  · rw [hs', evictEvents_publicationsInProgress, happ]
    exact h.publicationsInProgress
  · rw [hs', evictEvents_waiters, hwaiters]

theorem perform_publishFresh (s : ChartEvents) (n : ℕ) :
    s.perform (publishFresh n) = s.advance (freshKey n) "canonical_commit" [] := by
  simp [perform, publishFresh, publishChartBarsUpdated]

theorem fresh_published {n : ℕ} (hn : n ≤ maxGenerationKeys) : Fresh n (published n) := by
  induction n with
  | zero => exact ⟨rfl, rfl, rfl, rfl, rfl⟩
  | succ n ih =>
    have hstored := (ih (Nat.le_of_succ_le hn)).storeEvent
      ((published n).generation (freshKey n) + 1) "canonical_commit" []
    have hroom : ((published n).evictedScope (freshKey n) "canonical_commit" []) = none := by
      rw [evictedScope, staleGenerationKey, if_neg]
      rw [← Dict.length_keys, hstored.generations, List.length_map, List.length_range]
      omega
    rw [evictedScope] at hroom
    rw [published_succ, perform_publishFresh, advance, recordChartBarsUpdated, evictGenerations,
      hroom]
    exact hstored

/-- One scope more than the map holds: the first scope's generation goes. -/
theorem evictedScope_published :
    (published maxGenerationKeys).evictedScope (freshKey maxGenerationKeys) "canonical_commit" [] =
      some (freshKey 0) := by
  have hstored := (fresh_published le_rfl).storeEvent
    ((published maxGenerationKeys).generation (freshKey maxGenerationKeys) + 1)
    "canonical_commit" []
  have hcons : (List.range (maxGenerationKeys + 1)).map freshKey =
      freshKey 0 :: (List.range' 1 maxGenerationKeys).map freshKey := by
    rw [List.range_eq_range', List.range'_succ, List.map_cons]
  have hne : freshKey 0 ≠ freshKey maxGenerationKeys := fun heq =>
    absurd (freshKey_injective heq) (by decide)
  have hnoevents : freshKey 0 ∉
      (List.range' (maxGenerationKeys + 1 - 1024) (min (maxGenerationKeys + 1) 1024)).map
        freshKey := by
    refine freshKey_notMem fun hmem => ?_
    rw [List.mem_range'_1] at hmem
    exact absurd hmem.1 (by decide)
  rw [evictedScope, staleGenerationKey, if_pos]
  · rw [hstored.generations, hcons, List.find?_cons_of_pos]
    rw [hstored.events, hstored.waiters, hstored.writesInProgress, hstored.publicationsInProgress,
      decide_eq_true_eq]
    exact ⟨hne, hnoevents, by simp, by simp, by simp⟩
  · rw [← Dict.length_keys, hstored.generations, List.length_map, List.length_range]
    exact Nat.lt_succ_self _

/-- A reader captures generation `0` of a fresh scope. The scope is published, which takes it to
generation `1`; then so are `maxGenerationKeys` other scopes. The scope reads `0` again, and the
reader's check passes over the publication. -/
theorem generation_fence_evicted :
    initial.generation (freshKey 0) = 0 ∧
      Run Calls initial ((List.range (maxGenerationKeys + 1)).map publishFresh)
        (published (maxGenerationKeys + 1)) ∧
      publishFresh 0 ∈ (List.range (maxGenerationKeys + 1)).map publishFresh ∧
      initial.TakesEffect (freshKey 0) (publishFresh 0) ∧
      (published 1).generation (freshKey 0) = 1 ∧
      (published (maxGenerationKeys + 1)).generation (freshKey 0) = 0 ∧
      (published (maxGenerationKeys + 1)).requireChartBarsGeneration 0 (freshKey 0) = .ok 0 := by
  have hzero : (published (maxGenerationKeys + 1)).generation (freshKey 0) = 0 := by
    have hne : freshKey 0 ≠ freshKey maxGenerationKeys := fun heq =>
      absurd (freshKey_injective heq) (by decide)
    rw [published_succ, perform_publishFresh, generation_advance, if_neg hne,
      evictedScope_published, if_pos rfl]
  have hfree : (published (maxGenerationKeys + 1)).writeInProgress (freshKey 0) = false := by
    rw [published_succ, perform_publishFresh, advance_writeInProgress, writeInProgress,
      (fresh_published le_rfl).writesInProgress]
    rfl
  refine ⟨rfl, run_published _, List.mem_map_of_mem (List.mem_range.mpr (Nat.succ_pos _)), ?_, ?_,
    hzero, ?_⟩
  · exact ⟨"canonical_commit", [], by simp [advances, publishFresh]⟩
  · rw [published_succ, perform_publishFresh, generation_advance_self]
    rfl
  · rw [requireChartBarsGeneration, hfree, hzero]
    rfl

end ChartEvents

end AefTerminal
