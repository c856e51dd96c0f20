import AefTerminal.Sessions.Fences
import AefTerminal.Sessions.Schedule

/-!
# Refreshing the stored trading hours of a route

A mark of a route is a request for a refresh and, where the caller gave a store, a deletion of the
stored hours after the lock was given back. A refresh takes the generation of the request, asks the
provider, compares the generation, stores the answer, forgets the cached row, acknowledges the
request and compares once more. The lock is held within each of these steps only.

The two comparisons keep a refresh that began before a mark from being acknowledged. They do not
order its upsert, nor the deletion of the mark, with the upsert of a refresh that began after it:
either may land on hours that were acknowledged.

The hours are those of one route; other routes are steps of the module's state.

## Main definitions

* `HoursFetch`: one run of `_fetch_and_store_trading_hours_once`
* `HoursRefresh`, `hoursRefreshStep`
* `LandsInTime`: a deletion, or an upsert begun before the last mark, finds nothing newer
* `ReadsReturn`

## Main results

* `refreshedHours_stay`: what a refresh that began after the last mark stored stays, and is read
* `refreshedHours_deleted`: without the condition, a deletion takes them
-/

namespace AefTerminal

open Foundation

/-! ### Refreshes under way -/

/-- How far a refresh has come. -/
inductive HoursFetchStage
  /-- The provider was asked. -/
  | fetching
  /-- The answer passed the first comparison and is to be stored. -/
  | storing (update : ScheduleUpdate)
  | stored (row : ScheduleSnapshot)
  /-- The cached row was forgotten. -/
  | invalidated (row : ScheduleSnapshot)
  | acknowledged (row : ScheduleSnapshot)
  /-- It returned `True`. -/
  | succeeded (row : ScheduleSnapshot)
  /-- It returned `False`, or raised. -/
  | failed
  deriving DecidableEq, Repr

namespace HoursFetchStage

/-- The row that was stored. -/
def row? : HoursFetchStage → Option ScheduleSnapshot
  | stored row | invalidated row | acknowledged row | succeeded row => some row
  | fetching | storing _ | failed => none

/-- The row that was stored, once the cache was told. -/
def cleared? : HoursFetchStage → Option ScheduleSnapshot
  | invalidated row | acknowledged row | succeeded row => some row
  | fetching | storing _ | stored _ | failed => none

def Acknowledged : HoursFetchStage → Prop
  | acknowledged _ | succeeded _ => True
  | fetching | storing _ | stored _ | invalidated _ | failed => False

theorem row?_of_cleared? {stage : HoursFetchStage} {row : ScheduleSnapshot}
    (h : stage.cleared? = some row) : stage.row? = some row := by
  cases stage <;> first | exact h | cases h

end HoursFetchStage

/-- A refresh; `marksBefore` is not in the program: how many marks came before it began. -/
structure HoursFetch where
  generation : ℕ
  marksBefore : ℕ
  stage : HoursFetchStage
  deriving DecidableEq, Repr

/-- `marks` and `lastStored` are not in the program: how many marks there were, and the refresh
whose upsert was the last one. -/
structure HoursRefresh where
  hours : TradingHours ScheduleSnapshot
  store : ScheduleTables
  /-- The marks whose deletion is still to come. -/
  deletions : ℕ
  fetches : ℕ → Option HoursFetch
  /-- The reads that have seen the store. -/
  found : List (HoursReader × Option ScheduleSnapshot)
  marks : ℕ
  lastStored : Option ℕ

namespace HoursRefresh

def start : HoursRefresh := ⟨.initial, .empty, 0, fun _ => none, [], 0, none⟩

def setStage (s : HoursRefresh) (id : ℕ) (fetch : HoursFetch) (stage : HoursFetchStage) :
    HoursRefresh :=
  { s with fetches := Function.update s.fetches id (some { fetch with stage }) }

/-- The refresh began after the last mark. -/
def Fresh (s : HoursRefresh) (fetch : HoursFetch) : Prop := fetch.marksBefore = s.marks

end HoursRefresh

/-! ### Steps -/

/-- The schedule says nothing. -/
def ScheduleUpdate.isEmpty (u : ScheduleUpdate) : Bool :=
  u.tradingHours = "" && u.liquidHours = "" && (u.payload.tradingIntervals.getD []).isEmpty

inductive HoursRefreshAct
  /-- `mark_provider_trading_hours_stale`, under the lock. -/
  | mark (withStore : Bool) (now : ℚ)
  /-- Its deletion, which may fail. -/
  | delete (fails : Bool)
  | beginFetch (id : ℕ) (now : ℚ)
  /-- The provider answered, with a schedule of the route's contract. -/
  | answer (id : ℕ) (update : ScheduleUpdate) (now : ℚ)
  /-- `upsert_trading_hours`. -/
  | upsert (id : ℕ) (fetchedAt : Time)
  | invalidate (id : ℕ) (now : ℚ)
  | acknowledge (id : ℕ) (now : ℚ)
  | finish (id : ℕ) (now : ℚ)
  /-- The provider, the store or the task failed. -/
  | fail (id : ℕ)
  | beginRead (now : ℚ)
  | readStore (reader : HoursReader)
  | endRead (reader : HoursReader) (row : Option ScheduleSnapshot)
  /-- Any other use of the module. -/
  | other (act : TradingHours.Act ScheduleSnapshot)

/-- Marks of the route and reads of it are steps of their own. -/
def OtherHours (key : SessionRefreshKey) : TradingHours.Act ScheduleSnapshot → Prop
  | .markStale k _ => k ≠ key
  | .beginRead k _ => k.route ≠ key.route
  | .endRead reader _ => reader.key.route ≠ key.route
  | .invalidate _ _ | .refreshGeneration _ _ | .acknowledge _ _ _ | .peekPending _ _
  | .failRead _ => True

inductive HoursRefreshStep (key : SessionRefreshKey) :
    HoursRefresh → HoursRefreshAct → HoursRefresh → Prop
  | mark {s : HoursRefresh} (withStore : Bool) (now : ℚ) :
      HoursRefreshStep key s (.mark withStore now)
        { s with
          hours := s.hours.markStale key now
          deletions := if withStore then s.deletions + 1 else s.deletions
          marks := s.marks + 1 }
  | delete {s : HoursRefresh} {n : ℕ} (fails : Bool) (hn : s.deletions = n + 1) :
      HoursRefreshStep key s (.delete fails)
        { s with
          deletions := n
          store := if fails then s.store else s.store.deleteTradingHours }
  | beginFetch {s : HoursRefresh} (id : ℕ) (now : ℚ) (hid : s.fetches id = none) :
      HoursRefreshStep key s (.beginFetch id now)
        { s with
          hours := (s.hours.refreshGeneration key now).2
          fetches := Function.update s.fetches id
            (some ⟨(s.hours.refreshGeneration key now).1, s.marks, .fetching⟩) }
  | answer {s : HoursRefresh} {fetch : HoursFetch} (id : ℕ) (update : ScheduleUpdate) (now : ℚ)
      (hid : s.fetches id = some fetch) (hstage : fetch.stage = .fetching) :
      HoursRefreshStep key s (.answer id update now)
        ({ s with hours := (s.hours.refreshGeneration key now).2 }.setStage id fetch
          (if (s.hours.refreshGeneration key now).1 ≠ fetch.generation ∨ update.isEmpty
            then .failed else .storing update))
  | upsert {s : HoursRefresh} {fetch : HoursFetch} {update : ScheduleUpdate}
      {store : ScheduleTables} (id : ℕ) (fetchedAt : Time) (hid : s.fetches id = some fetch)
      (hstage : fetch.stage = .storing update)
      (hstore : s.store.upsertTradingHours update fetchedAt = .ok store) :
      HoursRefreshStep key s (.upsert id fetchedAt)
        ({ s with store := store, lastStored := some id }.setStage id fetch
          (.stored (update.snapshot fetchedAt)))
  | invalidate {s : HoursRefresh} {fetch : HoursFetch} {row : ScheduleSnapshot} (id : ℕ) (now : ℚ)
      (hid : s.fetches id = some fetch) (hstage : fetch.stage = .stored row) :
      HoursRefreshStep key s (.invalidate id now)
        ({ s with hours := s.hours.invalidate key.route now }.setStage id fetch (.invalidated row))
  | acknowledge {s : HoursRefresh} {fetch : HoursFetch} {row : ScheduleSnapshot} (id : ℕ) (now : ℚ)
      (hid : s.fetches id = some fetch) (hstage : fetch.stage = .invalidated row) :
      HoursRefreshStep key s (.acknowledge id now)
        ({ s with hours := (s.hours.acknowledge key fetch.generation now).2 }.setStage id fetch
          (.acknowledged row))
  | finish {s : HoursRefresh} {fetch : HoursFetch} {row : ScheduleSnapshot} (id : ℕ) (now : ℚ)
      (hid : s.fetches id = some fetch) (hstage : fetch.stage = .acknowledged row) :
      HoursRefreshStep key s (.finish id now)
        ({ s with hours := (s.hours.refreshGeneration key now).2 }.setStage id fetch
          (if (s.hours.refreshGeneration key now).1 ≠ fetch.generation then .failed
            else .succeeded row))
  | fail {s : HoursRefresh} {fetch : HoursFetch} (id : ℕ) (hid : s.fetches id = some fetch)
      (hstage : ∀ row, fetch.stage ≠ .succeeded row) :
      HoursRefreshStep key s (.fail id) (s.setStage id fetch .failed)
  | beginRead {s : HoursRefresh} (now : ℚ) :
      HoursRefreshStep key s (.beginRead now) { s with hours := (s.hours.beginRead key now).2 }
  | readStore {s : HoursRefresh} (reader : HoursReader) (hkey : reader.key = key)
      (hreader : reader ∈ s.hours.readers) :
      HoursRefreshStep key s (.readStore reader)
        { s with found := s.found ++ [(reader, s.store.hours)] }
  | endRead {s : HoursRefresh} (reader : HoursReader) (row : Option ScheduleSnapshot)
      (hfound : (reader, row) ∈ s.found) (hreader : reader ∈ s.hours.readers) :
      HoursRefreshStep key s (.endRead reader row)
        { s with
          hours := (s.hours.endRead reader row).2
          found := s.found.erase (reader, row) }
  | other {s : HoursRefresh} {act : TradingHours.Act ScheduleSnapshot}
      {hours : TradingHours ScheduleSnapshot} (hother : OtherHours key act)
      (hact : TradingHours.Step s.hours act hours) :
      HoursRefreshStep key s (.other act) { s with hours := hours }

/-! ### The condition and what it gives -/

/-- No refresh that began after the last mark has stored its schedule. -/
def NothingNewer (s : HoursRefresh) : Prop :=
  ∀ id fetch, s.fetches id = some fetch → s.Fresh fetch → fetch.stage.row? = none

/-- A deletion, and the upsert of a refresh that began before the last mark, land only while no
refresh that began after that mark has stored its schedule. -/
def LandsInTime (s : HoursRefresh) : HoursRefreshAct → Prop
  | .delete false => NothingNewer s
  | .upsert id _ => (∀ fetch, s.fetches id = some fetch → s.Fresh fetch) ∨ NothingNewer s
  | _ => True

/-- Every cached read returns the row; one that an invalidation crossed returns nothing. -/
structure ReadsReturn (key : SessionRefreshKey) (s : HoursRefresh) (row : ScheduleSnapshot) :
    Prop where
  begins : ∀ now, (s.hours.beginRead key now).1 ≠ .refreshPending
  cached : ∀ now found, (s.hours.beginRead key now).1 = .cached found → found = some row
  ended : ∀ p ∈ s.found, ¬ s.hours.Superseded p.1 → (s.hours.endRead p.1 p.2).1 = some row

/-! ### What a step of the module does to one route -/

namespace TradingHours

variable {Row : Type} {s t : TradingHours Row} {key : SessionRefreshKey}

/-- Only the end of a read of the route puts a row of the route into the cache. -/
theorem Step.cached {a : Act Row} (h : Step s a t) {route : SessionRouteKey}
    (hread : ∀ reader row, a = .endRead reader row → reader.key.route ≠ route)
    {entry : CachedHours Row} (hentry : t.cache.get? route = some entry) :
    s.cache.get? route = some entry := by
  have herase {r : SessionRouteKey} (hr : (s.cache.erase r).get? route = some entry) :
      s.cache.get? route = some entry := by
    rw [Dict.get?_erase] at hr
    split_ifs at hr
    exact hr
  cases h with
  | invalidate r now => exact herase (get?_cache_prune _ now hentry)
  | markStale k now => exact herase (get?_cache_prune _ now hentry)
  | refreshGeneration k now => exact get?_cache_prune s now hentry
  | acknowledge k g now =>
    by_cases hg : s.pendingGeneration k = some g
    · rw [acknowledge_of_eq s k now hg] at hentry
      exact get?_cache_prune _ now hentry
    · rw [acknowledge_of_ne s k now hg] at hentry
      exact hentry
  | peekPending provider now => exact get?_cache_prune s now hentry
  | beginRead k now =>
    obtain ⟨-, heq⟩ | ⟨reader, -, -, -, -, heq⟩ := snd_beginRead s k now
    · rw [heq] at hentry
      exact get?_cache_prune s now hentry
    · rw [heq] at hentry
      exact get?_cache_prune s now hentry
  | endRead reader row hreader =>
    obtain heq | ⟨-, heq⟩ := snd_endRead s reader row
    · rw [heq] at hentry
      exact hentry
    · rw [heq] at hentry
      have hinsert := get?_cache_prune _ reader.now hentry
      dsimp only at hinsert
      rw [Dict.get?_insert_of_ne _ (hread reader row rfl).symm] at hinsert
      exact herase hinsert
  | failRead reader hreader => exact hentry

theorem get?_cache_invalidate (route : SessionRouteKey) (now : ℚ) :
    (s.invalidate route now).cache.get? route = none := by
  cases hentry : (s.invalidate route now).cache.get? route with
  | none => rfl
  | some entry =>
    have herase : (s.cache.erase route).get? route = some entry := get?_cache_prune _ now hentry
    rw [Dict.get?_erase_self] at herase
    cases herase

/-- A reader is turned away only while the route waits for a refresh. -/
theorem waits_of_refreshPending {now : ℚ} (h : (s.beginRead key now).1 = .refreshPending) :
    s.Waits key := by
  unfold beginRead at h
  dsimp only at h
  split at h
  · rename_i hwaits
    have hpruned : (s.prune now).Waits key := hwaits
    rwa [waits_iff, pendingGeneration_prune, ← waits_iff] at hpruned
  · split at h
    · split at h <;> cases h
    · cases h

/-- A reader that is given a cached row finds it in the cache. -/
theorem get?_cache_of_cached {now : ℚ} {row : Option Row}
    (h : (s.beginRead key now).1 = .cached row) :
    ∃ entry, s.cache.get? key.route = some entry ∧ entry.row = row := by
  unfold beginRead at h
  dsimp only at h
  split at h
  · cases h
  · split at h
    · rename_i entry hentry
      split at h
      · exact ⟨entry, get?_cache_prune s now hentry, ReadStart.cached.inj h⟩
      · cases h
    · cases h

theorem fst_endRead {reader : HoursReader} (row : Option Row) (h : ¬ s.Superseded reader) :
    (s.endRead reader row).1 = row := by
  unfold endRead
  dsimp only
  split_ifs with hsuperseded
  · exact absurd hsuperseded h
  · rfl

end TradingHours

/-! ### The invariant -/

open TradingHours in
/-- What a refresh that began after the last mark finds. The last three are about the refresh that
was the last to store. -/
structure FreshInv (key : SessionRefreshKey) (s : HoursRefresh) (id : ℕ) (fetch : HoursFetch) :
    Prop where
  requested : ∀ g, s.hours.pendingGeneration key = some g → g = fetch.generation
  acknowledged : fetch.stage.Acknowledged → s.hours.pendingGeneration key = none
  store : ∀ row, fetch.stage.row? = some row → s.lastStored = some id → s.store.hours = some row
  cached : ∀ row, fetch.stage.cleared? = some row → s.lastStored = some id →
    ∀ entry, s.hours.cache.get? key.route = some entry → entry.row = some row
  found : ∀ row, fetch.stage.cleared? = some row → s.lastStored = some id →
    ∀ p ∈ s.found, p.1.readSequence = s.hours.cacheSequence → p.2 = some row

structure RefreshInv (key : SessionRefreshKey) (s : HoursRefresh) : Prop where
  fenced : s.hours.Fenced
  marksBefore_le : ∀ id fetch, s.fetches id = some fetch → fetch.marksBefore ≤ s.marks
  found : ∀ p ∈ s.found, p.1.key = key ∧ p.1.readSequence ≤ s.hours.cacheSequence
  fresh : ∀ id fetch, s.fetches id = some fetch → s.Fresh fetch → FreshInv key s id fetch

theorem RefreshInv.start (key : SessionRefreshKey) : RefreshInv key .start where
  fenced := TradingHours.fenced_initial
  marksBefore_le _ fetch hid := absurd hid.symm (Option.some_ne_none fetch)
  found _ hp := absurd hp List.not_mem_nil
  fresh _ fetch hid := absurd hid.symm (Option.some_ne_none fetch)

section

variable {key : SessionRefreshKey} {s : HoursRefresh}

variable {id : ℕ} {fetch : HoursFetch}

/-- Steps of the module other than marks and reads of the route. -/
theorem FreshInv.withHours (h : FreshInv key s id fetch)
    {a : TradingHours.Act ScheduleSnapshot} {hours : TradingHours ScheduleSnapshot}
    (hstep : TradingHours.Step s.hours a hours) (hmark : ∀ now, a ≠ .markStale key now)
    (hread : ∀ reader row, a = .endRead reader row → reader.key.route ≠ key.route)
    (hfound : ∀ p ∈ s.found, p.1.readSequence ≤ s.hours.cacheSequence) :
    FreshInv key { s with hours := hours } id fetch where
  requested g hg := by
    obtain heq | ⟨now, rfl, -⟩ | ⟨g', now, -, -, hnone⟩ := hstep.pendingGeneration key
    · exact h.requested g (heq ▸ hg)
    · exact absurd rfl (hmark now)
    · rw [hnone] at hg
      cases hg
  acknowledged hack := by
    obtain heq | ⟨now, rfl, -⟩ | ⟨g', now, -, -, hnone⟩ := hstep.pendingGeneration key
    · exact heq.trans (h.acknowledged hack)
    · exact absurd rfl (hmark now)
    · exact hnone
  store := h.store
  cached row hrow hlast entry hentry := h.cached row hrow hlast entry (hstep.cached hread hentry)
  found row hrow hlast p hp heq := by
    have hle : s.hours.cacheSequence ≤ hours.cacheSequence := hstep.cacheSequence.1
    have heq : p.1.readSequence = hours.cacheSequence := heq
    have hp_le := hfound p hp
    exact h.found row hrow hlast p hp (by omega)

theorem RefreshInv.withHours (h : RefreshInv key s)
    {a : TradingHours.Act ScheduleSnapshot} {hours : TradingHours ScheduleSnapshot}
    (hstep : TradingHours.Step s.hours a hours) (hmark : ∀ now, a ≠ .markStale key now)
    (hread : ∀ reader row, a = .endRead reader row → reader.key.route ≠ key.route) :
    RefreshInv key { s with hours := hours } where
  fenced := h.fenced.step hstep
  marksBefore_le := h.marksBefore_le
  found p hp := ⟨(h.found p hp).1, (h.found p hp).2.trans hstep.cacheSequence.1⟩
  fresh id fetch hid hfresh :=
    (h.fresh id fetch hid hfresh).withHours hstep hmark hread fun p hp => (h.found p hp).2

theorem RefreshInv.refreshGeneration (h : RefreshInv key s) (now : ℚ) :
    RefreshInv key { s with hours := (s.hours.refreshGeneration key now).2 } :=
  h.withHours (.refreshGeneration key now) (fun _ hact => nomatch hact) fun _ _ hact => nomatch hact

/-- A refresh goes on; the others are as they were. -/
theorem RefreshInv.setStage (h : RefreshInv key s)
    {stage : HoursFetchStage} (hid : s.fetches id = some fetch)
    (hnew : s.Fresh fetch → FreshInv key s id { fetch with stage }) :
    RefreshInv key (s.setStage id fetch stage) where
  fenced := h.fenced
  marksBefore_le j other hj := by
    have hj : Function.update s.fetches id (some { fetch with stage }) j = some other := hj
    by_cases hji : j = id
    · subst hji
      rw [Function.update_self] at hj
      cases hj
      exact h.marksBefore_le j fetch hid
    · rw [Function.update_of_ne hji] at hj
      exact h.marksBefore_le j other hj
  found := h.found
  fresh j other hj hfresh := by
    have hj : Function.update s.fetches id (some { fetch with stage }) j = some other := hj
    by_cases hji : j = id
    · subst hji
      rw [Function.update_self] at hj
      cases hj
      have hinv := hnew hfresh
      exact ⟨hinv.requested, hinv.acknowledged, hinv.store, hinv.cached, hinv.found⟩
    · rw [Function.update_of_ne hji] at hj
      have hinv := h.fresh j other hj hfresh
      exact ⟨hinv.requested, hinv.acknowledged, hinv.store, hinv.cached, hinv.found⟩

/-- A stage without a stored row needs nothing new. -/
theorem FreshInv.ofRequested {fetch' : HoursFetch} (h : FreshInv key s id fetch)
    (hgeneration : fetch'.generation = fetch.generation) (hack : ¬ fetch'.stage.Acknowledged)
    (hrow : fetch'.stage.row? = none) : FreshInv key s id fetch' where
  requested g hg := (h.requested g hg).trans hgeneration.symm
  acknowledged hyes := absurd hyes hack
  store row hsome := by rw [hrow] at hsome; cases hsome
  cached row hsome := by rw [HoursFetchStage.row?_of_cleared? hsome] at hrow; cases hrow
  found row hsome := by rw [HoursFetchStage.row?_of_cleared? hsome] at hrow; cases hrow

/-- After a mark no refresh is fresh. -/
theorem RefreshInv.mark (h : RefreshInv key s) (now : ℚ) (deletions : ℕ) :
    RefreshInv key { s with
      hours := s.hours.markStale key now
      deletions := deletions
      marks := s.marks + 1 } where
  fenced := h.fenced.step (.markStale key now)
  marksBefore_le id fetch hid := (h.marksBefore_le id fetch hid).trans (Nat.le_succ _)
  found p hp := ⟨(h.found p hp).1, (h.found p hp).2.trans (Nat.le_succ _)⟩
  fresh id fetch hid hfresh := by
    have hle := h.marksBefore_le id fetch hid
    have heq : fetch.marksBefore = s.marks + 1 := hfresh
    omega

/-- Where nothing newer is stored, the store may change. -/
theorem RefreshInv.withStore (h : RefreshInv key s) (hnew : NothingNewer s)
    (store : ScheduleTables) (deletions : ℕ) (lastStored : Option ℕ) :
    RefreshInv key { s with store, deletions, lastStored } where
  fenced := h.fenced
  marksBefore_le := h.marksBefore_le
  found := h.found
  fresh id fetch hid hfresh := by
    have hrow := hnew id fetch hid hfresh
    have hinv := h.fresh id fetch hid hfresh
    refine ⟨hinv.requested, hinv.acknowledged, fun row hsome => ?_, fun row hsome => ?_,
      fun row hsome => ?_⟩
    · rw [hrow] at hsome; cases hsome
    · rw [HoursFetchStage.row?_of_cleared? hsome] at hrow; cases hrow
    · rw [HoursFetchStage.row?_of_cleared? hsome] at hrow; cases hrow

theorem RefreshInv.beginFetch (h : RefreshInv key s) (now : ℚ) :
    RefreshInv key { s with
      hours := (s.hours.refreshGeneration key now).2
      fetches := Function.update s.fetches id
        (some ⟨(s.hours.refreshGeneration key now).1, s.marks, .fetching⟩) } := by
  have hpruned := h.refreshGeneration now
  refine ⟨hpruned.fenced, fun j other hj => ?_, hpruned.found, fun j other hj hfresh => ?_⟩
  · dsimp only at hj ⊢
    rw [Function.update_apply] at hj
    split_ifs at hj
    · rw [← Option.some.inj hj]
    · exact h.marksBefore_le j other hj
  · dsimp only at hj
    rw [Function.update_apply] at hj
    split_ifs at hj with hji
    · rw [← Option.some.inj hj]
      refine ⟨fun g hg => ?_, False.elim, fun _ hrow => (nomatch hrow),
        fun _ hrow => (nomatch hrow), fun _ hrow => (nomatch hrow)⟩
      exact (h.fenced.generation_eq ((TradingHours.pendingGeneration_prune ..).symm.trans hg)
        now).symm
    · have hinv := hpruned.fresh j other hj hfresh
      exact ⟨hinv.requested, hinv.acknowledged, hinv.store, hinv.cached, hinv.found⟩

variable {row : ScheduleSnapshot}

/-- An upsert of a fresh refresh makes it the last one to store. -/
theorem RefreshInv.upsert (h : RefreshInv key s)
    {store : ScheduleTables} (hid : s.fetches id = some fetch)
    (hrow : store.hours = some row) (hfresh : s.Fresh fetch) :
    RefreshInv key ({ s with store := store, lastStored := some id }.setStage id fetch
      (.stored row)) where
  fenced := h.fenced
  marksBefore_le j other hj := by
    have hj : Function.update s.fetches id (some { fetch with stage := .stored row }) j
      = some other := hj
    rw [Function.update_apply] at hj
    split_ifs at hj
    · rw [← Option.some.inj hj]
      exact h.marksBefore_le id fetch hid
    · exact h.marksBefore_le j other hj
  found := h.found
  fresh j other hj hother := by
    have hj : Function.update s.fetches id (some { fetch with stage := .stored row }) j
      = some other := hj
    rw [Function.update_apply] at hj
    split_ifs at hj with hji
    · cases hj
      have hinv := h.fresh id fetch hid hfresh
      exact ⟨hinv.requested, False.elim, fun row' hsome _ => hrow.trans hsome,
        fun _ hsome => (nomatch hsome), fun _ hsome => (nomatch hsome)⟩
    · have hinv := h.fresh j other hj hother
      have hnot : ¬ (some id = some j) := fun heq => hji (Option.some.inj heq).symm
      exact ⟨hinv.requested, hinv.acknowledged, fun _ _ heq => absurd heq hnot,
        fun _ _ heq => absurd heq hnot, fun _ _ heq => absurd heq hnot⟩

/-- What a read that ends puts into the cache is what it found. -/
theorem RefreshInv.endRead (h : RefreshInv key s) {reader : HoursReader}
    {row : Option ScheduleSnapshot} (hfound : (reader, row) ∈ s.found)
    (hreader : reader ∈ s.hours.readers) :
    RefreshInv key { s with
      hours := (s.hours.endRead reader row).2
      found := s.found.erase (reader, row) } := by
  have hstep : TradingHours.Step s.hours (.endRead reader row) (s.hours.endRead reader row).2 :=
    .endRead reader row hreader
  have hsequence : (s.hours.endRead reader row).2.cacheSequence = s.hours.cacheSequence := by
    obtain heq | ⟨-, heq⟩ := TradingHours.snd_endRead s.hours reader row
    · rw [heq]
    · rw [heq]; rfl
  have hpending : (s.hours.endRead reader row).2.pendingGeneration key
      = s.hours.pendingGeneration key := by
    obtain heq | ⟨now, hact, -⟩ | ⟨g, now, hact, -⟩ := hstep.pendingGeneration key
    · exact heq
    · cases hact
    · cases hact
  refine ⟨h.fenced.step hstep, h.marksBefore_le, fun p hp => ?_, fun id fetch hid hfresh => ?_⟩
  · exact hsequence ▸ h.found p (List.mem_of_mem_erase hp)
  · have hinv := h.fresh id fetch hid hfresh
    refine ⟨fun g hg => hinv.requested g (hpending ▸ hg), fun hack =>
      hpending.trans (hinv.acknowledged hack), hinv.store, fun row' hrow hlast entry hentry => ?_,
      fun row' hrow hlast p hp heq => hinv.found row' hrow hlast p (List.mem_of_mem_erase hp)
        (heq.trans hsequence)⟩
    obtain heq | ⟨hseq, heq⟩ := TradingHours.snd_endRead s.hours reader row
    · rw [heq] at hentry
      exact hinv.cached row' hrow hlast entry hentry
    · rw [heq] at hentry
      have hentry := TradingHours.get?_cache_prune _ reader.now hentry
      dsimp only at hentry
      have hkey : reader.key = key := (h.found _ hfound).1
      rw [hkey, Dict.get?_insert_self] at hentry
      rw [← Option.some.inj hentry]
      exact hinv.found row' hrow hlast (reader, row) hfound hseq.symm

theorem RefreshInv.answer (h : RefreshInv key s) (now : ℚ)
    {stage : HoursFetchStage} (hid : s.fetches id = some fetch) (hack : ¬ stage.Acknowledged)
    (hrow : stage.row? = none) :
    RefreshInv key ({ s with hours := (s.hours.refreshGeneration key now).2 }.setStage id fetch
      stage) := by
  have hpruned := h.refreshGeneration now
  exact hpruned.setStage hid fun hfresh =>
    (hpruned.fresh id fetch hid hfresh).ofRequested rfl hack hrow

/-- From its invalidation on, a refresh finds neither a cached row nor a read of an older one. -/
theorem RefreshInv.invalidate (h : RefreshInv key s) (now : ℚ) (hid : s.fetches id = some fetch)
    (hstage : fetch.stage = .stored row) :
    RefreshInv key ({ s with hours := s.hours.invalidate key.route now }.setStage id fetch
      (.invalidated row)) := by
  have hstep : TradingHours.Step s.hours _ (s.hours.invalidate key.route now) :=
    .invalidate key.route now
  have hforgot := h.withHours hstep (fun _ hact => nomatch hact) fun _ _ hact => nomatch hact
  refine hforgot.setStage hid fun hfresh => ?_
  have hinv := hforgot.fresh id fetch hid hfresh
  refine ⟨hinv.requested, False.elim, fun row' hrow hlast => ?_, fun row' _ _ entry hentry => ?_,
    fun row' _ _ p hp heq => ?_⟩
  · exact hinv.store row' (hstage ▸ hrow) hlast
  · dsimp only at hentry
    rw [TradingHours.get?_cache_invalidate] at hentry
    cases hentry
  · have hle := (h.found p hp).2
    have hlt : s.hours.cacheSequence < (s.hours.invalidate key.route now).cacheSequence :=
      hstep.cacheSequence.2 _ rfl
    have heq : p.1.readSequence = (s.hours.invalidate key.route now).cacheSequence := heq
    omega

/-- An acknowledgement of a fresh refresh leaves nothing to wait for. -/
theorem RefreshInv.acknowledge (h : RefreshInv key s) (now : ℚ) (hid : s.fetches id = some fetch)
    (hstage : fetch.stage = .invalidated row) :
    RefreshInv key ({ s with
      hours := (s.hours.acknowledge key fetch.generation now).2 }.setStage id fetch
        (.acknowledged row)) := by
  have hdone := h.withHours (.acknowledge key fetch.generation now) (fun _ hact => nomatch hact)
    fun _ _ hact => nomatch hact
  refine hdone.setStage hid fun hfresh => ?_
  have hinv := hdone.fresh id fetch hid hfresh
  refine ⟨hinv.requested, fun _ => ?_, fun row' hrow => hinv.store row' (hstage ▸ hrow),
    fun row' hrow => hinv.cached row' (hstage ▸ hrow),
    fun row' hrow => hinv.found row' (hstage ▸ hrow)⟩
  show (s.hours.acknowledge key fetch.generation now).2.pendingGeneration key = none
  rw [TradingHours.pendingGeneration_acknowledge]
  cases hpending : s.hours.pendingGeneration key with
  | none => simp
  | some g =>
    have hg : g = fetch.generation := (h.fresh id fetch hid hfresh).requested g hpending
    rw [if_pos ⟨rfl, by rw [hg]⟩]

theorem RefreshInv.finish (h : RefreshInv key s) (now : ℚ) (hid : s.fetches id = some fetch)
    (hstage : fetch.stage = .acknowledged row) :
    RefreshInv key ({ s with hours := (s.hours.refreshGeneration key now).2 }.setStage id fetch
      (.succeeded row)) := by
  have hpruned := h.refreshGeneration now
  refine hpruned.setStage hid fun hfresh => ?_
  have hinv := hpruned.fresh id fetch hid hfresh
  exact ⟨hinv.requested, fun _ => hinv.acknowledged (hstage ▸ trivial),
    fun row' hrow => hinv.store row' (hstage ▸ hrow),
    fun row' hrow => hinv.cached row' (hstage ▸ hrow),
    fun row' hrow => hinv.found row' (hstage ▸ hrow)⟩

/-- A reader finds the row of the refresh that was the last to store. -/
theorem RefreshInv.readStore (h : RefreshInv key s) {reader : HoursReader}
    (hkey : reader.key = key) (hreader : reader ∈ s.hours.readers) :
    RefreshInv key { s with found := s.found ++ [(reader, s.store.hours)] } := by
  refine ⟨h.fenced, h.marksBefore_le, fun p hp => ?_, fun id fetch hid hfresh => ?_⟩
  · rcases List.mem_append.mp hp with hp | hp
    · exact h.found p hp
    · rw [List.mem_singleton.mp hp]
      exact ⟨hkey, h.fenced.readSequence_le reader hreader⟩
  · have hinv := h.fresh id fetch hid hfresh
    refine ⟨hinv.requested, hinv.acknowledged, hinv.store, hinv.cached,
      fun row hrow hlast p hp heq => ?_⟩
    rcases List.mem_append.mp hp with hp | hp
    · exact hinv.found row hrow hlast p hp heq
    · rw [List.mem_singleton.mp hp]
      exact hinv.store row (HoursFetchStage.row?_of_cleared? hrow) hlast

end

theorem upsertTradingHours_hours {t t' : ScheduleTables} {u : ScheduleUpdate} {fetchedAt : Time}
    (h : t.upsertTradingHours u fetchedAt = .ok t') : t'.hours = some (u.snapshot fetchedAt) := by
  unfold ScheduleTables.upsertTradingHours at h
  obtain ⟨rows, -, h⟩ := bind_eq_ok.mp h
  dsimp only at h
  split at h
  · rw [← Except.ok.inj h]
  · rw [← Except.ok.inj h]

theorem RefreshInv.step {key : SessionRefreshKey} {s t : HoursRefresh} {a : HoursRefreshAct}
    (h : RefreshInv key s) (hstep : Guarded LandsInTime (HoursRefreshStep key) s a t) :
    RefreshInv key t := by
  obtain ⟨hok, hstep⟩ := hstep
  cases hstep with
  | mark withStore now => exact h.mark now _
  | @delete n fails hn =>
    cases fails with
    | false => exact h.withStore hok _ n s.lastStored
    | true =>
      refine ⟨h.fenced, h.marksBefore_le, h.found, fun id fetch hid hfresh => ?_⟩
      have hinv := h.fresh id fetch hid hfresh
      exact ⟨hinv.requested, hinv.acknowledged, hinv.store, hinv.cached, hinv.found⟩
  | beginFetch id now hid => exact h.beginFetch now
  | answer id update now hid hstage =>
    split
    · exact h.answer now hid (nomatch ·) rfl
    · exact h.answer now hid (nomatch ·) rfl
  | @upsert fetch update store id fetchedAt hid hstage hstore =>
    have hrow := upsertTradingHours_hours hstore
    by_cases hfresh : s.Fresh fetch
    · exact h.upsert hid hrow hfresh
    · have hnew : NothingNewer s := hok.resolve_left fun hall => hfresh (hall fetch hid)
      exact (h.withStore hnew store s.deletions (some id)).setStage hid fun hyes =>
        absurd hyes hfresh
  | invalidate id now hid hstage => exact h.invalidate now hid hstage
  | acknowledge id now hid hstage => exact h.acknowledge now hid hstage
  | finish id now hid hstage =>
    split
    · exact h.answer now hid (nomatch ·) rfl
    · exact h.finish now hid hstage
  | fail id hid hstage =>
    exact h.setStage hid fun hfresh =>
      (h.fresh id _ hid hfresh).ofRequested rfl (nomatch ·) rfl
  | beginRead now =>
    exact h.withHours (.beginRead key now) (fun _ hact => nomatch hact)
      fun _ _ hact => nomatch hact
  | readStore reader hkey hreader => exact h.readStore hkey hreader
  | endRead reader row hfound hreader => exact h.endRead hfound hreader
  | other hother hact =>
    refine h.withHours hact (fun now heq => ?_) fun reader row heq => ?_
    · subst heq
      exact hother rfl
    · subst heq
      exact hother

/-- **Refreshed hours stay.** In runs whose deletions and late upserts land in time, what a refresh
that began after the last mark has stored is what the store holds, until another refresh stores its
own, and what every cached read returns. -/
theorem refreshedHours_stay {key : SessionRefreshKey} {as : List HoursRefreshAct}
    {s : HoursRefresh} (hrun : Run (Guarded LandsInTime (HoursRefreshStep key)) .start as s)
    {id : ℕ} {fetch : HoursFetch} {row : ScheduleSnapshot} (hid : s.fetches id = some fetch)
    (hfresh : s.Fresh fetch) (hdone : fetch.stage = .succeeded row)
    (hlast : s.lastStored = some id) : s.store.hours = some row ∧ ReadsReturn key s row := by
  have hinv : RefreshInv key s :=
    hrun.invariant (fun _ _ _ h hstep => h.step hstep) (RefreshInv.start key)
  have hfetch := hinv.fresh id fetch hid hfresh
  have hrow : fetch.stage.cleared? = some row := by rw [hdone]; rfl
  have hnone : s.hours.pendingGeneration key = none := hfetch.acknowledged (hdone ▸ trivial)
  refine ⟨hfetch.store row (HoursFetchStage.row?_of_cleared? hrow) hlast, ?_, ?_, ?_⟩
  · intro now hpending
    obtain ⟨g, hg⟩ := TradingHours.waits_iff.mp (TradingHours.waits_of_refreshPending hpending)
    rw [hnone] at hg
    cases hg
  · intro now found hcached
    obtain ⟨entry, hentry, rfl⟩ := TradingHours.get?_cache_of_cached hcached
    exact hfetch.cached row hrow hlast entry hentry
  · intro p hp hends
    have hsequence : p.1.readSequence = s.hours.cacheSequence := by
      by_contra hne
      exact hends (Or.inr (Or.inl (Ne.symm hne)))
    rw [TradingHours.fst_endRead p.2 hends]
    exact hfetch.found row hrow hlast p hp hsequence

/-! ### A deletion that lands late -/

namespace FrontRefresh

open TradingHours (frontRoute)

def payload : SchedulePayload :=
  ⟨"708", "provider_declared_intervals", .aware (0 : ℤ), .aware (100 : ℤ),
    some [some ⟨"trading", "open", .aware (0 : ℤ), .aware (100 : ℤ), .day 0, .missing⟩], ""⟩

def update : ScheduleUpdate := ⟨"America/New_York", "", "", payload⟩

def row : ScheduleSnapshot := update.snapshot (50 : ℤ)

def tables : ScheduleTables :=
  ⟨some row, [row], [⟨0, .trading, (0 : ℤ), (100 : ℤ), .opened, (50 : ℤ), "{}"⟩]⟩

/-- The mark leaves a deletion to come; the refresh is complete before it. -/
def acts : List HoursRefreshAct :=
  [.mark true 0, .beginFetch 0 1, .answer 0 update 2, .upsert 0 (50 : ℤ), .invalidate 0 4,
    .acknowledge 0 5, .finish 0 6]

def hours : TradingHours ScheduleSnapshot :=
  let s : TradingHours ScheduleSnapshot := .initial
  let s := (s.markStale frontRoute 0).refreshGeneration frontRoute 1
  let s := (s.2.refreshGeneration frontRoute 2).2.invalidate frontRoute.route 4
  ((s.acknowledge frontRoute 1 5).2.refreshGeneration frontRoute 6).2

theorem upsert_tables :
    ScheduleTables.empty.upsertTradingHours update (50 : ℤ) = .ok tables := by
  rfl

theorem run_refreshed :
    ∃ s, Run (Guarded LandsInTime (HoursRefreshStep frontRoute)) .start acts s ∧
      s.fetches 0 = some ⟨1, 1, .succeeded row⟩ ∧ s.marks = 1 ∧ s.lastStored = some 0 ∧
      s.deletions = 1 ∧ s.hours = hours ∧ s.store = tables ∧ s.found = [] := by
  refine ⟨_, .cons ⟨trivial, .mark true 0⟩ <| .cons ⟨trivial, .beginFetch 0 1 rfl⟩ <|
    .cons ⟨trivial, @HoursRefreshStep.answer frontRoute _ ⟨1, 1, .fetching⟩ 0 update 2
      (by decide +kernel) rfl⟩ <|
    .cons ⟨Or.inl fun fetch hfetch => ?_, @HoursRefreshStep.upsert frontRoute _
      ⟨1, 1, .storing update⟩ update tables 0 (50 : ℤ) (by decide +kernel) rfl upsert_tables⟩ <|
    .cons ⟨trivial, .invalidate 0 4 rfl rfl⟩ <| .cons ⟨trivial, .acknowledge 0 5 rfl rfl⟩ <|
    .cons ⟨trivial, .finish 0 6 rfl rfl⟩ <| .nil _, ?_, rfl, rfl, rfl, ?_, rfl, rfl⟩
  · cases hfetch
    rfl
  · decide +kernel
  · rfl

/-- The reader that comes after the refresh. -/
def lateReader : HoursReader := ⟨frontRoute, 8, 0, 2, 2⟩

end FrontRefresh

open FrontRefresh TradingHours in
/-- The refresh that is complete before the deletion. -/
theorem refreshedHours_stay_front :
    ∃ s, Run (Guarded LandsInTime (HoursRefreshStep frontRoute)) .start acts s ∧
      s.store.hours = some row ∧ ReadsReturn frontRoute s row := by
  obtain ⟨s, hrun, hid, hmarks, hlast, -⟩ := run_refreshed
  exact ⟨s, hrun, refreshedHours_stay hrun hid hmarks.symm rfl hlast⟩

open FrontRefresh TradingHours in
/-- The deletion of the mark takes what the refresh after the mark stored and acknowledged; a read
that nothing crosses finds nothing. -/
theorem refreshedHours_deleted :
    ∃ s fetch, Run (HoursRefreshStep frontRoute) .start
        (acts ++ [.delete false, .beginRead 8, .readStore lateReader]) s ∧
      s.fetches 0 = some fetch ∧ s.Fresh fetch ∧ fetch.stage = .succeeded row ∧
      s.lastStored = some 0 ∧ s.store.hours = none ∧ (lateReader, none) ∈ s.found ∧
      ¬ s.hours.Superseded lateReader ∧ (s.hours.endRead lateReader none).1 = none := by
  obtain ⟨s, hrun, hid, hmarks, hlast, hdeletions, hhours, hstore, hfound⟩ := run_refreshed
  have hreaders : (hours.beginRead frontRoute 8).2.readers = [lateReader] := by decide +kernel
  have hmem : lateReader ∈ (s.hours.beginRead frontRoute 8).2.readers := by
    rw [hhours, hreaders]
    exact List.mem_singleton_self _
  have hnot : ¬ (hours.beginRead frontRoute 8).2.Superseded lateReader := by decide +kernel
  have hnot : ¬ (s.hours.beginRead frontRoute 8).2.Superseded lateReader := by rwa [hhours]
  refine ⟨_, _, hrun.unguard.append (.cons (.delete false hdeletions) <| .cons (.beginRead 8) <|
    .cons (.readStore lateReader rfl hmem) <| .nil _), hid, hmarks.symm, rfl, hlast, rfl, ?_,
    hnot, TradingHours.fst_endRead none hnot⟩
  exact List.mem_append_right _ (List.mem_singleton_self _)

end AefTerminal
