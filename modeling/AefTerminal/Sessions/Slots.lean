import AefTerminal.Foundation.FirstDistinct
import AefTerminal.Sessions.Buckets

/-!
# The slots of a window

The coverage of a window is read from the stored rows of its local days, at most
`_SESSION_COVERAGE_INTERVAL_LIMIT` of them. Where there are no more, it is exact: it knows the schedule
as far as the rows tell it, and it has the first bars of the open sessions that lie in the window. A
caller that asks again from the cursor on, until there is none, gets each of them once.

A window with more rows is never verified and always truncated, also where its rows are all closed.

## Main definitions

* `SlotSource`: what the results share of a provider and its stored sessions
* `ScheduleTables.SlotOf`: a bar of an open session in the window
* `Restarts`: the calls of a caller that goes on at the cursor
* `SlotLaw`: what an exact coverage says

* `providerSessionFutureBarSlotCoverage`

## Main results

* `slot_coverage`
* `future_slots`: the slots after an anchor are the first ones in what the schedule is known of
-/

namespace AefTerminal

open Foundation

/-! ### The stored rows of a window -/

/-- A row as it is read. -/
def ScheduleTables.readRow (t : ScheduleTables) (r : SessionInterval) : SessionIntervalRead :=
  ⟨r, t.sourceCoverage r⟩

/-- The source coverage of a stored row that is well formed. -/
def ScheduleTables.authority (t : ScheduleTables) (r : SessionInterval) : Option (Span Time) :=
  (t.readRow r).authority

/-- The rows that are well formed, and the instants that their source coverages hold. -/
def ScheduleTables.WellFormed (t : ScheduleTables) (rows : List SessionInterval) : Prop :=
  ∀ r ∈ rows, t.authority r ≠ none

def ScheduleTables.CoversAt (t : ScheduleTables) (rows : List SessionInterval) (ts : Time) : Prop :=
  ∃ r ∈ rows, ∃ s ∈ t.authority r, s.Holds ts

/-- Up to such an instant the rows cover the window from its start. -/
def ScheduleTables.CoversUntil (t : ScheduleTables) (rows : List SessionInterval)
    (window : Span Time) (mark : Time) : Prop :=
  mark ≤ window.ends ∧ ∀ ts, window.starts ≤ ts → ts < mark → t.CoversAt rows ts

/-- A bar that lies in the window begins there, in an open session of the rows. -/
def ScheduleTables.SlotOf (t : ScheduleTables) (rows : List SessionInterval) (grid : ProviderGrid)
    (timeframe : Timeframe) (window : Span Time) (slot : Time) : Prop :=
  ∃ r ∈ rows, r.status = .opened ∧ t.authority r ≠ none ∧
    ∃ b ∈ providerSessionBarBuckets grid timeframe r.span,
      b.startsAt = slot ∧ window.starts ≤ b.startsAt ∧ b.closesAt ≤ window.ends

/-- The slots that a window has. -/
abbrev ScheduleTables.Slot (t : ScheduleTables) (type : SessionType) : ProviderGrid → Timeframe →
    Span Time → Time → Prop := t.SlotOf (ofType type t.intervals)

/-- No two open sessions of the type meet. -/
def ScheduleTables.OpenApart (t : ScheduleTables) (type : SessionType) : Prop :=
  t.intervals.Pairwise fun r r' => r.sessionType = type → r'.sessionType = type →
    r.status = .opened → r'.status = .opened → ¬ r.span.Meets r'.span

instance (t : ScheduleTables) (type : SessionType) : Decidable (t.OpenApart type) :=
  inferInstanceAs (Decidable (List.Pairwise _ _))

/-- The rows that are read for a window. -/
def ScheduleTables.rowsAround (t : ScheduleTables) (type : SessionType) (zone : SessionZone)
    (window : Span Time) : List SessionInterval := t.nearby type (localDays zone window)

/-- A day begins at or before its instants, and the next one after them. -/
structure SessionZone.Lawful (zone : SessionZone) : Prop where
  holds : ∀ ts, zone.midnight (zone.date ts) ≤ ts ∧ ts < zone.midnight (zone.date ts + 1)
  mono : ∀ day day', day ≤ day' → zone.midnight day ≤ zone.midnight day'

/-- The zone of a provider whose cached hours name a contract and a timezone. -/
def SessionSource.sessionZone (source : SessionSource) : Option SessionZone :=
  source.hours.bind fun hours =>
    if hours.rawPayload.providerContractId = "" ∨ strip hours.timezone = "" then none
    else source.zone (strip hours.timezone)

def SessionSource.hoursRevision (source : SessionSource) : ℤ :=
  providerScheduleRevision (source.hours.toList.map ScheduleSnapshot.fetchedAt)

/-- A provider with sessions on a grid, whose hours are cached and whose open sessions are stored
apart. -/
structure SlotSource (source : SessionSource) (sessionScope : Option String) (t : ScheduleTables)
    (type : SessionType) (zone : SessionZone) (grid : ProviderGrid) (timeframe : Timeframe) :
    Prop where
  sessions : source.continuousSession = false
  store : source.store = some t
  zone_eq : source.sessionZone = some zone
  lawful : zone.Lawful
  scope : resolveScope source sessionScope = .ok type
  buckets : source.buckets = fun opensAt closesAt =>
    (providerSessionBarBuckets grid timeframe ⟨opensAt, closesAt⟩).map some
  apart : t.OpenApart type

/-! ### Going on at the cursor -/

/-- The slots of a window, call by call. -/
inductive Restarts (source : SessionSource) (interval : ChartInterval)
    (sessionScope : Option String) (limit : ℤ) : Span Time → List Time → Prop
  | last {window : Span Time} {c : ProviderSessionBarSlotCoverage} :
      providerSessionBarSlotCoverageBetween source window interval sessionScope limit = .ok c →
      c.pendingCursor = none → Restarts source interval sessionScope limit window c.expectedSlots
  | next {window : Span Time} {c : ProviderSessionBarSlotCoverage} {cursor : Time}
      {rest : List Time} :
      providerSessionBarSlotCoverageBetween source window interval sessionScope limit = .ok c →
      c.pendingCursor = some cursor →
      Restarts source interval sessionScope limit ⟨cursor, window.ends⟩ rest →
      Restarts source interval sessionScope limit window (c.expectedSlots ++ rest)

/-- What the coverage of a window says, where it has these rows and these slots. -/
structure SlotLaw (t : ScheduleTables) (rows : List SessionInterval) (window : Span Time)
    (limit : ℕ) (all : List Time) (c : ProviderSessionBarSlotCoverage) : Prop where
  verified_iff : c.scheduleState = .verified ↔
    t.WellFormed rows ∧ ∀ ts, window.Holds ts → t.CoversAt rows ts
  verifiedUntil_iff : ∀ mark, c.verifiedUntil = some mark ↔
    t.WellFormed rows ∧ window.starts < mark ∧ IsGreatest {m | t.CoversUntil rows window m} mark
  expected : c.expectedSlots = all.take limit
  truncated_iff : c.truncated = true ↔ c.expectedSlots ≠ all
  cursor : c.pendingCursor = all[limit]?

/-! ### The rows -/

section Rows

variable {t : ScheduleTables} {type : SessionType} {rows : List SessionInterval}
  {zone : SessionZone} {window : Span Time}

theorem pairwise_spanSorted (spans : List (Span Time)) :
    (spanSorted spans).Pairwise fun s s' => s.starts ≤ s'.starts := by
  let earlier : Span Time → Span Time → Prop := fun s s' =>
    s.starts < s'.starts ∨ s.starts = s'.starts ∧ s.ends ≤ s'.ends
  have htotal : Std.Total earlier := ⟨fun s s' => by
    rcases lt_trichotomy s.starts s'.starts with h | h | h
    · exact .inl (.inl h)
    · exact (le_total s.ends s'.ends).imp (fun hle => .inr ⟨h, hle⟩) fun hle => .inr ⟨h.symm, hle⟩
    · exact .inr (.inl h)⟩
  have htrans : IsTrans (Span Time) earlier := ⟨fun s s' s'' h h' => by
    rcases h with h | ⟨h, hle⟩ <;> rcases h' with h' | ⟨h', hle'⟩
    · exact .inl (h.trans h')
    · exact .inl (h' ▸ h)
    · exact .inl (h ▸ h')
    · exact .inr ⟨h.trans h', hle.trans hle'⟩⟩
  have h : (spanSorted spans).Pairwise earlier := @List.pairwise_insertionSort _ _ _ htotal htrans spans
  exact h.imp fun h => h.elim le_of_lt fun h => h.1.le

theorem ScheduleTables.proper_of_authority {r : SessionInterval} (h : t.authority r ≠ none) :
    r.span.Proper := by
  obtain ⟨s, hs⟩ := Option.ne_none_iff_exists'.mp h
  have hauthority := (Option.filter_eq_some_iff.mp hs).2
  exact (of_decide_eq_true hauthority).1

theorem mem_openSessions {s : Span Time} :
    s ∈ openSessions (rows.map t.readRow) ↔
      ∃ r ∈ rows, r.status = .opened ∧ t.authority r ≠ none ∧ r.span = s := by
  simp only [openSessions, spanSorted, List.mem_insertionSort, List.mem_map, List.mem_filter,
    decide_eq_true_eq]
  constructor
  · rintro ⟨-, ⟨⟨r, hr, rfl⟩, hopen, hauthority⟩, rfl⟩
    exact ⟨r, hr, hopen, Option.isSome_iff_ne_none.mp hauthority, rfl⟩
  · rintro ⟨r, hr, hopen, hauthority, rfl⟩
    exact ⟨t.readRow r, ⟨⟨r, hr, rfl⟩, hopen, Option.isSome_iff_ne_none.mpr hauthority⟩, rfl⟩

/-- Sorted, each open session ends before the next begins. -/
theorem openSessions_before (hrows : rows.Pairwise fun r r' =>
      r.status = .opened → r'.status = .opened → ¬ r.span.Meets r'.span) :
    (openSessions (rows.map t.readRow)).Pairwise Span.Before := by
  have hapart : (openSessions (rows.map t.readRow)).Pairwise fun s s' => ¬ s.Meets s' := by
    rw [openSessions, spanSorted]
    refine List.Pairwise.perm ?_ (List.perm_insertionSort _ _).symm fun h hm => h hm.symm
    rw [List.pairwise_map, List.filter_map, List.pairwise_map]
    refine (hrows.filter _).imp_of_mem fun hr hr' h => ?_
    have hopen := (of_decide_eq_true (List.mem_filter.mp hr).2).1
    have hopen' := (of_decide_eq_true (List.mem_filter.mp hr').2).1
    exact h hopen hopen'
  have hproper : ∀ s ∈ openSessions (rows.map t.readRow), s.Proper := by
    intro s hs
    obtain ⟨r, -, -, hauthority, rfl⟩ := mem_openSessions.mp hs
    exact ScheduleTables.proper_of_authority hauthority
  refine (hapart.and (pairwise_spanSorted _)).imp_of_mem fun hs hs' h => ?_
  by_contra hlt
  exact h.1 ⟨h.2.trans_lt (hproper _ hs'), not_le.mp hlt⟩

theorem ScheduleTables.OpenApart.rowsAround (h : t.OpenApart type) :
    (t.rowsAround type zone window).Pairwise fun r r' =>
      r.status = .opened → r'.status = .opened → ¬ r.span.Meets r'.span := by
  have hsorted : (t.sortedIntervals type).Pairwise fun r r' => r.sessionType = type →
      r'.sessionType = type → r.status = .opened → r'.status = .opened →
        ¬ r.span.Meets r'.span := by
    refine List.Pairwise.perm (h.filter _) (List.perm_insertionSort _ _).symm ?_
    exact fun h htype htype' hopen hopen' hm => h htype' htype hopen' hopen hm.symm
  refine (hsorted.filter _).imp_of_mem fun hr hr' h => ?_
  exact h (mem_nearby.mp hr).2.1 (mem_nearby.mp hr').2.1

/-- How far the rows cover a window, where all are well formed. -/
theorem coverageContract_eq_some (h : t.WellFormed rows) (hrows : rows ≠ []) :
    coverageContract (rows.map t.readRow) window = some (coveredUntil window.ends window.starts
      (spanSorted (rows.filterMap t.authority))) := by
  have hvalid : ¬ (rows.map t.readRow = [] ∨ ∃ r ∈ rows.map t.readRow, r.authority = none) := by
    rintro (hnil | ⟨r, hr, hnone⟩)
    · exact hrows (List.map_eq_nil_iff.mp hnil)
    · obtain ⟨r', hr', rfl⟩ := List.mem_map.mp hr
      exact h r' hr' hnone
  rw [coverageContract, if_neg hvalid, List.filterMap_map]
  rfl

theorem coverageContract_eq_none (h : ¬ t.WellFormed rows ∨ rows = []) :
    coverageContract (rows.map t.readRow) window = none := by
  rw [coverageContract, if_pos]
  rcases h with h | rfl
  · simp only [ScheduleTables.WellFormed, not_forall, not_not] at h
    obtain ⟨r, hr, hnone⟩ := h
    exact .inr ⟨t.readRow r, List.mem_map_of_mem hr, hnone⟩
  · exact .inl rfl

theorem coversAt_iff_held {ts : Time} : t.CoversAt rows ts ↔
    ∃ s ∈ spanSorted (rows.filterMap t.authority), s.Holds ts := by
  simp only [ScheduleTables.CoversAt, spanSorted, List.mem_insertionSort, List.mem_filterMap]
  constructor
  · rintro ⟨r, hr, s, hs, hholds⟩
    exact ⟨s, ⟨r, hr, hs⟩, hholds⟩
  · rintro ⟨s, ⟨r, hr, hs⟩, hholds⟩
    exact ⟨r, hr, s, hs, hholds⟩

/-- The mark, cut to the window, is as far as the rows cover it. -/
theorem isGreatest_coveredUntil :
    IsGreatest {m | t.CoversUntil rows window m}
      (min (coveredUntil window.ends window.starts (spanSorted (rows.filterMap t.authority)))
        window.ends) := by
  have hstops := @coveredUntil_stops _ _ window.ends window.starts _
    (pairwise_spanSorted (rows.filterMap t.authority))
  constructor
  · refine ⟨min_le_right _ _, fun ts hstart hts => coversAt_iff_held.mpr ?_⟩
    exact coveredUntil_spec hstart (hts.trans_le (min_le_left _ _))
  · rintro m ⟨hends, hcovers⟩
    refine le_min (le_of_not_gt fun hlt => ?_) hends
    rcases hstops with hgoal | hgap
    · exact absurd (hgoal.trans_lt hlt) (not_lt.mpr hends)
    · obtain ⟨s, hs, hholds⟩ := coversAt_iff_held.mp (hcovers _ le_coveredUntil hlt)
      exact hgap s hs hholds

/-! ### The slots -/

/-- The slots of one session. -/
def windowSlots (window : Span Time) (bs : List ProviderBarBucket) : List Time :=
  (bs.filter fun b => window.starts ≤ b.startsAt ∧ b.closesAt ≤ window.ends).map
    ProviderBarBucket.startsAt

theorem collectBuckets_eq {limit : ℕ} {bs : List ProviderBarBucket} {collected : List Time}
    (hproper : ∀ b ∈ bs, b.span.Proper) (hlen : collected.length ≤ limit) :
    collectBuckets limit window (bs.map some) collected =
      takeDistinct limit (windowSlots window bs) collected := by
  induction bs generalizing collected with
  | nil => rfl
  | cons b bs ih =>
    have hrest {collected' : List Time} (hlen' : collected'.length ≤ limit) :
        collectBuckets limit window (bs.map some) collected' =
          takeDistinct limit (windowSlots window bs) collected' :=
      ih (fun b' hb' => hproper b' (List.mem_cons_of_mem _ hb')) hlen'
    have hb : ¬ b.closesAt ≤ b.startsAt := not_le.mpr (hproper b (by simp))
    rw [List.map_cons, collectBuckets, if_neg hb]
    by_cases hin : window.starts ≤ b.startsAt ∧ b.closesAt ≤ window.ends
    · have hslots : windowSlots window (b :: bs) = b.startsAt :: windowSlots window bs := by
        simp [windowSlots, hin]
      rw [if_pos hin, hslots, takeDistinct]
      dsimp only
      split
      · rfl
      · rename_i hroom
        exact hrest (not_lt.mp hroom)
    · have hslots : windowSlots window (b :: bs) = windowSlots window bs := by
        simp [windowSlots, hin]
      rw [if_neg hin, hslots]
      exact hrest hlen

variable {grid : ProviderGrid} {timeframe : Timeframe}

theorem proper_of_mem_buckets {session : Span Time} {b : ProviderBarBucket}
    (hb : b ∈ providerSessionBarBuckets grid timeframe session) : b.span.Proper := by
  obtain ⟨ts, hts, hcell, -⟩ := mem_providerSessionBarBuckets hb
  exact (sessionBarBucket_bounds hts hcell).1

/-- The slots of some sessions, as the loop goes through them. -/
def sessionSlots (grid : ProviderGrid) (timeframe : Timeframe) (window : Span Time)
    (sessions : List (Span Time)) : List Time :=
  sessions.flatMap fun s => windowSlots window (providerSessionBarBuckets grid timeframe s)

theorem collectSlots_eq {limit : ℕ} {sessions : List (Span Time)} {collected : List Time}
    (hlen : collected.length ≤ limit) :
    collectSlots limit window (fun opensAt closesAt =>
        (providerSessionBarBuckets grid timeframe ⟨opensAt, closesAt⟩).map some) sessions collected =
      takeDistinct limit (sessionSlots grid timeframe window sessions) collected := by
  induction sessions generalizing collected with
  | nil => rfl
  | cons s sessions ih =>
    have hfirst : collectBuckets limit window
        ((providerSessionBarBuckets grid timeframe s).map some) collected =
        takeDistinct limit (windowSlots window (providerSessionBarBuckets grid timeframe s))
          collected := collectBuckets_eq (fun b hb => proper_of_mem_buckets hb) hlen
    have hslots : sessionSlots grid timeframe window (s :: sessions) =
        windowSlots window (providerSessionBarBuckets grid timeframe s) ++
          sessionSlots grid timeframe window sessions := List.flatMap_cons
    rw [collectSlots, hslots, takeDistinct_append hlen, ← hfirst]
    split
    · rfl
    · rename_i hroom
      exact ih (not_lt.mp hroom)

/-- In sessions that follow each other the slots come in order. -/
theorem sessionSlots_pairwise {sessions : List (Span Time)} (h : sessions.Pairwise Span.Before) :
    (sessionSlots grid timeframe window sessions).Pairwise (· ≤ ·) := by
  refine List.pairwise_flatMap.mpr ⟨fun s _ => ?_, h.imp fun hbefore slot hslot slot' hslot' => ?_⟩
  · exact List.pairwise_map.mpr ((startsAt_pairwise grid timeframe s).filter _)
  · obtain ⟨b, hb, rfl⟩ := List.mem_map.mp hslot
    obtain ⟨b', hb', rfl⟩ := List.mem_map.mp hslot'
    exact startsAt_le_of_before hbefore (List.mem_filter.mp hb).1 (List.mem_filter.mp hb').1

theorem mem_sessionSlots {slot : Time} :
    slot ∈ sessionSlots grid timeframe window (openSessions (rows.map t.readRow)) ↔
      t.SlotOf rows grid timeframe window slot := by
  simp only [sessionSlots, windowSlots, List.mem_flatMap, mem_openSessions, List.mem_map,
    List.mem_filter, decide_eq_true_eq, ScheduleTables.SlotOf]
  constructor
  · rintro ⟨-, ⟨r, hr, hopen, hauthority, rfl⟩, b, ⟨hb, hin⟩, rfl⟩
    exact ⟨r, hr, hopen, hauthority, b, hb, rfl, hin⟩
  · rintro ⟨r, hr, hopen, hauthority, b, hb, rfl, hin⟩
    exact ⟨r.span, ⟨r, hr, hopen, hauthority, rfl⟩, b, ⟨hb, hin⟩, rfl⟩

/-- The slots that the loop collects are the first ones of the rows, and one more. -/
theorem sort_collectSlots (hrows : rows.Pairwise fun r r' =>
      r.status = .opened → r'.status = .opened → ¬ r.span.Meets r'.span)
    {all : List Time} (hall : Enumerates (t.SlotOf rows grid timeframe window) all) (limit : ℕ) :
    (collectSlots limit window (fun opensAt closesAt =>
        (providerSessionBarBuckets grid timeframe ⟨opensAt, closesAt⟩).map some)
      (openSessions (rows.map t.readRow)) []).insertionSort (· ≤ ·) = all.take (limit + 1) := by
  rw [collectSlots_eq (Nat.zero_le limit)]
  exact sort_takeDistinct (sessionSlots_pairwise (openSessions_before hrows))
    (hall.congr fun _ => mem_sessionSlots.symm) limit

end Rows

/-! ### One coverage -/

section Coverage

variable {t : ScheduleTables} {rows : List SessionInterval} {window : Span Time}
  {grid : ProviderGrid} {timeframe : Timeframe} {limit : ℕ} {revision : ℤ} {all : List Time}

theorem take_ne_iff : all.take limit ≠ all ↔ limit < all.length := by
  rw [ne_eq, List.take_eq_self_iff, not_le]

/-- The coverage from rows that are not cut. -/
theorem slotLaw_of_few (hwindow : window.Proper) (hrows : rows.Pairwise fun r r' =>
      r.status = .opened → r'.status = .opened → ¬ r.span.Meets r'.span)
    (hfew : rows.length ≤ sessionCoverageIntervalLimit)
    (hall : Enumerates (t.SlotOf rows grid timeframe window) all) :
    SlotLaw t rows window limit all (verifiedSlotCoverage (rows.map t.readRow) window limit
      (fun opensAt closesAt =>
        (providerSessionBarBuckets grid timeframe ⟨opensAt, closesAt⟩).map some) revision) := by
  have huncut : ¬ sessionCoverageIntervalLimit < (rows.map t.readRow).length := by
    rw [List.length_map]
    exact not_lt.mpr hfew
  have htake : (rows.map t.readRow).take sessionCoverageIntervalLimit = rows.map t.readRow :=
    List.take_of_length_le (not_lt.mp huncut)
  have hslots := sort_collectSlots hrows hall limit
  have hexpected : (all.take (limit + 1)).take limit = all.take limit := by
    rw [List.take_take, min_eq_left (Nat.le_succ limit)]
  have hcursor : (all.take (limit + 1))[limit]? = all[limit]? :=
    List.getElem?_take_of_lt (Nat.lt_succ_self limit)
  have hgreatest := @isGreatest_coveredUntil t rows window
  refine ⟨?_, fun mark => ?_, ?_, ?_, ?_⟩
  · simp only [verifiedSlotCoverage, htake, huncut, decide_false, Bool.false_eq_true, if_false]
    by_cases hvalid : t.WellFormed rows ∧ rows ≠ []
    · rw [coverageContract_eq_some hvalid.1 hvalid.2]
      dsimp only
      split
      · rename_i hends
        refine iff_of_true rfl ⟨hvalid.1, fun ts hts => ?_⟩
        exact coversAt_iff_held.mpr (coveredUntil_spec hts.1 (hts.2.trans_le hends))
      · rename_i hshort
        refine iff_of_false (by simp) fun h => hshort ?_
        have hall : t.CoversUntil rows window window.ends :=
          ⟨le_rfl, fun ts hstart hts => h.2 ts ⟨hstart, hts⟩⟩
        exact (hgreatest.2 hall).trans (min_le_left _ _)
    · rw [coverageContract_eq_none (by tauto)]
      refine iff_of_false (by simp) fun h => hvalid ⟨h.1, fun hnil => ?_⟩
      obtain ⟨r, hr, -⟩ := h.2 window.starts ⟨le_rfl, hwindow⟩
      exact absurd hr (hnil ▸ List.not_mem_nil)
  · simp only [verifiedSlotCoverage, htake, huncut, decide_false, Bool.false_eq_true, if_false]
    by_cases hvalid : t.WellFormed rows ∧ rows ≠ []
    · rw [coverageContract_eq_some hvalid.1 hvalid.2, Option.bind_some]
      constructor
      · intro h
        split at h
        · rename_i hstart
          cases h
          exact ⟨hvalid.1, lt_min hstart hwindow, hgreatest⟩
        · cases h
      · rintro ⟨-, hstart, hmark⟩
        obtain rfl := hmark.unique hgreatest
        rw [if_pos (hstart.trans_le (min_le_left _ _))]
    · rw [coverageContract_eq_none (by tauto), Option.bind_none]
      refine iff_of_false (by simp) fun h => hvalid ⟨h.1, fun hnil => ?_⟩
      obtain ⟨r, hr, -⟩ := h.2.2.1.2 window.starts le_rfl h.2.1
      exact absurd hr (hnil ▸ List.not_mem_nil)
  · simp only [verifiedSlotCoverage, htake, hslots, hexpected]
  · simp only [verifiedSlotCoverage, htake, hslots, hexpected, huncut, take_ne_iff, or_false,
      List.length_take, decide_false, Bool.false_eq_true, decide_eq_true_eq]
    omega
  · simp only [verifiedSlotCoverage, htake, hslots, hcursor, huncut, decide_false]
    cases all[limit]? <;> rfl

/-- The coverage from rows that are cut. -/
theorem slots_of_cut (hrows : rows.Pairwise fun r r' =>
      r.status = .opened → r'.status = .opened → ¬ r.span.Meets r'.span)
    (hcut : sessionCoverageIntervalLimit < rows.length)
    (hall : Enumerates
      (t.SlotOf (rows.take sessionCoverageIntervalLimit) grid timeframe window) all) :
    ∃ c, verifiedSlotCoverage (rows.map t.readRow) window limit (fun opensAt closesAt =>
        (providerSessionBarBuckets grid timeframe ⟨opensAt, closesAt⟩).map some) revision = c ∧
      c.scheduleState = .unknown ∧ c.verifiedUntil = none ∧ c.truncated = true ∧
        c.expectedSlots = all.take limit := by
  have hcut : sessionCoverageIntervalLimit < (rows.map t.readRow).length := by
    rwa [List.length_map]
  have hslots := sort_collectSlots (hrows.sublist (List.take_sublist _ _)) hall limit
  have hexpected : (all.take (limit + 1)).take limit = all.take limit := by
    rw [List.take_take, min_eq_left (Nat.le_succ limit)]
  rw [List.map_take] at hslots
  refine ⟨_, rfl, ?_, ?_, ?_, ?_⟩
  · simp only [verifiedSlotCoverage, hcut, decide_true, if_true]
  · simp only [verifiedSlotCoverage, hcut, decide_true, if_true, Option.bind_none]
  · simp only [verifiedSlotCoverage, hcut, decide_true, or_true]
  · simp only [verifiedSlotCoverage, hslots, hexpected]

end Coverage

/-! ### Local days -/

namespace SessionZone

variable {zone : SessionZone} {window : Span Time} {ts ts' : Time}

theorem Lawful.date_mono (h : zone.Lawful) (hle : ts ≤ ts') : zone.date ts ≤ zone.date ts' := by
  by_contra hlt
  have hday : zone.date ts' + 1 ≤ zone.date ts := Int.add_one_le_iff.mpr (not_le.mp hlt)
  have hlate := (h.mono _ _ hday).trans ((h.holds ts).1.trans hle)
  exact absurd (h.holds ts').2 (not_lt.mpr hlate)

theorem Lawful.window_within (h : zone.Lawful) : window.Within (localDays zone window) := by
  refine ⟨(h.holds window.starts).1, ?_⟩
  have hlast := (h.holds (window.ends - 1)).2
  exact Int.le_of_sub_one_lt hlast

theorem Lawful.localDays_proper (h : zone.Lawful) (hwindow : window.Proper) :
    (localDays zone window).Proper :=
  h.window_within.1.trans_lt (lt_of_lt_of_le hwindow h.window_within.2)

/-- The days from a later start on are among the days of the window. -/
theorem Lawful.localDays_within (h : zone.Lawful) (hle : window.starts ≤ ts) :
    (localDays zone ⟨ts, window.ends⟩).Within (localDays zone window) :=
  ⟨h.mono _ _ (h.date_mono hle), le_rfl⟩

end SessionZone

/-! ### The coverage of a provider -/

section Source

variable {source : SessionSource} {sessionScope : Option String} {t : ScheduleTables}
  {type : SessionType} {zone : SessionZone} {grid : ProviderGrid} {timeframe : Timeframe}
  {interval : ChartInterval} {limit : ℤ} {window : Span Time} {all : List Time} {cursor : Time}

theorem read_eq (h : zone.Lawful) (hwindow : window.Proper) :
    t.readTradingSessionIntervals type (some (localDays zone window))
        (sessionCoverageIntervalLimit + 1) =
      ((t.rowsAround type zone window).take (sessionCoverageIntervalLimit + 1)).map t.readRow := by
  have hlimit : ScheduleTables.rowLimit (sessionCoverageIntervalLimit + 1) =
      sessionCoverageIntervalLimit + 1 := by
    rw [sessionCoverageIntervalLimit]
    rfl
  simp only [ScheduleTables.readTradingSessionIntervals,
    if_neg (not_le.mpr (h.localDays_proper hwindow)), hlimit]
  rfl

theorem SlotSource.coverage_eq (h : SlotSource source sessionScope t type zone grid timeframe)
    (hwindow : window.Proper) :
    providerSessionBarSlotCoverageBetween source window interval sessionScope limit =
      .ok (verifiedSlotCoverage
        (((t.rowsAround type zone window).take (sessionCoverageIntervalLimit + 1)).map t.readRow)
        window (max limit 1).toNat (fun opensAt closesAt =>
          (providerSessionBarBuckets grid timeframe ⟨opensAt, closesAt⟩).map some)
        source.hoursRevision) := by
  have hzone := h.zone_eq
  rw [SessionSource.sessionZone] at hzone
  simp only [providerSessionBarSlotCoverageBetween, h.sessions, h.store, hzone, h.scope,
    Bool.false_eq_true, if_false, if_neg (not_le.mpr hwindow), read_eq h.lawful hwindow, h.buckets]
  rfl

theorem SlotSource.coverage_eq_of_improper
    (h : SlotSource source sessionScope t type zone grid timeframe) (hwindow : ¬ window.Proper) :
    providerSessionBarSlotCoverageBetween source window interval sessionScope limit =
      .ok ⟨.verified, [], false, none, some window.ends, source.hoursRevision⟩ := by
  have hzone := h.zone_eq
  rw [SessionSource.sessionZone] at hzone
  simp only [providerSessionBarSlotCoverageBetween, h.sessions, h.store, hzone,
    Bool.false_eq_true, if_false, if_pos (not_lt.mp hwindow)]
  rfl

/-- The sessions of a window's slots are among the rows that are read for it. -/
theorem slotOf_rowsAround_iff (h : zone.Lawful) {slot : Time} :
    t.SlotOf (t.rowsAround type zone window) grid timeframe window slot ↔
      t.Slot type grid timeframe window slot := by
  constructor
  · rintro ⟨r, hr, hslot⟩
    obtain ⟨hmem, htype, -⟩ := ScheduleTables.mem_nearby.mp hr
    exact ⟨r, List.mem_filter.mpr ⟨hmem, decide_eq_true htype⟩, hslot⟩
  · rintro ⟨r, hr, hopen, hauthority, b, hb, hstart, hin⟩
    obtain ⟨hmem, htype⟩ := List.mem_filter.mp hr
    obtain ⟨ts, hts, hcell, hcloses⟩ := mem_providerSessionBarBuckets hb
    obtain ⟨hproper, hends⟩ := sessionBarBucket_bounds hts hcell
    have hdays : window.Within (localDays zone window) := h.window_within
    have hmeets : r.span.Meets (localDays zone window) :=
      ⟨(hts.1.trans_lt hcloses).trans_le (hin.2.trans hdays.2),
        (hdays.1.trans hin.1).trans_lt (hproper.trans_le hends)⟩
    exact ⟨r, ScheduleTables.mem_nearby.mpr ⟨hmem, of_decide_eq_true htype, hmeets⟩, hopen,
      hauthority, b, hb, hstart, hin⟩

/-- The coverage of a window with few rows. -/
theorem SlotSource.exists_slotLaw
    (h : SlotSource source sessionScope t type zone grid timeframe) (hwindow : window.Proper)
    (hfew : (t.rowsAround type zone window).length ≤ sessionCoverageIntervalLimit)
    (hall : Enumerates (t.Slot type grid timeframe window) all) (limit : ℤ) :
    ∃ c, providerSessionBarSlotCoverageBetween source window interval sessionScope limit = .ok c ∧
      SlotLaw t (t.rowsAround type zone window) window (max limit 1).toNat all c := by
  refine ⟨_, h.coverage_eq hwindow, ?_⟩
  rw [List.take_of_length_le (hfew.trans (Nat.le_succ _))]
  exact slotLaw_of_few hwindow h.apart.rowsAround hfew
    (hall.congr fun _ => (slotOf_rowsAround_iff h.lawful).symm)

/-- The coverage of a window with more rows. -/
theorem SlotSource.coverage_of_cut
    (h : SlotSource source sessionScope t type zone grid timeframe) (hwindow : window.Proper)
    (hcut : sessionCoverageIntervalLimit < (t.rowsAround type zone window).length)
    (hall : Enumerates (t.SlotOf ((t.rowsAround type zone window).take
      sessionCoverageIntervalLimit) grid timeframe window) all) (limit : ℤ) :
    ∃ c, providerSessionBarSlotCoverageBetween source window interval sessionScope limit = .ok c ∧
      c.scheduleState = .unknown ∧ c.verifiedUntil = none ∧ c.truncated = true ∧
        c.expectedSlots = all.take (max limit 1).toNat := by
  have htake : ((t.rowsAround type zone window).take (sessionCoverageIntervalLimit + 1)).take
      sessionCoverageIntervalLimit =
        (t.rowsAround type zone window).take sessionCoverageIntervalLimit := by
    rw [List.take_take, min_eq_left (Nat.le_succ _)]
  obtain ⟨c, rfl, hc⟩ := slots_of_cut
    (h.apart.rowsAround.sublist (List.take_sublist (sessionCoverageIntervalLimit + 1) _))
    (by rw [List.length_take]; omega) (htake.symm ▸ hall)
  exact ⟨_, h.coverage_eq hwindow, hc⟩

theorem exists_slots (t : ScheduleTables) (rows : List SessionInterval) (grid : ProviderGrid)
    (timeframe : Timeframe) (window : Span Time) :
    ∃ all, Enumerates (t.SlotOf rows grid timeframe window) all := by
  obtain ⟨all, hall⟩ :=
    exists_enumerates (sessionSlots grid timeframe window (openSessions (rows.map t.readRow)))
  exact ⟨all, hall.congr fun _ => mem_sessionSlots⟩

/-- From a slot on, a window has the slots that it has from there on. -/
theorem slot_from_iff (hcursor : window.starts ≤ cursor) {slot : Time} :
    t.Slot type grid timeframe window slot ∧ cursor ≤ slot ↔
      t.Slot type grid timeframe ⟨cursor, window.ends⟩ slot := by
  constructor
  · rintro ⟨⟨r, hr, hopen, hauthority, b, hb, rfl, hin⟩, hle⟩
    exact ⟨r, hr, hopen, hauthority, b, hb, rfl, hle, hin.2⟩
  · rintro ⟨r, hr, hopen, hauthority, b, hb, rfl, hin⟩
    exact ⟨⟨r, hr, hopen, hauthority, b, hb, rfl, hcursor.trans hin.1, hin.2⟩, hin.1⟩

theorem slot_bounds {slot : Time} (h : t.Slot type grid timeframe window slot) :
    window.starts ≤ slot ∧ slot < window.ends := by
  obtain ⟨r, -, -, -, b, hb, rfl, hin⟩ := h
  have hproper : b.startsAt < b.closesAt := proper_of_mem_buckets hb
  exact ⟨hin.1, hproper.trans_le hin.2⟩

theorem ScheduleTables.rowsAround_length_le (h : zone.Lawful) (hcursor : window.starts ≤ cursor) :
    (t.rowsAround type zone ⟨cursor, window.ends⟩).length ≤
      (t.rowsAround type zone window).length := by
  have hdays : (localDays zone ⟨cursor, window.ends⟩).Within (localDays zone window) :=
    h.localDays_within hcursor
  refine (List.monotone_filter_right _ fun r hr => decide_eq_true ?_).length_le
  have hmeets := of_decide_eq_true hr
  exact ⟨hmeets.1.trans_le hdays.2, hdays.1.trans_lt hmeets.2⟩

/-- **Going on at the cursor.** The calls end, and together they tell the slots of the window. -/
theorem SlotSource.restarts (h : SlotSource source sessionScope t type zone grid timeframe)
    (window : Span Time) (hwindow : window.Proper)
    (hfew : (t.rowsAround type zone window).length ≤ sessionCoverageIntervalLimit)
    (all : List Time) (hall : Enumerates (t.Slot type grid timeframe window) all) :
    Restarts source interval sessionScope limit window all := by
  obtain ⟨c, hc, hlaw⟩ := h.exists_slotLaw hwindow hfew hall limit
  have hlimit : 1 ≤ (max limit 1).toNat := by omega
  rcases hnext : all[(max limit 1).toNat]? with _ | cursor
  · have hlast := Restarts.last hc (hlaw.cursor.trans hnext)
    rwa [hlaw.expected, List.take_of_length_le (List.getElem?_eq_none_iff.mp hnext)] at hlast
  · have hslot := (hall.mem_iff cursor).mp (List.mem_of_getElem? hnext)
    obtain ⟨hstart, hends⟩ := slot_bounds hslot
    have hshort : (all.drop (max limit 1).toNat).length < all.length := by
      have hlength := (List.getElem?_eq_some_iff.mp hnext).1
      rw [List.length_drop]
      omega
    have hrest := h.restarts ⟨cursor, window.ends⟩ hends
      ((ScheduleTables.rowsAround_length_le h.lawful hstart).trans hfew)
      (all.drop (max limit 1).toNat) ((hall.drop hnext).congr fun _ => slot_from_iff hstart)
    have hjoined := Restarts.next hc (hlaw.cursor.trans hnext) hrest
    rwa [hlaw.expected, List.take_append_drop] at hjoined
termination_by all.length

/-- The calls have one outcome. -/
theorem Restarts.unique {out out' : List Time}
    (h : Restarts source interval sessionScope limit window out)
    (h' : Restarts source interval sessionScope limit window out') : out = out' := by
  induction h generalizing out' with
  | last hc hnone =>
    cases h' with
    | last hc' _ => rw [Except.ok.inj (hc.symm.trans hc')]
    | next hc' hsome _ =>
      rw [Except.ok.inj (hc.symm.trans hc')] at hnone
      exact nomatch hnone.symm.trans hsome
  | next hc hsome _ ih =>
    cases h' with
    | last hc' hnone =>
      rw [Except.ok.inj (hc.symm.trans hc')] at hsome
      exact nomatch hnone.symm.trans hsome
    | next hc' hsome' hrest =>
      cases (hc.symm.trans hc')
      cases (hsome.symm.trans hsome')
      rw [ih hrest]

/-- **The coverage of a window.** With no more rows in its local days than are read, it is verified
exactly where they are well formed and cover the window, its slots are the first ones, and going on
at the cursor gives all. With more rows it is unknown and truncated. -/
theorem slot_coverage (h : SlotSource source sessionScope t type zone grid timeframe)
    (hlimit : 1 ≤ limit) :
    (window.Proper → (t.rowsAround type zone window).length ≤ sessionCoverageIntervalLimit →
      ∃ all c, Enumerates (t.Slot type grid timeframe window) all ∧
        providerSessionBarSlotCoverageBetween source window interval sessionScope limit = .ok c ∧
        SlotLaw t (t.rowsAround type zone window) window limit.toNat all c ∧
        (∀ unlimited : ℤ, all.length ≤ unlimited → ∃ c',
          providerSessionBarSlotCoverageBetween source window interval sessionScope unlimited =
            .ok c' ∧ c'.expectedSlots = all) ∧
        ∀ out, Restarts source interval sessionScope limit window out ↔ out = all) ∧
    (window.Proper → sessionCoverageIntervalLimit < (t.rowsAround type zone window).length →
      ∃ all c, Enumerates (t.SlotOf ((t.rowsAround type zone window).take
          sessionCoverageIntervalLimit) grid timeframe window) all ∧
        providerSessionBarSlotCoverageBetween source window interval sessionScope limit = .ok c ∧
        c.scheduleState = .unknown ∧ c.verifiedUntil = none ∧ c.truncated = true ∧
        c.expectedSlots = all.take limit.toNat) ∧
    (¬ window.Proper →
      providerSessionBarSlotCoverageBetween source window interval sessionScope limit =
        .ok ⟨.verified, [], false, none, some window.ends, source.hoursRevision⟩) := by
  have hmax : max limit 1 = limit := max_eq_left hlimit
  refine ⟨fun hwindow hfew => ?_, fun hwindow hcut => ?_, h.coverage_eq_of_improper⟩
  · obtain ⟨all, hall⟩ := exists_slots t (ofType type t.intervals) grid timeframe window
    obtain ⟨c, hc, hlaw⟩ := h.exists_slotLaw hwindow hfew hall limit
    rw [hmax] at hlaw
    refine ⟨all, c, hall, hc, hlaw, fun unlimited hle => ?_, fun out => ?_⟩
    · obtain ⟨c', hc', hlaw'⟩ := h.exists_slotLaw hwindow hfew hall unlimited
      refine ⟨c', hc', ?_⟩
      rw [hlaw'.expected, List.take_of_length_le (by omega)]
    · have hrestarts : Restarts source interval sessionScope limit window all :=
        h.restarts window hwindow hfew all hall
      exact ⟨fun hout => hout.unique hrestarts, fun hout => hout ▸ hrestarts⟩
  · obtain ⟨all, hall⟩ := exists_slots t
      ((t.rowsAround type zone window).take sessionCoverageIntervalLimit) grid timeframe window
    obtain ⟨c, hc, hlaw⟩ := h.coverage_of_cut hwindow hcut hall limit
    rw [hmax] at hlaw
    exact ⟨all, c, hall, hc, hlaw⟩

end Source

/-! ### The slots after an anchor -/

structure ProviderSessionFutureSlotCoverage where
  scheduleState : ScheduleState
  expectedSlots : List Time
  complete : Bool
  pendingCursor : Option Time
  scheduleRevision : ℤ
  deriving DecidableEq, Repr

/-- `through.astimezone(UTC) if through is not None else after_utc + timedelta(days=7)` -/
def futureHorizon (after : Time) (through : Option Time) : Time := through.getD (after + 7 * oneDay)

def futureCoverage (after : Time) (count : ℕ) (coverage : ProviderSessionBarSlotCoverage) :
    ProviderSessionFutureSlotCoverage :=
  let expected := ((coverage.expectedSlots.filter fun slot =>
    after < slot ∧ ∃ mark ∈ coverage.verifiedUntil, slot < mark).dedup.insertionSort
      (· ≤ ·)).take count
  { scheduleState :=
      if coverage.scheduleState = .continuous then .continuous
      else if ∃ mark ∈ coverage.verifiedUntil, after + 1 < mark then .verified
      else .unknown
    expectedSlots := expected
    complete := count ≤ expected.length
    pendingCursor :=
      if count ≤ expected.length then none
      else some ((coverage.pendingCursor.or coverage.verifiedUntil).getD (after + 1))
    scheduleRevision := coverage.scheduleRevision }

def providerSessionFutureBarSlotCoverage (source : SessionSource) (after : Time)
    (interval : ChartInterval) (count : ℤ) (through : Option Time) :
    Except String ProviderSessionFutureSlotCoverage := do
  if count ≤ 0 ∨ sessionCoverageIntervalLimit < count then
    throw "future provider bar-slot count must be between 1 and 2048"
  if ∃ horizon ∈ through, horizon ≤ after then
    throw "future provider bar-slot horizon must be aware and after anchor"
  let coverage ← providerSessionBarSlotCoverageBetween source
    ⟨after + 1, futureHorizon after through⟩ interval none (count + 1)
  return futureCoverage after count.toNat coverage

section Future

variable {source : SessionSource} {t : ScheduleTables} {type : SessionType} {zone : SessionZone}
  {grid : ProviderGrid} {timeframe : Timeframe} {interval : ChartInterval} {after : Time}
  {count : ℤ} {through : Option Time} {rows : List SessionInterval} {window : Span Time}
  {all : List Time} {c : ProviderSessionBarSlotCoverage}

/-- The slot lies in the part of the window that the rows cover from its start on. -/
def ScheduleTables.KnownUntil (t : ScheduleTables) (rows : List SessionInterval)
    (window : Span Time) (slot : Time) : Prop :=
  t.WellFormed rows ∧ ∃ mark, t.CoversUntil rows window mark ∧ slot < mark

theorem SlotLaw.known_iff {limit : ℕ} (h : SlotLaw t rows window limit all c) {slot : Time}
    (hslot : window.starts ≤ slot) :
    (∃ mark ∈ c.verifiedUntil, slot < mark) ↔ t.KnownUntil rows window slot := by
  constructor
  · rintro ⟨mark, hmark, hlt⟩
    obtain ⟨hvalid, -, hgreatest⟩ := (h.verifiedUntil_iff mark).mp hmark
    exact ⟨hvalid, mark, hgreatest.1, hlt⟩
  · rintro ⟨hvalid, mark, hcovers, hlt⟩
    have hgreatest := @isGreatest_coveredUntil t rows window
    have hle := hgreatest.2 hcovers
    refine ⟨_, (h.verifiedUntil_iff _).mpr ⟨hvalid, ?_, hgreatest⟩, hlt.trans_le hle⟩
    exact hslot.trans_lt (hlt.trans_le hle)

/-- The slots that are taken from a coverage, where they all come after the anchor. -/
theorem futureCoverage_slots {n m : ℕ} (hall : all.Pairwise (· < ·)) (hafter : ∀ x ∈ all, after < x)
    (hexpected : c.expectedSlots = all.take n) (hmn : m ≤ n) :
    (futureCoverage after m c).expectedSlots =
      (all.filter fun slot => ∃ mark ∈ c.verifiedUntil, slot < mark).take m := by
  have hfilter : (c.expectedSlots.filter fun slot =>
      after < slot ∧ ∃ mark ∈ c.verifiedUntil, slot < mark) =
        (all.take n).filter fun slot => ∃ mark ∈ c.verifiedUntil, slot < mark := by
    rw [hexpected]
    refine List.filter_congr fun x hx => decide_eq_decide.mpr ?_
    exact and_iff_right (hafter x (List.mem_of_mem_take hx))
  have hincreasing : ((all.take n).filter fun slot =>
      ∃ mark ∈ c.verifiedUntil, slot < mark).Pairwise (· < ·) :=
    (hall.sublist (List.take_sublist n all)).filter _
  have hbelow : ∀ x y : Time, x < y → (∃ mark ∈ c.verifiedUntil, y < mark) →
      ∃ mark ∈ c.verifiedUntil, x < mark :=
    fun x y hxy ⟨mark, hmark, hlt⟩ => ⟨mark, hmark, hxy.trans hlt⟩
  rw [futureCoverage]
  dsimp only
  rw [hfilter, List.dedup_eq_self.mpr (hincreasing.imp ne_of_lt), (hincreasing.imp le_of_lt).insertionSort_eq]
  exact filter_take_of_increasing hbelow hall hmn

/-- **The slots after an anchor.** They are the first ones of those that lie in the known part of the
schedule, and they are complete where there are as many. -/
theorem future_slots (h : SlotSource source none t type zone grid timeframe) (hcount : 0 < count)
    (hlimit : count ≤ sessionCoverageIntervalLimit) (hthrough : ∀ horizon ∈ through, after < horizon)
    (hfew : (t.rowsAround type zone ⟨after + 1, futureHorizon after through⟩).length ≤
      sessionCoverageIntervalLimit) :
    ∃ known f, Enumerates (fun slot =>
        t.Slot type grid timeframe ⟨after + 1, futureHorizon after through⟩ slot ∧
          t.KnownUntil (t.rowsAround type zone ⟨after + 1, futureHorizon after through⟩)
            ⟨after + 1, futureHorizon after through⟩ slot) known ∧
      providerSessionFutureBarSlotCoverage source after interval count through = .ok f ∧
      f.expectedSlots = known.take count.toNat ∧
      (f.complete = true ↔ count.toNat ≤ known.length) := by
  have hok : ∀ c, providerSessionBarSlotCoverageBetween source
      ⟨after + 1, futureHorizon after through⟩ interval none (count + 1) = .ok c →
      providerSessionFutureBarSlotCoverage source after interval count through =
        .ok (futureCoverage after count.toNat c) := by
    intro c hc
    have hthrough' : ¬ ∃ horizon ∈ through, horizon ≤ after :=
      fun ⟨horizon, hmem, hle⟩ => absurd hle (not_le.mpr (hthrough horizon hmem))
    have hrange : ¬ (count ≤ 0 ∨ sessionCoverageIntervalLimit < count) := by omega
    simp only [providerSessionFutureBarSlotCoverage, hrange, hthrough', if_false, hc]
    rfl
  have hcomplete : ∀ {known : List Time} {c : ProviderSessionBarSlotCoverage},
      (futureCoverage after count.toNat c).expectedSlots = known.take count.toNat →
      ((futureCoverage after count.toNat c).complete = true ↔ count.toNat ≤ known.length) := by
    intro known c hslots
    have hlength : (futureCoverage after count.toNat c).complete =
        decide (count.toNat ≤ (futureCoverage after count.toNat c).expectedSlots.length) := rfl
    rw [hlength, hslots, decide_eq_true_eq, List.length_take]
    omega
  by_cases hwindow : (⟨after + 1, futureHorizon after through⟩ : Span Time).Proper
  · obtain ⟨all, hall⟩ := exists_slots t (ofType type t.intervals) grid timeframe
      ⟨after + 1, futureHorizon after through⟩
    obtain ⟨c, hc, hlaw⟩ := h.exists_slotLaw hwindow hfew hall (count + 1)
    have hafter : ∀ x ∈ all, after < x := fun x hx =>
      Int.lt_of_add_one_le (slot_bounds ((hall.mem_iff x).mp hx)).1
    have hslots := futureCoverage_slots hall.increasing hafter hlaw.expected
      (show count.toNat ≤ (max (count + 1) 1).toNat by omega)
    refine ⟨_, _, ⟨hall.increasing.filter _, fun slot => ?_⟩, hok c hc, hslots, hcomplete hslots⟩
    rw [List.mem_filter, hall.mem_iff, decide_eq_true_eq]
    exact and_congr_right fun hslot => hlaw.known_iff (slot_bounds hslot).1
  · -- an empty window has no slots
    refine ⟨[], _, ⟨.nil, fun slot => ⟨fun hslot => absurd hslot List.not_mem_nil, ?_⟩⟩,
      hok _ (h.coverage_eq_of_improper hwindow), rfl, hcomplete rfl⟩
    rintro ⟨hslot, -⟩
    exact absurd ((slot_bounds hslot).1.trans_lt (slot_bounds hslot).2) hwindow

end Future

namespace ClosureExample

theorem utc_lawful : utc.Lawful where
  holds := by
    intro ts
    have hday : (0 : ℤ) < oneDay := by decide
    exact ⟨Int.ediv_mul_le ts hday.ne', Int.lt_ediv_add_one_mul_self ts hday⟩
  mono := fun day day' h => mul_le_mul_of_nonneg_right h (by decide)

/-- The sessions of the closure, on a grid of an hour. -/
def hourlySource : SessionSource :=
  { source with buckets := fun opensAt closesAt =>
      (providerSessionBarBuckets .base ⟨60, by decide⟩ ⟨opensAt, closesAt⟩).map some }

def snapshot : ScheduleSnapshot := update.snapshot 1

theorem sessionZone_eq {source : SessionSource} (hhours : source.hours = some snapshot)
    (hzone : source.zone = fun _ => some utc) : source.sessionZone = some utc := by
  have hnamed : ¬ (snapshot.rawPayload.providerContractId = "" ∨ strip snapshot.timezone = "") := by
    decide +kernel
  rw [SessionSource.sessionZone, hhours, Option.bind_some, if_neg hnamed, hzone]

theorem hourlySource_slots :
    SlotSource hourlySource none stored .trading utc .base ⟨60, by decide⟩ where
  sessions := rfl
  store := rfl
  zone_eq := sessionZone_eq (by decide +kernel) rfl
  lawful := utc_lawful
  scope := rfl
  buckets := rfl
  apart := by decide +kernel

end ClosureExample

open ClosureExample in
/-- Ten slots at a time. -/
theorem slot_coverage_closure :
    ∃ all, Enumerates (stored.Slot .trading .base ⟨60, by decide⟩ window) all ∧
      ∀ out, Restarts hourlySource .m60 none 10 window out ↔ out = all := by
  have hlimit : (1 : ℤ) ≤ 10 := by decide
  have hproper : window.Proper := by decide
  have hfew : (stored.rowsAround .trading utc window).length ≤ sessionCoverageIntervalLimit := by
    rw [sessionCoverageIntervalLimit]
    decide +kernel
  obtain ⟨all, c, hall, -, -, -, hrestarts⟩ :=
    (slot_coverage hourlySource_slots hlimit).1 hproper hfew
  exact ⟨all, hall, hrestarts⟩

open ClosureExample in
theorem future_slots_closure : ∃ (known : List Time) (f : ProviderSessionFutureSlotCoverage),
    providerSessionFutureBarSlotCoverage hourlySource 0 .m60 3 (some window.ends) = .ok f ∧
      f.expectedSlots = known.take 3 := by
  have hlimit : (3 : ℤ) ≤ sessionCoverageIntervalLimit := by simp [sessionCoverageIntervalLimit]
  have hthrough : ∀ horizon ∈ some window.ends, (0 : Time) < horizon := by decide
  have hfew : (stored.rowsAround .trading utc ⟨0 + 1, futureHorizon 0 (some window.ends)⟩).length ≤
      sessionCoverageIntervalLimit := by
    rw [sessionCoverageIntervalLimit]
    decide +kernel
  obtain ⟨known, f, -, hf, hslots, -⟩ :=
    future_slots hourlySource_slots (by decide) hlimit hthrough hfew
  exact ⟨known, f, hf, hslots⟩

namespace ClosedExample

def oneHour : Time := 3600000000

/-- A session of an hour, closed. -/
def closedHour (n : ℕ) : SessionInterval :=
  ⟨0, .trading, n * oneHour, n * oneHour + oneHour, .closed, 1, "{}"⟩

def closedHours (count : ℕ) : ScheduleTables :=
  ⟨some ClosureExample.snapshot, [ClosureExample.snapshot], (List.range count).map closedHour⟩

def source (count : ℕ) : SessionSource :=
  { ClosureExample.hourlySource with
    store := some (closedHours count)
    hours := some ClosureExample.snapshot }

def window (count : ℕ) : Span Time := ⟨0, count * oneHour⟩

variable {count : ℕ}

theorem status_closed {r : SessionInterval} (hr : r ∈ (closedHours count).intervals) :
    r.status = .closed := by
  obtain ⟨n, -, rfl⟩ := List.mem_map.mp hr
  rfl

theorem source_slots : SlotSource (source count) none (closedHours count) .trading
    ClosureExample.utc .base ⟨60, by decide⟩ where
  sessions := rfl
  store := rfl
  zone_eq := ClosureExample.sessionZone_eq rfl rfl
  lawful := ClosureExample.utc_lawful
  scope := rfl
  buckets := rfl
  apart := List.pairwise_of_forall_mem_list fun _ hr _ _ _ _ hopen _ =>
    nomatch hopen.symm.trans (status_closed hr)

theorem window_proper (h : 0 < count) : (window count).Proper := by
  have hends (k : ℤ) (h : 0 < k) : 0 < k * 3600000000 := by omega
  exact hends count (by omega)

/-- All of them meet the window. -/
theorem length_rowsAround :
    ((closedHours count).rowsAround .trading ClosureExample.utc (window count)).length = count := by
  have htype : ofType .trading (closedHours count).intervals = (closedHours count).intervals :=
    List.filter_eq_self.mpr fun r hr => by
      obtain ⟨n, -, rfl⟩ := List.mem_map.mp hr
      rfl
  have hmeets : ∀ r ∈ (closedHours count).sortedIntervals .trading,
      r.span.Meets (localDays ClosureExample.utc (window count)) := by
    intro r hr
    rw [ScheduleTables.sortedIntervals, List.mem_insertionSort, htype] at hr
    obtain ⟨n, hn, rfl⟩ := List.mem_map.mp hr
    have hlt := List.mem_range.mp hn
    have hdays : (window count).Within (localDays ClosureExample.utc (window count)) :=
      ClosureExample.utc_lawful.window_within
    have hopens (k m : ℤ) (h : k < m) : k * 3600000000 < m * 3600000000 := by omega
    have hcloses (k : ℤ) (h : 0 ≤ k) : 0 < k * 3600000000 + 3600000000 := by omega
    exact ⟨lt_of_lt_of_le (hopens n count (by omega)) hdays.2,
      lt_of_le_of_lt hdays.1 (hcloses n (by omega))⟩
  rw [ScheduleTables.rowsAround, ScheduleTables.nearby,
    List.filter_eq_self.mpr fun r hr => decide_eq_true (hmeets r hr),
    ScheduleTables.sortedIntervals, List.length_insertionSort, htype, closedHours, List.length_map,
    List.length_range]

theorem not_slot {grid : ProviderGrid} {timeframe : Timeframe} {slot : Time} :
    ¬ (closedHours count).Slot .trading grid timeframe (window count) slot := by
  rintro ⟨r, hr, hopen, -⟩
  exact nomatch hopen.symm.trans (status_closed (List.mem_filter.mp hr).1)

end ClosedExample

open ClosedExample in
/-- With one row too many, a window without an open session is truncated. -/
theorem closedHours_truncated :
    ¬ ∀ source sessionScope t type zone grid timeframe interval limit window c,
      SlotSource source sessionScope t type zone grid timeframe → 1 ≤ limit → window.Proper →
      providerSessionBarSlotCoverageBetween source window interval sessionScope limit = .ok c →
      (c.truncated = true ↔ ∃ slot, t.Slot type grid timeframe window slot ∧
        slot ∉ c.expectedSlots) := by
  intro hclaim
  have hcut : sessionCoverageIntervalLimit <
      ((closedHours (sessionCoverageIntervalLimit + 1)).rowsAround .trading ClosureExample.utc
        (window (sessionCoverageIntervalLimit + 1))).length := by
    rw [length_rowsAround]
    exact Nat.lt_succ_self _
  have hproper := window_proper (Nat.succ_pos sessionCoverageIntervalLimit)
  have hslots := @source_slots (sessionCoverageIntervalLimit + 1)
  obtain ⟨all, hall⟩ := exists_slots _ _ .base ⟨60, by decide⟩ _
  obtain ⟨c, hc, -, -, htruncated, -⟩ := hslots.coverage_of_cut hproper hcut hall 1
  obtain ⟨slot, hslot, -⟩ := (hclaim _ none _ _ _ _ _ .m60 1 _ c hslots le_rfl hproper hc).mp htruncated
  exact not_slot hslot

end AefTerminal
