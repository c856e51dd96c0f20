import AefTerminal.Sessions.Schedule
import Mathlib.Data.List.ReduceOption

/-!
# How schedules layer

The sessions of a new snapshot replace, type by type, the stored sessions that meet the time from
its first opening to its last close. What a snapshot is taken to say reaches further: it declares
the time it covers, and has no session in the rest of it.

So the stored state follows the snapshots where every stored open session of a declared type either
lies in the covered time and is reached, or lies outside of it. An open session that is reached and
juts out is lost there, and one that is covered but not reached stays.

## Main definitions

* `OpenAt`: the stored open state, and the declared one
* `LayersExactly`: what a new snapshot should do to it
* `Fits`: the condition

## Main results

* `schedules_layer`: in every run, a changed snapshot layers exactly where it fits
* `layer_clipped`: a snapshot that begins within a stored session
-/

namespace AefTerminal

open Foundation

/-! ### What is open -/

/-- The item declares an open session of the type that holds the instant. -/
def ScheduleItem.OpenAt (item : ScheduleItem) (type : SessionType) (ts : Time) : Prop :=
  scheduleSessionType item.sessionType = .ok type ∧ scheduleStatus item.status = .ok .opened ∧
    ∃ opensAt closesAt, item.opensAt = .aware opensAt ∧ item.closesAt = .aware closesAt ∧
      opensAt ≤ ts ∧ ts < closesAt

namespace SchedulePayload

def items (p : SchedulePayload) : List ScheduleItem := (p.tradingIntervals.getD []).reduceOption

/-- The declared open state. -/
def OpenAt (p : SchedulePayload) (type : SessionType) (ts : Time) : Prop :=
  ∃ item ∈ p.items, item.OpenAt type ts

def HasType (p : SchedulePayload) (type : SessionType) : Prop :=
  ∃ item ∈ p.items, scheduleSessionType item.sessionType = .ok type

end SchedulePayload

/-- The snapshot is admitted. -/
def ScheduleUpdate.Admitted (u : ScheduleUpdate) (fetchedAt : Time) : Prop :=
  ∃ rows, normalizeTradingSessionIntervals u.payload fetchedAt = .ok rows

namespace ScheduleTables

/-- Within its coverage the snapshot decides what is open, and nothing changes outside. -/
def LayersExactly (t : ScheduleTables) (u : ScheduleUpdate) (fetchedAt : Time) : Prop :=
  ∀ coverage, scheduleCoverage u.payload = .ok coverage → ∀ type ts,
    (coverage.Holds ts → u.payload.HasType type →
      ((t.step (.upsert u fetchedAt)).OpenAt type ts ↔ u.payload.OpenAt type ts)) ∧
    (¬ coverage.Holds ts →
      ((t.step (.upsert u fetchedAt)).OpenAt type ts ↔ t.OpenAt type ts))

/-- A stored open session of a declared type that meets the horizon lies in the covered time, and
one that does not lies outside. -/
def Fits (t : ScheduleTables) (u : ScheduleUpdate) (fetchedAt : Time) : Prop :=
  ∀ coverage, scheduleCoverage u.payload = .ok coverage →
    ∀ rows, normalizeTradingSessionIntervals u.payload fetchedAt = .ok rows →
    ∀ p ∈ tradingSessionIntervalReplacementHorizons rows, ∀ r ∈ t.intervals,
      r.sessionType = p.sessionType → r.status = .opened →
        if r.span.Meets p.horizon then r.span.Within coverage else ¬ r.span.Meets coverage

/-- A changed snapshot fits, and is later than those on record. -/
def Orderly (t : ScheduleTables) : ScheduleAct → Prop
  | .upsert u fetchedAt =>
    t.scheduleChanged u → t.Fits u fetchedAt ∧ ∀ s ∈ t.snapshots, s.fetchedAt < fetchedAt
  | .delete => True

end ScheduleTables

def SessionInterval.ApartFrom (r r' : SessionInterval) : Prop :=
  r.sessionType = r'.sessionType → ¬ r.span.Meets r'.span

instance : Std.Symm SessionInterval.ApartFrom :=
  ⟨fun _ _ h htype hmeets => h htype.symm hmeets.symm⟩

/-- No two sessions of one type meet. -/
def SessionsApart (rows : List SessionInterval) : Prop :=
  rows.Pairwise SessionInterval.ApartFrom

/-! ### Admitted snapshots -/

theorem providerScheduleTimestamp_eq_ok {value : ScheduleTimestamp} {field : String} {t : Time} :
    providerScheduleTimestamp value field = .ok t ↔ value = .aware t := by
  cases value with
  | invalid | naive => simp [providerScheduleTimestamp]
  | aware t' => simp [providerScheduleTimestamp]

/-- The row that an item of a payload declares. -/
structure ScheduleItem.Declares (item : ScheduleItem) (r : SessionInterval) : Prop where
  sessionType : scheduleSessionType item.sessionType = .ok r.sessionType
  status : scheduleStatus item.status = .ok r.status
  opensAt : item.opensAt = .aware r.opensAt
  closesAt : item.closesAt = .aware r.closesAt

variable {r : SessionInterval}

theorem ScheduleItem.Declares.openAt_iff {item : ScheduleItem}
    (h : item.Declares r) (type : SessionType) (ts : Time) :
    item.OpenAt type ts ↔ r.sessionType = type ∧ r.status = .opened ∧ r.span.Holds ts := by
  simp [ScheduleItem.OpenAt, h.sessionType, h.status, h.opensAt, h.closesAt, Span.Holds,
    SessionInterval.span]

variable {rows : List SessionInterval}

theorem normalizeScheduleItem_eq_ok {coverage : Span Time} {fetchedAt : Time}
    {rows' : List SessionInterval} {item : Option ScheduleItem}
    (h : normalizeScheduleItem coverage fetchedAt rows item = .ok rows') :
    ∃ it r, item = some it ∧ it.Declares r ∧ rows' = rows ++ [r] ∧ r.span.Proper ∧
      r.span.Within coverage ∧ r.bounds ∉ rows.map SessionInterval.bounds := by
  cases item with
  | none => cases h
  | some it =>
    simp only [normalizeScheduleItem, bind_eq_ok, require_eq_ok, providerScheduleTimestamp_eq_ok,
      pure_eq_ok] at h
    obtain ⟨type, htype, status, hstatus, opens, hopens, closes, hcloses, -, hrange, -, hnew, date,
      -, metadata, -, rfl⟩ := h
    exact ⟨it, _, rfl, ⟨htype, hstatus, hopens, hcloses⟩, rfl, hrange.1, hrange.2, hnew⟩

/-- The rows of an admitted snapshot that covers `coverage`. -/
structure AdmittedRows (payload : SchedulePayload) (coverage : Span Time)
    (rows : List SessionInterval) : Prop where
  proper : ∀ r ∈ rows, r.span.Proper
  within : ∀ r ∈ rows, r.span.Within coverage
  bounds : (rows.map SessionInterval.bounds).Nodup
  apart : SessionsApart rows
  openIn_iff : ∀ type ts, OpenIn rows type ts ↔ payload.OpenAt type ts
  hasType_iff : ∀ type, (∃ r ∈ rows, r.sessionType = type) ↔ payload.HasType type

theorem exists_mem_iff_of_forall₂ {α β : Type} {R : α → β → Prop} {P : α → Prop} {Q : β → Prop}
    {as : List α} {bs : List β} (h : List.Forall₂ R as bs) (hR : ∀ a b, R a b → (P a ↔ Q b)) :
    (∃ a ∈ as, P a) ↔ ∃ b ∈ bs, Q b := by
  induction h with
  | nil => simp
  | cons hab _ ih => simp only [List.exists_mem_cons_iff, hR _ _ hab, ih]

/-- The loop over the items collects the rows that they declare. -/
theorem foldlM_normalizeScheduleItem {coverage : Span Time} {fetchedAt : Time}
    {items : List (Option ScheduleItem)} {rows' : List SessionInterval}
    (h : items.foldlM (normalizeScheduleItem coverage fetchedAt) rows = .ok rows') :
    ∃ declared, rows' = rows ++ declared ∧
      List.Forall₂ ScheduleItem.Declares items.reduceOption declared := by
  induction items generalizing rows with
  | nil =>
    obtain rfl := pure_eq_ok.mp h
    exact ⟨[], (List.append_nil _).symm, .nil⟩
  | cons item items ih =>
    rw [List.foldlM_cons] at h
    obtain ⟨next, hnext, h⟩ := bind_eq_ok.mp h
    obtain ⟨it, r, rfl, hdeclares, rfl, -⟩ := normalizeScheduleItem_eq_ok hnext
    obtain ⟨declared, rfl, hrest⟩ := ih h
    refine ⟨r :: declared, by simp, ?_⟩
    rw [List.reduceOption_cons_of_some]
    exact .cons hdeclares hrest

/-- Rows that each end before the next of their type opens are apart. -/
theorem sessionsApart_of_unoverlapped (hproper : ∀ r ∈ rows, r.span.Proper)
    (h : ∀ type ∈ [SessionType.liquid, .trading], Unoverlapped (ofType type rows)) :
    SessionsApart rows := by
  have hof : ∀ type, (ofType type rows).Pairwise fun r r' => ¬ r.span.Meets r'.span := by
    intro type
    have hmem : type ∈ [SessionType.liquid, .trading] := by cases type <;> simp
    have hsorted := Span.pairwise_apart (fun s hs => ?_) (h type hmem)
    · rw [List.pairwise_map] at hsorted
      refine ((List.perm_insertionSort _ _).pairwise_iff fun hab hba => ?_).mp hsorted
      exact hab hba.symm
    · obtain ⟨r, hr, rfl⟩ := List.mem_map.mp hs
      rw [List.mem_insertionSort] at hr
      exact hproper r (List.mem_of_mem_filter hr)
  refine List.pairwise_iff_getElem.mpr fun i j hi hj hij htype => ?_
  have hpairwise := hof rows[i].sessionType
  rw [ofType, List.pairwise_filter] at hpairwise
  exact List.pairwise_iff_getElem.mp hpairwise i j hi hj hij (by simp) (by simp [htype])

theorem normalize_eq_ok {payload : SchedulePayload} {fetchedAt : Time}
    (h : normalizeTradingSessionIntervals payload fetchedAt = .ok rows) :
    ∃ coverage, scheduleCoverage payload = .ok coverage ∧ AdmittedRows payload coverage rows := by
  rw [normalizeTradingSessionIntervals] at h
  obtain ⟨coverage, hcoverage, h⟩ := bind_eq_ok.mp h
  refine ⟨coverage, hcoverage, ?_⟩
  cases hitems : payload.tradingIntervals with
  | none => simp [hitems] at h
  | some items =>
    cases items with
    | nil => simp [hitems] at h
    | cons item items =>
      simp only [hitems, bind_eq_ok, require_eq_ok, pure_eq_ok] at h
      obtain ⟨rows', hrows, -, hapart, rfl⟩ := h
      have hcollected := foldlM_normalizeScheduleItem hrows
      obtain ⟨declared, hdeclared, hforall⟩ := hcollected
      rw [List.nil_append] at hdeclared
      subst hdeclared
      have hkept := foldlM_induct (P := fun rows : List SessionInterval =>
        (∀ r ∈ rows, r.span.Proper ∧ r.span.Within coverage) ∧
          (rows.map SessionInterval.bounds).Nodup) (fun rows it rows' _ hrows hit => ?_)
        (by simp) hrows
      · exact
          { proper := fun r hr => (hkept.1 r hr).1
            within := fun r hr => (hkept.1 r hr).2
            bounds := hkept.2
            apart := sessionsApart_of_unoverlapped (fun r hr => (hkept.1 r hr).1) hapart
            openIn_iff := fun type ts => by
              rw [SchedulePayload.OpenAt, SchedulePayload.items, hitems]
              exact (exists_mem_iff_of_forall₂ hforall fun a b hab =>
                hab.openAt_iff type ts).symm
            hasType_iff := fun type => by
              rw [SchedulePayload.HasType, SchedulePayload.items, hitems]
              refine (exists_mem_iff_of_forall₂ hforall fun a b hab => ?_).symm
              rw [hab.sessionType]
              exact ⟨fun heq => Except.ok.inj heq, fun heq => heq ▸ rfl⟩ }
      · obtain ⟨-, r, -, -, rfl, hproper, hwithin, hnew⟩ := normalizeScheduleItem_eq_ok hit
        refine ⟨fun r' hr' => ?_, ?_⟩
        · rcases List.mem_append.mp hr' with hr' | hr'
          · exact hrows.1 r' hr'
          · obtain rfl := List.mem_singleton.mp hr'
            exact ⟨hproper, hwithin⟩
        · rw [List.map_append, List.map_singleton, List.nodup_append]
          refine ⟨hrows.2, List.nodup_singleton _, fun b hb b' hb' heq => ?_⟩
          rw [List.mem_singleton.mp hb'] at heq
          exact hnew (heq ▸ hb)

/-! ### What a snapshot replaces -/

/-- The rows of a type and the time from their first opening to their last close. -/
structure IsReplacement (rows : List SessionInterval) (p : TradingSessionIntervalReplacement) :
    Prop where
  rows_eq : p.rows = ofType p.sessionType rows
  within : ∀ r ∈ rows, r.sessionType = p.sessionType → r.span.Within p.horizon
  first : ∃ r ∈ rows, r.sessionType = p.sessionType ∧ r.opensAt = p.startsAt
  last : ∃ r ∈ rows, r.sessionType = p.sessionType ∧ r.closesAt = p.endsAt

theorem mem_ofType {type : SessionType} :
    r ∈ ofType type rows ↔ r ∈ rows ∧ r.sessionType = type := by
  simp [ofType]

theorem replacementOfType_eq_some {type : SessionType}
    {p : TradingSessionIntervalReplacement} (h : replacementOfType rows type = some p) :
    p.sessionType = type ∧ IsReplacement rows p := by
  simp only [replacementOfType, Option.bind_eq_bind, Option.bind_eq_some_iff, Option.pure_def,
    Option.some.injEq, List.min?_eq_some_iff, List.max?_eq_some_iff, List.mem_map,
    forall_exists_index, and_imp, forall_apply_eq_imp_iff₂] at h
  obtain ⟨starts, ⟨⟨first, hfirst, rfl⟩, hstart⟩, ends, ⟨⟨last, hlast, rfl⟩, hend⟩, rfl⟩ := h
  rw [mem_ofType] at hfirst hlast
  exact ⟨rfl,
    { rows_eq := rfl
      within := fun r hr htype =>
        ⟨hstart r (mem_ofType.mpr ⟨hr, htype⟩), hend r (mem_ofType.mpr ⟨hr, htype⟩)⟩
      first := ⟨first, hfirst.1, hfirst.2, rfl⟩
      last := ⟨last, hlast.1, hlast.2, rfl⟩ }⟩

theorem replacementOfType_eq_none {type : SessionType}
    (h : replacementOfType rows type = none) : ofType type rows = [] := by
  cases hrows : ofType type rows with
  | nil => rfl
  | cons r rest => simp [replacementOfType, hrows] at h

theorem mem_horizons {p : TradingSessionIntervalReplacement} :
    p ∈ tradingSessionIntervalReplacementHorizons rows ↔
      replacementOfType rows p.sessionType = some p := by
  rw [tradingSessionIntervalReplacementHorizons, List.mem_filterMap]
  constructor
  · rintro ⟨type, -, h⟩
    rw [(replacementOfType_eq_some h).1]
    exact h
  · exact fun h => ⟨p.sessionType, by cases p.sessionType <;> simp, h⟩

theorem horizon_of_mem (hr : r ∈ rows) :
    ∃ p ∈ tradingSessionIntervalReplacementHorizons rows, p.sessionType = r.sessionType := by
  cases h : replacementOfType rows r.sessionType with
  | none =>
    have hmem : r ∈ ofType r.sessionType rows := mem_ofType.mpr ⟨hr, rfl⟩
    rw [replacementOfType_eq_none h] at hmem
    exact absurd hmem List.not_mem_nil
  | some p =>
    have htype := (replacementOfType_eq_some h).1
    exact ⟨p, mem_horizons.mpr (htype ▸ h), htype⟩

/-- The row is not deleted by the replacements. -/
def Survives (rows : List SessionInterval) (r : SessionInterval) : Prop :=
  ∀ p ∈ tradingSessionIntervalReplacementHorizons rows,
    p.sessionType = r.sessionType → ¬ r.span.Meets p.horizon

theorem mem_foldl_deleteHorizon {intervals : List SessionInterval}
    {ps : List TradingSessionIntervalReplacement} :
    r ∈ ps.foldl deleteHorizon intervals ↔
      r ∈ intervals ∧ ∀ p ∈ ps, p.sessionType = r.sessionType → ¬ r.span.Meets p.horizon := by
  induction ps generalizing intervals with
  | nil => simp
  | cons p ps ih =>
    rw [List.foldl_cons, ih, List.forall_mem_cons, ← and_assoc]
    simp only [deleteHorizon, List.mem_filter, decide_eq_true_eq, not_and,
      eq_comm (a := r.sessionType)]

theorem foldl_deleteHorizon_sublist (intervals : List SessionInterval)
    (ps : List TradingSessionIntervalReplacement) :
    List.Sublist (ps.foldl deleteHorizon intervals) intervals := by
  induction ps generalizing intervals with
  | nil => exact List.Sublist.refl _
  | cons p ps ih => exact (ih _).trans List.filter_sublist

/-- Rows whose bounds are new are appended. -/
theorem foldl_insertInterval {intervals : List SessionInterval}
    (hnodup : (rows.map SessionInterval.bounds).Nodup)
    (hnew : ∀ r ∈ rows, r.bounds ∉ intervals.map SessionInterval.bounds) :
    rows.foldl insertInterval intervals = intervals ++ rows := by
  induction rows generalizing intervals with
  | nil => exact (List.append_nil _).symm
  | cons r rows ih =>
    rw [List.map_cons, List.nodup_cons] at hnodup
    rw [List.forall_mem_cons] at hnew
    have hfirst : insertInterval intervals r = intervals ++ [r] := if_neg hnew.1
    rw [List.foldl_cons, hfirst, ih hnodup.2 fun r' hr' => ?_]
    · simp
    · rw [List.map_append, List.map_singleton, List.mem_append, List.mem_singleton]
      rintro (hold | heq)
      · exact hnew.2 r' hr' hold
      · exact hnodup.1 (heq ▸ List.mem_map_of_mem hr')

theorem flatMap_horizons (rows : List SessionInterval) :
    (tradingSessionIntervalReplacementHorizons rows).flatMap
        TradingSessionIntervalReplacement.rows =
      ofType .liquid rows ++ ofType .trading rows := by
  have hrows (type : SessionType) :
      ((replacementOfType rows type).toList.flatMap TradingSessionIntervalReplacement.rows) =
        ofType type rows := by
    cases h : replacementOfType rows type with
    | none => exact (replacementOfType_eq_none h).symm
    | some p =>
      obtain ⟨htype, hp⟩ := replacementOfType_eq_some h
      rw [Option.toList_some, List.flatMap_singleton, hp.rows_eq, htype]
  rw [tradingSessionIntervalReplacementHorizons, ← hrows .liquid, ← hrows .trading]
  cases hliquid : replacementOfType rows .liquid <;>
    cases htrading : replacementOfType rows .trading <;>
      simp [hliquid, htrading]

/-! ### The stored sessions -/

/-- Every stored session is proper, and no two of one type meet. -/
structure SessionsSound (intervals : List SessionInterval) : Prop where
  proper : ∀ r ∈ intervals, r.span.Proper
  apart : SessionsApart intervals

theorem SessionsApart.eq_of_holds (h : SessionsApart rows)
    {r' : SessionInterval} (hr : r ∈ rows) (hr' : r' ∈ rows)
    (htype : r.sessionType = r'.sessionType) {ts : Time} (hts : r.span.Holds ts)
    (hts' : r'.span.Holds ts) : r = r' := by
  by_contra hne
  exact List.Pairwise.forall h hr hr' hne htype (hts.meets hts')

section Replace

variable {payload : SchedulePayload} {coverage : Span Time} {intervals rows : List SessionInterval}

/-- A row of a snapshot lies in the horizon of its type. -/
theorem within_horizon {r : SessionInterval} (hr : r ∈ rows) :
    ∃ p ∈ tradingSessionIntervalReplacementHorizons rows, p.sessionType = r.sessionType ∧
      r.span.Within p.horizon := by
  obtain ⟨p, hp, htype⟩ := horizon_of_mem hr
  obtain ⟨-, hreplace⟩ := replacementOfType_eq_some (mem_horizons.mp hp)
  exact ⟨p, hp, htype, hreplace.within r hr htype.symm⟩

/-- What survives is apart from the rows of the snapshot. -/
theorem not_meets_of_survives {r r' : SessionInterval} (hr : r ∈ rows) (hr' : Survives rows r')
    (htype : r.sessionType = r'.sessionType) : ¬ r'.span.Meets r.span := by
  obtain ⟨p, hp, hptype, hwithin⟩ := within_horizon hr
  exact fun hmeets => hr' p hp (hptype.trans htype)
    ⟨lt_of_lt_of_le hmeets.1 hwithin.2, lt_of_le_of_lt hwithin.1 hmeets.2⟩

/-- The rows of the snapshot are put after what survives. -/
theorem replaceIntervals_eq (h : AdmittedRows payload coverage rows) :
    replaceIntervals intervals rows =
      (tradingSessionIntervalReplacementHorizons rows).foldl deleteHorizon intervals ++
        (ofType .liquid rows ++ ofType .trading rows) := by
  rw [replaceIntervals, flatMap_horizons]
  refine foldl_insertInterval ?_ fun r hr hbounds => ?_
  · rw [List.map_append, List.nodup_append]
    refine ⟨h.bounds.sublist (List.filter_sublist.map _),
      h.bounds.sublist (List.filter_sublist.map _), ?_⟩
    rintro b hb b' hb' rfl
    obtain ⟨r, hr, rfl⟩ := List.mem_map.mp hb
    obtain ⟨r', hr', heq⟩ := List.mem_map.mp hb'
    have htype : r'.sessionType = r.sessionType := congrArg Prod.fst heq
    rw [(mem_ofType.mp hr).2, (mem_ofType.mp hr').2] at htype
    cases htype
  · obtain ⟨r', hr', heq⟩ := List.mem_map.mp hbounds
    obtain ⟨hmem, hsurvives⟩ := mem_foldl_deleteHorizon.mp hr'
    have hrow : r ∈ rows := by
      rcases List.mem_append.mp hr with hr | hr
      · exact (mem_ofType.mp hr).1
      · exact (mem_ofType.mp hr).1
    obtain ⟨htype, hspan⟩ := Prod.mk.inj heq
    obtain ⟨hopens, hcloses⟩ := Prod.mk.inj hspan
    have hsame : r'.span = r.span := by rw [SessionInterval.span, hopens, hcloses]; rfl
    refine not_meets_of_survives hrow hsurvives htype.symm ?_
    rw [hsame]
    exact ⟨h.proper r hrow, h.proper r hrow⟩

theorem mem_replaceIntervals (h : AdmittedRows payload coverage rows) {r : SessionInterval} :
    r ∈ replaceIntervals intervals rows ↔ (r ∈ intervals ∧ Survives rows r) ∨ r ∈ rows := by
  have htypes : r ∈ rows ∧ (r.sessionType = .liquid ∨ r.sessionType = .trading) ↔ r ∈ rows :=
    and_iff_left (by cases r.sessionType <;> simp)
  rw [replaceIntervals_eq h, List.mem_append, mem_foldl_deleteHorizon, List.mem_append,
    mem_ofType, mem_ofType, ← and_or_left, htypes, Survives]

/-- The sessions stay sound. -/
theorem SessionsSound.replace (h : AdmittedRows payload coverage rows)
    (hsound : SessionsSound intervals) : SessionsSound (replaceIntervals intervals rows) := by
  constructor
  · intro r hr
    rcases (mem_replaceIntervals h).mp hr with ⟨hr, -⟩ | hr
    · exact hsound.proper r hr
    · exact h.proper r hr
  · rw [replaceIntervals_eq h, SessionsApart, List.pairwise_append,
      List.pairwise_append]
    refine ⟨hsound.apart.sublist (foldl_deleteHorizon_sublist _ _),
      ⟨h.apart.sublist List.filter_sublist, h.apart.sublist List.filter_sublist,
        fun r hr r' hr' htype => ?_⟩, fun r hr r' hr' htype => ?_⟩
    · rw [(mem_ofType.mp hr).2, (mem_ofType.mp hr').2] at htype
      cases htype
    · have hrow : r' ∈ rows := by
        rcases List.mem_append.mp hr' with hr' | hr'
        · exact (mem_ofType.mp hr').1
        · exact (mem_ofType.mp hr').1
      exact not_meets_of_survives hrow (mem_foldl_deleteHorizon.mp hr).2 htype.symm

/-- Where the stored sessions fit, exactly, the new ones are those of the snapshot within the
coverage and the old ones outside. -/
theorem openIn_replace_iff (h : AdmittedRows payload coverage rows)
    (hsound : SessionsSound intervals) :
    (∀ type ts,
      (coverage.Holds ts → (∃ r ∈ rows, r.sessionType = type) →
        (OpenIn (replaceIntervals intervals rows) type ts ↔ OpenIn rows type ts)) ∧
      (¬ coverage.Holds ts →
        (OpenIn (replaceIntervals intervals rows) type ts ↔ OpenIn intervals type ts))) ↔
      ∀ p ∈ tradingSessionIntervalReplacementHorizons rows, ∀ r ∈ intervals,
        r.sessionType = p.sessionType → r.status = .opened →
          if r.span.Meets p.horizon then r.span.Within coverage else ¬ r.span.Meets coverage := by
  have hmem {r : SessionInterval} : r ∈ replaceIntervals intervals rows ↔
      (r ∈ intervals ∧ Survives rows r) ∨ r ∈ rows :=
    mem_replaceIntervals h
  constructor
  · intro hlayers p hp r hr htype hopen
    obtain ⟨-, hreplace⟩ := replacementOfType_eq_some (mem_horizons.mp hp)
    split
    · rename_i hmeets
      -- A point of the session outside the coverage is still open, and only in a row that survives.
      by_contra hout
      obtain ⟨ts, hts, hnot⟩ := Span.exists_holds_of_not_within (hsound.proper r hr) hout
      obtain ⟨r', hr', htype', hopen', hts'⟩ := ((hlayers r.sessionType ts).2 hnot).mpr
        ⟨r, hr, rfl, hopen, hts⟩
      rcases hmem.mp hr' with ⟨hr', hsurvives⟩ | hr'
      · obtain rfl := hsound.apart.eq_of_holds hr hr' htype'.symm hts hts'
        exact hsurvives p hp htype.symm hmeets
      · exact hnot ((h.within r' hr').holds hts')
    · rename_i hmeets
      intro hcovered
      have hcoverage : coverage.Proper := by
        obtain ⟨first, hfirst, -⟩ := hreplace.first
        have hwithin := h.within first hfirst
        exact lt_of_le_of_lt hwithin.1 (lt_of_lt_of_le (h.proper first hfirst) hwithin.2)
      obtain ⟨ts, hts, hin⟩ := hcovered.exists_holds (hsound.proper r hr) hcoverage
      have hsurvives : Survives rows r := by
        intro p' hp' htype' hmeets'
        have hsame := (mem_horizons.mp hp').symm.trans
          ((htype'.trans htype) ▸ mem_horizons.mp hp)
        rw [Option.some.inj hsame] at hmeets'
        exact hmeets hmeets'
      obtain ⟨first, hfirst, hfirstType, -⟩ := hreplace.first
      obtain ⟨r', hr', htype', -, hts'⟩ :=
        ((hlayers r.sessionType ts).1 hin ⟨first, hfirst, hfirstType.trans htype.symm⟩).mp
          ⟨r, hmem.mpr (.inl ⟨hr, hsurvives⟩), rfl, hopen, hts⟩
      exact not_meets_of_survives hr' hsurvives htype' (hts.meets hts')
  · intro hfits type ts
    refine ⟨fun hin hdeclared => ⟨?_, ?_⟩, fun hout => ⟨?_, ?_⟩⟩
    · rintro ⟨r, hr, rfl, hopen, hts⟩
      rcases hmem.mp hr with ⟨hr, hsurvives⟩ | hr
      · obtain ⟨r', hr', htype'⟩ := hdeclared
        obtain ⟨p, hp, hptype⟩ := horizon_of_mem hr'
        have hfit := hfits p hp r hr (htype'.symm.trans hptype.symm) hopen
        rw [if_neg (hsurvives p hp (hptype.trans htype'))] at hfit
        exact absurd (hts.meets hin) hfit
      · exact ⟨r, hr, rfl, hopen, hts⟩
    · rintro ⟨r, hr, htype, hopen, hts⟩
      exact ⟨r, hmem.mpr (.inr hr), htype, hopen, hts⟩
    · rintro ⟨r, hr, htype, hopen, hts⟩
      rcases hmem.mp hr with ⟨hr, -⟩ | hr
      · exact ⟨r, hr, htype, hopen, hts⟩
      · exact absurd ((h.within r hr).holds hts) hout
    · rintro ⟨r, hr, htype, hopen, hts⟩
      refine ⟨r, hmem.mpr (.inl ⟨hr, fun p hp hptype hmeets => hout ?_⟩), htype, hopen, hts⟩
      have hfit := hfits p hp r hr hptype.symm hopen
      rw [if_pos hmeets] at hfit
      exact hfit.holds hts

end Replace

/-! ### Runs -/

namespace ScheduleTables

variable {t : ScheduleTables} {u : ScheduleUpdate} {fetchedAt : Time} {rows : List SessionInterval}

theorem step_upsert (hrows : normalizeTradingSessionIntervals u.payload fetchedAt = .ok rows) :
    t.step (.upsert u fetchedAt) =
      if t.scheduleChanged u then
        ⟨some (u.snapshot fetchedAt), insertSnapshot t.snapshots (u.snapshot fetchedAt),
          replaceIntervals t.intervals rows⟩
      else { t with hours := some (u.snapshot fetchedAt) } := by
  have h : t.upsertTradingHours u fetchedAt = .ok (if t.scheduleChanged u then
      ⟨some (u.snapshot fetchedAt), insertSnapshot t.snapshots (u.snapshot fetchedAt),
        replaceIntervals t.intervals rows⟩
      else { t with hours := some (u.snapshot fetchedAt) }) := by
    rw [upsertTradingHours, hrows]
    split <;> simp_all [bind, Except.bind, pure, Except.pure]
  rw [step, h]

theorem step_refused (h : ¬ u.Admitted fetchedAt) : t.step (.upsert u fetchedAt) = t := by
  cases hrows : normalizeTradingSessionIntervals u.payload fetchedAt with
  | ok rows => exact absurd ⟨rows, hrows⟩ h
  | error e => simp [step, upsertTradingHours, hrows, bind, Except.bind]

theorem soundStep (h : SessionsSound t.intervals) (act : ScheduleAct) :
    SessionsSound (t.step act).intervals := by
  cases act with
  | delete => exact ⟨fun r hr => absurd hr List.not_mem_nil, .nil⟩
  | upsert u fetchedAt =>
    by_cases hadmitted : u.Admitted fetchedAt
    · obtain ⟨rows, hrows⟩ := hadmitted
      obtain ⟨coverage, -, hadmitted⟩ := normalize_eq_ok hrows
      rw [step_upsert hrows]
      split
      · exact h.replace hadmitted
      · exact h
    · rw [step_refused hadmitted]
      exact h

/-- A changed snapshot layers exactly where it fits. -/
theorem layersExactly_iff (h : SessionsSound t.intervals) (hadmitted : u.Admitted fetchedAt)
    (hchanged : t.scheduleChanged u) : t.LayersExactly u fetchedAt ↔ t.Fits u fetchedAt := by
  obtain ⟨rows, hrows⟩ := hadmitted
  obtain ⟨coverage, hcoverage, hadmitted⟩ := normalize_eq_ok hrows
  have hiff := openIn_replace_iff hadmitted h
  simp only [hadmitted.hasType_iff, hadmitted.openIn_iff] at hiff
  simp only [LayersExactly, Fits, OpenAt, step_upsert hrows, if_pos hchanged, hcoverage, hrows,
    Except.ok.injEq, forall_eq']
  exact hiff

/-- What the latest snapshot declares is what is open, within its coverage. -/
def FollowsLatest (t : ScheduleTables) : Prop :=
  ∀ s ∈ t.latestSnapshot, ∀ coverage, scheduleCoverage s.rawPayload = .ok coverage →
    ∀ type ts, coverage.Holds ts → s.rawPayload.HasType type →
      (t.OpenAt type ts ↔ s.rawPayload.OpenAt type ts)

theorem mem_of_latestSnapshot {snapshots : List ScheduleSnapshot} {latest : Option ScheduleSnapshot}
    {s : ScheduleSnapshot} (h : snapshots.foldl laterSnapshot latest = some s) :
    latest = some s ∨ s ∈ snapshots := by
  induction snapshots generalizing latest with
  | nil => exact .inl h
  | cons s' snapshots ih =>
    rcases ih h with h | h
    · cases latest with
      | none => exact .inr (List.mem_cons.mpr (.inl (Option.some.inj h).symm))
      | some b =>
        simp only [laterSnapshot] at h
        split at h
        · exact .inr (List.mem_cons.mpr (.inl (Option.some.inj h).symm))
        · exact .inl h
    · exact .inr (List.mem_cons_of_mem _ h)

theorem latestSnapshot_insert {s : ScheduleSnapshot}
    (h : ∀ s' ∈ t.snapshots, s'.fetchedAt < s.fetchedAt) :
    (insertSnapshot t.snapshots s).foldl laterSnapshot none = some s := by
  have hnew : s.fetchedAt ∉ t.snapshots.map ScheduleSnapshot.fetchedAt := by
    intro hmem
    obtain ⟨s', hs', heq⟩ := List.mem_map.mp hmem
    exact absurd heq (h s' hs').ne
  rw [insertSnapshot, if_neg hnew, List.foldl_append]
  cases hlatest : t.snapshots.foldl laterSnapshot none with
  | none => rfl
  | some s' =>
    rcases mem_of_latestSnapshot hlatest with h' | hmem
    · cases h'
    · exact if_pos (h s' hmem)

theorem FollowsLatest.unchanged (h : t.FollowsLatest) (hadmitted : u.Admitted fetchedAt)
    (hunchanged : ¬ t.scheduleChanged u) : t.LayersExactly u fetchedAt := by
  obtain ⟨rows, hrows⟩ := hadmitted
  intro coverage hcoverage type ts
  simp only [OpenAt, step_upsert hrows, if_neg hunchanged]
  rw [scheduleChanged, not_not] at hunchanged
  obtain ⟨s, hs, rfl⟩ := Option.map_eq_some_iff.mp hunchanged
  exact ⟨fun hin htype => h s hs coverage hcoverage type ts hin htype, fun _ => trivial⟩

theorem FollowsLatest.step (h : t.FollowsLatest) (hsound : SessionsSound t.intervals)
    {act : ScheduleAct} (hok : t.Orderly act) : (t.step act).FollowsLatest := by
  cases act with
  | delete => exact fun s hs => absurd hs (by simp [ScheduleTables.step, deleteTradingHours, empty,
      latestSnapshot])
  | upsert u fetchedAt =>
    by_cases hadmitted : u.Admitted fetchedAt
    · obtain ⟨rows, hrows⟩ := hadmitted
      by_cases hchanged : t.scheduleChanged u
      · obtain ⟨hfits, hlater⟩ := hok hchanged
        have hlayers := (layersExactly_iff hsound ⟨rows, hrows⟩ hchanged).mpr hfits
        intro s hs coverage hcoverage type ts hin htype
        have hlatest : (t.step (.upsert u fetchedAt)).latestSnapshot =
            some (u.snapshot fetchedAt) := by
          rw [step_upsert hrows, if_pos hchanged]
          exact latestSnapshot_insert (s := u.snapshot fetchedAt) hlater
        cases (hlatest.symm.trans hs)
        exact (hlayers coverage hcoverage type ts).1 hin htype
      · rw [step_upsert hrows, if_neg hchanged]
        exact h
    · rw [step_refused hadmitted]
      exact h

end ScheduleTables

/-- The invariant of runs in which every changed snapshot fits and is the latest. -/
structure ScheduleInv (t : ScheduleTables) : Prop where
  sound : SessionsSound t.intervals
  follows : t.FollowsLatest

def ScheduleTables.Sound (t : ScheduleTables) : Prop := SessionsSound t.intervals

theorem sound_of_run {acts : List ScheduleAct} {t : ScheduleTables}
    (hrun : Run ScheduleStep .empty acts t) : t.Sound := by
  have hstart : ScheduleTables.empty.Sound := ⟨fun r hr => absurd hr List.not_mem_nil, .nil⟩
  refine hrun.invariant ?_ hstart
  rintro s act s' hs rfl
  exact ScheduleTables.soundStep hs act

theorem scheduleInv_of_run {acts : List ScheduleAct} {t : ScheduleTables}
    (hrun : Run (Guarded ScheduleTables.Orderly ScheduleStep) .empty acts t) : ScheduleInv t := by
  have hstart : ScheduleInv .empty :=
    ⟨⟨fun r hr => absurd hr List.not_mem_nil, .nil⟩, fun s hs => absurd hs (by
      simp [ScheduleTables.latestSnapshot, ScheduleTables.empty])⟩
  refine hrun.invariant ?_ hstart
  rintro s act s' hs ⟨hok, rfl⟩
  exact ⟨ScheduleTables.soundStep hs.sound act, hs.follows.step hs.sound hok⟩

/-- **Schedules layer exactly.** In every run the stored sessions of a type are apart, the reader
reports what is stored where few sessions lie around, and a changed snapshot layers exactly if and
only if the stored sessions fit it. In a run whose changed snapshots all fit, each later than those
before, every snapshot layers exactly. -/
theorem schedules_layer {acts : List ScheduleAct} {t : ScheduleTables}
    (hrun : Run ScheduleStep .empty acts t) :
    SessionsApart t.intervals ∧
      (∀ type ts, (t.nearby type (openStateRange ts)).length ≤ 4096 →
        (t.readTradingSessionOpenState ts type = some true ↔ t.OpenAt type ts)) ∧
      (∀ u fetchedAt, u.Admitted fetchedAt → t.scheduleChanged u →
        (t.LayersExactly u fetchedAt ↔ t.Fits u fetchedAt)) ∧
      (Run (Guarded ScheduleTables.Orderly ScheduleStep) .empty acts t →
        ∀ u fetchedAt, u.Admitted fetchedAt → t.Orderly (.upsert u fetchedAt) →
          t.LayersExactly u fetchedAt) := by
  have hsound := sound_of_run hrun
  refine ⟨hsound.apart, fun type ts hfew => ?_, fun u fetchedAt hadmitted hchanged =>
    ScheduleTables.layersExactly_iff hsound hadmitted hchanged,
    fun hguarded u fetchedAt hadmitted hok => ?_⟩
  · rw [ScheduleTables.readOpenState_eq_true_iff]
    simp only [ScheduleTables.mem_visible_of_few hfew]
    constructor
    · rintro ⟨r, ⟨hr, htype, -⟩, hopen, hts⟩
      exact ⟨r, hr, htype, hopen, hts⟩
    · rintro ⟨r, hr, htype, hopen, hts⟩
      exact ⟨r, ⟨hr, htype, hts.meets (ScheduleTables.openStateRange_holds ts)⟩, hopen, hts⟩
  · by_cases hchanged : t.scheduleChanged u
    · exact (ScheduleTables.layersExactly_iff hsound hadmitted hchanged).mpr (hok hchanged).1
    · exact (scheduleInv_of_run hguarded).follows.unchanged hadmitted hchanged

namespace LayeringExample

/-- An hour, in microseconds. -/
def hour : Time := 3600000000

/-- A trading session from one hour to another, in a coverage. -/
def update (coverageStart coverageEnd opens closes : ℤ) : ScheduleUpdate where
  timezone := "UTC"
  tradingHours := ""
  liquidHours := ""
  payload :=
    { providerContractId := "1"
      scheduleFormat := "provider_declared_intervals"
      scheduleCoverageStart := .aware (coverageStart * hour)
      scheduleCoverageEnd := .aware (coverageEnd * hour)
      tradingIntervals :=
        some [some ⟨"trading", "open", .aware (opens * hour), .aware (closes * hour), .day 0, .missing⟩]
      other := "" }

def firstDay : ScheduleUpdate := update 0 24 10 18

def secondDay : ScheduleUpdate := update 24 48 34 42

/-- The afternoon of the first day. -/
def afternoon : ScheduleUpdate := update 12 24 12 18

def stored : ScheduleTables := ScheduleTables.empty.step (.upsert firstDay 1)

def row (opens closes : ℤ) (fetchedAt : Time) : SessionInterval :=
  ⟨0, .trading, opens * hour, closes * hour, .opened, fetchedAt, "{}"⟩

theorem stored_intervals : stored.intervals = [row 10 18 1] := by decide +kernel

theorem rows_secondDay :
    normalizeTradingSessionIntervals secondDay.payload 2 = .ok [row 34 42 2] := by
  decide +kernel

theorem rows_afternoon :
    normalizeTradingSessionIntervals afternoon.payload 2 = .ok [row 12 18 2] := by
  decide +kernel

theorem fits_secondDay : stored.Fits secondDay 2 := by
  intro coverage hcoverage rows hrows p hp r hr
  cases (rows_secondDay.symm.trans hrows)
  obtain rfl : ⟨24 * hour, 48 * hour⟩ = coverage := Except.ok.inj hcoverage
  rw [stored_intervals, List.mem_singleton] at hr
  obtain rfl : p = ⟨.trading, 34 * hour, 42 * hour, [row 34 42 2]⟩ := by
    have h : tradingSessionIntervalReplacementHorizons [row 34 42 2] =
        [⟨.trading, 34 * hour, 42 * hour, [row 34 42 2]⟩] := by
      decide +kernel
    exact List.mem_singleton.mp (h ▸ hp)
  subst hr
  decide

end LayeringExample

open LayeringExample in
theorem schedules_layer_secondDay : stored.LayersExactly secondDay 2 := by
  have hstart : ScheduleTables.empty.Orderly (.upsert firstDay 1) := fun _ =>
    ⟨fun _ _ _ _ _ _ r hr => absurd hr List.not_mem_nil, fun s hs => absurd hs List.not_mem_nil⟩
  have hrun : Run (Guarded ScheduleTables.Orderly ScheduleStep) .empty [.upsert firstDay 1]
      stored := .single ⟨hstart, rfl⟩
  exact (schedules_layer hrun.unguard).2.2.2 hrun secondDay 2 ⟨_, rows_secondDay⟩ fun _ =>
    ⟨fits_secondDay, by decide +kernel⟩

open LayeringExample in
/-- A snapshot that begins within a stored session closes the part of it that came before. -/
theorem layer_clipped :
    ¬ ∀ acts t, Run ScheduleStep .empty acts t →
      SessionsApart t.intervals ∧
        ∀ u fetchedAt, u.Admitted fetchedAt → t.LayersExactly u fetchedAt := by
  intro hclaim
  have hrun : Run ScheduleStep .empty [.upsert firstDay 1] stored := .single rfl
  have hlayers := (hclaim _ _ hrun).2 afternoon 2 ⟨_, rows_afternoon⟩ ⟨12 * hour, 24 * hour⟩ rfl
  have hwas : stored.OpenAt .trading (11 * hour) :=
    ⟨row 10 18 1, by rw [stored_intervals]; exact List.mem_singleton_self _, rfl, rfl, by decide⟩
  obtain ⟨r, hr, -, -, hts⟩ := ((hlayers .trading (11 * hour)).2 (by decide)).mpr hwas
  have hnow : (stored.step (.upsert afternoon 2)).intervals = [row 12 18 2] := by decide +kernel
  rw [hnow, List.mem_singleton] at hr
  exact absurd (hr ▸ hts) (by decide)

end AefTerminal
