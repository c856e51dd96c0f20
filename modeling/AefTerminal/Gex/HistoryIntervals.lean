import AefTerminal.Foundation.Fallible
import AefTerminal.Gex.Contracts
import AefTerminal.Quotes.Envelope

/-!
# Validity intervals of option history

`attach_gex_history_intervals` says of each row of a history from when to when it is valid: from its
capture to the next capture of its source, and no longer than it is fresh, than its option universe
exists and than the window goes. The rows are swept from the last to the first, with the successor
of each source at hand.

The reader of the history admits rows up to and including the end of the window. A row that was
captured at the end has no interval, and the sweep raises for all rows. The text of that error is
not one that the cached projection sets aside, so it takes the projection with it.

## Main definitions

* `attachGexHistoryIntervals`, `cachedGexHistoryProjection`
* `AdmittedHistory`: what the reader promises of a history

## Main results

* `attach_eq_ok`: which histories have intervals, and which ones
* `cachedProjection_eq_ok`: a history that has none takes the cached projection with it
* `history_intervals_hold_iff`
-/

namespace AefTerminal

open Foundation

inductive GexHistoryError
  | value (message : String)
  /-- `OverflowError` of a date. -/
  | dateOutOfRange
  deriving DecidableEq

/-- A row of the history. A text that is no timestamp is absent; a scope that
`require_gex_comparison_scope` refuses is the text of its error. -/
structure GexHistoryRow where
  capturedAt : Option Time
  source : String
  comparisonScope : Except String GexComparisonScope
  optionUniverseExpiresAt : Option Time

/-- A row with its interval. -/
structure GexHistoryInterval where
  item : GexHistoryRow
  validFrom : Time
  validUntil : Time
  validFromUnixMs : ℤ
  validUntilUnixMs : ℤ
  durationMinutes : ℚ
  scopeDiscontinuity : Bool
  sequence : ℕ

/-- `GEX_CONTEXT_STALE_MINUTES`, as a time. -/
def gexContextStale : Time := 60 * 60000000

/-! ### The sweep -/

/-- A row whose checks have passed. -/
structure PreparedRow where
  index : ℕ
  item : GexHistoryRow
  start : Time
  lane : GexComparisonScope

/-- The first loop, after the row captured at `previous`. -/
def prepareRows : Option Time → ℕ → List GexHistoryRow → Except GexHistoryError (List PreparedRow)
  | _, _, [] => .ok []
  | previous, index, item :: rest =>
    match item.capturedAt with
    | none => .error (.value "GEX history intervals require canonical captured_at")
    | some start =>
      if ∃ t ∈ previous, start < t then
        .error (.value "GEX history intervals require chronological input")
      else if item.source ∉ gexChartHistorySources then
        .error (.value "GEX history intervals require an exact source stream")
      else
        match item.comparisonScope with
        | .error message => .error (.value message)
        | .ok lane =>
          (⟨index, item, start, lane⟩ :: ·) <$> prepareRows (some start) (index + 1) rest

/-- `require_gex_option_universe_expiry`, of an exact timestamp or none. -/
def requireGexOptionUniverseExpiry (expiresAt : Option Time) (capturedAt : Time) :
    Except GexHistoryError Unit :=
  require (∀ t ∈ expiresAt, capturedAt < t)
    (.value "GEX option universe must expire after its exact capture")

def PreparedRow.ttlEnd (row : PreparedRow) : Time := row.start + gexContextStale

/-- The four-way minimum. -/
def PreparedRow.until (row : PreparedRow) (next : Option Time) (now : Time) : Time :=
  min (min (next.getD now) row.ttlEnd) (min (row.item.optionUniverseExpiresAt.getD now) now)

def PreparedRow.interval (row : PreparedRow) (next : Option (Time × GexComparisonScope))
    (now : Time) : GexHistoryInterval where
  item := row.item
  validFrom := row.start
  validUntil := row.until (next.map Prod.fst) now
  validFromUnixMs := row.start / 1000
  validUntilUnixMs := row.until (next.map Prod.fst) now / 1000
  durationMinutes :=
    roundDigits 2 ((row.until (next.map Prod.fst) now - row.start : ℤ) / 1000000 / 60)
  scopeDiscontinuity := next.any fun next => next.2 ≠ row.lane
  sequence := row.index

/-- The text of a row without an interval. -/
def intervalRequired : String :=
  "GEX history intervals require strictly increasing timestamps " ++
    "within each source stream and an explicit tail end after the last row"

/-- One round of the second loop. -/
def PreparedRow.attach (row : PreparedRow) (next : Option (Time × GexComparisonScope))
    (now : Time) : Except GexHistoryError GexHistoryInterval := do
  require (IsDatetime row.ttlEnd) .dateOutOfRange
  requireGexOptionUniverseExpiry row.item.optionUniverseExpiresAt row.start
  require (row.start < row.until (next.map Prod.fst) now) (.value intervalRequired)
  return row.interval next now

/-- The second loop, from the last row to the first, with `next_by_stream`. -/
def sweepRows (now : Time) : List PreparedRow →
    Except GexHistoryError (Dict String (Time × GexComparisonScope) × List GexHistoryInterval)
  | [] => .ok (.empty, [])
  | row :: rest => do
    let (next, out) ← sweepRows now rest
    let interval ← row.attach (next.get? row.item.source) now
    return (next.insert row.item.source (row.start, row.lane), interval :: out)

/-- `attach_gex_history_intervals` -/
def attachGexHistoryIntervals (series : List GexHistoryRow) (now : Time) :
    Except GexHistoryError (List GexHistoryInterval) := do
  let prepared ← prepareRows none 0 series
  let (_, out) ← sweepRows now prepared
  return out

/-- The part of `_cached_gex_history_projection` that sets old rows aside. -/
def cachedGexHistoryProjection (history : Except GexHistoryError (List GexHistoryInterval)) :
    Except GexHistoryError (List GexHistoryInterval × String × String) :=
  match history with
  | .ok history => .ok (history, "ok", "")
  | .error (.value message) =>
    if "GEX_HISTORY_CONTRACT_INVALID:".toList.isPrefixOf message.toList then
      .ok ([], "error", message)
    else .error (.value message)
  | .error .dateOutOfRange => .error .dateOutOfRange

theorem PreparedRow.attach_eq_ok {row : PreparedRow} {next : Option (Time × GexComparisonScope)}
    {now : Time} {r : GexHistoryInterval} : row.attach next now = .ok r ↔
      IsDatetime row.ttlEnd ∧ (∀ t ∈ row.item.optionUniverseExpiresAt, row.start < t) ∧
        row.start < row.until (next.map Prod.fst) now ∧ row.interval next now = r := by
  simp only [attach, requireGexOptionUniverseExpiry, bind_eq_ok, require_eq_ok, exists_const, pure,
    Except.pure, Except.ok.injEq]

/-! ### What the reader admits -/

/-- A row of `_read_snapshot_history_from_db`: its payload passed `require_gex_snapshot_payload`. -/
structure AdmittedGexRow where
  capturedAt : Time
  source : String
  comparisonScope : GexComparisonScope
  optionUniverseExpiresAt : Option Time
  source_mem : source ∈ gexChartHistorySources
  expires_after : ∀ t ∈ optionUniverseExpiresAt, capturedAt < t

def AdmittedGexRow.item (row : AdmittedGexRow) : GexHistoryRow where
  capturedAt := some row.capturedAt
  source := row.source
  comparisonScope := .ok row.comparisonScope
  optionUniverseExpiresAt := row.optionUniverseExpiresAt

/-- The rows of a window that ends at `now`, one for each capture of a source. -/
structure AdmittedHistory (now : Time) where
  rows : List AdmittedGexRow
  captured_le : ∀ row ∈ rows, row.capturedAt ≤ now
  chronological : rows.Pairwise fun a b => a.capturedAt ≤ b.capturedAt
  strict : rows.Pairwise fun a b => a.source = b.source → a.capturedAt < b.capturedAt

namespace AdmittedHistory

def items {now : Time} (h : AdmittedHistory now) : List GexHistoryRow :=
  h.rows.map AdmittedGexRow.item

/-- The history without the rows of one source. -/
def without {now : Time} (h : AdmittedHistory now) (source : String) : AdmittedHistory now where
  rows := h.rows.filter (·.source ≠ source)
  captured_le row hrow := h.captured_le row (List.mem_of_mem_filter hrow)
  chronological := h.chronological.filter _
  strict := h.strict.filter _

end AdmittedHistory

/-! ### The intervals of admitted rows -/

section Intervals

variable {now : Time} {rows rest : List AdmittedGexRow} {row : AdmittedGexRow} {index : ℕ}

def AdmittedGexRow.prepared (row : AdmittedGexRow) (index : ℕ) : PreparedRow :=
  ⟨index, row.item, row.capturedAt, row.comparisonScope⟩

def preparedRows : ℕ → List AdmittedGexRow → List PreparedRow
  | _, [] => []
  | index, row :: rest => row.prepared index :: preparedRows (index + 1) rest

/-- The first capture of a source. -/
def nextOf (rows : List AdmittedGexRow) (source : String) : Option (Time × GexComparisonScope) :=
  (rows.find? (·.source = source)).map fun row => (row.capturedAt, row.comparisonScope)

/-- The interval of each row, by the rows after it. -/
def intervalsOf (now : Time) : ℕ → List AdmittedGexRow → List GexHistoryInterval
  | _, [] => []
  | index, row :: rest =>
    (row.prepared index).interval (nextOf rest row.source) now :: intervalsOf now (index + 1) rest

/-- The row was captured before the end of the window, and its limit of staleness is a date. -/
def AdmittedGexRow.Fits (row : AdmittedGexRow) (now : Time) : Prop :=
  row.capturedAt < now ∧ IsDatetime (row.capturedAt + gexContextStale)

theorem prepareRows_eq (previous : Option Time) (index : ℕ)
    (hchronological : rows.Pairwise fun a b => a.capturedAt ≤ b.capturedAt)
    (hprevious : ∀ t ∈ previous, ∀ row ∈ rows, t ≤ row.capturedAt) :
    prepareRows previous index (rows.map AdmittedGexRow.item) = .ok (preparedRows index rows) := by
  induction rows generalizing previous index with
  | nil => rfl
  | cons row rest ih =>
    obtain ⟨hrow, hrest⟩ := List.pairwise_cons.mp hchronological
    have hafter : ¬ ∃ t ∈ previous, row.capturedAt < t := by
      rintro ⟨t, ht, hlt⟩
      exact absurd (hprevious t ht row List.mem_cons_self) (not_le.mpr hlt)
    have htail := ih (some row.capturedAt) (index + 1) hrest fun t ht later hlater => by
      cases ht
      exact hrow later hlater
    rw [List.map_cons, prepareRows, AdmittedGexRow.item]
    dsimp only
    rw [if_neg hafter, if_neg (not_not.mpr row.source_mem), htail]
    rfl

theorem nextOf_cons_self (row : AdmittedGexRow) (rest : List AdmittedGexRow) :
    nextOf (row :: rest) row.source = some (row.capturedAt, row.comparisonScope) := by
  rw [nextOf, List.find?_cons_of_pos (by simp)]
  rfl

theorem nextOf_cons_of_ne {source : String} (h : source ≠ row.source) :
    nextOf (row :: rest) source = nextOf rest source := by
  rw [nextOf, List.find?_cons_of_neg (by simpa using h.symm), nextOf]

/-- The successor of a row is a later row of its source. -/
theorem lt_nextOf (hrow : ∀ later ∈ rest, row.source = later.source → row.capturedAt < later.capturedAt)
    {next : Time × GexComparisonScope} (hnext : next ∈ nextOf rest row.source) :
    row.capturedAt < next.1 := by
  obtain ⟨later, hfind, rfl⟩ := Option.map_eq_some_iff.mp hnext
  have hsource : later.source = row.source := by simpa using List.find?_some hfind
  exact hrow later (List.mem_of_find?_eq_some hfind) hsource.symm

/-- A row that fits has an interval. -/
theorem start_lt_until (hfits : row.Fits now) {next : Option (Time × GexComparisonScope)}
    (hnext : ∀ n ∈ next, row.capturedAt < n.1) :
    row.capturedAt < (row.prepared index).until (next.map Prod.fst) now := by
  have hstale : row.capturedAt < row.capturedAt + gexContextStale :=
    Int.lt_add_of_pos_right _ (by decide)
  refine lt_min (lt_min ?_ hstale) (lt_min ?_ hfits.1)
  · cases next with
    | none => exact hfits.1
    | some n => exact hnext n rfl
  · cases hexpiry : row.optionUniverseExpiresAt with
    | none =>
      simp only [AdmittedGexRow.prepared, AdmittedGexRow.item, hexpiry]
      exact hfits.1
    | some t =>
      simp only [AdmittedGexRow.prepared, AdmittedGexRow.item, hexpiry]
      exact row.expires_after t hexpiry

/-- The sweep over rows that all fit. -/
theorem sweepRows_of_fits (hfits : ∀ row ∈ rows, row.Fits now)
    (hstrict : rows.Pairwise fun a b => a.source = b.source → a.capturedAt < b.capturedAt)
    (index : ℕ) :
    ∃ next, sweepRows now (preparedRows index rows) = .ok (next, intervalsOf now index rows) ∧
      ∀ source, next.get? source = nextOf rows source := by
  induction rows generalizing index with
  | nil => exact ⟨.empty, rfl, fun source => rfl⟩
  | cons row rest ih =>
    obtain ⟨hrow, hrest⟩ := List.pairwise_cons.mp hstrict
    obtain ⟨hself, hothers⟩ := List.forall_mem_cons.mp hfits
    obtain ⟨next, hsweep, hnext⟩ := ih hothers hrest (index + 1)
    have hattach : (row.prepared index).attach (next.get? row.source) now =
        .ok ((row.prepared index).interval (nextOf rest row.source) now) := by
      have hlt : row.capturedAt <
          (row.prepared index).until ((nextOf rest row.source).map Prod.fst) now :=
        start_lt_until hself fun n hn => lt_nextOf hrow hn
      rw [hnext]
      exact PreparedRow.attach_eq_ok.mpr ⟨hself.2, row.expires_after, hlt, rfl⟩
    refine ⟨next.insert row.source (row.capturedAt, row.comparisonScope), ?_, fun source => ?_⟩
    · rw [preparedRows, sweepRows, hsweep]
      change (row.prepared index).attach (next.get? row.source) now >>= _ = _
      rw [hattach]
      rfl
    · by_cases hsource : source = row.source
      · rw [hsource, Dict.get?_insert_self, nextOf_cons_self]
      · rw [Dict.get?_insert_of_ne _ hsource, hnext, nextOf_cons_of_ne hsource]

/-- Rows that a sweep accepts fit. -/
theorem fits_of_sweepRows {result : Dict String (Time × GexComparisonScope) × List GexHistoryInterval}
    (h : sweepRows now (preparedRows index rows) = .ok result) : ∀ row ∈ rows, row.Fits now := by
  induction rows generalizing index result with
  | nil => exact fun row hrow => absurd hrow List.not_mem_nil
  | cons row rest ih =>
    rw [preparedRows, sweepRows] at h
    obtain ⟨swept, hswept, h⟩ := bind_eq_ok.mp h
    obtain ⟨interval, hattach, -⟩ := bind_eq_ok.mp h
    obtain ⟨hdate, -, hlt, -⟩ := PreparedRow.attach_eq_ok.mp hattach
    exact List.forall_mem_cons.mpr
      ⟨⟨hlt.trans_le ((min_le_right _ _).trans (min_le_right _ _)), hdate⟩, ih hswept⟩

end Intervals

/-- The rows of a history have intervals exactly where they all fit. -/
theorem attach_eq_ok {now : Time} (h : AdmittedHistory now) {out : List GexHistoryInterval} :
    attachGexHistoryIntervals h.items now = .ok out ↔
      (∀ row ∈ h.rows, row.Fits now) ∧ out = intervalsOf now 0 h.rows := by
  have hprepared : prepareRows none 0 h.items = .ok (preparedRows 0 h.rows) :=
    prepareRows_eq none 0 h.chronological fun t ht => absurd ht (Option.not_mem_none t)
  have hattach : attachGexHistoryIntervals h.items now = .ok out ↔
      ∃ next, sweepRows now (preparedRows 0 h.rows) = .ok (next, out) := by
    rw [attachGexHistoryIntervals, hprepared]
    simp only [bind_eq_ok, Except.ok.injEq, exists_eq_left', pure, Except.pure, Prod.exists,
      exists_eq_right]
  rw [hattach]
  constructor
  · rintro ⟨next, hsweep⟩
    have hfits := fits_of_sweepRows hsweep
    obtain ⟨next', hsweep', -⟩ := sweepRows_of_fits hfits h.strict 0
    exact ⟨hfits, (Prod.mk.inj (Except.ok.inj (hsweep.symm.trans hsweep'))).2⟩
  · rintro ⟨hfits, rfl⟩
    obtain ⟨next, hsweep, -⟩ := sweepRows_of_fits hfits h.strict 0
    exact ⟨next, hsweep⟩

/-- What the sweep raises of admitted rows. -/
theorem sweepRows_error {now : Time} {rows : List AdmittedGexRow} {index : ℕ} {e : GexHistoryError}
    (h : sweepRows now (preparedRows index rows) = .error e) :
    e = .dateOutOfRange ∨ e = .value intervalRequired := by
  induction rows generalizing index with
  | nil => exact nomatch h
  | cons row rest ih =>
    rw [preparedRows, sweepRows] at h
    rcases bind_eq_error.mp h with hrest | ⟨⟨next, out⟩, -, h⟩
    · exact ih hrest
    · obtain hattach | ⟨_, -, h⟩ := bind_eq_error.mp h
      · rw [PreparedRow.attach, requireGexOptionUniverseExpiry] at hattach
        rcases bind_eq_error.mp hattach with hdate | ⟨_, -, hattach⟩
        · exact .inl (require_eq_error.mp hdate).2.symm
        · rcases bind_eq_error.mp hattach with hexpiry | ⟨_, -, hattach⟩
          · exact absurd row.expires_after (require_eq_error.mp hexpiry).1
          · rcases bind_eq_error.mp hattach with hinterval | ⟨_, -, hattach⟩
            · exact .inr (require_eq_error.mp hinterval).2.symm
            · exact nomatch hattach
      · exact nomatch h

/-- A history without intervals is not set aside: the cached projection raises with it. -/
theorem cachedProjection_eq_ok {now : Time} (h : AdmittedHistory now) :
    (∃ result, cachedGexHistoryProjection (attachGexHistoryIntervals h.items now) = .ok result) ↔
      ∀ row ∈ h.rows, row.Fits now := by
  cases hattach : attachGexHistoryIntervals h.items now with
  | ok out => exact ⟨fun _ => ((attach_eq_ok h).mp hattach).1, fun _ => ⟨_, rfl⟩⟩
  | error e =>
    have hnot : ¬ ∀ row ∈ h.rows, row.Fits now := fun hfits =>
      absurd (((attach_eq_ok h).mpr ⟨hfits, rfl⟩).symm.trans hattach) (fun h => nomatch h)
    have herror : e = .dateOutOfRange ∨ e = .value intervalRequired := by
      rw [attachGexHistoryIntervals, AdmittedHistory.items,
        prepareRows_eq none 0 h.chronological fun t ht => absurd ht (Option.not_mem_none t)] at hattach
      rcases bind_eq_error.mp hattach with hprepare | ⟨prepared, hprepare, hattach⟩
      · exact nomatch hprepare
      · cases hprepare
        rcases bind_eq_error.mp hattach with hsweep | ⟨_, -, hattach⟩
        · exact sweepRows_error hsweep
        · exact nomatch hattach
    refine ⟨fun ⟨result, hresult⟩ => ?_, fun hfits => absurd hfits hnot⟩
    rcases herror with rfl | rfl
    · exact nomatch hresult
    · rw [cachedGexHistoryProjection, if_neg (by decide +kernel)] at hresult
      exact nomatch hresult

/-! ### What holds of the intervals -/

/-- All of an interval but its number. -/
def GexHistoryInterval.unnumbered (r : GexHistoryInterval) : GexHistoryInterval :=
  { r with sequence := 0 }

/-- Each row has an interval, in order. The intervals of a source follow each other, and none goes
beyond the next capture, the limit of staleness, the expiry of the option universe or the end of the
window. -/
structure IntervalsSound (now : Time) (rows : List AdmittedGexRow) (out : List GexHistoryInterval) :
    Prop where
  items : out.map GexHistoryInterval.item = rows.map AdmittedGexRow.item
  sequence : out.map GexHistoryInterval.sequence = List.range rows.length
  validFrom : ∀ r ∈ out, r.item.capturedAt = some r.validFrom
  nonempty : ∀ r ∈ out, r.validFrom < r.validUntil
  ordered : out.Pairwise fun a b => a.item.source = b.item.source → a.validUntil ≤ b.validFrom
  stale : ∀ r ∈ out, r.validUntil ≤ r.validFrom + gexContextStale
  expiry : ∀ r ∈ out, ∀ t ∈ r.item.optionUniverseExpiresAt, r.validUntil ≤ t
  window : ∀ r ∈ out, r.validUntil ≤ now

section Sound

variable {now : Time} {rows rest : List AdmittedGexRow} {row : AdmittedGexRow} {index : ℕ}
  {r : GexHistoryInterval}

theorem map_item_intervalsOf :
    (intervalsOf now index rows).map GexHistoryInterval.item = rows.map AdmittedGexRow.item := by
  induction rows generalizing index with
  | nil => rfl
  | cons row rest ih =>
    rw [intervalsOf, List.map_cons, ih]
    rfl

theorem map_sequence_intervalsOf :
    (intervalsOf now index rows).map GexHistoryInterval.sequence = List.range' index rows.length := by
  induction rows generalizing index with
  | nil => rfl
  | cons row rest ih =>
    rw [intervalsOf, List.map_cons, ih]
    rfl

/-- Where an interval comes from. -/
theorem mem_intervalsOf (h : r ∈ intervalsOf now index rows) : ∃ before row rest i,
    rows = before ++ row :: rest ∧ r = (row.prepared i).interval (nextOf rest row.source) now := by
  induction rows generalizing index with
  | nil => exact absurd h List.not_mem_nil
  | cons row rest ih =>
    rcases List.mem_cons.mp h with rfl | h
    · exact ⟨[], row, rest, index, rfl, rfl⟩
    · obtain ⟨before, row', rest', i, rfl, heq⟩ := ih h
      exact ⟨row :: before, row', rest', i, rfl, heq⟩

theorem until_le_next {next : Option (Time × GexComparisonScope)} {t : Time}
    {scope : GexComparisonScope} (h : next = some (t, scope)) :
    (row.prepared index).until (next.map Prod.fst) now ≤ t := by
  rw [h]
  exact (min_le_left _ _).trans (min_le_left _ _)

/-- In a chronological list the successor of a source is at most each of its captures. -/
theorem nextOf_le (hchronological : rows.Pairwise fun a b => a.capturedAt ≤ b.capturedAt)
    (hrow : row ∈ rows) : ∃ t scope, nextOf rows row.source = some (t, scope) ∧ t ≤ row.capturedAt := by
  induction rows with
  | nil => exact absurd hrow List.not_mem_nil
  | cons first rest ih =>
    obtain ⟨hfirst, hrest⟩ := List.pairwise_cons.mp hchronological
    by_cases hsource : row.source = first.source
    · rw [hsource]
      refine ⟨first.capturedAt, first.comparisonScope, nextOf_cons_self first rest, ?_⟩
      rcases List.mem_cons.mp hrow with rfl | hmem
      · exact le_rfl
      · exact hfirst row hmem
    · rw [nextOf_cons_of_ne hsource]
      rcases List.mem_cons.mp hrow with rfl | hmem
      · exact absurd rfl hsource
      · exact ih hrest hmem

theorem ordered_intervalsOf (hchronological : rows.Pairwise fun a b => a.capturedAt ≤ b.capturedAt) :
    (intervalsOf now index rows).Pairwise fun a b =>
      a.item.source = b.item.source → a.validUntil ≤ b.validFrom := by
  induction rows generalizing index with
  | nil => exact .nil
  | cons row rest ih =>
    obtain ⟨-, hrest⟩ := List.pairwise_cons.mp hchronological
    refine List.pairwise_cons.mpr ⟨fun b hb hsource => ?_, ih hrest⟩
    obtain ⟨before, row', rest', i, rfl, rfl⟩ := mem_intervalsOf hb
    obtain ⟨t, scope, hnext, hle⟩ := @nextOf_le _ row' hrest
      (List.mem_append_right _ List.mem_cons_self)
    have hsame : row.source = row'.source := hsource
    rw [← hsame] at hnext
    exact (until_le_next hnext).trans hle

theorem intervalsOf_sound (hfits : ∀ row ∈ rows, row.Fits now)
    (hchronological : rows.Pairwise fun a b => a.capturedAt ≤ b.capturedAt)
    (hstrict : rows.Pairwise fun a b => a.source = b.source → a.capturedAt < b.capturedAt) :
    IntervalsSound now rows (intervalsOf now 0 rows) where
  items := map_item_intervalsOf
  sequence := by rw [map_sequence_intervalsOf, List.range_eq_range']
  validFrom r hr := by
    obtain ⟨before, row, rest, i, rfl, rfl⟩ := mem_intervalsOf hr
    rfl
  nonempty r hr := by
    obtain ⟨before, row, rest, i, rfl, rfl⟩ := mem_intervalsOf hr
    obtain ⟨-, hlater, -⟩ := List.pairwise_append.mp hstrict
    exact start_lt_until (hfits row (List.mem_append_right _ List.mem_cons_self)) fun n hn =>
      lt_nextOf (List.pairwise_cons.mp hlater).1 hn
  ordered := ordered_intervalsOf hchronological
  stale r hr := by
    obtain ⟨before, row, rest, i, rfl, rfl⟩ := mem_intervalsOf hr
    exact (min_le_left _ _).trans (min_le_right _ _)
  expiry r hr t ht := by
    obtain ⟨before, row, rest, i, rfl, rfl⟩ := mem_intervalsOf hr
    have hexpiry : row.optionUniverseExpiresAt = some t := ht
    refine (min_le_right _ _).trans ((min_le_left _ _).trans (le_of_eq ?_))
    simp only [AdmittedGexRow.prepared, AdmittedGexRow.item, hexpiry, Option.getD_some]
  window r hr := by
    obtain ⟨before, row, rest, i, rfl, rfl⟩ := mem_intervalsOf hr
    exact (min_le_right _ _).trans (min_le_right _ _)

theorem source_interval {next : Option (Time × GexComparisonScope)} :
    ((row.prepared index).interval next now).item.source = row.source := rfl

/-- The rows of one source have no part in the intervals of the others. -/
theorem intervalsOf_filter (source : String) (index index' : ℕ) :
    (intervalsOf now index (rows.filter (·.source ≠ source))).map GexHistoryInterval.unnumbered =
      ((intervalsOf now index' rows).filter (·.item.source ≠ source)).map
        GexHistoryInterval.unnumbered := by
  induction rows generalizing index index' with
  | nil => rfl
  | cons row rest ih =>
    by_cases hsource : row.source = source
    · rw [List.filter_cons_of_neg (by simpa using hsource), intervalsOf,
        List.filter_cons_of_neg (by simp [source_interval, hsource])]
      exact ih index (index' + 1)
    · have hnext : nextOf (rest.filter (·.source ≠ source)) row.source = nextOf rest row.source := by
        rw [nextOf, nextOf, List.find?_filter]
        congr 2
        funext other
        by_cases hother : other.source = row.source
        · simp [hother, hsource]
        · simp [hother]
      rw [List.filter_cons_of_pos (by simpa using hsource), intervalsOf, intervalsOf,
        List.filter_cons_of_pos (by simp [source_interval, hsource]), List.map_cons, List.map_cons, hnext,
        ih (index + 1) (index' + 1)]
      rfl

end Sound

/-- **History intervals.** The rows of a history have intervals, which are sound; without the rows of
one source the intervals of the others are the same. -/
def HistoryIntervalsHold {now : Time} (h : AdmittedHistory now) : Prop :=
  ∃ out, attachGexHistoryIntervals h.items now = .ok out ∧ IntervalsSound now h.rows out ∧
    ∀ source, ∃ out', attachGexHistoryIntervals (h.without source).items now = .ok out' ∧
      out'.map GexHistoryInterval.unnumbered =
        (out.filter (·.item.source ≠ source)).map GexHistoryInterval.unnumbered

theorem HistoryIntervalsHold.fits {now : Time} {h : AdmittedHistory now}
    (hholds : HistoryIntervalsHold h) : ∀ row ∈ h.rows, row.Fits now := by
  obtain ⟨out, hattach, -⟩ := hholds
  exact ((attach_eq_ok h).mp hattach).1

/-- The intervals of a history hold exactly where no row was captured at the end of the window, and
every limit of staleness is a date. -/
theorem history_intervals_hold_iff {now : Time} (h : AdmittedHistory now) :
    HistoryIntervalsHold h ↔
      ∀ row ∈ h.rows, row.capturedAt ≠ now ∧ IsDatetime (row.capturedAt + gexContextStale) := by
  constructor
  · intro hholds row hrow
    obtain ⟨hlt, hdate⟩ := hholds.fits row hrow
    exact ⟨ne_of_lt hlt, hdate⟩
  · intro hrows
    have hfits : ∀ row ∈ h.rows, row.Fits now := fun row hrow =>
      ⟨lt_of_le_of_ne (h.captured_le row hrow) (hrows row hrow).1, (hrows row hrow).2⟩
    refine ⟨_, (attach_eq_ok h).mpr ⟨hfits, rfl⟩, intervalsOf_sound hfits h.chronological h.strict,
      fun source => ⟨_, (attach_eq_ok (h.without source)).mpr ⟨fun row hrow => ?_, rfl⟩,
        intervalsOf_filter source 0 0⟩⟩
    exact hfits row (List.mem_of_mem_filter hrow)

/-! ### A capture at the end of the window -/

def capturedScope : GexComparisonScope where
  captureMode := "request"
  strikeCount := 1
  strikeLadder := [5000]
  contractConIds := [1, 2]
  expiries := ["20260101"]
  futuresOptions := true
  series := [⟨"20260101", "E1A", "CME", 50⟩]
  riskFreeRate := 0
  dividendYield := 0
  marketDataEntitlement := "live"

/-- One row, captured at the end of the window. -/
def capturedAtEnd : AdmittedHistory 0 where
  rows := [⟨0, gexRequestSnapshotSource, capturedScope, none, List.mem_cons_self,
    fun t ht => absurd ht (Option.not_mem_none t)⟩]
  captured_le := by simp
  chronological := List.pairwise_singleton _ _
  strict := List.pairwise_singleton _ _

theorem capture_at_end_has_no_interval : ¬ HistoryIntervalsHold capturedAtEnd := fun h =>
  absurd (h.fits _ List.mem_cons_self).1 (lt_irrefl _)

end AefTerminal
