import AefTerminal.Domain.Bar
import AefTerminal.Foundation.Dict
import AefTerminal.Foundation.Fallible
import Mathlib.Data.List.Sort

/-!
# The canonical bar table and its upsert

`_write_bars_on_cursor` as one transaction on the `bars` table: admission of each bar, the
set-based upsert, the ordered readback and the classification of the batch from that readback. A
raise rolls the transaction back, so a failed call has no table.

The upsert replaces a row only when the batch's revision sequence is newer, the row does not fall
back from closed to provisional, and some value column differs. The last condition is why an
unchanged row keeps the sequence of its first writer.

The route of the call is resolved by the provider adapters before the first statement and comes
in as a `StorageRoute`. Metrics, logging and `updated_at` are not part of the outcome.

## Main definitions

* `BarValues`, `StoredBar`, `BarsTable`: the value columns, a row, the table
* `storageBarRejectReason`: what storage refuses, and which refusals raise
* `upsertCell`, `upsertBars`: `INSERT … ON CONFLICT … DO UPDATE … WHERE`
* `canonicalBarCommitReceipt`, `writeBarsOnCursor`
-/

namespace AefTerminal

open Foundation

/-- The primary key of `bars`. -/
structure BarSlot where
  instrumentId : String
  routeFingerprint : String
  timeframe : BarInterval
  ts : Time
  deriving DecidableEq

/-- The columns the upsert compares with `IS DISTINCT FROM`. Only a constructed bar is written, so
its checks hold of a row too and the readback can rebuild a bar from it. -/
@[ext]
structure BarValues where
  «open» : ℚ
  high : ℚ
  low : ℚ
  close : ℚ
  volume : ℚ
  source : String
  closed : Bool
  volume_nonneg : 0 ≤ volume
  geometry : max «open» close ≤ high ∧ low ≤ min «open» close

instance : DecidableEq BarValues := fun _ _ => decidable_of_iff' _ BarValues.ext_iff

structure StoredBar where
  provider : String
  symbol : String
  values : BarValues
  revisionSequence : ℕ
  deriving DecidableEq

abbrev BarsTable := Dict BarSlot StoredBar

/-- What the adapters resolve from the provider and the instrument of a call. -/
structure StorageRoute where
  provider : String
  instrumentId : String
  routeFingerprint : String
  providerContractId : String
  dataType : String
  /-- `provider_data_policy_for_source(provider).authoritative_ohlcv` -/
  authoritativeOhlcv : Bool
  isFutures : Bool
  deriving DecidableEq

/-! ### Admission -/

inductive BarRejectReason
  | providerNotAuthoritative
  | provisionalBar
  | providerTimestampNotMinuteAligned
  | providerProvenanceMissing
  | providerProvenanceMismatch
  | instrumentIdMismatch
  | routeFingerprintMismatch
  | providerRequestTypeMismatch
  | providerContractIdMismatch
  | providerContractTypeMismatch
  | providerDataTypeMismatch
  | providerAggregationTimeframeMismatch
  deriving DecidableEq, Repr

/-- `_STORAGE_BAR_IDENTITY_REJECT_REASONS`: a wrong identity raises, the rest is skipped. -/
def BarRejectReason.isIdentity : BarRejectReason → Bool
  | providerNotAuthoritative | provisionalBar | providerTimestampNotMinuteAligned => false
  | _ => true

/-- What a caller of the admission check expects; an absent expectation is not checked. -/
structure BarExpectation where
  provider : String
  instrumentId : Option String
  routeFingerprint : Option String
  allowedRequestTypes : Option (List BarProviderRequest)
  providerContractId : Option String
  providerContractType : Option String
  dataType : Option String

def microsecondsPerMinute : ℤ := 60000000

/-- `_STORAGE_PROVIDER_REQUEST_TYPES`. -/
def storageProviderRequestTypes : List BarProviderRequest :=
  [.historical, .keepUpToDate, .deterministicAggregation]

/-- A value that differs from what was expected, if anything was. -/
def Differs {α : Type} (expected : Option α) (actual : α) : Prop :=
  ∃ e, expected = some e ∧ actual ≠ e

instance {α : Type} [DecidableEq α] (expected : Option α) (actual : α) :
    Decidable (Differs expected actual) :=
  match expected with
  | none => isFalse fun ⟨_, h, _⟩ => absurd h (by simp)
  | some e => decidable_of_iff (actual ≠ e) ⟨fun h => ⟨e, rfl, h⟩, fun ⟨_, h, hne⟩ =>
      Option.some.inj h ▸ hne⟩

def authoritativeBarRejectReason (expected : BarExpectation) (bar : Bar) :
    Option BarRejectReason :=
  if isProvisionalBar bar then some .provisionalBar
  else if bar.ts % microsecondsPerMinute ≠ 0 then some .providerTimestampNotMinuteAligned
  else
    match bar.provenance with
    | none => some .providerProvenanceMissing
    | some provenance =>
      if provenance.provider ≠ expected.provider then some .providerProvenanceMismatch
      else if Differs expected.instrumentId provenance.instrumentId then
        some .instrumentIdMismatch
      else if Differs expected.routeFingerprint provenance.routeFingerprint then
        some .routeFingerprintMismatch
      else if ∃ l, expected.allowedRequestTypes = some l ∧ provenance.requestType ∉ l then
        some .providerRequestTypeMismatch
      else if Differs expected.providerContractId provenance.providerContractId then
        some .providerContractIdMismatch
      else if Differs expected.providerContractType provenance.providerContractType then
        some .providerContractTypeMismatch
      else if Differs expected.dataType provenance.dataType then some .providerDataTypeMismatch
      else if provenance.requestType = .deterministicAggregation then
        match provenance.sourceTimeframe with
        | none => some .providerAggregationTimeframeMismatch
        | some source =>
          if source = 0 ∨ source ≥ bar.timeframe.minutes ∨ bar.timeframe.minutes % source ≠ 0 then
            some .providerAggregationTimeframeMismatch
          else none
      else none

inductive BarWriteError
  | revisionSequenceInvalid
  | storageTimeframeUnsupported
  | oneInstrumentPerCall
  | futuresStorage
  | identityRejected (reason : BarRejectReason)
  | slotsNotUnique
  | commitNotDurable
  | revisionOrderViolation (submitted persisted : ℕ)
  deriving DecidableEq, Repr

def StorageRoute.expectation (route : StorageRoute) : BarExpectation where
  provider := route.provider
  instrumentId := some route.instrumentId
  routeFingerprint := some route.routeFingerprint
  allowedRequestTypes := some storageProviderRequestTypes
  providerContractId := some route.providerContractId
  providerContractType := none
  dataType := some route.dataType

/-- `_storage_bar_reject_reason` with strict identity. -/
def storageBarRejectReason (route : StorageRoute) (bar : Bar) :
    Except BarWriteError (Option BarRejectReason) :=
  if !route.authoritativeOhlcv then .ok (some .providerNotAuthoritative)
  else
    match authoritativeBarRejectReason route.expectation bar with
    | none => .ok none
    | some reason =>
      if reason.isIdentity then .error (.identityRejected reason) else .ok (some reason)

/-- The admitted bars of a batch, in the batch's order. -/
def allowedBars (route : StorageRoute) : List Bar → Except BarWriteError (List Bar)
  | [] => .ok []
  | bar :: bars => do
    let reason ← storageBarRejectReason route bar
    let rest ← allowedBars route bars
    return if reason = none then bar :: rest else rest

/-! ### The upsert -/

def barSlot (route : StorageRoute) (bar : Bar) : BarSlot where
  instrumentId := route.instrumentId
  routeFingerprint := route.routeFingerprint
  timeframe := canonicalBarSourceInterval bar.timeframe
  ts := bar.ts

def barValues (bar : Bar) : BarValues where
  «open» := bar.open
  high := bar.high
  low := bar.low
  close := bar.close
  volume := bar.volume
  source := bar.source
  closed := bar.closed
  volume_nonneg := bar.volume_nonneg
  geometry := bar.geometry

def storedBar (route : StorageRoute) (revisionSequence : ℕ) (bar : Bar) : StoredBar where
  provider := route.provider
  symbol := bar.symbol
  values := barValues bar
  revisionSequence

/-- The `WHERE` of the conflict branch. -/
def StoredBar.Replaces (new row : StoredBar) : Prop :=
  row.revisionSequence < new.revisionSequence ∧
    ¬ (row.values.closed = true ∧ new.values.closed = false) ∧ row.values ≠ new.values

instance (new row : StoredBar) : Decidable (new.Replaces row) :=
  inferInstanceAs (Decidable (_ ∧ _ ∧ _))

/-- The row of one slot after the upsert of one input row. -/
def upsertCell (row : Option StoredBar) (new : StoredBar) : StoredBar :=
  match row with
  | none => new
  | some row => if new.Replaces row then new else row

/-- The rows `RETURNING` reports: inserted or replaced. -/
def upsertWrites (row : Option StoredBar) (new : StoredBar) : Bool :=
  match row with
  | none => true
  | some row => decide (new.Replaces row)

/-- The statement over its ordered input rows: how many were written, and the table. -/
def upsertBars (route : StorageRoute) (revisionSequence : ℕ) :
    List Bar → BarsTable → ℕ × BarsTable
  | [], table => (0, table)
  | bar :: bars, table =>
    let slot := barSlot route bar
    let new := storedBar route revisionSequence bar
    let rest := upsertBars route revisionSequence bars
      (table.insert slot (upsertCell (table.get? slot) new))
    (rest.1 + if upsertWrites (table.get? slot) new then 1 else 0, rest.2)

/-! ### Readback and receipt -/

def canonicalStorageBarProvenance (route : StorageRoute) : BarProvenance where
  provider := route.provider
  instrumentId := route.instrumentId
  routeFingerprint := route.routeFingerprint
  requestType := .canonicalStorage
  providerContractId := ""
  providerContractType := "CANONICAL_STORAGE"
  dataType := "canonical_ohlcv"
  sourceTimeframe := none

/-- A bar rebuilt from its row, with the lifecycle state its `closed` column implies. -/
def readbackBar (route : StorageRoute) (slot : BarSlot) (row : StoredBar) : Bar where
  symbol := row.symbol
  ts := slot.ts
  «open» := row.values.open
  high := row.values.high
  low := row.values.low
  close := row.values.close
  volume := row.values.volume
  timeframe := slot.timeframe.toChart
  source := row.values.source
  closed := row.values.closed
  state := if row.values.closed then .confirmed else .forming
  provenance := some (canonicalStorageBarProvenance route)
  volume_nonneg := row.values.volume_nonneg
  geometry := row.values.geometry
  lifecycle := by cases row.values.closed <;> simp

/-- The outcome of one logically ordered bar batch. -/
structure CanonicalBarCommitReceipt where
  revisionSequence : ℕ
  written : ℕ
  acknowledged : List Bar
  superseded : List Bar
  rejected : List Bar
  deleted : ℕ
  deriving DecidableEq

/-- The slot a submitted or persisted bar is matched by. -/
def receiptSlot (bar : Bar) : BarInterval × Time := (canonicalBarSourceInterval bar.timeframe, bar.ts)

/-- Sort one submitted bar into acknowledged or superseded, or raise. -/
def classifyBar (persisted : List (Bar × ℕ)) (sequence : ℕ) (bar : Bar) :
    Except BarWriteError Bool :=
  match persisted.find? fun p => receiptSlot p.1 = receiptSlot bar with
  | none => .error .commitNotDurable
  | some (persistedBar, persistedSequence) =>
    if barRevisionSignature persistedBar = barRevisionSignature bar then .ok true
    else if persistedSequence > sequence then .ok false
    else .error (.revisionOrderViolation sequence persistedSequence)

/-- The submitted bars, split into acknowledged and superseded. -/
def classifyBars (persisted : List (Bar × ℕ)) (sequence : ℕ) :
    List Bar → Except BarWriteError (List Bar × List Bar)
  | [] => .ok ([], [])
  | bar :: bars => do
    let acknowledged ← classifyBar persisted sequence bar
    let rest ← classifyBars persisted sequence bars
    return if acknowledged then (bar :: rest.1, rest.2) else (rest.1, bar :: rest.2)

def canonicalBarCommitReceipt (submitted : List Bar) (persisted : List (Bar × ℕ))
    (revisionSequence written : ℕ) (rejected : List Bar) :
    Except BarWriteError CanonicalBarCommitReceipt := do
  let (acknowledged, superseded) ← classifyBars persisted revisionSequence submitted
  return { revisionSequence, written, acknowledged, superseded, rejected, deleted := 0 }

/-- The order of the input rows: `(timeframe, ts)`, the timeframe as text. -/
def inputOrder (a b : Bar) : Prop :=
  let s := (canonicalBarSourceInterval a.timeframe).text
  let t := (canonicalBarSourceInterval b.timeframe).text
  s < t ∨ (s = t ∧ a.ts ≤ b.ts)

instance : DecidableRel inputOrder := fun _ _ => inferInstanceAs (Decidable (_ ∨ _))

/-- The joined rows of the batch's slots. -/
def readback (route : StorageRoute) (table : BarsTable) (bars : List Bar) : List (Bar × ℕ) :=
  bars.filterMap fun bar =>
    (table.get? (barSlot route bar)).map fun row =>
      (readbackBar route (barSlot route bar) row, row.revisionSequence)

/-- `_write_bars_on_cursor`. -/
def writeBarsOnCursor (table : BarsTable) (route : StorageRoute) (bars : List Bar)
    (revisionSequence : ℕ) : Except BarWriteError (CanonicalBarCommitReceipt × BarsTable) := do
  require (0 < revisionSequence) .revisionSequenceInvalid
  if bars = [] then return (⟨revisionSequence, 0, [], [], [], 0⟩, table)
  require (∀ bar ∈ bars, (requirePersistedBarTimeframe bar.timeframe).isSome)
    .storageTimeframeUnsupported
  require (∀ a ∈ bars, ∀ b ∈ bars, a.symbol = b.symbol) .oneInstrumentPerCall
  require (route.isFutures = false) .futuresStorage
  let allowed ← allowedBars route bars
  if allowed = [] then return (⟨revisionSequence, 0, [], [], bars, 0⟩, table)
  require (allowed.map receiptSlot).Nodup .slotsNotUnique
  let ordered := allowed.insertionSort inputOrder
  let upserted := upsertBars route revisionSequence ordered table
  let receipt ← canonicalBarCommitReceipt allowed (readback route upserted.2 ordered)
    revisionSequence upserted.1 (bars.filter fun bar => bar ∉ allowed)
  return (receipt, upserted.2)

end AefTerminal
