import AefTerminal.Paper.Positions

/-!
# Reading the journal

`paper_journal_payload` reads all four tables and checks them against each other while it does:
every row has to decode, every closed position it lists needs exactly one closing event, and the
facts of that event have to be the position's. One row that fails makes the whole payload fail.

The projection of a trade for display, from the enrichment on, neither reads the tables nor raises.

## Main definitions

* `JournalScope`, `readPaperPositions`, `readPaperOrders`, `readPaperFills`, `readPaperTradeEvents`
* `paperPositionCloseFacts`, `positionTradeFromStorage`, `paperJournalPayload`
* `CloseFacts`, `EventsSound`, `JournalSound`

## Main results

* `EventsSound.openRow`, `EventsSound.closeRow`: what an append owes the positions
-/

namespace AefTerminal

open Foundation

/-! ### Queries -/

/-- An instrument, a route and a kind of contract. -/
structure JournalScope where
  instrumentId : String
  routeFingerprint : String
  scopeKind : PaperContractScopeKind

def JournalScope.admits (s : JournalScope) (i : PaperIdentity) : Bool :=
  decide (i.instrumentId = s.instrumentId) && decide (i.routeFingerprint = s.routeFingerprint) &&
    decide (i.paperContract.scopeKind = s.scopeKind)

/-- `max(1, min(limit, 1000))`. -/
def clampLimit (limit : ℤ) : ℕ := (max 1 (min limit 1000)).toNat

/-- The `WHERE` clause of `read_paper_positions`. -/
def isInPage (status : Option PaperPositionStatus) (page : Option (JournalScope × ℤ))
    (_id : String) (row : PositionRow) : Bool :=
  (match status with
    | some status => decide (row.status = status)
    | none => true) &&
  match page with
  | some (scope, _) => scope.admits row.document.identity
  | none => true

/-- Its `LIMIT` clause. -/
def limitPage (page : Option (JournalScope × ℤ)) (rows : List SavedPosition) :
    List SavedPosition :=
  match page with
  | some (_, limit) => rows.take (clampLimit limit)
  | none => rows

/-- `read_paper_positions` without a scope and a limit, or with both. -/
def readPaperPositions (t : PaperTables) (status : Option PaperPositionStatus)
    (page : Option (JournalScope × ℤ)) : Except PaperError (List SavedPosition) :=
  (limitPage page
    (((t.positions.select (isInPage status page)).map fun e =>
      SavedPosition.mk e.1 e.2).insertionSort fun a b => b.row.updatedAt ≤ a.row.updatedAt)).mapM
    fun p => paperPositionFromRow p.id p.row

/-- `read_paper_orders` of a scope. -/
def readPaperOrders (t : PaperTables) (scope : JournalScope) (limit : ℤ)
    (status : Option PaperOrderStatus) (since : Option Time) :
    Except PaperError (List SavedOrder) :=
  let p : String → OrderRow → Bool := fun _ row =>
    scope.admits row.document.identity &&
    (match status with
      | some status => decide (row.status = status)
      | none => true) &&
    match since with
    | some since => decide (since ≤ row.filledAt.getD row.updatedAt)
    | none => true
  let rows := ((t.orders.select p).map fun e => SavedOrder.mk e.1 e.2).insertionSort
    fun a b => b.row.updatedAt ≤ a.row.updatedAt
  (rows.take (clampLimit limit)).mapM fun o => paperOrderFromRow o.id o.row

/-- `read_paper_fills` of a scope. -/
def readPaperFills (t : PaperTables) (scope : JournalScope) (limit : ℤ) (since : Time) :
    Except PaperError (List FillRow) :=
  let rows := (t.fills.filter fun r =>
    scope.admits r.identity && decide (since ≤ r.filledAt)).insertionSort
    fun a b => b.filledAt ≤ a.filledAt
  (rows.take (clampLimit limit)).mapM paperFillFromRow

/-- The closing events of some positions. -/
def isCloseEventOf (instrumentId routeFingerprint : String) (tradeIds : List String)
    (e : TradeEvent) : Bool :=
  decide (e.instrumentId = instrumentId) && decide (e.routeFingerprint = routeFingerprint) &&
    (match e.tradeId with
      | some id => decide (id ∈ tradeIds)
      | none => false) &&
    decide (e.eventType = .positionClosed)

/-- `read_paper_trade_events`, for `position_closed`. -/
def readPaperTradeEvents (t : PaperTables) (instrumentId routeFingerprint : String)
    (tradeIds : List String) (limit : ℤ) : Except PaperError (List TradeEvent) :=
  let rows := (t.events.filter (isCloseEventOf instrumentId routeFingerprint tradeIds)).insertionSort
    fun a b => b.createdAt ≤ a.createdAt
  (rows.take (clampLimit limit)).mapM fun e => do
    let _ ← requireExactIdentityText e.instrumentId "instrument_id"
    let _ ← requireExactIdentityText e.routeFingerprint "route_fingerprint"
    return e

/-! ### The payload -/

/-- Why a position was closed. The nested payload of an order holds no command, so the role of
the fill decides. -/
def exitReasonOf : PaperRole → String
  | .stop => "stop"
  | .take => "target"
  | .close => "manual_close"
  | .entry => "position_reversal"

/-- `_paper_position_close_facts`: exit price and reason, from the closing event. -/
def paperPositionCloseFacts (p : SavedPosition) (event : Option TradeEvent) :
    Except PaperError (Option ℚ × String) :=
  match event with
  | none => .ok (none, "position_closed")
  | some e => do
    let positionId ← requireExactIdentityText p.id "PAPER_POSITION_ID"
    let instrumentId ← requireExactIdentityText p.row.document.identity.instrumentId
      "PAPER_POSITION_INSTRUMENT_ID"
    let routeFingerprint ← requireExactIdentityText p.row.document.identity.routeFingerprint
      "PAPER_POSITION_ROUTE_FINGERPRINT"
    require (e.eventType = .positionClosed ∧ e.tradeId = some positionId ∧
      e.instrumentId = instrumentId ∧ e.routeFingerprint = routeFingerprint)
      (⟨"PAPER_POSITION_CLOSE_EVENT_IDENTITY_MISMATCH"⟩)
    match e.position, e.fill with
    | some position, some fill =>
      require (position.id = positionId ∧ position.row.status = .closed ∧
        position.row.closedAt = p.row.closedAt ∧ some fill.filledAt = p.row.closedAt)
        (⟨"PAPER_POSITION_CLOSE_EVENT_FACTS_MISMATCH"⟩)
      return (some fill.price, exitReasonOf fill.role)
    | _, _ => .error ⟨"PAPER_POSITION_CLOSE_EVENT_FACTS_MISSING"⟩

/-- A position as the journal shows it. -/
structure JournalTrade where
  position : SavedPosition
  side : PaperSide
  qty : ℚ
  stop : Option ℚ
  target : Option ℚ
  exitPrice : Option ℚ
  exitReason : String
  pnlPoints : Option ℚ

/-- The level of the last protective order of a role. -/
def protectiveLevel (orders : List SavedOrder) (positionId : String) (role : PaperRole) :
    Option ℚ :=
  ((orders.filter fun o =>
    o.row.positionId.getD "" = positionId ∧ o.row.role = role).getLast?).map fun o => o.row.entry

/-- Exit facts are for closed positions. -/
def exitFacts (p : SavedPosition) (closeEvent : Option TradeEvent) :
    Except PaperError (Option ℚ × String) :=
  if p.row.status = .closed then paperPositionCloseFacts p closeEvent else .ok (none, "")

/-- `position_trade_from_storage`. -/
def positionTradeFromStorage (p : SavedPosition) (protectiveOrders : List SavedOrder)
    (closeEvent : Option TradeEvent) : Except PaperError JournalTrade := do
  let _ ← requireExactIdentityText p.row.document.identity.instrumentId "instrument_id"
  let _ ← requireExactIdentityText p.row.document.identity.routeFingerprint "route_fingerprint"
  let _ ← requireExactIdentityText p.row.document.identity.providerContractId
    "provider_contract_id"
  let facts ← exitFacts p closeEvent
  return {
    position := p
    side := p.row.document.side
    qty := |p.row.qty|
    stop := protectiveLevel protectiveOrders p.id .stop
    target := protectiveLevel protectiveOrders p.id .take
    exitPrice := facts.1
    exitReason := facts.2
    pnlPoints := if p.row.status = .closed then some p.row.realizedPnl else none }

structure JournalPayload where
  trades : List JournalTrade
  detachedOpenTrades : List JournalTrade
  positions : List SavedPosition
  orders : List SavedOrder
  fills : List FillRow

/-- The closing events of some positions; for none, nothing is read. -/
def readCloseEvents (t : PaperTables) (scope : JournalScope) (closedIds : List String) :
    Except PaperError (List TradeEvent) :=
  if closedIds = [] then .ok []
  else readPaperTradeEvents t scope.instrumentId scope.routeFingerprint closedIds closedIds.length

/-- One event more, filed under its position. -/
def indexCloseEvent (index : Dict String TradeEvent) (e : TradeEvent) :
    Except PaperError (Dict String TradeEvent) := do
  let positionId ← requireExactIdentityText (e.tradeId.getD "") "PAPER_EVENT_TRADE_ID"
  if positionId ∈ index.keys then
    .error ⟨"PAPER_POSITION_CLOSE_EVENT_DUPLICATE: " ++ positionId⟩
  else return index.insert positionId e

/-- The closing events of closed positions: one for each, and for no other. -/
def closeEventByPosition (t : PaperTables) (scope : JournalScope) (closedIds : List String) :
    Except PaperError (Dict String TradeEvent) := do
  let events ← readCloseEvents t scope closedIds
  let index ← events.foldlM indexCloseEvent .empty
  require ((∀ id ∈ index.keys, id ∈ closedIds) ∧ ∀ id ∈ closedIds, id ∈ index.keys)
    (⟨"PAPER_POSITION_CLOSE_EVENT_COVERAGE_MISMATCH"⟩)
  return index

/-- `paper_journal_payload`. -/
def paperJournalPayload (t : PaperTables) (scope : JournalScope) (limit : ℤ) (since : Time) :
    Except PaperError JournalPayload := do
  let _ ← requireExactIdentityText scope.instrumentId "PAPER_JOURNAL_INSTRUMENT_ID"
  let _ ← requireExactIdentityText scope.routeFingerprint "PAPER_JOURNAL_ROUTE_FINGERPRINT"
  let positions ← readPaperPositions t none (some (scope, clampLimit limit))
  let opened ← readPaperPositions t (some .open) none
  let detached := opened.filter fun p =>
    p.id ∉ positions.map SavedPosition.id ∧ |p.row.qty| > paperTolerance
  let openIds := (positions.filter fun p =>
    p.row.status = .open ∧ |p.row.qty| > paperTolerance).map SavedPosition.id
  let pending ← readPaperOrders t scope 500 (some .pending) none
  let protectiveOrders := pending.filter fun o => o.row.positionId.getD "" ∈ openIds
  let orders ← readPaperOrders t scope 500 none (some since)
  let fills ← readPaperFills t scope (clampLimit limit) since
  let closedIds := (positions.filter fun p => p.row.status = .closed).map SavedPosition.id
  let index ← closeEventByPosition t scope closedIds
  let trades ← positions.mapM fun p =>
    positionTradeFromStorage p protectiveOrders (index.get? p.id)
  let detachedOpenTrades ← detached.mapM fun p => positionTradeFromStorage p [] none
  return { trades, detachedOpenTrades, positions, orders, fills }

/-! ### Closing events -/

def isCloseOf (id : String) (e : TradeEvent) : Bool :=
  decide (e.eventType = .positionClosed) && decide (e.tradeId = some id)

/-- The facts of a closing event are those of the position. -/
structure CloseFacts (id : String) (row : PositionRow) (e : TradeEvent) : Prop where
  instrumentId_eq : e.instrumentId = row.document.identity.instrumentId
  routeFingerprint_eq : e.routeFingerprint = row.document.identity.routeFingerprint
  facts : ∃ position fill, e.position = some position ∧ e.fill = some fill ∧ position.id = id ∧
    position.row.status = .closed ∧ position.row.closedAt = row.closedAt ∧
    some fill.filledAt = row.closedAt

/-- Each closed position has its one closing event; no other position has any. -/
structure EventsSound (positions : Dict String PositionRow) (events : List TradeEvent) : Prop where
  opened : ∀ id row, positions.get? id = some row → row.status = .open →
    events.filter (isCloseOf id) = []
  closed : ∀ id row, positions.get? id = some row → row.status = .closed →
    ∃ e, events.filter (isCloseOf id) = [e] ∧ CloseFacts id row e
  known : ∀ e ∈ events, e.eventType = .positionClosed → ∃ id ∈ positions.keys, e.tradeId = some id

namespace EventsSound

variable {positions : Dict String PositionRow} {events : List TradeEvent}

theorem append (h : EventsSound positions events) {es : List TradeEvent}
    (hes : ∀ e ∈ es, e.eventType ≠ .positionClosed) : EventsSound positions (events ++ es) := by
  have hfilter : ∀ id, (events ++ es).filter (isCloseOf id) = events.filter (isCloseOf id) := by
    intro id
    have hnil : es.filter (isCloseOf id) = [] :=
      List.filter_eq_nil_iff.mpr fun e he => by simp [isCloseOf, hes e he]
    rw [List.filter_append, hnil, List.append_nil]
  refine ⟨fun id row hrow hopen => ?_, fun id row hrow hclosed => ?_, fun e he htype => ?_⟩
  · rw [hfilter]
    exact h.opened id row hrow hopen
  · rw [hfilter]
    exact h.closed id row hrow hclosed
  · rcases List.mem_append.mp he with he | he
    · exact h.known e he htype
    · exact absurd htype (hes e he)

/-- A position that nothing is stored for has no closing event. -/
theorem absent (h : EventsSound positions events) {id : String} (hid : positions.get? id = none) :
    events.filter (isCloseOf id) = [] := by
  rw [List.filter_eq_nil_iff]
  intro e he hclose
  simp only [isCloseOf, Bool.and_eq_true, decide_eq_true_eq] at hclose
  obtain ⟨j, hj, hej⟩ := h.known e he hclose.1
  cases (hclose.2.symm.trans hej)
  exact Dict.notMem_keys_iff.mpr hid hj

/-- An open row is written where there was an open one, or none. -/
theorem openRow (h : EventsSound positions events) (id : String) (row : PositionRow)
    (hopen : row.status = .open)
    (hold : ∀ old, positions.get? id = some old → old.status = .open) :
    EventsSound (positions.insert id row) events := by
  refine ⟨fun j r hr hro => ?_, fun j r hr hrc => ?_, fun e he htype => ?_⟩
  · by_cases hj : j = id
    · subst hj
      cases hget : positions.get? j with
      | none => exact h.absent hget
      | some old => exact h.opened j old hget (hold old hget)
    · rw [Dict.get?_insert_of_ne _ hj] at hr
      exact h.opened j r hr hro
  · rw [Dict.get?_insert] at hr
    split at hr
    · cases hr
      rw [hopen] at hrc
      exact absurd hrc (by simp)
    · exact h.closed j r hr hrc
  · obtain ⟨j, hj, hej⟩ := h.known e he htype
    exact ⟨j, Dict.mem_keys_insert.mpr (.inr hj), hej⟩

/-- A closed row is written over an open one, together with its event. -/
theorem closeRow (h : EventsSound positions events) {id : String} {old : PositionRow}
    (row : PositionRow) (e : TradeEvent) (hclosed : row.status = .closed) (hold : positions.get? id = some old)
    (hopen : old.status = .open) (he : isCloseOf id e) (hfacts : CloseFacts id row e) :
    EventsSound (positions.insert id row) (events ++ [e]) := by
  have htype := he
  simp only [isCloseOf, Bool.and_eq_true, decide_eq_true_eq] at htype
  have hother : ∀ j, j ≠ id → (events ++ [e]).filter (isCloseOf j) = events.filter (isCloseOf j) := by
    intro j hj
    have hnil : [e].filter (isCloseOf j) = [] :=
      List.filter_eq_nil_iff.mpr fun e' he' => by
        simp [List.mem_singleton.mp he', isCloseOf, htype.2, Ne.symm hj]
    rw [List.filter_append, hnil, List.append_nil]
  refine ⟨fun j r hr hro => ?_, fun j r hr hrc => ?_, fun e' he' htype' => ?_⟩
  · rw [Dict.get?_insert] at hr
    split at hr
    · cases hr
      rw [hclosed] at hro
      exact absurd hro (by simp)
    · rename_i hj
      rw [hother j hj]
      exact h.opened j r hr hro
  · rw [Dict.get?_insert] at hr
    split at hr
    · rename_i hj
      subst hj
      cases hr
      refine ⟨e, ?_, hfacts⟩
      rw [List.filter_append, h.opened j old hold hopen, List.nil_append,
        List.filter_singleton, he]
      rfl
    · rename_i hj
      rw [hother j hj]
      exact h.closed j r hr hrc
  · rcases List.mem_append.mp he' with he' | he'
    · obtain ⟨j, hj, hej⟩ := h.known e' he' htype'
      exact ⟨j, Dict.mem_keys_insert.mpr (.inr hj), hej⟩
    · obtain rfl := List.mem_singleton.mp he'
      exact ⟨id, Dict.mem_keys_insert.mpr (.inl rfl), htype.2⟩

end EventsSound

end AefTerminal
