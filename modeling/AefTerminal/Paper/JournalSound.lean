import AefTerminal.Paper.Journal

/-!
# The journal is readable

In every state a run of the repository reaches from empty tables, the positions are sound, each
closed one has its one closing event with matching facts, and `paper_journal_payload` does not
raise.

The runs are of all calls. One thing is asked of them: an applied order that is not an entry is
reduce-only, which order normalisation enforces before an order gets to the repository.

## Main results

* `JournalSound.step`: every call keeps the journal sound
* `JournalSound.payload_ok`: the payload of a sound journal can be built
* `journal_readable`: both, for every reachable state
-/

namespace AefTerminal

open Foundation

/-- Every row decodes, positions are sound and closings are recorded once. -/
structure JournalSound (t : PaperTables) : Prop where
  readable : Readable t
  positions : PositionsSound t.positions
  events : EventsSound t.positions t.events

/-- Orders that leave a position are reduce-only: what order normalisation rejects otherwise. -/
def PaperOrder.ExitsReduceOnly (o : PaperOrder) : Prop :=
  o.roleOrEntry ≠ .entry → o.reduceOnlyOrRole = true

/-- The condition on a run: applied orders are normalised. -/
def PaperAct.Normalised : PaperAct → Prop
  | .apply o _ => o.ExitsReduceOnly
  | _ => True

namespace JournalSound

variable {t t' : PaperTables}

theorem empty : JournalSound .empty := by
  refine ⟨.empty, ⟨fun _ _ h => ?_, fun _ _ _ _ h => ?_⟩, ⟨fun _ _ h => ?_, fun _ _ h => ?_, fun _ h => ?_⟩⟩ <;>
  simp [PaperTables.empty] at h

theorem edits (h : JournalSound t) (he : EditsOrders t t') : JournalSound t' := by
  obtain ⟨es, hes, hne⟩ := he.events
  refine ⟨h.readable.edits he, ?_, ?_⟩
  · rw [he.positions_eq]
    exact h.positions
  · rw [he.positions_eq, hes]
    exact h.events.append hne

variable {f : PaperFillCommand}

/-- A fill that opens a position is an entry, and its quantity was checked. -/
theorem opened_qty {position : Option SavedPosition}
    {tr : PaperPositionTransition} {positions : Dict String PositionRow}
    {current : SavedPosition} {closed : Option SavedPosition} (hf : f.Made)
    (hexit : f.order.ExitsReduceOnly) (hreduce : f.reduceOnly = true → position.isSome)
    (hmove : PositionMove f t.positions position tr positions)
    (hcurrent : positions.get? current.id = some current.row)
    (hcurrentId : current.id = tr.positionId)
    (hclosed : ClosedReadBack positions tr.closedPosition closed)
    (hqty : current.row.status = .open → f.reduceOnly = false → f.command.role = .entry →
      ∃ q, paperEntryProtectiveQty tr.signedDelta current.row.qty tr.previousQty closed.isSome =
        .ok q) :
    position = none → f.reduceOnly = false ∧ paperTolerance < |tr.signedDelta| := by
  rintro rfl
  have hentry : f.reduceOnly = false := by
    by_contra h
    simpa using hreduce (by simpa using h)
  have hrole : f.command.role = .entry := by
    obtain ⟨hdraft, -⟩ := paperOrderCommandPayload_eq_ok.mp hf.command
    have hr : f.command.role = f.order.roleOrEntry := by rw [hdraft]; rfl
    have hro : f.reduceOnly = f.order.reduceOnlyOrRole := by
      rw [PaperFillCommand.reduceOnly, hdraft]; rfl
    by_contra hne
    rw [hr] at hne
    rw [hro, hexit hne] at hentry
    exact absurd hentry (by simp)
  cases hmove with
  | opened hdelta hvalid hnew =>
    rw [hcurrentId, Dict.get?_insert_self] at hcurrent
    have hrow := Option.some.inj hcurrent
    obtain ⟨q, hq⟩ := hqty (by rw [← hrow]; rfl) hentry hrole
    refine ⟨hentry, ?_⟩
    obtain rfl : closed = none := hclosed
    by_contra hsmall
    simp [paperEntryProtectiveQty, paperTolerance_pos.le, not_lt.mp hsmall] at hq

/-- The events of a fill are those its move calls for. -/
theorem fill_events {position : Option SavedPosition}
    {tr : PaperPositionTransition} {positions : Dict String PositionRow}
    {current : SavedPosition} {closed : Option SavedPosition} {order : SavedOrder} {now : Time}
    (h : JournalSound t) (hlocked : lockedPaperFillPosition t f = .ok position)
    (hmove : PositionMove f t.positions position tr positions)
    (hcurrent : positions.get? current.id = some current.row)
    (hcurrentId : current.id = tr.positionId)
    (hclosed : ClosedReadBack positions tr.closedPosition closed)
    (horder : order.row.document.identity = f.identity) :
    EventsSound positions
      (t.events ++ fillEvents f order current (f.fillRow tr) closed now) := by
  -- a fill that leaves its position open records that it was filled
  have hfilled : ∀ {ps : Dict String PositionRow} {es : List TradeEvent}, EventsSound ps es →
      current.row.status = .open → EventsSound ps (es ++ [positionEvent
        (if current.row.status = .closed then .positionClosed else .positionFilled) f order current
          (f.fillRow tr) now]) := by
    intro ps es hes hopen
    exact hes.append (by simp [hopen, positionEvent])
  -- the closing event of the locked position has its facts
  have hfacts : ∀ {p c : SavedPosition} {pnl : ℚ}, Locked t f p → c.id = p.id →
      c.row = p.row.closedBy f pnl → ∀ tr, CloseFacts p.id (p.row.closedBy f pnl)
        (positionEvent .positionClosed f order c (f.fillRow tr) now) := by
    intro p c pnl hp hid hrow tr
    refine ⟨?_, ?_, c, f.fillRow tr, rfl, rfl, hid, by rw [hrow]; rfl, by rw [hrow], rfl⟩
    · exact (congrArg PaperIdentity.instrumentId horder).trans
        (congrArg PaperScope.instrumentId hp.scope_eq).symm
    · exact (congrArg PaperIdentity.routeFingerprint horder).trans
        (congrArg PaperScope.routeFingerprint hp.scope_eq).symm
  rw [hcurrentId] at hcurrent
  cases hmove with
  | opened hdelta hvalid hnew =>
    rw [Dict.get?_insert_self] at hcurrent
    obtain rfl : closed = none := hclosed
    have hopen : current.row.status = .open := by rw [← Option.some.inj hcurrent]; rfl
    refine hfilled (h.events.openRow _ _ rfl fun old hold => ?_) hopen
    exact absurd (Dict.mem_keys_of_get? hold) hnew
  | increased hdelta hsame hentry =>
    have hp := lockedPaperFillPosition_some hlocked
    rw [Dict.get?_insert_self] at hcurrent
    obtain rfl : closed = none := hclosed
    have hopen : current.row.status = .open := by rw [← Option.some.inj hcurrent]; exact hp.isOpen
    refine hfilled (h.events.openRow _ _ hp.isOpen fun old hold => ?_) hopen
    rw [hp.stored] at hold
    exact Option.some.inj hold ▸ hp.isOpen
  | reduced hdelta hagainst hleft hsign =>
    have hp := lockedPaperFillPosition_some hlocked
    rw [Dict.get?_insert_self] at hcurrent
    obtain rfl : closed = none := hclosed
    have hopen : current.row.status = .open := by rw [← Option.some.inj hcurrent]; exact hp.isOpen
    refine hfilled (h.events.openRow _ _ hp.isOpen fun old hold => ?_) hopen
    rw [hp.stored] at hold
    exact Option.some.inj hold ▸ hp.isOpen
  | @closed p qty delta side hdelta hne hagainst hleft =>
    have hp := lockedPaperFillPosition_some hlocked
    rw [Dict.get?_insert_self] at hcurrent
    obtain rfl : closed = none := hclosed
    have hrow := (Option.some.inj hcurrent).symm
    have hstatus : current.row.status = .closed := by rw [hrow]; rfl
    have hevents : fillEvents f order current (f.fillRow
        ⟨p.id, p.row.qty, side, qty, delta, p.pnl f delta, none, false⟩) none now =
        [positionEvent .positionClosed f order current (f.fillRow
          ⟨p.id, p.row.qty, side, qty, delta, p.pnl f delta, none, false⟩) now] := by
      simp [fillEvents, hstatus]
    rw [hevents]
    refine h.events.closeRow _ _ rfl hp.stored hp.isOpen ?_ (hfacts hp hcurrentId hrow _)
    simp [isCloseOf, positionEvent, hcurrentId]
  | @reversed p qty delta side hdelta hne hagainst hleft hsign hvalid hnew =>
    have hp := lockedPaperFillPosition_some hlocked
    rw [Dict.get?_insert_self] at hcurrent
    have hopen : current.row.status = .open := by rw [← Option.some.inj hcurrent]; rfl
    obtain ⟨row, rfl, hrow⟩ := hclosed
    have hid : p.id ≠ reversalPositionId f := by
      rintro heq
      exact hnew (Dict.mem_keys_insert.mpr (.inl heq.symm))
    rw [Dict.get?_insert_of_ne _ hid, Dict.get?_insert_self] at hrow
    cases hrow
    have hclose := h.events.closeRow (p.row.closedBy f (p.pnl f delta))
      (positionEvent .positionClosed f order ⟨p.id, p.row.closedBy f (p.pnl f delta)⟩
        (f.fillRow ⟨reversalPositionId f, p.row.qty, side, qty, delta, p.pnl f delta, some p, true⟩)
        now) rfl hp.stored hp.isOpen (by simp [isCloseOf, positionEvent])
      (hfacts (c := ⟨p.id, p.row.closedBy f (p.pnl f delta)⟩) hp rfl rfl _)
    have hboth := hfilled (hclose.openRow (reversalPositionId f)
      (openedPosition f (p.row.qty + delta) f.price) rfl fun old hold =>
        absurd (Dict.mem_keys_of_get? hold) hnew) hopen
    simpa [fillEvents] using hboth

/-- **The application keeps the journal sound.** -/
theorem applied {now : Time} {result : PaperFillResult} (hf : f.Made)
    (hexit : f.order.ExitsReduceOnly) (h : JournalSound t) (ha : AppliedFill t f now result t') :
    JournalSound t' := by
  have hreadable := h.readable.applied hf ha
  cases ha with
  | replayed => exact h
  | cancelled _ _ _ hevents => exact ⟨hreadable, h.positions, h.events.append hevents⟩
  | filled hreserved hlocked hreduce hmove hdecodes hfirst hcurrent hcurrentId _ hclosed hqty =>
    refine ⟨hreadable, ?_, ?_⟩
    · exact hmove.sound h.positions hlocked
        (opened_qty hf hexit hreduce hmove hcurrent hcurrentId hclosed hqty)
    · exact h.fill_events hlocked hmove hcurrent hcurrentId hclosed hf.identity_eq

/-- **Every call keeps the journal sound.** -/
theorem step {a : PaperAct} (ha : a.Normalised) (h : JournalSound t) (hstep : PaperStep t a t') :
    JournalSound t' := by
  obtain rfl := hstep
  by_cases happly : ∃ o now, a = .apply o now
  · obtain ⟨o, now, rfl⟩ := happly
    rcases perform_apply t o now with hsame | ⟨f, result, rfl, hf, -, happlied⟩
    · rw [hsame]
      exact h
    · exact h.applied hf ha happlied
  · push Not at happly
    exact h.edits (perform_edits happly)

theorem run {as : List PaperAct} (hrun : Run (Guarded (fun _ a => a.Normalised) PaperStep) t as t')
    (h : JournalSound t) : JournalSound t' :=
  hrun.invariant (fun _ _ _ hs hstep => step hstep.1 hs hstep.2) h

/-! ### Reading -/

/-- What a page of positions holds. -/
structure PositionPage (t : PaperTables) (status : Option PaperPositionStatus)
    (page : Option (JournalScope × ℤ)) (ps : List SavedPosition) : Prop where
  stored : ∀ p ∈ ps, t.positions.get? p.id = some p.row
  status_eq : ∀ p ∈ ps, ∀ s, status = some s → p.row.status = s
  admitted : ∀ p ∈ ps, ∀ scope limit, page = some (scope, limit) →
    scope.admits p.row.document.identity
  nodup : (ps.map SavedPosition.id).Nodup
  length_le : ∀ scope limit, page = some (scope, limit) → ps.length ≤ 1000

theorem clampLimit_le (limit : ℤ) : clampLimit limit ≤ 1000 := by
  unfold clampLimit
  omega

theorem isInPage_iff {status : Option PaperPositionStatus} {page : Option (JournalScope × ℤ)}
    {id : String} {row : PositionRow} : isInPage status page id row ↔
      (∀ s, status = some s → row.status = s) ∧
        ∀ scope limit, page = some (scope, limit) → scope.admits row.document.identity := by
  unfold isInPage
  rcases status with _ | s <;> rcases page with _ | ⟨scope, limit⟩ <;> simp

theorem limitPage_sublist {page : Option (JournalScope × ℤ)} {rows : List SavedPosition} :
    (limitPage page rows).Sublist rows := by
  unfold limitPage
  split
  · exact List.take_sublist ..
  · exact .refl _

/-- Positions can be read. -/
theorem readPaperPositions_ok (h : JournalSound t) (status : Option PaperPositionStatus)
    (page : Option (JournalScope × ℤ)) :
    ∃ ps, readPaperPositions t status page = .ok ps ∧ PositionPage t status page ps := by
  unfold readPaperPositions
  generalize hrows : ((t.positions.select (isInPage status page)).map fun e =>
    SavedPosition.mk e.1 e.2).insertionSort
      (fun a b => b.row.updatedAt ≤ a.row.updatedAt) = rows
  have hmem : ∀ p ∈ limitPage page rows,
      t.positions.get? p.id = some p.row ∧ isInPage status page p.id p.row := by
    intro p hp
    have hp := limitPage_sublist.subset hp
    rw [← hrows] at hp
    obtain ⟨⟨id, row⟩, he, rfl⟩ := List.mem_map.mp ((List.mem_insertionSort _).mp hp)
    exact Dict.mem_select.mp he
  have hnodup : (rows.map SavedPosition.id).Nodup := by
    rw [← hrows]
    refine ((List.perm_insertionSort _ _).map _).nodup_iff.mpr ?_
    rw [List.map_map]
    exact t.positions.nodup_keys.sublist (List.filter_sublist.map _)
  refine ⟨(limitPage page rows).map id, mapM_eq_ok fun p hp => ?_, ?_⟩
  · exact paperPositionFromRow_eq_ok.mpr ⟨rfl, h.readable.positions p.id p.row (hmem p hp).1⟩
  rw [List.map_id]
  refine ⟨fun p hp => (hmem p hp).1, fun p hp => (isInPage_iff.mp (hmem p hp).2).1,
    fun p hp => (isInPage_iff.mp (hmem p hp).2).2,
    hnodup.sublist (limitPage_sublist.map _), ?_⟩
  rintro scope limit rfl
  exact (List.length_take_le ..).trans (clampLimit_le limit)

theorem readPaperOrders_ok (h : JournalSound t) (scope : JournalScope) (limit : ℤ)
    (status : Option PaperOrderStatus) (since : Option Time) :
    ∃ os, readPaperOrders t scope limit status since = .ok os := by
  unfold readPaperOrders
  refine exists_mapM_eq_ok fun o ho => ⟨o, ?_⟩
  obtain ⟨⟨id, row⟩, he, rfl⟩ :=
    List.mem_map.mp ((List.mem_insertionSort _).mp (List.mem_of_mem_take ho))
  exact (h.readable.orders id row (Dict.mem_select.mp he).1).fromRow

theorem readPaperFills_ok (h : JournalSound t) (scope : JournalScope) (limit : ℤ) (since : Time) :
    ∃ fs, readPaperFills t scope limit since = .ok fs := by
  unfold readPaperFills
  refine exists_mapM_eq_ok fun r hr => ⟨r, ?_⟩
  have hmem := (List.mem_insertionSort _).mp (List.mem_of_mem_take hr)
  exact paperFillFromRow_eq_ok.mpr ⟨rfl, h.readable.fills r (List.mem_of_mem_filter hmem)⟩

/-- Filing events under distinct positions. -/
theorem indexCloseEvents_ok {es : List TradeEvent} (index : Dict String TradeEvent)
    (hid : ∀ e ∈ es, ∃ id, e.tradeId = some id ∧ id ≠ "" ∧ id ∉ index.keys)
    (hnodup : (es.map fun e => e.tradeId.getD "").Nodup) :
    ∃ index', es.foldlM indexCloseEvent index = .ok index' ∧
      (∀ id, id ∈ index'.keys ↔ id ∈ index.keys ∨ ∃ e ∈ es, e.tradeId = some id) ∧
      (∀ id ∈ index.keys, index'.get? id = index.get? id) ∧
      ∀ e ∈ es, ∀ id, e.tradeId = some id → index'.get? id = some e := by
  induction es generalizing index with
  | nil => exact ⟨index, rfl, by simp, fun _ _ => rfl, by simp⟩
  | cons e es ih =>
    obtain ⟨id, hid₀, hne, hnew⟩ := hid e (List.mem_cons_self ..)
    obtain ⟨hfresh, hnodup'⟩ := List.nodup_cons.mp hnodup
    have hstep : indexCloseEvent index e = .ok (index.insert id e) := by
      simp [indexCloseEvent, hid₀, requireExactIdentityText, hne, hnew, bind, Except.bind, pure,
        Except.pure]
    -- a later event of the same position would repeat its id
    have hother : ∀ e' ∈ es, ∀ j, e'.tradeId = some j → j ≠ id := by
      rintro e' he' j hj rfl
      refine hfresh (List.mem_map.mpr ⟨e', he', ?_⟩)
      simp only [hj, hid₀]
    obtain ⟨index', hfold, hkeys, hold, hget⟩ := ih (index.insert id e) (by
      intro e' he'
      obtain ⟨j, hj, hjne, hjnew⟩ := hid e' (List.mem_cons_of_mem _ he')
      refine ⟨j, hj, hjne, fun hmem => ?_⟩
      rcases Dict.mem_keys_insert.mp hmem with heq | hmem
      · exact hother e' he' j hj heq
      · exact hjnew hmem) hnodup'
    refine ⟨index', ?_, fun j => ?_, fun j hj => ?_, ?_⟩
    · rw [List.foldlM_cons, hstep]
      exact hfold
    · rw [hkeys, Dict.mem_keys_insert]
      constructor
      · rintro ((rfl | hj) | ⟨e', he', hj⟩)
        · exact .inr ⟨e, List.mem_cons_self .., hid₀⟩
        · exact .inl hj
        · exact .inr ⟨e', List.mem_cons_of_mem _ he', hj⟩
      · rintro (hj | ⟨e', he', hj⟩)
        · exact .inl (.inr hj)
        · rcases List.mem_cons.mp he' with rfl | he'
          · exact .inl (.inl (Option.some.inj (hj.symm.trans hid₀)))
          · exact .inr ⟨e', he', hj⟩
    · have hjne : j ≠ id := by
        rintro rfl
        exact hnew hj
      rw [hold j (Dict.mem_keys_insert.mpr (.inr hj)), Dict.get?_insert_of_ne _ hjne]
    · rintro e' he' j hj
      rcases List.mem_cons.mp he' with rfl | he'
      · obtain rfl := Option.some.inj (hj.symm.trans hid₀)
        rw [hold j (Dict.mem_keys_insert.mpr (.inl rfl)), Dict.get?_insert_self]
      · exact hget e' he' j hj

variable {scope : JournalScope}

theorem JournalScope.admits_iff {i : PaperIdentity} : scope.admits i ↔
    i.instrumentId = scope.instrumentId ∧ i.routeFingerprint = scope.routeFingerprint ∧
      i.paperContract.scopeKind = scope.scopeKind := by
  simp [JournalScope.admits, and_assoc]

variable {e : TradeEvent}

theorem isCloseOf_iff {id : String} :
    isCloseOf id e ↔ e.eventType = .positionClosed ∧ e.tradeId = some id := by
  simp [isCloseOf]

theorem isCloseEventOf_iff {instrumentId routeFingerprint : String} {ids : List String}
    : isCloseEventOf instrumentId routeFingerprint ids e ↔
      e.instrumentId = instrumentId ∧ e.routeFingerprint = routeFingerprint ∧
        e.eventType = .positionClosed ∧ ∃ id ∈ ids, e.tradeId = some id := by
  unfold isCloseEventOf
  cases e.tradeId with
  | none => simp
  | some id =>
    simp only [Bool.and_eq_true, decide_eq_true_eq, Option.some.injEq]
    constructor
    · rintro ⟨⟨⟨hinst, hroute⟩, hid⟩, htype⟩
      exact ⟨hinst, hroute, htype, id, hid, rfl⟩
    · rintro ⟨hinst, hroute, htype, _, hid, rfl⟩
      exact ⟨⟨⟨hinst, hroute⟩, hid⟩, htype⟩

/-- Closed positions of a scope, as a page lists them. -/
structure ClosedPage (t : PaperTables) (scope : JournalScope) (ps : List SavedPosition) :
    Prop where
  stored : ∀ p ∈ ps, t.positions.get? p.id = some p.row
  closed : ∀ p ∈ ps, p.row.status = .closed
  admitted : ∀ p ∈ ps, scope.admits p.row.document.identity
  nodup : (ps.map SavedPosition.id).Nodup
  length_le : ps.length ≤ 1000

variable {p : SavedPosition} {ps : List SavedPosition}

/-- The one closing event of a listed position is among those the query finds. -/
theorem ClosedPage.event
    (h : EventsSound t.positions t.events) (hps : ClosedPage t scope ps) (hp : p ∈ ps) :
    ∃ e, t.events.filter (isCloseOf p.id) = [e] ∧ CloseFacts p.id p.row e ∧ isCloseOf p.id e ∧
      isCloseEventOf scope.instrumentId scope.routeFingerprint (ps.map SavedPosition.id) e := by
  obtain ⟨e, he, hfacts⟩ := h.closed p.id p.row (hps.stored p hp) (hps.closed p hp)
  have hmem : e ∈ t.events.filter (isCloseOf p.id) := he ▸ List.mem_singleton.mpr rfl
  have hclose := (List.mem_filter.mp hmem).2
  obtain ⟨htype, htrade⟩ := isCloseOf_iff.mp hclose
  obtain ⟨hinst, hroute, -⟩ := JournalScope.admits_iff.mp (hps.admitted p hp)
  exact ⟨e, he, hfacts, hclose, isCloseEventOf_iff.mpr ⟨hfacts.instrumentId_eq.trans hinst,
    hfacts.routeFingerprint_eq.trans hroute, htype, p.id, List.mem_map_of_mem hp, htrade⟩⟩

/-- The query for the closing events of a page finds one for each position, and no other. -/
theorem ClosedPage.perm (h : EventsSound t.positions t.events) (hps : ClosedPage t scope ps) :
    ((t.events.filter (isCloseEventOf scope.instrumentId scope.routeFingerprint
      (ps.map SavedPosition.id))).map fun e => e.tradeId.getD "").Perm
        (ps.map SavedPosition.id) := by
  generalize hfound : t.events.filter (isCloseEventOf scope.instrumentId scope.routeFingerprint
    (ps.map SavedPosition.id)) = found
  have hname : ∀ e ∈ found, ∃ id ∈ ps.map SavedPosition.id, e.tradeId = some id := by
    intro e he
    rw [← hfound] at he
    exact (isCloseEventOf_iff.mp (List.mem_filter.mp he).2).2.2.2
  refine List.perm_iff_count.mpr fun id => ?_
  by_cases hid : id ∈ ps.map SavedPosition.id
  · obtain ⟨p, hp, rfl⟩ := List.mem_map.mp hid
    obtain ⟨e, he, -, -, hquery⟩ := hps.event h hp
    -- all closing events of the position are found, and there is one
    have hall : found.filter (fun e => e.tradeId.getD "" == p.id) =
        t.events.filter (isCloseOf p.id) := by
      rw [← hfound, List.filter_filter]
      refine List.filter_congr fun e' he' => ?_
      rw [Bool.eq_iff_iff, Bool.and_eq_true, beq_iff_eq]
      constructor
      · rintro ⟨hnamed, hq⟩
        obtain ⟨-, -, htype, j, -, hj⟩ := isCloseEventOf_iff.mp hq
        rw [hj, Option.getD_some] at hnamed
        exact isCloseOf_iff.mpr ⟨htype, hnamed ▸ hj⟩
      · rintro hclose
        have hmem : e' ∈ t.events.filter (isCloseOf p.id) := List.mem_filter.mpr ⟨he', hclose⟩
        rw [he, List.mem_singleton] at hmem
        rw [hmem]
        exact ⟨by rw [(isCloseOf_iff.mp (hmem ▸ hclose)).2]; rfl, hquery⟩
    rw [List.count_eq_one_of_mem hps.nodup hid, List.count_eq_countP, List.countP_map,
      List.countP_eq_length_filter]
    exact (congrArg List.length hall).trans (by rw [he]; rfl)
  · rw [List.count_eq_zero_of_not_mem hid, List.count_eq_zero]
    intro hmem
    obtain ⟨e, he, hname'⟩ := List.mem_map.mp hmem
    obtain ⟨j, hj, hej⟩ := hname e he
    rw [hej, Option.getD_some] at hname'
    exact hid (hname' ▸ hj)

/-- The closing events of a page can be read and filed, each under its position. -/
theorem closeEventByPosition_ok
    (h : JournalSound t) (hps : ClosedPage t scope ps) (hinst : scope.instrumentId ≠ "")
    (hroute : scope.routeFingerprint ≠ "") :
    ∃ index, closeEventByPosition t scope (ps.map SavedPosition.id) = .ok index ∧
      ∀ p ∈ ps, ∃ e, index.get? p.id = some e ∧ CloseFacts p.id p.row e ∧ isCloseOf p.id e := by
  have hperm := hps.perm h.events
  generalize hquery : isCloseEventOf scope.instrumentId scope.routeFingerprint
    (ps.map SavedPosition.id) = query at hperm
  generalize hsorted : (t.events.filter query).insertionSort
    (fun a b => b.createdAt ≤ a.createdAt) = sorted
  have hsortedPerm : sorted.Perm (t.events.filter query) := hsorted ▸ List.perm_insertionSort ..
  have hnames : (sorted.map fun e => e.tradeId.getD "").Perm (ps.map SavedPosition.id) :=
    (hsortedPerm.map _).trans hperm
  -- the limit is the number of positions, which is the number of events
  have hread : readCloseEvents t scope (ps.map SavedPosition.id) = .ok sorted := by
    have hlength : sorted.length = ps.length := by simpa using hnames.length_eq
    unfold readCloseEvents
    split
    · rename_i hnil
      have hps₀ : ps.length = 0 := by simpa using congrArg List.length hnil
      rw [List.length_eq_zero_iff.mp (hlength.trans hps₀)]
    · rename_i hne
      have hpos : 0 < ps.length := by
        refine List.length_pos_iff.mpr ?_
        rintro rfl
        exact hne rfl
      have htake : sorted.take (clampLimit (ps.map SavedPosition.id).length) = sorted := by
        refine List.take_of_length_le ?_
        have hle := hps.length_le
        rw [hlength, List.length_map, clampLimit]
        omega
      unfold readPaperTradeEvents
      rw [hquery]
      dsimp only
      rw [hsorted, htake]
      refine (mapM_eq_ok (g := id) fun e he => ?_).trans (by rw [List.map_id])
      have hq := (List.mem_filter.mp (hsortedPerm.mem_iff.mp he)).2
      rw [← hquery] at hq
      obtain ⟨hi, hr, -⟩ := isCloseEventOf_iff.mp hq
      simp [requireExactIdentityText, hi, hr, hinst, hroute, bind, Except.bind, pure, Except.pure]
  have hfind : ∀ p ∈ ps, ∃ e ∈ sorted, e.tradeId = some p.id ∧ CloseFacts p.id p.row e ∧
      isCloseOf p.id e := by
    intro p hp
    obtain ⟨e, he, hfacts, hclose, hq⟩ := hps.event h.events hp
    have hmem : e ∈ t.events.filter (isCloseOf p.id) := he ▸ List.mem_singleton.mpr rfl
    rw [hquery] at hq
    exact ⟨e, hsortedPerm.mem_iff.mpr (List.mem_filter.mpr ⟨(List.mem_filter.mp hmem).1, hq⟩),
      (isCloseOf_iff.mp hclose).2, hfacts, hclose⟩
  have hnamed : ∀ e ∈ sorted, ∃ p ∈ ps, e.tradeId = some p.id := by
    intro e he
    have hq := (List.mem_filter.mp (hsortedPerm.mem_iff.mp he)).2
    rw [← hquery] at hq
    obtain ⟨-, -, -, id, hid, hej⟩ := isCloseEventOf_iff.mp hq
    obtain ⟨p, hp, rfl⟩ := List.mem_map.mp hid
    exact ⟨p, hp, hej⟩
  obtain ⟨index, hfold, hkeys, -, hget⟩ := indexCloseEvents_ok .empty (by
    intro e he
    obtain ⟨p, hp, hej⟩ := hnamed e he
    exact ⟨p.id, hej, (h.readable.positions _ _ (hps.stored p hp)).1, by simp⟩)
    (hnames.nodup_iff.mpr hps.nodup)
  refine ⟨index, ?_, fun p hp => ?_⟩
  · have hcover : (∀ id ∈ index.keys, id ∈ ps.map SavedPosition.id) ∧
        ∀ id ∈ ps.map SavedPosition.id, id ∈ index.keys := by
      constructor
      · intro id hid
        rcases (hkeys id).mp hid with hid | ⟨e, he, hej⟩
        · exact absurd hid (by simp)
        · obtain ⟨p, hp, hep⟩ := hnamed e he
          cases (hej.symm.trans hep)
          exact List.mem_map_of_mem hp
      · intro id hid
        obtain ⟨p, hp, rfl⟩ := List.mem_map.mp hid
        obtain ⟨e, he, hej, -⟩ := hfind p hp
        exact (hkeys p.id).mpr (.inr ⟨e, he, hej⟩)
    unfold closeEventByPosition
    rw [hread]
    refine bind_eq_ok.mpr ⟨sorted, rfl, bind_eq_ok.mpr ⟨index, hfold, bind_eq_ok.mpr
      ⟨⟨⟩, require_eq_ok.mpr hcover, rfl⟩⟩⟩
  · obtain ⟨e, he, hej, hfacts, hclose⟩ := hfind p hp
    exact ⟨e, hget e he p.id hej, hfacts, hclose⟩

/-- Matching facts pass the checks of the reader. -/
theorem CloseFacts.ok (hid : p.id ≠ "") (hvalid : p.row.document.identity.Valid)
    (hfacts : CloseFacts p.id p.row e) (hclose : isCloseOf p.id e) :
    ∃ facts, paperPositionCloseFacts p (some e) = .ok facts := by
  obtain ⟨htype, htrade⟩ := isCloseOf_iff.mp hclose
  obtain ⟨position, fill, hposition, hfill, hpid, hstatus, hat, hfilled⟩ := hfacts.facts
  refine ⟨(some fill.price, exitReasonOf fill.role), ?_⟩
  simp only [paperPositionCloseFacts, bind_eq_ok, requireExactIdentityText_eq_ok, require_eq_ok]
  refine ⟨_, ⟨hid, rfl⟩, _, ⟨hvalid.instrumentId_ne, rfl⟩, _, ⟨hvalid.routeFingerprint_ne, rfl⟩, ⟨⟩,
    ⟨htype, htrade, hfacts.instrumentId_eq, hfacts.routeFingerprint_eq⟩, ?_⟩
  rw [hposition, hfill]
  exact bind_eq_ok.mpr ⟨⟨⟩, require_eq_ok.mpr ⟨hpid, hstatus, hat, hfilled⟩, rfl⟩

/-- A position can be shown, a closed one with its closing event. -/
theorem positionTradeFromStorage_ok {orders : List SavedOrder}
    {event : Option TradeEvent} (hid : p.id ≠ "") (hvalid : p.row.document.identity.Valid)
    (hevent : p.row.status = .closed → ∀ e, event = some e →
      CloseFacts p.id p.row e ∧ isCloseOf p.id e) :
    ∃ trade, positionTradeFromStorage p orders event = .ok trade := by
  have hinst := hvalid.instrumentId_ne
  have hroute := hvalid.routeFingerprint_ne
  have hcontract : p.row.document.identity.providerContractId ≠ "" := by
    rw [hvalid.providerContractId_eq]
    exact p.row.document.identity.paperContract.providerContractId_ne
  have hfacts : ∃ facts, exitFacts p event = .ok facts := by
    unfold exitFacts
    split
    · rename_i hclosed
      cases event with
      | none => exact ⟨_, rfl⟩
      | some e =>
        obtain ⟨hf, hclose⟩ := hevent hclosed e rfl
        exact CloseFacts.ok hid hvalid hf hclose
    · exact ⟨_, rfl⟩
  obtain ⟨facts, hfacts⟩ := hfacts
  simp only [positionTradeFromStorage, bind_eq_ok, requireExactIdentityText_eq_ok]
  exact ⟨_, _, ⟨hinst, rfl⟩, _, ⟨hroute, rfl⟩, _, ⟨hcontract, rfl⟩, facts, hfacts, rfl⟩

/-- **The payload of a sound journal can be built.** -/
theorem payload_ok (h : JournalSound t) (hinst : scope.instrumentId ≠ "")
    (hroute : scope.routeFingerprint ≠ "") (limit : ℤ) (since : Time) :
    ∃ payload, paperJournalPayload t scope limit since = .ok payload := by
  obtain ⟨ps, hps, hpage⟩ := h.readPaperPositions_ok none (some (scope, clampLimit limit))
  obtain ⟨opened, hopened, hopenedPage⟩ := h.readPaperPositions_ok (some .open) none
  obtain ⟨pending, hpending⟩ := h.readPaperOrders_ok scope 500 (some .pending) none
  obtain ⟨orders, horders⟩ := h.readPaperOrders_ok scope 500 none (some since)
  obtain ⟨fills, hfills⟩ := h.readPaperFills_ok scope (clampLimit limit) since
  have hclosedPage : ClosedPage t scope (ps.filter fun p => p.row.status = .closed) := by
    refine ⟨fun p hp => hpage.stored p (List.mem_of_mem_filter hp), fun p hp => ?_,
      fun p hp => hpage.admitted p (List.mem_of_mem_filter hp) scope _ rfl,
      hpage.nodup.sublist (List.filter_sublist.map _),
      (List.length_filter_le ..).trans (hpage.length_le scope _ rfl)⟩
    simpa using (List.mem_filter.mp hp).2
  obtain ⟨index, hindex, hget⟩ := h.closeEventByPosition_ok hclosedPage hinst hroute
  generalize hprotective : pending.filter (fun o => o.row.positionId.getD "" ∈
    (ps.filter fun p => p.row.status = .open ∧ |p.row.qty| > paperTolerance).map
      SavedPosition.id) = protectiveOrders
  obtain ⟨trades, htrades⟩ := exists_mapM_eq_ok (l := ps)
    (f := fun p => positionTradeFromStorage p protectiveOrders (index.get? p.id)) (by
      intro p hp
      obtain ⟨hid, hvalid⟩ := h.readable.positions p.id p.row (hpage.stored p hp)
      refine positionTradeFromStorage_ok hid hvalid fun hclosed e he => ?_
      obtain ⟨e', he', hfacts, hclose⟩ := hget p (List.mem_filter.mpr ⟨hp, by simpa using hclosed⟩)
      cases (he.symm.trans he')
      exact ⟨hfacts, hclose⟩)
  obtain ⟨detached, hdetached⟩ := exists_mapM_eq_ok
    (l := opened.filter fun p =>
      p.id ∉ ps.map SavedPosition.id ∧ |p.row.qty| > paperTolerance)
    (f := fun p => positionTradeFromStorage p [] none) (by
      intro p hp
      obtain ⟨hid, hvalid⟩ := h.readable.positions p.id p.row
        (hopenedPage.stored p (List.mem_of_mem_filter hp))
      exact positionTradeFromStorage_ok hid hvalid fun _ _ he => by simp at he)
  refine ⟨⟨trades, detached, ps, orders, fills⟩, ?_⟩
  unfold paperJournalPayload
  simp only [bind_eq_ok, requireExactIdentityText_eq_ok]
  refine ⟨_, ⟨hinst, rfl⟩, _, ⟨hroute, rfl⟩, ps, hps, opened, hopened, pending, hpending, orders,
    horders, fills, hfills, index, hindex, trades, ?_, detached, hdetached, rfl⟩
  rw [hprotective]
  exact htrades

end JournalSound

/-- A reduce-only application, whatever its outcome, leaves every position no larger and on its
side, and opens none. -/
theorem perform_reduceOnly {t : PaperTables} {o : PaperOrder} {now : Time} {f : PaperFillCommand}
    (hf : paperFillCommand o now = .ok f) (hreduce : f.reduceOnly = true) {id : String}
    {row' : PositionRow}
    (hrow' : (t.perform (.apply o now)).positions.get? id = some row') :
    ∃ row, t.positions.get? id = some row ∧ |row'.qty| ≤ |row.qty| ∧ 0 ≤ row.qty * row'.qty ∧
      (row'.status = .open → row.status = .open) := by
  have hsame : t.positions.get? id = some row' → ∃ row, t.positions.get? id = some row ∧
      |row'.qty| ≤ |row.qty| ∧ 0 ≤ row.qty * row'.qty ∧
      (row'.status = .open → row.status = .open) :=
    fun h => ⟨row', h, le_rfl, mul_self_nonneg _, fun h => h⟩
  rcases perform_apply t o now with hnone | ⟨g, result, -, -, hg, happlied⟩
  · rw [hnone] at hrow'
    exact hsame hrow'
  cases (hf.symm.trans hg)
  generalize t.perform (.apply o now) = t' at happlied hrow'
  cases happlied with
  | replayed => exact hsame hrow'
  | cancelled => exact hsame hrow'
  | filled _ hlocked hreduce' hmove =>
    exact hmove.reduceOnly hreduce hlocked (hreduce' hreduce) id row' hrow'

end AefTerminal
