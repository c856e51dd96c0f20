import AefTerminal.Paper.FillOutcome
import AefTerminal.Foundation.Run

/-!
# The paper repository as a system

The repository calls that write the journal tables, as actions on `PaperTables`. A call is one
transaction: it commits its tables or, when it raises, leaves them as they were.

Only a filled application writes positions and fills. Every other call changes orders, and
journal events that close no position.

## Main definitions

* `PaperAct`, `PaperTables.perform`, `PaperStep`
* `OrderEdit`: a write to an order row by any call but the filled application

## Main results

* `perform_edits`: what a call other than the application does
* `perform_apply`: the application left the tables alone, or did what `AppliedFill` says
-/

namespace AefTerminal

open Foundation

/-- A repository call with its arguments and the clock it reads. -/
inductive PaperAct
  | upsert (o : PaperOrder) (now : Time)
  | updateIfPending (o : PaperOrder) (instrumentId routeFingerprint : String) (now : Time)
  | cancel (id : String) (cancelledAt : Option Time) (filter : PaperScopeFilter) (now : Time)
  | reject (id : String) (rejectedAt : Option Time) (filter : PaperScopeFilter)
      (code reason : String) (now : Time)
  | cancelProtective (positionId : String) (filter : PaperScopeFilter) (now : Time)
  | updateLevels (positionId : String) (filter : PaperScopeFilter) (stop target : Option ℚ)
      (indicatorSource parentOrderId : Option String) (now : Time)
  | apply (o : PaperOrder) (now : Time)

/-- A transaction that raises is rolled back. -/
def PaperTables.commit {α : Type} (t : PaperTables) (r : Except PaperError (α × PaperTables)) :
    PaperTables :=
  match r with
  | .ok (_, t') => t'
  | .error _ => t

def PaperTables.perform (t : PaperTables) : PaperAct → PaperTables
  | .upsert o now => t.commit (upsertPaperOrder t o now)
  | .updateIfPending o instrumentId routeFingerprint now =>
    t.commit (updatePaperOrderIfPending t o instrumentId routeFingerprint now)
  | .cancel id cancelledAt filter now =>
    t.commit (cancelPaperOrderIfPending t id cancelledAt filter now)
  | .reject id rejectedAt filter code reason now =>
    t.commit (rejectPaperOrderExecutionIfPending t id rejectedAt filter code reason now)
  | .cancelProtective positionId filter now => (cancelPaperProtectiveOrders t positionId filter now).2
  | .updateLevels positionId filter stop target indicatorSource parentOrderId now =>
    (updatePaperProtectiveLevels t positionId filter stop target indicatorSource parentOrderId now).2
  | .apply o now => t.commit (applyFilledPaperOrder t o now)

/-- One call. -/
def PaperStep (t : PaperTables) (a : PaperAct) (t' : PaperTables) : Prop := t.perform a = t'

variable {now : Time} {t : PaperTables}

variable {o : PaperOrder}

theorem PaperTables.perform_of_apply :
    t.perform (.apply o now) = t.commit (applyFilledPaperOrder t o now) := rfl

theorem PaperTables.commit_induct {α : Type}
    {r : Except PaperError (α × PaperTables)} {P : PaperTables → Prop} (hrollback : P t)
    (hcommit : ∀ a t', r = .ok (a, t') → P t') : P (t.commit r) := by
  match r with
  | .error _ => exact hrollback
  | .ok (a, t') => exact hcommit a t' rfl

/-! ### Calls that fill nothing -/

/-- A write to an order row by a call other than the application. An edit keeps a pending row
pending and decodable; what else it does to the stored facts is up to its caller. -/
inductive OrderEdit (id : String) : Option OrderRow → Option OrderRow → Prop
  | write {old new : Option OrderRow} (h : OrderRewrite id old new) : OrderEdit id old new
  | edited {row row' : OrderRow} (hpending : row.status = .pending)
      (hpending' : row'.status = .pending) (hdecodes : row.Decodes id → row'.Decodes id) :
      OrderEdit id (some row) (some row')

namespace OrderEdit

variable {id : String} {old new : Option OrderRow} {row : OrderRow}

theorem pending (h : OrderEdit id (some row) new) : row.status = .pending := by
  cases h with
  | write h => exact h.pending
  | edited hpending => exact hpending

theorem not_filled (h : OrderEdit id old new) : ∃ row, new = some row ∧ row.status ≠ .filled := by
  cases h with
  | write h => exact h.not_filled
  | edited _ hpending' => exact ⟨_, rfl, by simp [hpending']⟩

theorem decodes (h : OrderEdit id old new) (hold : ∀ row, old = some row → row.Decodes id) :
    ∀ row, new = some row → row.Decodes id := by
  cases h with
  | write h => exact h.decodes hold
  | edited _ _ hdecodes =>
    rintro row hrow
    cases hrow
    exact hdecodes (hold _ rfl)

end OrderEdit

/-- What a call other than the application does to the tables. -/
structure EditsOrders (t t' : PaperTables) : Prop where
  orders : Chained OrderEdit t.orders t'.orders
  positions_eq : t'.positions = t.positions
  fills_eq : t'.fills = t.fills
  events : ∃ events, t'.events = t.events ++ events ∧ ∀ e ∈ events, e.eventType ≠ .positionClosed

variable {t' : PaperTables} {saved : Option SavedOrder}

/-- A pending update rewrites one pending row, which decodes afterwards. -/
theorem updatePaperOrderIfPending_eq_ok {instrumentId routeFingerprint : String}
    (h : updatePaperOrderIfPending t o instrumentId routeFingerprint now = .ok (saved, t')) :
    (saved = none ∧ t' = t) ∨ ∃ row entry command payload event, t.orders.get? o.id = some row ∧
      row.status = .pending ∧ o.entry = some entry ∧ paperOrderCommandPayload o = .ok command ∧
      o.protection = .ok payload ∧
      row.document.identity.scope = (o.identity command.paperContract).scope ∧
      (row.updated o entry command payload (o.updatedAt.getD now)).Decodes o.id ∧
      event.eventType = .orderUpdated ∧
      saved = some ⟨o.id, row.updated o entry command payload (o.updatedAt.getD now)⟩ ∧
      t' = { t with
        orders := t.orders.insert o.id (row.updated o entry command payload (o.updatedAt.getD now))
        events := t.events ++ [event] } := by
  unfold updatePaperOrderIfPending at h
  obtain ⟨_, -, h⟩ := bind_eq_ok.mp h
  split at h
  · exact absurd h (by simp)
  rename_i entry hentry
  obtain ⟨command, hcommand, h⟩ := bind_eq_ok.mp h
  obtain ⟨payload, hpayload, h⟩ := bind_eq_ok.mp h
  split at h
  · cases (pure_eq_ok.mp h)
    exact .inl ⟨rfl, rfl⟩
  rename_i row hrow
  split at h
  · rename_i hguard
    dsimp only at h
    obtain ⟨s, hs, h⟩ := bind_eq_ok.mp h
    obtain ⟨t₁, ht₁, h⟩ := bind_eq_ok.mp h
    cases (pure_eq_ok.mp h)
    obtain ⟨rfl, hdecodes⟩ := paperOrderFromRow_eq_ok.mp hs
    exact .inr ⟨row, entry, command, payload, _, hrow, hguard.2, hentry, hcommand, hpayload,
      hguard.1, hdecodes, rfl, rfl, PaperTables.appendEvent_eq_ok ht₁⟩
  · cases (pure_eq_ok.mp h)
    exact .inl ⟨rfl, rfl⟩

variable {filter : PaperScopeFilter}

variable {positionId id : String}

theorem isLevelTarget_pending {parentKey sourceKey : String} {role : PaperRole} {row : OrderRow}
    (h : isLevelTarget filter positionId parentKey sourceKey role row) : row.status = .pending := by
  simp only [isLevelTarget, Bool.and_eq_true, decide_eq_true_eq] at h
  exact h.1.1.2

theorem OrderRow.Decodes.levelled {row : OrderRow} {entry : ℚ}
    {trail : Bool} (h : row.Decodes id) : (row.levelled entry now trail).Decodes id :=
  ⟨h.id_ne, h.identity, h.protection, h.createCommand, h.executionCommand⟩

theorem updateLevel_edits {orders : Dict String OrderRow} {p : String → OrderRow → Bool}
    {level : Option ℚ} {trail : Bool} (hp : ∀ id row, p id row → row.status = .pending) :
    Chained OrderEdit orders (updateLevel orders p level now trail).2 := by
  unfold updateLevel
  split
  · exact .refl _
  · refine .updateWhere fun id row hrow => ?_
    have hpending := hp id row hrow
    exact .edited hpending hpending .levelled

/-- One pending order is cancelled, with a rejection or without, or nothing is done. -/
def CancelsOne (rejected : Bool) (t : PaperTables) (id : String) (saved : Option SavedOrder)
    (t' : PaperTables) : Prop :=
  (saved = none ∧ t' = t) ∨ ∃ row ts rejection event, t.orders.get? id = some row ∧
    row.status = .pending ∧ rejection.isSome = rejected ∧
    event.eventType ≠ TradeEventType.positionClosed ∧
    saved = some ⟨id, row.cancelled ts rejection⟩ ∧
    t' = { t with
      orders := t.orders.insert id (row.cancelled ts rejection)
      events := t.events ++ [event] }

theorem cancelsOne_of_cursor {ts : Time} {rejection : Option PaperRejection} {new : OrderRow}
    {s : SavedOrder} {event : TradeEvent} (hevent : event.eventType ≠ .positionClosed)
    (hnew : (cancelIfPendingWithCursor t.orders id ts filter.admits rejection).1 = some new)
    (hs : paperOrderFromRow id new = .ok s)
    (ht' : { t with
      orders := (cancelIfPendingWithCursor t.orders id ts filter.admits rejection).2 }.appendEvent
        event = .ok t') : CancelsOne rejection.isSome t id (some s) t' := by
  obtain ⟨row, hrow, hpending, rfl, hins⟩ := cancelIfPendingWithCursor_eq_some hnew
  obtain ⟨rfl, -⟩ := paperOrderFromRow_eq_ok.mp hs
  rw [hins] at ht'
  exact .inr ⟨row, ts, rejection, event, hrow, hpending, rfl, hevent, rfl,
    PaperTables.appendEvent_eq_ok ht'⟩

theorem cancelPaperOrderIfPending_cancels {cancelledAt : Option Time}
    (h : cancelPaperOrderIfPending t id cancelledAt filter now = .ok (saved, t')) :
    CancelsOne false t id saved t' := by
  unfold cancelPaperOrderIfPending at h
  dsimp only at h
  split at h
  · cases (pure_eq_ok.mp h)
    exact .inl ⟨rfl, rfl⟩
  · rename_i hnew
    obtain ⟨s, hs, h⟩ := bind_eq_ok.mp h
    obtain ⟨t₁, ht₁, h⟩ := bind_eq_ok.mp h
    cases (pure_eq_ok.mp h)
    exact cancelsOne_of_cursor (by simp [orderEvent]) hnew hs ht₁

theorem rejectPaperOrderExecutionIfPending_cancels {rejectedAt : Option Time}
    {code reason : String} (h : rejectPaperOrderExecutionIfPending t id rejectedAt filter code
      reason now = .ok (saved, t')) : CancelsOne true t id saved t' := by
  unfold rejectPaperOrderExecutionIfPending at h
  dsimp only at h
  obtain ⟨_, -, h⟩ := bind_eq_ok.mp h
  split at h
  · cases (pure_eq_ok.mp h)
    exact .inl ⟨rfl, rfl⟩
  · rename_i hnew
    obtain ⟨s, hs, h⟩ := bind_eq_ok.mp h
    obtain ⟨t₁, ht₁, h⟩ := bind_eq_ok.mp h
    cases (pure_eq_ok.mp h)
    exact cancelsOne_of_cursor (by simp [rejectionEvent, orderEvent]) hnew hs ht₁

theorem cancelPaperProtectiveOrders_rewrites :
    Rewrites t.orders (cancelPaperProtectiveOrders t positionId filter now).2.orders :=
  .updateWhere fun _ _ hrow => .dropped now (isPendingProtective_pending hrow)

/-- What a call that fills nothing writes to the orders. -/
inductive Wrote (t : PaperTables) : PaperAct → Dict String OrderRow → Prop
  | kept (a : PaperAct) : Wrote t a t.orders
  | placed {o : PaperOrder} {now : Time} {row : OrderRow} (hnone : t.orders.get? o.id = none)
      (hwrite : OrderRewrite o.id none (some row)) (hadmits : row.Admits o)
      (hreduce : row.reduceOnly = row.document.createCommand.reduceOnly) :
      Wrote t (.upsert o now) (t.orders.insert o.id row)
  | updated {o : PaperOrder} {instrumentId routeFingerprint : String} {now : Time}
      {row : OrderRow} {entry : ℚ} {command : PaperCommand} {payload : PaperOrderPayload}
      (hrow : t.orders.get? o.id = some row) (hpending : row.status = .pending)
      (hentry : o.entry = some entry) (hcommand : paperOrderCommandPayload o = .ok command)
      (hpayload : o.protection = .ok payload)
      (hscope : row.document.identity.scope = (o.identity command.paperContract).scope)
      (hdecodes : (row.updated o entry command payload (o.updatedAt.getD now)).Decodes o.id) :
      Wrote t (.updateIfPending o instrumentId routeFingerprint now)
        (t.orders.insert o.id (row.updated o entry command payload (o.updatedAt.getD now)))
  | cancelled {a : PaperAct} {id : String} {row : OrderRow} (ts : Time)
      (rejection : Option PaperRejection) (hrow : t.orders.get? id = some row)
      (hpending : row.status = .pending) :
      Wrote t a (t.orders.insert id (row.cancelled ts rejection))
  | dropped (positionId : String) (filter : PaperScopeFilter) (now : Time) :
      Wrote t (.cancelProtective positionId filter now)
        (cancelPaperProtectiveOrders t positionId filter now).2.orders
  | levels {positionId : String} {filter : PaperScopeFilter} {stop target : Option ℚ}
      {indicatorSource parentOrderId : Option String} {now : Time} :
      Wrote t (.updateLevels positionId filter stop target indicatorSource parentOrderId now)
        (updatePaperProtectiveLevels t positionId filter stop target indicatorSource parentOrderId
          now).2.orders

/-- What a call that fills nothing does to the tables. -/
def WroteTables (t : PaperTables) (a : PaperAct) (t' : PaperTables) : Prop :=
  ∃ orders events, Wrote t a orders ∧ (∀ e ∈ events, e.eventType ≠ TradeEventType.positionClosed) ∧
    t' = { t with orders, events := t.events ++ events }

theorem WroteTables.kept (t : PaperTables) (a : PaperAct) : WroteTables t a t :=
  ⟨t.orders, [], .kept a, by simp, by simp⟩

theorem CancelsOne.wrote {rejected : Bool} (a : PaperAct) (h : CancelsOne rejected t id saved t') :
    WroteTables t a t' := by
  rcases h with ⟨-, rfl⟩ | ⟨row, ts, rejection, event, hrow, hpending, -, hevent, -, rfl⟩
  · exact .kept _ a
  · exact ⟨_, [event], .cancelled ts rejection hrow hpending, by simpa using hevent, rfl⟩

theorem perform_wrote {a : PaperAct} (ha : ∀ o now, a ≠ .apply o now) :
    WroteTables t a (t.perform a) := by
  have hcommit {α : Type} {r : Except PaperError (α × PaperTables)}
      (h : ∀ x t', r = .ok (x, t') → WroteTables t a t') : WroteTables t a (t.commit r) :=
    PaperTables.commit_induct (.kept t a) h
  cases a with
  | upsert o now =>
    refine hcommit fun saved t' h => ?_
    rcases upsertPaperOrder_eq_ok h with
      ⟨row, event, hnone, hwrite, hevent, rfl, -, hadmits, hreduce⟩ | ⟨rfl, -⟩
    · exact ⟨_, [event], .placed hnone hwrite hadmits hreduce, by simp [hevent], rfl⟩
    · exact .kept _ _
  | updateIfPending o instrumentId routeFingerprint now =>
    refine hcommit fun saved t' h => ?_
    rcases updatePaperOrderIfPending_eq_ok h with
      ⟨-, rfl⟩ | ⟨row, entry, command, payload, event, hrow, hpending, hentry, hcommand, hpayload,
        hscope, hdecodes, hevent, -, rfl⟩
    · exact .kept _ _
    · exact ⟨_, [event], .updated hrow hpending hentry hcommand hpayload hscope hdecodes,
        by simp [hevent], rfl⟩
  | cancel => exact hcommit fun _ _ h => (cancelPaperOrderIfPending_cancels h).wrote _
  | reject => exact hcommit fun _ _ h => (rejectPaperOrderExecutionIfPending_cancels h).wrote _
  | cancelProtective positionId filter now =>
    exact ⟨_, [], .dropped positionId filter now, by simp, by simp [PaperTables.perform,
      cancelPaperProtectiveOrders]⟩
  | updateLevels => exact ⟨_, [], .levels, by simp, by simp [PaperTables.perform,
      updatePaperProtectiveLevels]⟩
  | apply o now => exact absurd rfl (ha o now)

/-- **Every call but the application** edits orders and closes no position. -/
theorem perform_edits {a : PaperAct} (ha : ∀ o now, a ≠ .apply o now) :
    EditsOrders t (t.perform a) := by
  obtain ⟨orders, events, hwrote, hevents, heq⟩ := perform_wrote (t := t) ha
  rw [heq]
  refine ⟨?_, rfl, rfl, events, rfl, hevents⟩
  cases hwrote with
  | kept => exact .refl _
  | placed hnone hwrite => exact .insert (hnone ▸ .write hwrite)
  | updated hrow hpending _ _ _ _ hdecodes =>
    exact .insert (hrow ▸ .edited hpending hpending fun _ => hdecodes)
  | cancelled ts rejection hrow hpending =>
    exact .insert (hrow ▸ .write (.cancelled ts rejection hpending))
  | dropped => exact cancelPaperProtectiveOrders_rewrites.mono fun _ _ _ => .write
  | levels =>
    exact (updateLevel_edits fun _ _ => isLevelTarget_pending).trans
      (updateLevel_edits fun _ _ => isLevelTarget_pending)

/-! ### The application -/

/-- The checks and copies of `paperFillCommand`. -/
structure PaperFillCommand.Made (f : PaperFillCommand) : Prop where
  command : paperOrderCommandPayload f.order = .ok f.command
  protection : f.order.protection = .ok f.protectionPayload
  createCommand : f.order.createCommandOr f.command = .ok f.createCommand

variable {f : PaperFillCommand}

theorem paperFillCommand_made (h : paperFillCommand o now = .ok f) : f.order = o ∧ f.Made := by
  unfold paperFillCommand at h
  obtain ⟨command, hcommand, h⟩ := bind_eq_ok.mp h
  obtain ⟨payload, hpayload, h⟩ := bind_eq_ok.mp h
  split at h
  · exact absurd h (by simp)
  dsimp only at h
  obtain ⟨create, hcreate, h⟩ := bind_eq_ok.mp h
  obtain rfl := pure_eq_ok.mp h
  exact ⟨rfl, hcommand, hpayload, hcreate⟩

theorem PaperFillCommand.Made.accepted (h : f.Made) : f.command.Accepted :=
  (paperOrderCommandPayload_eq_ok.mp h.command).2.2.2.2

/-- The identity of the order as it came is the identity of its command. -/
theorem PaperFillCommand.Made.identity_eq (h : f.Made) :
    f.order.identity f.command.paperContract = f.identity := by
  obtain ⟨hdraft, -, hprov, -, hacc⟩ := paperOrderCommandPayload_eq_ok.mp h.command
  have hinst : f.order.instrumentId = f.command.instrumentId := by rw [hdraft]; rfl
  have hroute : f.order.routeFingerprint = f.command.routeFingerprint := by rw [hdraft]; rfl
  have hpcid : f.order.providerContractId = f.command.providerContractId := by rw [hdraft]; rfl
  simp [PaperOrder.identity, PaperFillCommand.identity, hinst, hroute, hpcid, hprov,
    hacc.provider_eq]

theorem PaperFillCommand.Made.identity_valid (h : f.Made) :
    f.identity.Valid :=
  h.identity_eq ▸ f.order.identity_valid h.command

/-- **The application** left the tables alone or did what `AppliedFill` says. -/
theorem perform_apply (t : PaperTables) (o : PaperOrder) (now : Time) :
    t.perform (.apply o now) = t ∨ ∃ f result, f.order = o ∧ f.Made ∧
      paperFillCommand o now = .ok f ∧ AppliedFill t f now result (t.perform (.apply o now)) := by
  rw [PaperTables.perform_of_apply]
  cases h : applyFilledPaperOrder t o now with
  | error e => exact .inl rfl
  | ok r =>
    obtain ⟨result, t'⟩ := r
    obtain ⟨f, hf, happly⟩ := bind_eq_ok.mp h
    obtain ⟨horder, hmade⟩ := paperFillCommand_made hf
    exact .inr ⟨f, result, horder, hmade, hf, (applyPaperFillWithCursor_applied happly).1⟩

/-! ### What readers can decode -/

/-- Every row of every table decodes. -/
structure Readable (t : PaperTables) : Prop where
  orders : ∀ id row, t.orders.get? id = some row → row.Decodes id
  positions : ∀ id row, t.positions.get? id = some row → id ≠ "" ∧ row.document.identity.Valid
  fills : ∀ r ∈ t.fills, r.identity.Valid

theorem fillPositionId_ne : fillPositionId f none ≠ "" := by
  have hdefault : "pos-" ++ f.orderId ≠ "" := by simp
  simp only [fillPositionId, textOr]
  split
  · exact hdefault
  · split
    · exact hdefault
    · assumption

theorem reversalPositionId_ne : reversalPositionId f ≠ "" := by
  simp [reversalPositionId]

section Documents

variable {t : PaperTables} {f : PaperFillCommand} {p : SavedPosition} {new : PositionRow}
  {positions : Dict String PositionRow} {id : String} {qty average : ℚ}

/-- Writing over the locked position keeps every document. -/
theorem Locked.document_kept (hp : Locked t f p) (hnew : new.document = p.row.document) (j : String)
    (row : PositionRow) (hrow : t.positions.get? j = some row) :
    ∃ row', (t.positions.insert p.id new).get? j = some row' ∧ row'.document = row.document := by
  by_cases hj : j = p.id
  · subst hj
    rw [hp.stored] at hrow
    cases hrow
    exact ⟨new, Dict.get?_insert_self .., hnew⟩
  · exact ⟨row, (Dict.get?_insert_of_ne _ hj _).trans hrow, rfl⟩

variable {j : String} {row' : PositionRow}

theorem Locked.document_from (hp : Locked t f p) (hnew : new.document = p.row.document)
    (hrow' : (t.positions.insert p.id new).get? j = some row') :
    ∃ row, t.positions.get? j = some row ∧ row'.document = row.document := by
  rw [Dict.get?_insert] at hrow'
  split at hrow'
  · rename_i hj
    cases hrow'
    exact ⟨p.row, hj ▸ hp.stored, hnew⟩
  · exact ⟨row', hrow', rfl⟩

/-- Opening a position keeps every row. -/
theorem openedPosition_kept (hid : id ∉ positions.keys) (j : String) (row : PositionRow)
    (hrow : positions.get? j = some row) :
    (positions.insert id (openedPosition f qty average)).get? j = some row := by
  have hj : j ≠ id := by
    rintro rfl
    exact hid (Dict.mem_keys_of_get? hrow)
  exact (Dict.get?_insert_of_ne _ hj _).trans hrow

theorem openedPosition_from (hne : id ≠ "") (hvalid : f.identity.Valid)
    (hrow' : (positions.insert id (openedPosition f qty average)).get? j = some row') :
    positions.get? j = some row' ∨
      (j ≠ "" ∧ row'.document.identity = f.identity ∧ f.identity.Valid) := by
  rw [Dict.get?_insert] at hrow'
  split at hrow'
  · rename_i hj
    cases hrow'
    exact .inr ⟨hj ▸ hne, rfl, hvalid⟩
  · exact .inl hrow'

/-- A move keeps the document of every position. -/
theorem PositionMove.document_kept {position : Option SavedPosition} {tr : PaperPositionTransition}
    (hlocked : lockedPaperFillPosition t f = .ok position)
    (h : PositionMove f t.positions position tr positions) (j : String) (row : PositionRow)
    (hrow : t.positions.get? j = some row) :
    ∃ row', positions.get? j = some row' ∧ row'.document = row.document := by
  cases h with
  | opened _ _ hid => exact ⟨row, openedPosition_kept hid j row hrow, rfl⟩
  | increased => exact (lockedPaperFillPosition_some hlocked).document_kept (by rfl) j row hrow
  | reduced => exact (lockedPaperFillPosition_some hlocked).document_kept (by rfl) j row hrow
  | closed => exact (lockedPaperFillPosition_some hlocked).document_kept (by rfl) j row hrow
  | @reversed p _ delta _ _ _ _ _ _ _ hid =>
    obtain ⟨row', hrow', hdoc⟩ := (lockedPaperFillPosition_some hlocked).document_kept
      (rfl : (p.row.closedBy f (p.pnl f delta)).document = p.row.document) j row hrow
    exact ⟨row', openedPosition_kept hid j row' hrow', hdoc⟩

/-- A position after a move has the document of one before it, or the identity of the fill. -/
theorem PositionMove.document_from {position : Option SavedPosition} {tr : PaperPositionTransition}
    (hlocked : lockedPaperFillPosition t f = .ok position)
    (h : PositionMove f t.positions position tr positions) (hrow' : positions.get? j = some row') :
    (∃ row, t.positions.get? j = some row ∧ row'.document = row.document) ∨
      (j ≠ "" ∧ row'.document.identity = f.identity ∧ f.identity.Valid) := by
  cases h with
  | opened _ hvalid hid =>
    exact (openedPosition_from fillPositionId_ne hvalid hrow').imp_left fun h => ⟨row', h, rfl⟩
  | increased => exact .inl ((lockedPaperFillPosition_some hlocked).document_from (by rfl) hrow')
  | reduced => exact .inl ((lockedPaperFillPosition_some hlocked).document_from (by rfl) hrow')
  | closed => exact .inl ((lockedPaperFillPosition_some hlocked).document_from (by rfl) hrow')
  | reversed _ _ _ _ _ hvalid hid =>
    rcases openedPosition_from reversalPositionId_ne hvalid hrow' with hold | hnew
    · exact .inl ((lockedPaperFillPosition_some hlocked).document_from (by rfl) hold)
    · exact .inr hnew

end Documents

namespace Readable

variable {t t' : PaperTables}

theorem empty : Readable .empty := by
  refine ⟨fun _ _ h => ?_, fun _ _ h => ?_, fun _ h => ?_⟩ <;> simp [PaperTables.empty] at h

theorem edits (h : Readable t) (he : EditsOrders t t') : Readable t' := by
  refine ⟨he.orders.forall_row (fun _ _ _ hw => hw.decodes) h.orders, ?_, ?_⟩
  · rw [he.positions_eq]
    exact h.positions
  · rw [he.fills_eq]
    exact h.fills

theorem rewritten {orders : Dict String OrderRow} {id : String} {row : OrderRow} (h : Readable t)
    (horders : Rewritten t.orders orders id row) (hdecodes : row.Decodes id) :
    ∀ j r, orders.get? j = some r → r.Decodes j := by
  intro j r hr
  by_cases hj : j = id
  · subst hj
    rw [horders.self] at hr
    exact Option.some.inj hr ▸ hdecodes
  · rw [horders.other j hj] at hr
    exact h.orders j r hr

theorem applied {f : PaperFillCommand} {now : Time} {result : PaperFillResult} (hf : f.Made)
    (h : Readable t) (ha : AppliedFill t f now result t') : Readable t' := by
  cases ha with
  | replayed => exact h
  | cancelled _ horders hdecodes => exact ⟨h.rewritten horders hdecodes, h.positions, h.fills⟩
  | filled _ hlocked _ hmove hdecodes _ _ _ _ _ _ horders hprotective =>
    refine ⟨hprotective.forall_row (fun _ _ _ hw => hw.decodes) (h.rewritten horders hdecodes), ?_, ?_⟩
    · intro id row' hrow'
      rcases hmove.document_from hlocked hrow' with ⟨row, hrow, hdoc⟩ | ⟨hid, hidentity, hvalid⟩
      · rw [hdoc]
        exact h.positions id row hrow
      · rw [hidentity]
        exact ⟨hid, hvalid⟩
    · intro r hr
      rcases List.mem_append.mp hr with hr | hr
      · exact h.fills r hr
      · obtain rfl := List.mem_singleton.mp hr
        have hidentity : ∀ tr, (f.fillRow tr).identity = f.identity := fun _ => hf.identity_eq
        rw [hidentity]
        exact hf.identity_valid

/-- **Every call leaves tables that can be read.** -/
theorem step {a : PaperAct} (h : Readable t) (hstep : PaperStep t a t') : Readable t' := by
  obtain rfl := hstep
  by_cases happly : ∃ o now, a = .apply o now
  · obtain ⟨o, now, rfl⟩ := happly
    rcases perform_apply t o now with hsame | ⟨f, result, -, hf, -, happlied⟩
    · rw [hsame]
      exact h
    · exact h.applied hf happlied
  · push Not at happly
    exact h.edits (perform_edits happly)

end Readable

/-! ### A concrete instrument -/

def spotContract : PaperContractIdentity where
  provider := "ibkr"
  providerContractId := "265598"
  option := none
  provider_ne := by decide
  providerContractId_ne := by decide
  provider_canonical := by decide

/-- A market entry without levels. -/
def entryOrder (id : String) (side : PaperSide) (qty price : ℚ) : PaperOrder where
  id
  instrumentId := "AAPL"
  routeFingerprint := "route"
  symbol := "AAPL"
  provider := "ibkr"
  providerContractId := "265598"
  paperContract := some spotContract
  timeframe := "1m"
  side := some side
  orderType := .market
  qty := some qty
  entry := some price
  stopLoss := none
  target := none
  useStopLoss := some false
  useTarget := some false
  role := some .entry
  positionId := none
  parentOrderId := none
  ocoGroupId := none
  reduceOnly := none
  source := none
  note := none
  exitReason := none
  payload := some ⟨false, some .absoluteStructure, none, none, none, []⟩
  requestedExitPrice := false
  status := none
  createdAt := none
  updatedAt := none
  filledAt := none
  fillPrice := none
  createCommand := none
  indicatorSource := none

/-- A manual close of a position. -/
def closeOrder (id positionId : String) (price : ℚ) : PaperOrder :=
  { entryOrder id .short 1 price with role := some .close, positionId := some positionId }

end AefTerminal
