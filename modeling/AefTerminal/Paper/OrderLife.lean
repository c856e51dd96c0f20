import AefTerminal.Paper.ExactlyOnce
import AefTerminal.Paper.Rejections
import AefTerminal.Paper.Submission

/-!
# The life of one order row

Once an order is stored, its create command, its payload and its route never change, and from the
moment it is filled or cancelled nothing of it does. So long as no call edits the order under its
id, the stored command can be recomputed from the row: a client that goes on with it finds it.

## Main definitions

* `OrderRow.Resumable`: the order made from a row has the stored command
* `OrderRow.Succeeds`, `Evolves`: what a row may become

## Main results

* `perform_evolves`: every call that does not edit the order lets its row evolve
* `applyFilledPaperOrder_result`: the answer of an application is what is stored
-/

namespace AefTerminal

open Foundation

/-! ### Rows over time -/

/-- The stored command is the command of the order that is made from the row. -/
structure OrderRow.Resumable (id : String) (row : OrderRow) : Prop where
  id_eq : row.document.createCommand.id = id
  canonical : row.CreateCanonical
  payload_eq : row.document.payload.withoutExecutionConfig = row.document.createCommand.payload
  instrumentId_eq : row.document.identity.instrumentId = row.document.createCommand.instrumentId
  routeFingerprint_eq :
    row.document.identity.routeFingerprint = row.document.createCommand.routeFingerprint

/-- `row'` is a later row of the same order. -/
structure OrderRow.Succeeds (row row' : OrderRow) : Prop where
  createCommand_eq : row'.document.createCommand = row.document.createCommand
  payload_eq : row'.document.payload = row.document.payload
  instrumentId_eq : row'.document.identity.instrumentId = row.document.identity.instrumentId
  routeFingerprint_eq :
    row'.document.identity.routeFingerprint = row.document.identity.routeFingerprint
  settled : row.status ≠ .pending → row' = row

namespace OrderRow

variable {row row' row'' : OrderRow} {id : String}

theorem Succeeds.refl (row : OrderRow) : row.Succeeds row := ⟨rfl, rfl, rfl, rfl, fun _ => rfl⟩

theorem Succeeds.trans (h : row.Succeeds row') (k : row'.Succeeds row'') : row.Succeeds row'' := by
  refine ⟨k.createCommand_eq.trans h.createCommand_eq, k.payload_eq.trans h.payload_eq,
    k.instrumentId_eq.trans h.instrumentId_eq, k.routeFingerprint_eq.trans h.routeFingerprint_eq,
    fun hsettled => ?_⟩
  obtain rfl := h.settled hsettled
  exact k.settled hsettled

theorem Succeeds.resumable (h : row.Succeeds row') (hrow : row.Resumable id) : row'.Resumable id :=
  ⟨h.createCommand_eq ▸ hrow.id_eq,
    by unfold CreateCanonical; rw [h.createCommand_eq]; exact hrow.canonical,
    by rw [h.createCommand_eq, h.payload_eq]; exact hrow.payload_eq,
    by rw [h.createCommand_eq, h.instrumentId_eq]; exact hrow.instrumentId_eq,
    by rw [h.createCommand_eq, h.routeFingerprint_eq]; exact hrow.routeFingerprint_eq⟩

theorem Succeeds.admits {o : PaperOrder} (h : row.Succeeds row') (hrow : row.Admits o) :
    row'.Admits o :=
  ⟨by rw [h.createCommand_eq]; exact hrow.command_eq, h.instrumentId_eq.trans hrow.instrumentId_eq,
    h.routeFingerprint_eq.trans hrow.routeFingerprint_eq⟩

/-- The order made from a row has the stored command. -/
theorem Resumable.command (h : row.Resumable id) :
    paperOrderCommandPayload row.resumeOrder = .ok row.document.createCommand := by
  obtain ⟨hdraft, -, -, -, hacc⟩ := paperOrderCommandPayload_eq_ok.mp h.canonical
  rw [paperOrderCommandPayload_eq_ok]
  refine ⟨?_, rfl, hacc.provider_eq, rfl, hacc⟩
  have hpayload : row.resumeOrder.draftCommand row.document.createCommand.paperContract =
      { row.document.createCommand.toOrder.draftCommand row.document.createCommand.paperContract with
        payload := row.document.payload.withoutExecutionConfig } := rfl
  rw [hpayload, ← hdraft, h.payload_eq]

theorem Resumable.admits (h : row.Resumable id) : row.Admits row.resumeOrder :=
  ⟨h.command, h.instrumentId_eq, h.routeFingerprint_eq⟩

end OrderRow

/-- What the row of `id` may become. -/
inductive Evolves (id : String) : Option OrderRow → Option OrderRow → Prop
  | absent : Evolves id none none
  | placed {row : OrderRow} (h : row.Resumable id) : Evolves id none (some row)
  | kept {row row' : OrderRow} (h : row.Succeeds row') : Evolves id (some row) (some row')

namespace Evolves

variable {id : String} {old new newer : Option OrderRow} {row : OrderRow}

theorem refl (id : String) (old : Option OrderRow) : Evolves id old old := by
  cases old with
  | none => exact .absent
  | some row => exact .kept (.refl row)

theorem trans (h : Evolves id old new) (k : Evolves id new newer) : Evolves id old newer := by
  cases h with
  | absent => exact k
  | placed hrow =>
    cases k with
    | kept hk => exact .placed (hk.resumable hrow)
  | kept hrow =>
    cases k with
    | kept hk => exact .kept (hrow.trans hk)

theorem resumable (h : Evolves id old new) (hold : ∀ row, old = some row → row.Resumable id) :
    ∀ row, new = some row → row.Resumable id := by
  rintro row rfl
  cases h with
  | placed hrow => exact hrow
  | kept hrow => exact hrow.resumable (hold _ rfl)

theorem succeeds (h : Evolves id (some row) new) : ∃ row', new = some row' ∧ row.Succeeds row' := by
  cases h with
  | kept hrow => exact ⟨_, rfl, hrow⟩

end Evolves

theorem OrderRewrite.evolves {id : String} {old new : Option OrderRow} (h : OrderRewrite id old new) :
    Evolves id old new := by
  cases h with
  | @placed o command shape payload createdAt updatedAt hid hcommand hshape hpayload =>
    obtain ⟨hdraft, -⟩ := paperOrderCommandPayload_eq_ok.mp hcommand
    obtain ⟨hsome, -⟩ := PaperOrder.protection_eq_ok.mp hpayload
    refine .placed ⟨?_, paperOrderCommandPayload_toOrder hcommand, ?_, ?_, ?_⟩
    · show command.id = id
      rw [hdraft, ← hid]
      rfl
    · show payload.withoutExecutionConfig = command.payload
      rw [hdraft]
      show payload.withoutExecutionConfig = (o.payload.getD .empty).withoutExecutionConfig
      rw [hsome, Option.getD_some]
    · show o.instrumentId = command.instrumentId
      rw [hdraft]
      rfl
    · show o.routeFingerprint = command.routeFingerprint
      rw [hdraft]
      rfl
  | cancelled ts rejection hpending =>
    exact .kept ⟨rfl, rfl, rfl, rfl, fun hsettled => absurd hpending hsettled⟩
  | dropped ts hpending =>
    exact .kept ⟨rfl, rfl, rfl, rfl, fun hsettled => absurd hpending hsettled⟩
  | resized updatedAt hpending hcommand =>
    exact .kept ⟨rfl, rfl, rfl, rfl, fun hsettled => absurd hpending hsettled⟩

theorem Rewrites.evolves {orders orders' : Dict String OrderRow} (h : Rewrites orders orders')
    (id : String) : Evolves id (orders.get? id) (orders'.get? id) := by
  have hchain : ∀ new, Relation.ReflTransGen (OrderRewrite id) (orders.get? id) new →
      Evolves id (orders.get? id) new := by
    intro new hnew
    induction hnew with
    | refl => exact .refl _ _
    | tail _ hwrite ih => exact ih.trans hwrite.evolves
  exact hchain _ (h id)

/-! ### Calls -/

section Calls

variable {t : PaperTables} {id : String}

variable {now : Time}

theorem updateLevel_evolves {orders : Dict String OrderRow} {p : String → OrderRow → Bool}
    {level : Option ℚ} {trail : Bool} (hp : ∀ id row, p id row → row.status = .pending) :
    Evolves id (orders.get? id) ((updateLevel orders p level now trail).2.get? id) := by
  unfold updateLevel
  split
  · exact .refl _ _
  · rw [Dict.get?_updateWhere]
    cases orders.get? id with
    | none => exact .absent
    | some row =>
      rw [Option.map_some]
      split_ifs with hrow
      · exact .kept ⟨rfl, rfl, rfl, rfl, fun hsettled => absurd (hp id row hrow) hsettled⟩
      · exact .kept (.refl row)

variable {t' : PaperTables} {result : PaperFillResult} {f : PaperFillCommand}

/-- A filled application lets the rows of the other orders evolve. -/
theorem AppliedFill.evolves (h : AppliedFill t f now result t') (hid : id ≠ f.orderId) :
    Evolves id (t.orders.get? id) (t'.orders.get? id) := by
  cases h with
  | replayed => exact .refl _ _
  | cancelled _ horders =>
    rw [horders.other id hid]
    exact .refl _ _
  | filled _ _ _ _ _ _ _ _ _ _ _ horders hprotective =>
    have hevolves := hprotective.evolves id
    rw [horders.other id hid] at hevolves
    exact hevolves

theorem PaperFillCommand.Made.orderId_eq (h : f.Made) :
    f.orderId = f.order.id := by
  obtain ⟨hdraft, -⟩ := paperOrderCommandPayload_eq_ok.mp h.command
  show f.command.id = f.order.id
  rw [hdraft]
  rfl

/-- **A call that does not edit the order** lets its row evolve. -/
theorem perform_evolves {call : PaperAct} (hcall : SubmissionSystem.Outside id call) :
    Evolves id (t.orders.get? id) ((t.perform call).orders.get? id) := by
  by_cases happly : ∃ o now, call = .apply o now
  · obtain ⟨o, now, rfl⟩ := happly
    rcases perform_apply t o now with hsame | ⟨f, result, horder, hmade, -, happlied⟩
    · rw [hsame]
      exact .refl _ _
    · refine happlied.evolves ?_
      rw [hmade.orderId_eq, horder]
      exact Ne.symm hcall
  · push Not at happly
    obtain ⟨orders, events, hwrote, -, heq⟩ := perform_wrote (t := t) happly
    rw [heq]
    cases hwrote with
    | kept => exact .refl _ _
    | placed hnone hwrite => exact Rewrites.evolves (.insert (hnone ▸ hwrite)) id
    | @updated o =>
      have hid : id ≠ o.id := Ne.symm hcall
      rw [Dict.get?_insert_of_ne _ hid]
      exact .refl _ _
    | cancelled ts rejection hrow hpending =>
      exact Rewrites.evolves (.insert (hrow ▸ .cancelled ts rejection hpending)) id
    | dropped => exact cancelPaperProtectiveOrders_rewrites.evolves id
    | levels =>
      exact (updateLevel_evolves fun _ _ => isLevelTarget_pending).trans
        (updateLevel_evolves fun _ _ => isLevelTarget_pending)

/-! ### The application of the order itself -/

variable {row : OrderRow}

/-- An application goes on with a known order of the same route and create command only. -/
theorem paperFillExistingOrderOutcome_agrees
    {answer : Option PaperFillResult} (h : paperFillExistingOrderOutcome t f row = .ok answer) :
    (row.document.identity.instrumentId = f.command.instrumentId ∧
      row.document.identity.routeFingerprint = f.command.routeFingerprint) ∧
    row.document.createCommand = f.createCommand := by
  obtain ⟨_, -, h⟩ := bind_eq_ok.mp h
  obtain ⟨_, hroute, h⟩ := bind_eq_ok.mp h
  obtain ⟨_, hcommand, -⟩ := bind_eq_ok.mp h
  exact ⟨require_eq_ok.mp hroute, require_eq_ok.mp hcommand⟩

theorem Reserved.cancelled_succeeds (h : Reserved t f row)
    (ts : Time) (rejection : Option PaperRejection) : row.Succeeds (row.cancelled ts rejection) :=
  ⟨rfl, rfl, rfl, rfl, fun hsettled => absurd h.pending hsettled⟩

/-- A stored order that is filled keeps its facts, if it is filled with its payload. -/
theorem Reserved.filled_succeeds
    {tr : PaperPositionTransition} (hmade : f.Made) (h : Reserved t f row)
    (hstored : t.orders.get? f.orderId = some row)
    (hpayload : f.protectionPayload = row.document.payload) : row.Succeeds (row.filled f tr) := by
  cases h with
  | new hnone =>
    rw [hnone] at hstored
    cases hstored
  | known _ hpending houtcome =>
    obtain ⟨⟨hinstrument, hroute⟩, hcreate⟩ := paperFillExistingOrderOutcome_agrees houtcome
    obtain ⟨hdraft, -⟩ := paperOrderCommandPayload_eq_ok.mp hmade.command
    refine ⟨hcreate.symm, hpayload, ?_, ?_, fun hsettled => absurd hpending hsettled⟩
    · show f.order.instrumentId = row.document.identity.instrumentId
      rw [hinstrument, hdraft]
      rfl
    · show f.order.routeFingerprint = row.document.identity.routeFingerprint
      rw [hroute, hdraft]
      rfl

/-- **An application of a stored order** under its own payload lets its row evolve. -/
theorem AppliedFill.evolves_self (h : AppliedFill t f now result t') (hmade : f.Made)
    (hstored : t.orders.get? f.orderId = some row)
    (hpayload : f.protectionPayload = row.document.payload) :
    Evolves f.orderId (t.orders.get? f.orderId) (t'.orders.get? f.orderId) := by
  have hreserved_eq : ∀ reserved, Reserved t f reserved → reserved = row := by
    rintro reserved hreserved
    cases hreserved with
    | new hnone =>
      rw [hnone] at hstored
      cases hstored
    | known hrow => exact Option.some.inj (hrow.symm.trans hstored)
  cases h with
  | replayed => exact .refl _ _
  | cancelled hreserved horders =>
    obtain rfl := hreserved_eq _ hreserved
    rw [horders.self, hstored]
    exact .kept (hreserved.cancelled_succeeds _ _)
  | filled hreserved _ _ _ _ _ _ _ _ _ _ horders hprotective =>
    obtain rfl := hreserved_eq _ hreserved
    have hevolves := hprotective.evolves f.orderId
    rw [horders.self] at hevolves
    rw [hstored]
    exact (Evolves.kept (hreserved.filled_succeeds hmade hstored hpayload)).trans hevolves

/-! ### Answers -/

/-- **The answer of an application** is the order as it is stored. -/
theorem applyFilledPaperOrder_result {o : PaperOrder}
    (h : applyFilledPaperOrder t o now = .ok (result, t')) :
    result.order.id = o.id ∧ t'.orders.get? o.id = some result.order.row ∧
      result.StatusAgrees := by
  obtain ⟨f, hf, h⟩ := bind_eq_ok.mp h
  obtain ⟨horder, hmade⟩ := paperFillCommand_made hf
  rw [← horder, ← hmade.orderId_eq]
  exact (applyPaperFillWithCursor_applied h).2

/-- **The answer of a reservation** is the order as it is stored. -/
theorem upsertPaperOrder_result {o : PaperOrder} {saved : SavedOrder}
    (h : upsertPaperOrder t o now = .ok (saved, t')) :
    saved.id = o.id ∧ t'.orders.get? o.id = some saved.row ∧ saved.row.Admits o := by
  rcases upsertPaperOrder_eq_ok h with ⟨row, event, -, -, -, rfl, rfl, hadmits, -⟩ |
    ⟨rfl, row, hstored, rfl, hadmits⟩
  · exact ⟨rfl, Dict.get?_insert_self .., hadmits⟩
  · exact ⟨rfl, hstored, hadmits⟩

/-- An order that is admitted is not refused for its command. -/
theorem upsertPaperOrder_avoids {o : PaperOrder}
    (hstored : t.orders.get? o.id = some row) (hadmits : row.Admits o) :
    Avoids commandCollision (upsertPaperOrder t o now) := by
  unfold upsertPaperOrder
  refine .bind paperOrderCommandPayload_avoids fun command hcommand => .bind ?_ fun _ _ =>
    .bind requirePaperOrderProtection_avoids fun _ _ => .bind (.require (by decide)) fun _ _ => ?_
  · unfold PaperOrder.reservation
    repeat' split
    all_goals first | exact .ok | exact .error (by decide)
  · dsimp only
    rw [hstored]
    refine .bind paperOrderFromRow_avoids fun _ _ => .bind (.require (by decide)) fun _ _ => ?_
    have heq : row.document.createCommand = command :=
      Except.ok.inj (hadmits.command_eq.symm.trans hcommand)
    have hcheck : require (row.document.createCommand = command) commandCollision = .ok ⟨⟩ :=
      require_eq_ok.mpr heq
    rw [hcheck]
    exact .ok

/-- **The answer of a stored rejection** is the cancelled order as it is stored. -/
theorem rejectPaperOrderExecutionIfPending_result {rejectedAt : Option Time}
    {filter : PaperScopeFilter} {code reason : String} {saved : SavedOrder}
    (h : rejectPaperOrderExecutionIfPending t id rejectedAt filter code reason now =
      .ok (some saved, t')) :
    saved.id = id ∧ t'.orders.get? id = some saved.row ∧ saved.row.status = .cancelled ∧
      saved.row.document.executionRejection.isSome := by
  rcases rejectPaperOrderExecutionIfPending_cancels h with
    ⟨hnone, -⟩ | ⟨row, ts, rejection, event, -, -, hrejected, -, hsaved, rfl⟩
  · exact nomatch hnone
  · cases hsaved
    obtain ⟨reason, rfl⟩ := Option.isSome_iff_exists.mp hrejected
    exact ⟨rfl, Dict.get?_insert_self .., rfl, rfl⟩

end Calls

end AefTerminal
