import AefTerminal.Paper.Fill

/-!
# Where a command collision comes from

An application can be rejected at many places. A command collision is raised at one of them only,
the admission of a known order: everything before it checks the order by itself, and everything
after it has other reasons to give up.

## Main definitions

* `commandCollision`

## Main results

* `applyFilledPaperOrder_avoids`: an application that is not refused at admission for its command
  is not refused for its command at all
-/

namespace AefTerminal

open Foundation

/-- The rejection of a changed command under a known order id. -/
abbrev commandCollision : PaperError := ⟨"PAPER_ORDER_ID_COMMAND_COLLISION"⟩

section Checks

/-! ### Checks of one record -/

theorem requireExactIdentityText_avoids {value field : String} :
    Avoids commandCollision (requireExactIdentityText value field) := by
  unfold requireExactIdentityText
  split
  · refine .error fun heq => ?_
    -- the text of a missing field ends otherwise
    have hlast := congrArg (fun e : PaperError => e.code.toList.getLast?) heq
    simp at hlast
  · exact .ok

theorem requirePaperContractIdentity_avoids {provider providerContractId : String}
    {contract : Option PaperContractIdentity} :
    Avoids commandCollision
      (requirePaperContractIdentity provider providerContractId contract) := by
  refine .bind requireExactIdentityText_avoids fun _ _ =>
    .bind requireExactIdentityText_avoids fun _ _ => ?_
  split
  · exact .error (by decide)
  · split
    · exact .error (by decide)
    · exact .ok

theorem requirePaperOrderProtection_avoids {useStopLoss useTarget : Option Bool}
    {stopLoss target : Option ℚ} {payload : Option PaperOrderPayload} :
    Avoids commandCollision
      (requirePaperOrderProtection useStopLoss useTarget stopLoss target payload) := by
  unfold requirePaperOrderProtection
  repeat' split
  all_goals first | exact .ok | exact .error (by decide)

theorem PaperIdentity.decode_avoids {i : PaperIdentity} : Avoids commandCollision i.decode :=
  .bind requireExactIdentityText_avoids fun _ _ =>
    .bind requireExactIdentityText_avoids fun _ _ => requirePaperContractIdentity_avoids

theorem decodeCommand_avoids {contract : PaperContractIdentity} {payload : PaperOrderPayload}
    {command : PaperCommand} : Avoids commandCollision (decodeCommand contract payload command) :=
  .bind requirePaperOrderProtection_avoids fun _ _ =>
    .bind (.require (by decide)) fun _ _ =>
      .bind requirePaperContractIdentity_avoids fun _ _ => .require (by decide)

theorem paperOrderFromRow_avoids {id : String} {row : OrderRow} :
    Avoids commandCollision (paperOrderFromRow id row) :=
  .bind PaperIdentity.decode_avoids fun _ _ =>
    .bind requireExactIdentityText_avoids fun _ _ =>
      .bind requirePaperOrderProtection_avoids fun _ _ =>
        .bind decodeCommand_avoids fun _ _ => .bind decodeCommand_avoids fun _ _ => .pure

theorem paperPositionFromRow_avoids {id : String} {row : PositionRow} :
    Avoids commandCollision (paperPositionFromRow id row) :=
  .bind requireExactIdentityText_avoids fun _ _ =>
    .bind PaperIdentity.decode_avoids fun _ _ => .pure

theorem paperFillFromRow_avoids {row : FillRow} :
    Avoids commandCollision (paperFillFromRow row) :=
  .bind PaperIdentity.decode_avoids fun _ _ => .pure

theorem paperOrderCommandPayload_avoids {o : PaperOrder} :
    Avoids commandCollision (paperOrderCommandPayload o) :=
  .bind requireExactIdentityText_avoids fun _ _ =>
    .bind requireExactIdentityText_avoids fun _ _ =>
      .bind requireExactIdentityText_avoids fun _ _ =>
        .bind requireExactIdentityText_avoids fun _ _ =>
          .bind requirePaperContractIdentity_avoids fun _ _ =>
            .bind (.require (by decide)) fun _ _ =>
              .bind (.require (by decide)) fun _ _ =>
                .bind requirePaperOrderProtection_avoids fun _ _ => .pure

theorem paperFillCommand_avoids {o : PaperOrder} {now : Time} :
    Avoids commandCollision (paperFillCommand o now) := by
  refine .bind paperOrderCommandPayload_avoids fun command _ =>
    .bind requirePaperOrderProtection_avoids fun _ _ => ?_
  split
  · exact .error (by decide)
  · refine .bind ?_ fun _ _ => .pure
    unfold PaperOrder.createCommandOr
    split
    · exact paperOrderCommandPayload_avoids
    · exact .ok

end Checks

variable {t : PaperTables} {f : PaperFillCommand} {position : Option SavedPosition} {now : Time}

/-! ### Before the transition -/

theorem PaperTables.appendEvent_avoids {event : TradeEvent} :
    Avoids commandCollision (t.appendEvent event) := by
  unfold PaperTables.appendEvent
  split
  · exact .error (by decide)
  · exact .ok

theorem paperPositionById_avoids {scope : PaperScope} {id : Option String} :
    Avoids commandCollision (paperPositionById t scope id) := by
  unfold paperPositionById
  repeat' split
  all_goals first | exact .ok | exact .map paperPositionFromRow_avoids

theorem lockedPaperFillPosition_avoids : Avoids commandCollision (lockedPaperFillPosition t f) := by
  unfold lockedPaperFillPosition
  dsimp only
  split
  · exact .pure
  · exact .bind paperPositionFromRow_avoids fun _ _ => .bind (.require (by decide)) fun _ _ => .pure

theorem cancelReserved_avoids {rejection : Option PaperRejection} {missing : String}
    (hmissing : missing ≠ commandCollision.code) :
    Avoids commandCollision (cancelReserved t f rejection missing) := by
  unfold cancelReserved
  dsimp only
  split
  · exact .error fun heq => hmissing (congrArg PaperError.code heq)
  · exact .bind paperOrderFromRow_avoids fun _ _ => .pure

theorem paperPositionExpectationOutcome_avoids :
    Avoids commandCollision (paperPositionExpectationOutcome t f position now) := by
  unfold paperPositionExpectationOutcome
  split
  · exact .pure
  · exact .bind (cancelReserved_avoids (by decide)) fun _ _ =>
      .bind PaperTables.appendEvent_avoids fun _ _ => .pure

theorem paperStaleReduceOnlyOutcome_avoids :
    Avoids commandCollision (paperStaleReduceOnlyOutcome t f position) := by
  unfold paperStaleReduceOnlyOutcome
  split
  · exact .pure
  · refine .bind (cancelReserved_avoids (by decide)) fun _ _ => .bind ?_ fun _ _ => .pure
    unfold currentOfManualClose
    split
    · exact paperPositionById_avoids
    · exact .ok

/-! ### The transition -/

theorem paperFillDelta_avoids {qty : ℚ} : Avoids commandCollision (paperFillDelta f qty) := by
  unfold paperFillDelta
  repeat' split
  all_goals first | exact .ok | exact .error (by decide)

variable {id : String}

theorem PaperTables.insertPosition_avoids {row : PositionRow} :
    Avoids commandCollision (t.insertPosition id row) := by
  unfold PaperTables.insertPosition
  split
  · exact .error (by decide)
  · exact .ok

theorem updatePosition_avoids {change : PositionRow → PositionRow} :
    Avoids commandCollision (updatePosition t f id change) := by
  unfold updatePosition
  repeat' split
  all_goals first | exact .ok | exact .error (by decide)

theorem increasePaperPosition_avoids {qty average delta : ℚ} :
    Avoids commandCollision (increasePaperPosition t f position id qty average delta) := by
  unfold increasePaperPosition
  dsimp only
  split
  · exact .bind PaperIdentity.decode_avoids fun _ _ =>
      .bind PaperTables.insertPosition_avoids fun _ _ => .pure
  · exact .bind (.require (by decide)) fun _ _ => .bind updatePosition_avoids fun _ _ => .pure

theorem reducePaperPosition_avoids {p : SavedPosition} {qty average delta : ℚ} :
    Avoids commandCollision (reducePaperPosition t f p id qty average delta) := by
  unfold reducePaperPosition
  dsimp only
  split
  · exact .bind updatePosition_avoids fun _ _ => .pure
  · split
    · exact .bind updatePosition_avoids fun _ _ => .pure
    · exact .bind updatePosition_avoids fun _ _ =>
        .bind PaperIdentity.decode_avoids fun _ _ =>
          .bind PaperTables.insertPosition_avoids fun _ _ => .pure

theorem transitionPaperPosition_avoids :
    Avoids commandCollision (transitionPaperPosition t f position) := by
  unfold transitionPaperPosition
  refine .bind paperFillDelta_avoids fun delta _ => ?_
  dsimp only
  split
  · exact .bind increasePaperPosition_avoids fun _ _ => .pure
  · split
    · exact .error (by decide)
    · exact .bind reducePaperPosition_avoids fun _ _ => .pure

/-! ### After it -/

theorem persistPaperFillRecords_avoids {tr : PaperPositionTransition} :
    Avoids commandCollision (persistPaperFillRecords t f tr) := by
  unfold persistPaperFillRecords
  split
  · exact .error (by decide)
  · refine .bind (.require (by decide)) fun _ _ => .bind paperOrderFromRow_avoids fun _ _ =>
      .bind ?_ fun _ _ => .bind paperFillFromRow_avoids fun _ _ => .pure
    unfold PaperTables.insertFill
    split
    · exact .error (by decide)
    · exact .ok

theorem paperFillPositionResults_avoids {tr : PaperPositionTransition} :
    Avoids commandCollision (paperFillPositionResults t f tr) := by
  refine .bind paperPositionById_avoids fun current _ => ?_
  split
  · exact .error (by decide)
  · split
    · exact .pure
    · refine .bind paperPositionById_avoids fun closed _ => ?_
      split
      · exact .error (by decide)
      · exact .pure

section Protective

variable {orders : Dict String OrderRow} {scope : PaperScope} {ts : Time}

theorem cancelWhere_avoids {p : String → OrderRow → Bool} :
    Avoids commandCollision (cancelWhere orders p ts) :=
  .bind (.mapM fun _ _ => paperOrderFromRow_avoids) fun _ _ => .pure

theorem syncProtectiveOrder_avoids {qty : ℚ} {s : ProtectiveSync} {o : SavedOrder} :
    Avoids commandCollision (syncProtectiveOrder scope ts qty s o) := by
  unfold syncProtectiveOrder
  dsimp only
  split
  · split
    · exact .pure
    · exact .bind paperOrderFromRow_avoids fun _ _ => .pure
  · split
    · exact .pure
    · refine .bind paperOrderCommandPayload_avoids fun _ _ =>
        .bind requirePaperOrderProtection_avoids fun _ _ => ?_
      split
      · exact .error (by decide)
      · split
        · exact .pure
        · exact .error (by decide)

theorem syncPaperProtectiveOrders_avoids {id : String} {qty : ℚ} {status : PaperPositionStatus} :
    Avoids commandCollision (syncPaperProtectiveOrders orders id qty status scope ts) := by
  unfold syncPaperProtectiveOrders
  dsimp only
  split
  · exact .bind (.mapM fun _ _ => paperOrderFromRow_avoids) fun _ _ =>
      .bind (.foldlM fun _ _ _ => .foldlM fun _ _ _ => syncProtectiveOrder_avoids) fun _ _ => .pure
  · exact cancelWhere_avoids

variable {tr : PaperPositionTransition}

theorem syncPaperFillProtectiveOrders_avoids
    {current : SavedPosition} {closed : Option SavedPosition} :
    Avoids commandCollision (syncPaperFillProtectiveOrders t f tr current closed) := by
  refine .bind ?_ fun _ _ => .bind ?_ fun _ _ =>
    .bind syncPaperProtectiveOrders_avoids fun _ _ => .pure
  · unfold cancelOcoSiblings
    repeat' split
    all_goals first | exact .ok | exact cancelWhere_avoids
  · unfold syncClosedPosition
    split
    · exact syncPaperProtectiveOrders_avoids
    · exact .ok

theorem createProtectiveChild_avoids {qty : ℚ} {side : PaperSide}
    {group : String} {s : List SavedOrder × PaperTables} {spec : PaperRole × PaperOrderType × ℚ} :
    Avoids commandCollision (createProtectiveChild f tr qty side group s spec) := by
  refine .bind ?_ fun intent _ => .bind paperOrderCommandPayload_avoids fun command _ => ?_
  · unfold paperProtectiveChildIntent
    split
    · exact .error (by decide)
    · exact .ok
  · split
    · exact .error (by decide)
    · exact .bind paperOrderFromRow_avoids fun _ _ => .pure

theorem fillProtectiveQty_avoids {current : SavedPosition}
    {reversed : Bool} : Avoids commandCollision (fillProtectiveQty f tr current reversed) := by
  unfold fillProtectiveQty paperEntryProtectiveQty
  repeat' split
  all_goals first | exact .ok | exact .error (by decide)

theorem createPaperFillProtectiveOrders_avoids {current : SavedPosition} {reversed : Bool} :
    Avoids commandCollision (createPaperFillProtectiveOrders t f tr current reversed) := by
  refine .bind fillProtectiveQty_avoids fun qty _ => ?_
  split
  · exact .pure
  · exact .foldlM fun _ _ _ => createProtectiveChild_avoids

end Protective

theorem appendPaperFillEvents_avoids {order : SavedOrder} {current : SavedPosition} {fill : FillRow}
    {closed : Option SavedPosition} :
    Avoids commandCollision (appendPaperFillEvents t f order current fill closed now) := by
  refine .bind ?_ fun _ _ => PaperTables.appendEvent_avoids
  unfold appendClosedPosition
  split
  · exact PaperTables.appendEvent_avoids
  · exact .ok

theorem fillPaperOrder_avoids : Avoids commandCollision (fillPaperOrder t f position now) :=
  .bind transitionPaperPosition_avoids fun _ _ =>
    .bind persistPaperFillRecords_avoids fun _ _ =>
      .bind paperFillPositionResults_avoids fun _ _ =>
        .bind syncPaperFillProtectiveOrders_avoids fun _ _ =>
          .bind createPaperFillProtectiveOrders_avoids fun _ _ =>
            .bind appendPaperFillEvents_avoids fun _ _ => .pure

/-- **Only admission raises a command collision.** -/
theorem applyFilledPaperOrder_avoids {o : PaperOrder}
    (hreserve : ∀ f, paperFillCommand o now = .ok f →
      Avoids commandCollision (reservePaperFillOrder t f)) :
    Avoids commandCollision (applyFilledPaperOrder t o now) := by
  refine .bind paperFillCommand_avoids fun f hf => .bind (hreserve f hf) fun answer _ => ?_
  obtain ⟨answer, t'⟩ := answer
  dsimp only
  split
  · exact .pure
  · refine .bind lockedPaperFillPosition_avoids fun position _ =>
      .bind paperPositionExpectationOutcome_avoids fun early _ => ?_
    split
    · exact .pure
    · refine .bind paperStaleReduceOnlyOutcome_avoids fun stale _ => ?_
      split
      · exact .pure
      · exact fillPaperOrder_avoids

end AefTerminal
