import Mathlib.Data.List.Induction
import AefTerminal.Foundation.Dict
import AefTerminal.Domain.Rounding
import AefTerminal.Discord.Events

/-!
# The replay of a feed into positions

`project_discord_signal_lifecycle` replays one author's events, in order, into positions of which
at most one is active. Every event leaves one link: the position it was taken to speak of, and
what it did to it.

The active position is the last one opened, and every write of the replay goes to it. It is kept
apart from the past positions: where the source writes to the object that the list of positions,
the table by id and the active reference share, `active` is written.

## Main definitions

* `Lifecycle.step`, `Lifecycle.replay`, `Lifecycle.project`: one round of the loop, the loop and
  the projection
-/

namespace AefTerminal

open Foundation

namespace Discord

inductive PositionState
  | opened | closed | expiredUnresolved
deriving DecidableEq, Repr

/-- What ended a position: an event, or the expiry that went by. -/
inductive TerminalEvidence
  | event (eventId : String)
  | expiry (expiry : CivilDate)
deriving DecidableEq

structure Leg where
  eventId : String
  messageId : String
  channelId : String
  publishedAt : Time
  premium : Option ℚ
  quantity : Option ℤ
  soldQuantity : Option ℤ
  remainingQuantity : Option ℤ
  remainingFraction : Option ℚ

structure StopUpdate where
  eventId : String
  messageId : String
  publishedAt : Time
  mode : Option String
  value : Option ℚ
  basis : Option String

/-- How much of a position is left, in contracts and as a fraction. -/
structure Sizes where
  initialQuantity : Option ℤ
  remainingQuantity : Option ℤ
  remainingFraction : ℚ
  partialExitSizeUnknown : Bool

/-- A position. Its strike and right are those of the contract it was opened with. -/
structure Position where
  positionId : String
  state : PositionState
  sourceUnderlying : Option String
  sourceSessionDate : Option CivilDate
  expiry : Option CivilDate
  reportedDte : Option ℕ
  strike : ℚ
  optionRight : String
  entryEventId : String
  entryAt : Time
  entryPremium : Option ℚ
  entryAveragePremium : Option ℚ
  entryAverageUnknown : Bool
  entryLegs : List Leg
  exitLegs : List Leg
  exitEventId : Option String
  exitAt : Option Time
  exitPremium : Option ℚ
  exitReason : Option String
  exitPriceStatus : Option String
  terminalReason : Option String
  terminalEvidence : Option TerminalEvidence
  sizes : Sizes
  authorReportedReturnPct : Option ℚ
  calculatedPoints : Option ℚ
  calculatedReturnPct : Option ℚ
  outcomeCategory : Option String
  pnlDirection : Option String
  expiredUnresolvedAsOf : Option CivilDate
  stopUpdates : List StopUpdate
  stopDeclarationCount : ℕ
  stopOverrideCount : ℕ
  stopNotExecutedCount : ℕ
  latestStopEventId : Option String
  latestStopMode : Option String
  latestStopValue : Option ℚ
  latestStopBasis : Option String
  stopExecutionEventId : Option String
  eventIds : List String

structure Link where
  lifecycleStatus : String
  positionId : String
  linkBasis : Option String
  effectiveAction : Option SignalAction
deriving DecidableEq

/-- `stable_hash` of a contract and the event that opened it. It is taken as free of collisions
between opening events, and its text is never empty. -/
structure PositionIds where
  id : ContractKey → String → String
  eq_of_id_eq : ∀ {k k' : ContractKey} {e e' : String}, id k e = id k' e' → e = e'
  id_ne_empty : ∀ k e, id k e ≠ ""

/-- Position ids that are the event's own. -/
def entryIds : PositionIds where
  id _ eventId := "p" ++ eventId
  eq_of_id_eq h := (String.append_right_inj "p").mp h
  id_ne_empty _ _ h := by simpa using congrArg String.toList h

/-- `text or fallback`. -/
def orText (text fallback : String) : String := if text = "" then fallback else text

/-- The text, unless it is absent or empty. -/
def givenText (text : Option String) : Option String := text.filter (· ≠ "")

/-! ### How much is left -/

namespace Sizes

/-- `_refresh_remaining_fraction`. -/
def refreshRemainingFraction (sizes : Sizes) : Sizes :=
  match sizes.initialQuantity, sizes.remainingQuantity with
  | some initial, some remaining =>
    if 0 < initial then
      { sizes with remainingFraction := roundDigits 8 (remaining / initial) }
    else sizes
  | _, _ => sizes

def forget (sizes : Sizes) : Sizes :=
  { sizes with initialQuantity := none, remainingQuantity := none }

/-- Nothing is left. -/
def settle (sizes : Sizes) : Sizes :=
  { sizes with remainingQuantity := some 0, remainingFraction := 0 }

/-- `_apply_add_quantity`. -/
def applyAddQuantity (sizes : Sizes) (event : SignalEvent) : Sizes :=
  match event.quantity with
  | none => sizes.forget
  | some quantity =>
    if quantity ≤ 0 then sizes.forget
    else
      match sizes.initialQuantity, sizes.remainingQuantity with
      | some initial, some remaining =>
        { sizes with
          initialQuantity := some (initial + quantity)
          remainingQuantity := some (remaining + quantity) }.refreshRemainingFraction
      | _, _ => sizes.forget

/-- The remaining quantity a reduction reports, or leaves of a known one. -/
def reducedQuantity (sizes : Sizes) (event : SignalEvent) : Option ℤ :=
  match event.remainingQuantity, event.soldQuantity, sizes.remainingQuantity with
  | some remaining, _, _ => some remaining
  | none, some sold, some knownBefore => some (max (knownBefore - sold) 0)
  | none, _, _ => none

/-- A fraction the event reports. -/
def report (sizes : Sizes) (event : SignalEvent) : Sizes :=
  match event.remainingFraction with
  | some fraction => { sizes with remainingFraction := fraction }
  | none => sizes

/-- `_apply_reduction` without its answer. -/
def applyReduction (sizes : Sizes) (event : SignalEvent) : Sizes :=
  let reduced :=
    match sizes.reducedQuantity event, event.remainingFraction with
    | some remaining, _ =>
      { sizes with
        remainingQuantity := some remaining
        initialQuantity :=
          match sizes.initialQuantity, event.soldQuantity with
          | none, some sold => some (remaining + sold)
          | initial, _ => initial }.refreshRemainingFraction
    | none, some fraction => { sizes with remainingFraction := fraction }
    | none, none => { sizes with partialExitSizeUnknown := true }
  reduced.report event

/-- The answer of `_apply_reduction`. -/
def FullyReduced (sizes : Sizes) : Prop :=
  sizes.remainingQuantity = some 0 ∨ sizes.remainingFraction = 0

instance (sizes : Sizes) : Decidable sizes.FullyReduced :=
  inferInstanceAs (Decidable (_ ∨ _))

/-- The quantities of a position update: the holding it reports. -/
def applyPositionUpdate (sizes : Sizes) (event : SignalEvent) : Sizes :=
  let updated :=
    match event.remainingQuantity.or event.quantity with
    | some remaining =>
      { sizes with remainingQuantity := some remaining }.refreshRemainingFraction
    | none => sizes
  updated.report event

end Sizes

/-! ### One position -/

/-- `_leg`. -/
def leg (event : SignalEvent) : Leg where
  eventId := event.eventId
  messageId := event.messageId
  channelId := event.channelId
  publishedAt := event.publishedAt
  premium := event.reportedPremium
  quantity := event.quantity
  soldQuantity := event.soldQuantity
  remainingQuantity := event.remainingQuantity
  remainingFraction := event.remainingFraction

/-- `_open_position`, for an event that names a contract. -/
def openPosition (ids : PositionIds) (key : ContractKey) (event : SignalEvent) : Position where
  positionId := ids.id key event.eventId
  state := .opened
  sourceUnderlying := event.sourceUnderlying
  sourceSessionDate := event.sourceSessionDate
  expiry := event.expiry
  reportedDte := event.reportedDte
  strike := key.strike
  optionRight := key.right
  entryEventId := event.eventId
  entryAt := event.publishedAt
  entryPremium := event.reportedPremium
  entryAveragePremium := event.reportedPremium
  entryAverageUnknown := false
  entryLegs := [leg event]
  exitLegs := []
  exitEventId := none
  exitAt := none
  exitPremium := none
  exitReason := none
  exitPriceStatus := none
  terminalReason := none
  terminalEvidence := none
  sizes :=
    { initialQuantity := event.quantity
      remainingQuantity := event.quantity
      remainingFraction := 1
      partialExitSizeUnknown := false }
  authorReportedReturnPct := none
  calculatedPoints := none
  calculatedReturnPct := none
  outcomeCategory := none
  pnlDirection := none
  expiredUnresolvedAsOf := none
  stopUpdates := []
  stopDeclarationCount := 0
  stopOverrideCount := 0
  stopNotExecutedCount := 0
  latestStopEventId := none
  latestStopMode := none
  latestStopValue := none
  latestStopBasis := none
  stopExecutionEventId := none
  eventIds := [event.eventId]

namespace Position

/-- `_position_contract_key`. -/
def contractKey (position : Position) : ContractKey where
  expiry :=
    match position.expiry with
    | some expiry => .dated expiry
    | none => .relative position.sourceSessionDate position.reportedDte
  strike := position.strike
  right := position.optionRight

/-- The part of `_link_event` that writes to the position. -/
def linkEvent (position : Position) (event : SignalEvent) : Position :=
  { position with eventIds := position.eventIds ++ [event.eventId] }

/-- `_refresh_entry_average`. -/
def refreshEntryAverage (position : Position) : Position :=
  let priced := position.entryLegs.mapM fun leg =>
    match leg.premium, leg.quantity with
    | some premium, some quantity => if quantity ≤ 0 then none else some (premium, quantity)
    | _, _ => none
  let average := priced.map fun legs =>
    let totalQuantity := (legs.map Prod.snd).sum
    let weighted := (legs.map fun leg => leg.1 * (leg.2 : ℚ)).sum
    roundDigits 8 (weighted / totalQuantity)
  { position with entryAverageUnknown := average.isNone, entryAveragePremium := average }

/-- The arm of an add. -/
def takeAdd (position : Position) (event : SignalEvent) : Position :=
  let linked := position.linkEvent event
  { linked with
    entryLegs := linked.entryLegs ++ [leg event]
    sizes := linked.sizes.applyAddQuantity event }.refreshEntryAverage

/-- The arm of a reduction, up to its end. -/
def takeReduction (position : Position) (event : SignalEvent) : Position :=
  let linked := position.linkEvent event
  { linked with
    exitLegs := linked.exitLegs ++ [leg event]
    sizes := linked.sizes.applyReduction event }

/-- The arm of a position update. -/
def takePositionUpdate (position : Position) (event : SignalEvent) : Position :=
  let linked := position.linkEvent event
  { linked with sizes := linked.sizes.applyPositionUpdate event }

/-- The arm of a stop update. -/
def takeStopUpdate (position : Position) (event : SignalEvent) : Position :=
  let linked := position.linkEvent event
  let declares : Prop := event.stopMode ∈ [some "declared", some "moved", some "breakeven"]
  let declarations :=
    if declares then position.stopDeclarationCount + 1 else position.stopDeclarationCount
  { linked with
    stopUpdates := linked.stopUpdates ++
      [{ eventId := event.eventId, messageId := event.messageId,
         publishedAt := event.publishedAt, mode := event.stopMode, value := event.stopValue,
         basis := event.stopBasis }]
    stopDeclarationCount := declarations
    stopOverrideCount := if declares then declarations - 1 else position.stopOverrideCount
    stopNotExecutedCount :=
      if event.stopMode = some "not_executed" then position.stopNotExecutedCount + 1
      else position.stopNotExecutedCount
    latestStopEventId := some event.eventId
    latestStopMode := event.stopMode
    latestStopValue := event.stopValue
    latestStopBasis := event.stopBasis }

/-- `_terminalize_position`. -/
def terminalize (position : Position) (event : SignalEvent) (terminalReason : String) :
    Position :=
  { position with
    state := .closed
    sizes := position.sizes.settle
    exitEventId := some event.eventId
    exitAt := some event.publishedAt
    exitPremium := event.reportedPremium
    exitReason := event.exitReason
    exitPriceStatus := some (if event.reportedPremium.isSome then "reported_fill" else "missing")
    terminalReason := some terminalReason
    terminalEvidence := some (.event event.eventId) }

/-- `_terminalize_without_fill`. -/
def terminalizeWithoutFill (position : Position) (boundaryEvent : SignalEvent) : Position :=
  { position with
    state := .closed
    eventIds := position.eventIds ++ [boundaryEvent.eventId]
    sizes := position.sizes.settle
    exitEventId := some boundaryEvent.eventId
    exitAt := some boundaryEvent.publishedAt
    exitPremium := none
    exitReason := some "superseded"
    exitPriceStatus := some "missing"
    terminalReason := some
      (if some position.optionRight ≠ boundaryEvent.optionRight then "flipped_by_entry"
        else "replaced_by_entry")
    terminalEvidence := some (.event boundaryEvent.eventId)
    outcomeCategory := some "unknown"
    pnlDirection := none }

/-- The direction of a change of price or of a return. -/
def direction (change : ℚ) : String :=
  if 0 < change then "profit" else if change < 0 then "loss" else "breakeven"

/-- `_finalize_outcome`. -/
def finalizeOutcome (position : Position) (event : SignalEvent)
    (reportedReturnOverride : Option ℚ) (stopExecution : Bool) : Position :=
  let priced : Option (ℚ × ℚ) :=
    match position.entryAveragePremium, event.reportedPremium with
    | some entry, some exit => if 0 < entry then some (entry, exit - entry) else none
    | _, _ => none
  let reportedReturn := reportedReturnOverride.or event.reportedReturnPct
  let completePricePair :=
    if ¬ position.sizes.partialExitSizeUnknown ∧ position.exitLegs.length = 1 ∧
      ¬ position.entryAverageUnknown then priced else none
  let pnlDirection :=
    (completePricePair.map fun pair => direction pair.2).or (reportedReturn.map direction)
  { position with
    authorReportedReturnPct := reportedReturn.or position.authorReportedReturnPct
    calculatedPoints :=
      (completePricePair.map fun pair => roundDigits 4 pair.2).or position.calculatedPoints
    calculatedReturnPct :=
      (completePricePair.map fun pair => roundDigits 4 (pair.2 / pair.1 * 100)).or
        position.calculatedReturnPct
    pnlDirection := pnlDirection
    outcomeCategory := some <|
      if stopExecution then "stop"
      else ((givenText event.outcomeHint).or pnlDirection).getD "unknown" }

/-- The reason `_close_position` gives. -/
def closeReason (event : SignalEvent) : String :=
  match event.contextCue with
  | some .stopHit => "stop_hit"
  | some .flat => "flat_signal"
  | some .flattenCalls | some .flattenPuts => "side_flattened"
  | _ => (givenText event.exitReason).getD "explicit_exit"

/-- `_close_position`. -/
def close (position : Position) (event : SignalEvent) : Position :=
  let closed := { position with
    eventIds := position.eventIds ++ [event.eventId]
    exitLegs := position.exitLegs ++ [leg event] }.terminalize event (closeReason event)
  let stopExecution : Bool :=
    event.exitReason = some "stop" ∨ event.contextCue = some .stopHit
  let executed := { closed with
    stopExecutionEventId :=
      if stopExecution then some event.eventId else closed.stopExecutionEventId }
  let reportedReturnOverride : Option ℚ :=
    if stopExecution ∧ executed.latestStopMode = some "breakeven" ∧
      event.reportedReturnPct = none then some 0 else none
  executed.finalizeOutcome event reportedReturnOverride stopExecution

/-- The write of `_expire_elapsed_position` to a position whose expiry has gone by. -/
def expire (position : Position) (expiry sourceSessionDate : CivilDate) : Position :=
  { position with
    state := .expiredUnresolved
    sizes := position.sizes.settle
    expiredUnresolvedAsOf := some sourceSessionDate
    exitPriceStatus := some "missing"
    terminalReason := some "expiry_elapsed"
    terminalEvidence := some (.expiry expiry)
    outcomeCategory := some "unknown"
    pnlDirection := none }

/-- `_fallback_position_is_current`. -/
def IsCurrentFor (position : Position) (event : SignalEvent) : Prop :=
  match event.sourceSessionDate, position.expiry with
  | none, _ => False
  | some eventDate, some expiry => eventDate ≤ expiry
  | some eventDate, none => some eventDate = position.sourceSessionDate

instance (position : Position) (event : SignalEvent) : Decidable (position.IsCurrentFor event) := by
  unfold IsCurrentFor
  split <;> infer_instance

/-- `_event_matches_position_scope`. -/
def MatchesScope (position : Position) (event : SignalEvent) : Prop :=
  (∀ key ∈ event.contractKey, key = position.contractKey) ∧
    (∀ underlying ∈ event.sourceUnderlying,
      position.sourceUnderlying ∈ [none, some underlying]) ∧
    (event.contextCue = some .flattenCalls ∨ event.contextCue = some .flattenPuts →
      event.optionRight = some position.optionRight)

instance (position : Position) (event : SignalEvent) : Decidable (position.MatchesScope event) :=
  inferInstanceAs (Decidable (_ ∧ _))

/-- `_cue_resolution_status`, of a resolved position. -/
def cueResolutionStatus (position : Position) (event : SignalEvent) : Option String :=
  match event.contextCue with
  | some .stopHit =>
    if event.replyToMessageId.isSome ∧
      ¬ ∃ update ∈ position.stopUpdates, some update.messageId = event.replyToMessageId then
      some "reply_not_stop"
    else if position.stopDeclarationCount = 0 then some "stop_hit_without_active_stop"
    else none
  | some .bareSale =>
    if event.reportedPremium.isSome ∨ event.reportedReturnPct.isSome then none
    else if position.sizes.remainingQuantity = some 1 then none
    else some "ambiguous_bare_sale"
  | _ => none

end Position

/-! ### The replay -/

/-- The variables of the replay. -/
structure Lifecycle where
  /-- The positions that are not active, in the order they were opened. -/
  past : List Position
  /-- The active position, opened after all the others. -/
  active : Option Position
  positionIdByMessage : Dict String String
  links : Dict String Link
  unmatchedCount : ℕ

namespace Lifecycle

def init : Lifecycle where
  past := []
  active := none
  positionIdByMessage := Dict.empty
  links := Dict.empty
  unmatchedCount := 0

/-- `positions`. -/
def positions (s : Lifecycle) : List Position := s.past ++ s.active.toList

/-- `positions_by_id`, where the later of two positions replaces the earlier. -/
def positionById (s : Lifecycle) (id : String) : Option Position :=
  s.positions.reverse.find? fun position => position.positionId = id

/-- `_expire_elapsed_position` on the active position. -/
def expireElapsed (s : Lifecycle) (sourceSessionDate : CivilDate) : Lifecycle :=
  match s.active with
  | none => s
  | some active =>
    match active.expiry with
    | none => s
    | some expiry =>
      if sourceSessionDate ≤ expiry then s
      else { s with past := s.past ++ [active.expire expiry sourceSessionDate], active := none }

/-- What the session date of an event expires. -/
def expireFor (s : Lifecycle) (event : SignalEvent) : Lifecycle :=
  match event.sourceSessionDate with
  | some sourceSessionDate => s.expireElapsed sourceSessionDate
  | none => s

/-- `_resolve_active_position`. -/
def resolveActivePosition (s : Lifecycle) (event : SignalEvent) : Option Position × String :=
  match event.replyToMessageId with
  | some parent =>
    match s.positionIdByMessage.get? parent with
    | none => (none, "reply_unknown")
    | some repliedId =>
      match s.positionById repliedId, s.active with
      | some replied, some active =>
        if replied.state ≠ .opened ∨ replied.positionId ≠ active.positionId then
          (none, "reply_terminal")
        else if ¬ replied.MatchesScope event then (none, "reply_scope_mismatch")
        else (some replied, "reply")
      | _, _ => (none, "reply_terminal")
  | none =>
    match s.active with
    | none => (none, "no_active_position")
    | some active =>
      match event.contractKey with
      | some key =>
        if active.contractKey ≠ key then (none, "contract_mismatch") else (some active, "contract")
      | none =>
        if s.positionIdByMessage.get? event.messageId = some active.positionId then
          (some active, "same_message")
        else if ¬ active.IsCurrentFor event then (none, "stale_context")
        else if ¬ active.MatchesScope event then (none, "active_scope_mismatch")
        else (some active, "active_position")

/-- A link to no position. -/
def advise (s : Lifecycle) (event : SignalEvent) (status : String) : Lifecycle :=
  { s with links := s.links.insert event.eventId ⟨status, "", none, none⟩ }

/-- An event that finds no position. -/
def unmatched (s : Lifecycle) (event : SignalEvent) (status : String) : Lifecycle :=
  { s with unmatchedCount := s.unmatchedCount + 1 }.advise event status

/-- The links of an event that names a position. -/
def name (s : Lifecycle) (event : SignalEvent) (link : Link) : Lifecycle :=
  { s with
    positionIdByMessage := s.positionIdByMessage.insert event.messageId link.positionId
    links := s.links.insert event.eventId link }

/-- The active position is written and stays active. -/
def keep (s : Lifecycle) (event : SignalEvent) (position : Position) (status basis : String)
    (effectiveAction : SignalAction) : Lifecycle :=
  { s with active := some position }.name event
    ⟨status, position.positionId, some basis, some effectiveAction⟩

/-- The active position is written and is active no more. -/
def conclude (s : Lifecycle) (event : SignalEvent) (position : Position)
    (status basis : String) : Lifecycle :=
  { s with past := s.past ++ [position], active := none }.name event
    ⟨status, position.positionId, some basis, some .exit⟩

/-- A position is opened where none is active. -/
def start (s : Lifecycle) (event : SignalEvent) (position : Position) (status : String) :
    Lifecycle :=
  { s with active := some position }.name event
    ⟨status, position.positionId, some "global_sequence", some .entry⟩

/-- The arm of an entry. -/
def entry (ids : PositionIds) (s : Lifecycle) (event : SignalEvent) : Lifecycle :=
  match event.contractKey with
  | none => s.unmatched event "unmatched_entry"
  | some key =>
    match s.active with
    | none => s.start event (openPosition ids key event) "opened"
    | some active =>
      if active.contractKey = key then
        s.keep event (active.linkEvent event) "entry_rebroadcast" "same_contract" .commentary
      else
        { s with past := s.past ++ [active.terminalizeWithoutFill event], active := none }.start
          event (openPosition ids key event)
          (if some active.optionRight ≠ event.optionRight then "opened_after_flip"
            else "opened_after_replacement")

/-- The arm of a context cue. -/
def cue (s : Lifecycle) (event : SignalEvent) : Lifecycle :=
  match s.resolveActivePosition event with
  | (none, basis) => s.unmatched event (orText basis "ambiguous_open_position")
  | (some position, basis) =>
    match position.cueResolutionStatus event with
    | some status => s.unmatched event status
    | none =>
      s.conclude event (position.close event)
        (if event.contextCue = some .stopHit then "stopped" else "closed") basis

/-- The arm of an add while no position is active. -/
def openFromAdd (ids : PositionIds) (s : Lifecycle) (event : SignalEvent) : Lifecycle :=
  match event.contractKey with
  | none => s.unmatched event "unmatched_add"
  | some key => s.start event (openPosition ids key event) "opened_from_add"

/-- The arm of a reduction, of its resolved position. -/
def reduce (s : Lifecycle) (event : SignalEvent) (position : Position) (basis : String) :
    Lifecycle :=
  let reduced := position.takeReduction event
  if reduced.sizes.FullyReduced then
    s.conclude event (reduced.terminalize event "fully_reduced") "closed" basis
  else s.keep event reduced "reduced" basis .reduce

/-- The arms that resolve a position first. -/
def manage (s : Lifecycle) (event : SignalEvent) : Lifecycle :=
  match s.resolveActivePosition event, event.action with
  | (none, basis), .add => s.unmatched event (orText basis "unmatched_add")
  | (some position, basis), .add => s.keep event (position.takeAdd event) "added" basis .add
  | (none, basis), .reduce => s.unmatched event (orText basis "unmatched_contract")
  | (some position, basis), .reduce => s.reduce event position basis
  | (none, basis), .exit => s.unmatched event (orText basis "unmatched_contract")
  | (some position, basis), .exit =>
    s.conclude event (position.close event)
      (if event.exitReason = some "stop" then "stopped" else "closed") basis
  | (none, basis), .stopUpdate => s.unmatched event (orText basis "ambiguous_open_position")
  | (some position, basis), .stopUpdate =>
    s.keep event (position.takeStopUpdate event) "stop_updated" basis .stopUpdate
  | (none, basis), .positionUpdate => s.unmatched event (orText basis "ambiguous_open_position")
  | (some position, basis), .positionUpdate =>
    s.keep event (position.takePositionUpdate event) "position_updated" basis
      .positionUpdate
  | _, _ => s.advise event "advisory_only"

/-- What an event does once its session date has expired what it expires. -/
def take (ids : PositionIds) (s : Lifecycle) (event : SignalEvent) : Lifecycle :=
  if ¬ event.Parsed then s.advise event "advisory_only"
  else if event.action = .entry then s.entry ids event
  else if event.contextCue.isSome then s.cue event
  else if event.action = .add ∧ s.active.isNone then s.openFromAdd ids event
  else s.manage event

/-- One round of the loop. -/
def step (ids : PositionIds) (s : Lifecycle) (event : SignalEvent) : Lifecycle :=
  (s.expireFor event).take ids event

/-- The loop. -/
def run (ids : PositionIds) (events : List SignalEvent) : Lifecycle :=
  events.foldl (step ids) init

/-- The loop over the events in order. -/
def replay (ids : PositionIds) (events : List SignalEvent) : Lifecycle :=
  run ids (inOrder events)

theorem run_snoc (ids : PositionIds) (events : List SignalEvent) (event : SignalEvent) :
    run ids (events ++ [event]) = step ids (run ids events) event := by
  rw [run, List.foldl_append]
  rfl

/-- `project_discord_signal_lifecycle`, up to the statistics of its result. -/
def project (ids : PositionIds) (events : List SignalEvent) (asOfSessionDate : CivilDate) :
    Except String Lifecycle :=
  if ∃ event ∈ events, ∃ session ∈ event.sourceSessionDate, asOfSessionDate < session then
    .error "as_of_session_date precedes projected events"
  else
    let final := (replay ids events).expireElapsed asOfSessionDate
    if 1 < (final.positions.filter fun position => position.state = .opened).length then
      .error "DISCORD_SIGNAL_MULTIPLE_ACTIVE_POSITIONS"
    else .ok final

end Lifecycle

end Discord

end AefTerminal
