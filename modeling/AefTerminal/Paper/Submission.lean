import AefTerminal.Paper.Repository

/-!
# Submitting a paper order

`submit_paper_order_execution` reserves a command, resolves the order against the price it is shown
and then rejects or fills it. Each of these is a transaction of its own, and anything may happen
between two of them: another client submits the same command, somebody cancels the order or stores
a rejection. A client that finds its command id taken by another command of the same signal
generation goes on with the stored one, and a client that lost the race for a rejection submits
again; both call the function from within itself.

The resolver stands for `transition_resolver` on the snapshot of the call. What it fills, it fills
at the resolved time, with levels of its own.

## Main definitions

* `PaperExecutionTransition`, `PaperExecutionSubmission`
* `SubmissionStep`: the next transaction of a call
* `Submitter.advance`: one transaction of `submit_paper_order_execution`
* `SubmissionSystem.step`, `SubmissionSystem.Step`: the calls and everybody else
-/

namespace AefTerminal

open Foundation

/-! ### What is asked for and what is answered -/

/-- What `transition_resolver` makes of an order. -/
inductive PaperExecutionTransition
  | pending (code message : String)
  | priceUnavailable (code message : String)
  | rejected (code message : String)
  | filled (fillPrice : ℚ) (stopLoss target : Option ℚ)

inductive PaperSubmissionOutcome
  | pending | filled | noOp | cancelled | rejected
  deriving DecidableEq, Repr

/-- The answer of a submission. -/
structure PaperExecutionSubmission where
  outcome : PaperSubmissionOutcome
  replayed : Bool
  order : SavedOrder
  result : Option PaperFillResult
  code : String
  message : String

/-- The arguments of a submission. -/
structure PaperSubmissionRequest where
  order : PaperOrder
  resolver : SavedOrder → Time → PaperExecutionTransition
  /-- The time of the snapshot. -/
  snapshotTs : Option Time
  executionAt : Option Time

/-- How the function was entered: by its caller, with the stored command after a collision, or
again after a race for a rejection. -/
inductive SubmissionEntry
  | first | resumed | reentered
  deriving DecidableEq, Repr

/-- What a call does next. -/
inductive SubmissionStep
  | reserve
  | readCollided
  | replay (o : SavedOrder)
  | reject (resolvedAt : Time) (code message : String)
  | reconcile (resolvedAt : Time)
  | fill (o : PaperOrder)
  /-- Nothing but to return. -/
  | conclude (s : PaperExecutionSubmission)
  | returned (s : PaperExecutionSubmission)
  | raised (e : PaperError)

/-- A call of `submit_paper_order_execution`. -/
structure Submitter where
  request : PaperSubmissionRequest
  entry : SubmissionEntry
  step : SubmissionStep

def Submitter.start (request : PaperSubmissionRequest) : Submitter := ⟨request, .first, .reserve⟩

/-! ### The stored command -/

/-- `read_paper_order` of an ordinary instrument. -/
def readPaperOrder (t : PaperTables) (id instrumentId routeFingerprint : String) :
    Except PaperError (Option SavedOrder) :=
  match t.orders.get? id with
  | none => .ok none
  | some row =>
    if (PaperScopeFilter.mk instrumentId routeFingerprint none).admits row.document.identity then
      some <$> paperOrderFromRow id row
    else .ok none

/-- A key of a payload that is carried as it is stored. -/
def PaperOrderPayload.key (p : PaperOrderPayload) (name : String) : Option String :=
  (p.metadata.find? fun entry => entry.1 = name).map Prod.snd

def stableGenerationKeys : List String :=
  ["trade_id", "analysis_generation", "analysis_bar_ts", "planned_entry"]

/-- The stored command is of the signal generation asked for. -/
def SameGeneration (requested collided : PaperOrderPayload) : Prop :=
  (requested.key "trade_id").getD "" ≠ "" ∧ (requested.key "analysis_generation").getD "" ≠ "" ∧
    ∀ name ∈ stableGenerationKeys, collided.key name = requested.key name

instance (requested collided : PaperOrderPayload) : Decidable (SameGeneration requested collided) :=
  inferInstanceAs (Decidable (_ ∧ _ ∧ _))

/-- The order a collided client goes on with: the stored command with the payload of the row. -/
def OrderRow.resumeOrder (row : OrderRow) : PaperOrder :=
  { row.document.createCommand.toOrder with
    payload := some row.document.payload
    status := some .pending
    createdAt := some row.createdAt
    updatedAt := some row.updatedAt }

/-- `mark_order_filled` of a stored order under the levels of its fill. -/
def SavedOrder.fillOrder (o : SavedOrder) (fillPrice : ℚ) (stopLoss target : Option ℚ)
    (filledAt : Time) : PaperOrder :=
  { o.toOrder with
    stopLoss
    target
    status := some .filled
    filledAt := some filledAt
    fillPrice := some fillPrice
    updatedAt := some filledAt }

/-! ### Answers -/

/-- The answer for an order that is filled already. -/
def replayedSubmission (outcome : PaperSubmissionOutcome) (result : PaperFillResult) :
    PaperExecutionSubmission :=
  ⟨outcome, true, result.order, some result, "PAPER_ORDER_REPLAYED",
    "paper order command is already filled"⟩

/-- The answer for an order that is cancelled already. -/
def cancelledSubmission (o : SavedOrder) : PaperExecutionSubmission :=
  let rejection := o.row.document.executionRejection
  ⟨if rejection.isSome then .rejected else .cancelled, true, o, none,
    textOr (rejection.map PaperRejection.code) "PAPER_ORDER_ALREADY_CANCELLED",
    textOr (rejection.map PaperRejection.reason) "paper order command is already cancelled"⟩

def committedOutcome (result : PaperFillResult) : PaperSubmissionOutcome :=
  match result.outcome with
  | .filled => .filled
  | .noOp => .noOp
  | .cancelled =>
    if result.order.row.document.executionRejection.isSome then .rejected else .cancelled

/-- The answer after an application. -/
def filledSubmission (result : PaperFillResult) : PaperExecutionSubmission :=
  let rejection := result.order.row.document.executionRejection
  ⟨committedOutcome result, decide (result.outcome = .noOp), result.order, some result,
    (rejection.map PaperRejection.code).getD "", (rejection.map PaperRejection.reason).getD ""⟩

/-! ### The transactions -/

namespace Submitter

variable (c : Submitter) (t : PaperTables) (now : Time)

def goTo (step : SubmissionStep) : Submitter := { c with step }

/-- The scope of the queries: the route asked for, and no option. -/
def filter : PaperScopeFilter := ⟨c.request.order.instrumentId, c.request.order.routeFingerprint, none⟩

def resolvedAt : Time := (c.request.executionAt <|> c.request.snapshotTs).getD now

/-- From the resolver on, with the pending order that is stored. -/
def resolve (saved : SavedOrder) : SubmissionStep :=
  match c.request.resolver saved (c.resolvedAt now) with
  | .pending code message | .priceUnavailable code message =>
    .conclude ⟨.pending, false, saved, none, code, message⟩
  | .rejected code message => .reject (c.resolvedAt now) code message
  | .filled fillPrice stopLoss target =>
    .fill (saved.fillOrder fillPrice stopLoss target (c.resolvedAt now))

/-- The check of a reservation, and the branch on its status. -/
def reserved (saved : SavedOrder) : SubmissionStep :=
  if saved.id ≠ c.request.order.id ∨
      saved.row.document.identity.instrumentId ≠ c.request.order.instrumentId ∨
      saved.row.document.identity.routeFingerprint ≠ c.request.order.routeFingerprint then
    .raised ⟨"PAPER_ORDER_RESERVATION_IDENTITY_MISMATCH"⟩
  else match saved.row.status with
    | .filled => .replay saved
    | .cancelled => .conclude (cancelledSubmission saved)
    | .pending => c.resolve now saved

/-- A signal's command may find its id taken by another command of its generation. -/
def Collides (e : PaperError) : Prop :=
  e = ⟨"PAPER_ORDER_ID_COMMAND_COLLISION"⟩ ∧ "sig-".toList.isPrefixOf c.request.order.id.toList

instance (e : PaperError) : Decidable (c.Collides e) := inferInstanceAs (Decidable (_ ∧ _))

def advanceReserve : Submitter × PaperTables :=
  match upsertPaperOrder t c.request.order now with
  | .ok (saved, t) => (c.goTo (c.reserved now saved), t)
  | .error e => (c.goTo (if c.Collides e then .readCollided else .raised e), t)

def advanceReadCollided : Submitter :=
  let order := c.request.order
  match readPaperOrder t order.id order.instrumentId order.routeFingerprint with
  | .error e => c.goTo (.raised e)
  | .ok none => c.goTo (.raised ⟨"PAPER_ORDER_ID_COMMAND_COLLISION"⟩)
  | .ok (some collided) =>
    if SameGeneration (order.payload.getD .empty) collided.row.document.createCommand.payload then
      ⟨{ c.request with order := collided.row.resumeOrder }, .resumed, .reserve⟩
    else c.goTo (.raised ⟨"PAPER_ORDER_ID_COMMAND_COLLISION"⟩)

def advanceReplay (o : SavedOrder) : Submitter × PaperTables :=
  match applyFilledPaperOrder t o.toOrder now with
  | .error e => (c.goTo (.raised e), t)
  | .ok (result, t) =>
    match result.outcome with
    | .cancelled => (c.goTo (.raised ⟨"PAPER_ORDER_REPLAY_RESULT_INVALID"⟩), t)
    | .filled => (c.goTo (.conclude (replayedSubmission .filled result)), t)
    | .noOp => (c.goTo (.conclude (replayedSubmission .noOp result)), t)

def advanceReject (resolvedAt : Time) (code message : String) : Submitter × PaperTables :=
  match rejectPaperOrderExecutionIfPending t c.request.order.id (some resolvedAt) c.filter code
    message now with
  | .error e => (c.goTo (.raised e), t)
  | .ok (none, t) => (c.goTo (.reconcile resolvedAt), t)
  | .ok (some cancelled, t) =>
    (c.goTo (.conclude ⟨.rejected, false, cancelled, none, code, message⟩), t)

def advanceReconcile (resolvedAt : Time) : Submitter × PaperTables :=
  match upsertPaperOrder t c.request.order now with
  | .error e => (c.goTo (.raised e), t)
  | .ok (saved, t) =>
    if saved.row.status = .pending then
      (c.goTo (.raised ⟨"PAPER_ORDER_REJECTION_RACE_UNRESOLVED"⟩), t)
    else (⟨{ c.request with executionAt := some resolvedAt }, .reentered, .reserve⟩, t)

def advanceFill (o : PaperOrder) : Submitter × PaperTables :=
  match applyFilledPaperOrder t o now with
  | .error e => (c.goTo (.raised e), t)
  | .ok (result, t) => (c.goTo (.conclude (filledSubmission result)), t)

/-- The next transaction of the call, if it has not ended. -/
def advance : Option (Submitter × PaperTables) :=
  match c.step with
  | .reserve => some (c.advanceReserve t now)
  | .readCollided => some (c.advanceReadCollided t, t)
  | .replay o => some (c.advanceReplay t now o)
  | .reject resolvedAt code message => some (c.advanceReject t now resolvedAt code message)
  | .reconcile resolvedAt => some (c.advanceReconcile t now resolvedAt)
  | .fill o => some (c.advanceFill t now o)
  | .conclude s => some (c.goTo (.returned s), t)
  | .returned _ | .raised _ => none

/-- The call has returned or raised. -/
def ended : Bool :=
  match c.step with
  | .returned _ | .raised _ => true
  | _ => false

end Submitter

/-! ### Concurrent submissions -/

/-- The journal and the calls of `submit_paper_order_execution` by number. -/
structure SubmissionSystem where
  tables : PaperTables
  submitters : Dict ℕ Submitter

namespace SubmissionSystem

inductive Act
  | submit (c : ℕ) (request : PaperSubmissionRequest)
  | advance (c : ℕ) (now : Time)
  /-- A transaction of the call raises for a reason outside the journal. -/
  | fail (c : ℕ) (e : PaperError)
  /-- Somebody else calls the repository. -/
  | outside (call : PaperAct)

/-- Other calls leave the facts of order `id` to its submitters; they may place it, cancel it, store
a rejection or move its level. -/
def Outside (id : String) : PaperAct → Prop
  | .updateIfPending o _ _ _ => o.id ≠ id
  | .apply o _ => o.id ≠ id
  | _ => True

/-- The acts around the command `id`. -/
def Concerns (id : String) : Act → Prop
  | .submit _ request => request.order.id = id
  | .outside call => Outside id call
  | _ => True

def step (s : SubmissionSystem) : Act → Option SubmissionSystem
  | .submit c request =>
    match s.submitters.get? c with
    | some _ => none
    | none => some { s with submitters := s.submitters.insert c (.start request) }
  | .advance c now =>
    match s.submitters.get? c with
    | none => none
    | some sub => (sub.advance s.tables now).map fun r => ⟨r.2, s.submitters.insert c r.1⟩
  | .fail c e =>
    match s.submitters.get? c with
    | none => none
    | some sub =>
      if sub.ended then none
      else some { s with submitters := s.submitters.insert c (sub.goTo (.raised e)) }
  | .outside call => some { s with tables := s.tables.perform call }

/-- Any interleaving of submissions of the command `id` with calls of others. -/
def Step (id : String) : SubmissionSystem → Act → SubmissionSystem → Prop :=
  Guarded (fun _ a => Concerns id a) (StepOf step)

end SubmissionSystem

end AefTerminal
