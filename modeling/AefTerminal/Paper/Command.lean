import AefTerminal.Paper.Contract

/-!
# Paper orders and their immutable commands

An order arrives as a loose record: flags and texts may be absent, texts may carry white space,
a manual close leaves side, quantity and entry to the position. Its command is the canonical form
of the facts that must not change under one order id; the journal stores it twice and compares it
on every replay.

A command is itself an order, and the command of a command is the command (`toOrder_command`).
Everything that recomputes a command rests on this.

## Main definitions

* `PaperOrder`, `PaperCommand`
* `paperOrderCommandPayload`: the command of an order, or a rejection

## Main results

* `paperOrderCommandPayload_eq_ok`: what an accepted order looks like
* `paperOrderCommandPayload_toOrder`: normalisation is idempotent
-/

namespace AefTerminal

open Foundation

/-- The canonical facts of one order. -/
structure PaperCommand where
  id : String
  instrumentId : String
  routeFingerprint : String
  symbol : String
  provider : String
  providerContractId : String
  paperContract : PaperContractIdentity
  timeframe : String
  side : Option PaperSide
  orderType : PaperOrderType
  qty : Option ℚ
  entry : Option ℚ
  stopLoss : Option ℚ
  target : Option ℚ
  useStopLoss : Bool
  useTarget : Bool
  role : PaperRole
  positionId : Option String
  parentOrderId : Option String
  ocoGroupId : Option String
  reduceOnly : Bool
  source : String
  note : String
  exitReason : String
  payload : PaperOrderPayload
  deriving DecidableEq

inductive PaperOrderStatus
  | pending | filled | cancelled
  deriving DecidableEq, Repr

/-- An order as it arrives. An absent key is `none`; an empty id text counts as absent. -/
structure PaperOrder where
  id : String
  instrumentId : String
  routeFingerprint : String
  symbol : String
  provider : String
  providerContractId : String
  paperContract : Option PaperContractIdentity
  timeframe : String
  side : Option PaperSide
  orderType : PaperOrderType
  qty : Option ℚ
  entry : Option ℚ
  stopLoss : Option ℚ
  target : Option ℚ
  useStopLoss : Option Bool
  useTarget : Option Bool
  role : Option PaperRole
  positionId : Option String
  parentOrderId : Option String
  ocoGroupId : Option String
  reduceOnly : Option Bool
  source : Option String
  note : Option String
  exitReason : Option String
  payload : Option PaperOrderPayload
  /-- The key `requested_exit_price` is present. -/
  requestedExitPrice : Bool
  status : Option PaperOrderStatus
  createdAt : Option Time
  updatedAt : Option Time
  filledAt : Option Time
  fillPrice : Option ℚ
  createCommand : Option PaperCommand
  indicatorSource : Option String

/-- A command read as an order. -/
def PaperCommand.toOrder (c : PaperCommand) : PaperOrder where
  id := c.id
  instrumentId := c.instrumentId
  routeFingerprint := c.routeFingerprint
  symbol := c.symbol
  provider := c.provider
  providerContractId := c.providerContractId
  paperContract := some c.paperContract
  timeframe := c.timeframe
  side := c.side
  orderType := c.orderType
  qty := c.qty
  entry := c.entry
  stopLoss := c.stopLoss
  target := c.target
  useStopLoss := some c.useStopLoss
  useTarget := some c.useTarget
  role := some c.role
  positionId := c.positionId
  parentOrderId := c.parentOrderId
  ocoGroupId := c.ocoGroupId
  reduceOnly := some c.reduceOnly
  source := some c.source
  note := some c.note
  exitReason := some c.exitReason
  payload := some c.payload
  requestedExitPrice := false
  status := none
  createdAt := none
  updatedAt := none
  filledAt := none
  fillPrice := none
  createCommand := none
  indicatorSource := none

/-- An optional id: the empty text is no id. -/
def optionalId (id : Option String) : Option String :=
  id.bind fun text => if text = "" then none else some text

@[simp] theorem optionalId_optionalId (id : Option String) :
    optionalId (optionalId id) = optionalId id := by
  cases id with
  | none => rfl
  | some text => by_cases h : text = "" <;> simp [optionalId, h]

/-- A text whose absence and emptiness mean `default`. -/
def textOr (text : Option String) (default : String) : String :=
  match text with
  | none => default
  | some text => if text = "" then default else text

@[simp] theorem textOr_some_textOr (text : Option String) (default : String) :
    textOr (some (textOr text default)) default = textOr text default := by
  cases text with
  | none => by_cases h : default = "" <;> simp [textOr, h]
  | some text => by_cases h : text = "" <;> by_cases hd : default = "" <;> simp [textOr, h, hd]

/-- The role of an order, `entry` by default. -/
def PaperOrder.roleOrEntry (o : PaperOrder) : PaperRole := o.role.getD .entry

/-- An order reduces only by default when its role is to leave a position. -/
def PaperOrder.reduceOnlyOrRole (o : PaperOrder) : Bool :=
  o.reduceOnly.getD (decide (o.roleOrEntry ≠ .entry))

def PaperOrder.manualClose (o : PaperOrder) : Bool :=
  decide (o.roleOrEntry = .close) && o.reduceOnlyOrRole

/-- The command before it is checked. -/
def PaperOrder.draftCommand (o : PaperOrder) (contract : PaperContractIdentity) : PaperCommand where
  id := o.id
  instrumentId := o.instrumentId
  routeFingerprint := o.routeFingerprint
  symbol := strip o.symbol
  -- `.lower()` changes nothing: the contract check compared the text with a lower-case one
  provider := strip o.provider
  providerContractId := o.providerContractId
  paperContract := contract
  timeframe := strip o.timeframe
  side := if o.manualClose then none else o.side
  orderType := o.orderType
  qty := if o.manualClose then none else o.qty
  entry := if o.manualClose then none else o.entry
  stopLoss := o.stopLoss
  target := o.target
  useStopLoss := o.useStopLoss.getD o.stopLoss.isSome
  useTarget := o.useTarget.getD o.target.isSome
  role := o.roleOrEntry
  positionId := optionalId o.positionId
  parentOrderId := optionalId o.parentOrderId
  ocoGroupId := optionalId o.ocoGroupId
  reduceOnly := o.reduceOnlyOrRole
  source := textOr o.source "manual"
  note := textOr o.note ""
  exitReason := textOr o.exitReason ""
  payload := (o.payload.getD .empty).withoutExecutionConfig

/-- `PAPER_ORDER_COMMAND_INVALID` in the negative. -/
structure PaperCommand.WellFormed (c : PaperCommand) : Prop where
  symbol_ne : c.symbol ≠ ""
  provider_ne : c.provider ≠ ""
  timeframe_ne : c.timeframe ≠ ""
  /-- Side, quantity and entry are there, except for a manual close. -/
  shape : (c.role = .close ∧ c.reduceOnly = true) ∨
    (c.side.isSome ∧ (∃ q, c.qty = some q ∧ 0 < q) ∧ c.entry.isSome)

instance (c : PaperCommand) : Decidable c.WellFormed :=
  decidable_of_iff
    (c.symbol ≠ "" ∧ c.provider ≠ "" ∧ c.timeframe ≠ "" ∧
      ((c.role = .close ∧ c.reduceOnly = true) ∨
        (c.side.isSome ∧ (∃ q, c.qty = some q ∧ 0 < q) ∧ c.entry.isSome)))
    ⟨fun ⟨h₁, h₂, h₃, h₄⟩ => ⟨h₁, h₂, h₃, h₄⟩, fun ⟨h₁, h₂, h₃, h₄⟩ => ⟨h₁, h₂, h₃, h₄⟩⟩

/-- `_paper_order_command_payload`. -/
def paperOrderCommandPayload (o : PaperOrder) : Except PaperError PaperCommand := do
  let _ ← requireExactIdentityText o.id "PAPER_ORDER_ID"
  let _ ← requireExactIdentityText o.instrumentId "PAPER_ORDER_INSTRUMENT_ID"
  let _ ← requireExactIdentityText o.routeFingerprint "PAPER_ORDER_ROUTE_FINGERPRINT"
  let _ ← requireExactIdentityText o.providerContractId "PAPER_ORDER_PROVIDER_CONTRACT_ID"
  let contract ← requirePaperContractIdentity o.provider o.providerContractId o.paperContract
  let command := o.draftCommand contract
  require (o.requestedExitPrice = false ∧ command.WellFormed) (⟨"PAPER_ORDER_COMMAND_INVALID"⟩)
  require (command.reduceOnly = true → command.positionId.isSome)
    (⟨"PAPER_REDUCE_ONLY_POSITION_ID_REQUIRED"⟩)
  let _ ← requirePaperOrderProtection (some command.useStopLoss) (some command.useTarget)
    command.stopLoss command.target (some command.payload)
  return command

/-! ### Accepted orders -/

/-- What the checks on an order establish about its command. -/
structure PaperCommand.Accepted (c : PaperCommand) : Prop where
  id_ne : c.id ≠ ""
  instrumentId_ne : c.instrumentId ≠ ""
  routeFingerprint_ne : c.routeFingerprint ≠ ""
  provider_eq : c.provider = c.paperContract.provider
  providerContractId_eq : c.providerContractId = c.paperContract.providerContractId
  wellFormed : c.WellFormed
  positionId_isSome : c.reduceOnly = true → c.positionId.isSome
  protection : Protected c.useStopLoss c.useTarget c.stopLoss c.target c.payload

theorem paperOrderCommandPayload_eq_ok {o : PaperOrder} {c : PaperCommand} :
    paperOrderCommandPayload o = .ok c ↔
      c = o.draftCommand c.paperContract ∧ o.paperContract = some c.paperContract ∧
        o.provider = c.paperContract.provider ∧ o.requestedExitPrice = false ∧ c.Accepted := by
  unfold paperOrderCommandPayload
  simp only [bind_eq_ok, requireExactIdentityText_eq_ok, requirePaperContractIdentity_eq_ok,
    require_eq_ok, requirePaperOrderProtection_eq_ok, pure_eq_ok]
  constructor
  · rintro ⟨_, ⟨hid, -⟩, _, ⟨hinst, -⟩, _, ⟨hroute, -⟩, _, ⟨hpc, -⟩, contract,
      ⟨hcontract, hprov, hpcid⟩, _, ⟨hexit, hwf⟩, _, hpos, p, ⟨hp, us, ut, hus, hut, hprot⟩, rfl⟩
    cases hp
    cases hus
    cases hut
    refine ⟨rfl, hcontract, hprov, hexit, hid, hinst, hroute, ?_, hpcid, hwf, hpos, hprot⟩
    simp only [PaperOrder.draftCommand]
    rw [hprov, contract.provider_canonical]
  · rintro ⟨hc, hcontract, hprov, hexit, hacc⟩
    have hid : o.id = c.id := by rw [hc]; rfl
    have hinst : o.instrumentId = c.instrumentId := by rw [hc]; rfl
    have hroute : o.routeFingerprint = c.routeFingerprint := by rw [hc]; rfl
    have hpcid : o.providerContractId = c.providerContractId := by rw [hc]; rfl
    refine ⟨_, ⟨hid ▸ hacc.id_ne, rfl⟩, _, ⟨hinst ▸ hacc.instrumentId_ne, rfl⟩, _,
      ⟨hroute ▸ hacc.routeFingerprint_ne, rfl⟩, _,
      ⟨by rw [hpcid, hacc.providerContractId_eq]; exact c.paperContract.providerContractId_ne, rfl⟩,
      c.paperContract, ⟨hcontract, hprov, hpcid.trans hacc.providerContractId_eq⟩, ⟨⟩, ?_⟩
    rw [← hc]
    exact ⟨⟨hexit, hacc.wellFormed⟩, ⟨⟩, hacc.positionId_isSome, c.payload,
      ⟨rfl, _, _, rfl, rfl, hacc.protection⟩, rfl⟩

/-- A command that came out of normalisation is its own draft. -/
theorem draftCommand_toOrder {o : PaperOrder} {contract : PaperContractIdentity} :
    (o.draftCommand contract).toOrder.draftCommand contract = o.draftCommand contract := by
  have hmanual : (o.draftCommand contract).toOrder.manualClose = o.manualClose := rfl
  unfold PaperOrder.draftCommand
  rw [PaperOrder.draftCommand] at hmanual
  rw [hmanual]
  cases hm : o.manualClose <;>
    simp [PaperCommand.toOrder, PaperOrder.roleOrEntry, PaperOrder.reduceOnlyOrRole,
      PaperOrderPayload.withoutExecutionConfig]

/-- **Normalisation is idempotent**: the command of a command is the command. -/
theorem paperOrderCommandPayload_toOrder {o : PaperOrder} {c : PaperCommand}
    (h : paperOrderCommandPayload o = .ok c) : paperOrderCommandPayload c.toOrder = .ok c := by
  obtain ⟨hc, -, -, -, hacc⟩ := paperOrderCommandPayload_eq_ok.mp h
  rw [paperOrderCommandPayload_eq_ok]
  refine ⟨?_, rfl, hacc.provider_eq, rfl, hacc⟩
  conv_lhs => rw [hc]
  conv_rhs => rw [hc]
  exact draftCommand_toOrder.symm

end AefTerminal
