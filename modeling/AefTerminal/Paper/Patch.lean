import AefTerminal.Paper.FillDistance

/-!
# Patching a stored order

A client may move the entry, the stop and the target of a pending order and switch the two levels on
and off. The action reads the order back, merges the patch into it, normalises the result as if it
were a new order and stores it as a pending update.

An entry that moves alone takes the enabled levels along. A level that is named by the patch becomes
part of an absolute structure; what the order was placed with, though, stays in its create command,
and a row whose copies name different protections does not decode.

The order is read back with texts for its three links. A link that is absent comes back as an empty
text, and an empty text is no identity to the normalisation: an order without a position, a parent
and a group cannot be patched at all.

## Main definitions

* `canonicalManualPaperProtection`, `normalizePaperOrder`: what a new order is made of
* `PaperOrderPatch`, `updatePaperOrder`, `patchPaperOrderAction`
* `OrderRow.withLevels`, `PaperOrderPatch.ValidFor`, `OrderRow.Patchable`

## Main results

* `normalizePaperOrder_eq_ok`: what an order without distances must look like
* `updatePaperOrder_restates`: a patched order restates its row
* `patch_round_trip_iff`, `plain_entry_not_patchable`
-/

namespace AefTerminal

open Foundation

/-! ### Normalising an order -/

/-- The keys `stop_points` and `target_points` of an incoming order, when it has one of them. -/
structure PaperPoints where
  stopPoints : Option ℚ
  targetPoints : Option ℚ

/-- `canonical_manual_paper_protection`: levels from distances, and a payload that names its
basis. -/
def canonicalManualPaperProtection (o : PaperOrder) (points : Option PaperPoints)
    (nested : PaperOrderPayload) : Except PaperError (Option PaperLevels × PaperOrderPayload) :=
  if nested.absoluteLevel then .error ⟨"PAPER_PROTECTION_LEGACY_ABSOLUTE_LEVEL_FORBIDDEN"⟩
  else match points with
    | some points =>
      let useStop := o.useStopLoss.getD points.stopPoints.isSome
      let useTarget := o.useTarget.getD points.targetPoints.isSome
      if nested.protectionBasis.isSome ∨ nested.protectionIntent.isSome then
        .error ⟨"PAPER_PROTECTION_INPUT_CONTRADICTORY"⟩
      else if o.stopLoss.isSome ∨ o.target.isSome then
        .error ⟨"PAPER_PROTECTION_POINT_AND_ABSOLUTE_LEVELS_CONTRADICT"⟩
      else if useStop = false ∧ useTarget = false then
        .ok (none, { nested with
          protectionBasis := some .absoluteStructure
          protectionIntent := none })
      else if DistanceMissing useStop points.stopPoints ∨
          DistanceMissing useTarget points.targetPoints then
        .error ⟨"PAPER_FILL_DISTANCE_INTENT_INVALID"⟩
      else match paperManualProtectiveLevels ⟨o.entry, o.side, points.stopPoints,
          points.targetPoints, o.useStopLoss, o.useTarget, o.stopLoss, o.target⟩ with
        | none => .error ⟨"PAPER_FILL_DISTANCE_INTENT_INVALID"⟩
        | some levels => .ok (some levels, { nested with
            protectionBasis := some .fillDistance
            protectionIntent := some ⟨if useStop then points.stopPoints else none,
              if useTarget then points.targetPoints else none⟩ })
    | none =>
      match nested.protectionBasis, nested.protectionIntent with
      | some _, _ => .ok (none, nested)
      | none, some _ => .error ⟨"PAPER_PROTECTION_BASIS_REQUIRED"⟩
      | none, none =>
        .ok (none, { nested with protectionBasis := some .absoluteStructure })

/-- Levels that were computed from distances are enabled. -/
def PaperOrder.withManualLevels (o : PaperOrder) (levels : Option PaperLevels) : PaperOrder :=
  let stop := levels.bind PaperLevels.stop
  let target := levels.bind PaperLevels.target
  { o with
    stopLoss := stop <|> o.stopLoss
    useStopLoss := if stop.isSome then some true else o.useStopLoss
    target := target <|> o.target
    useTarget := if target.isSome then some true else o.useTarget }

/-- An id that is given must not be empty. -/
def requireOptionalId (id : Option String) (field : String) : Except PaperError (Option String) :=
  match id with
  | none => .ok none
  | some text => some <$> requireExactIdentityText text field

/-- `paper_instrument_contract`. -/
def paperInstrumentContract (provider providerContractId : String) :
    Except PaperError PaperContractIdentity := do
  let _ ← requireExactIdentityText provider "PAPER_CONTRACT_PROVIDER"
  let _ ← requireExactIdentityText providerContractId "PAPER_CONTRACT_PROVIDER_CONTRACT_ID"
  if h : provider ≠ "" ∧ providerContractId ≠ "" ∧ strip provider = provider then
    return ⟨provider, providerContractId, none, h.1, h.2.1, h.2.2⟩
  else .error ⟨"PAPER_CONTRACT_PROVIDER_NOT_CANONICAL"⟩

def PaperOrder.contractOr (o : PaperOrder) : Except PaperError PaperContractIdentity :=
  match o.paperContract with
  | none => paperInstrumentContract (strip o.provider) o.providerContractId
  | some _ => requirePaperContractIdentity o.provider o.providerContractId o.paperContract

/-- The note is stripped and cut to 240 characters. -/
def noteText (note : Option String) : String :=
  String.ofList ((strip (note.getD "")).toList.take 240)

/-- A level is on its side of the entry, if there is one. -/
def LevelOn (side : ℚ → ℚ → Prop) (level : Option ℚ) (entry : ℚ) : Prop :=
  ∀ l, level = some l → side l entry

instance (side : PaperSide) (l entry : ℚ) : Decidable (side.StopBehind l entry) :=
  match side with
  | .long => inferInstanceAs (Decidable (l < entry))
  | .short => inferInstanceAs (Decidable (entry < l))

instance (side : PaperSide) (l entry : ℚ) : Decidable (side.TargetAhead l entry) :=
  match side with
  | .long => inferInstanceAs (Decidable (entry < l))
  | .short => inferInstanceAs (Decidable (l < entry))

instance (side : ℚ → ℚ → Prop) [∀ l e, Decidable (side l e)] (level : Option ℚ) (entry : ℚ) :
    Decidable (LevelOn side level entry) :=
  match level with
  | none => .isTrue (by simp [LevelOn])
  | some l => decidable_of_iff (side l entry) (by simp [LevelOn])

def PaperSide.stopText : PaperSide → String
  | .long => "long order requires stop_loss < entry"
  | .short => "short order requires entry < stop_loss"

def PaperSide.targetText : PaperSide → String
  | .long => "long order requires entry < target"
  | .short => "short order requires target < entry"

/-- An enabled level that is given. -/
def enabledLevel (use : Option Bool) (level : Option ℚ) : Option ℚ :=
  if use.getD level.isSome then level else none

/-- The order that is made of a normalised one. -/
def PaperOrder.normalized (o : PaperOrder) (contract : PaperContractIdentity)
    (payload : PaperOrderPayload) (createdAt : Time) : PaperOrder where
  id := o.id
  instrumentId := o.instrumentId
  routeFingerprint := o.routeFingerprint
  symbol := o.symbol
  -- `.lower()` changes nothing: the contract check compares with a lower-case text
  provider := strip o.provider
  providerContractId := o.providerContractId
  paperContract := some contract
  timeframe := strip o.timeframe
  side := o.side
  orderType := o.orderType
  qty := some (o.qty.getD 1)
  entry := o.entry
  stopLoss := enabledLevel o.useStopLoss o.stopLoss
  target := enabledLevel o.useTarget o.target
  useStopLoss := some (enabledLevel o.useStopLoss o.stopLoss).isSome
  useTarget := some (enabledLevel o.useTarget o.target).isSome
  role := some o.roleOrEntry
  positionId := o.positionId
  parentOrderId := o.parentOrderId
  ocoGroupId := o.ocoGroupId
  reduceOnly := some o.reduceOnlyOrRole
  source := some (textOr o.source "manual")
  note := some (noteText o.note)
  exitReason := none
  payload := some payload
  requestedExitPrice := false
  status := some .pending
  createdAt := some createdAt
  updatedAt := some createdAt
  filledAt := none
  fillPrice := none
  createCommand := none
  indicatorSource := none

/-- The checks of an order with its levels, and what is made of it. -/
def normalizeLevels (o : PaperOrder) (nested : PaperOrderPayload) (createdAt : Time) :
    Except PaperError PaperOrder := do
  let _ ← requireExactIdentityText o.instrumentId "instrument_id"
  let _ ← requireExactIdentityText o.routeFingerprint "route_fingerprint"
  let _ ← requireExactIdentityText o.providerContractId "provider_contract_id"
  let positionId ← requireOptionalId o.positionId "PAPER_POSITION_ID"
  require (o.reduceOnlyOrRole = true → positionId.isSome)
    (⟨"reduce-only paper order requires position_id"⟩)
  require (o.roleOrEntry ≠ .entry → o.reduceOnlyOrRole = true)
    (⟨"protective and close paper orders must be reduce-only"⟩)
  require ((o.useStopLoss.getD o.stopLoss.isSome → o.stopLoss.isSome) ∧
      (o.useTarget.getD o.target.isSome → o.target.isSome))
    (⟨"entry and checked stop_loss/target must be finite numbers"⟩)
  match o.entry, o.side with
  | none, _ => .error ⟨"entry and checked stop_loss/target must be finite numbers"⟩
  | some _, none => .error ⟨"side must be long or short"⟩
  | some entry, some side =>
    require (0 < o.qty.getD 1) (⟨"qty must be a positive finite number"⟩)
    require (o.symbol ≠ "" ∧ strip o.timeframe ≠ "") (⟨"symbol and timeframe are required"⟩)
    require (strip o.provider ≠ "")
      (⟨"instrument_id, route_fingerprint, provider and provider_contract_id are required"⟩)
    let contract ← o.contractOr
    require (LevelOn side.StopBehind (enabledLevel o.useStopLoss o.stopLoss) entry)
      (⟨side.stopText⟩)
    require (LevelOn side.TargetAhead (enabledLevel o.useTarget o.target) entry) (⟨side.targetText⟩)
    let _ ← requireExactIdentityText o.id "PAPER_ORDER_ID"
    let _ ← requireOptionalId o.parentOrderId "PAPER_ORDER_PARENT_ORDER_ID"
    let _ ← requireOptionalId o.ocoGroupId "PAPER_ORDER_OCO_GROUP_ID"
    let payload ← (o.normalized contract nested createdAt).protection
    return o.normalized contract payload createdAt

/-- `normalize_paper_order`. -/
def normalizePaperOrder (o : PaperOrder) (points : Option PaperPoints) (createdAt : Time) :
    Except PaperError PaperOrder := do
  let (levels, nested) ← canonicalManualPaperProtection o points
    (o.payload.getD .empty).withoutExecutionConfig
  normalizeLevels (o.withManualLevels levels) nested createdAt

/-! ### The patch -/

/-- What a client changes. A key that is absent is `none`, and a value that is no number is
`some none`. -/
structure PaperOrderPatch where
  entry : Option (Option ℚ)
  stopLoss : Option (Option ℚ)
  target : Option (Option ℚ)
  useStopLoss : Option Bool
  useTarget : Option Bool

namespace PaperOrderPatch

/-- A level is named by the patch. -/
def NamesLevel (p : PaperOrderPatch) : Prop := p.stopLoss.isSome ∨ p.target.isSome

instance (p : PaperOrderPatch) : Decidable p.NamesLevel := inferInstanceAs (Decidable (_ ∨ _))

/-- The level of an order, shifted with its entry. -/
def shifted (use : Option Bool) (level : Option ℚ) (delta : ℚ) : Option (Option ℚ) :=
  if use = some false then none else level.map fun l => some (l + delta)

/-- An entry that moves alone takes the enabled levels along. -/
def moved (p : PaperOrderPatch) (o : PaperOrder) : PaperOrderPatch :=
  match p.entry, o.entry with
  | some (some new), some old =>
    if p.NamesLevel then p
    else { p with
      stopLoss := shifted o.useStopLoss o.stopLoss (new - old)
      target := shifted o.useTarget o.target (new - old) }
  | _, _ => p

/-- The protection of the patched order: absolute if the patch names a level, and without the
distance of a level that is switched off. -/
def payload (p : PaperOrderPatch) (current : PaperOrderPayload) : PaperOrderPayload :=
  if p.NamesLevel then { current with protectionBasis := none, protectionIntent := none }
  else { current with
    protectionIntent := current.protectionIntent.map fun intent =>
      ⟨if p.useStopLoss = some false then none else intent.stopPoints,
        if p.useTarget = some false then none else intent.targetPoints⟩ }

/-- The order and the patch, merged. -/
def merged (p : PaperOrderPatch) (o : PaperOrder) : PaperOrder :=
  { o with
    entry := (p.moved o).entry.getD o.entry
    stopLoss := (p.moved o).stopLoss.getD o.stopLoss
    target := (p.moved o).target.getD o.target
    useStopLoss := p.useStopLoss <|> o.useStopLoss
    useTarget := p.useTarget <|> o.useTarget
    payload := o.payload.map p.payload }

end PaperOrderPatch

/-- `update_paper_order`. -/
def updatePaperOrder (o : PaperOrder) (p : PaperOrderPatch) (now : Time) :
    Except PaperError PaperOrder :=
  match o.payload.bind PaperOrderPayload.executionConfig with
  | none => .error ⟨"PAPER_EXECUTION_CONFIG_REQUIRED"⟩
  | some config => do
    let createdAt := o.createdAt.getD now
    let updated ← normalizePaperOrder (p.merged o) none createdAt
    return { updated with
      status := some (o.status.getD .pending)
      updatedAt := some now
      payload := updated.payload.map fun payload =>
        { payload with executionConfig := some config }
      instrumentId := o.instrumentId
      routeFingerprint := o.routeFingerprint
      provider := o.provider
      providerContractId := o.providerContractId
      role := o.role <|> updated.role
      positionId := o.positionId <|> updated.positionId
      parentOrderId := o.parentOrderId <|> updated.parentOrderId
      ocoGroupId := o.ocoGroupId <|> updated.ocoGroupId
      reduceOnly := o.reduceOnly <|> updated.reduceOnly
      source := o.source <|> updated.source }

/-- The answers of the action that are no rejections. -/
inductive PaperPatchResult
  | notFound
  | notPending
  | patched (o : SavedOrder)

/-- The order that is answered is the one that was asked for. -/
def SavedOrder.IsFor (o : SavedOrder) (id instrumentId routeFingerprint : String) : Prop :=
  o.id = id ∧ o.row.document.identity.instrumentId = instrumentId ∧
    o.row.document.identity.routeFingerprint = routeFingerprint

instance (o : SavedOrder) (id instrumentId routeFingerprint : String) :
    Decidable (o.IsFor id instrumentId routeFingerprint) :=
  inferInstanceAs (Decidable (_ ∧ _ ∧ _))

/-- `patch_paper_order_action`. -/
def patchPaperOrderAction (t : PaperTables) (orderId : String) (p : PaperOrderPatch)
    (instrumentId routeFingerprint : String) (now : Time) :
    Except PaperError (PaperPatchResult × PaperTables) := do
  let _ ← requireExactIdentityText orderId "PAPER_ORDER_ID"
  let _ ← requireExactIdentityText instrumentId "PAPER_ORDER_INSTRUMENT_ID"
  let _ ← requireExactIdentityText routeFingerprint "PAPER_ORDER_ROUTE_FINGERPRINT"
  match ← readPaperOrder t orderId instrumentId routeFingerprint with
  | none => return (.notFound, t)
  | some current =>
    require (current.IsFor orderId instrumentId routeFingerprint)
      (⟨"PAPER_ORDER_UPDATE_CURRENT_IDENTITY_MISMATCH"⟩)
    let updated ← updatePaperOrder current.toOrder p now
    let (saved, t) ← updatePaperOrderIfPending t updated instrumentId routeFingerprint now
    match saved with
    | none => return (.notPending, t)
    | some saved =>
      require (saved.IsFor orderId instrumentId routeFingerprint ∧ saved.row.status = .pending)
        (⟨"PAPER_ORDER_UPDATE_RESULT_IDENTITY_MISMATCH"⟩)
      return (.patched saved, t)

/-! ### What normalises -/

@[simp] theorem requireOptionalId_eq_ok {id : Option String} {field : String} {x : Option String} :
    requireOptionalId id field = .ok x ↔ id ≠ some "" ∧ x = id := by
  cases id with
  | none => simp [requireOptionalId, eq_comm]
  | some text =>
    simp only [requireOptionalId, map_eq_ok, requireExactIdentityText_eq_ok, ne_eq,
      Option.some.injEq]
    constructor
    · rintro ⟨a, ⟨hne, rfl⟩, rfl⟩
      exact ⟨hne, rfl⟩
    · rintro ⟨hne, rfl⟩
      exact ⟨text, ⟨hne, rfl⟩, rfl⟩

/-- A payload without a basis is of an absolute structure. -/
def PaperOrderPayload.orAbsolute (p : PaperOrderPayload) : PaperOrderPayload :=
  { p with protectionBasis := p.protectionBasis <|> some .absoluteStructure }

variable {o : PaperOrder}

/-- Without distances the payload only gets its basis. -/
theorem canonicalManualPaperProtection_none {nested n : PaperOrderPayload}
    {levels : Option PaperLevels} :
    canonicalManualPaperProtection o none nested = .ok (levels, n) ↔
      nested.absoluteLevel = false ∧
        (nested.protectionBasis = none → nested.protectionIntent = none) ∧
        levels = none ∧ n = nested.orAbsolute := by
  obtain ⟨absoluteLevel, basis, intent, config, expectation, metadata⟩ := nested
  cases absoluteLevel <;> cases basis <;> cases intent <;>
    simp [canonicalManualPaperProtection, PaperOrderPayload.orAbsolute, eq_comm]

/-- What an order without distances must look like to be normalised. -/
structure PaperOrder.Normalizable (o : PaperOrder) (contract : PaperContractIdentity)
    (entry : ℚ) (side : PaperSide) : Prop where
  instrumentId_ne : o.instrumentId ≠ ""
  routeFingerprint_ne : o.routeFingerprint ≠ ""
  providerContractId_ne : o.providerContractId ≠ ""
  positionId_ne : o.positionId ≠ some ""
  positionId_isSome : o.reduceOnlyOrRole = true → o.positionId.isSome
  reduceOnly : o.roleOrEntry ≠ .entry → o.reduceOnlyOrRole = true
  stop_isSome : o.useStopLoss.getD o.stopLoss.isSome → o.stopLoss.isSome
  target_isSome : o.useTarget.getD o.target.isSome → o.target.isSome
  entry_eq : o.entry = some entry
  side_eq : o.side = some side
  qty_pos : 0 < o.qty.getD 1
  symbol_ne : o.symbol ≠ ""
  timeframe_ne : strip o.timeframe ≠ ""
  provider_ne : strip o.provider ≠ ""
  contract_eq : o.contractOr = .ok contract
  stop_on : LevelOn side.StopBehind (enabledLevel o.useStopLoss o.stopLoss) entry
  target_on : LevelOn side.TargetAhead (enabledLevel o.useTarget o.target) entry
  id_ne : o.id ≠ ""
  parentOrderId_ne : o.parentOrderId ≠ some ""
  ocoGroupId_ne : o.ocoGroupId ≠ some ""
  protection : Protected (enabledLevel o.useStopLoss o.stopLoss).isSome
    (enabledLevel o.useTarget o.target).isSome (enabledLevel o.useStopLoss o.stopLoss)
    (enabledLevel o.useTarget o.target)
    (o.payload.getD .empty).withoutExecutionConfig.orAbsolute

theorem PaperOrder.normalized_protection {contract : PaperContractIdentity}
    {nested payload : PaperOrderPayload} {createdAt : Time} :
    (o.normalized contract nested createdAt).protection = .ok payload ↔
      payload = nested ∧ Protected (enabledLevel o.useStopLoss o.stopLoss).isSome
        (enabledLevel o.useTarget o.target).isSome (enabledLevel o.useStopLoss o.stopLoss)
        (enabledLevel o.useTarget o.target) nested := by
  rw [PaperOrder.protection_eq_ok]
  constructor
  · rintro ⟨hpayload, us, ut, hus, hut, hprotected⟩
    cases hpayload
    cases hus
    cases hut
    exact ⟨rfl, hprotected⟩
  · rintro ⟨rfl, hprotected⟩
    exact ⟨rfl, _, _, rfl, rfl, hprotected⟩

/-- **An order without distances** normalises exactly if it meets every check. -/
theorem normalizePaperOrder_eq_ok {x : PaperOrder} {createdAt : Time} :
    normalizePaperOrder o none createdAt = .ok x ↔
      ∃ contract entry side, o.Normalizable contract entry side ∧
        x = o.normalized contract (o.payload.getD .empty).withoutExecutionConfig.orAbsolute
          createdAt := by
  constructor
  · intro h
    obtain ⟨⟨levels, nested⟩, hcanonical, h⟩ := bind_eq_ok.mp h
    obtain ⟨-, -, rfl, rfl⟩ := canonicalManualPaperProtection_none.mp hcanonical
    change normalizeLevels o _ createdAt = .ok x at h
    simp only [normalizeLevels, bind_eq_ok, requireExactIdentityText_eq_ok,
      requireOptionalId_eq_ok, require_eq_ok] at h
    obtain ⟨_, ⟨hinst, -⟩, _, ⟨hroute, -⟩, _, ⟨hpcid, -⟩, positionId, ⟨hpos, rfl⟩, -, hposSome, -,
      hreduce, -, ⟨hstop, htarget⟩, h⟩ := h
    cases hentry : o.entry with
    | none =>
      rw [hentry] at h
      cases h
    | some entry =>
      cases hside : o.side with
      | none =>
        rw [hentry, hside] at h
        cases h
      | some side =>
        rw [hentry, hside] at h
        simp only [bind_eq_ok, requireExactIdentityText_eq_ok, requireOptionalId_eq_ok,
          require_eq_ok, pure_eq_ok, PaperOrder.normalized_protection] at h
        obtain ⟨-, hqty, -, ⟨hsymbol, htimeframe⟩, -, hprovider, contract, hcontract, -, hstopOn, -,
          htargetOn, _, ⟨hid, -⟩, _, ⟨hparent, -⟩, _, ⟨hoco, -⟩, payload, ⟨rfl, hprotection⟩, rfl⟩ := h
        exact ⟨contract, entry, side, ⟨hinst, hroute, hpcid, hpos, hposSome, hreduce, hstop,
          htarget, hentry, hside, hqty, hsymbol, htimeframe, hprovider, hcontract, hstopOn,
          htargetOn, hid, hparent, hoco, hprotection⟩, rfl⟩
  · rintro ⟨contract, entry, side, h, rfl⟩
    have hintent : (o.payload.getD .empty).withoutExecutionConfig.protectionBasis = none →
        (o.payload.getD .empty).withoutExecutionConfig.protectionIntent = none := by
      intro hnone
      rcases h.protection.intent with ⟨-, hintent⟩ | ⟨intent, hbasis, -⟩
      · exact hintent
      · simp only [PaperOrderPayload.orAbsolute, hnone] at hbasis
        exact absurd hbasis (by simp)
    refine bind_eq_ok.mpr ⟨_, canonicalManualPaperProtection_none.mpr
      ⟨h.protection.no_absoluteLevel, hintent, rfl, rfl⟩, ?_⟩
    change normalizeLevels o _ createdAt = .ok _
    simp only [normalizeLevels, h.entry_eq, h.side_eq, bind_eq_ok, requireExactIdentityText_eq_ok,
      requireOptionalId_eq_ok, require_eq_ok, pure_eq_ok, PaperOrder.normalized_protection]
    exact ⟨_, ⟨h.instrumentId_ne, rfl⟩, _, ⟨h.routeFingerprint_ne, rfl⟩, _,
      ⟨h.providerContractId_ne, rfl⟩, _, ⟨h.positionId_ne, rfl⟩, ⟨⟩, h.positionId_isSome, ⟨⟩,
      h.reduceOnly, ⟨⟩, ⟨h.stop_isSome, h.target_isSome⟩, ⟨⟩, h.qty_pos, ⟨⟩,
      ⟨h.symbol_ne, h.timeframe_ne⟩, ⟨⟩, h.provider_ne, contract, h.contract_eq, ⟨⟩, h.stop_on, ⟨⟩,
      h.target_on, _, ⟨h.id_ne, rfl⟩, _, ⟨h.parentOrderId_ne, rfl⟩, _, ⟨h.ocoGroupId_ne, rfl⟩, _,
      ⟨rfl, h.protection⟩, rfl⟩

/-! ### A patch of a stored order -/

/-- A stored row under other levels: the columns, the clock and the execution command. -/
def OrderRow.withLevels (row : OrderRow) (entry : ℚ) (stopLoss target : Option ℚ)
    (updatedAt : Time) : OrderRow :=
  { row with
    entry
    stopLoss
    target
    useStopLoss := stopLoss.isSome
    useTarget := target.isSome
    updatedAt
    document := { row.document with
      executionCommand := { row.document.executionCommand with
        entry := some entry
        stopLoss
        target
        useStopLoss := stopLoss.isSome
        useTarget := target.isSome } } }

namespace PaperOrderPatch

variable {p : PaperOrderPatch} {id : String} {row : OrderRow} {entry : ℚ}

/-- The stored order with the patch merged into it. -/
def onto (p : PaperOrderPatch) (id : String) (row : OrderRow) : PaperOrder :=
  p.merged (SavedOrder.mk id row).toOrder

/-- The levels of the patched order. -/
def stop (p : PaperOrderPatch) (id : String) (row : OrderRow) : Option ℚ :=
  enabledLevel (p.onto id row).useStopLoss (p.onto id row).stopLoss

def take (p : PaperOrderPatch) (id : String) (row : OrderRow) : Option ℚ :=
  enabledLevel (p.onto id row).useTarget (p.onto id row).target

/-- The geometry that results is valid: a price for the entry and for each enabled level, and the
levels on their sides of the entry. -/
structure ValidFor (p : PaperOrderPatch) (id : String) (row : OrderRow) (entry : ℚ) : Prop where
  entry_eq : (p.onto id row).entry = some entry
  stop_isSome : (p.onto id row).useStopLoss.getD (p.onto id row).stopLoss.isSome →
    (p.onto id row).stopLoss.isSome
  target_isSome : (p.onto id row).useTarget.getD (p.onto id row).target.isSome →
    (p.onto id row).target.isSome
  stop_on : LevelOn row.side.StopBehind (p.stop id row) entry
  target_on : LevelOn row.side.TargetAhead (p.take id row) entry

/-- The patch leaves the distances of the order alone: it names no level, and switches off none
that is enabled. -/
structure KeepsDistances (p : PaperOrderPatch) (row : OrderRow) : Prop where
  not_namesLevel : ¬p.NamesLevel
  stop : p.useStopLoss = some false → row.useStopLoss = false
  target : p.useTarget = some false → row.useTarget = false

/-- A level that was off has nothing to shift. -/
theorem moved_stopLoss_of_off {o : PaperOrder} (hnames : ¬p.NamesLevel)
    (hoff : o.useStopLoss = some false) : (p.moved o).stopLoss = none := by
  have hnone : p.stopLoss = none := by
    simp only [NamesLevel, not_or, Option.not_isSome_iff_eq_none] at hnames
    exact hnames.1
  unfold moved
  split
  · rw [if_neg hnames]
    simp [shifted, hoff]
  · exact hnone

theorem moved_target_of_off {o : PaperOrder} (hnames : ¬p.NamesLevel)
    (hoff : o.useTarget = some false) : (p.moved o).target = none := by
  have hnone : p.target = none := by
    simp only [NamesLevel, not_or, Option.not_isSome_iff_eq_none] at hnames
    exact hnames.2
  unfold moved
  split
  · rw [if_neg hnames]
    simp [shifted, hoff]
  · exact hnone

/-- What is enabled and has a price is a level. -/
theorem enabledLevel_isSome {use : Option Bool} {level : Option ℚ}
    (h : use.getD level.isSome → level.isSome) :
    (enabledLevel use level).isSome = use.getD level.isSome := by
  unfold enabledLevel
  cases hu : use.getD level.isSome
  · simp
  · simpa using h hu

/-- A level keeps its flag unless the patch switches it off: a level that was off has no price to
be switched on with. -/
theorem enabledLevel_kept {use : Option Bool} {stored : Bool} {moved : Option (Option ℚ)}
    {level : Option ℚ} (hstored : stored = level.isSome) (hoff : use = some false → stored = false)
    (hmoved : stored = false → moved = none)
    (hsome : (use <|> some stored).getD (moved.getD level).isSome → (moved.getD level).isSome) :
    (enabledLevel (use <|> some stored) (moved.getD level)).isSome = stored := by
  rw [enabledLevel_isSome hsome]
  cases use with
  | none => rfl
  | some use =>
    cases use with
    | false => exact (hoff rfl).symm
    | true =>
      cases hs : stored with
      | true => rfl
      | false =>
        have hlevel := hsome rfl
        rw [hmoved hs, Option.getD_none, ← hstored, hs] at hlevel
        exact absurd hlevel (by simp)

/-- **A patch that keeps the distances** keeps which levels are enabled. -/
theorem stop_isSome_eq (hvalid : p.ValidFor id row entry) (hkeeps : p.KeepsDistances row)
    (hrow : row.useStopLoss = row.stopLoss.isSome) : (p.stop id row).isSome = row.useStopLoss :=
  enabledLevel_kept hrow hkeeps.stop
    (fun hoff => moved_stopLoss_of_off hkeeps.not_namesLevel (congrArg some hoff))
    hvalid.stop_isSome

theorem take_isSome_eq (hvalid : p.ValidFor id row entry) (hkeeps : p.KeepsDistances row)
    (hrow : row.useTarget = row.target.isSome) : (p.take id row).isSome = row.useTarget :=
  enabledLevel_kept hrow hkeeps.target
    (fun hoff => moved_target_of_off hkeeps.not_namesLevel (congrArg some hoff))
    hvalid.target_isSome

/-- The payload is kept by a patch of an absolute structure, and by one that keeps the
distances. -/
theorem payload_kept (hprotected : Protected row.useStopLoss row.useTarget row.stopLoss row.target
      row.document.payload)
    (h : row.document.payload.protectionBasis = some .absoluteStructure ∨ p.KeepsDistances row) :
    (p.payload row.document.payload).withoutExecutionConfig.orAbsolute =
      row.document.payload.withoutExecutionConfig := by
  rcases hprotected.intent with ⟨hbasis, hintent⟩ | ⟨intent, hbasis, hintent, -, hstop, htarget⟩
  · unfold payload
    split <;> simp [PaperOrderPayload.withoutExecutionConfig, PaperOrderPayload.orAbsolute, hbasis,
      hintent]
  · have hkeeps : p.KeepsDistances row :=
      h.resolve_left fun habsolute => by simp [hbasis] at habsolute
    have hpoints : ∀ {use : Bool} {points : Option ℚ} {off : Option Bool}, PointsAgree use points →
        (off = some false → use = false) → (if off = some false then none else points) = points := by
      intro use points off hagree hoff
      split
      · rename_i hfalse
        rw [hoff hfalse] at hagree
        cases points with
        | none => rfl
        | some points => exact hagree.elim
      · rfl
    simp [payload, if_neg hkeeps.not_namesLevel, PaperOrderPayload.withoutExecutionConfig,
      PaperOrderPayload.orAbsolute, hbasis, hintent, hpoints hstop hkeeps.stop,
      hpoints htarget hkeeps.target]

end PaperOrderPatch

/-- A pending entry as it was placed. -/
structure OrderRow.PlacedEntry (id : String) (row : OrderRow) : Prop where
  decodes : row.Decodes id
  inStep : row.InStep id
  pending : row.status = .pending
  role : row.role = .entry

/-- **When a patch succeeds** and changes nothing but levels: the order has its three links, an
execution configuration and a contract of an ordinary instrument; it is of an absolute structure,
or the patch leaves its distances alone; and source, note and exit reason are stored as a
normalised order has them. -/
structure OrderRow.Patchable (row : OrderRow) (p : PaperOrderPatch) : Prop where
  positionId : row.positionId.getD "" ≠ ""
  parentOrderId : row.parentOrderId.getD "" ≠ ""
  ocoGroupId : row.ocoGroupId.getD "" ≠ ""
  executionConfig : row.document.payload.executionConfig.isSome
  instrument : row.document.identity.paperContract.scopeKind = .instrument
  basis : row.document.payload.protectionBasis = some .absoluteStructure ∨ p.KeepsDistances row
  source : row.document.source.isSome
  note : row.document.note = some (noteText row.document.note)
  exitReason : textOr row.document.exitReason "" = ""

namespace OrderRow

variable {p : PaperOrderPatch} {id : String} {row : OrderRow} {entry : ℚ} {now : Time}

theorem PlacedEntry.not_manualClose (h : row.PlacedEntry id) :
    (SavedOrder.mk id row).toOrder.manualClose = false := by
  simp [PaperOrder.manualClose, PaperOrder.roleOrEntry, SavedOrder.toOrder, h.role]

/-- What the stored command says of the row. -/
theorem PlacedEntry.qty_pos (h : row.PlacedEntry id) : 0 < row.qty := by
  obtain ⟨hdraft, -, -, -, haccepted⟩ := paperOrderCommandPayload_eq_ok.mp h.inStep
  have hrole : row.document.executionCommand.role = .entry := by
    rw [hdraft]
    exact h.role
  have hqty : row.document.executionCommand.qty = some row.qty := by
    rw [hdraft]
    simp only [PaperOrder.draftCommand, h.not_manualClose]
    rfl
  rcases haccepted.wellFormed.shape with ⟨hclose, -⟩ | ⟨-, ⟨q, hq, hpos⟩, -⟩
  · exact absurd (hrole.symm.trans hclose) (by simp)
  · rw [hqty] at hq
    rwa [Option.some.inj hq]

theorem PlacedEntry.texts_ne (h : row.PlacedEntry id) :
    row.symbol ≠ "" ∧ strip row.timeframe ≠ "" := by
  obtain ⟨hdraft, -, -, -, haccepted⟩ := paperOrderCommandPayload_eq_ok.mp h.inStep
  have hsymbol := haccepted.wellFormed.symbol_ne
  have htimeframe := haccepted.wellFormed.timeframe_ne
  rw [hdraft] at hsymbol htimeframe
  refine ⟨fun hempty => hsymbol ?_, htimeframe⟩
  show strip row.symbol = ""
  rw [hempty]
  rfl

/-- The levels of the patched order are as protected as those of the row. -/
theorem PlacedEntry.protected_kept (h : row.PlacedEntry id) (hvalid : p.ValidFor id row entry)
    (hbasis : row.document.payload.protectionBasis = some .absoluteStructure ∨
      p.KeepsDistances row) :
    Protected (p.stop id row).isSome (p.take id row).isSome (p.stop id row) (p.take id row)
      row.document.payload := by
  have hprotected := h.decodes.protection
  refine ⟨hprotected.no_absoluteLevel, rfl, rfl, ?_⟩
  rcases hprotected.intent with habsolute | ⟨intent, hfill, hpoints⟩
  · exact .inl habsolute
  · have hkeeps : p.KeepsDistances row :=
      hbasis.resolve_left fun habsolute => by simp [hfill] at habsolute
    rw [PaperOrderPatch.stop_isSome_eq hvalid hkeeps hprotected.stopLoss_iff,
      PaperOrderPatch.take_isSome_eq hvalid hkeeps hprotected.target_iff]
    exact .inr ⟨intent, hfill, hpoints⟩

/-- A patchable order normalises. -/
theorem PlacedEntry.normalizable (h : row.PlacedEntry id) (hvalid : p.ValidFor id row entry)
    (hpatchable : row.Patchable p) :
    (p.onto id row).Normalizable row.document.identity.paperContract entry row.side := by
  have hident := h.decodes.identity
  have hpayload : ((p.onto id row).payload.getD .empty).withoutExecutionConfig.orAbsolute =
      row.document.payload.withoutExecutionConfig :=
    PaperOrderPatch.payload_kept h.decodes.protection hpatchable.basis
  exact {
    instrumentId_ne := hident.instrumentId_ne
    routeFingerprint_ne := hident.routeFingerprint_ne
    providerContractId_ne := by
      show row.document.identity.providerContractId ≠ ""
      rw [hident.providerContractId_eq]
      exact row.document.identity.paperContract.providerContractId_ne
    positionId_ne := fun heq => hpatchable.positionId (Option.some.inj heq)
    positionId_isSome := fun _ => rfl
    reduceOnly := fun hne => absurd h.role hne
    stop_isSome := hvalid.stop_isSome
    target_isSome := hvalid.target_isSome
    entry_eq := hvalid.entry_eq
    side_eq := rfl
    qty_pos := h.qty_pos
    symbol_ne := h.texts_ne.1
    timeframe_ne := h.texts_ne.2
    provider_ne := by
      show strip row.document.identity.provider ≠ ""
      rw [hident.provider_eq, row.document.identity.paperContract.provider_canonical]
      exact row.document.identity.paperContract.provider_ne
    contract_eq := requirePaperContractIdentity_eq_ok.mpr
      ⟨rfl, hident.provider_eq, hident.providerContractId_eq⟩
    stop_on := hvalid.stop_on
    target_on := hvalid.target_on
    id_ne := h.decodes.id_ne
    parentOrderId_ne := fun heq => hpatchable.parentOrderId (Option.some.inj heq)
    ocoGroupId_ne := fun heq => hpatchable.ocoGroupId (Option.some.inj heq)
    protection := by
      rw [hpayload]
      exact (h.protected_kept hvalid hpatchable.basis).withoutExecutionConfig }

/-- The order that a patch makes of a row. -/
def patchedOrder (row : OrderRow) (id : String) (p : PaperOrderPatch) (config : String)
    (now : Time) : PaperOrder :=
  { (p.onto id row).normalized row.document.identity.paperContract
      (p.payload row.document.payload).withoutExecutionConfig.orAbsolute row.createdAt with
    status := some row.status
    updatedAt := some now
    payload := some { (p.payload row.document.payload).withoutExecutionConfig.orAbsolute with
      executionConfig := some config }
    provider := row.document.identity.provider
    positionId := some (row.positionId.getD "")
    parentOrderId := some (row.parentOrderId.getD "")
    ocoGroupId := some (row.ocoGroupId.getD "")
    source := row.document.source <|> some (textOr row.document.source "manual") }

/-- What `update_paper_order` makes of a stored order. -/
theorem updatePaperOrder_eq_ok {x : PaperOrder} :
    updatePaperOrder (SavedOrder.mk id row).toOrder p now = .ok x ↔
      ∃ config entry side, row.document.payload.executionConfig = some config ∧
        (p.onto id row).Normalizable row.document.identity.paperContract entry side ∧
        x = row.patchedOrder id p config now := by
  have hconfig : (SavedOrder.mk id row).toOrder.payload.bind PaperOrderPayload.executionConfig =
      row.document.payload.executionConfig := rfl
  unfold updatePaperOrder
  rw [hconfig]
  cases row.document.payload.executionConfig with
  | none =>
    constructor
    · intro h
      exact nomatch h
    · rintro ⟨config, entry, side, hnone, -⟩
      exact nomatch hnone
  | some config =>
    simp only [bind_eq_ok, pure_eq_ok]
    constructor
    · rintro ⟨updated, hupdated, rfl⟩
      obtain ⟨contract, entry, side, h, rfl⟩ := normalizePaperOrder_eq_ok.mp hupdated
      have hcontract : row.document.identity.paperContract = contract := by
        have hok : requirePaperContractIdentity row.document.identity.provider
            row.document.identity.providerContractId (some row.document.identity.paperContract) =
            .ok contract := h.contract_eq
        exact Option.some.inj (requirePaperContractIdentity_eq_ok.mp hok).1
      subst hcontract
      exact ⟨config, entry, side, rfl, h, rfl⟩
    · rintro ⟨config', entry, side, hsome, h, rfl⟩
      cases hsome
      exact ⟨_, normalizePaperOrder_eq_ok.mpr ⟨_, entry, side, h, rfl⟩, rfl⟩

/-- **A patched order restates its row**: it keeps what a pending update does not write. -/
theorem updatePaperOrder_restates {x : PaperOrder}
    (hexit : textOr row.document.exitReason "" = "")
    (h : updatePaperOrder (SavedOrder.mk id row).toOrder p now = .ok x) : x.Restates row := by
  obtain ⟨config, entry, side, -, -, rfl⟩ := updatePaperOrder_eq_ok.mp h
  exact {
    symbol := rfl
    timeframe := strip_strip _
    orderType := rfl
    role := rfl
    reduceOnly := rfl
    side := fun _ => rfl
    qty := fun _ => rfl
    positionId := optionalId_some_getD _
    parentOrderId := optionalId_some_getD _
    ocoGroupId := optionalId_some_getD _
    source := by
      intro hnone
      cases hsource : row.document.source <;> simp [patchedOrder, hsource] at hnone
    note := fun hnone => nomatch hnone
    exitReason := fun _ => hexit
    createCommand := fun _ hsome => nomatch hsome }

variable {config : String}

/-- The command of a patched order is the stored one under the new levels. -/
theorem PlacedEntry.patchedCommand (h : row.PlacedEntry id) (hvalid : p.ValidFor id row entry)
    (hpatchable : row.Patchable p) :
    paperOrderCommandPayload (row.patchedOrder id p config now) =
      .ok (row.withLevels entry (p.stop id row) (p.take id row) now).document.executionCommand := by
  obtain ⟨hdraft, -, -, -, haccepted⟩ := paperOrderCommandPayload_eq_ok.mp h.inStep
  have hcontract : row.document.executionCommand.paperContract =
      row.document.identity.paperContract := h.decodes.executionCommand.paperContract_eq
  rw [hcontract] at hdraft
  have hpayload := PaperOrderPatch.payload_kept (p := p) h.decodes.protection hpatchable.basis
  have hstored : row.document.executionCommand.payload =
      row.document.payload.withoutExecutionConfig := by
    rw [hdraft]
    rfl
  have hprotected := (h.protected_kept hvalid hpatchable.basis).withoutExecutionConfig
  have hmanual : (row.patchedOrder id p config now).manualClose = false := h.not_manualClose
  have htimeframe : strip (row.patchedOrder id p config now).timeframe = strip row.timeframe :=
    strip_strip _
  have hsource : textOr (row.patchedOrder id p config now).source "manual" =
      textOr row.document.source "manual" := by
    show textOr (row.document.source <|> some (textOr row.document.source "manual")) "manual" = _
    obtain ⟨source, hsome⟩ := Option.isSome_iff_exists.mp hpatchable.source
    rw [hsome]
    rfl
  have hnote : textOr (row.patchedOrder id p config now).note "" = textOr row.document.note "" :=
    congrArg (fun note => textOr note "") hpatchable.note.symm
  have hexit : textOr (row.patchedOrder id p config now).exitReason "" =
      textOr row.document.exitReason "" := hpatchable.exitReason.symm
  have hentry : (row.patchedOrder id p config now).entry = some entry := hvalid.entry_eq
  have hnested : ((row.patchedOrder id p config now).payload.getD .empty).withoutExecutionConfig =
      row.document.payload.withoutExecutionConfig := by
    show (p.payload row.document.payload).withoutExecutionConfig.orAbsolute.withoutExecutionConfig =
      row.document.payload.withoutExecutionConfig
    rw [hpayload]
    rfl
  refine paperOrderCommandPayload_eq_ok.mpr ⟨?_, congrArg some hcontract.symm,
    h.decodes.identity.provider_eq.trans (by rw [← hcontract]; rfl), rfl, ?_⟩
  · show ({ row.document.executionCommand with
        entry := some entry
        stopLoss := p.stop id row
        target := p.take id row
        useStopLoss := (p.stop id row).isSome
        useTarget := (p.take id row).isSome } : PaperCommand) =
      (row.patchedOrder id p config now).draftCommand row.document.executionCommand.paperContract
    rw [hcontract, hdraft]
    simp only [PaperOrder.draftCommand, hmanual, h.not_manualClose, htimeframe, hsource, hnote,
      hexit, hentry, hnested]
    rfl
  · rw [← hstored] at hprotected
    exact {
      id_ne := haccepted.id_ne
      instrumentId_ne := haccepted.instrumentId_ne
      routeFingerprint_ne := haccepted.routeFingerprint_ne
      provider_eq := haccepted.provider_eq
      providerContractId_eq := haccepted.providerContractId_eq
      wellFormed := {
        symbol_ne := haccepted.wellFormed.symbol_ne
        provider_ne := haccepted.wellFormed.provider_ne
        timeframe_ne := haccepted.wellFormed.timeframe_ne
        shape := haccepted.wellFormed.shape.imp_right fun hs => ⟨hs.1, hs.2.1, rfl⟩ }
      positionId_isSome := haccepted.positionId_isSome
      protection := hprotected }

/-- The payload of a patched order is the stored one. -/
theorem PlacedEntry.patchedProtection (h : row.PlacedEntry id) (hvalid : p.ValidFor id row entry)
    (hpatchable : row.Patchable p) (hconfig : row.document.payload.executionConfig = some config) :
    (row.patchedOrder id p config now).protection = .ok row.document.payload := by
  have hpayload := PaperOrderPatch.payload_kept (p := p) h.decodes.protection hpatchable.basis
  have hsame : (row.patchedOrder id p config now).payload = some row.document.payload := by
    show some { (p.payload row.document.payload).withoutExecutionConfig.orAbsolute with
      executionConfig := some config } = some row.document.payload
    rw [hpayload, ← hconfig]
    rfl
  exact PaperOrder.protection_eq_ok.mpr ⟨hsame, _, _, rfl, rfl,
    h.protected_kept hvalid hpatchable.basis⟩

/-- The row that a patch is stored as. -/
theorem PlacedEntry.updated_eq (h : row.PlacedEntry id) (hpatchable : row.Patchable p) :
    row.updated (row.patchedOrder id p config now) entry
      (row.withLevels entry (p.stop id row) (p.take id row) now).document.executionCommand
      row.document.payload now = row.withLevels entry (p.stop id row) (p.take id row) now := by
  have hidentity : (row.patchedOrder id p config now).identity
      row.document.executionCommand.paperContract = row.document.identity := by
    rw [h.decodes.executionCommand.paperContract_eq]
    rfl
  have hsource : ((row.patchedOrder id p config now).source <|> row.document.source) =
      row.document.source := by
    obtain ⟨source, hsome⟩ := Option.isSome_iff_exists.mp hpatchable.source
    simp [patchedOrder, hsome]
  have hnote : ((row.patchedOrder id p config now).note <|> row.document.note) =
      row.document.note := hpatchable.note.symm
  show ({ row with
      entry := entry
      stopLoss := p.stop id row
      target := p.take id row
      useStopLoss := (p.stop id row).isSome
      useTarget := (p.take id row).isSome
      updatedAt := now
      document := row.document.merge ((row.patchedOrder id p config now).document
        row.document.executionCommand.paperContract row.document.payload
        row.document.createCommand _) } : OrderRow) = _
  simp only [OrderDocument.merge, PaperOrder.document, hidentity, hsource, hnote]
  rfl

/-- The row under the new levels decodes. -/
theorem PlacedEntry.withLevels_decodes (h : row.PlacedEntry id) (hvalid : p.ValidFor id row entry)
    (hpatchable : row.Patchable p) (hconfig : row.document.payload.executionConfig = some config) :
    (row.withLevels entry (p.stop id row) (p.take id row) now).Decodes id := by
  have hcommand : paperOrderCommandPayload (row.patchedOrder id p config now) = .ok _ :=
    h.patchedCommand hvalid hpatchable
  have hsame : (row.patchedOrder id p config now).payload = some row.document.payload :=
    (PaperOrder.protection_eq_ok.mp (h.patchedProtection hvalid hpatchable hconfig)).1
  have hagrees := commandAgrees_of_ok hcommand hsame
  have hcontract : row.document.executionCommand.paperContract =
      row.document.identity.paperContract := h.decodes.executionCommand.paperContract_eq
  exact {
    id_ne := h.decodes.id_ne
    identity := h.decodes.identity
    protection := h.protected_kept hvalid hpatchable.basis
    createCommand := h.decodes.createCommand
    executionCommand := hcontract ▸ hagrees }

variable {t : PaperTables}

/-- An ordinary instrument's order is read back under its route. -/
theorem PlacedEntry.read_eq (h : row.PlacedEntry id) (hrow : t.orders.get? id = some row) :
    readPaperOrder t id row.document.identity.instrumentId row.document.identity.routeFingerprint =
      .ok (if row.document.identity.paperContract.scopeKind = .instrument then some ⟨id, row⟩
        else none) := by
  unfold readPaperOrder
  rw [hrow]
  by_cases hkind : row.document.identity.paperContract.scopeKind = .instrument
  · simp only [PaperScopeFilter.admits, hkind]
    simp [h.decodes.fromRow]
  · simp [PaperScopeFilter.admits, hkind]

/-- The pending update of a patchable order stores the row under its new levels. -/
theorem PlacedEntry.update_ok (h : row.PlacedEntry id)
    (hrow : t.orders.get? id = some row) (hvalid : p.ValidFor id row entry)
    (hpatchable : row.Patchable p)
    (hconfig : row.document.payload.executionConfig = some config) (now : Time) :
    ∃ t', updatePaperOrderIfPending t (row.patchedOrder id p config now)
      row.document.identity.instrumentId row.document.identity.routeFingerprint now =
        .ok (some ⟨id, row.withLevels entry (p.stop id row) (p.take id row) now⟩, t') := by
  have hidentity : (row.patchedOrder id p config now).identity
      row.document.executionCommand.paperContract = row.document.identity := by
    rw [h.decodes.executionCommand.paperContract_eq]
    rfl
  have hentry : (row.patchedOrder id p config now).entry = some entry := hvalid.entry_eq
  have hnew : (row.withLevels entry (p.stop id row) (p.take id row) now).Decodes id :=
    h.withLevels_decodes hvalid hpatchable hconfig
  have hdecodes := hnew.fromRow
  have hident := h.decodes.identity
  have happend : ∀ u : PaperTables, ∃ u',
      u.appendEvent (orderEvent .orderUpdated
        ⟨id, row.withLevels entry (p.stop id row) (p.take id row) now⟩ now) = .ok u' := by
    intro u
    refine ⟨_, if_neg (not_or.mpr ⟨hident.instrumentId_ne, hident.routeFingerprint_ne⟩)⟩
  unfold updatePaperOrderIfPending
  rw [hentry, show (row.patchedOrder id p config now).id = id from rfl, hrow]
  obtain ⟨t', ht'⟩ := happend
    { t with orders := t.orders.insert id (row.withLevels entry (p.stop id row) (p.take id row) now) }
  refine ⟨t', bind_eq_ok.mpr ⟨⟨⟩, require_eq_ok.mpr ⟨rfl, rfl⟩, ?_⟩⟩
  refine bind_eq_ok.mpr ⟨_, h.patchedCommand hvalid hpatchable, ?_⟩
  refine bind_eq_ok.mpr ⟨_, h.patchedProtection hvalid hpatchable hconfig, ?_⟩
  have hscope : row.document.identity.scope = ((row.patchedOrder id p config now).identity
      (row.withLevels entry (p.stop id row) (p.take id row)
        now).document.executionCommand.paperContract).scope ∧ row.status = .pending :=
    ⟨congrArg PaperIdentity.scope hidentity.symm, h.pending⟩
  have hupdated : row.updated (row.patchedOrder id p config now) entry
      (row.withLevels entry (p.stop id row) (p.take id row) now).document.executionCommand
      row.document.payload ((row.patchedOrder id p config now).updatedAt.getD now) =
      row.withLevels entry (p.stop id row) (p.take id row) now := h.updated_eq hpatchable
  simp only
  rw [if_pos hscope, hupdated]
  exact bind_eq_ok.mpr ⟨_, hdecodes, bind_eq_ok.mpr ⟨t', ht', rfl⟩⟩

/-- **A patchable order** is patched, and only its levels change. -/
theorem PlacedEntry.patch_ok (h : row.PlacedEntry id)
    (hrow : t.orders.get? id = some row) (hvalid : p.ValidFor id row entry)
    (hpatchable : row.Patchable p) (now : Time) :
    ∃ t', patchPaperOrderAction t id p row.document.identity.instrumentId
      row.document.identity.routeFingerprint now =
        .ok (.patched ⟨id, row.withLevels entry (p.stop id row) (p.take id row) now⟩, t') := by
  obtain ⟨config, hconfig⟩ := Option.isSome_iff_exists.mp hpatchable.executionConfig
  obtain ⟨t', ht'⟩ := h.update_ok hrow hvalid hpatchable hconfig now
  have hread := h.read_eq hrow
  rw [if_pos hpatchable.instrument] at hread
  have hident := h.decodes.identity
  refine ⟨t', bind_eq_ok.mpr ⟨_, requireExactIdentityText_eq_ok.mpr ⟨h.decodes.id_ne, rfl⟩, ?_⟩⟩
  refine bind_eq_ok.mpr ⟨_, requireExactIdentityText_eq_ok.mpr ⟨hident.instrumentId_ne, rfl⟩, ?_⟩
  refine bind_eq_ok.mpr ⟨_, requireExactIdentityText_eq_ok.mpr ⟨hident.routeFingerprint_ne, rfl⟩, ?_⟩
  refine bind_eq_ok.mpr ⟨_, hread, ?_⟩
  refine bind_eq_ok.mpr ⟨⟨⟩, require_eq_ok.mpr ⟨rfl, rfl, rfl⟩, ?_⟩
  refine bind_eq_ok.mpr ⟨_, updatePaperOrder_eq_ok.mpr
    ⟨config, entry, row.side, hconfig, h.normalizable hvalid hpatchable, rfl⟩, ?_⟩
  refine bind_eq_ok.mpr ⟨_, ht', ?_⟩
  exact bind_eq_ok.mpr ⟨⟨⟩, require_eq_ok.mpr ⟨⟨rfl, rfl, rfl⟩, h.pending⟩, rfl⟩

/-- A payload that a patch left alone is of an absolute structure, or kept its distances. -/
theorem keepsDistances_of_payload (hprotected : Protected row.useStopLoss row.useTarget row.stopLoss
      row.target row.document.payload) {config : Option String}
    (hkept : { (p.payload row.document.payload).withoutExecutionConfig.orAbsolute with
      executionConfig := config } = row.document.payload) :
    row.document.payload.protectionBasis = some .absoluteStructure ∨ p.KeepsDistances row := by
  rcases hprotected.intent with ⟨hbasis, -⟩ | ⟨intent, hbasis, hintent, -, hstop, htarget⟩
  · exact .inl hbasis
  · have hkeptBasis := (congrArg PaperOrderPayload.protectionBasis hkept).trans hbasis
    have hkeptIntent := (congrArg PaperOrderPayload.protectionIntent hkept).trans hintent
    have hnames : ¬p.NamesLevel := by
      intro hnames
      simp [PaperOrderPatch.payload, if_pos hnames, PaperOrderPayload.withoutExecutionConfig,
        PaperOrderPayload.orAbsolute] at hkeptBasis
    simp only [PaperOrderPatch.payload, if_neg hnames, PaperOrderPayload.withoutExecutionConfig,
      PaperOrderPayload.orAbsolute, hintent, Option.map_some, Option.some.injEq] at hkeptIntent
    have hoff : ∀ {use : Bool} {points : Option ℚ} {off : Option Bool}, PointsAgree use points →
        (if off = some false then none else points) = points → off = some false → use = false := by
      intro use points off hagree hsame hfalse
      rw [if_pos hfalse] at hsame
      subst hsame
      cases use with
      | false => rfl
      | true => exact hagree.elim
    exact .inr ⟨hnames, hoff hstop (congrArg PaperProtectionIntent.stopPoints hkeptIntent),
      hoff htarget (congrArg PaperProtectionIntent.targetPoints hkeptIntent)⟩

/-- **What a patch that changes only levels was given.** -/
theorem PlacedEntry.patchable_of_ok {t' : PaperTables} {stopLoss target : Option ℚ} {ts : Time}
    (h : row.PlacedEntry id) (hrow : t.orders.get? id = some row)
    (hpatch : patchPaperOrderAction t id p row.document.identity.instrumentId
      row.document.identity.routeFingerprint now =
        .ok (.patched ⟨id, row.withLevels entry stopLoss target ts⟩, t')) :
    row.Patchable p := by
  have hread := h.read_eq hrow
  obtain ⟨_, -, hpatch⟩ := bind_eq_ok.mp hpatch
  obtain ⟨_, -, hpatch⟩ := bind_eq_ok.mp hpatch
  obtain ⟨_, -, hpatch⟩ := bind_eq_ok.mp hpatch
  obtain ⟨current, hcurrent, hpatch⟩ := bind_eq_ok.mp hpatch
  rw [hread] at hcurrent
  cases hcurrent
  by_cases hkind : row.document.identity.paperContract.scopeKind = .instrument
  · rw [if_pos hkind] at hpatch
    obtain ⟨_, -, hpatch⟩ := bind_eq_ok.mp hpatch
    obtain ⟨updated, hupdated, hpatch⟩ := bind_eq_ok.mp hpatch
    obtain ⟨⟨saved, u⟩, hsaved, hpatch⟩ := bind_eq_ok.mp hpatch
    obtain ⟨config, entry', side, hconfig, hnormal, rfl⟩ := updatePaperOrder_eq_ok.mp hupdated
    obtain rfl : saved = some ⟨id, row.withLevels entry stopLoss target ts⟩ := by
      cases saved with
      | none => exact nomatch (pure_eq_ok.mp hpatch)
      | some saved =>
        obtain ⟨_, -, hpatch⟩ := bind_eq_ok.mp hpatch
        obtain ⟨hsame, -⟩ := Prod.mk.inj (pure_eq_ok.mp hpatch)
        exact congrArg some (PaperPatchResult.patched.inj hsame)
    obtain ⟨hnone, -⟩ | ⟨row', entry'', command, payload, -, hrow', -, -, hcommand, hpayload, -, -, -,
      hstored, -⟩ := updatePaperOrderIfPending_eq_ok hsaved
    · exact nomatch hnone
    cases (hrow.symm.trans hrow')
    have hsame := (SavedOrder.mk.inj (Option.some.inj hstored)).2
    have hdocument := congrArg OrderRow.document hsame
    -- each of the copies that the patch wrote is as it was
    have hkept : row.document.payload = payload := congrArg OrderDocument.payload hdocument
    have hsource : row.document.source =
        ((row.document.source <|> some (textOr row.document.source "manual")) <|>
          row.document.source) := congrArg OrderDocument.source hdocument
    have hnote : row.document.note = some (noteText row.document.note) :=
      congrArg OrderDocument.note hdocument
    have hexit : row.document.executionCommand.exitReason = command.exitReason :=
      congrArg (fun d => d.executionCommand.exitReason) hdocument
    obtain ⟨hdraft, -⟩ := paperOrderCommandPayload_eq_ok.mp h.inStep
    obtain ⟨hnewDraft, -⟩ := paperOrderCommandPayload_eq_ok.mp hcommand
    obtain ⟨hnewPayload, -⟩ := PaperOrder.protection_eq_ok.mp hpayload
    have hpayloadKept := (Option.some.inj hnewPayload).trans hkept.symm
    exact {
      positionId := fun hempty => hnormal.positionId_ne (congrArg some hempty)
      parentOrderId := fun hempty => hnormal.parentOrderId_ne (congrArg some hempty)
      ocoGroupId := fun hempty => hnormal.ocoGroupId_ne (congrArg some hempty)
      executionConfig := Option.isSome_iff_exists.mpr ⟨config, hconfig⟩
      instrument := hkind
      basis := keepsDistances_of_payload h.decodes.protection hpayloadKept
      source := by
        cases hnone : row.document.source with
        | none =>
          rw [hnone] at hsource
          exact nomatch hsource
        | some source => rfl
      note := hnote
      exitReason := by
        rw [hdraft, hnewDraft] at hexit
        exact hexit }
  · rw [if_neg hkind] at hpatch
    exact nomatch hpatch

end OrderRow

/-- An order that was placed is stored as a pending row in step with its command. -/
theorem placedEntry_of_upsert {t t' : PaperTables} {saved : SavedOrder} {now : Time}
    (h : upsertPaperOrder t o now = .ok (saved, t')) (hnew : t.orders.get? o.id = none)
    (hrole : saved.row.role = .entry) : saved.row.PlacedEntry saved.id := by
  obtain ⟨command, hcommand, h⟩ := bind_eq_ok.mp h
  obtain ⟨shape, hshape, h⟩ := bind_eq_ok.mp h
  obtain ⟨payload, hpayload, h⟩ := bind_eq_ok.mp h
  obtain ⟨-, -, h⟩ := bind_eq_ok.mp h
  rw [hnew] at h
  obtain ⟨s, hs, h⟩ := bind_eq_ok.mp h
  obtain ⟨u, -, h⟩ := bind_eq_ok.mp h
  obtain ⟨rfl, -⟩ := Prod.mk.inj (pure_eq_ok.mp h)
  obtain ⟨rfl, hdecodes⟩ := paperOrderFromRow_eq_ok.mp hs
  exact ⟨hdecodes, OrderRewrite.placed_inStep hcommand hshape hpayload, rfl, hrole⟩

/-- What was placed is stored. -/
theorem stored_of_upsert {t t' : PaperTables} {saved : SavedOrder} {now : Time}
    (h : upsertPaperOrder t o now = .ok (saved, t')) (hnew : t.orders.get? o.id = none) :
    t'.orders.get? saved.id = some saved.row := by
  obtain ⟨command, -, h⟩ := bind_eq_ok.mp h
  obtain ⟨shape, -, h⟩ := bind_eq_ok.mp h
  obtain ⟨payload, -, h⟩ := bind_eq_ok.mp h
  obtain ⟨-, -, h⟩ := bind_eq_ok.mp h
  rw [hnew] at h
  obtain ⟨s, hs, h⟩ := bind_eq_ok.mp h
  obtain ⟨u, hu, h⟩ := bind_eq_ok.mp h
  cases (pure_eq_ok.mp h)
  obtain ⟨rfl, -⟩ := paperOrderFromRow_eq_ok.mp hs
  rw [PaperTables.appendEvent_eq_ok hu]
  exact Dict.get?_insert_self ..

/-- **When patches round-trip.** Take any entry that was placed, any journal it is still stored in as
it was placed, and any patch whose resulting geometry is valid. The patch succeeds and changes only
levels, their flags, the clock and with them the execution command exactly if the order is
patchable; and then the levels are those of the patch. -/
theorem patch_round_trip_iff {t₀ t₁ t : PaperTables} {o : PaperOrder} {saved : SavedOrder}
    {placedAt : Time} {p : PaperOrderPatch} {entry : ℚ}
    (hplaced : upsertPaperOrder t₀ o placedAt = .ok (saved, t₁))
    (hnew : t₀.orders.get? o.id = none) (hrole : saved.row.role = .entry)
    (hstored : t.orders.get? saved.id = some saved.row)
    (hvalid : p.ValidFor saved.id saved.row entry) (now : Time) :
    ((∃ entry stopLoss target ts t', patchPaperOrderAction t saved.id p
        saved.row.document.identity.instrumentId saved.row.document.identity.routeFingerprint now =
          .ok (.patched ⟨saved.id, saved.row.withLevels entry stopLoss target ts⟩, t')) ↔
      saved.row.Patchable p) ∧
    (saved.row.Patchable p → ∃ t', patchPaperOrderAction t saved.id p
      saved.row.document.identity.instrumentId saved.row.document.identity.routeFingerprint now =
        .ok (.patched ⟨saved.id, saved.row.withLevels entry (p.stop saved.id saved.row)
          (p.take saved.id saved.row) now⟩, t')) := by
  have hentry := placedEntry_of_upsert hplaced hnew hrole
  have hok := fun hpatchable => hentry.patch_ok hstored hvalid hpatchable now
  constructor
  · constructor
    · rintro ⟨entry, stopLoss, target, ts, t', hpatch⟩
      exact hentry.patchable_of_ok hstored hpatch
    · intro hpatchable
      obtain ⟨t', ht'⟩ := hok hpatchable
      exact ⟨_, _, _, _, t', ht'⟩
  · exact hok

/-- A limit buy at 100 with an absolute stop and target, as the action places it. -/
def plainEntry : PaperOrder :=
  { entryOrder "e" .long 2 100 with
    orderType := .limit
    stopLoss := some 95
    target := some 110
    useStopLoss := some true
    useTarget := some true
    source := some "manual"
    note := some ""
    payload := some ⟨false, some .absoluteStructure, none, some "config", none, []⟩ }

/-- The same order as part of a group, under a parent and a position. -/
def linkedEntry : PaperOrder :=
  { plainEntry with
    positionId := some "pos-x"
    parentOrderId := some "po-x"
    ocoGroupId := some "oco-x" }

/-- The entry is moved to 101. -/
def entryTo101 : PaperOrderPatch := ⟨some (some 101), none, none, none, none⟩

/-- The linked order is patched. -/
theorem patch_round_trip_iff_linked :
    ∃ saved t₁, upsertPaperOrder .empty linkedEntry 1 = .ok (saved, t₁) ∧
      ∃ entry stopLoss target ts t', patchPaperOrderAction t₁ saved.id entryTo101
        saved.row.document.identity.instrumentId saved.row.document.identity.routeFingerprint 2 =
          .ok (.patched ⟨saved.id, saved.row.withLevels entry stopLoss target ts⟩, t') := by
  have hnew : PaperTables.empty.orders.get? linkedEntry.id = none := by decide
  have hfacts : ((upsertPaperOrder .empty linkedEntry 1).toOption.map fun r =>
      (decide (r.1.row.role = .entry ∧ (entryTo101.onto r.1.id r.1.row).entry = some 101 ∧
        (entryTo101.onto r.1.id r.1.row).stopLoss.isSome ∧
        (entryTo101.onto r.1.id r.1.row).target.isSome ∧
        LevelOn r.1.row.side.StopBehind (entryTo101.stop r.1.id r.1.row) 101 ∧
        LevelOn r.1.row.side.TargetAhead (entryTo101.take r.1.id r.1.row) 101),
      decide (r.1.row.positionId.getD "" ≠ "" ∧ r.1.row.parentOrderId.getD "" ≠ "" ∧
        r.1.row.ocoGroupId.getD "" ≠ "" ∧ r.1.row.document.payload.executionConfig.isSome ∧
        r.1.row.document.identity.paperContract.scopeKind = .instrument ∧
        r.1.row.document.payload.protectionBasis = some .absoluteStructure ∧
        r.1.row.document.source.isSome ∧
        r.1.row.document.note = some (noteText r.1.row.document.note) ∧
        textOr r.1.row.document.exitReason "" = ""))) = some (true, true) := by decide +kernel
  cases hplaced : upsertPaperOrder .empty linkedEntry 1 with
  | error e =>
    rw [hplaced] at hfacts
    exact absurd hfacts (by simp [Except.toOption])
  | ok r =>
    rw [hplaced] at hfacts
    obtain ⟨hlevels, hcopies⟩ := Prod.mk.inj (Option.some.inj hfacts)
    obtain ⟨hrole, hentry, hstop, htarget, hstopOn, htargetOn⟩ := of_decide_eq_true hlevels
    obtain ⟨hpos, hparent, hoco, hconfig, hkind, hbasis, hsource, hnote, hexit⟩ :=
      of_decide_eq_true hcopies
    have hvalid : entryTo101.ValidFor r.1.id r.1.row 101 :=
      ⟨hentry, fun _ => hstop, fun _ => htarget, hstopOn, htargetOn⟩
    exact ⟨r.1, r.2, rfl,
      (patch_round_trip_iff hplaced hnew hrole (stored_of_upsert hplaced hnew) hvalid 2).1.mpr
        ⟨hpos, hparent, hoco, hconfig, hkind, .inl hbasis, hsource, hnote, hexit⟩⟩

/-- **A plain entry cannot be patched**: its absent position is read back as an empty text. -/
theorem plain_entry_not_patchable :
    patchPaperOrderAction (PaperTables.empty.perform (.upsert plainEntry 1)) "e" entryTo101 "AAPL"
      "route" 2 = .error ⟨"PAPER_POSITION_ID is required"⟩ := by
  have hraised : raised (patchPaperOrderAction (PaperTables.empty.perform (.upsert plainEntry 1))
      "e" entryTo101 "AAPL" "route" 2) = some ⟨"PAPER_POSITION_ID is required"⟩ := by decide +kernel
  exact raised_eq_some.mp hraised

end AefTerminal
