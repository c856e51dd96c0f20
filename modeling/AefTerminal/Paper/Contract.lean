import AefTerminal.Domain.Bar
import AefTerminal.Foundation.Fallible
import AefTerminal.Foundation.Text

/-!
# Contracts and protection of paper orders

The physical contract an order executes on, and the protection contract of its levels. Both are
validated wherever a record crosses a boundary: the same checks run on an incoming order, on the
commands stored with it and on every row that is read back.

A rejection is the text the source raises. Prices and quantities are finite doubles in the source
and are modelled as exact rationals.

## Main definitions

* `PaperContractIdentity`, `scopeKey`, `requirePaperContractIdentity`
* `PaperOrderPayload`, `requirePaperOrderProtection`
-/

namespace AefTerminal

open Foundation

/-- A rejection, by its text. -/
structure PaperError where
  code : String
  deriving DecidableEq, Repr

inductive PaperSide
  | long | short
  deriving DecidableEq, Repr

inductive PaperRole
  | entry | stop | take | close
  deriving DecidableEq, Repr

def PaperRole.text : PaperRole → String
  | .entry => "entry"
  | .stop => "stop"
  | .take => "take"
  | .close => "close"

inductive PaperOrderType
  | market | limit | stop
  deriving DecidableEq, Repr

/-- `require_exact_identity_text`: a required text is not empty. -/
def requireExactIdentityText (value field : String) : Except PaperError String :=
  if value = "" then .error ⟨field ++ " is required"⟩ else .ok value

@[simp] theorem requireExactIdentityText_eq_ok {value field v : String} :
    requireExactIdentityText value field = .ok v ↔ value ≠ "" ∧ v = value := by
  unfold requireExactIdentityText
  split
  · rename_i h
    simp [h]
  · rename_i h
    simp [h, eq_comm]

/-! ### The contract identity -/

inductive PaperSecType
  | opt | fop
  deriving DecidableEq, Repr

def PaperSecType.text : PaperSecType → String
  | .opt => "OPT"
  | .fop => "FOP"

inductive PaperRight
  | call | put
  deriving DecidableEq, Repr

/-- The facts an option contract adds, with the checks of the constructor. -/
structure PaperOptionFacts where
  secType : PaperSecType
  conId : ℕ
  exchange : String
  expiry : String
  expiryAt : Time
  strike : ℚ
  right : PaperRight
  tradingClass : String
  multiplier : ℚ
  currency : String
  /-- `PAPER_OPTION_CON_ID_INVALID` -/
  conId_pos : 0 < conId
  /-- `PAPER_OPTION_STRIKE_INVALID`, `PAPER_OPTION_MULTIPLIER_INVALID` -/
  strike_pos : 0 < strike
  multiplier_pos : 0 < multiplier
  /-- `PAPER_OPTION_EXPIRY_INVALID` -/
  expiry_digits : expiry.length = 8 ∧ expiry.toList.all Char.isDigit
  exchange_ne : exchange ≠ ""
  tradingClass_ne : tradingClass ≠ ""
  currency_ne : currency ≠ ""
  deriving DecidableEq

inductive PaperContractScopeKind
  | instrument | option
  deriving DecidableEq, Repr

def PaperContractScopeKind.text : PaperContractScopeKind → String
  | .instrument => "instrument"
  | .option => "option"

/-- The physical execution identity: an ordinary instrument has no option facts. -/
structure PaperContractIdentity where
  provider : String
  providerContractId : String
  option : Option PaperOptionFacts
  provider_ne : provider ≠ ""
  providerContractId_ne : providerContractId ≠ ""
  /-- `contract_provider_chk`: the journal tables take the canonical storage providers only. -/
  provider_canonical : strip provider = provider
  deriving DecidableEq

namespace PaperContractIdentity

def scopeKind (c : PaperContractIdentity) : PaperContractScopeKind :=
  match c.option with
  | none => .instrument
  | some _ => .option

/-- The parts of a scope key. -/
def scopeParts (c : PaperContractIdentity) : List String :=
  match c.option with
  | none => [c.scopeKind.text, c.provider, c.providerContractId]
  | some facts =>
    [c.scopeKind.text, c.provider, facts.secType.text, c.providerContractId, toString facts.conId,
      facts.exchange]

/-- Each part with its length, so that no two part lists share a key. -/
def scopeKey (c : PaperContractIdentity) : String :=
  "paper-contract-v1|" ++
    String.intercalate "|" (c.scopeParts.map fun part => toString part.length ++ ":" ++ part)

end PaperContractIdentity

/-- A record's contract, checked against the provider texts beside it. -/
def requirePaperContractIdentity (provider providerContractId : String)
    (contract : Option PaperContractIdentity) : Except PaperError PaperContractIdentity := do
  let provider ← requireExactIdentityText provider "PAPER_CONTRACT_PROVIDER"
  let providerContractId ←
    requireExactIdentityText providerContractId "PAPER_CONTRACT_PROVIDER_CONTRACT_ID"
  match contract with
  | none => .error ⟨"PAPER_CONTRACT_PAYLOAD_REQUIRED"⟩
  | some contract =>
    if contract.provider ≠ provider ∨ contract.providerContractId ≠ providerContractId then
      .error ⟨"PAPER_CONTRACT_PAYLOAD_CONTRADICTORY"⟩
    else .ok contract

theorem requirePaperContractIdentity_eq_ok {provider providerContractId : String}
    {contract : Option PaperContractIdentity} {c : PaperContractIdentity} :
    requirePaperContractIdentity provider providerContractId contract = .ok c ↔
      contract = some c ∧ provider = c.provider ∧ providerContractId = c.providerContractId := by
  unfold requirePaperContractIdentity
  simp only [bind_eq_ok, requireExactIdentityText_eq_ok]
  constructor
  · rintro ⟨_, ⟨-, rfl⟩, _, ⟨-, rfl⟩, h⟩
    cases contract with
    | none => exact absurd h (by simp)
    | some d =>
      simp only at h
      split at h
      · exact absurd h (by simp)
      · rename_i hne
        push Not at hne
        cases h
        exact ⟨rfl, hne.1.symm, hne.2.symm⟩
  · rintro ⟨rfl, rfl, rfl⟩
    exact ⟨_, ⟨c.provider_ne, rfl⟩, _, ⟨c.providerContractId_ne, rfl⟩, by simp⟩

/-! ### The protection contract -/

inductive PaperProtectionBasis
  | absoluteStructure | fillDistance
  deriving DecidableEq, Repr

/-- Distances from the fill, for the levels that are enabled. -/
structure PaperProtectionIntent where
  stopPoints : Option ℚ
  targetPoints : Option ℚ
  deriving DecidableEq, Repr

/-- What a caller saw of the position when it decided. -/
inductive PaperPositionExpectation
  | absent
  | opened (positionId : String) (side : PaperSide) (qty : ℚ) (updatedAt : Time)
  | malformed
  deriving DecidableEq, Repr

/-- The nested `payload` of an order. The remaining keys are carried as they are stored. -/
structure PaperOrderPayload where
  absoluteLevel : Bool
  protectionBasis : Option PaperProtectionBasis
  protectionIntent : Option PaperProtectionIntent
  executionConfig : Option String
  positionExpectation : Option PaperPositionExpectation
  metadata : List (String × String)
  deriving DecidableEq

/-- An absent payload is an empty one. -/
def PaperOrderPayload.empty : PaperOrderPayload := ⟨false, none, none, none, none, []⟩

/-- `payload.get("indicator_source")`, empty when the key is absent. -/
def PaperOrderPayload.indicatorSource (p : PaperOrderPayload) : String :=
  ((p.metadata.find? fun v => v.1 = "indicator_source").map Prod.snd).getD ""

/-- A command carries no execution configuration. -/
def PaperOrderPayload.withoutExecutionConfig (p : PaperOrderPayload) : PaperOrderPayload :=
  { p with executionConfig := none }

/-- What contradictory copies are compared by. -/
def PaperOrderPayload.protectionSignature (p : PaperOrderPayload) :
    Option PaperProtectionBasis × Option PaperProtectionIntent :=
  (p.protectionBasis, p.protectionIntent)

/-- A distance is given, and positive, exactly for an enabled level. -/
def PointsAgree (use : Bool) (points : Option ℚ) : Prop :=
  match use, points with
  | true, some p => 0 < p
  | false, none => True
  | _, _ => False

instance (use : Bool) (points : Option ℚ) : Decidable (PointsAgree use points) :=
  match use, points with
  | true, some p => inferInstanceAs (Decidable (0 < p))
  | false, none => isTrue trivial
  | true, none => isFalse id
  | false, some _ => isFalse id

/-- `require_paper_order_protection`: the payload, if basis, flags, levels and intent agree. -/
def requirePaperOrderProtection (useStopLoss useTarget : Option Bool) (stopLoss target : Option ℚ)
    (payload : Option PaperOrderPayload) : Except PaperError PaperOrderPayload := do
  match payload with
  | none => .error ⟨"PAPER_ORDER_PROTECTION_PAYLOAD_REQUIRED"⟩
  | some payload =>
    if payload.absoluteLevel then .error ⟨"PAPER_PROTECTION_LEGACY_ABSOLUTE_LEVEL_FORBIDDEN"⟩
    else
      match payload.protectionBasis with
      | none => .error ⟨"PAPER_PROTECTION_BASIS_INVALID"⟩
      | some basis =>
        match useStopLoss, useTarget with
        | some useStopLoss, some useTarget =>
          if useStopLoss ≠ stopLoss.isSome ∨ useTarget ≠ target.isSome then
            .error ⟨"PAPER_PROTECTION_LEVELS_INVALID"⟩
          else
            match basis, payload.protectionIntent with
            | .absoluteStructure, none => .ok payload
            | .absoluteStructure, some _ => .error ⟨"PAPER_ABSOLUTE_PROTECTION_INTENT_FORBIDDEN"⟩
            | .fillDistance, none => .error ⟨"PAPER_FILL_DISTANCE_INTENT_INVALID"⟩
            | .fillDistance, some intent =>
              if (useStopLoss ∨ useTarget) ∧ PointsAgree useStopLoss intent.stopPoints ∧
                  PointsAgree useTarget intent.targetPoints then .ok payload
              else .error ⟨"PAPER_FILL_DISTANCE_INTENT_INVALID"⟩
        | _, _ => .error ⟨"PAPER_PROTECTION_FLAGS_INVALID"⟩

/-- The levels and distances agree with flags, basis and intent. -/
structure Protected (useStopLoss useTarget : Bool) (stopLoss target : Option ℚ)
    (payload : PaperOrderPayload) : Prop where
  no_absoluteLevel : payload.absoluteLevel = false
  stopLoss_iff : useStopLoss = stopLoss.isSome
  target_iff : useTarget = target.isSome
  intent : (payload.protectionBasis = some .absoluteStructure ∧ payload.protectionIntent = none) ∨
    ∃ intent, payload.protectionBasis = some .fillDistance ∧
      payload.protectionIntent = some intent ∧ (useStopLoss ∨ useTarget) ∧
      PointsAgree useStopLoss intent.stopPoints ∧ PointsAgree useTarget intent.targetPoints

theorem requirePaperOrderProtection_eq_ok {useStopLoss useTarget : Option Bool}
    {stopLoss target : Option ℚ} {payload : Option PaperOrderPayload} {p : PaperOrderPayload} :
    requirePaperOrderProtection useStopLoss useTarget stopLoss target payload = .ok p ↔
      payload = some p ∧ ∃ us ut, useStopLoss = some us ∧ useTarget = some ut ∧
        Protected us ut stopLoss target p := by
  constructor
  · intro h
    unfold requirePaperOrderProtection at h
    split at h
    · exact absurd h (by simp)
    rename_i payload
    split at h
    · exact absurd h (by simp)
    rename_i habs
    split at h
    · exact absurd h (by simp)
    rename_i basis hbasis
    split at h
    · rename_i us ut
      split at h
      · exact absurd h (by simp)
      rename_i hlevels
      push Not at hlevels
      split at h
      · rename_i hintent
        cases h
        exact ⟨rfl, us, ut, rfl, rfl, by simpa using habs, hlevels.1, hlevels.2,
          .inl ⟨hbasis, hintent⟩⟩
      · exact absurd h (by simp)
      · exact absurd h (by simp)
      · rename_i intent hintent
        split at h
        · rename_i hpoints
          cases h
          exact ⟨rfl, us, ut, rfl, rfl, by simpa using habs, hlevels.1, hlevels.2,
            .inr ⟨intent, hbasis, hintent, hpoints⟩⟩
        · exact absurd h (by simp)
    · exact absurd h (by simp)
  · rintro ⟨rfl, us, ut, rfl, rfl, habs, hstop, htarget, hintent⟩
    unfold requirePaperOrderProtection
    rcases hintent with ⟨hbasis, hintent⟩ | ⟨intent, hbasis, hintent, hpoints⟩
    · simp [habs, hbasis, hintent, hstop, htarget]
    · simp only [habs, hbasis, hintent, hstop, htarget]
      rw [← hstop, ← htarget]
      simpa using hpoints

/-- Neither the execution configuration nor the other keys take part in the protection. -/
theorem Protected.withoutExecutionConfig {us ut : Bool} {stopLoss target : Option ℚ}
    {p : PaperOrderPayload} (h : Protected us ut stopLoss target p) :
    Protected us ut stopLoss target p.withoutExecutionConfig :=
  ⟨h.no_absoluteLevel, h.stopLoss_iff, h.target_iff, h.intent⟩

end AefTerminal
