import AefTerminal.Foundation.Dict
import AefTerminal.Foundation.Fallible
import AefTerminal.Settings.MutationOrder

/-!
# The settings repository

The table of settings, one row a scope and key, the revision of the settings, and the two writers.
A writer checks its arguments before it connects; the rest runs in one transaction under the writer
fence and the exclusive lock of the settings, so here it is a function of the tables that returns
the new ones or raises and leaves the old.

The contract that values must meet is a parameter, and so is what PostgreSQL stores of a JSON value
and when Python finds two values equal.

## Main definitions

* `SettingsBackend`: the parameters
* `SettingRow`, `SettingsTables`
* `excludedSupersedes`, `insertSetting`: one row of the upsert
* `mutationOutcome`: what the row read back says about a submitted mutation
* `upsertSetting`, `upsertSettings`
-/

namespace AefTerminal

open Foundation

inductive SettingsScope
  | client
  | server
  | watchlistPresentation
  deriving DecidableEq, Repr

inductive SettingsError
  | value (text : String)
  | runtime (text : String)
  /-- A comparison of `None` with a text. -/
  | type
  /-- PostgreSQL refused a value. -/
  | data
  deriving DecidableEq, Repr

def requireCurrentSettingsScope (scope : String) : Except SettingsError SettingsScope :=
  if scope = "client" then .ok .client
  else if scope = "server" then .ok .server
  else if scope = "watchlist_presentation" then .ok .watchlistPresentation
  else .error (.value "STORAGE_SETTINGS_SCOPE_INVALID")

/-- The settings contract, and JSON values in PostgreSQL and in Python. -/
structure SettingsBackend (V : Type) where
  /-- `_validate_settings_contract`; the last argument is `instrument_exists`. -/
  validate : SettingsScope → List (String × V) → Option (String → Bool) → Except SettingsError Unit
  /-- What a column of type `jsonb` holds after the value was written, if it takes the value. -/
  jsonb : V → Option V
  /-- `==` of Python. -/
  same : V → V → Bool
  same_refl : ∀ v, same v v
  same_symm : ∀ {v w}, same v w → same w v
  same_trans : ∀ {u v w}, same u v → same v w → same u w

/-- A row without an order has `0`, `NULL` and `0` in the three columns. -/
structure SettingRow (V : Type) where
  value : V
  order : Option MutationOrder
  deriving DecidableEq

namespace SettingRow

variable {V : Type}

def mutationChangedAtMs (r : SettingRow V) : ℤ := (orderTuple r.order).1

def mutationWriterId (r : SettingRow V) : Option UUID := r.order.map MutationOrder.writerId

def mutationSequence (r : SettingRow V) : ℤ := (orderTuple r.order).2.2

end SettingRow

abbrev SettingTable (V : Type) := Dict (SettingsScope × String) (SettingRow V)

structure SettingsTables (V : Type) where
  settings : SettingTable V
  revision : ℕ
  revision_le : revision ≤ maxSafeSettingsRevision

/-! ### The revision -/

def readSettingsRevision {V : Type} (t : SettingsTables V) : Except SettingsError ℕ := do
  require (t.revision ≤ maxSafeSettingsRevision) (.runtime "SETTINGS_REVISION_STORAGE_INVALID")
  pure t.revision

def advanceSettingsRevision {V : Type} (t : SettingsTables V) :
    Except SettingsError (SettingsTables V) :=
  if h : t.revision < maxSafeSettingsRevision then
    .ok { t with revision := t.revision + 1, revision_le := h }
  else .error (.runtime "SETTINGS_REVISION_EXHAUSTED")

/-- The end of both writers: a changed row advances the revision. -/
def settleRevision {V : Type} (changed : Bool) (t : SettingsTables V) :
    Except SettingsError (SettingsTables V × ℕ) := do
  if changed then
    let t' ← advanceSettingsRevision t
    pure (t', t'.revision)
  else
    let revision ← readSettingsRevision t
    pure (t, revision)

/-! ### One row -/

section Rows

variable {V : Type} [DecidableEq V]

/-- Writing without an order replaces every row that is not exactly the written one. -/
def unorderedSupersedes (current excluded : SettingRow V) : Bool :=
  current.value ≠ excluded.value || current.mutationChangedAtMs ≠ 0 ||
    current.mutationWriterId.isSome || current.mutationSequence ≠ 0

/-- The condition under which `ON CONFLICT DO UPDATE` updates. -/
def excludedSupersedes (current excluded : SettingRow V) : Bool :=
  match excluded.order with
  | none => unorderedSupersedes current excluded
  | some order =>
    match current.order with
    | none => true
    | some stored => stored.precedes order

/-- The row that an upsert writes and returns, if it does. -/
def upsertRow (current : Option (SettingRow V)) (excluded : SettingRow V) :
    Option (SettingRow V) :=
  match current with
  | none => some excluded
  | some row => if excludedSupersedes row excluded then some excluded else none

/-- One pass of the insert loop, with the keys that were applied so far. -/
def insertSetting (B : SettingsBackend V) (scope : SettingsScope)
    (submitted : String → Option MutationOrder) (acc : SettingTable V × List String)
    (item : String × V) : Except SettingsError (SettingTable V × List String) :=
  match B.jsonb item.2 with
  | none => .error .data
  | some stored =>
    match upsertRow (acc.1.get? (scope, item.1)) ⟨stored, submitted item.1⟩ with
    | some row => .ok (acc.1.insert (scope, item.1) row, item.1 :: acc.2)
    | none => .ok acc

/-! ### The writers -/

/-- What a call finds outside the settings: the checks of the writer lease and of its fence, and the
instruments on the watchlist. -/
structure SettingsCall where
  lease : Except SettingsError Unit
  fence : Except SettingsError Unit
  instrumentIds : List String

def requireOwnedScope (scope : String) : Except SettingsError SettingsScope := do
  let exactScope ← requireCurrentSettingsScope scope
  require (exactScope ≠ .watchlistPresentation) (.value "WATCHLIST_PRESENTATION_OWNER_REQUIRED")
  pure exactScope

/-- The part of `upsert_setting` under the exclusive lock. -/
def upsertSettingLocked (B : SettingsBackend V) (instrumentIds : List String)
    (scope : SettingsScope) (key : String) (value : V) (t : SettingsTables V) :
    Except SettingsError (SettingsTables V × ℕ) := do
  B.validate scope [(key, value)] (some fun i => i ∈ instrumentIds)
  let (settings, applied) ← insertSetting B scope (fun _ => none) (t.settings, []) (key, value)
  settleRevision (!applied.isEmpty) { t with settings := settings }

/-- The part of `upsert_setting` before the lock. -/
def prepareUpsertSetting (B : SettingsBackend V) (call : SettingsCall) (scope key : String)
    (value : V) : Except SettingsError SettingsScope := do
  let exactScope ← requireOwnedScope scope
  B.validate exactScope [(key, value)] none
  call.lease
  call.fence
  pure exactScope

def upsertSetting (B : SettingsBackend V) (call : SettingsCall) (scope key : String) (value : V)
    (t : SettingsTables V) : Except SettingsError (SettingsTables V × ℕ) := do
  let exactScope ← prepareUpsertSetting B call scope key value
  upsertSettingLocked B call.instrumentIds exactScope key value t

inductive MutationOutcome
  | applied
  | replayed
  | rejected
  deriving DecidableEq, Repr

structure MutationResult (V : Type) where
  outcome : MutationOutcome
  value : V
  order : OrderTuple
  deriving DecidableEq

/-- What the row read back says about the mutation of its key. -/
def mutationOutcome (B : SettingsBackend V) (hasWriter applied : Bool)
    (submitted : Option MutationOrder) (value : V) (row : SettingRow V) :
    Except SettingsError MutationOutcome :=
  let authoritativeOrder := orderTuple row.order
  let submittedOrder := orderTuple submitted
  if applied then
    if authoritativeOrder ≠ submittedOrder ∨ ¬ B.same row.value value then
      .error (.runtime "SETTINGS_MUTATION_APPLY_MISMATCH")
    else .ok .applied
  else if authoritativeOrder = submittedOrder then
    if ¬ B.same row.value value then .error (.runtime "SETTINGS_MUTATION_REPLAY_MISMATCH")
    else .ok .replayed
  else if hasWriter ∧ 0 < authoritativeOrder.1 then
    match tupleGreater authoritativeOrder submittedOrder with
    | none => .error .type
    | some true => .ok .rejected
    | some false => .error (.runtime "SETTINGS_MUTATION_ACK_STORAGE_INVALID")
  else .error (.runtime "SETTINGS_MUTATION_ACK_STORAGE_INVALID")

/-- One pass of the loop over the rows read back. -/
def mutationResult (B : SettingsBackend V) (hasWriter : Bool)
    (submitted : String → Option MutationOrder) (values : Dict String V) (applied : List String)
    (row : (SettingsScope × String) × SettingRow V) :
    Except SettingsError (String × MutationResult V) := do
  match values.get? row.1.2 with
  | none => .error (.runtime "SETTINGS_MUTATION_ACK_STORAGE_INVALID")
  | some value =>
    let outcome ← mutationOutcome B hasWriter (row.1.2 ∈ applied) (submitted row.1.2) value row.2
    pure (row.1.2, ⟨outcome, row.2.value, orderTuple row.2.order⟩)

/-- The checks of a batch before it connects; the writer, if the batch has one. -/
def requireMutationOrders (scope : SettingsScope) (values : Dict String V) (writerId : String)
    (orders : Dict String (ℤ × ℤ)) : Except SettingsError (Option UUID) := do
  require ((writerId = "") ↔ orders.entries = []) (.value "SETTINGS_MUTATION_ORDER_INVALID")
  if writerId = "" then
    pure none
  else
    require (scope = .client) (.value "SETTINGS_MUTATION_WRITER_SCOPE_INVALID")
    match parseWriterId writerId with
    | none => .error (.value "SETTINGS_MUTATION_WRITER_INVALID")
    | some writer =>
      require ((∀ k ∈ orders.keys, k ∈ values.keys) ∧ ∀ k ∈ values.keys, k ∈ orders.keys)
        (.value "SETTINGS_MUTATION_ORDER_INVALID")
      require (∀ e ∈ orders.entries, (MutationOrder.of? e.2.1 writer e.2.2).isSome)
        (.value "SETTINGS_MUTATION_ORDER_INVALID")
      pure (some writer)

/-- The order that a batch submits for a key; none without a writer. -/
def submittedOrder (writer : Option UUID) (orders : Dict String (ℤ × ℤ)) (key : String) :
    Option MutationOrder :=
  writer.bind fun w => (orders.get? key).bind fun o => MutationOrder.of? o.1 w o.2

/-- The part of `upsert_settings` under the exclusive lock. -/
def upsertSettingsLocked (B : SettingsBackend V) (instrumentIds : List String)
    (scope : SettingsScope) (values : Dict String V) (writer : Option UUID)
    (orders : Dict String (ℤ × ℤ)) (t : SettingsTables V) :
    Except SettingsError (SettingsTables V × List (String × MutationResult V) × ℕ) := do
  let instrumentExists := fun i => decide (i ∈ instrumentIds)
  B.validate scope values.entries (some instrumentExists)
  let (settings, applied) ←
    values.entries.foldlM (insertSetting B scope (submittedOrder writer orders)) (t.settings, [])
  let authoritativeRows := settings.select fun k _ => k.1 = scope ∧ k.2 ∈ values.keys
  require (∀ k ∈ values.keys, k ∈ authoritativeRows.map fun row => row.1.2)
    (.runtime "SETTINGS_MUTATION_ACK_STORAGE_INVALID")
  B.validate scope (authoritativeRows.map fun row => (row.1.2, row.2.value))
    (some instrumentExists)
  let results ← authoritativeRows.mapM
    (mutationResult B writer.isSome (submittedOrder writer orders) values applied)
  let (t', revision) ← settleRevision (!applied.isEmpty) { t with settings := settings }
  pure (t', results, revision)

/-- The part of `upsert_settings` before the lock. -/
def prepareUpsertSettings (B : SettingsBackend V) (call : SettingsCall) (scope : String)
    (values : Dict String V) (writerId : String) (orders : Dict String (ℤ × ℤ)) :
    Except SettingsError (SettingsScope × Option UUID) := do
  let exactScope ← requireOwnedScope scope
  require (values.entries ≠ []) (.value "SETTINGS_PAYLOAD_EMPTY")
  let writer ← requireMutationOrders exactScope values writerId orders
  B.validate exactScope values.entries none
  call.lease
  call.fence
  pure (exactScope, writer)

def upsertSettings (B : SettingsBackend V) (call : SettingsCall) (scope : String)
    (values : Dict String V) (writerId : String) (orders : Dict String (ℤ × ℤ))
    (t : SettingsTables V) :
    Except SettingsError (SettingsTables V × List (String × MutationResult V) × ℕ) := do
  let (exactScope, writer) ← prepareUpsertSettings B call scope values writerId orders
  upsertSettingsLocked B call.instrumentIds exactScope values writer orders t

end Rows

end AefTerminal
