import AefTerminal.Foundation.Run
import Mathlib.Algebra.Order.Ring.Rat
import Mathlib.Data.List.Sort

/-!
# Quote subscriptions

The orchestrator keeps the quote subscriptions of the provider at the routes that are wanted now. A
cycle collects a sync task that is done, selects the wanted routes, computes their key, and starts a
sync when the key is not the one of the last sync that succeeded.

What it remembers is that key, and a sync that fails leaves it as it is. But a sync that fails may
have done part of its work, so the provider need not be where the key says; when the old routes are
wanted again before a sync succeeded, the keys agree and nothing is started.

A key is the list of its JSON items, so keys compare as their texts do. The quote caches, the polls
of other providers and the warnings of a cycle are left out.

## Main definitions

* `OrchestratorState`, `QuoteCycle`, `cycle`: one pass of the loop
* `ConsideredSynchronised`, `Subscribed`
* `KeepsKey`: the condition on a cycle

## Main results

* `quoteSubscriptions_converge`: in runs of such cycles, what is considered synchronised is
* `quoteSubscriptions_return_to_old_routes`: without it the provider can be left without a route
-/

namespace AefTerminal

open Foundation

/-- A route, by what the sync key has of it. -/
structure QuoteRoute where
  instrumentId : String
  fingerprint : String
  provider : String
  deriving DecidableEq, Repr

def QuoteRoute.le (a b : QuoteRoute) : Bool :=
  a.instrumentId.toList < b.instrumentId.toList ||
    (a.instrumentId = b.instrumentId && !(b.fingerprint.toList < a.fingerprint.toList))

/-- A published snapshot. `ident` is its object identity; an entry that `route_instrument` rejects
is `none`. -/
structure RouteSnapshot where
  ident : ℕ
  generation : ℤ
  entries : List (Option QuoteRoute)
  deriving DecidableEq

abbrev SyncKey := List (String × String × String)

/-- `",".join(_quote_item_sync_key(route))`; no routes have the empty key. -/
def syncKey (routes : List QuoteRoute) (subscriptionGeneration : String) : SyncKey :=
  routes.map fun r => (r.instrumentId, r.fingerprint, subscriptionGeneration)

/-! ### The circuit breaker -/

def quoteOrchestratorBreakerFailures : ℕ := 3
def quoteOrchestratorBreakerCooldownSeconds : ℚ := 15

structure SimpleCircuitBreaker where
  failures : ℕ
  openUntil : ℚ
  deriving DecidableEq

namespace SimpleCircuitBreaker

def allow (b : SimpleCircuitBreaker) (now : ℚ) : Bool := b.openUntil ≤ now

def fail (b : SimpleCircuitBreaker) (now : ℚ) : SimpleCircuitBreaker where
  failures := b.failures + 1
  openUntil :=
    if quoteOrchestratorBreakerFailures ≤ b.failures + 1 then
      now + quoteOrchestratorBreakerCooldownSeconds
    else b.openUntil

def ok (_ : SimpleCircuitBreaker) : SimpleCircuitBreaker := ⟨0, 0⟩

end SimpleCircuitBreaker

/-! ### One cycle -/

structure SyncTask where
  targetKey : SyncKey
  items : List QuoteRoute
  deriving DecidableEq

inductive SyncStatus
  | running
  | succeeded
  | failed
  deriving DecidableEq

/-- A failed sync leaves the provider with some of the change made. -/
inductive SyncOutcome
  | succeeded
  | failed (subscriptions : List QuoteRoute)
  deriving DecidableEq

structure OrchestratorState where
  lastSyncKey : SyncKey
  subscriptionSyncTask : Option SyncTask
  ibkrSyncBreaker : SimpleCircuitBreaker
  selectedSnapshot : Option RouteSnapshot
  selectedSleeping : Option Bool
  quoteRoutes : List QuoteRoute
  selectedSubscriptionGeneration : Option String
  desiredSyncKey : SyncKey
  /-- Not in the program: the sync that was started last, and what became of it. -/
  lastStarted : Option (SyncTask × SyncStatus)
  /-- Not in the program: what the provider is subscribed to. -/
  subscriptions : List QuoteRoute
  deriving DecidableEq

def OrchestratorState.start : OrchestratorState where
  lastSyncKey := []
  subscriptionSyncTask := none
  ibkrSyncBreaker := ⟨0, 0⟩
  selectedSnapshot := none
  selectedSleeping := none
  quoteRoutes := []
  selectedSubscriptionGeneration := none
  desiredSyncKey := []
  lastStarted := none
  subscriptions := []

/-- What one cycle meets. `outcome` is that of the sync in flight, if it is done; `generation` is
`none` when its reading raised. -/
structure QuoteCycle where
  outcome : Option SyncOutcome
  doneAt : ℚ
  sleeping : Bool
  snapshot : RouteSnapshot
  generation : Option String
  now : ℚ

/-- The provider's routes of a new selection, unless an entry raises. -/
def QuoteCycle.ibkrRoutes (c : QuoteCycle) : Option (List QuoteRoute) :=
  if c.sleeping then some []
  else (c.snapshot.entries.mapM id).map fun routes =>
    (routes.insertionSort fun a b => a.le b).filter fun r => r.provider = "ibkr"

/-- The generation that a cycle with routes goes on with. -/
def QuoteCycle.readGeneration (c : QuoteCycle) : Option String :=
  c.generation.filter fun g => g ≠ ""

namespace OrchestratorState

/-- The collection of a sync task that is done. -/
def finishSync (s : OrchestratorState) (c : QuoteCycle) : OrchestratorState :=
  match s.subscriptionSyncTask, c.outcome with
  | some task, some .succeeded =>
    { s with
      ibkrSyncBreaker := s.ibkrSyncBreaker.ok
      lastSyncKey := task.targetKey
      subscriptionSyncTask := none
      lastStarted := some (task, .succeeded)
      subscriptions := task.items }
  | some task, some (.failed subscriptions) =>
    { s with
      ibkrSyncBreaker := s.ibkrSyncBreaker.fail c.doneAt
      subscriptionSyncTask := none
      lastStarted := some (task, .failed)
      subscriptions := subscriptions }
  | _, _ => s

def selectionChanged (s : OrchestratorState) (c : QuoteCycle) : Bool :=
  s.selectedSnapshot ≠ some c.snapshot || s.selectedSleeping ≠ some c.sleeping

/-- The routes that a cycle goes on with; none when it raises before it selects. -/
def selectedRoutes (s : OrchestratorState) (c : QuoteCycle) : Option (List QuoteRoute) :=
  if c.snapshot.generation ≤ 0 then none
  else if s.selectionChanged c then c.ibkrRoutes
  else some s.quoteRoutes

/-- The desired key and its generation; none when the generation is not to be had. -/
def desired (s : OrchestratorState) (c : QuoteCycle) (routes : List QuoteRoute) :
    Option (SyncKey × Option String) :=
  if routes = [] then some ([], s.selectedSubscriptionGeneration)
  else
    match c.readGeneration with
    | none => none
    | some generation =>
      if s.selectionChanged c ∨ s.selectedSubscriptionGeneration ≠ some generation then
        some (syncKey routes generation, some generation)
      else some (s.desiredSyncKey, s.selectedSubscriptionGeneration)

def startSync (s : OrchestratorState) (now : ℚ) : OrchestratorState :=
  if s.desiredSyncKey ≠ s.lastSyncKey ∧ s.subscriptionSyncTask = none then
    if s.ibkrSyncBreaker.allow now then
      let task : SyncTask := ⟨s.desiredSyncKey, s.quoteRoutes⟩
      { s with subscriptionSyncTask := some task, lastStarted := some (task, .running) }
    else s
  else s

def select (s : OrchestratorState) (c : QuoteCycle) (routes : List QuoteRoute) :
    OrchestratorState :=
  { s with
    quoteRoutes := routes
    selectedSnapshot := some c.snapshot
    selectedSleeping := some c.sleeping }

/-- One pass of the loop. A pass that raises keeps what it had stored so far. -/
def cycle (s : OrchestratorState) (c : QuoteCycle) : OrchestratorState :=
  let s := s.finishSync c
  match s.selectedRoutes c with
  | none => s
  | some routes =>
    match s.desired c routes with
    | none => s.select c routes
    | some (key, generation) =>
      { s.select c routes with
        desiredSyncKey := key
        selectedSubscriptionGeneration := generation }.startSync c.now

end OrchestratorState

/-- A sync that failed did part of its change: it left what is in both sets and added nothing that is
in neither. -/
def PartOf (before target after : List QuoteRoute) : Prop :=
  (∀ r ∈ before, r ∈ target → r ∈ after) ∧ ∀ r ∈ after, r ∈ before ∨ r ∈ target

def QuoteStep (s : OrchestratorState) (c : QuoteCycle) (t : OrchestratorState) : Prop :=
  (∀ task after, s.subscriptionSyncTask = some task → c.outcome = some (.failed after) →
    PartOf s.subscriptions task.items after) ∧ t = s.cycle c

/-- No sync is in flight and the keys agree, so the next cycle starts none. -/
def ConsideredSynchronised (s : OrchestratorState) : Prop :=
  s.subscriptionSyncTask = none ∧ s.desiredSyncKey = s.lastSyncKey

/-- The last sync was for the wanted routes and succeeded, and the provider has them. -/
def Subscribed (s : OrchestratorState) : Prop :=
  s.subscriptions = s.quoteRoutes ∧
    match s.lastStarted with
    | none => s.quoteRoutes = []
    | some (task, status) =>
      status = .succeeded ∧ task.items = s.quoteRoutes ∧ task.targetKey = s.desiredSyncKey

/-! ### The condition -/

/-- The last sync that was started failed, as this cycle finds it. -/
def LastSyncFailed (s : OrchestratorState) (c : QuoteCycle) : Prop :=
  match s.subscriptionSyncTask with
  | some _ => ∃ after, c.outcome = some (.failed after)
  | none => ∃ task, s.lastStarted = some (task, .failed)

/-- The key of the routes and the generation that a cycle meets. -/
def wantedKey (s : OrchestratorState) (c : QuoteCycle) : SyncKey :=
  match s.selectedRoutes c with
  | none => s.desiredSyncKey
  | some routes =>
    match c.readGeneration with
    | none => if routes = [] then [] else s.desiredSyncKey
    | some generation => syncKey routes generation

/-- After a sync that failed the routes of the last sync that succeeded are not wanted again, and the
generation is read in a cycle that selects other routes. -/
structure KeepsKey (s : OrchestratorState) (c : QuoteCycle) : Prop where
  failed : LastSyncFailed s c → wantedKey s c ≠ s.lastSyncKey
  generation : ∀ routes, s.selectedRoutes c = some routes → routes ≠ [] →
    c.readGeneration = none → routes = s.quoteRoutes

/-! ### The invariant -/

/-- What became of the sync that was started last. -/
def StartedInv (s : OrchestratorState) : Prop :=
  match s.lastStarted with
  | none => s.subscriptionSyncTask = none ∧ s.lastSyncKey = [] ∧ s.subscriptions = []
  | some (task, .running) => s.subscriptionSyncTask = some task
  | some (task, .succeeded) => s.subscriptionSyncTask = none ∧ s.lastSyncKey = task.targetKey ∧
      s.subscriptions = task.items
  | some (_, .failed) => s.subscriptionSyncTask = none

/-- The routes are the provider's, and the key is theirs. -/
def KeyOf (routes : List QuoteRoute) (key : SyncKey) : Prop :=
  (∀ r ∈ routes, r.provider = "ibkr") ∧ ∃ generation, key = syncKey routes generation

structure OrchestratorInv (s : OrchestratorState) : Prop where
  sync : StartedInv s
  failed : ∀ task, s.lastStarted = some (task, .failed) → s.desiredSyncKey ≠ s.lastSyncKey
  keyed : KeyOf s.quoteRoutes s.desiredSyncKey
  generation : s.quoteRoutes ≠ [] →
    ∃ g, s.selectedSubscriptionGeneration = some g ∧ s.desiredSyncKey = syncKey s.quoteRoutes g
  tasks : ∀ task status, s.lastStarted = some (task, status) → KeyOf task.items task.targetKey

@[simp] theorem syncKey_eq_nil {routes : List QuoteRoute} {g : String} :
    syncKey routes g = [] ↔ routes = [] := List.map_eq_nil_iff

/-- Equal keys are keys of the same routes. -/
theorem KeyOf.eq {routes routes' : List QuoteRoute} {key : SyncKey} (h : KeyOf routes key)
    (h' : KeyOf routes' key) : routes = routes' := by
  obtain ⟨hibkr, g, rfl⟩ := h
  obtain ⟨hibkr', g', heq⟩ := h'
  induction routes generalizing routes' with
  | nil => exact (syncKey_eq_nil.mp heq.symm).symm
  | cons r routes ih =>
    cases routes' with
    | nil => cases heq
    | cons r' routes' =>
      obtain ⟨hhead, htail⟩ := List.cons.inj heq
      obtain ⟨hid, hrest⟩ := Prod.mk.inj hhead
      obtain ⟨hfp, -⟩ := Prod.mk.inj hrest
      obtain ⟨hr, hrs⟩ := List.forall_mem_cons.mp hibkr
      obtain ⟨hr', hrs'⟩ := List.forall_mem_cons.mp hibkr'
      have hsame : r = r' := by
        cases r
        cases r'
        simp_all
      rw [hsame, ih hrs hrs' htail]

theorem OrchestratorInv.start : OrchestratorInv OrchestratorState.start where
  sync := ⟨rfl, rfl, rfl⟩
  failed _ h := by cases h
  keyed := ⟨by simp [OrchestratorState.start], "", rfl⟩
  generation h := absurd rfl h
  tasks _ _ h := by cases h

/-! ### The parts of a cycle -/

section Cycle

variable {s : OrchestratorState} {c : QuoteCycle}

/-- Collecting a task leaves the selection and the desired key alone. -/
theorem finishSync_frame (s : OrchestratorState) (c : QuoteCycle) :
    (s.finishSync c).quoteRoutes = s.quoteRoutes ∧
    (s.finishSync c).selectedSnapshot = s.selectedSnapshot ∧
    (s.finishSync c).selectedSleeping = s.selectedSleeping ∧
    (s.finishSync c).selectedSubscriptionGeneration = s.selectedSubscriptionGeneration ∧
    (s.finishSync c).desiredSyncKey = s.desiredSyncKey := by
  rw [OrchestratorState.finishSync]
  split <;> exact ⟨rfl, rfl, rfl, rfl, rfl⟩

theorem selectionChanged_finishSync :
    (s.finishSync c).selectionChanged c = s.selectionChanged c := by
  obtain ⟨-, hsnap, hsleep, -, -⟩ := finishSync_frame s c
  rw [OrchestratorState.selectionChanged, OrchestratorState.selectionChanged, hsnap, hsleep]

theorem selectedRoutes_finishSync : (s.finishSync c).selectedRoutes c = s.selectedRoutes c := by
  rw [OrchestratorState.selectedRoutes, OrchestratorState.selectedRoutes,
    selectionChanged_finishSync, (finishSync_frame s c).1]

theorem desired_finishSync (routes : List QuoteRoute) :
    (s.finishSync c).desired c routes = s.desired c routes := by
  obtain ⟨-, -, -, hgen, hkey⟩ := finishSync_frame s c
  rw [OrchestratorState.desired, OrchestratorState.desired, selectionChanged_finishSync, hgen, hkey]

/-- What a collected task leaves behind. -/
theorem finishSync_sync (h : OrchestratorInv s) :
    StartedInv (s.finishSync c) ∧
    (∀ task status, (s.finishSync c).lastStarted = some (task, status) →
      KeyOf task.items task.targetKey) ∧
    ∀ task, (s.finishSync c).lastStarted = some (task, .failed) →
      LastSyncFailed s c ∧ (s.finishSync c).lastSyncKey = s.lastSyncKey := by
  have hstarted : ∀ task, s.subscriptionSyncTask = some task →
      s.lastStarted = some (task, .running) := by
    intro task htask
    have hsync := h.sync
    rw [StartedInv] at hsync
    split at hsync
    · rw [hsync.1] at htask
      cases htask
    · rename_i hl
      rw [hl, Option.some.inj (hsync.symm.trans htask)]
    · rw [hsync.1] at htask
      cases htask
    · rw [hsync] at htask
      cases htask
  rw [OrchestratorState.finishSync, LastSyncFailed]
  split
  · rename_i task htask houtcome
    refine ⟨⟨rfl, rfl, rfl⟩, ?_, fun _ hf => by cases hf⟩
    intro t st heq
    cases heq
    exact h.tasks _ .running (hstarted _ htask)
  · rename_i task after htask houtcome
    refine ⟨rfl, ?_, ?_⟩
    · intro t st heq
      cases heq
      exact h.tasks _ .running (hstarted _ htask)
    · rintro t -
      rw [htask]
      exact ⟨⟨after, houtcome⟩, rfl⟩
  · rename_i hnot hnot'
    refine ⟨h.sync, h.tasks, fun task hfail => ⟨?_, rfl⟩⟩
    have hnone : s.subscriptionSyncTask = none := by
      have hsync := h.sync
      rwa [StartedInv, hfail] at hsync
    rw [hnone]
    exact ⟨task, hfail⟩

variable {routes : List QuoteRoute}

theorem selectedRoutes_ibkr (h : OrchestratorInv s)
    (hr : s.selectedRoutes c = some routes) : ∀ r ∈ routes, r.provider = "ibkr" := by
  rw [OrchestratorState.selectedRoutes] at hr
  split at hr
  · cases hr
  · split at hr
    · rw [QuoteCycle.ibkrRoutes] at hr
      split at hr
      · cases hr
        simp
      · obtain ⟨rs, -, rfl⟩ := Option.map_eq_some_iff.mp hr
        intro r hmem
        simpa using (List.mem_filter.mp hmem).2
    · cases hr
      exact h.keyed.1

/-- A selection that did not change keeps the routes. -/
theorem selectedRoutes_unchanged
    (hr : s.selectedRoutes c = some routes) (hsame : s.selectionChanged c = false) :
    routes = s.quoteRoutes := by
  rw [OrchestratorState.selectedRoutes, hsame] at hr
  split at hr
  · cases hr
  · exact (Option.some.inj hr).symm

/-- The desired key is that of the routes and the generation that the cycle met. -/
theorem desired_eq_some (h : OrchestratorInv s) {key : SyncKey}
    {generation : Option String} (hr : s.selectedRoutes c = some routes)
    (hd : s.desired c routes = some (key, generation)) :
    key = wantedKey s c ∧ (∃ g, key = syncKey routes g) ∧
      (routes ≠ [] → ∃ g, generation = some g ∧ key = syncKey routes g) := by
  have hw : wantedKey s c = match c.readGeneration with
      | none => if routes = [] then [] else s.desiredSyncKey
      | some g => syncKey routes g := by rw [wantedKey, hr]
  rw [OrchestratorState.desired] at hd
  split at hd
  · rename_i hnil
    cases (Option.some.inj hd)
    subst hnil
    refine ⟨?_, ⟨"", rfl⟩, fun hne => absurd rfl hne⟩
    rw [hw]
    split <;> simp [syncKey]
  · rename_i hne
    split at hd
    · cases hd
    · rename_i g hg
      rw [hg] at hw
      split at hd
      · cases (Option.some.inj hd)
        exact ⟨hw.symm, ⟨g, rfl⟩, fun _ => ⟨g, rfl, rfl⟩⟩
      · rename_i hsame
        cases (Option.some.inj hd)
        push Not at hsame
        obtain ⟨hchanged, hgen⟩ := hsame
        obtain rfl := selectedRoutes_unchanged hr (by simpa using hchanged)
        obtain ⟨g', hg', hkey⟩ := h.generation hne
        obtain rfl : g' = g := Option.some.inj (hg'.symm.trans hgen)
        exact ⟨hkey.trans hw.symm, ⟨g', hkey⟩, fun _ => ⟨g', hg', hkey⟩⟩

/-- Where the generation is not to be had the routes must not have changed. -/
theorem desired_eq_none (hd : s.desired c routes = none) :
    routes ≠ [] ∧ c.readGeneration = none := by
  rw [OrchestratorState.desired] at hd
  split at hd
  · cases hd
  · rename_i hne
    split at hd
    · rename_i hg
      exact ⟨hne, hg⟩
    · split at hd <;> cases hd

theorem OrchestratorInv.startSync (h : OrchestratorInv s) (now : ℚ) :
    OrchestratorInv (s.startSync now) := by
  rw [OrchestratorState.startSync]
  split
  · split
    · exact {
        sync := rfl
        failed := fun _ hf => by cases hf
        keyed := h.keyed
        generation := h.generation
        tasks := fun task status heq => by
          cases heq
          exact h.keyed }
    · exact h
  · exact h

end Cycle

theorem OrchestratorInv.cycle {s : OrchestratorState} {c : QuoteCycle} (h : OrchestratorInv s)
    (hok : KeepsKey s c) : OrchestratorInv (s.cycle c) := by
  obtain ⟨hroutes, -, -, hgen, hkey⟩ := finishSync_frame s c
  obtain ⟨hsync, htasks, hfailed⟩ := finishSync_sync (c := c) h
  rw [OrchestratorState.cycle]
  dsimp only
  rw [selectedRoutes_finishSync]
  cases hr : s.selectedRoutes c with
  | none =>
    refine ⟨hsync, ?_, ?_, ?_, htasks⟩
    · intro task hf
      obtain ⟨hlast, hsame⟩ := hfailed task hf
      have hne := hok.failed hlast
      rw [wantedKey, hr] at hne
      rw [hkey, hsame]
      exact hne
    · rw [hroutes, hkey]
      exact h.keyed
    · rw [hroutes, hgen, hkey]
      exact h.generation
  | some routes =>
    dsimp only
    rw [desired_finishSync]
    cases hd : s.desired c routes with
    | none =>
      obtain ⟨hne, hread⟩ := desired_eq_none hd
      obtain rfl := hok.generation routes hr hne hread
      refine ⟨hsync, ?_, ?_, ?_, htasks⟩
      · intro task hf
        obtain ⟨hlast, hsame⟩ := hfailed task hf
        have hneq := hok.failed hlast
        rw [wantedKey, hr] at hneq
        dsimp only at hneq
        rw [hread] at hneq
        dsimp only at hneq
        rw [if_neg hne] at hneq
        show (s.finishSync c).desiredSyncKey ≠ (s.finishSync c).lastSyncKey
        rw [hkey, hsame]
        exact hneq
      · show KeyOf s.quoteRoutes (s.finishSync c).desiredSyncKey
        rw [hkey]
        exact h.keyed
      · show s.quoteRoutes ≠ [] → _
        intro _
        show ∃ g, (s.finishSync c).selectedSubscriptionGeneration = some g ∧
          (s.finishSync c).desiredSyncKey = syncKey s.quoteRoutes g
        rw [hgen, hkey]
        exact h.generation hne
    | some d =>
      obtain ⟨key, generation⟩ := d
      obtain ⟨hwanted, hkeyed, hgeneration⟩ := desired_eq_some h hr hd
      have hkeyof : KeyOf routes key := ⟨selectedRoutes_ibkr h hr, hkeyed⟩
      refine OrchestratorInv.startSync (s := { (s.finishSync c).select c routes with
        desiredSyncKey := key
        selectedSubscriptionGeneration := generation })
        ⟨hsync, ?_, hkeyof, hgeneration, htasks⟩ c.now
      intro task hf
      obtain ⟨hlast, hsame⟩ := hfailed task hf
      have hne := hok.failed hlast
      show key ≠ (s.finishSync c).lastSyncKey
      rw [hsame, hwanted]
      exact hne

theorem OrchestratorInv.step (s : OrchestratorState) (c : QuoteCycle) (t : OrchestratorState)
    (h : OrchestratorInv s) (hstep : Guarded KeepsKey QuoteStep s c t) : OrchestratorInv t := by
  obtain ⟨hok, -, rfl⟩ := hstep
  exact h.cycle hok

theorem OrchestratorInv.subscribed {s : OrchestratorState} (h : OrchestratorInv s)
    (hs : ConsideredSynchronised s) : Subscribed s := by
  obtain ⟨hidle, hkey⟩ := hs
  have hsync := h.sync
  rw [StartedInv] at hsync
  rw [Subscribed]
  split at hsync
  · rename_i hl
    obtain ⟨-, hlast, hsubs⟩ := hsync
    obtain ⟨-, g, hg⟩ := h.keyed
    have hnil : s.quoteRoutes = [] := by
      rw [← syncKey_eq_nil (g := g), ← hg, hkey, hlast]
    rw [hl, hsubs, hnil]
    exact ⟨rfl, rfl⟩
  · rw [hsync] at hidle
    cases hidle
  · rename_i task hl
    obtain ⟨-, hlast, hsubs⟩ := hsync
    have hsame : task.targetKey = s.desiredSyncKey := by rw [hkey, hlast]
    have hroutes : task.items = s.quoteRoutes :=
      (h.tasks task _ hl).eq (hsame ▸ h.keyed)
    rw [hl]
    exact ⟨hsubs.trans hroutes, rfl, hroutes, hsame⟩
  · rename_i task hl
    exact absurd hkey (h.failed task hl)

/-- **Quote subscriptions converge** in every run that wants no route set again after a sync failed
and before one succeeded. -/
theorem quoteSubscriptions_converge {s : OrchestratorState} {cs : List QuoteCycle}
    (h : Run (Guarded KeepsKey QuoteStep) OrchestratorState.start cs s)
    (hs : ConsideredSynchronised s) : Subscribed s := by
  have hinv : OrchestratorInv s := h.invariant OrchestratorInv.step OrchestratorInv.start
  exact hinv.subscribed hs

/-! ### Two route sets -/

def esRoute : QuoteRoute := ⟨"ES", "es@ibkr", "ibkr"⟩
def nqRoute : QuoteRoute := ⟨"NQ", "nq@ibkr", "ibkr"⟩

/-- A cycle that wants one route. -/
def cycleFor (ident : ℕ) (route : QuoteRoute) (outcome : Option SyncOutcome) (now : ℚ) :
    QuoteCycle where
  outcome := outcome
  doneAt := now
  sleeping := false
  snapshot := ⟨ident, ident, [some route]⟩
  generation := some "market_data_type:1"
  now := now

def esStarted : OrchestratorState := OrchestratorState.start.cycle (cycleFor 1 esRoute none 0)

def esSynced : OrchestratorState := esStarted.cycle (cycleFor 1 esRoute (some .succeeded) 1)

def nqStarted : OrchestratorState := esSynced.cycle (cycleFor 2 nqRoute none 2)

def esAgain : OrchestratorState := nqStarted.cycle (cycleFor 3 esRoute (some (.failed [])) 3)

theorem quoteSubscriptions_converge_one : Subscribed esSynced := by
  have hkeep : ∀ (s : OrchestratorState) (outcome : Option SyncOutcome) (now : ℚ),
      (s.subscriptionSyncTask = none → s.lastStarted = none) →
      (∀ after, outcome ≠ some (.failed after)) → KeepsKey s (cycleFor 1 esRoute outcome now) := by
    intro s outcome now hs hout
    refine ⟨fun hf => ?_, fun routes _ _ hread => by cases hread⟩
    rw [LastSyncFailed] at hf
    split at hf
    · obtain ⟨after, hafter⟩ := hf
      exact absurd hafter (hout after)
    · rename_i hnone
      obtain ⟨task, htask⟩ := hf
      rw [hs hnone] at htask
      cases htask
  have hrun : Run (Guarded KeepsKey QuoteStep) OrchestratorState.start
      [cycleFor 1 esRoute none 0, cycleFor 1 esRoute (some .succeeded) 1] esSynced := by
    refine .cons (t := esStarted) ⟨?_, ?_, rfl⟩ (.single ⟨?_, ?_, rfl⟩)
    · exact hkeep _ _ _ (fun _ => rfl) nofun
    · intro _ _ _ hout
      cases hout
    · exact hkeep _ _ _ (by decide +kernel) nofun
    · intro _ _ _ hout
      cases hout
  exact quoteSubscriptions_converge hrun (by rw [ConsideredSynchronised]; decide +kernel)

/-- **A failed sync and a return.** The subscription of the old route is dropped, the sync for the new
one fails, the old route is wanted again: nothing is started and the route stays unsubscribed. -/
theorem quoteSubscriptions_return_to_old_routes : ∃ cs s,
    Run QuoteStep OrchestratorState.start cs s ∧ ConsideredSynchronised s ∧ ¬ Subscribed s := by
  refine ⟨[cycleFor 1 esRoute none 0, cycleFor 1 esRoute (some .succeeded) 1,
    cycleFor 2 nqRoute none 2, cycleFor 3 esRoute (some (.failed [])) 3], esAgain,
    .cons (t := esStarted) ⟨?_, rfl⟩ (.cons (t := esSynced) ⟨?_, rfl⟩
      (.cons (t := nqStarted) ⟨?_, rfl⟩ (.single ⟨?_, rfl⟩))), ?_, ?_⟩
  · intro _ _ _ hout
    cases hout
  · intro _ _ _ hout
    cases hout
  · intro _ _ _ hout
    cases hout
  · intro task after htask hout
    obtain rfl : [] = after := SyncOutcome.failed.inj (Option.some.inj hout)
    have hitems : task.items = [nqRoute] := by
      have hsome : nqStarted.subscriptionSyncTask.map SyncTask.items = some [nqRoute] := by
        decide +kernel
      rw [htask] at hsome
      exact Option.some.inj hsome
    have hsubs : nqStarted.subscriptions = [esRoute] := by decide +kernel
    rw [hitems, hsubs]
    exact ⟨by decide, by simp⟩
  · rw [ConsideredSynchronised]
    decide +kernel
  · intro h
    exact absurd h.1 (by decide +kernel)

end AefTerminal
