import AefTerminal.Domain.Bar
import AefTerminal.Foundation.Run

/-!
# Live option frames and their persistence buckets

A live session of one route serves frames to any number of clients. Each frame is finalised in
three parts: it is prepared on the owner lane of the provider, where it may take the snapshot of
its five-minute bucket; the dividend refresh and the snapshot are stored on threads; and a second
job on the owner lane commits what came of it. In between, frames of other clients pass through the
lane, and the session can be stopped or replaced by one of a new generation.

A session remembers one bucket that was persisted and one that is being persisted.

## Main definitions

* `LiveGexSession`, `FinalizationPlan`
* `prepareLiveGexFinalization`, `commitLiveGexFinalization`: the two jobs of the owner lane
* `LiveGexState`, `liveGexStep`: frames, sessions and failures in any order
-/

namespace AefTerminal

/-! ### Sessions and frames -/

/-- `GEX_SCHEDULER_INTERVAL_MINUTES`, as a time. -/
def gexPersistInterval : Time := 5 * 60000000

/-- `gex_capture_revision_at` of a live capture: the start of its bucket. -/
def gexCaptureRevisionAt (capturedAt : Time) : Time :=
  capturedAt / gexPersistInterval * gexPersistInterval

/-- What the finalisation reads of a payload. -/
structure LiveFrame where
  capturedAt : Option Time
  publishable : Bool
  hasLevels : Bool
  deriving DecidableEq

structure LiveGexSession where
  generation : ℕ
  futuresOptions : Bool
  effectiveDividendYield : ℚ
  /-- The frame cache: `last_payload`. -/
  lastPayload : Option LiveFrame
  /-- No bucket is the empty text. -/
  dividendCacheBucket : Option Time
  dividendCacheError : String
  persistedBucket : Option Time
  persistingBucket : Option Time
  persistenceError : String
  deriving DecidableEq

/-- A session as `_ensure_live_gex_session_owned` builds it. -/
def LiveGexSession.start (generation : ℕ) (futuresOptions : Bool) (dividendYield : ℚ) :
    LiveGexSession where
  generation := generation
  futuresOptions := futuresOptions
  effectiveDividendYield := dividendYield
  lastPayload := none
  dividendCacheBucket := none
  dividendCacheError := ""
  persistedBucket := none
  persistingBucket := none
  persistenceError := ""

structure FinalizationPlan where
  generation : ℕ
  capturedAt : Time
  bucket : Time
  refreshDividendCache : Bool
  persistSnapshot : Bool
  dividendCacheError : String
  persistenceError : String
  deriving DecidableEq

/-! ### The two jobs -/

/-- The capture time of a frame that may be finalised. -/
def LiveFrame.admissible (frame : LiveFrame) (universeExpired : Bool) : Option Time :=
  match frame.capturedAt with
  | none => none
  | some capturedAt =>
    if universeExpired ∨ ¬ frame.publishable ∨ ¬ frame.hasLevels then none else some capturedAt

/-- The plan of an admissible frame, and the session that knows of it. -/
def LiveGexSession.plan (session : LiveGexSession) (capturedAt : Time) :
    LiveGexSession × FinalizationPlan :=
  let bucket := gexCaptureRevisionAt capturedAt
  let refresh := !session.futuresOptions && session.dividendCacheBucket != some bucket
  let persist := session.persistedBucket != some bucket && session.persistingBucket != some bucket
  ({ session with
      dividendCacheBucket := if refresh then some bucket else session.dividendCacheBucket
      persistingBucket := if persist then some bucket else session.persistingBucket },
    { generation := session.generation
      capturedAt := capturedAt
      bucket := bucket
      refreshDividendCache := refresh
      persistSnapshot := persist
      dividendCacheError := session.dividendCacheError
      persistenceError := session.persistenceError })

/-- `_prepare_live_gex_finalization_owned`: nothing, if the session of the frame is gone or the
frame is not admissible. -/
def prepareLiveGexFinalization (session : Option LiveGexSession) (generation : ℕ)
    (frame : LiveFrame) (universeExpired : Bool) : Option (LiveGexSession × FinalizationPlan) :=
  match session with
  | none => none
  | some session =>
    if session.generation ≠ generation then none
    else (frame.admissible universeExpired).map session.plan

/-- What the dividend refresh came to. -/
inductive DividendRefresh
  | cached (value : Option ℚ) (envOverride : Bool)
  | unavailable
  | failed (error : String)
  deriving DecidableEq

/-- What `live_health` says at the commit. -/
inductive LiveHealth
  | healthy | unknownExpiry | expired | raises
  deriving DecidableEq

inductive CommitOutcome
  /-- The session is of another generation. -/
  | changed
  /-- The option universe is unavailable; the session was stopped. -/
  | unavailable
  | raised
  | committed
  deriving DecidableEq

/-- `require_gex_valuation_rates`, for the learned dividend yield. -/
def validDividendYield (value : ℚ) : Bool := 0 ≤ value ∧ value ≤ 1 / 4

/-- The dividend part of a commit; no session where the learned yield is out of bounds, with the
session as it is left. -/
def LiveGexSession.commitDividend (session : LiveGexSession) (plan : FinalizationPlan)
    (refresh : DividendRefresh) : LiveGexSession × Bool :=
  if ¬ plan.refreshDividendCache then (session, true)
  else
    match refresh with
    | .cached (some value) false =>
      let session := { session with dividendCacheError := "" }
      if validDividendYield value then
        ({ session with
            effectiveDividendYield := value
            lastPayload :=
              if value ≠ session.effectiveDividendYield then none else session.lastPayload },
          true)
      else (session, false)
    | .cached _ _ => ({ session with dividendCacheError := "" }, true)
    | .unavailable =>
      ({ session with
          dividendCacheBucket :=
            if session.dividendCacheBucket = some plan.bucket then none
            else session.dividendCacheBucket
          dividendCacheError := "" },
        true)
    | .failed error => ({ session with dividendCacheError := error }, true)

/-- The persistence part of a commit: it acts only while the session names the bucket of the
plan. No error is a persistence that completed. -/
def LiveGexSession.commitPersistence (session : LiveGexSession) (plan : FinalizationPlan)
    (error : Option String) : LiveGexSession :=
  if plan.persistSnapshot ∧ session.persistingBucket = some plan.bucket then
    match error with
    | none =>
      { session with
        persistedBucket := some plan.bucket
        persistenceError := ""
        persistingBucket := none }
    | some error => { session with persistenceError := error, persistingBucket := none }
  else session

/-- `_commit_live_gex_finalization_owned`. -/
def commitLiveGexFinalization (session : Option LiveGexSession) (plan : FinalizationPlan)
    (refresh : DividendRefresh) (error : Option String) (health : LiveHealth) :
    Option LiveGexSession × CommitOutcome :=
  match session with
  | none => (none, .changed)
  | some session =>
    if session.generation ≠ plan.generation then (some session, .changed)
    else
      match health with
      | .raises => (some session, .raised)
      | .unknownExpiry | .expired => (none, .unavailable)
      | .healthy =>
        let (refreshed, valid) := session.commitDividend plan refresh
        if valid then (some (refreshed.commitPersistence plan error), .committed)
        else (some refreshed, .raised)

/-! ### Frames, sessions and failures in any order -/

/-- Where a frame of a client stands. -/
inductive FramePhase
  | idle
  | built (generation : ℕ) (frame : LiveFrame)
  | storing (plan : FinalizationPlan)
  | stored (plan : FinalizationPlan) (refresh : DividendRefresh) (error : Option String)
  | over
  deriving DecidableEq

/-- The route of a run: its session, the frames of its clients, the generations there were, and
the buckets that were committed as persisted. -/
structure LiveGexState where
  session : Option LiveGexSession
  frames : ℕ → FramePhase
  generations : List ℕ
  saved : List (ℕ × Time)

def LiveGexState.initial : LiveGexState := ⟨none, fun _ => .idle, [], []⟩

inductive LiveGexEvent
  /-- A session of a new generation is opened, in place of the one there was. -/
  | openSession (generation : ℕ) (futuresOptions : Bool) (dividendYield : ℚ)
  | stop
  /-- A frame is built, and cached. -/
  | build (id : ℕ) (frame : LiveFrame)
  /-- A frame is served from the cache. -/
  | serve (id : ℕ)
  | prepare (id : ℕ) (universeExpired : Bool)
  /-- The threads of a frame returned. -/
  | settle (id : ℕ) (refresh : DividendRefresh) (error : Option String)
  | commit (id : ℕ) (health : LiveHealth)
  /-- The finalisation of a frame fails between its parts. -/
  | abandon (id : ℕ)

namespace LiveGexState

variable (s : LiveGexState)

def setFrame (id : ℕ) (phase : FramePhase) : LiveGexState :=
  { s with frames := Function.update s.frames id phase }

/-- The lane job that prepares a frame. -/
def prepare (id generation : ℕ) (frame : LiveFrame) (universeExpired : Bool) : LiveGexState :=
  match prepareLiveGexFinalization s.session generation frame universeExpired with
  | none => s.setFrame id .over
  | some (session, plan) => { s with session := some session }.setFrame id (.storing plan)

/-- The lane job that commits a frame. -/
def commit (id : ℕ) (plan : FinalizationPlan) (refresh : DividendRefresh) (error : Option String)
    (health : LiveHealth) : LiveGexState :=
  let (session, outcome) := commitLiveGexFinalization s.session plan refresh error health
  let saved :=
    if outcome = .committed ∧ plan.persistSnapshot ∧ error = none then
      (plan.generation, plan.bucket) :: s.saved
    else s.saved
  { s with session, saved }.setFrame id .over

end LiveGexState

def liveGexStep (s : LiveGexState) : LiveGexEvent → Option LiveGexState
  | .openSession generation futuresOptions dividendYield =>
    if generation ∈ s.generations then none
    else some { s with
      session := some (.start generation futuresOptions dividendYield)
      generations := generation :: s.generations }
  | .stop => some { s with session := none }
  | .build id frame =>
    match s.frames id, s.session with
    | .idle, some session =>
      some ({ s with session := some { session with lastPayload := some frame } }.setFrame id
        (.built session.generation frame))
    | _, _ => none
  | .serve id =>
    match s.frames id, s.session with
    | .idle, some session =>
      session.lastPayload.map fun frame => s.setFrame id (.built session.generation frame)
    | _, _ => none
  | .prepare id universeExpired =>
    match s.frames id with
    | .built generation frame => some (s.prepare id generation frame universeExpired)
    | _ => none
  | .settle id refresh error =>
    match s.frames id with
    | .storing plan =>
      -- without a snapshot to store there is no error and nothing completed
      some (s.setFrame id (.stored plan refresh (if plan.persistSnapshot then error else some "")))
    | _ => none
  | .commit id health =>
    match s.frames id with
    | .stored plan refresh error => some (s.commit id plan refresh error health)
    | _ => none
  | .abandon id =>
    match s.frames id with
    | .idle | .over => none
    | _ => some (s.setFrame id .over)

end AefTerminal
