import AefTerminal.ChartCommits.Lane
import AefTerminal.Foundation.Span
import AefTerminal.History.Derived
import AefTerminal.Repair.Orchestrator

/-!
# The chain of repair chunks

A repair demand is one envelope. `select_history_repair_intent` takes its newest chunk that the
provider answers in one request, and each chunk that is committed is followed by the one before it,
down to the start of the envelope.

`execute_history_repair` runs one chunk. What it awaits is data here: the lookups of the instrument,
the generations, the fetched result and the outcome of the commit lane. An outcome of it that lets the
chain go on comes from a complete response, which is why what a later outcome says remains is what no
complete chunk has covered.

## Main definitions

* `selectHistoryRepairIntent`, `executeHistoryRepair`, `repairChain`
* `HistoryRepairResult.remainingRange`

## Main results

* `executeHistoryRepair_complete`: what is committed is complete
* `repair_tiles`: the chunks tile the envelope
-/

namespace AefTerminal

open Foundation

/-! ### The first chunk -/

/-- A timestamp on a boundary of the timeframe: no microseconds, whole steps. -/
def AlignedTo (step ts : Time) : Prop := ts % microseconds = 0 ∧ ts.tdiv microseconds % step = 0

instance (step ts : Time) : Decidable (AlignedTo step ts) := inferInstanceAs (Decidable (_ ∧ _))

/-- How many steps one request may span. -/
def maxSlots (step maxRequestSpan : Time) : ℤ := maxRequestSpan / microseconds / step

/-- What the demand says of its route. -/
structure RepairDemand where
  provider : String
  instrumentId : String
  routeFingerprint : String
  timeframe : BarInterval
  requestedFrom : Time
  requestedTo : Time
  requestIdentity : HistoryRequestIdentity
  canonicalGeneration : ℕ
  priority : HistoryRepairPriority
  cooldownSeconds : ℚ
  maxRequestSpan : Time

/-- `interval_seconds` of the demanded timeframe. -/
def RepairDemand.step (demand : RepairDemand) : Time := intervalSeconds demand.timeframe.toChart

/-- Select the newest provider-bounded chunk of one concrete repair envelope. -/
def selectHistoryRepairIntent (demand : RepairDemand) (now : Time) :
    Except String HistoryRepairIntent :=
  if hrange : demand.requestedFrom < demand.requestedTo then
    if demand.maxRequestSpan ≤ 0 ∨ demand.maxRequestSpan % microseconds ≠ 0 then
      .error "max_request_span must be a canonical positive timedelta"
    else if ¬ AlignedTo demand.step demand.requestedFrom ∨
        ¬ AlignedTo demand.step demand.requestedTo then
      .error "requested history range must be timeframe-aligned"
    else if now < demand.requestedTo then
      .error "requested history range must be fully elapsed"
    else if hslots : 1 ≤ maxSlots demand.step demand.maxRequestSpan then
      if hcooldown : 0 ≤ demand.cooldownSeconds then
        .ok
          { provider := demand.provider
            instrumentId := demand.instrumentId
            routeFingerprint := demand.routeFingerprint
            timeframe := demand.timeframe.text
            startsAt := max demand.requestedFrom (demand.requestedTo -
              maxSlots demand.step demand.maxRequestSpan * demand.step * microseconds)
            endsAt := demand.requestedTo
            targetStartsAt := demand.requestedFrom
            targetEndsAt := demand.requestedTo
            requestIdentity := demand.requestIdentity
            canonicalGeneration := demand.canonicalGeneration
            priority := demand.priority
            cooldownSeconds := demand.cooldownSeconds
            nonempty := by
              have hspan : 0 < maxSlots demand.step demand.maxRequestSpan * demand.step *
                  microseconds :=
                Int.mul_pos (Int.mul_pos hslots (intervalSeconds_pos _)) (by decide)
              exact max_lt hrange (Int.sub_lt_self _ hspan)
            inside := ⟨le_max_left _ _, le_rfl⟩
            cooldown_nonneg := hcooldown }
      else .error "history repair cooldown must be finite and non-negative"
    else .error "max_request_span must contain one complete timeframe"
  else .error "requested history range must be non-empty"

/-! ### One chunk -/

inductive ProviderHistoryTerminal
  | complete | incomplete | rollingComplete | rollingPartial | malformed
  deriving DecidableEq, Repr

/-- What the provider answered, as far as the repair reads it. -/
structure ProviderHistoryFetchResult where
  terminal : ProviderHistoryTerminal
  authoritativeBars : List Bar
  errorCode : Option String

/-- An outcome with what the provider answered. -/
structure HistoryRepairResult extends HistoryRepairOutcome where
  terminal : Option ProviderHistoryTerminal := none
  coverageInserted : ℕ := 0

/-- `commit_history_repair_result`, from the outcome of the commit lane. A partial response that was
stored is incomplete all the same. -/
def commitHistoryRepairResult (intent : HistoryRepairIntent) (terminal : ProviderHistoryTerminal)
    (errorCode : Option String) (commit : HistoryCommitOutcome) : HistoryRepairResult :=
  let status : HistoryRepairOutcomeStatus := match commit.status with
    | .committed => .committed
    | .noChange => .noChange
    | .staleGeneration => .staleGeneration
    | .staleRoute => .staleRoute
    | .queueFull => .commitQueueFull
    | .failed => .commitFailed
  { status :=
      if (status = .committed ∨ status = .noChange) ∧
          (terminal = .incomplete ∨ terminal = .rollingPartial) then .incomplete
      else status
    intent := intent
    terminal := some terminal
    writtenBars := (commit.receipt.map fun r => r.barReceipt.written).getD 0
    deletedBars := (commit.receipt.map fun r => r.barReceipt.deleted).getD 0
    coverageInserted := (commit.receipt.map fun r => r.coverageInserted).getD 0
    coverageExpanded := (commit.receipt.map fun r => r.coverageExpanded).getD false
    generation := commit.generation
    errorCode := errorCode }

/-- What one run of a chunk meets. An instrument that is found is found with the intent's route; a
fetched result that is not for the intent is `none`. -/
structure RepairEnvironment where
  routeMatches : Bool
  persisted : Except String Bool
  generationBefore : ℕ
  fetch : Except String (Option ProviderHistoryFetchResult)
  persistedAfter : Except String Bool
  generationAfter : ℕ
  coverageReceipts : Except String Unit
  commit : Except String HistoryCommitOutcome

/-- The part after the fetch has answered. -/
def commitFetched (exactSnapshotAuthority : Bool) (intent : HistoryRepairIntent)
    (env : RepairEnvironment) (result : ProviderHistoryFetchResult) : HistoryRepairResult :=
  let ended (status : HistoryRepairOutcomeStatus) (errorCode : Option String) :
      HistoryRepairResult :=
    { status := status, intent := intent, terminal := some result.terminal, errorCode := errorCode }
  let committed : HistoryRepairResult := match env.commit with
    | .error text => ended .commitFailed (some text)
    | .ok commit => commitHistoryRepairResult intent result.terminal result.errorCode commit
  if result.terminal = .malformed then ended .malformed result.errorCode
  else match env.persistedAfter with
    | .error text => ended .storageFailed (some text)
    | .ok false => ended .staleRoute (some "HISTORY_REPAIR_PERSISTED_ROUTE_STALE")
    | .ok true =>
      if env.generationAfter ≠ intent.canonicalGeneration then
        { ended .staleGeneration none with generation := some env.generationAfter }
      else if result.terminal = .complete ∧ exactSnapshotAuthority = true then
        match env.coverageReceipts with
        | .error text => ended .malformed (some text)
        | .ok () => committed
      else if result.terminal = .rollingComplete ∧ result.authoritativeBars = [] then
        { ended .noChange none with generation := some env.generationAfter }
      else if result.terminal ≠ .complete ∧ result.authoritativeBars = [] then
        ended .incomplete result.errorCode
      else committed

/-- Fetch one exact range and submit its immutable result to the commit owner. -/
def executeHistoryRepair (exactSnapshotAuthority : Bool) (intent : HistoryRepairIntent)
    (env : RepairEnvironment) : HistoryRepairResult :=
  let ended (status : HistoryRepairOutcomeStatus) (errorCode : Option String) :
      HistoryRepairResult :=
    { status := status, intent := intent, errorCode := errorCode }
  if env.routeMatches = false then ended .staleRoute (some "HISTORY_REPAIR_ROUTE_MISMATCH")
  else match env.persisted with
    | .error text => ended .storageFailed (some text)
    | .ok false => ended .staleRoute (some "HISTORY_REPAIR_PERSISTED_ROUTE_STALE")
    | .ok true =>
      if env.generationBefore ≠ intent.canonicalGeneration then
        { ended .staleGeneration none with generation := some env.generationBefore }
      else match env.fetch with
        | .error text => ended .fetchFailed (some text)
        | .ok none => ended .malformed (some "HISTORY_REPAIR_TYPED_RESULT_MISMATCH")
        | .ok (some result) => commitFetched exactSnapshotAuthority intent env result

/-- How the task of a chunk comes to its end. -/
inductive RepairAttempt
  | executed (env : RepairEnvironment)
  | raised (text : String)
  | cancelled

/-- The outcome that `_run_request` settles a chunk with. -/
def RepairAttempt.outcome (exactSnapshotAuthority : Bool) (intent : HistoryRepairIntent) :
    RepairAttempt → HistoryRepairResult
  | .executed env => executeHistoryRepair exactSnapshotAuthority intent env
  | .raised text => { status := .fetchFailed, intent := intent, errorCode := some text }
  | .cancelled => { status := .cancelled, intent := intent }

/-- The outcomes of the chunks that follow one another. -/
def repairChain (exactSnapshotAuthority : Bool) :
    List RepairAttempt → HistoryRepairIntent → List HistoryRepairResult
  | [], _ => []
  | attempt :: rest, intent =>
    let outcome := attempt.outcome exactSnapshotAuthority intent
    outcome :: match continuationIntent intent outcome.toHistoryRepairOutcome with
      | none => []
      | some next => repairChain exactSnapshotAuthority rest next

/-! ### What remains -/

namespace HistoryRepairResult

variable (o : HistoryRepairResult)

/-- The chunk succeeded with a complete response. -/
def ChunkComplete : Prop :=
  (o.status = .committed ∨ o.status = .noChange) ∧
    (o.terminal = some .complete ∨ o.terminal = some .rollingComplete)

instance : Decidable o.ChunkComplete := inferInstanceAs (Decidable (_ ∧ _))

/-- Unsettled target envelope, including a failed or partial current chunk. -/
def remainingRange : Option (Span Time) :=
  let stop := if o.ChunkComplete then o.intent.startsAt else o.intent.endsAt
  if o.intent.targetStartsAt < stop then some ⟨o.intent.targetStartsAt, stop⟩ else none

/-- The range of the chunk. -/
def chunk : Span Time := ⟨o.intent.startsAt, o.intent.endsAt⟩

/-- The chunk succeeded and made progress. -/
def Advances : Prop :=
  (o.status = .committed ∨ o.status = .noChange) ∧ o.progressed = true

instance : Decidable o.Advances := inferInstanceAs (Decidable (_ ∧ _))

end HistoryRepairResult

/-! ### What is committed is complete -/

section Outcome

variable {authority : Bool} {intent next : HistoryRepairIntent} {env : RepairEnvironment}
  {result : ProviderHistoryFetchResult} {o : HistoryRepairResult} {attempt : RepairAttempt}

/-- An outcome for its intent, whose success comes from a complete response. -/
structure SettledFor (intent : HistoryRepairIntent) (o : HistoryRepairResult) : Prop where
  intent : o.intent = intent
  complete : o.status = .committed ∨ o.status = .noChange → o.ChunkComplete

theorem SettledFor.of_status (hintent : o.intent = intent) (h : o.status ≠ .committed)
    (h' : o.status ≠ .noChange) : SettledFor intent o :=
  ⟨hintent, fun hs => hs.elim (fun hs => absurd hs h) fun hs => absurd hs h'⟩

theorem settledFor_commit (commit : HistoryCommitOutcome) (errorCode : Option String)
    {terminal : ProviderHistoryTerminal} (h : terminal ≠ .malformed) :
    SettledFor intent (commitHistoryRepairResult intent terminal errorCode commit) := by
  refine ⟨rfl, fun hstatus => ⟨hstatus, ?_⟩⟩
  cases terminal with
  | complete => exact .inl rfl
  | rollingComplete => exact .inr rfl
  | malformed => exact absurd rfl h
  | incomplete =>
    cases hcommit : commit.status <;> simp [commitHistoryRepairResult, hcommit] at hstatus
  | rollingPartial =>
    cases hcommit : commit.status <;> simp [commitHistoryRepairResult, hcommit] at hstatus

theorem settledFor_commitFetched : SettledFor intent (commitFetched authority intent env result) := by
  simp only [commitFetched]
  by_cases hmalformed : result.terminal = .malformed
  · rw [if_pos hmalformed]
    exact .of_status rfl nofun nofun
  rw [if_neg hmalformed]
  have hcommitted : SettledFor intent (match env.commit with
      | .error text => { status := .commitFailed, intent := intent, terminal := some result.terminal,
                         errorCode := some text }
      | .ok commit => commitHistoryRepairResult intent result.terminal result.errorCode commit) := by
    cases env.commit with
    | error text => exact .of_status rfl nofun nofun
    | ok commit => exact settledFor_commit commit result.errorCode hmalformed
  cases env.persistedAfter with
  | error text => exact .of_status rfl nofun nofun
  | ok found =>
    cases found with
    | false => exact .of_status rfl nofun nofun
    | true =>
      dsimp only
      split
      · exact .of_status rfl nofun nofun
      split
      · cases env.coverageReceipts with
        | error text => exact .of_status rfl nofun nofun
        | ok u => exact hcommitted
      split
      · rename_i hrolling
        exact ⟨rfl, fun _ => ⟨.inr rfl, .inr (congrArg some hrolling.1)⟩⟩
      split
      · exact .of_status rfl nofun nofun
      · exact hcommitted

theorem settledFor_executeHistoryRepair :
    SettledFor intent (executeHistoryRepair authority intent env) := by
  simp only [executeHistoryRepair]
  split
  · exact .of_status rfl nofun nofun
  cases env.persisted with
  | error text => exact .of_status rfl nofun nofun
  | ok found =>
    cases found with
    | false => exact .of_status rfl nofun nofun
    | true =>
      dsimp only
      split
      · exact .of_status rfl nofun nofun
      cases env.fetch with
      | error text => exact .of_status rfl nofun nofun
      | ok fetched =>
        cases fetched with
        | none => exact .of_status rfl nofun nofun
        | some result => exact settledFor_commitFetched

/-- Whatever a chunk meets. -/
theorem settledFor_outcome : SettledFor intent (attempt.outcome authority intent) := by
  cases attempt with
  | executed env => exact settledFor_executeHistoryRepair
  | raised text => exact .of_status rfl nofun nofun
  | cancelled => exact .of_status rfl nofun nofun

/-! ### The next chunk -/

/-- An exact chunk that advances is followed by the one before it, down to the start of the target. -/
theorem continuationIntent_eq_some (hexact : intent.requestIdentity.contractResolution = .exact)
    (h : continuationIntent intent o.toHistoryRepairOutcome = some next) :
    o.Advances ∧ intent.targetStartsAt < intent.startsAt ∧
      next.startsAt = max intent.targetStartsAt
        (intent.startsAt - (intent.endsAt - intent.startsAt)) ∧
      next.endsAt = intent.startsAt ∧ next.targetStartsAt = intent.targetStartsAt ∧
      next.targetEndsAt = intent.targetEndsAt ∧
      next.requestIdentity = intent.requestIdentity := by
  rw [continuationIntent, if_neg (by rw [hexact]; decide)] at h
  split at h
  · exact nomatch h
  · rename_i hadvances
    rw [not_or, not_not, Bool.not_eq_false] at hadvances
    split at h
    · rename_i hlt
      cases h
      exact ⟨⟨by simpa using hadvances.1, hadvances.2⟩, hlt, rfl, rfl, rfl, rfl, rfl⟩
    · exact nomatch h

theorem continuationIntent_eq_none (hexact : intent.requestIdentity.contractResolution = .exact)
    (h : continuationIntent intent o.toHistoryRepairOutcome = none) (hadvances : o.Advances) :
    intent.startsAt = intent.targetStartsAt := by
  rw [continuationIntent, if_neg (by rw [hexact]; decide), if_neg] at h
  · split at h
    · exact nomatch h
    · rename_i hle
      exact le_antisymm (not_lt.mp hle) intent.inside.1
  · rw [not_or, not_not, Bool.not_eq_false]
    exact ⟨by simpa using hadvances.1, hadvances.2⟩

end Outcome

/-! ### The chain -/

section Chain

variable {authority : Bool} {intent first : HistoryRepairIntent} {demand : RepairDemand}
  {step now : Time} {attempts : List RepairAttempt} {done : List HistoryRepairResult}

theorem alignedTo_iff {ts : Time} : AlignedTo step ts ↔ step * microseconds ∣ ts := by
  constructor
  · rintro ⟨hmicro, hstep⟩
    obtain ⟨k, rfl⟩ := Int.dvd_of_emod_eq_zero hmicro
    rw [Int.mul_tdiv_cancel_left _ (by decide)] at hstep
    rw [mul_comm step]
    exact Int.mul_dvd_mul_left _ (Int.dvd_of_emod_eq_zero hstep)
  · rintro ⟨k, rfl⟩
    rw [AlignedTo, mul_assoc, mul_comm microseconds, ← mul_assoc]
    refine ⟨Int.mul_emod_left _ _, ?_⟩
    rw [Int.mul_tdiv_cancel _ (by decide)]
    exact Int.mul_emod_right _ _

/-- The chunks from one on: they follow each other back in time, each on the boundaries of the
timeframe and no longer than the first, over what the target has up to the end of the first. -/
structure ChunksTile (step : Time) (intent : HistoryRepairIntent)
    (done : List HistoryRepairResult) : Prop where
  head : ∀ o ∈ done.head?, o.intent = intent
  target : ∀ o ∈ done, o.intent.targetStartsAt = intent.targetStartsAt ∧
    o.intent.targetEndsAt = intent.targetEndsAt
  aligned : ∀ o ∈ done, AlignedTo step o.intent.startsAt ∧ AlignedTo step o.intent.endsAt
  short : ∀ o ∈ done, o.intent.endsAt - o.intent.startsAt ≤ intent.endsAt - intent.startsAt
  contiguous : done.IsChain fun o o' => o'.intent.endsAt = o.intent.startsAt
  apart : done.Pairwise fun o o' => o'.intent.endsAt ≤ o.intent.startsAt
  finite : done.length * (step * microseconds) ≤ intent.endsAt - intent.targetStartsAt
  covers : ∀ last ∈ done.getLast?, ∀ t, (intent.targetStartsAt ≤ t ∧ t < intent.endsAt) ↔
    (∃ o ∈ done, o.chunk.Holds t) ∨ intent.targetStartsAt ≤ t ∧ t < last.intent.startsAt
  remaining : ∀ last ∈ done.getLast?, ∀ t, (∃ r ∈ last.remainingRange, r.Holds t) ↔
    (intent.targetStartsAt ≤ t ∧ t < intent.endsAt) ∧
      ¬ ∃ o ∈ done, o.ChunkComplete ∧ o.chunk.Holds t

theorem holds_remainingRange {o : HistoryRepairResult} {t : Time} :
    (∃ r ∈ o.remainingRange, r.Holds t) ↔ (o.intent.targetStartsAt ≤ t ∧ t < o.intent.endsAt) ∧
      ¬ (o.ChunkComplete ∧ o.chunk.Holds t) := by
  have hends : o.intent.startsAt < o.intent.endsAt := o.intent.nonempty
  have hstarts : o.intent.targetStartsAt ≤ o.intent.startsAt := o.intent.inside.1
  have hrange (stop : Time) : (∃ r ∈ (if o.intent.targetStartsAt < stop
      then some (⟨o.intent.targetStartsAt, stop⟩ : Span Time) else none), r.Holds t) ↔
        o.intent.targetStartsAt ≤ t ∧ t < stop := by
    split
    · simp [Span.Holds]
    · rename_i hempty
      refine ⟨fun ⟨_, hr, _⟩ => (nomatch hr), fun h => ?_⟩
      exact absurd (lt_of_le_of_lt h.1 h.2) hempty
  by_cases hcomplete : o.ChunkComplete
  · rw [HistoryRepairResult.remainingRange, if_pos hcomplete, hrange]
    constructor
    · exact fun h => ⟨⟨h.1, h.2.trans hends⟩, fun hin => absurd h.2 (not_lt.mpr hin.2.1)⟩
    · exact fun h => ⟨h.1.1, lt_of_not_ge fun hge => h.2 ⟨hcomplete, hge, h.1.2⟩⟩
  · rw [HistoryRepairResult.remainingRange, if_neg hcomplete, hrange]
    exact ⟨fun h => ⟨h, fun hin => hcomplete hin.1⟩, And.left⟩

/-- The length of a chunk on the boundaries of the timeframe. -/
theorem step_le_length
    (haligned : AlignedTo step intent.startsAt ∧ AlignedTo step intent.endsAt) :
    step * microseconds ≤ intent.endsAt - intent.startsAt :=
  Int.le_of_dvd (sub_pos.mpr intent.nonempty)
    (Int.dvd_sub (alignedTo_iff.mp haligned.2) (alignedTo_iff.mp haligned.1))

/-- What a target has up to the end of a chunk is the chunk and what comes before it. -/
theorem lt_endsAt_iff (intent : HistoryRepairIntent) (t : Time) :
    (intent.targetStartsAt ≤ t ∧ t < intent.endsAt) ↔
      (intent.startsAt ≤ t ∧ t < intent.endsAt) ∨
        intent.targetStartsAt ≤ t ∧ t < intent.startsAt := by
  constructor
  · rintro ⟨hle, hlt⟩
    exact (le_or_gt intent.startsAt t).imp (fun h => ⟨h, hlt⟩) fun h => ⟨hle, h⟩
  · rintro (⟨hle, hlt⟩ | ⟨hle, hlt⟩)
    · exact ⟨intent.inside.1.trans hle, hlt⟩
    · exact ⟨hle, lt_trans hlt intent.nonempty⟩

/-- A chunk that ends the chain. -/
theorem ChunksTile.single {o : HistoryRepairResult} (ho : o.intent = intent)
    (haligned : AlignedTo step intent.startsAt ∧ AlignedTo step intent.endsAt) :
    ChunksTile step intent [o] where
  head := by simp [ho]
  target := by simp [ho]
  aligned := by simpa [ho] using haligned
  short := by simp [ho]
  contiguous := .singleton _
  apart := List.pairwise_singleton _ _
  finite := by
    rw [List.length_singleton, Nat.cast_one, one_mul]
    exact (step_le_length haligned).trans (Int.sub_le_sub_left intent.inside.1 _)
  covers := by
    intro last hlast t
    obtain rfl : o = last := by simpa using hlast
    rw [lt_endsAt_iff]
    simp [HistoryRepairResult.chunk, Span.Holds, ho]
  remaining := by
    intro last hlast t
    obtain rfl : o = last := by simpa using hlast
    rw [holds_remainingRange, ho]
    simp

/-- A complete chunk before the chain of the next one. -/
theorem ChunksTile.cons {next : HistoryRepairIntent} {o : HistoryRepairResult}
    (h : ChunksTile step next done) (hne : done ≠ []) (ho : o.intent = intent)
    (hcomplete : o.ChunkComplete)
    (haligned : AlignedTo step intent.startsAt ∧ AlignedTo step intent.endsAt)
    (hends : next.endsAt = intent.startsAt)
    (hshort : next.endsAt - next.startsAt ≤ intent.endsAt - intent.startsAt)
    (htarget : next.targetStartsAt = intent.targetStartsAt ∧
      next.targetEndsAt = intent.targetEndsAt) :
    ChunksTile step intent (o :: done) := by
  have hlast : (o :: done).getLast? = done.getLast? := List.getLast?_cons_of_ne_nil hne
  have hbefore : ∀ o' ∈ done, o'.intent.endsAt ≤ intent.startsAt := by
    cases done with
    | nil => exact absurd rfl hne
    | cons o₁ done =>
      have hhead : o₁.intent.endsAt = intent.startsAt := by
        rw [h.head o₁ (by simp), hends]
      refine List.forall_mem_cons.mpr ⟨hhead.le, fun o' ho' => ?_⟩
      exact ((List.pairwise_cons.mp h.apart).1 o' ho').trans
        (le_trans o₁.intent.nonempty.le hhead.le)
  refine
    { head := by simp [ho]
      target := List.forall_mem_cons.mpr ⟨by simp [ho], fun o' ho' =>
        ⟨(h.target o' ho').1.trans htarget.1, (h.target o' ho').2.trans htarget.2⟩⟩
      aligned := List.forall_mem_cons.mpr ⟨by simpa [ho] using haligned, h.aligned⟩
      short := List.forall_mem_cons.mpr ⟨by simp [ho], fun o' ho' => (h.short o' ho').trans hshort⟩
      contiguous := ?_
      apart := List.pairwise_cons.mpr ⟨by simpa [ho] using hbefore, h.apart⟩
      finite := ?_, covers := ?_, remaining := ?_ }
  · cases done with
    | nil => exact absurd rfl hne
    | cons o₁ done =>
      refine List.isChain_cons_cons.mpr ⟨?_, h.contiguous⟩
      rw [h.head o₁ (by simp), hends, ho]
  · have hfinite := h.finite
    have hlength := step_le_length haligned
    rw [List.length_cons, Nat.cast_succ, add_mul, one_mul]
    rw [hends, htarget.1] at hfinite
    calc (done.length : ℤ) * (step * microseconds) + step * microseconds
        ≤ (intent.startsAt - intent.targetStartsAt) + (intent.endsAt - intent.startsAt) :=
          Int.add_le_add hfinite hlength
      _ = intent.endsAt - intent.targetStartsAt := by ring
  · intro last hlast' t
    have hcovers := h.covers last (hlast ▸ hlast') t
    rw [hends, htarget.1] at hcovers
    rw [lt_endsAt_iff, hcovers, ← or_assoc, List.exists_mem_cons_iff]
    simp [HistoryRepairResult.chunk, Span.Holds, ho]
  · intro last hlast' t
    rw [h.remaining last (hlast ▸ hlast') t, hends, htarget.1, List.exists_mem_cons_iff, not_or]
    constructor
    · rintro ⟨hin, hnot⟩
      refine ⟨⟨hin.1, lt_trans hin.2 intent.nonempty⟩, fun hchunk => ?_, hnot⟩
      have hge : o.intent.startsAt ≤ t := hchunk.2.1
      rw [ho] at hge
      exact absurd hin.2 (not_lt.mpr hge)
    · rintro ⟨hin, hnot, hrest⟩
      refine ⟨⟨hin.1, lt_of_not_ge fun hge => hnot ⟨hcomplete, ?_⟩⟩, hrest⟩
      rw [HistoryRepairResult.chunk, ho]
      exact ⟨hge, hin.2⟩

/-- The chunk before an aligned one is aligned and no longer. -/
theorem next_aligned {next : HistoryRepairIntent}
    (haligned : AlignedTo step intent.startsAt ∧ AlignedTo step intent.endsAt)
    (htarget : AlignedTo step intent.targetStartsAt)
    (hstarts : next.startsAt = max intent.targetStartsAt
      (intent.startsAt - (intent.endsAt - intent.startsAt)))
    (hends : next.endsAt = intent.startsAt) :
    (AlignedTo step next.startsAt ∧ AlignedTo step next.endsAt) ∧
      next.endsAt - next.startsAt ≤ intent.endsAt - intent.startsAt := by
  refine ⟨⟨?_, hends ▸ haligned.1⟩, ?_⟩
  · have hs := alignedTo_iff.mp haligned.1
    have hbefore : AlignedTo step (intent.startsAt - (intent.endsAt - intent.startsAt)) :=
      alignedTo_iff.mpr (Int.dvd_sub hs (Int.dvd_sub (alignedTo_iff.mp haligned.2) hs))
    rw [hstarts]
    exact max_rec' (AlignedTo step) htarget hbefore
  · have hle := le_max_right intent.targetStartsAt
      (intent.startsAt - (intent.endsAt - intent.startsAt))
    rw [← hstarts] at hle
    rw [hends]
    omega

/-- The chain from a chunk. Where it ends before the attempts do although every chunk has advanced,
it has come to the start of the target. -/
theorem chunksTile_repairChain (hexact : intent.requestIdentity.contractResolution = .exact)
    (haligned : AlignedTo step intent.startsAt ∧ AlignedTo step intent.endsAt)
    (htarget : AlignedTo step intent.targetStartsAt) (hne : attempts ≠ []) :
    ChunksTile step intent (repairChain authority attempts intent) ∧
      repairChain authority attempts intent ≠ [] ∧
      ((repairChain authority attempts intent).length < attempts.length →
        (∀ o ∈ repairChain authority attempts intent, o.Advances) →
        ∀ last ∈ (repairChain authority attempts intent).getLast?,
          last.intent.startsAt = intent.targetStartsAt) := by
  induction attempts generalizing intent with
  | nil => exact absurd rfl hne
  | cons attempt attempts ih =>
    have hsettled : SettledFor intent (attempt.outcome authority intent) := settledFor_outcome
    rw [repairChain]
    set o := attempt.outcome authority intent with ho
    cases hnext : continuationIntent intent o.toHistoryRepairOutcome with
    | none =>
      refine ⟨.single hsettled.intent haligned, by simp, fun _ hall last hlast => ?_⟩
      obtain rfl : o = last := by simpa using hlast
      rw [hsettled.intent]
      exact continuationIntent_eq_none hexact hnext (hall o (by simp))
    | some next =>
      obtain ⟨hadvances, -, hstarts, hends, hstart, hend, hidentity⟩ :=
        continuationIntent_eq_some hexact hnext
      obtain ⟨hnextAligned, hshort⟩ := next_aligned haligned htarget hstarts hends
      dsimp only
      cases hattempts : attempts with
      | nil =>
        refine ⟨.single hsettled.intent haligned, by simp [repairChain], fun hlt => ?_⟩
        exact absurd hlt (by simp [repairChain])
      | cons attempt' rest =>
        obtain ⟨htile, hchain, hdone⟩ := ih (hidentity ▸ hexact) hnextAligned (hstart ▸ htarget)
          (by simp [hattempts])
        rw [hattempts] at htile hchain hdone
        refine ⟨htile.cons hchain hsettled.intent (hsettled.complete hadvances.1) haligned hends
          hshort ⟨hstart, hend⟩, by simp, fun hlt hall last hlast => ?_⟩
        rw [List.getLast?_cons_of_ne_nil hchain] at hlast
        rw [← hstart]
        refine hdone (by simpa using hlt) (fun o' ho' => hall o' (by simp [ho'])) last hlast

theorem chunksTile_nil : ChunksTile step intent [] := by
  have hlength : (0 : ℤ) ≤ intent.endsAt - intent.targetStartsAt :=
    sub_nonneg.mpr (intent.inside.1.trans (le_of_lt intent.nonempty))
  refine ⟨?_, ?_, ?_, ?_, .nil, .nil, ?_, ?_, ?_⟩ <;> simp
  exact sub_nonneg.mp hlength

/-- The first chunk is the newest of the envelope, on the boundaries of the timeframe. -/
theorem selectHistoryRepairIntent_spec (h : selectHistoryRepairIntent demand now = .ok first) :
    first.requestIdentity = demand.requestIdentity ∧
      first.targetStartsAt = demand.requestedFrom ∧ first.targetEndsAt = demand.requestedTo ∧
      first.endsAt = demand.requestedTo ∧ AlignedTo demand.step demand.requestedFrom ∧
      AlignedTo demand.step first.startsAt ∧ AlignedTo demand.step first.endsAt := by
  rw [selectHistoryRepairIntent] at h
  split at h
  · split at h
    · exact nomatch h
    split at h
    · exact nomatch h
    rename_i haligned
    rw [not_or, not_not, not_not] at haligned
    obtain ⟨hfrom, hto⟩ := haligned
    split at h
    · exact nomatch h
    split at h
    · split at h
      · cases h
        refine ⟨rfl, rfl, rfl, rfl, hfrom, ?_, hto⟩
        have hbounded : AlignedTo demand.step (demand.requestedTo -
            maxSlots demand.step demand.maxRequestSpan * demand.step * microseconds) := by
          refine alignedTo_iff.mpr (Int.dvd_sub (alignedTo_iff.mp hto) ?_)
          rw [mul_assoc]
          exact Int.dvd_mul_left _ _
        exact max_rec' (AlignedTo demand.step) hfrom hbounded
      · exact nomatch h
    · exact nomatch h
  · exact nomatch h

/-- **The chunks of a repair tile its envelope.** The chunks that follow one another from the first
of a demand go back in time without gap or overlap, on the boundaries of the timeframe and no longer
than the first; there are no more of them than the envelope has steps. What the last outcome says
remains is what no complete chunk has covered. Where every chunk succeeds and makes progress, the
chain goes on down to the start of the envelope. -/
theorem repair_tiles (demand : RepairDemand) (now : Time) (authority : Bool)
    (attempts : List RepairAttempt) (first : HistoryRepairIntent)
    (hselect : selectHistoryRepairIntent demand now = .ok first)
    (hexact : demand.requestIdentity.contractResolution = .exact) :
    first.targetStartsAt = demand.requestedFrom ∧ first.endsAt = demand.requestedTo ∧
      ChunksTile demand.step first (repairChain authority attempts first) ∧
      ((repairChain authority attempts first).length < attempts.length →
        (∀ o ∈ repairChain authority attempts first, o.Advances) →
        (∃ last ∈ (repairChain authority attempts first).getLast?,
          last.intent.startsAt = demand.requestedFrom) ∧
        ∀ t, (demand.requestedFrom ≤ t ∧ t < demand.requestedTo) ↔
          ∃ o ∈ repairChain authority attempts first, o.chunk.Holds t) := by
  obtain ⟨hidentity, hstart, -, hend, hfrom, haligned⟩ := selectHistoryRepairIntent_spec hselect
  refine ⟨hstart, hend, ?_⟩
  by_cases hne : attempts = []
  · subst hne
    exact ⟨chunksTile_nil, fun hlt => absurd hlt (Nat.not_lt_zero _)⟩
  · obtain ⟨htile, hchain, hdone⟩ := chunksTile_repairChain (hidentity ▸ hexact) haligned
      (hstart ▸ hfrom) hne
    refine ⟨htile, fun hlt hall => ?_⟩
    obtain ⟨last, hlast⟩ := Option.isSome_iff_exists.mp (List.getLast?_isSome.mpr hchain)
    have hstarts := hdone hlt hall last hlast
    refine ⟨⟨last, hlast, hstarts.trans hstart⟩, fun t => ?_⟩
    rw [← hstart, ← hend, htile.covers last hlast t, hstarts]
    exact or_iff_left fun h => absurd h.2 (not_lt.mpr h.1)

/-! ### A partial response -/

/-- Two minutes, asked for minute by minute. -/
def minuteDemand : RepairDemand where
  provider := "ibkr"
  instrumentId := "ES"
  routeFingerprint := "route"
  timeframe := .m1
  requestedFrom := 0
  requestedTo := 120000000
  requestIdentity :=
    { requestContractVersion := 2
      admissionContractVersion := 2
      requestMode := "exact"
      providerSource := "historical"
      providerContractId := "100"
      providerContractType := "FUT"
      contractResolution := .exact }
  canonicalGeneration := 0
  priority := .foreground
  cooldownSeconds := 0
  maxRequestSpan := 60000000

/-- A bar of the newest minute. -/
def newestBar : Bar where
  symbol := "ES"
  ts := 60000000
  «open» := 1
  high := 1
  low := 1
  close := 1
  volume := 1
  timeframe := .m1
  source := "historical"
  closed := true
  state := .confirmed
  provenance := none
  volume_nonneg := by decide
  geometry := by decide
  lifecycle := lifecycle_ite true

/-- A run that stores one bar of a response with this end. -/
def storesOneBar (terminal : ProviderHistoryTerminal) : RepairAttempt :=
  .executed
    { routeMatches := true
      persisted := .ok true
      generationBefore := 0
      fetch := .ok (some { terminal := terminal, authoritativeBars := [newestBar], errorCode := none })
      persistedAfter := .ok true
      generationAfter := 0
      coverageReceipts := .ok ()
      commit := .ok
        { status := .committed
          receipt := some
            { barReceipt :=
                { revisionSequence := 0, written := 1, acknowledged := [], superseded := [],
                  rejected := [], deleted := 0 }
              coverageInserted := 0
              coverageExpanded := false
              expanded := nofun }
          generation := some 0
          errorCode := none } }

/-- The starts of the chunks of the example and whether they made progress. -/
def minuteChunks (attempts : List RepairAttempt) : Except String (List (Time × Bool)) :=
  (selectHistoryRepairIntent minuteDemand 120000000).map fun first =>
    (repairChain true attempts first).map fun o => (o.intent.startsAt, o.progressed)

/-- A partial response whose bar is stored makes progress, and the chain ends above the start of the
envelope. -/
theorem partial_chunk_ends_chain :
    (minuteChunks [storesOneBar .incomplete, storesOneBar .complete]).toOption =
      some [(60000000, true)] := by
  decide +kernel

/-- **The chunks of a repair tile its envelope**, over two complete minutes. -/
theorem repair_tiles_minutes :
    ∃ first, selectHistoryRepairIntent minuteDemand 120000000 = .ok first ∧
      first.targetStartsAt = 0 ∧ first.endsAt = 120000000 ∧
      ChunksTile minuteDemand.step first
        (repairChain true (List.replicate 3 (storesOneBar .complete)) first) := by
  obtain ⟨first, hfirst⟩ : ∃ first,
      (selectHistoryRepairIntent minuteDemand 120000000).toOption = some first :=
    Option.isSome_iff_exists.mp (by decide +kernel)
  have hselect : selectHistoryRepairIntent minuteDemand 120000000 = .ok first := by
    cases h : selectHistoryRepairIntent minuteDemand 120000000 with
    | error text => rw [h] at hfirst; exact nomatch hfirst
    | ok intent => rw [h] at hfirst; exact congrArg Except.ok (Option.some.inj hfirst)
  obtain ⟨hstart, hend, htile, -⟩ :=
    repair_tiles minuteDemand 120000000 true (List.replicate 3 (storesOneBar .complete)) first hselect rfl
  exact ⟨first, hselect, hstart, hend, htile⟩

end Chain

end AefTerminal
