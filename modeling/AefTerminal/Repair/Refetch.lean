import AefTerminal.Repair.Callbacks

/-!
# No futile fetch

A repair that ended without progress is not worth another fetch before the canonical generation of
its chart moves on, so `_run_request` records the cursor with its generation in
`_awaiting_generation`. Only `schedule` looks there. A chunk that a finishing task continues with
and the head of a queue start without passing it, and a submission from a generation that the chart
has not reached takes the records of the chart out.

So the record has to be compared with what starts after a task: where no task that finishes starts
a request whose cursor is recorded at the generation of the request, and no submission is ahead of
its chart, every fetch is worth it.

## Main results

* `HistoryRepairRuntime.no_futile_fetch`, `HistoryRepairRuntime.futile_fetch`
-/

namespace AefTerminal

open Foundation

/-- What the canonical generation belongs to: instrument, route and timeframe. -/
abbrev GenerationScope := String × String × String

def RepairCursorKey.generationScope (key : RepairCursorKey) : GenerationScope :=
  (key.instrumentId, key.routeFingerprint, key.timeframe)

namespace HistoryRepairOrchestrator

variable {s t u : HistoryRepairOrchestrator} {request : PendingHistoryRepair} {key : RepairKey}

/-- A request for the key ended without progress. -/
def NoProgress (s : HistoryRepairOrchestrator) (key : RepairKey) : Prop :=
  ∃ ended ∈ s.ended, terminalNoProgress ended.2 ∧ repairKey ended.2.intent = key

/-- The cursor of the key is recorded at the generation of the key. -/
def Recorded (s : HistoryRepairOrchestrator) (key : RepairKey) : Prop :=
  s.awaitingGeneration.get? key.cursor = some key.canonicalGeneration

instance (s : HistoryRepairOrchestrator) (key : RepairKey) : Decidable (s.Recorded key) :=
  inferInstanceAs (Decidable (_ = _))

theorem Recorded.congr (h : s.Recorded key) (heq : t.awaitingGeneration = s.awaitingGeneration) :
    t.Recorded key := by
  unfold Recorded
  rw [heq]
  exact h

/-! ### What keeps the records -/

/-- The step records nothing, starts nothing, and no request ends in it without progress. -/
structure Keeps (s t : HistoryRepairOrchestrator) : Prop where
  awaiting : t.awaitingGeneration = s.awaitingGeneration
  noProgress : ∀ key, t.NoProgress key → s.NoProgress key
  active : t.active = s.active

theorem Keeps.of_ended (hawaiting : t.awaitingGeneration = s.awaitingGeneration)
    (hended : t.ended = s.ended) (hactive : t.active = s.active) : Keeps s t := by
  refine ⟨hawaiting, fun key h => ?_, hactive⟩
  unfold NoProgress at h
  rwa [hended] at h

theorem Keeps.refl (s : HistoryRepairOrchestrator) : Keeps s s := .of_ended rfl rfl rfl

theorem Keeps.trans (h : Keeps s t) (k : Keeps t u) : Keeps s u :=
  ⟨k.awaiting.trans h.awaiting, fun key hkey => h.noProgress key (k.noProgress key hkey),
    k.active.trans h.active⟩

theorem keeps_subscribe (s : HistoryRepairOrchestrator) (key : RepairKey) (serial : ℕ)
    (onComplete : Bool) : Keeps s (s.subscribe key serial onComplete).2 := by
  unfold subscribe
  split
  · exact .refl s
  · exact .of_ended rfl rfl rfl

theorem keeps_prune (s : HistoryRepairOrchestrator) (now : ℚ) : Keeps s (s.prune now) :=
  .of_ended rfl rfl rfl

theorem keeps_promote (s : HistoryRepairOrchestrator) (existing : PendingHistoryRepair)
    (request : HistoryRepairRequest) : Keeps s (s.promote existing request) := by
  unfold promote
  split
  · exact .of_ended rfl rfl rfl
  · exact .refl s

theorem keeps_complete (s : HistoryRepairOrchestrator) (request : PendingHistoryRepair)
    {outcome : HistoryRepairOutcome} (houtcome : terminalNoProgress outcome = false) :
    Keeps s (s.complete request outcome) := by
  refine ⟨rfl, fun key h => ?_, rfl⟩
  obtain ⟨ended, hended, hterminal, hkey⟩ := h
  rcases List.mem_append.mp hended with hended | hended
  · exact ⟨ended, hended, hterminal, hkey⟩
  · rw [List.mem_singleton.mp hended, houtcome] at hterminal
    exact absurd hterminal (by simp)

theorem keeps_evict (s : HistoryRepairOrchestrator) (evicted : PendingHistoryRepair)
    (intent : HistoryRepairIntent) : Keeps s (s.evict evicted intent) := by
  have hset : Keeps s (s.setPending intent.provider ((s.pending intent.provider).filter
      fun other => other.taskKey ≠ evicted.taskKey)) := .of_ended rfl rfl rfl
  have hcomplete := hset.trans (keeps_complete _ evicted
    (show terminalNoProgress { status := .superseded, intent := evicted.intent } = false from rfl))
  exact ⟨hcomplete.awaiting, hcomplete.noProgress, hcomplete.active⟩

theorem keeps_enqueue (s : HistoryRepairOrchestrator) (request : HistoryRepairRequest)
    (onComplete : Bool) : Keeps s (s.enqueue request onComplete).2 :=
  Keeps.trans (t := s.queued request) (.of_ended rfl rfl rfl) (keeps_subscribe ..)

theorem keeps_cancelPending (s : HistoryRepairOrchestrator) (provider : String) :
    Keeps s (s.cancelPending provider) := by
  have hfold (queue : List PendingHistoryRepair) : ∀ u : HistoryRepairOrchestrator,
      Keeps u (queue.foldl (fun u request =>
        u.complete request { status := .cancelled, intent := request.intent }) u) := by
    induction queue with
    | nil => exact .refl
    | cons request queue ih =>
      intro u
      exact (keeps_complete u request rfl).trans (ih _)
  exact Keeps.trans (t := s.setPending provider []) (.of_ended rfl rfl rfl) (hfold _ _)

theorem keeps_latestOutcome (s : HistoryRepairOrchestrator) (intent : HistoryRepairIntent) :
    Keeps s (s.latestOutcome intent).2 := by
  unfold latestOutcome
  split
  · exact .refl s
  · exact .of_ended rfl rfl rfl

/-! ### What a submission and a finished task start -/

/-- What a submission does to the records and starts. -/
structure Submitted (s : HistoryRepairOrchestrator) (request : HistoryRepairRequest)
    (t : HistoryRepairOrchestrator) : Prop where
  awaiting : t.awaitingGeneration = (s.clearAwaiting request.intent).awaitingGeneration
  noProgress : ∀ key, t.NoProgress key → s.NoProgress key
  active : t.active = s.active ∨ t.active = s.active ++ [s.admitted request] ∧
    (s.clearAwaiting request.intent).awaitsGeneration request.intent = false

theorem Keeps.submitted {request : HistoryRepairRequest}
    (h : Keeps (s.clearAwaiting request.intent) t) : Submitted s request t :=
  ⟨h.awaiting, h.noProgress, .inl h.active⟩

theorem submitted_enter (s : HistoryRepairOrchestrator) (request : HistoryRepairRequest)
    (onComplete : Bool) (now : ℚ) (hkeeps : Keeps (s.clearAwaiting request.intent) u)
    (hserial : u.nextSerial = s.nextSerial)
    (hawaits : (s.clearAwaiting request.intent).awaitsGeneration request.intent = false) :
    Submitted s request (u.enter request onComplete now).2 := by
  unfold enter
  dsimp only
  split_ifs with hthrottled hkeys hfull
  · exact hkeeps.submitted
  · cases u.evictee request.intent with
    | none => exact hkeeps.submitted
    | some evicted =>
      exact ((hkeeps.trans (keeps_evict u evicted _)).trans (keeps_enqueue _ request _)).submitted
  · exact (hkeeps.trans (keeps_enqueue u request onComplete)).submitted
  · have hsub := keeps_subscribe u.allocate (repairKey request.intent) u.nextSerial onComplete
    have hsubscribed := hkeeps.trans (Keeps.trans (t := u.allocate) (.of_ended rfl rfl rfl) hsub)
    refine ⟨hsubscribed.awaiting, hsubscribed.noProgress, .inr ⟨?_, hawaits⟩⟩
    have hadmitted : u.admitted request = s.admitted request := by
      unfold admitted
      rw [hserial]
    exact congrArg₂ (· ++ [·]) hsubscribed.active hadmitted

theorem submitted_schedule (s : HistoryRepairOrchestrator) (request : HistoryRepairRequest)
    (onComplete : Bool) (now : ℚ) : Submitted s request (s.schedule request onComplete now).2 := by
  have hprune := keeps_prune (s.clearAwaiting request.intent) now
  unfold schedule
  dsimp only
  split_ifs with hawaits
  · exact (Keeps.refl _).submitted
  · cases ((s.clearAwaiting request.intent).prune now).tasks.get? (repairKey request.intent) with
    | some serial => exact (hprune.trans (keeps_subscribe ..)).submitted
    | none =>
      cases (((s.clearAwaiting request.intent).prune now).pending
          request.intent.provider).find? fun other => other.taskKey = repairKey request.intent with
      | some existing =>
        exact ((hprune.trans (keeps_promote ..)).trans (keeps_subscribe ..)).submitted
      | none => exact submitted_enter s request onComplete now hprune rfl (by simpa using hawaits)

/-- What starts when the task of a request finishes: its next chunk, or the head of the queue. -/
def nextRequest (s : HistoryRepairOrchestrator) (request : PendingHistoryRepair)
    (outcome : HistoryRepairOutcome) : Option PendingHistoryRepair :=
  match continuationIntent request.intent outcome with
  | some intent => some { request with intent := intent, serial := s.nextSerial }
  | none => (s.pending request.provider).head?

theorem finish_records (s : HistoryRepairOrchestrator) (request : PendingHistoryRepair)
    (outcome : HistoryRepairOutcome) (now : ℚ) :
    (s.finish request outcome now).awaitingGeneration =
        (s.settle request outcome now).awaitingGeneration ∧
      (s.finish request outcome now).ended = s.ended ++ [(request.serial, outcome)] := by
  unfold HistoryRepairOrchestrator.finish
  dsimp only
  split
  · exact ⟨rfl, rfl⟩
  · unfold startNext
    split
    · exact ⟨rfl, rfl⟩
    · exact ⟨rfl, rfl⟩

theorem get?_awaitingGeneration_settle (s : HistoryRepairOrchestrator)
    (request : PendingHistoryRepair) (outcome : HistoryRepairOutcome) (now : ℚ)
    (cursor : RepairCursorKey) :
    (s.settle request outcome now).awaitingGeneration.get? cursor =
      if terminalNoProgress outcome = true ∧ cursor = request.taskKey.cursor then
        some request.intent.canonicalGeneration
      else s.awaitingGeneration.get? cursor := by
  unfold settle
  dsimp only
  by_cases hterminal : terminalNoProgress outcome = true
  · rw [if_pos hterminal, Dict.get?_insert]
    simp only [hterminal, true_and]
    rfl
  · simp [hterminal]

theorem keeps_finishCancelled (s : HistoryRepairOrchestrator) (request : PendingHistoryRepair)
    (now : ℚ) :
    (s.finishCancelled request now).awaitingGeneration = s.awaitingGeneration ∧
      ∀ key, (s.finishCancelled request now).NoProgress key → s.NoProgress key := by
  have hcancel := keeps_cancelPending
    (s.settle request { status := .cancelled, intent := request.intent } now) request.provider
  have hcomplete := keeps_complete s request
    (show terminalNoProgress { status := .cancelled, intent := request.intent } = false from rfl)
  exact ⟨hcancel.awaiting, fun key h => hcomplete.noProgress key (hcancel.noProgress key h)⟩

/-- The next request has a serial number that no task has. -/
theorem nextRequest_serial (h : s.Laned) {outcome : HistoryRepairOutcome}
    {next : PendingHistoryRepair} (hnext : s.nextRequest request outcome = some next) :
    next.serial ∉ s.lanes.serials := by
  unfold nextRequest at hnext
  cases hcontinuation : continuationIntent request.intent outcome with
  | some intent =>
    rw [hcontinuation] at hnext
    cases hnext
    intro hmem
    obtain ⟨other, hother, heq⟩ := List.mem_map.mp hmem
    exact (h.sound.fresh other (.inl hother)).ne heq
  | none =>
    rw [hcontinuation] at hnext
    exact h.sound.waits request.provider next (List.mem_of_head? hnext)

end HistoryRepairOrchestrator

open HistoryRepairOrchestrator

/-- The orchestrator with the canonical generations of the charts and the tasks that have called
their provider. -/
structure HistoryRepairRuntime where
  repairs : HistoryRepairOrchestrator
  generation : GenerationScope → ℕ
  fetching : List ℕ

namespace HistoryRepairRuntime

inductive Act
  | repairs (a : HistoryRepairOrchestrator.Act)
  /-- The task calls the provider. -/
  | fetch (serial : ℕ)
  /-- A publication advances the canonical generation of a chart. -/
  | advance (scope : GenerationScope) (generation : ℕ)

/-- `_current_generation`. -/
def currentGeneration (s : HistoryRepairRuntime) (cursor : RepairCursorKey) : ℕ :=
  s.generation cursor.generationScope

/-- The steps of the orchestrator and `execute_history_repair` up to its fetch. The three outcomes
that can be without progress come after the fetch. -/
inductive Step : HistoryRepairRuntime → Act → HistoryRepairRuntime → Prop
  | repairs {s : HistoryRepairRuntime} {a : HistoryRepairOrchestrator.Act}
      {t : HistoryRepairOrchestrator} (hstep : HistoryRepairOrchestrator.Step s.repairs a t)
      (hfetched : ∀ serial outcome now, a = .finish serial outcome now →
        terminalNoProgress outcome → serial ∈ s.fetching) :
      Step s (.repairs a) { s with
        repairs := t
        fetching := s.fetching.filter fun serial => serial ∈ t.lanes.serials }
  | fetch {s : HistoryRepairRuntime} (request : PendingHistoryRepair)
      (hactive : request ∈ s.repairs.active) (hnew : request.serial ∉ s.fetching)
      (hcurrent : s.currentGeneration request.taskKey.cursor = request.intent.canonicalGeneration) :
      Step s (.fetch request.serial) { s with fetching := request.serial :: s.fetching }
  | advance {s : HistoryRepairRuntime} (scope : GenerationScope) (generation : ℕ)
      (hlater : s.generation scope < generation) :
      Step s (.advance scope generation) { s with
        generation := Function.update s.generation scope generation }

def start (generation : GenerationScope → ℕ) : HistoryRepairRuntime :=
  ⟨HistoryRepairOrchestrator.initial, generation, []⟩

/-- No submission is ahead of its chart, and a task that finishes starts no request whose cursor is
then recorded at the generation of the request. -/
def StartsUnrecorded (s : HistoryRepairRuntime) : Act → Prop
  | .repairs (.schedule request _ _) =>
    request.intent.canonicalGeneration ≤ s.currentGeneration (repairCursorKey request.intent)
  | .repairs (.finish serial outcome now) => ∀ request ∈ s.repairs.active,
    request.serial = serial → ∀ next ∈ s.repairs.nextRequest request outcome,
      ¬ (s.repairs.settle request outcome now).Recorded next.taskKey
  | _ => True

instance (s : HistoryRepairRuntime) : ∀ a, Decidable (s.StartsUnrecorded a)
  | .repairs (.schedule ..) => inferInstanceAs (Decidable (_ ≤ _))
  | .repairs (.finish serial outcome now) => inferInstanceAs (Decidable (∀ request ∈
      s.repairs.active, request.serial = serial → ∀ next ∈ s.repairs.nextRequest request outcome,
        ¬ (s.repairs.settle request outcome now).Recorded next.taskKey))
  | .repairs (.cancel ..) | .repairs (.call _) | .repairs (.latestOutcome _) | .fetch _
  | .advance .. => inferInstanceAs (Decidable True)

variable {s t : HistoryRepairRuntime} {request : PendingHistoryRepair} {key : RepairKey}

/-- The chart of the key has left the generation of the key behind. -/
def Past (s : HistoryRepairRuntime) (key : RepairKey) : Prop :=
  key.canonicalGeneration < s.currentGeneration key.cursor

/-- The invariant. -/
structure Inv (s : HistoryRepairRuntime) : Prop where
  laned : s.repairs.Laned
  /-- What has called its provider is a task. -/
  fetching : ∀ serial ∈ s.fetching, serial ∈ s.repairs.lanes.serials
  /-- A key without progress is in the past, or current and recorded. -/
  settled : ∀ key, s.repairs.NoProgress key → s.Past key ∨
    key.canonicalGeneration = s.currentGeneration key.cursor ∧ s.repairs.Recorded key
  /-- A task is for a key that is not known to be without progress now. -/
  active : ∀ request ∈ s.repairs.active, s.repairs.NoProgress request.taskKey →
    s.Past request.taskKey
  /-- A task was current when it called its provider. -/
  fetched : ∀ request ∈ s.repairs.active, request.serial ∈ s.fetching →
    request.intent.canonicalGeneration ≤ s.currentGeneration request.taskKey.cursor ∧
      ∀ generation, s.repairs.NoProgress ⟨request.taskKey.cursor, generation⟩ →
        generation ≤ request.intent.canonicalGeneration

theorem Inv.start (generation : GenerationScope → ℕ) : (start generation).Inv :=
  ⟨laned_initial, fun _ h => absurd h List.not_mem_nil,
    fun _ ⟨_, h, _⟩ => absurd h List.not_mem_nil, fun _ h => absurd h List.not_mem_nil,
    fun _ h => absurd h List.not_mem_nil⟩

theorem Inv.generation_le (h : s.Inv) (hkey : s.repairs.NoProgress key) :
    key.canonicalGeneration ≤ s.currentGeneration key.cursor :=
  (h.settled key hkey).elim Nat.le_of_lt fun hcurrent => hcurrent.1.le

/-- The orchestrator moves on and the generations stay. -/
def withRepairs (s : HistoryRepairRuntime) (t : HistoryRepairOrchestrator) :
    HistoryRepairRuntime :=
  { s with repairs := t, fetching := s.fetching.filter fun serial => serial ∈ t.lanes.serials }

theorem mem_fetching_withRepairs {t : HistoryRepairOrchestrator} {serial : ℕ}
    (h : serial ∈ (s.withRepairs t).fetching) : serial ∈ s.fetching ∧ serial ∈ t.lanes.serials :=
  (List.mem_filter.mp h).imp_right of_decide_eq_true

/-- A task that has called its provider was there before the step, where the others are new. -/
theorem Inv.old_of_fetching {t : HistoryRepairOrchestrator} (h : s.Inv)
    {started : PendingHistoryRepair} (hstarted : started ∈ s.repairs.active ∨
      started.serial ∉ s.repairs.lanes.serials) (hfetching : started.serial ∈
        (s.withRepairs t).fetching) : started ∈ s.repairs.active :=
  hstarted.resolve_right fun hnew => hnew (h.fetching _ (mem_fetching_withRepairs hfetching).1)

/-- A step that records nothing, starts nothing and in which nothing ends without progress. -/
theorem Inv.keep {t : HistoryRepairOrchestrator} (h : s.Inv) (hlaned : t.Laned)
    (hawaiting : t.awaitingGeneration = s.repairs.awaitingGeneration)
    (hnoProgress : ∀ key, t.NoProgress key → s.repairs.NoProgress key)
    (hactive : ∀ request ∈ t.active, request ∈ s.repairs.active) : (s.withRepairs t).Inv := by
  refine ⟨hlaned, fun serial hserial => (mem_fetching_withRepairs hserial).2, fun key hkey => ?_,
    fun request hr hkey => h.active request (hactive request hr) (hnoProgress _ hkey),
    fun request hr hfetching => ?_⟩
  · exact (h.settled key (hnoProgress key hkey)).imp_right fun hcurrent =>
      ⟨hcurrent.1, hcurrent.2.congr hawaiting⟩
  · obtain ⟨hle, hmost⟩ := h.fetched request (hactive request hr)
      (mem_fetching_withRepairs hfetching).1
    exact ⟨hle, fun generation hkey => hmost generation (hnoProgress _ hkey)⟩

/-! ### A submission -/

/-- Only keys of the past are taken out of the records. -/
theorem recorded_clearAwaiting {s : HistoryRepairOrchestrator} {intent : HistoryRepairIntent}
    (hrecorded : s.Recorded key) (hahead : key.cursor.chartScope =
      (repairCursorKey intent).chartScope → intent.canonicalGeneration ≤ key.canonicalGeneration) :
    (s.clearAwaiting intent).Recorded key := by
  unfold Recorded clearAwaiting
  rw [Dict.get?_eraseAll, if_neg]
  · exact hrecorded
  · intro hmem
    obtain ⟨⟨cursor, generation⟩, hentry, rfl⟩ := List.mem_map.mp hmem
    obtain ⟨hget, hselected⟩ := Dict.mem_select.mp hentry
    obtain ⟨hscope, hlt⟩ := of_decide_eq_true hselected
    obtain rfl : generation = key.canonicalGeneration :=
      Option.some.inj (hget.symm.trans hrecorded)
    exact absurd (hahead hscope) (Nat.not_le.mpr hlt)

theorem generationScope_eq {a b : RepairCursorKey} (h : a.chartScope = b.chartScope) :
    a.generationScope = b.generationScope := by
  obtain ⟨-, hinstrument, hroute, htimeframe⟩ : a.provider = b.provider ∧
      a.instrumentId = b.instrumentId ∧ a.routeFingerprint = b.routeFingerprint ∧
        a.timeframe = b.timeframe := by simpa [RepairCursorKey.chartScope] using h
  unfold RepairCursorKey.generationScope
  rw [hinstrument, hroute, htimeframe]

/-- What is recorded is not admitted. -/
theorem awaitsGeneration_of_recorded {s : HistoryRepairOrchestrator}
    {intent : HistoryRepairIntent} (h : s.Recorded (repairKey intent)) :
    s.awaitsGeneration intent = true := by
  unfold awaitsGeneration
  rw [show s.awaitingGeneration.get? (repairCursorKey intent) = some intent.canonicalGeneration
    from h]
  simp

theorem Inv.schedule (h : s.Inv) (request : HistoryRepairRequest) (onComplete : Bool) (now : ℚ)
    (hahead : request.intent.canonicalGeneration ≤
      s.currentGeneration (repairCursorKey request.intent)) :
    (s.withRepairs (s.repairs.schedule request onComplete now).2).Inv := by
  have hsubmitted := submitted_schedule s.repairs request onComplete now
  have hlaned := (submits_schedule h.laned request onComplete now).laned
  generalize (s.repairs.schedule request onComplete now).2 = t at hsubmitted hlaned
  have hsettled (key : RepairKey) (hkey : t.NoProgress key) : s.Past key ∨
      key.canonicalGeneration = s.currentGeneration key.cursor ∧
        (s.repairs.clearAwaiting request.intent).Recorded key := by
    refine (h.settled key (hsubmitted.noProgress key hkey)).imp_right fun hcurrent =>
      ⟨hcurrent.1, recorded_clearAwaiting hcurrent.2 fun hscope => ?_⟩
    rw [hcurrent.1]
    exact hahead.trans (congrArg s.generation (generationScope_eq hscope).symm).le
  have hold {started : PendingHistoryRepair} (hstarted : started ∈ t.active) :
      started ∈ s.repairs.active ∨ started = s.repairs.admitted request ∧
        (s.repairs.clearAwaiting request.intent).awaitsGeneration request.intent = false := by
    rcases hsubmitted.active with hactive | ⟨hactive, hawaits⟩
    · exact .inl (hactive ▸ hstarted)
    · rw [hactive] at hstarted
      exact (List.mem_append.mp hstarted).imp_right fun hnew => ⟨List.mem_singleton.mp hnew, hawaits⟩
  refine ⟨hlaned, fun serial hserial => (mem_fetching_withRepairs hserial).2, fun key hkey => ?_,
    fun started hstarted hkey => ?_, fun started hstarted hfetching => ?_⟩
  · exact (hsettled key hkey).imp_right fun hcurrent =>
      ⟨hcurrent.1, hcurrent.2.congr hsubmitted.awaiting⟩
  · rcases hold hstarted with hstarted | ⟨rfl, hawaits⟩
    · exact h.active started hstarted (hsubmitted.noProgress _ hkey)
    · refine (hsettled _ hkey).resolve_right fun hcurrent => ?_
      have hrecorded : (s.repairs.clearAwaiting request.intent).Recorded (repairKey request.intent) :=
        hcurrent.2
      rw [awaitsGeneration_of_recorded hrecorded] at hawaits
      exact absurd hawaits (by simp)
  · have hmem := h.old_of_fetching ((hold hstarted).imp_right fun hnew hserial => ?_) hfetching
    · obtain ⟨hle, hmost⟩ := h.fetched started hmem (mem_fetching_withRepairs hfetching).1
      exact ⟨hle, fun generation hkey => hmost generation (hsubmitted.noProgress _ hkey)⟩
    · obtain ⟨other, hother, heq⟩ := List.mem_map.mp hserial
      exact (h.laned.sound.fresh other (.inl hother)).ne (heq.trans (congrArg _ hnew.1))

/-! ### A task that finishes -/

theorem noProgress_finish {s : HistoryRepairOrchestrator} {outcome : HistoryRepairOutcome}
    {now : ℚ} (hintent : outcome.intent = request.intent)
    (h : (s.finish request outcome now).NoProgress key) :
    s.NoProgress key ∨ terminalNoProgress outcome ∧ key = request.taskKey := by
  obtain ⟨ended, hended, hterminal, hkey⟩ := h
  rw [(finish_records s request outcome now).2] at hended
  rcases List.mem_append.mp hended with hended | hended
  · exact .inl ⟨ended, hended, hterminal, hkey⟩
  · rw [List.mem_singleton.mp hended] at hterminal hkey
    exact .inr ⟨hterminal, hkey.symm.trans (congrArg repairKey hintent)⟩

/-- The next request apart, the tasks of the other lanes stay. -/
theorem mem_active_finish {s : HistoryRepairOrchestrator} (h : s.Laned)
    (hactive : request ∈ s.active) {outcome : HistoryRepairOutcome} {now : ℚ}
    {started : PendingHistoryRepair} (hstarted : started ∈ (s.finish request outcome now).active) :
    started ∈ s.active ∧ started.provider ≠ request.provider ∨
      s.nextRequest request outcome = some started := by
  have hfinishes : (s.finish request outcome now).active = _ ++
      (s.nextRequest request outcome).toList := (finishes_finish h hactive outcome now).active
  rw [hfinishes] at hstarted
  refine (List.mem_append.mp hstarted).imp (fun hold => ?_) Option.mem_toList.mp
  obtain ⟨hmem, hserial⟩ := List.mem_filter.mp hold
  refine ⟨hmem, fun hprovider => ?_⟩
  have hsame := List.inj_on_of_nodup_map h.sound.one hmem hactive hprovider
  exact absurd (congrArg PendingHistoryRepair.serial hsame) (of_decide_eq_true hserial)

theorem Inv.finish (h : s.Inv) (hactive : request ∈ s.repairs.active)
    {outcome : HistoryRepairOutcome} (now : ℚ) (hintent : outcome.intent = request.intent)
    (hfetched : terminalNoProgress outcome → request.serial ∈ s.fetching)
    (hnext : ∀ next ∈ s.repairs.nextRequest request outcome,
      ¬ (s.repairs.settle request outcome now).Recorded next.taskKey) :
    (s.withRepairs (s.repairs.finish request outcome now)).Inv := by
  have hlaned := (finishes_finish h.laned hactive outcome now).laned
  have hawaiting := (finish_records s.repairs request outcome now).1
  -- the record of this outcome replaces only records of earlier generations
  have hsettled (key : RepairKey) (hkey : (s.repairs.finish request outcome now).NoProgress key) :
      s.Past key ∨ key.canonicalGeneration = s.currentGeneration key.cursor ∧
        (s.repairs.settle request outcome now).Recorded key := by
    unfold Recorded
    rw [get?_awaitingGeneration_settle]
    by_cases hrecords : terminalNoProgress outcome = true ∧ key.cursor = request.taskKey.cursor
    · obtain ⟨hterminal, hcursor⟩ := hrecords
      obtain ⟨hle, hmost⟩ := h.fetched request hactive (hfetched hterminal)
      have hcurrent : request.intent.canonicalGeneration ≤ s.currentGeneration key.cursor :=
        hcursor ▸ hle
      have hbelow : key.canonicalGeneration ≤ request.intent.canonicalGeneration := by
        rcases noProgress_finish hintent hkey with hkey | ⟨-, rfl⟩
        · exact hmost _ (hcursor ▸ hkey)
        · exact le_rfl
      rw [if_pos ⟨hterminal, hcursor⟩, Option.some.injEq]
      unfold Past
      omega
    · rw [if_neg hrecords]
      refine h.settled key ((noProgress_finish hintent hkey).resolve_right fun hnew => ?_)
      exact hrecords ⟨hnew.1, congrArg RepairKey.cursor hnew.2⟩
  have hother {started : PendingHistoryRepair} (hprovider : started.provider ≠ request.provider)
      {generation : ℕ} (hkey : (s.repairs.finish request outcome now).NoProgress
        ⟨started.taskKey.cursor, generation⟩) :
      s.repairs.NoProgress ⟨started.taskKey.cursor, generation⟩ :=
    (noProgress_finish hintent hkey).resolve_right fun hnew =>
      hprovider (congrArg (fun key => key.cursor.provider) hnew.2)
  refine ⟨hlaned, fun serial hserial => (mem_fetching_withRepairs hserial).2, fun key hkey => ?_,
    fun started hstarted hkey => ?_, fun started hstarted hfetching => ?_⟩
  · exact (hsettled key hkey).imp_right fun hcurrent =>
      ⟨hcurrent.1, hcurrent.2.congr hawaiting⟩
  · rcases mem_active_finish h.laned hactive hstarted with ⟨hold, hprovider⟩ | hstarts
    · exact h.active started hold (hother hprovider hkey)
    · exact (hsettled _ hkey).resolve_right fun hcurrent => hnext started hstarts hcurrent.2
  · rcases mem_active_finish h.laned hactive hstarted with ⟨hold, hprovider⟩ | hstarts
    · obtain ⟨hle, hmost⟩ := h.fetched started hold (mem_fetching_withRepairs hfetching).1
      exact ⟨hle, fun generation hkey => hmost generation (hother hprovider hkey)⟩
    · exact absurd (h.fetching _ (mem_fetching_withRepairs hfetching).1)
        (nextRequest_serial h.laned hstarts)

/-! ### Runs -/

theorem Inv.fetch (h : s.Inv) (hactive : request ∈ s.repairs.active)
    (hcurrent : s.currentGeneration request.taskKey.cursor = request.intent.canonicalGeneration) :
    ({ s with fetching := request.serial :: s.fetching } : HistoryRepairRuntime).Inv := by
  refine ⟨h.laned, fun serial hserial => ?_, h.settled, h.active,
    fun started hstarted hfetching => ?_⟩
  · rcases List.mem_cons.mp hserial with rfl | hserial
    · exact List.mem_map_of_mem hactive
    · exact h.fetching serial hserial
  · rcases List.mem_cons.mp hfetching with hserial | hfetching
    · obtain rfl := List.inj_on_of_nodup_map h.laned.sound.serials hstarted hactive hserial
      exact ⟨hcurrent.ge, fun generation hkey => (h.generation_le hkey).trans hcurrent.le⟩
    · exact h.fetched started hstarted hfetching

/-- Generations grow. -/
theorem Inv.advance (h : s.Inv) {generation : GenerationScope → ℕ}
    (hle : ∀ scope, s.generation scope ≤ generation scope) :
    ({ s with generation := generation } : HistoryRepairRuntime).Inv := by
  have hpast {key : RepairKey} (hkey : s.Past key) :
      Past { s with generation := generation } key := Nat.lt_of_lt_of_le hkey (hle _)
  refine ⟨h.laned, h.fetching, fun key hkey => ?_,
    fun started hstarted hkey => hpast (h.active started hstarted hkey),
    fun started hstarted hfetching => ?_⟩
  · rcases h.settled key hkey with hkey | ⟨heq, hrecorded⟩
    · exact .inl (hpast hkey)
    · refine (Nat.lt_or_eq_of_le (heq.trans_le (hle _))).imp id fun hcurrent => ?_
      exact ⟨hcurrent, hrecorded⟩
  · obtain ⟨hcurrent, hmost⟩ := h.fetched started hstarted hfetching
    exact ⟨hcurrent.trans (hle _), hmost⟩

theorem Step.inv {a : Act} (h : s.Inv) (hok : StartsUnrecorded s a) (hstep : Step s a t) :
    t.Inv := by
  cases hstep with
  | fetch request hactive hnew hcurrent => exact h.fetch hactive hcurrent
  | advance scope generation hlater =>
    refine h.advance fun other => ?_
    by_cases hscope : other = scope
    · subst hscope
      rw [Function.update_self]
      exact hlater.le
    · rw [Function.update_of_ne hscope]
  | repairs hstep hfetched =>
    cases hstep with
    | schedule request onComplete now => exact h.schedule request onComplete now hok
    | finish request outcome now hactive hintent =>
      exact h.finish hactive now hintent (hfetched _ _ _ rfl) (hok request hactive rfl)
    | cancel request now hactive =>
      obtain ⟨hawaiting, hnoProgress⟩ := keeps_finishCancelled s.repairs request now
      have hfinishes := finishes_cancelled h.laned hactive now
      refine h.keep hfinishes.laned hawaiting hnoProgress fun started hstarted => ?_
      rw [hfinishes.active, Option.toList_none, List.append_nil] at hstarted
      exact List.mem_of_mem_filter hstarted
    | call i call hdue => exact h.keep (h.laned.congr rfl) rfl (fun _ hkey => hkey) fun _ hr => hr
    | latestOutcome intent =>
      have hkeeps := keeps_latestOutcome s.repairs intent
      exact h.keep (h.laned.congr (latestOutcome_lanes s.repairs intent)) hkeeps.awaiting
        hkeeps.noProgress fun _ hr => hkeeps.active ▸ hr

/-- **No futile fetch.** In every run with no submission ahead of its chart and no task that starts
a recorded request after it, a provider is called only for a cursor whose chart has left every
generation behind at which a request for it ended without progress. -/
theorem no_futile_fetch {generation : GenerationScope → ℕ} {as : List Act} {serial : ℕ}
    (hrun : Run (Guarded StartsUnrecorded Step) (start generation) as s)
    (hfetch : Step s (.fetch serial) t) :
    ∃ request ∈ s.repairs.active, request.serial = serial ∧
      ∀ g, s.repairs.NoProgress ⟨request.taskKey.cursor, g⟩ →
        g < s.currentGeneration request.taskKey.cursor := by
  have hinv : Inv s := hrun.invariant (fun _ _ _ h hstep => hstep.2.inv h hstep.1) (.start _)
  cases hfetch with
  | fetch request hactive hnew hcurrent =>
    refine ⟨request, hactive, rfl, fun g hkey => ?_⟩
    refine Nat.lt_of_le_of_ne (hinv.generation_le hkey) fun heq => ?_
    obtain rfl : g = request.intent.canonicalGeneration := heq.trans hcurrent
    exact absurd (hinv.active request hactive hkey) (Nat.not_lt.mpr hcurrent.le)

theorem Step.schedule (s : HistoryRepairRuntime) (request : HistoryRepairRequest)
    (onComplete : Bool) (now : ℚ) : Step s (.repairs (.schedule request onComplete now))
      (s.withRepairs (s.repairs.schedule request onComplete now).2) :=
  .repairs (.schedule ..) fun _ _ _ h => nomatch h

theorem Step.finish (request : PendingHistoryRepair) (outcome : HistoryRepairOutcome) (now : ℚ)
    (hactive : request ∈ s.repairs.active) (hintent : outcome.intent = request.intent)
    (hfetched : terminalNoProgress outcome → request.serial ∈ s.fetching) :
    Step s (.repairs (.finish request.serial outcome now))
      (s.withRepairs (s.repairs.finish request outcome now)) := by
  refine .repairs (.finish request outcome now hactive hintent) fun serial other time heq h => ?_
  cases heq
  exact hfetched h

/-- The chart of the chunks. -/
def demoScope : GenerationScope := ("demo:1", "route", "1m")

/-- A task has called its provider. -/
def demoFetching : HistoryRepairRuntime :=
  ⟨(HistoryRepairOrchestrator.initial.schedule ⟨true, demoBackground, 1⟩ false 0).2, fun _ => 0,
    [0]⟩

theorem demoFetching_run : Run (Guarded StartsUnrecorded Step) (start fun _ => 0)
    [.repairs (.schedule ⟨true, demoBackground, 1⟩ false 0), .fetch 0] demoFetching := by
  refine .cons ⟨by decide +kernel, .schedule ..⟩ (.cons ⟨trivial, ?_⟩ (.nil _))
  exact .fetch ⟨⟨true, demoBackground, 1⟩, 0⟩ (by decide +kernel) (by decide +kernel)
    (by decide +kernel)

def demoAgain : HistoryRepairIntent := { demoBackground with canonicalGeneration := 1 }

/-- The chunk ended without progress, its chart advanced and it was submitted again. -/
def demoAdvanced : HistoryRepairRuntime :=
  let s := demoFetching.withRepairs (demoFetching.repairs.finish ⟨⟨true, demoBackground, 1⟩, 0⟩
    { status := .noChange, intent := demoBackground } 1)
  let s := { s with generation := Function.update s.generation demoScope 1 }
  s.withRepairs (s.repairs.schedule ⟨true, demoAgain, 1⟩ false 2).2

/-- It is fetched again. -/
theorem no_futile_fetch_advanced :
    ∃ t, Step demoAdvanced (.fetch 1) t ∧ ∃ request ∈ demoAdvanced.repairs.active,
      request.serial = 1 ∧ ∀ g, demoAdvanced.repairs.NoProgress ⟨request.taskKey.cursor, g⟩ →
        g < demoAdvanced.currentGeneration request.taskKey.cursor := by
  have hrun : Run (Guarded StartsUnrecorded Step) demoFetching
      [.repairs (.finish 0 { status := .noChange, intent := demoBackground } 1),
        .advance demoScope 1, .repairs (.schedule ⟨true, demoAgain, 1⟩ false 2)] demoAdvanced :=
    .cons ⟨by decide +kernel, .finish ⟨⟨true, demoBackground, 1⟩, 0⟩ _ 1 (by decide +kernel) rfl
      fun _ => List.mem_singleton_self 0⟩ <|
    .cons ⟨trivial, .advance demoScope 1 (by decide +kernel)⟩ <|
    .cons ⟨by decide +kernel, .schedule ..⟩ <| .nil _
  have hfetch := Step.fetch (s := demoAdvanced) ⟨⟨true, demoAgain, 1⟩, 1⟩ (by decide +kernel)
    (by decide +kernel) (by decide +kernel)
  exact ⟨_, hfetch, no_futile_fetch (demoFetching_run.append hrun) hfetch⟩

/-- The next chunk of the target. -/
def demoChunk : HistoryRepairIntent :=
  { demoIntent 80 90 .background (by decide) (by decide) with canonicalGeneration := 1 }

def demoCommitted : HistoryRepairOutcome :=
  { status := .committed, intent := demoBackground, writtenBars := 10, generation := some 1 }

def demoFailed : HistoryRepairOutcome :=
  { status := .noChange, intent := demoChunk, generation := some 1 }

/-- While the chunk commits, its next chunk is submitted for the new generation. The task continues
with that chunk and ends without progress; then the queued request starts. -/
def demoQueued : HistoryRepairRuntime :=
  let s := { demoFetching with generation := Function.update demoFetching.generation demoScope 1 }
  let s := s.withRepairs (s.repairs.schedule ⟨true, demoChunk, 1⟩ false 0).2
  let s := s.withRepairs (s.repairs.finish ⟨⟨true, demoBackground, 1⟩, 0⟩ demoCommitted 1)
  let s := { s with fetching := 2 :: s.fetching }
  s.withRepairs (s.repairs.finish ⟨⟨true, demoChunk, 1⟩, 2⟩ demoFailed 2)

/-- It fetches the chunk again. -/
theorem futile_fetch :
    ∃ as s t, Run Step (start fun _ => 0) as s ∧ Step s (.fetch 1) t ∧
      ∃ request ∈ s.repairs.active, request.serial = 1 ∧
        ∃ g, s.repairs.NoProgress ⟨request.taskKey.cursor, g⟩ ∧
          ¬ g < s.currentGeneration request.taskKey.cursor := by
  have hrun : Run Step demoFetching
      [.advance demoScope 1, .repairs (.schedule ⟨true, demoChunk, 1⟩ false 0),
        .repairs (.finish 0 demoCommitted 1), .fetch 2, .repairs (.finish 2 demoFailed 2)]
      demoQueued :=
    .cons (.advance demoScope 1 (by decide +kernel)) <|
    .cons (.schedule ..) <|
    .cons (.finish ⟨⟨true, demoBackground, 1⟩, 0⟩ _ 1 (by decide +kernel) rfl
      fun h => absurd h (by decide)) <|
    .cons (.fetch ⟨⟨true, demoChunk, 1⟩, 2⟩ (by decide +kernel) (by decide +kernel)
      (by decide +kernel)) <|
    .cons (.finish ⟨⟨true, demoChunk, 1⟩, 2⟩ _ 2 (by decide +kernel) rfl
      fun _ => List.mem_cons_self) <| .nil _
  have hfetch := Step.fetch (s := demoQueued) ⟨⟨true, demoChunk, 1⟩, 1⟩ (by decide +kernel)
    (by decide +kernel) (by decide +kernel)
  refine ⟨_, _, _, demoFetching_run.unguard.append hrun, hfetch, ⟨⟨true, demoChunk, 1⟩, 1⟩,
    by decide +kernel, rfl, 1, ⟨(2, demoFailed), ?_, by decide, rfl⟩, by decide +kernel⟩
  decide +kernel

end HistoryRepairRuntime

end AefTerminal
