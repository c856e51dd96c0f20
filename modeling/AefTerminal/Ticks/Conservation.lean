import AefTerminal.Foundation.LossyQueue
import AefTerminal.Ticks.Buffer

/-!
# No tick vanishes from the buffer

The aggregator is a queue that may lose items: every method is a few of its moves, as long as the
executor takes the batches that a flush detaches. A flush that finds the executor shut down raises
after it took its batch, and the ticks of that batch are counted nowhere. A stop that overlaps a
flush makes this possible: the batch may return to the buffer after the stop has emptied it.

## Main results

* `TickBuffer.Step.advances`: every step is a few moves of the queue
* `TickBuffer.ticks_conserved`, `TickBuffer.batch_vanishes`
-/

namespace AefTerminal

open Foundation

namespace TickBuffer

variable {Tick : Type} {config : TickBufferConfig} {s t u : TickBuffer Tick}

/-- The buffer as a queue that may lose items. -/
def ledger (s : TickBuffer Tick) : LossyQueue (OfferedTick Tick) :=
  ⟨s.offers, s.acceptedTicks, s.buffer, s.flightTicks, s.writtenTicks, s.droppedTicks, s.handed⟩

/-- The counters, the bound, and what is known of the ticks of a write of unknown outcome. -/
structure Counted (config : TickBufferConfig) (s : TickBuffer Tick) : Prop where
  accepted : s.accepted = s.acceptedTicks.length
  written : s.written = s.writtenTicks.length
  dropped : s.dropped = s.droppedTicks.length
  bound : s.buffer.length ≤ config.maxBuffer
  unknown : s.unknown ⊆ s.droppedTicks
  serials : ∀ x ∈ s.offers, x.serial < s.offers.length

/-- The ticks move in the queue, and none is offered. -/
structure Advances (config : TickBufferConfig) (s t : TickBuffer Tick) : Prop where
  moves : s.ledger.Moves t.ledger
  counted : s.Counted config → t.Counted config
  offers : t.offers = s.offers

theorem Advances.refl (s : TickBuffer Tick) : Advances config s s := ⟨.refl, id, rfl⟩

theorem Advances.trans (h : Advances config s t) (h' : Advances config t u) :
    Advances config s u :=
  ⟨h.moves.trans h'.moves, h'.counted ∘ h.counted, h'.offers.trans h.offers⟩

/-! ### Drops -/

@[simp] theorem ledger_recordDrop (reason : String) (ticks : List (OfferedTick Tick)) :
    (s.recordDrop reason ticks).ledger = { s.ledger with lost := s.droppedTicks ++ ticks } := by
  unfold recordDrop
  split
  · have hnil : ticks = [] := List.length_eq_zero_iff.mp (by omega)
    simp [hnil, ledger]
  · rfl

theorem Counted.recordDrop (h : s.Counted config) (reason : String)
    (ticks : List (OfferedTick Tick)) : (s.recordDrop reason ticks).Counted config := by
  unfold TickBuffer.recordDrop
  split
  · exact h
  · exact ⟨h.accepted, h.written, by simp [h.dropped], h.bound,
      List.Subset.trans h.unknown (List.subset_append_left _ _), h.serials⟩

@[simp] theorem recordDrop_droppedTicks (reason : String) (ticks : List (OfferedTick Tick)) :
    (s.recordDrop reason ticks).droppedTicks = s.droppedTicks ++ ticks :=
  congrArg LossyQueue.lost (ledger_recordDrop reason ticks)

@[simp] theorem recordDrop_offers (reason : String) (ticks : List (OfferedTick Tick)) :
    (s.recordDrop reason ticks).offers = s.offers :=
  congrArg LossyQueue.offered (ledger_recordDrop reason ticks)

theorem advances_dropBuffered (reason : String) : Advances config s (s.dropBuffered reason) := by
  refine ⟨.single ?_, fun h => ?_, recordDrop_offers _ _⟩
  · rw [dropBuffered, ledger_recordDrop]
    exact .clear
  · have hempty : Counted config { s with buffer := [] } :=
      ⟨h.accepted, h.written, h.dropped, Nat.zero_le _, h.unknown, h.serials⟩
    exact hempty.recordDrop reason s.buffer

/-! ### Offers -/

theorem Counted.fresh (h : s.Counted config) (tick : Tick) : s.nextOffer tick ∉ s.offers :=
  fun hmem => Nat.lt_irrefl _ (h.serials _ hmem)

theorem Counted.offer (h : s.Counted config) (tick : Tick) : (s.offer tick).Counted config := by
  refine ⟨h.accepted, h.written, h.dropped, h.bound, h.unknown, fun x hx => ?_⟩
  show x.serial < (s.offers ++ [s.nextOffer tick]).length
  rw [List.length_append, List.length_singleton]
  rcases List.mem_append.mp hx with hx | hx
  · exact Nat.lt_succ_of_lt (h.serials x hx)
  · rw [List.mem_singleton.mp hx]
    exact Nat.lt_succ_self _

/-- The tick of a call of `add_tick`. -/
def Act.offered? : Act Tick → Option Tick
  | .addTick tick => some tick
  | _ => none

/-- What a step keeps, and what it offers. -/
structure Progress (config : TickBufferConfig) (s : TickBuffer Tick) (a : Act Tick)
    (t : TickBuffer Tick) : Prop where
  moves : s.ledger.Moves t.ledger
  counted : t.Counted config
  offers : t.offers = s.offers ++ (a.offered?.map s.nextOffer).toList

theorem Advances.progress {a : Act Tick} (h : Advances config s t) (hc : s.Counted config)
    (hnone : a.offered? = none) : Progress config s a t :=
  ⟨h.moves, h.counted hc, by rw [hnone, h.offers]; exact (List.append_nil _).symm⟩

theorem progress_refuse (h : s.Counted config) (tick : Tick) (reason : String) :
    Progress config s (.addTick tick)
      ((s.offer tick).recordDrop reason [s.nextOffer tick]) := by
  refine ⟨.single ?_, (h.offer tick).recordDrop _ _, recordDrop_offers _ _⟩
  rw [ledger_recordDrop]
  exact .refuse _ (h.fresh tick)

theorem progress_addTick (h : s.Counted config) (tick : Tick) :
    Progress config s (.addTick tick) (s.addTick config tick).2 := by
  unfold addTick
  split_ifs with hclosed hfull
  · exact progress_refuse h tick _
  · exact progress_refuse h tick _
  · refine ⟨.single (.accept _ (h.fresh tick)), ?_, rfl⟩
    have ho := h.offer tick
    have hroom : (s.buffer ++ [s.nextOffer tick]).length ≤ config.maxBuffer := by
      rw [List.length_append, List.length_singleton]
      omega
    exact ⟨by simp [h.accepted], ho.written, ho.dropped, hroom, ho.unknown, ho.serials⟩

/-! ### Flushes -/

theorem flightTicks_of_free (hfree : s.inFlight = none) : s.flightTicks = [] := by
  rw [flightTicks, hfree]
  rfl

theorem flightTicks_of_flight {caller : FlushCaller} {batch : List (OfferedTick Tick)}
    (hflight : s.inFlight = some (caller, batch)) : s.flightTicks = batch := by
  rw [flightTicks, hflight]
  rfl

/-- The executor takes the batch of a flush that begins here, if there is any. -/
def Submits (s : TickBuffer Tick) : Prop := s.executorClosed = true → s.buffer = []

theorem takeBatch_nil_iff : (s.takeBatch config).1 = [] ↔ s.buffer = [] := by
  have hpos := config.batch_pos
  rw [takeBatch, List.take_eq_nil_iff]
  cases s.buffer with
  | nil => simp
  | cons x l =>
    simp only [List.length_cons, reduceCtorEq, or_false, iff_false]
    omega

variable (config) in
/-- A flush that begins finds nothing, or its batch goes to storage. -/
theorem beginFlush_cases (caller : FlushCaller) (hsubmits : s.Submits) :
    s.beginFlush config caller = (.empty, s) ∨
      s.beginFlush config caller =
        (.submitted, (s.takeBatch config).2.submit caller (s.takeBatch config).1) := by
  unfold beginFlush
  dsimp only
  split_ifs with hnil hclosed
  · exact .inl rfl
  · exact absurd (takeBatch_nil_iff.mpr (hsubmits hclosed)) hnil
  · exact .inr rfl

theorem advances_submit (caller : FlushCaller) (hfree : s.inFlight = none) :
    Advances config s ((s.takeBatch config).2.submit caller (s.takeBatch config).1) := by
  refine ⟨.single (.take _ (flightTicks_of_free hfree)), fun h => ?_, rfl⟩
  have hbound : (s.buffer.drop (min s.buffer.length config.maxBatch)).length ≤ config.maxBuffer :=
    Nat.le_trans (List.drop_sublist _ _).length_le h.bound
  exact ⟨h.accepted, h.written, h.dropped, hbound, h.unknown, h.serials⟩

theorem advances_beginFlush (caller : FlushCaller) (hfree : s.inFlight = none)
    (hsubmits : s.Submits) : Advances config s (s.beginFlush config caller).2 := by
  rcases beginFlush_cases config caller hsubmits with heq | heq
  · rw [heq]
    exact .refl s
  · rw [heq]
    exact advances_submit caller hfree

/-! ### Accounts of a flush -/

/-- Everything that was in flight is where the outcome of its write puts it. -/
structure Accounts (config : TickBufferConfig) (s : TickBuffer Tick)
    (batch : List (OfferedTick Tick)) (outcome : TickWriteOutcome) (t : TickBuffer Tick) :
    Prop where
  move : LossyQueue.Move s.ledger t.ledger
  counted : s.Counted config → t.Counted config
  unknown : t.unknown = s.unknown
  offers : t.offers = s.offers
  lost : outcome.Unknown batch.length → batch ⊆ t.droppedTicks

section

variable {caller : FlushCaller} {batch : List (OfferedTick Tick)} {outcome : TickWriteOutcome}

/-- `t` is `s` with the batch in nobody's hands. -/
structure Detached (config : TickBufferConfig) (s t : TickBuffer Tick) : Prop where
  ledger : t.ledger = { s.ledger with held := [] }
  unknown : t.unknown = s.unknown
  counted : s.Counted config → t.Counted config

theorem Detached.droppedTicks (h : Detached config s t) : t.droppedTicks = s.droppedTicks :=
  congrArg LossyQueue.lost h.ledger

theorem Detached.offers (h : Detached config s t) : t.offers = s.offers :=
  congrArg LossyQueue.offered h.ledger

theorem Detached.buffer (h : Detached config s t) : t.buffer = s.buffer :=
  congrArg LossyQueue.waiting h.ledger

theorem recordDrop_unknown (reason : String) (ticks : List (OfferedTick Tick)) :
    (s.recordDrop reason ticks).unknown = s.unknown := by
  unfold recordDrop
  split
  · rfl
  · rfl

theorem Detached.drop (h : Detached config s t) (hflight : s.inFlight = some (caller, batch))
    (reason : String) : Accounts config s batch outcome (t.recordDrop reason batch) := by
  refine ⟨?_, fun hc => (h.counted hc).recordDrop _ _, ?_, ?_, fun _ => ?_⟩
  · have hmove : LossyQueue.Move s.ledger
        { s.ledger with lost := s.ledger.lost ++ s.ledger.held, held := [] } := .discard
    rw [show s.ledger.held = batch from flightTicks_of_flight hflight] at hmove
    rw [ledger_recordDrop, h.ledger, h.droppedTicks]
    exact hmove
  · rw [recordDrop_unknown, h.unknown]
  · rw [recordDrop_offers, h.offers]
  · rw [recordDrop_droppedTicks]
    exact List.subset_append_right _ _

/-- Only a batch that storage did not commit returns to the buffer. -/
theorem Detached.restore (h : Detached config s t) (hflight : s.inFlight = some (caller, batch))
    (hsafe : ¬ outcome.Unknown batch.length) :
    Accounts config s batch outcome (t.restoreBatch config batch) := by
  refine ⟨?_, fun hc => ?_, ?_, ?_, fun hunknown => absurd hunknown hsafe⟩
  · have hmove : LossyQueue.Move s.ledger _ := .putBack (config.maxBuffer - s.buffer.length)
    rw [show s.ledger.held = batch from flightTicks_of_flight hflight] at hmove
    have hledger : (t.restoreBatch config batch).ledger =
        { t.ledger with
          waiting := batch.take (config.maxBuffer - t.buffer.length) ++ t.buffer
          lost := t.droppedTicks ++ batch.drop (config.maxBuffer - t.buffer.length) } := by
      rw [restoreBatch, ledger_recordDrop]
      rfl
    rw [hledger, h.ledger, h.droppedTicks, h.buffer]
    exact hmove
  · have hc' := h.counted hc
    have hroom : (batch.take (config.maxBuffer - t.buffer.length) ++ t.buffer).length ≤
        config.maxBuffer := by
      have hbound := hc'.bound
      simp only [List.length_append, List.length_take]
      omega
    have hback : Counted config
        { t with buffer := batch.take (config.maxBuffer - t.buffer.length) ++ t.buffer } :=
      ⟨hc'.accepted, hc'.written, hc'.dropped, hroom, hc'.unknown, hc'.serials⟩
    exact hback.recordDrop _ _
  · rw [restoreBatch, recordDrop_unknown]
    exact h.unknown
  · rw [restoreBatch, recordDrop_offers]
    exact h.offers

theorem Detached.settleError (h : Detached config s t)
    (hflight : s.inFlight = some (caller, batch)) (notCommitted retryable : Bool)
    (hsafe : notCommitted = true → ¬ outcome.Unknown batch.length) :
    Accounts config s batch outcome (t.settleError config batch notCommitted retryable) := by
  unfold TickBuffer.settleError
  split_ifs with hretry hcircuit
  · exact h.restore hflight (hsafe (Bool.and_eq_true_iff.mp hretry).1)
  all_goals exact h.drop hflight _

theorem detached_countError (s : TickBuffer Tick) :
    Detached config s { s with inFlight := none }.countError :=
  ⟨rfl, rfl, fun h => ⟨h.accepted, h.written, h.dropped, h.bound, h.unknown, h.serials⟩⟩

theorem accounts_settleFlush (hflight : s.inFlight = some (caller, batch))
    (outcome : TickWriteOutcome) :
    Accounts config s batch outcome
      ({ s with inFlight := none }.settleFlush config batch outcome).2 := by
  have hdetached : Detached config s { s with inFlight := none }.countError :=
    detached_countError s
  cases outcome with
  | batchError commitOutcome retryable =>
    refine hdetached.settleError hflight _ retryable fun hnot hunknown =>
      hunknown.2 ⟨retryable, ?_⟩
    rw [of_decide_eq_true hnot]
  | error | taskCancelled =>
    exact hdetached.settleError hflight false false nofun
  | returned ack =>
    unfold settleFlush
    dsimp only
    split_ifs with hack
    · refine ⟨?_, fun h => ?_, rfl, rfl, fun hunknown => absurd (congrArg _ hack) hunknown.1⟩
      · have hmove : LossyQueue.Move s.ledger _ := .finish
        rw [show s.ledger.held = batch from flightTicks_of_flight hflight] at hmove
        exact hmove
      · exact ⟨h.accepted, by simp [h.written], h.dropped, h.bound, h.unknown, h.serials⟩
    · exact hdetached.drop hflight _

theorem advances_accountFlush (hflight : s.inFlight = some (caller, batch)) :
    Advances config s (s.accountFlush config batch outcome).2 := by
  have h : Accounts config s batch outcome _ := accounts_settleFlush hflight outcome
  refine ⟨.single h.move, fun hc => ?_, h.offers⟩
  have hc' := h.counted hc
  refine ⟨hc'.accepted, hc'.written, hc'.dropped, hc'.bound, ?_, hc'.serials⟩
  show (if outcome.Unknown batch.length then _ ++ batch else _) ⊆ _
  split_ifs with hunknown
  · exact List.append_subset.mpr ⟨hc'.unknown, h.lost hunknown⟩
  · exact hc'.unknown

end

/-! ### Stops -/

theorem advances_setPhase (i : ℕ) (phase : StopPhase) : Advances config s (s.setPhase i phase) :=
  ⟨.refl, fun h => ⟨h.accepted, h.written, h.dropped, h.bound, h.unknown, h.serials⟩, rfl⟩

theorem advances_finishStop (i : ℕ) : Advances config s (s.finishStop i) := by
  have hclose (t : TickBuffer Tick) :
      Advances config t ({ t with executorClosed := true }.setPhase i .finished) :=
    ⟨.refl, fun h => ⟨h.accepted, h.written, h.dropped, h.bound, h.unknown, h.serials⟩, rfl⟩
  unfold finishStop
  dsimp only
  split_ifs with hleft
  · exact (advances_dropBuffered _).trans (hclose _)
  · exact hclose s

theorem advances_drainForShutdown (i : ℕ) : Advances config s (s.drainForShutdown i) := by
  unfold drainForShutdown
  split_ifs with hleft
  · exact advances_setPhase i _
  · exact advances_finishStop i

theorem advances_drained (i count : ℕ) : Advances config s (s.drained i count) := by
  unfold drained
  split_ifs with hnone
  · exact (advances_dropBuffered _).trans (advances_finishStop i)
  · exact advances_drainForShutdown i

theorem advances_stopFlush (i : ℕ) (hfree : s.inFlight = none) (hsubmits : s.Submits) :
    Advances config s (s.stopFlush config i) := by
  unfold stopFlush
  rcases beginFlush_cases config (.stop i) hsubmits with heq | heq
  · rw [heq]
    exact advances_drained i 0
  · rw [heq]
    exact (advances_submit _ hfree).trans (advances_setPhase i _)

theorem advances_resume (caller : FlushCaller) (count : ℕ) (cancelled : Bool) :
    Advances config s (s.resume caller count cancelled) := by
  cases caller with
  | other => exact .refl s
  | stop i =>
    unfold resume
    dsimp only
    split_ifs with hcancelled
    · exact advances_finishStop i
    · exact advances_drained i count

/-! ### Runs -/

/-- A flush that begins here finds the executor open, or nothing to write. -/
def Act.Submits (s : TickBuffer Tick) : Act Tick → Prop
  | .flush | .stopFlush _ => s.Submits
  | _ => True

theorem Step.progress {a : Act Tick} (h : Step config s a t) (hc : s.Counted config)
    (hsubmits : a.Submits s) : Progress config s a t := by
  cases h with
  | addTick tick => exact progress_addTick hc tick
  | flush hfree => exact (advances_beginFlush _ hfree hsubmits).progress hc rfl
  | settle caller batch outcome cancelled hflight =>
    exact ((advances_accountFlush hflight).trans (advances_resume caller _ cancelled)).progress hc rfl
  | stop | start =>
    exact ⟨.refl, ⟨hc.accepted, hc.written, hc.dropped, hc.bound, hc.unknown, hc.serials⟩,
      (List.append_nil _).symm⟩
  | resume i hphase => exact (advances_drainForShutdown i).progress hc rfl
  | stopFlush i hphase hfree => exact (advances_stopFlush i hfree hsubmits).progress hc rfl
  | interrupt i hphase => exact (advances_finishStop i).progress hc rfl

section Conserved

variable [DecidableEq Tick]

/-- Every offered tick is in exactly one place, the places add up, and what is handed over or
written follows the order of acceptance. -/
structure Conserved (config : TickBufferConfig) (s : TickBuffer Tick) : Prop where
  places : s.offers.Perm (s.writtenTicks ++ s.flightTicks ++ s.buffer ++ s.droppedTicks)
  once : s.offers.Nodup
  total : s.offers.length = s.written + s.buffer.length + s.flightTicks.length + s.dropped
  written : s.written = s.writtenTicks.length
  dropped : s.dropped = s.droppedTicks.length
  bound : s.buffer.length ≤ config.maxBuffer
  accepted : s.acceptedTicks.Sublist s.offers
  /-- A batch that storage did not commit may be handed over again: each tick counts where it was
  handed over first. -/
  handed : s.handed.flatten.eraseDups.Sublist s.acceptedTicks
  written_order : s.writtenTicks.Sublist s.acceptedTicks

theorem conserved_of_sound (hc : s.Counted config) (hs : s.ledger.Sound) : s.Conserved config := by
  have hplaces : s.offers.Perm (s.writtenTicks ++ s.flightTicks ++ s.buffer ++ s.droppedTicks) :=
    hs.places
  refine ⟨hplaces, hs.once, ?_, hc.written, hc.dropped, hc.bound, hs.accepted,
    hs.firstHanded_sublist, ?_⟩
  · have hlength := hplaces.length_eq
    simp only [List.length_append] at hlength
    rw [hc.written, hc.dropped]
    omega
  · have horder : (s.writtenTicks ++ s.flightTicks ++ s.buffer).Sublist s.acceptedTicks := hs.order
    rw [List.append_assoc] at horder
    exact (List.sublist_append_left _ _).trans horder

/-- The steps of a run whose flushes all find the executor open, or nothing to write. -/
abbrev SubmittingStep (config : TickBufferConfig) :
    TickBuffer Tick → Act Tick → TickBuffer Tick → Prop :=
  Guarded (fun s a => a.Submits s) (Step config)

/-- The invariant of those runs. -/
def Inv (config : TickBufferConfig) (s : TickBuffer Tick) : Prop :=
  s.Counted config ∧ s.ledger.Sound

theorem inv_initial : (initial : TickBuffer Tick).Inv config :=
  ⟨⟨rfl, rfl, rfl, Nat.zero_le _, List.Subset.refl _, nofun⟩, LossyQueue.sound_empty⟩

theorem inv_step {a : Act Tick} (h : s.Inv config) (hstep : SubmittingStep config s a t) :
    t.Inv config :=
  have hprogress := hstep.2.progress h.1 hstep.1
  ⟨hprogress.counted, hprogress.moves.sound h.2⟩

variable {as : List (Act Tick)}

theorem run_inv (h : Run (SubmittingStep config) s as t) (hs : s.Inv config) : t.Inv config :=
  h.invariant (fun _ _ _ hi hstep => inv_step hi hstep) hs

theorem run_later (h : Run (SubmittingStep config) s as t) (hs : s.Inv config) :
    s.ledger.Later t.ledger :=
  Run.relates (R := fun s t => s.ledger.Later t.ledger) (fun _ _ _ hi hstep => inv_step hi hstep)
    (fun s => .refl s.ledger) (fun _ _ _ => LossyQueue.Later.trans)
    (fun _ _ _ hi hstep => (hstep.2.progress hi.1 hstep.1).moves.later hi.2.toAccounted) h hs

theorem run_offers (h : Run (SubmittingStep config) s as t) (hs : s.Inv config) :
    t.offers.map OfferedTick.tick = s.offers.map OfferedTick.tick ++ as.filterMap Act.offered? := by
  induction h with
  | nil => simp
  | @cons s t u a as hstep _ ih =>
    rw [ih (inv_step hs hstep), (hstep.2.progress hs.1 hstep.1).offers, List.map_append,
      List.append_assoc]
    cases ha : a.offered? with
    | none => simp [ha]
    | some tick => simp [ha, nextOffer]

omit [DecidableEq Tick] in
theorem unknown_not_handed (h : s.ledger.Later t.ledger) (hc : s.Counted config) :
    ∃ batches, t.handed = s.handed ++ batches ∧ ∀ x ∈ s.unknown, x ∉ batches.flatten := by
  obtain ⟨batches, heq, -, hnot⟩ := h
  exact ⟨batches, heq, fun x hx => hnot x (List.mem_append_right _ (hc.unknown hx))⟩

/-- **Conservation.** In every run whose flushes find the executor open or nothing to write, the
offered ticks are conserved, and no tick of unknown outcome is handed over again. -/
theorem ticks_conserved (h : Run (SubmittingStep config) (initial : TickBuffer Tick) as s) :
    s.Conserved config ∧ s.offers.map OfferedTick.tick = as.filterMap Act.offered? ∧
      ∀ {bs : List (Act Tick)} {t : TickBuffer Tick}, Run (SubmittingStep config) s bs t →
        ∃ batches, t.handed = s.handed ++ batches ∧ ∀ x ∈ s.unknown, x ∉ batches.flatten := by
  have hs : s.Inv config := run_inv h inv_initial
  exact ⟨conserved_of_sound hs.1 hs.2, run_offers h inv_initial,
    fun hlater => unknown_not_handed (run_later hlater hs) hs.1⟩

/-- A batch that fails once returns and is written, and a tick that comes meanwhile waits. -/
theorem ticks_conserved_retried :
    ∃ s : TickBuffer ℕ, s.writtenTicks = [⟨0, 7⟩, ⟨1, 8⟩] ∧
      s.Conserved (.ofSettings 2 10) ∧ s.offers.map OfferedTick.tick = [7, 8, 9] := by
  have hrun : Run (SubmittingStep (.ofSettings 2 10)) (initial : TickBuffer ℕ)
      [.addTick 7, .addTick 8, .flush, .addTick 9, .settle (.batchError .notCommitted true) false,
        .flush, .settle (.returned (.int 2)) false] _ :=
    .cons ⟨trivial, .addTick 7⟩ <| .cons ⟨trivial, .addTick 8⟩ <| .cons ⟨nofun, .flush rfl⟩ <|
    .cons ⟨trivial, .addTick 9⟩ <| .cons ⟨trivial, .settle _ _ _ _ rfl⟩ <|
    .cons ⟨nofun, .flush rfl⟩ <| .cons ⟨trivial, .settle _ _ _ _ rfl⟩ <| .nil _
  have h := ticks_conserved hrun
  exact ⟨_, by decide +kernel, h.1, h.2.1⟩

end Conserved

/-- A stop ends while a batch is in flight, the batch fails and returns, and the next flush takes
it and raises: the tick is nowhere, and counted nowhere. -/
theorem batch_vanishes :
    ∃ as, ∃ s : TickBuffer Unit, Run (Step (.ofSettings 1 1)) initial as s ∧
      s.offers = [⟨0, ()⟩] ∧ s.written = 0 ∧ s.buffer = [] ∧ s.flightTicks = [] ∧ s.dropped = 0 ∧
        ¬ s.Conserved (.ofSettings 1 1) := by
  have hrun : Run (Step (.ofSettings 1 1)) (initial : TickBuffer Unit)
      [.addTick (), .flush, .stop, .resume 0, .settle (.batchError .notCommitted true) false,
        .flush] _ :=
    .cons (.addTick ()) <| .cons (.flush rfl) <| .cons .stop <| .cons (.resume 0 rfl) <|
    .cons (.settle _ _ _ _ rfl) <| .cons (.flush rfl) <| .nil _
  refine ⟨_, _, hrun, by decide +kernel, by decide +kernel, by decide +kernel, by decide +kernel,
    by decide +kernel, fun h => ?_⟩
  have htotal := h.total
  revert htotal
  decide +kernel

end TickBuffer

end AefTerminal
