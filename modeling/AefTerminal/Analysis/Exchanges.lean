import AefTerminal.Analysis.ProcessPool
import AefTerminal.Foundation.Locks

/-!
# Exchanges with the analysis processes

A worker is given to one exchange at a time, and it is given back with its envelope read to the end,
or the pool has failed or was stopped and gives nothing out any more. So the exchange that wrote the
`n`-th request of a worker reads the `n`-th envelope of its output.

The envelopes carry no mark of the request. Which response the `n`-th envelope is, is up to the
worker: one that answers each request once is read right, one that writes an envelope too many
shifts all later ones.

## Main definitions

* `PoolInv`: who holds a worker, and where its output is read
* `ExchangesSound`

## Main results

* `exchanges_sound`
* `early_envelope_returned`: an envelope from before the request is taken for its response
-/

namespace AefTerminal

open Foundation

/-! ### Workers -/

namespace AnalysisWorker

/-- Everything that was asked is answered and read. -/
structure Settled (k : AnalysisWorker) : Prop where
  read : skipFrames envelopeHeaderSize envelopePayloadSize k.answered k.output =
    some (k.output.drop k.consumed)
  bound : k.consumed ≤ k.output.length
  asked : k.requests.length = k.answered

/-- The last request is that of `i`, and its envelope comes next. -/
structure Awaits (k : AnalysisWorker) (i : ℕ) : Prop where
  read : skipFrames envelopeHeaderSize envelopePayloadSize k.answered k.output =
    some (k.output.drop k.consumed)
  bound : k.consumed ≤ k.output.length
  asked : k.requests.length = k.answered + 1
  last : k.requests[k.answered]? = some i

/-- The header of the envelope for `i` was read from `base` on. -/
structure ReadsFrom (k : AnalysisWorker) (i : ℕ) (status : UInt8) (size base : ℕ) : Prop where
  read : skipFrames envelopeHeaderSize envelopePayloadSize k.answered k.output =
    some (k.output.drop base)
  consumed : k.consumed = base + envelopeHeaderSize
  bound : k.consumed ≤ k.output.length
  status : status = envelopeStatus ((k.output.drop base).take envelopeHeaderSize)
  size : size = envelopePayloadSize ((k.output.drop base).take envelopeHeaderSize)
  asked : k.requests.length = k.answered + 1
  last : k.requests[k.answered]? = some i

/-- More was written in either direction. -/
structure Grows (k k' : AnalysisWorker) : Prop where
  output : k.output <+: k'.output
  requests : k.requests <+: k'.requests

theorem Grows.refl (k : AnalysisWorker) : k.Grows k := ⟨List.prefix_refl _, List.prefix_refl _⟩

theorem settled_started : started.Settled := ⟨rfl, le_rfl, rfl⟩

variable {base i size : ℕ} {k : AnalysisWorker}

/-- More output changes nothing about what was read. -/
theorem read_append (h : skipFrames envelopeHeaderSize envelopePayloadSize k.answered k.output =
      some (k.output.drop base)) (hbase : base ≤ k.output.length) (bytes : List UInt8) :
    skipFrames envelopeHeaderSize envelopePayloadSize k.answered (k.output ++ bytes) =
      some ((k.output ++ bytes).drop base) := by
  rw [skipFrames_append h, List.drop_append_of_le_length hbase]

theorem Settled.emit (h : k.Settled) (bytes : List UInt8) :
    ({ k with output := k.output ++ bytes } : AnalysisWorker).Settled where
  read := read_append h.read h.bound bytes
  bound := h.bound.trans (by simp)
  asked := h.asked

theorem Awaits.emit (h : k.Awaits i) (bytes : List UInt8) :
    ({ k with output := k.output ++ bytes } : AnalysisWorker).Awaits i where
  read := read_append h.read h.bound bytes
  bound := h.bound.trans (by simp)
  asked := h.asked
  last := h.last

variable {status : UInt8}

theorem ReadsFrom.emit (h : k.ReadsFrom i status size base) (bytes : List UInt8) :
    ({ k with output := k.output ++ bytes } : AnalysisWorker).ReadsFrom i status size base := by
  have hbound := h.bound
  rw [h.consumed] at hbound
  have hheader : ((k.output ++ bytes).drop base).take envelopeHeaderSize =
      (k.output.drop base).take envelopeHeaderSize := by
    rw [List.drop_append_of_le_length (by omega), List.take_append_of_le_length]
    rw [List.length_drop]
    omega
  exact {
    read := read_append h.read (by omega) bytes
    consumed := h.consumed
    bound := h.bound.trans (by simp)
    status := by rw [hheader]; exact h.status
    size := by rw [hheader]; exact h.size
    asked := h.asked
    last := h.last }

/-- The header of the next envelope. -/
theorem Awaits.readHeader (h : k.Awaits i)
    (hlong : k.consumed + envelopeHeaderSize ≤ k.output.length) :
    ({ k with consumed := k.consumed + envelopeHeaderSize } : AnalysisWorker).ReadsFrom i
      (envelopeStatus ((k.output.drop k.consumed).take envelopeHeaderSize))
      (envelopePayloadSize ((k.output.drop k.consumed).take envelopeHeaderSize)) k.consumed where
  read := h.read
  consumed := rfl
  bound := hlong
  status := rfl
  size := rfl
  asked := h.asked
  last := h.last

/-- The envelope that was read completely. -/
theorem ReadsFrom.split
    (h : k.ReadsFrom i status size base) (hlong : k.consumed + size ≤ k.output.length) :
    splitFrame envelopeHeaderSize envelopePayloadSize (k.output.drop base) =
      some (((k.output.drop base).take envelopeHeaderSize, (k.output.drop k.consumed).take size),
        k.output.drop (k.consumed + size)) := by
  have hbound := h.bound
  rw [h.consumed] at hbound hlong
  refine splitFrame_eq_some_iff.mpr ⟨⟨List.length_take_of_le ?_, ?_⟩, ?_⟩
  · rw [List.length_drop]
    omega
  · rw [← h.size, List.length_take_of_le]
    rw [h.consumed, List.length_drop]
    omega
  · dsimp only
    rw [h.consumed, ← List.drop_drop, ← List.drop_drop, ← List.drop_drop, List.append_assoc,
      List.take_append_drop, List.take_append_drop]

theorem ReadsFrom.settled
    (h : k.ReadsFrom i status size base) (hlong : k.consumed + size ≤ k.output.length) :
    ({ k with consumed := k.consumed + size, answered := k.answered + 1 } :
      AnalysisWorker).Settled where
  read := skipFrames_succ h.read (h.split hlong)
  bound := hlong
  asked := h.asked

theorem ReadsFrom.frameAt
    (h : k.ReadsFrom i status size base) (hlong : k.consumed + size ≤ k.output.length) :
    frameAt envelopeHeaderSize envelopePayloadSize k.answered k.output =
      some ((k.output.drop base).take envelopeHeaderSize, (k.output.drop k.consumed).take size) :=
  frameAt_of_skipFrames h.read (h.split hlong)

end AnalysisWorker

/-! ### Who holds a worker -/

namespace ExchangePhase

/-- The worker that was marked busy for the exchange. -/
def holds : ExchangePhase → Option ℕ
  | .admitted w => some w
  | .draining w => some w
  | .header w => some w
  | .payload w .. => some w
  | .failing w _ => some w
  | .releasing w _ => some w
  | _ => none

/-- The request was not written. -/
def pending : ExchangePhase → Bool
  | .queued => true
  | .admitted _ => true
  | _ => false

/-- What `_execute_admitted` has settled on. -/
def outcome : ExchangePhase → Option ExchangeOutcome
  | .failing _ o => some o
  | .releasing _ o => some o
  | .finished o => some o
  | .returned o => some o
  | _ => none

end ExchangePhase

/-- A timeout, or an output that ended or made no sense. -/
def ExchangeOutcome.fault : ExchangeOutcome → Bool
  | .timedOut => true
  | .failed => true
  | _ => false

/-- `r` is in the envelope that has the number of the request of `i`. -/
def EnvelopeFor (workers : List AnalysisWorker) (i : ℕ) (r : AnalysisResult) : Prop :=
  ∃ (w : ℕ) (k : AnalysisWorker) (n : ℕ), workers[w]? = some k ∧ k.requests[n]? = some i ∧
    ∃ header payload, frameAt envelopeHeaderSize envelopePayloadSize n k.output =
      some (header, payload) ∧ envelopeStatus header = envelopeOk ∧ decodeResult payload = some r

/-- What is known of an outcome. -/
structure OutcomeInv (s : ProcessPool) (i : ℕ) (o : ExchangeOutcome) : Prop where
  result : ∀ r, o = .result r → EnvelopeFor s.workers i r
  fault : o.fault = true → s.failed = true

/-- Where the output of the held worker is read. -/
def PhaseInv (s : ProcessPool) (i : ℕ) : ExchangePhase → Prop
  | .queued => True
  | .admitted w => ∃ k, s.workers[w]? = some k ∧ k.busy = true ∧ k.Settled
  | .draining w => ∃ k, s.workers[w]? = some k ∧ k.busy = true ∧ k.Awaits i
  | .header w => ∃ k, s.workers[w]? = some k ∧ k.busy = true ∧ k.Awaits i
  | .payload w status size =>
    ∃ k base, s.workers[w]? = some k ∧ k.busy = true ∧ k.ReadsFrom i status size base
  | .failing w o => ∃ k, s.workers[w]? = some k ∧ k.busy = true ∧ s.failed = true ∧ OutcomeInv s i o
  | .releasing w o => ∃ k, s.workers[w]? = some k ∧ k.busy = true ∧
      (s.failed = false → s.stopped = false → k.Settled) ∧ OutcomeInv s i o
  | .finished o => OutcomeInv s i o
  | .returned o => OutcomeInv s i o

def requestOf (s : ProcessPool) (j : ℕ) : List UInt8 :=
  (s.executions[j]?.map (·.request)).getD []

structure PoolInv (s : ProcessPool) : Prop where
  phases : ∀ (i : ℕ) e, s.executions[i]? = some e → PhaseInv s i e.phase
  alone : ∀ (i j : ℕ) e d w, s.executions[i]? = some e → s.executions[j]? = some d →
    e.phase.holds = some w → d.phase.holds = some w → i = j
  idle : ∀ (w : ℕ) k, s.workers[w]? = some k → k.busy = false → s.failed = false →
    s.stopped = false → k.Settled
  written : ∀ (w : ℕ) k j, s.workers[w]? = some k → j ∈ k.requests →
    ∃ e, s.executions[j]? = some e ∧ e.phase.pending = false
  once : ∀ (w : ℕ) k, s.workers[w]? = some k → k.requests.Nodup
  apart : ∀ (w w' : ℕ) k k' j, s.workers[w]? = some k → s.workers[w']? = some k' →
    j ∈ k.requests → j ∈ k'.requests → w = w'
  input : ∀ (w : ℕ) k, s.workers[w]? = some k →
    k.input = k.requests.flatMap fun j => requestFrame (requestOf s j)

/-- No worker lost what it wrote or what it was asked. -/
def WorkersGrow (workers workers' : List AnalysisWorker) : Prop :=
  ∀ (w : ℕ) k, workers[w]? = some k → ∃ k', workers'[w]? = some k' ∧ k.Grows k'

theorem WorkersGrow.refl (workers : List AnalysisWorker) : WorkersGrow workers workers :=
  fun _ k hk => ⟨k, hk, .refl k⟩

theorem WorkersGrow.set {workers : List AnalysisWorker} {w : ℕ} {k k' : AnalysisWorker}
    (hk : workers[w]? = some k) (hgrow : k.Grows k') : WorkersGrow workers (workers.set w k') := by
  intro v l hl
  by_cases hv : v = w
  · subst hv
    cases (hk.symm.trans hl)
    exact ⟨k', Locks.getElem?_set_self_of hk, hgrow⟩
  · exact ⟨l, by rwa [List.getElem?_set_ne (Ne.symm hv)], .refl l⟩

variable {i : ℕ}

theorem EnvelopeFor.mono {workers workers' : List AnalysisWorker} {r : AnalysisResult}
    (h : EnvelopeFor workers i r) (hgrow : WorkersGrow workers workers') :
    EnvelopeFor workers' i r := by
  obtain ⟨w, k, n, hk, hn, header, payload, hframe, hstatus, hdecode⟩ := h
  obtain ⟨k', hk', ⟨more, hmore⟩, ⟨later, hlater⟩⟩ := hgrow w k hk
  refine ⟨w, k', n, hk', ?_, header, payload, ?_, hstatus, hdecode⟩
  · rw [← hlater, List.getElem?_append_left (List.getElem?_eq_some_iff.mp hn).1]
    exact hn
  · rw [← hmore]
    exact frameAt_append hframe more

section Frame

variable {s s' : ProcessPool}

theorem OutcomeInv.mono {i : ℕ} {o : ExchangeOutcome} (h : OutcomeInv s i o)
    (hgrow : WorkersGrow s.workers s'.workers) (hfailed : s.failed = true → s'.failed = true) :
    OutcomeInv s' i o :=
  ⟨fun r hr => (h.result r hr).mono hgrow, fun hfault => hfailed (h.fault hfault)⟩

/-- What is known of an exchange stays known while nobody touches its worker. -/
theorem PhaseInv.mono {i : ℕ} {p : ExchangePhase} (h : PhaseInv s i p)
    (hsame : ∀ w, p.holds = some w → s'.workers[w]? = s.workers[w]?)
    (hgrow : WorkersGrow s.workers s'.workers) (hfailed : s.failed = true → s'.failed = true)
    (hstopped : s.stopped = true → s'.stopped = true) : PhaseInv s' i p := by
  cases p with
  | queued => trivial
  | admitted w =>
    obtain ⟨k, hk, hrest⟩ := h
    exact ⟨k, (hsame w rfl).trans hk, hrest⟩
  | draining w =>
    obtain ⟨k, hk, hrest⟩ := h
    exact ⟨k, (hsame w rfl).trans hk, hrest⟩
  | header w =>
    obtain ⟨k, hk, hrest⟩ := h
    exact ⟨k, (hsame w rfl).trans hk, hrest⟩
  | payload w status size =>
    obtain ⟨k, base, hk, hrest⟩ := h
    exact ⟨k, base, (hsame w rfl).trans hk, hrest⟩
  | failing w o =>
    obtain ⟨k, hk, hbusy, hdead, ho⟩ := h
    exact ⟨k, (hsame w rfl).trans hk, hbusy, hfailed hdead, ho.mono hgrow hfailed⟩
  | releasing w o =>
    obtain ⟨k, hk, hbusy, hsettled, ho⟩ := h
    refine ⟨k, (hsame w rfl).trans hk, hbusy, fun hf hst => ?_, ho.mono hgrow hfailed⟩
    refine hsettled (Bool.eq_false_iff.mpr fun ht => ?_) (Bool.eq_false_iff.mpr fun ht => ?_)
    · exact absurd ((hfailed ht).symm.trans hf) (by simp)
    · exact absurd ((hstopped ht).symm.trans hst) (by simp)
  | finished o => exact OutcomeInv.mono h hgrow hfailed
  | returned o => exact OutcomeInv.mono h hgrow hfailed

end Frame

theorem PhaseInv.busy {s : ProcessPool} {w : ℕ} {p : ExchangePhase} (h : PhaseInv s i p)
    (hw : p.holds = some w) : ∃ k, s.workers[w]? = some k ∧ k.busy = true := by
  cases p <;> simp only [ExchangePhase.holds, Option.some.injEq, reduceCtorEq] at hw <;> subst hw
  case payload =>
    obtain ⟨k, _, hk, hbusy, -⟩ := h
    exact ⟨k, hk, hbusy⟩
  all_goals
    obtain ⟨k, hk, hbusy, -⟩ := h
    exact ⟨k, hk, hbusy⟩

theorem requestOf_set {s : ProcessPool} {e e' : Execution} {workers : List AnalysisWorker}
    {failed stopped : Bool} (he : s.executions[i]? = some e) (hrequest : e'.request = e.request)
    (j : ℕ) : requestOf ⟨workers, s.executions.set i e', failed, stopped⟩ j = requestOf s j := by
  rw [requestOf, requestOf]
  by_cases hj : j = i
  · subst hj
    dsimp only
    rw [Locks.getElem?_set_self_of he, he, Option.map_some, Option.map_some, hrequest]
  · dsimp only
    rw [List.getElem?_set_ne (Ne.symm hj)]

/-! ### Three kinds of steps -/

namespace PoolInv

variable {s : ProcessPool}

variable {i w : ℕ} {e : Execution}

/-- An exchange moves on and leaves the workers alone. -/
theorem rephase (h : PoolInv s) {e' : Execution} (he : s.executions[i]? = some e)
    {failed stopped : Bool} (hfailed : s.failed = true → failed = true)
    (hstopped : s.stopped = true → stopped = true) (hrequest : e'.request = e.request)
    (hholds : ∀ w, e'.phase.holds = some w → e.phase.holds = some w)
    (hpending : e'.phase.pending = true → e.phase.pending = true)
    (hphase : PhaseInv ⟨s.workers, s.executions.set i e', failed, stopped⟩ i e'.phase) :
    PoolInv ⟨s.workers, s.executions.set i e', failed, stopped⟩ := by
  have hold {j w : ℕ} {d : Execution} (hd : (s.executions.set i e')[j]? = some d)
      (hw : d.phase.holds = some w) :
      ∃ d', s.executions[j]? = some d' ∧ d'.phase.holds = some w := by
    rcases Locks.getElem?_set_cases hd with ⟨rfl, rfl⟩ | ⟨-, hd⟩
    · exact ⟨e, he, hholds w hw⟩
    · exact ⟨d, hd, hw⟩
  refine ⟨fun j d hd => ?_, fun j l d d' w hd hd' hw hw' => ?_, fun w k hk hbusy hf hst => ?_,
    fun w k j hk hj => ?_, h.once, h.apart, fun w k hk => ?_⟩
  · rcases Locks.getElem?_set_cases hd with ⟨rfl, rfl⟩ | ⟨-, hd⟩
    · exact hphase
    · exact (h.phases j d hd).mono (fun _ _ => rfl) (.refl _) hfailed hstopped
  · obtain ⟨c, hc, hcw⟩ := hold hd hw
    obtain ⟨c', hc', hcw'⟩ := hold hd' hw'
    exact h.alone j l c c' w hc hc' hcw hcw'
  · refine h.idle w k hk hbusy (Bool.eq_false_iff.mpr fun ht => ?_)
      (Bool.eq_false_iff.mpr fun ht => ?_)
    · exact absurd ((hfailed ht).symm.trans hf) (by simp)
    · exact absurd ((hstopped ht).symm.trans hst) (by simp)
  · obtain ⟨d, hd, hwritten⟩ := h.written w k j hk hj
    by_cases hji : j = i
    · subst hji
      cases (he.symm.trans hd)
      refine ⟨e', Locks.getElem?_set_self_of he, Bool.eq_false_iff.mpr fun ht => ?_⟩
      exact absurd ((hpending ht).symm.trans hwritten) (by simp)
    · exact ⟨d, by rwa [List.getElem?_set_ne (Ne.symm hji)], hwritten⟩
  · have hinput := h.input w k hk
    simp only [requestOf_set he hrequest]
    exact hinput

variable {k : AnalysisWorker}

/-- A worker writes or ends, whoever holds it. -/
theorem touch (h : PoolInv s) {k' : AnalysisWorker} (hk : s.workers[w]? = some k)
    (hrequests : k'.requests = k.requests) (hinput : k'.input = k.input)
    (houtput : k.output <+: k'.output) (hbusy : k'.busy = k.busy)
    (hsettled : k.Settled → k'.Settled) (hawaits : ∀ i, k.Awaits i → k'.Awaits i)
    (hreads : ∀ i status size base, k.ReadsFrom i status size base →
      k'.ReadsFrom i status size base) :
    PoolInv (s.setWorker w k') := by
  have hgrow : WorkersGrow s.workers (s.setWorker w k').workers :=
    .set hk ⟨houtput, hrequests ▸ List.prefix_refl _⟩
  have hback {v : ℕ} {l : AnalysisWorker} (hl : (s.setWorker w k').workers[v]? = some l) :
      ∃ l', s.workers[v]? = some l' ∧ l.requests = l'.requests ∧ l.input = l'.input ∧
        l.busy = l'.busy ∧ (l'.Settled → l.Settled) := by
    rcases Locks.getElem?_set_cases hl with ⟨rfl, rfl⟩ | ⟨-, hl⟩
    · exact ⟨k, hk, hrequests, hinput, hbusy, hsettled⟩
    · exact ⟨l, hl, rfl, rfl, rfl, id⟩
  have hfront {v : ℕ} {l : AnalysisWorker} (hl : s.workers[v]? = some l) :
      ∃ l', (s.setWorker w k').workers[v]? = some l' ∧ l'.busy = l.busy ∧
        (l.Settled → l'.Settled) ∧ (∀ i, l.Awaits i → l'.Awaits i) ∧
        ∀ i status size base, l.ReadsFrom i status size base →
          l'.ReadsFrom i status size base := by
    by_cases hv : v = w
    · subst hv
      cases (hk.symm.trans hl)
      exact ⟨k', Locks.getElem?_set_self_of hk, hbusy, hsettled, hawaits, hreads⟩
    · refine ⟨l, ?_, rfl, id, fun _ => id, fun _ _ _ _ => id⟩
      exact (List.getElem?_set_ne (Ne.symm hv)).trans hl
  refine ⟨fun j d hd => ?_, h.alone, fun v l hl hb hf hst => ?_, fun v l j hl hj => ?_,
    fun v l hl => ?_, fun v v' l l' j hl hl' hj hj' => ?_, fun v l hl => ?_⟩
  · have hp := h.phases j d hd
    cases hphase : d.phase <;> rw [hphase] at hp
    case queued => trivial
    case admitted v =>
      obtain ⟨l, hl, hb, hs⟩ := hp
      obtain ⟨l', hl', hb', hs', -⟩ := hfront hl
      exact ⟨l', hl', hb'.trans hb, hs' hs⟩
    case draining v =>
      obtain ⟨l, hl, hb, hs⟩ := hp
      obtain ⟨l', hl', hb', -, hs', -⟩ := hfront hl
      exact ⟨l', hl', hb'.trans hb, hs' j hs⟩
    case header v =>
      obtain ⟨l, hl, hb, hs⟩ := hp
      obtain ⟨l', hl', hb', -, hs', -⟩ := hfront hl
      exact ⟨l', hl', hb'.trans hb, hs' j hs⟩
    case payload v status size =>
      obtain ⟨l, base, hl, hb, hs⟩ := hp
      obtain ⟨l', hl', hb', -, -, hs'⟩ := hfront hl
      exact ⟨l', base, hl', hb'.trans hb, hs' j _ _ _ hs⟩
    case failing v o =>
      obtain ⟨l, hl, hb, hf, ho⟩ := hp
      obtain ⟨l', hl', hb', -⟩ := hfront hl
      exact ⟨l', hl', hb'.trans hb, hf, ho.mono hgrow id⟩
    case releasing v o =>
      obtain ⟨l, hl, hb, hs, ho⟩ := hp
      obtain ⟨l', hl', hb', hs', -⟩ := hfront hl
      exact ⟨l', hl', hb'.trans hb, fun hf hst => hs' (hs hf hst), ho.mono hgrow id⟩
    case finished o => exact OutcomeInv.mono hp hgrow id
    case returned o => exact OutcomeInv.mono hp hgrow id
  · obtain ⟨l', hl', -, -, hbusy', hsettled'⟩ := hback hl
    exact hsettled' (h.idle v l' hl' (hbusy' ▸ hb) hf hst)
  · obtain ⟨l', hl', hrequests', -⟩ := hback hl
    exact h.written v l' j hl' (hrequests' ▸ hj)
  · obtain ⟨l', hl', hrequests', -⟩ := hback hl
    exact hrequests' ▸ h.once v l' hl'
  · obtain ⟨c, hc, hcr, -⟩ := hback hl
    obtain ⟨c', hc', hcr', -⟩ := hback hl'
    exact h.apart v v' c c' j hc hc' (hcr ▸ hj) (hcr' ▸ hj')
  · obtain ⟨l', hl', hrequests', hinput', -⟩ := hback hl
    rw [hinput', hrequests']
    exact h.input v l' hl'

/-- An exchange moves on together with its worker, which nobody else holds. -/
theorem move (h : PoolInv s) {phase : ExchangePhase}
    {k' : AnalysisWorker} (failed : Bool) (hfailed : s.failed = true → failed = true)
    (he : s.executions[i]? = some e) (hk : s.workers[w]? = some k)
    (hfree : ∀ (j : ℕ) d, s.executions[j]? = some d → d.phase.holds = some w → j = i)
    (hholds : ∀ v, phase.holds = some v → v = w) (houtput : k.output <+: k'.output)
    (hidle : k'.busy = false → failed = false → s.stopped = false → k'.Settled)
    (hwrite : (k'.requests = k.requests ∧ k'.input = k.input ∧
        (phase.pending = true → e.phase.pending = true)) ∨
      (k'.requests = k.requests ++ [i] ∧ k'.input = k.input ++ requestFrame e.request ∧
        e.phase.pending = true ∧ phase.pending = false))
    (hphase : PhaseInv (({ s with failed }.setWorker w k').setPhase i e phase) i phase) :
    PoolInv (({ s with failed }.setWorker w k').setPhase i e phase) := by
  have hgrow : WorkersGrow s.workers (s.workers.set w k') := by
    refine .set hk ⟨houtput, ?_⟩
    rcases hwrite with ⟨hr, -⟩ | ⟨hr, -⟩
    · exact hr ▸ List.prefix_refl _
    · exact hr ▸ List.prefix_append _ _
  have hback {v j : ℕ} {l : AnalysisWorker} (hl : (s.workers.set w k')[v]? = some l)
      (hj : j ∈ l.requests) :
      (∃ l', s.workers[v]? = some l' ∧ j ∈ l'.requests) ∨
        (v = w ∧ j = i ∧ e.phase.pending = true ∧ phase.pending = false) := by
    rcases Locks.getElem?_set_cases hl with ⟨rfl, rfl⟩ | ⟨-, hl⟩
    · rcases hwrite with ⟨hr, -⟩ | ⟨hr, -, hp, hp'⟩
      · exact .inl ⟨k, hk, hr ▸ hj⟩
      · rw [hr, List.mem_append, List.mem_singleton] at hj
        rcases hj with hj | hj
        · exact .inl ⟨k, hk, hj⟩
        · exact .inr ⟨rfl, hj, hp, hp'⟩
    · exact .inl ⟨l, hl, hj⟩
  have hnot {v : ℕ} {l : AnalysisWorker} (hl : s.workers[v]? = some l)
      (hp : e.phase.pending = true) : i ∉ l.requests := by
    intro hmem
    obtain ⟨d, hd, hd'⟩ := h.written v l i hl hmem
    cases (he.symm.trans hd)
    exact absurd (hp.symm.trans hd') (by simp)
  refine ⟨fun j d hd => ?_, fun j l d d' v hd hd' hv hv' => ?_, fun v l hl hb hf hst => ?_,
    fun v l j hl hj => ?_, fun v l hl => ?_, fun v v' l l' j hl hl' hj hj' => ?_, fun v l hl => ?_⟩
  · rcases Locks.getElem?_set_cases hd with ⟨rfl, rfl⟩ | ⟨hj, hd⟩
    · exact hphase
    · refine (h.phases j d hd).mono (fun v hv => ?_) hgrow hfailed id
      have hne : v ≠ w := by
        rintro rfl
        exact hj (hfree j d hd hv)
      exact List.getElem?_set_ne (Ne.symm hne)
  · rcases Locks.getElem?_set_cases hd with ⟨hj, rfl⟩ | ⟨-, hdOld⟩ <;>
      rcases Locks.getElem?_set_cases hd' with ⟨hl, rfl⟩ | ⟨-, hdOld'⟩
    · rw [hj, hl]
    · rw [hj, hfree l d' hdOld' (hholds v hv ▸ hv')]
    · rw [hl, hfree j d hdOld (hholds v hv' ▸ hv)]
    · exact h.alone j l d d' v hdOld hdOld' hv hv'
  · rcases Locks.getElem?_set_cases hl with ⟨rfl, rfl⟩ | ⟨-, hl⟩
    · exact hidle hb hf hst
    · refine h.idle v l hl hb (Bool.eq_false_iff.mpr fun ht => ?_) hst
      exact absurd ((hfailed ht).symm.trans hf) (by simp)
  · rcases hback hl hj with ⟨l', hl', hj⟩ | ⟨-, rfl, -, hp⟩
    · obtain ⟨d, hd, hwritten⟩ := h.written v l' j hl' hj
      by_cases hji : j = i
      · subst hji
        cases (he.symm.trans hd)
        refine ⟨_, Locks.getElem?_set_self_of he, Bool.eq_false_iff.mpr fun ht => ?_⟩
        rcases hwrite with ⟨-, -, hp⟩ | ⟨-, -, -, hp⟩
        · exact absurd ((hp ht).symm.trans hwritten) (by simp)
        · exact absurd (ht.symm.trans hp) (by simp)
      · exact ⟨d, (List.getElem?_set_ne (Ne.symm hji)).trans hd, hwritten⟩
    · exact ⟨_, Locks.getElem?_set_self_of he, hp⟩
  · rcases Locks.getElem?_set_cases hl with ⟨rfl, rfl⟩ | ⟨-, hl⟩
    · rcases hwrite with ⟨hr, -⟩ | ⟨hr, -, hp, -⟩
      · exact hr ▸ h.once v k hk
      · rw [hr]
        exact List.nodup_append.mpr ⟨h.once v k hk, by simp, fun a ha b hb => by
          rw [List.mem_singleton] at hb
          rintro rfl
          exact hnot hk hp (hb ▸ ha)⟩
    · exact h.once v l hl
  · rcases hback hl hj with ⟨c, hc, hcj⟩ | ⟨hv, hji, hp, -⟩ <;>
      rcases hback hl' hj' with ⟨c', hc', hcj'⟩ | ⟨hv', hji', hp', -⟩
    · exact h.apart v v' c c' j hc hc' hcj hcj'
    · exact absurd (hji' ▸ hcj) (hnot hc hp')
    · exact absurd (hji ▸ hcj') (hnot hc' hp)
    · rw [hv, hv']
  · have hrequest : ∀ j, requestOf (({ s with failed }.setWorker w k').setPhase i e phase) j =
        requestOf s j :=
      requestOf_set he rfl
    simp only [hrequest]
    rcases Locks.getElem?_set_cases hl with ⟨rfl, rfl⟩ | ⟨-, hl⟩
    · rcases hwrite with ⟨hr, hi, -⟩ | ⟨hr, hi, -⟩
      · rw [hr, hi]
        exact h.input v k hk
      · have hown : requestOf s i = e.request := by rw [requestOf, he]; rfl
        rw [hr, hi, List.flatMap_append, h.input v k hk, List.flatMap_singleton, hown]
    · exact h.input v l hl

/-- A new call. -/
theorem execute (h : PoolInv s) (request : List UInt8) :
    PoolInv { s with executions := s.executions ++ [⟨request, false, .queued⟩] } := by
  have hcases {j : ℕ} {d : Execution}
      (hd : (s.executions ++ [⟨request, false, .queued⟩])[j]? = some d) :
      s.executions[j]? = some d ∨ d = ⟨request, false, .queued⟩ := by
    rcases Nat.lt_or_ge j s.executions.length with hj | hj
    · exact .inl (by rwa [List.getElem?_append_left hj] at hd)
    · rw [List.getElem?_append_right hj] at hd
      exact .inr (List.mem_singleton.mp (List.mem_of_getElem? hd))
  have hold {j : ℕ} {d : Execution} (hd : s.executions[j]? = some d) :
      (s.executions ++ [⟨request, false, .queued⟩])[j]? = some d := by
    rw [List.getElem?_append_left (List.getElem?_eq_some_iff.mp hd).1]
    exact hd
  refine ⟨fun j d hd => ?_, fun j l d d' w hd hd' hw hw' => ?_, h.idle, fun w k j hk hj => ?_,
    h.once, h.apart, fun w k hk => ?_⟩
  · rcases hcases hd with hd | rfl
    · exact (h.phases j d hd).mono (fun _ _ => rfl) (.refl _) id id
    · trivial
  · rcases hcases hd with hd | rfl
    · rcases hcases hd' with hd' | rfl
      · exact h.alone j l d d' w hd hd' hw hw'
      · exact absurd hw' (by simp [ExchangePhase.holds])
    · exact absurd hw (by simp [ExchangePhase.holds])
  · obtain ⟨d, hd, hwritten⟩ := h.written w k j hk hj
    exact ⟨d, hold hd, hwritten⟩
  · rw [h.input w k hk]
    refine List.flatMap_congr fun j hj => ?_
    obtain ⟨d, hd, -⟩ := h.written w k j hk hj
    rw [requestOf, requestOf, hd]
    dsimp only
    rw [hold hd]

/-- Nobody else holds a worker that an exchange holds. -/
theorem free_of_holds (h : PoolInv s) (he : s.executions[i]? = some e)
    (hw : e.phase.holds = some w) (j : ℕ) (d : Execution) (hd : s.executions[j]? = some d)
    (hdw : d.phase.holds = some w) : j = i :=
  h.alone j i d e w hd he hdw hw

/-- Nobody holds a worker that is not busy. -/
theorem free_of_idle (h : PoolInv s) (hk : s.workers[w]? = some k)
    (hidle : k.busy = false) (i j : ℕ) (d : Execution) (hd : s.executions[j]? = some d)
    (hdw : d.phase.holds = some w) : j = i := by
  obtain ⟨l, hl, hbusy⟩ := (h.phases j d hd).busy hdw
  cases (hk.symm.trans hl)
  exact absurd (hidle.symm.trans hbusy) (by simp)

/-- A timeout or a broken output while the worker is held. -/
theorem fail (h : PoolInv s) {o : ExchangeOutcome}
    (he : s.executions[i]? = some e) (hw : e.phase.holds = some w) (ho : o.fault = true) :
    PoolInv (s.failWorker i e w o) := by
  obtain ⟨k, hk, hbusy⟩ := (h.phases i e he).busy hw
  refine h.rephase he (fun _ => rfl) id rfl (fun v hv => ?_) (fun hp => absurd hp (by simp [ExchangePhase.pending])) ?_
  · cases hv
    exact hw
  · refine ⟨k, hk, hbusy, rfl, fun r hr => ?_, fun _ => rfl⟩
    rw [hr] at ho
    exact absurd ho (by simp [ExchangeOutcome.fault])

theorem outcomeInv_of_plain {o : ExchangeOutcome} (hresult : ∀ r, o ≠ .result r)
    (hfault : o.fault = false) : OutcomeInv s i o :=
  ⟨fun r hr => absurd hr (hresult r), fun h => absurd (hfault.symm.trans h) (by simp)⟩

/-- The envelope was read to the end. -/
theorem conclude (h : PoolInv s) {size base : ℕ} {status : UInt8}
    (he : s.executions[i]? = some e) (hp : e.phase = .payload w status size)
    (hk : s.workers[w]? = some k) (hbusy : k.busy = true)
    (hr : k.ReadsFrom i status size base) (hlong : k.consumed + size ≤ k.output.length) :
    PoolInv ((s.setWorker w { k with
        consumed := k.consumed + size
        answered := k.answered + 1 }).conclude i e w status
      ((k.output.drop k.consumed).take size)) := by
  have hholds : e.phase.holds = some w := by rw [hp]; rfl
  have hread := hr.settled hlong
  have hmove : ∀ (failed : Bool) (phase : ExchangePhase), (s.failed = true → failed = true) →
      (∀ v, phase.holds = some v → v = w) → phase.pending = false →
      PhaseInv (({ s with failed }.setWorker w { k with
        consumed := k.consumed + size
        answered := k.answered + 1 }).setPhase i e phase) i phase →
      PoolInv (({ s with failed }.setWorker w { k with
        consumed := k.consumed + size
        answered := k.answered + 1 }).setPhase i e phase) := by
    intro failed phase hfailed hw hpending hphase
    refine h.move failed hfailed he hk (h.free_of_holds he hholds) hw (List.prefix_refl _)
      (fun hb => absurd (hbusy.symm.trans hb) (by simp)) (.inl ⟨rfl, rfl, fun ht => ?_⟩) hphase
    exact absurd (ht.symm.trans hpending) (by simp)
  have hself : ∀ failed : Bool, ({ s with failed }.setWorker w { k with
      consumed := k.consumed + size
      answered := k.answered + 1 }).workers[w]? = some { k with
        consumed := k.consumed + size
        answered := k.answered + 1 } := fun _ => Locks.getElem?_set_self_of hk
  have hreleased : ∀ o, OutcomeInv (s.setWorker w { k with
        consumed := k.consumed + size
        answered := k.answered + 1 }) i o →
      PoolInv ((s.setWorker w { k with
        consumed := k.consumed + size
        answered := k.answered + 1 }).setPhase i e (.releasing w o)) := by
    intro o ho
    refine hmove s.failed _ id (fun v hv => (Option.some.inj hv).symm) rfl ?_
    exact ⟨_, hself s.failed, hbusy, fun _ _ => hread, ho.result, ho.fault⟩
  have hbroken : PoolInv ((s.setWorker w { k with
        consumed := k.consumed + size
        answered := k.answered + 1 }).failWorker i e w .failed) := by
    refine hmove true _ (fun _ => rfl) (fun v hv => (Option.some.inj hv).symm) rfl ?_
    exact ⟨_, hself true, hbusy, rfl, ⟨fun r hr => (nomatch hr), fun _ => rfl⟩⟩
  rw [ProcessPool.conclude]
  by_cases hok : status = envelopeOk
  · rw [if_pos hok]
    split
    · rename_i r hdecode
      split_ifs
      · exact hreleased .unavailable (outcomeInv_of_plain (fun r hr => (nomatch hr)) rfl)
      · refine hreleased (.result r) ⟨fun r' hr' => ?_, fun hf => (nomatch hf)⟩
        cases hr'
        exact ⟨w, _, k.answered, hself s.failed, hr.last, _, _, hr.frameAt hlong,
          hr.status.symm.trans hok, hdecode⟩
    · exact hbroken
  · rw [if_neg hok]
    split_ifs
    · exact hreleased (.jobError _) (outcomeInv_of_plain (fun r hr => (nomatch hr)) rfl)
    · exact hbroken

theorem step {s' : ProcessPool} {a : PoolAct} (h : PoolInv s) (hstep : s.step a = some s') :
    PoolInv s' := by
  cases a with
  | execute request =>
    cases hstep
    exact h.execute request
  | acquire i =>
    obtain ⟨e, he, hstep⟩ := Option.bind_eq_some_iff.mp hstep
    split at hstep
    case h_2 => exact nomatch hstep
    rename_i hp
    split_ifs at hstep with hdead
    · cases hstep
      exact h.rephase he (fun hf => by simp [ProcessPool.noteExits, hf]) id rfl
        (fun w hw => nomatch hw) (fun hpending => nomatch hpending)
        (outcomeInv_of_plain (fun r hr => nomatch hr) rfl)
    · obtain ⟨w, hw, hstep⟩ := Option.bind_eq_some_iff.mp hstep
      obtain ⟨k, hk, hstep⟩ := Option.bind_eq_some_iff.mp hstep
      cases hstep
      have hidle : k.busy = false := by
        have hfound := List.of_findIdx?_eq_some hw
        rw [hk] at hfound
        simpa using hfound
      simp only [ProcessPool.noteExits, Bool.or_eq_true, not_or, Bool.not_eq_true] at hdead
      obtain ⟨⟨hfailed, -⟩, hstopped⟩ := hdead
      have hsettled := h.idle w k hk hidle hfailed hstopped
      refine h.move s.failed id he hk (h.free_of_idle hk hidle i)
        (fun v hv => (Option.some.inj hv).symm) (List.prefix_refl _) (fun hb => nomatch hb)
        (.inl ⟨rfl, rfl, fun _ => by rw [hp]; rfl⟩) ⟨_, Locks.getElem?_set_self_of hk, rfl, ?_⟩
      exact ⟨hsettled.read, hsettled.bound, hsettled.asked⟩
  | write i =>
    obtain ⟨e, he, hstep⟩ := Option.bind_eq_some_iff.mp hstep
    split at hstep
    case h_2 => exact nomatch hstep
    rename_i w hp
    obtain ⟨k, hk, hstep⟩ := Option.bind_eq_some_iff.mp hstep
    cases hstep
    have hphase := h.phases i e he
    rw [hp] at hphase
    obtain ⟨k', hk', hbusy, hsettled⟩ := hphase
    cases (hk.symm.trans hk')
    refine h.move s.failed id he hk (h.free_of_holds he (by rw [hp]; rfl))
      (fun v hv => (Option.some.inj hv).symm) (List.prefix_refl _)
      (fun hb => absurd (hbusy.symm.trans hb) (by simp))
      (.inr ⟨rfl, rfl, by rw [hp]; rfl, rfl⟩) ⟨_, Locks.getElem?_set_self_of hk, hbusy, ?_⟩
    exact ⟨hsettled.read, hsettled.bound, by simp [hsettled.asked], by simp [← hsettled.asked]⟩
  | drain i delivered =>
    obtain ⟨e, he, hstep⟩ := Option.bind_eq_some_iff.mp hstep
    split at hstep
    case h_2 => exact nomatch hstep
    rename_i w hp
    cases hstep
    split_ifs
    · have hphase := h.phases i e he
      rw [hp] at hphase
      exact h.rephase he id id rfl (fun v hv => by rw [hp]; exact hv) (fun hpending => nomatch hpending)
        hphase
    · exact h.fail he (by rw [hp]; rfl) rfl
  | readHeader i =>
    obtain ⟨e, he, hstep⟩ := Option.bind_eq_some_iff.mp hstep
    split at hstep
    case h_2 => exact nomatch hstep
    rename_i w hp
    obtain ⟨k, hk, hstep⟩ := Option.bind_eq_some_iff.mp hstep
    have hphase := h.phases i e he
    rw [hp] at hphase
    obtain ⟨k', hk', hbusy, hawaits⟩ := hphase
    cases (hk.symm.trans hk')
    have hholds : e.phase.holds = some w := by rw [hp]; rfl
    split_ifs at hstep with hlong
    · cases hstep
      exact h.move s.failed id he hk (h.free_of_holds he hholds)
        (fun v hv => (Option.some.inj hv).symm) (List.prefix_refl _)
        (fun hb => absurd (hbusy.symm.trans hb) (by simp))
        (.inl ⟨rfl, rfl, fun hpending => nomatch hpending⟩)
        ⟨_, k.consumed, Locks.getElem?_set_self_of hk, hbusy, hawaits.readHeader hlong⟩
    · obtain ⟨-, hstep⟩ := guard_bind_eq_some.mp hstep
      cases hstep
      exact h.fail he hholds rfl
  | readPayload i =>
    obtain ⟨e, he, hstep⟩ := Option.bind_eq_some_iff.mp hstep
    split at hstep
    case h_2 => exact nomatch hstep
    rename_i w status size hp
    obtain ⟨k, hk, hstep⟩ := Option.bind_eq_some_iff.mp hstep
    have hphase := h.phases i e he
    rw [hp] at hphase
    obtain ⟨k', base, hk', hbusy, hreads⟩ := hphase
    cases (hk.symm.trans hk')
    split_ifs at hstep with hlong
    · cases hstep
      exact h.conclude he hp hk hbusy hreads hlong
    · obtain ⟨-, hstep⟩ := guard_bind_eq_some.mp hstep
      cases hstep
      exact h.fail he (by rw [hp]; rfl) rfl
  | timeout i =>
    obtain ⟨e, he, hstep⟩ := Option.bind_eq_some_iff.mp hstep
    split at hstep
    case h_4 => exact nomatch hstep
    all_goals
      rename_i hp
      cases hstep
      exact h.fail he (by rw [hp]; rfl) rfl
  | terminate i =>
    obtain ⟨e, he, hstep⟩ := Option.bind_eq_some_iff.mp hstep
    split at hstep
    case h_2 => exact nomatch hstep
    rename_i w o hp
    obtain ⟨k, hk, hstep⟩ := Option.bind_eq_some_iff.mp hstep
    cases hstep
    have hphase := h.phases i e he
    rw [hp] at hphase
    obtain ⟨k', hk', hbusy, hfailed, ho⟩ := hphase
    cases (hk.symm.trans hk')
    have hgrow : WorkersGrow s.workers (s.workers.set w { k with exited := true }) :=
      .set hk ⟨List.prefix_refl _, List.prefix_refl _⟩
    refine h.move s.failed id he hk (h.free_of_holds he (by rw [hp]; rfl))
      (fun v hv => (Option.some.inj hv).symm) (List.prefix_refl _)
      (fun hb => absurd (hbusy.symm.trans hb) (by simp))
      (.inl ⟨rfl, rfl, fun hpending => nomatch hpending⟩)
      ⟨_, Locks.getElem?_set_self_of hk, hbusy, fun hf => ?_, ho.mono hgrow id⟩
    exact absurd (hfailed.symm.trans hf) (by simp)
  | release i =>
    obtain ⟨e, he, hstep⟩ := Option.bind_eq_some_iff.mp hstep
    split at hstep
    case h_2 => exact nomatch hstep
    rename_i w o hp
    obtain ⟨k, hk, hstep⟩ := Option.bind_eq_some_iff.mp hstep
    cases hstep
    have hphase := h.phases i e he
    rw [hp] at hphase
    obtain ⟨k', hk', hbusy, hsettled, ho⟩ := hphase
    cases (hk.symm.trans hk')
    have hgrow : WorkersGrow s.workers (s.workers.set w { k with busy := false }) :=
      .set hk ⟨List.prefix_refl _, List.prefix_refl _⟩
    refine h.move s.failed id he hk (h.free_of_holds he (by rw [hp]; rfl))
      (fun v hv => nomatch hv) (List.prefix_refl _) (fun _ hf hst => ?_)
      (.inl ⟨rfl, rfl, fun hpending => nomatch hpending⟩) (OutcomeInv.mono ho hgrow id)
    have hfree := hsettled hf hst
    exact ⟨hfree.read, hfree.bound, hfree.asked⟩
  | abort i =>
    obtain ⟨hstopped, hstep⟩ := guard_bind_eq_some.mp hstep
    obtain ⟨e, he, hstep⟩ := Option.bind_eq_some_iff.mp hstep
    split at hstep
    case h_5 => exact nomatch hstep
    case h_1 hp =>
      cases hstep
      exact h.rephase he id id rfl (fun w hw => nomatch hw) (fun hpending => nomatch hpending)
        (outcomeInv_of_plain (fun r hr => nomatch hr) rfl)
    all_goals
      rename_i hp
      cases hstep
      obtain ⟨k, hk, hbusy⟩ := (h.phases i e he).busy (by rw [hp]; rfl)
      refine h.rephase he id id rfl (fun v hv => by rw [hp]; exact hv)
        (fun hpending => nomatch hpending)
        ⟨k, hk, hbusy, fun _ hst => ?_, outcomeInv_of_plain (fun r hr => nomatch hr) rfl⟩
      exact absurd (hstopped.symm.trans hst) (by simp)
  | cancel i =>
    obtain ⟨e, he, hstep⟩ := Option.bind_eq_some_iff.mp hstep
    cases hstep
    exact h.rephase he id id rfl (fun _ => id) id
      ((h.phases i e he).mono (fun _ _ => rfl) (.refl _) id id)
  | settle i =>
    obtain ⟨e, he, hstep⟩ := Option.bind_eq_some_iff.mp hstep
    split at hstep
    case h_2 => exact nomatch hstep
    rename_i hp
    cases hstep
    have hphase := h.phases i e he
    rw [hp] at hphase
    refine h.rephase he id id rfl (fun w hw => nomatch hw) (fun hpending => nomatch hpending) ?_
    dsimp only
    split_ifs
    · exact outcomeInv_of_plain (fun r hr => nomatch hr) rfl
    · exact OutcomeInv.mono hphase (.refl _) id
  | emit w bytes =>
    obtain ⟨k, hk, hstep⟩ := Option.bind_eq_some_iff.mp hstep
    obtain ⟨-, hstep⟩ := guard_bind_eq_some.mp hstep
    cases hstep
    exact h.touch hk rfl rfl (List.prefix_append _ _) rfl (·.emit bytes)
      (fun _ hk => hk.emit bytes) (fun _ _ _ _ hk => hk.emit bytes)
  | close w =>
    obtain ⟨k, hk, hstep⟩ := Option.bind_eq_some_iff.mp hstep
    cases hstep
    exact h.touch hk rfl rfl (List.prefix_refl _) rfl
      (fun hk => ⟨hk.read, hk.bound, hk.asked⟩)
      (fun _ hk => ⟨hk.read, hk.bound, hk.asked, hk.last⟩)
      (fun _ _ _ _ hk => ⟨hk.read, hk.consumed, hk.bound, hk.status, hk.size, hk.asked, hk.last⟩)
  | exit w =>
    obtain ⟨k, hk, hstep⟩ := Option.bind_eq_some_iff.mp hstep
    cases hstep
    exact h.touch hk rfl rfl (List.prefix_refl _) rfl
      (fun hk => ⟨hk.read, hk.bound, hk.asked⟩)
      (fun _ hk => ⟨hk.read, hk.bound, hk.asked, hk.last⟩)
      (fun _ _ _ _ hk => ⟨hk.read, hk.consumed, hk.bound, hk.status, hk.size, hk.asked, hk.last⟩)
  | shutdown =>
    cases hstep
    exact ⟨fun j d hd => (h.phases j d hd).mono (fun _ _ => rfl) (.refl _) id (fun _ => rfl), h.alone,
      fun _ _ _ _ _ hst => (nomatch hst), h.written, h.once, h.apart, h.input⟩

theorem started (workerCount : ℕ) : PoolInv (.started workerCount) := by
  have hnone : ∀ (i : ℕ) e, (ProcessPool.started workerCount).executions[i]? = some e → False :=
    fun i e he => nomatch he
  have hfresh : ∀ (w : ℕ) k, (ProcessPool.started workerCount).workers[w]? = some k →
      k = .started := fun w k hk => List.eq_of_mem_replicate (List.mem_of_getElem? hk)
  refine ⟨fun i e he => (hnone i e he).elim, fun i j e d w he => (hnone i e he).elim,
    fun w k hk _ _ _ => ?_, fun w k j hk hj => ?_, fun w k hk => ?_, fun w w' k k' j hk _ hj => ?_,
    fun w k hk => ?_⟩ <;> obtain rfl := hfresh w k hk
  · exact AnalysisWorker.settled_started
  · exact absurd hj List.not_mem_nil
  · exact List.nodup_nil
  · exact absurd hj List.not_mem_nil
  · rfl

theorem of_run {workerCount : ℕ} {as : List PoolAct} {s : ProcessPool}
    (h : Run (StepOf ProcessPool.step) (.started workerCount) as s) : PoolInv s :=
  h.invariant (fun _ _ _ hinv hstep => hinv.step hstep) (.started workerCount)

end PoolInv

/-! ### After a failure -/

/-- The call has settled on no result. -/
def NoResultAt (s : ProcessPool) (j : ℕ) : Prop :=
  ∀ d r, s.executions[j]? = some d → d.phase.outcome ≠ some (.result r)

namespace NoResultAt

variable {s : ProcessPool} {i j : ℕ} {e e' : Execution}

theorem set (h : NoResultAt s j) {workers : List AnalysisWorker} {failed stopped : Bool}
    (he : s.executions[i]? = some e)
    (hnone : (∀ r, e.phase.outcome ≠ some (.result r)) → ∀ r, e'.phase.outcome ≠ some (.result r)) :
    NoResultAt ⟨workers, s.executions.set i e', failed, stopped⟩ j := by
  intro d r hd
  rcases Locks.getElem?_set_cases hd with ⟨rfl, rfl⟩ | ⟨-, hd⟩
  · exact hnone (fun r' => h e r' he) r
  · exact h d r hd

theorem set_plain (h : NoResultAt s j) {workers : List AnalysisWorker} {failed stopped : Bool}
    (he : s.executions[i]? = some e) (hplain : ∀ r, e'.phase.outcome ≠ some (.result r)) :
    NoResultAt ⟨workers, s.executions.set i e', failed, stopped⟩ j :=
  h.set he fun _ => hplain

/-- A decoded result is not handed out any more. -/
theorem conclude (h : NoResultAt s j) (hfailed : s.failed = true) (he : s.executions[i]? = some e)
    (w : ℕ) (status : UInt8) (payload : List UInt8) :
    (s.conclude i e w status payload).failed = true ∧
      NoResultAt (s.conclude i e w status payload) j := by
  rw [ProcessPool.conclude]
  by_cases hok : status = envelopeOk
  · rw [if_pos hok]
    split
    · rw [if_pos hfailed]
      exact ⟨hfailed, h.set_plain he fun r => by simp [ExchangePhase.outcome]⟩
    · exact ⟨rfl, h.set_plain he fun r => by simp [ExchangePhase.outcome]⟩
  · rw [if_neg hok]
    split_ifs
    · exact ⟨hfailed, h.set_plain he fun r => by simp [ExchangePhase.outcome]⟩
    · exact ⟨rfl, h.set_plain he fun r => by simp [ExchangePhase.outcome]⟩

/-- A failed pool makes no results. -/
theorem step {s' : ProcessPool} {a : PoolAct} (h : NoResultAt s j) (hfailed : s.failed = true)
    (hstep : s.step a = some s') : s'.failed = true ∧ NoResultAt s' j := by
  cases a with
  | execute request =>
    cases hstep
    refine ⟨hfailed, fun d r hd => ?_⟩
    rcases Nat.lt_or_ge j s.executions.length with hj | hj
    · exact h d r (by rwa [List.getElem?_append_left hj] at hd)
    · rw [List.getElem?_append_right hj] at hd
      rw [List.mem_singleton.mp (List.mem_of_getElem? hd)]
      simp [ExchangePhase.outcome]
  | acquire i =>
    obtain ⟨e, he, hstep⟩ := Option.bind_eq_some_iff.mp hstep
    split at hstep
    case h_2 => exact nomatch hstep
    split_ifs at hstep with hdead
    · cases hstep
      exact ⟨by simp [ProcessPool.noteExits, ProcessPool.setPhase, hfailed],
        h.set_plain he fun r => by simp [ExchangePhase.outcome]⟩
    · exact absurd (by simp [ProcessPool.noteExits, hfailed]) hdead
  | write i =>
    obtain ⟨e, he, hstep⟩ := Option.bind_eq_some_iff.mp hstep
    split at hstep
    case h_2 => exact nomatch hstep
    obtain ⟨k, -, hstep⟩ := Option.bind_eq_some_iff.mp hstep
    cases hstep
    exact ⟨hfailed, h.set_plain he fun r => by simp [ExchangePhase.outcome]⟩
  | drain i delivered =>
    obtain ⟨e, he, hstep⟩ := Option.bind_eq_some_iff.mp hstep
    split at hstep
    case h_2 => exact nomatch hstep
    cases hstep
    split_ifs
    · exact ⟨hfailed, h.set_plain he fun r => by simp [ExchangePhase.outcome]⟩
    · exact ⟨rfl, h.set_plain he fun r => by simp [ExchangePhase.outcome]⟩
  | readHeader i =>
    obtain ⟨e, he, hstep⟩ := Option.bind_eq_some_iff.mp hstep
    split at hstep
    case h_2 => exact nomatch hstep
    obtain ⟨k, -, hstep⟩ := Option.bind_eq_some_iff.mp hstep
    split_ifs at hstep
    · cases hstep
      exact ⟨hfailed, h.set_plain he fun r => by simp [ExchangePhase.outcome]⟩
    · obtain ⟨-, hstep⟩ := guard_bind_eq_some.mp hstep
      cases hstep
      exact ⟨rfl, h.set_plain he fun r => by simp [ExchangePhase.outcome]⟩
  | readPayload i =>
    obtain ⟨e, he, hstep⟩ := Option.bind_eq_some_iff.mp hstep
    split at hstep
    case h_2 => exact nomatch hstep
    obtain ⟨k, -, hstep⟩ := Option.bind_eq_some_iff.mp hstep
    split_ifs at hstep
    · cases hstep
      exact NoResultAt.conclude (s := s.setWorker _ _) h hfailed he _ _ _
    · obtain ⟨-, hstep⟩ := guard_bind_eq_some.mp hstep
      cases hstep
      exact ⟨rfl, h.set_plain he fun r => by simp [ExchangePhase.outcome]⟩
  | timeout i =>
    obtain ⟨e, he, hstep⟩ := Option.bind_eq_some_iff.mp hstep
    split at hstep
    case h_4 => exact nomatch hstep
    all_goals
      cases hstep
      exact ⟨rfl, h.set_plain he fun r => by simp [ExchangePhase.outcome]⟩
  | terminate i =>
    obtain ⟨e, he, hstep⟩ := Option.bind_eq_some_iff.mp hstep
    split at hstep
    case h_2 => exact nomatch hstep
    rename_i w o hp
    obtain ⟨k, -, hstep⟩ := Option.bind_eq_some_iff.mp hstep
    cases hstep
    exact ⟨hfailed, h.set he fun hnone => by rw [hp] at hnone; exact hnone⟩
  | release i =>
    obtain ⟨e, he, hstep⟩ := Option.bind_eq_some_iff.mp hstep
    split at hstep
    case h_2 => exact nomatch hstep
    rename_i w o hp
    obtain ⟨k, -, hstep⟩ := Option.bind_eq_some_iff.mp hstep
    cases hstep
    exact ⟨hfailed, h.set he fun hnone => by rw [hp] at hnone; exact hnone⟩
  | abort i =>
    obtain ⟨-, hstep⟩ := guard_bind_eq_some.mp hstep
    obtain ⟨e, he, hstep⟩ := Option.bind_eq_some_iff.mp hstep
    split at hstep
    case h_5 => exact nomatch hstep
    all_goals
      cases hstep
      exact ⟨hfailed, h.set_plain he fun r => by simp [ExchangePhase.outcome]⟩
  | cancel i =>
    obtain ⟨e, he, hstep⟩ := Option.bind_eq_some_iff.mp hstep
    cases hstep
    exact ⟨hfailed, h.set he id⟩
  | settle i =>
    obtain ⟨e, he, hstep⟩ := Option.bind_eq_some_iff.mp hstep
    split at hstep
    case h_2 => exact nomatch hstep
    rename_i o hp
    cases hstep
    refine ⟨hfailed, h.set he fun hnone r => ?_⟩
    rw [hp] at hnone
    cases e.cancelled
    · exact hnone r
    · simp [ExchangePhase.outcome]
  | emit w bytes =>
    obtain ⟨k, -, hstep⟩ := Option.bind_eq_some_iff.mp hstep
    obtain ⟨-, hstep⟩ := guard_bind_eq_some.mp hstep
    cases hstep
    exact ⟨hfailed, h⟩
  | close w =>
    obtain ⟨k, -, hstep⟩ := Option.bind_eq_some_iff.mp hstep
    cases hstep
    exact ⟨hfailed, h⟩
  | exit w =>
    obtain ⟨k, -, hstep⟩ := Option.bind_eq_some_iff.mp hstep
    cases hstep
    exact ⟨hfailed, h⟩
  | shutdown =>
    cases hstep
    exact ⟨hfailed, h⟩

theorem run {as : List PoolAct} {t : ProcessPool} (hrun : Run (StepOf ProcessPool.step) s as t)
    (hfailed : s.failed = true) (h : NoResultAt s j) : NoResultAt t j := by
  have hinv : t.failed = true ∧ NoResultAt t j := by
    induction hrun with
    | nil => exact ⟨hfailed, h⟩
    | cons hstep _ ih =>
      obtain ⟨hfailed', h'⟩ := h.step hfailed hstep
      exact ih hfailed' h'
  exact hinv.2

end NoResultAt

/-! ### Responses -/

/-- The number of a request among those written to a worker, and the envelope of that number. -/
def ResponseOf (s : ProcessPool) (i : ℕ) (r : AnalysisResult) (w n : ℕ) : Prop :=
  ∃ k, s.workers[w]? = some k ∧ k.requests[n]? = some i ∧
    (∃ header payload, frameAt envelopeHeaderSize envelopePayloadSize n k.output =
      some (header, payload) ∧ envelopeStatus header = envelopeOk ∧
      decodeResult payload = some r) ∧
    ∀ produced : List WorkerResponse, (∀ p ∈ produced, p.Wf) →
      k.output <+: (produced.flatMap fun p => p.frame.1 ++ p.frame.2) →
      produced[n]? = some (.ok r)

/-- The `n`-th envelope of written responses holds the `n`-th response. -/
theorem response_of_frameAt {produced : List WorkerResponse} {output header payload : List UInt8}
    {n : ℕ} {r : AnalysisResult} (hwf : ∀ p ∈ produced, p.Wf)
    (houtput : output <+: (produced.flatMap fun p => p.frame.1 ++ p.frame.2))
    (hframe : frameAt envelopeHeaderSize envelopePayloadSize n output = some (header, payload))
    (hok : envelopeStatus header = envelopeOk) (hdecode : decodeResult payload = some r) :
    produced[n]? = some (.ok r) := by
  have hframes : ∀ f ∈ produced.map WorkerResponse.frame,
      FrameWf envelopeHeaderSize envelopePayloadSize f := by
    intro f hf
    obtain ⟨p, hp, rfl⟩ := List.mem_map.mp hf
    exact WorkerResponse.frameWf (hwf p hp)
  have hprefix : output <+: ((produced.map WorkerResponse.frame).flatMap fun f => f.1 ++ f.2) := by
    rwa [List.flatMap_map]
  have hat := frameAt_of_prefix hframes (Nat.succ_pos _) hprefix hframe
  rw [List.getElem?_map] at hat
  obtain ⟨p, hp, hpair⟩ := Option.map_eq_some_iff.mp hat
  cases hpair
  cases p with
  | ok result =>
    have hresult : result.Wf := hwf _ (List.mem_of_getElem? hp)
    have hsame := (decodeResult_encodeResult hresult).symm.trans hdecode
    rw [hp, Option.some.inj hsame]
  | error traceback => exact absurd hok (by simp [envelopeHeader, envelopeStatus,
      WorkerResponse.status, envelopeOk, envelopeError])

/-- Exchanges do not mix: what is returned is the response with the number of the own request. -/
structure ExchangesSound (s : ProcessPool) : Prop where
  response : ∀ (i : ℕ) e r, s.executions[i]? = some e → e.phase = .returned (.result r) →
    ∃ w n, ResponseOf s i r w n
  once : ∀ (w w' n n' : ℕ) k k' i, s.workers[w]? = some k → s.workers[w']? = some k' →
    k.requests[n]? = some i → k'.requests[n']? = some i → w = w' ∧ n = n'
  input : ∀ (w : ℕ) k, s.workers[w]? = some k →
    k.input = k.requests.flatMap fun j => requestFrame (requestOf s j)
  settled : ∀ (i : ℕ) e w, s.executions[i]? = some e → e.phase = .admitted w →
    ∃ k, s.workers[w]? = some k ∧ skipFrames envelopeHeaderSize envelopePayloadSize
      k.requests.length k.output = some (k.output.drop k.consumed)
  alone : ∀ (i j : ℕ) e d w, s.executions[i]? = some e → s.executions[j]? = some d →
    e.phase.holds = some w → d.phase.holds = some w → i = j
  fault : ∀ (i : ℕ) e o, s.executions[i]? = some e → e.phase.outcome = some o →
    o.fault = true → s.failed = true
  fenced : s.failed = true → ∀ as t, Run (StepOf ProcessPool.step) s as t → ∀ j : ℕ,
    (∀ d, s.executions[j]? = some d → d.phase.outcome = none) →
    ∀ d r, t.executions[j]? = some d → d.phase.outcome ≠ some (.result r)

theorem PoolInv.outcomeInv {s : ProcessPool} (h : PoolInv s) {e : Execution}
    {o : ExchangeOutcome} (he : s.executions[i]? = some e) (ho : e.phase.outcome = some o) :
    OutcomeInv s i o := by
  have hphase := h.phases i e he
  cases hp : e.phase <;> rw [hp] at ho hphase <;>
    simp only [ExchangePhase.outcome, Option.some.injEq, reduceCtorEq] at ho <;> subst ho
  case failing =>
    obtain ⟨k, -, -, -, ho⟩ := hphase
    exact ho
  case releasing =>
    obtain ⟨k, -, -, -, ho⟩ := hphase
    exact ho
  case finished => exact hphase
  case returned => exact hphase

/-- For any interleaving of calls, cancellations, timeouts and deaths, and any bytes that the
workers write. -/
theorem exchanges_sound {workerCount : ℕ} {as : List PoolAct} {s : ProcessPool}
    (h : Run (StepOf ProcessPool.step) (.started workerCount) as s) : ExchangesSound s := by
  have hinv := PoolInv.of_run h
  refine ⟨fun i e r he hp => ?_, fun w w' n n' k k' i hk hk' hn hn' => ?_, hinv.input,
    fun i e w he hp => ?_, hinv.alone, fun i e o he ho => (hinv.outcomeInv he ho).fault,
    fun hfailed as t hrun j hj => ?_⟩
  · have houtcome := hinv.outcomeInv he (o := .result r) (by rw [hp]; rfl)
    obtain ⟨w, k, n, hk, hn, header, payload, hframe, hok, hdecode⟩ := houtcome.result r rfl
    exact ⟨w, n, k, hk, hn, ⟨header, payload, hframe, hok, hdecode⟩,
      fun produced hwf houtput => response_of_frameAt hwf houtput hframe hok hdecode⟩
  · obtain rfl := hinv.apart w w' k k' i hk hk' (List.mem_of_getElem? hn)
      (List.mem_of_getElem? hn')
    cases (hk.symm.trans hk')
    have hlt := (List.getElem?_eq_some_iff.mp hn).1
    exact ⟨rfl, (List.getElem?_inj hlt (hinv.once w k hk)).mp (hn.trans hn'.symm)⟩
  · have hphase := hinv.phases i e he
    rw [hp] at hphase
    obtain ⟨k, hk, -, hsettled⟩ := hphase
    exact ⟨k, hk, hsettled.asked ▸ hsettled.read⟩
  · refine NoResultAt.run hrun hfailed fun d r hd => ?_
    rw [hj d hd]
    simp

/-! ### A worker that answers once, and one that writes ahead -/

namespace ExchangesRun

def first : WorkerResponse := .ok ⟨[1], none⟩

def second : WorkerResponse := .ok ⟨[2], none⟩

def envelope (p : WorkerResponse) : List UInt8 := p.frame.1 ++ p.frame.2

def exchange (i : ℕ) (bytes : List UInt8) : List PoolAct :=
  [.drain i true, .emit 0 bytes, .readHeader i, .readPayload i, .release i, .settle i]

/-- The first call is cancelled by its caller and still goes on to its end. -/
def acts : List PoolAct :=
  [.execute [7], .acquire 0, .write 0, .cancel 0] ++ exchange 0 (envelope first) ++
    [.execute [8], .acquire 1, .write 1] ++ exchange 1 (envelope second)

def before : List PoolAct :=
  [.execute [7], .acquire 0, .write 0] ++ exchange 0 (envelope first ++ envelope second) ++
    [.execute [8], .acquire 1]

def asked : ProcessPool := (before.foldlM ProcessPool.step (.started 1)).get (by decide +kernel)

def written : ProcessPool := (asked.step (.write 1)).get (by decide +kernel)

def answered : ProcessPool :=
  ((exchange 1 []).foldlM ProcessPool.step written).get (by decide +kernel)

end ExchangesRun

open ExchangesRun in
theorem exchanges_sound_acts :
    ∃ s, acts.foldlM ProcessPool.step (.started 1) = some s ∧ ExchangesSound s := by
  have hsome : (acts.foldlM ProcessPool.step (.started 1)).isSome := by decide +kernel
  obtain ⟨s, hs⟩ := Option.isSome_iff_exists.mp hsome
  exact ⟨s, hs, exchanges_sound (.of_foldlM hs)⟩

open ExchangesRun in
/-- An envelope that the worker wrote before it was asked is returned as the response. -/
theorem early_envelope_returned :
    ¬ ∀ (workerCount : ℕ) (as bs : List PoolAct) (s t u : ProcessPool) (i : ℕ) (e : Execution)
      (r : AnalysisResult), Run (StepOf ProcessPool.step) (.started workerCount) as s →
      s.step (.write i) = some t → Run (StepOf ProcessPool.step) t bs u →
      u.executions[i]? = some e → e.phase = .returned (.result r) →
      ∃ (w : ℕ) (k l : AnalysisWorker) (n : ℕ) (header payload : List UInt8),
        s.workers[w]? = some k ∧ u.workers[w]? = some l ∧
        frameAt envelopeHeaderSize envelopePayloadSize n (l.output.drop k.output.length) =
          some (header, payload) ∧ decodeResult payload = some r := by
  intro hclaim
  have hasked : Run (StepOf ProcessPool.step) (.started 1) before asked :=
    .of_foldlM (Option.some_get _).symm
  have hwritten : asked.step (.write 1) = some written := (Option.some_get _).symm
  have hanswered : Run (StepOf ProcessPool.step) written (exchange 1 []) answered :=
    .of_foldlM (Option.some_get _).symm
  have hresult : answered.executions[1]? =
      some ⟨[8], false, .returned (.result ⟨[2], none⟩)⟩ := by decide +kernel
  obtain ⟨w, k, l, n, header, payload, hk, hl, hframe, -⟩ :=
    hclaim 1 _ _ asked written answered 1 _ _ hasked hwritten hanswered hresult rfl
  have hlengths : asked.workers.map (·.output.length) = answered.workers.map (·.output.length) := by
    decide +kernel
  have hsame : k.output.length = l.output.length := by
    have hat := congrArg (·[w]?) hlengths
    simpa [hk, hl] using hat
  rw [List.drop_eq_nil_of_le hsame.ge] at hframe
  have hnone : frameAt envelopeHeaderSize envelopePayloadSize n
      (([] : List (List UInt8 × List UInt8)).flatMap fun f => f.1 ++ f.2) = none :=
    frameAt_flatMap_of_le (fun f hf => nomatch hf) (Nat.succ_pos _) (Nat.zero_le _)
  rw [List.flatMap_nil, hframe] at hnone
  exact absurd hnone (by simp)

end AefTerminal
