import AefTerminal.Bars.RevisionOrder
import AefTerminal.ChartCommits.LiveWorker

/-!
# No live revision is lost

A revision that was submitted waits in the lane or is out in a batch until storage shows its values,
or a later revision of its slot takes its place. What makes this work is that the task holds one
batch at a time, that a sequence is given to a bar only while the bar waits, and that the row of a
slot never gets ahead of the bar that waits for it.

One shortcut breaks it. A bar that equals the revision last settled is skipped, also when another
revision of the slot is on its way: that revision is then stored last although it is the older
submission. So the law holds of the runs in which no submission is masked.

## Main results

* `Tracking`, `Tracking.step`: the invariant, and what preserves it
* `live_revisions_kept`, `live_revision_lost`
-/

namespace AefTerminal

open Foundation ChartCommitLane

variable {scope : LiveScope} {s t : LiveSystem} {a : LiveAct} {ts : Time} {n : ℕ}
  {b c : BarObject} {batch part : List BarObject} {row : Option StoredBar}

/-! ### The invariant -/

/-- The row shows the values of the bar. -/
def Shows (row : Option StoredBar) (b : BarObject) : Prop :=
  row.map StoredBar.values = some (barValues b.bar)

/-- The row is older than the sequence, or it is this revision under it. -/
def Behind (row : Option StoredBar) (n : ℕ) (b : BarObject) : Prop :=
  ∀ r, row = some r →
    r.revisionSequence < n ∨ (r.revisionSequence = n ∧ r.values = barValues b.bar)

/-- What a receipt may say of a bar whose slot nobody else wrote. -/
def Answered (row : Option StoredBar) (receipt : CanonicalBarCommitReceipt) (b : BarObject) : Prop :=
  slotSignature b.bar ∉ receipt.superseded.map slotSignature ∧
    (slotSignature b.bar ∈ receipt.acknowledged.map slotSignature → Shows row b)

namespace LiveSystem

/-- The revision of a slot that is not settled: the pending one, else the one that is out. -/
def waiting (s : LiveSystem) (ts : Time) : Option BarObject :=
  (s.lane.pending.get? ts).or (batchAt s.worker.inFlight ts)

/-- What holds of a slot that nobody else wrote. -/
structure SlotTracked (scope : LiveScope) (s : LiveSystem) (ts : Time) : Prop where
  waiting : ∀ c, s.waiting ts = some c → ∃ b, s.latest.get? ts = some b ∧ b.signature = c.signature
  stored : s.waiting ts = none → ∀ b, s.latest.get? ts = some b →
    Shows (s.bars.get? (scope.slot ts)) b
  remembered : s.waiting ts = none → ∀ signature, s.lane.committed.get? ts = some signature →
    ∃ b, s.latest.get? ts = some b ∧ b.signature = signature
  behind : ∀ c n, s.lane.pending.get? ts = some c → s.lane.revisionSequences.get? ts = some n →
    Behind (s.bars.get? (scope.slot ts)) n c

/-- What holds of the task. -/
def WorkerTracked (scope : LiveScope) (s : LiveSystem) : LiveWorker → Prop
  | .idle => True
  | .reserving _ none => True
  | .reserving _ (some n) => n ≤ s.lastSequence ∧ ∀ ts, ts ∉ s.overwritten → ∀ row,
      s.bars.get? (scope.slot ts) = some row → row.revisionSequence < n
  | .committing n batch receipt => n ≤ s.lastSequence ∧ (batch.map BarObject.ts).Nodup ∧
      (∀ b ∈ batch, s.lane.revisionSequences.get? b.ts = none) ∧
      ∀ b ∈ batch, b.ts ∉ s.overwritten → Behind (s.bars.get? (scope.slot b.ts)) n b ∧
        ∀ r, receipt = some r → Answered (s.bars.get? (scope.slot b.ts)) r b

/-- The lane keeps every submission. -/
structure Tracking (scope : LiveScope) (s : LiveSystem) : Prop where
  keyed : ∀ ts b, s.lane.pending.get? ts = some b → b.ts = ts
  rows_le : ∀ slot row, s.bars.get? slot = some row → row.revisionSequence ≤ s.lastSequence
  assigned_le : ∀ ts b n, s.lane.pending.get? ts = some b →
    s.lane.revisionSequences.get? ts = some n → n ≤ s.lastSequence
  worker : s.WorkerTracked scope s.worker
  slots : ∀ ts, ts ∉ s.overwritten → s.SlotTracked scope ts

/-- A slot stays tracked when nothing of it changes but what is remembered is forgotten. -/
theorem SlotTracked.congr (h : s.SlotTracked scope ts)
    (hpending : t.lane.pending.get? ts = s.lane.pending.get? ts)
    (hsequence : t.lane.revisionSequences.get? ts = s.lane.revisionSequences.get? ts)
    (hcommitted : ∀ signature, t.lane.committed.get? ts = some signature →
      s.lane.committed.get? ts = some signature)
    (hout : batchAt t.worker.inFlight ts = batchAt s.worker.inFlight ts)
    (hlatest : t.latest.get? ts = s.latest.get? ts)
    (hrow : t.bars.get? (scope.slot ts) = s.bars.get? (scope.slot ts)) :
    t.SlotTracked scope ts := by
  have hwaiting : t.waiting ts = s.waiting ts := by
    rw [LiveSystem.waiting, LiveSystem.waiting, hpending, hout]
  constructor
  · rw [hwaiting, hlatest]
    exact h.waiting
  · rw [hwaiting, hlatest, hrow]
    exact h.stored
  · rw [hwaiting, hlatest]
    intro hnone signature hsignature
    exact h.remembered hnone signature (hcommitted signature hsignature)
  · rw [hpending, hsequence, hrow]
    exact h.behind

/-- The task's part of the invariant, when no slot that is out gets a sequence and no slot that
counts gets another row. -/
theorem WorkerTracked.mono {w : LiveWorker} (h : s.WorkerTracked scope w)
    (hlast : s.lastSequence ≤ t.lastSequence)
    (hsequence : ∀ ts, s.lane.revisionSequences.get? ts = none →
      t.lane.revisionSequences.get? ts = none)
    (hslots : ∀ ts, ts ∉ t.overwritten → ts ∉ s.overwritten ∧
      t.bars.get? (scope.slot ts) = s.bars.get? (scope.slot ts)) :
    t.WorkerTracked scope w := by
  cases w with
  | idle => trivial
  | reserving snapshot sequence =>
    cases sequence with
    | none => trivial
    | some n =>
      refine ⟨h.1.trans hlast, fun ts hts row hrow => ?_⟩
      obtain ⟨hts', hsame⟩ := hslots ts hts
      exact h.2 ts hts' row (hsame ▸ hrow)
  | committing n batch receipt =>
    obtain ⟨hn, hnodup, hfree, hbatch⟩ := h
    refine ⟨hn.trans hlast, hnodup, fun b hb => hsequence _ (hfree b hb), fun b hb hts => ?_⟩
    obtain ⟨hts', hsame⟩ := hslots b.ts hts
    rw [hsame]
    exact hbatch b hb hts'

end LiveSystem

/-! ### Signatures -/

/-- Equal signatures are equal values. -/
theorem barValues_eq_of_signature (h : b.signature = c.signature) :
    barValues b.bar = barValues c.bar := by
  obtain ⟨hrevision, -⟩ := Prod.mk.inj h
  simp only [barRevisionSignature, BarRevisionSignature.mk.injEq] at hrevision
  obtain ⟨-, hopen, hhigh, hlow, hclose, hvolume, hstate, hsource⟩ := hrevision
  have hclosed : b.bar.closed = c.bar.closed := by
    rw [Bool.eq_iff_iff, b.bar.lifecycle, c.bar.lifecycle, hstate]
  simp [barValues, hopen, hhigh, hlow, hclose, hvolume, hsource, hclosed]

theorem Shows.congr (h : Shows row c) (heq : b.signature = c.signature) : Shows row b := by
  rw [Shows, barValues_eq_of_signature heq]
  exact h

/-- A row that is behind a closed bar shows its values after the upsert, and is still behind. -/
theorem Behind.upsert (route : StorageRoute) (h : Behind row n b)
    (hclosed : (barValues b.bar).closed = true) :
    Shows (some (upsertCell row (storedBar route n b.bar))) b ∧
      Behind (some (upsertCell row (storedBar route n b.bar))) n b := by
  have hnew : Shows (some (storedBar route n b.bar)) b ∧
      Behind (some (storedBar route n b.bar)) n b :=
    ⟨rfl, fun r hr => .inr (Option.some.inj hr ▸ ⟨rfl, rfl⟩)⟩
  cases row with
  | none => exact hnew
  | some r =>
    rw [upsertCell]
    split
    · exact hnew
    · rename_i hkept
      have hvalues : r.values = barValues b.bar := by
        rcases h r rfl with hlt | ⟨-, hvalues⟩
        · by_contra hne
          refine hkept ⟨hlt, fun hopen => ?_, hne⟩
          exact absurd (hclosed.symm.trans hopen.2) (by simp)
        · exact hvalues
      exact ⟨congrArg some hvalues, h⟩

namespace LiveSystem

/-! ### Submissions -/

/-- A waiting revision that a submission does not hide behind is the submitted one. -/
theorem signature_of_waiting (hcommitted : s.lane.IsCommitted b) (hseen : ¬ s.Hidden b)
    (hwaiting : s.waiting b.ts = some c) : c.signature = b.signature := by
  by_contra hne
  refine hseen ⟨hcommitted, ?_⟩
  rcases Option.or_eq_some_iff.mp hwaiting with hp | ⟨-, hout⟩
  · exact .inl ⟨c, hp, hne⟩
  · exact .inr ⟨c, (batchAt_eq_some hout).1, (batchAt_eq_some hout).2, hne⟩

theorem Tracking.submitBar (h : s.Tracking scope) (hseen : ¬ s.Hidden b) :
    (s.submitBar b).Tracking scope := by
  have hlatest : (s.submitBar b).latest.get? b.ts = some b := Dict.get?_insert_self ..
  have hother : ∀ ts, ts ≠ b.ts → (s.submitBar b).latest.get? ts = s.latest.get? ts := fun ts hts =>
    Dict.get?_insert_of_ne _ hts _
  rcases submitBar_cases s.lane b with ⟨hcommitted, hlane⟩ | ⟨hpending, hlane⟩ | ⟨-, hlane⟩
  · -- equal to the settled revision: what waits, if anything, is the same revision
    have hlane' : (s.submitBar b).lane = s.lane := hlane
    refine ⟨hlane' ▸ h.keyed, h.rows_le, hlane' ▸ h.assigned_le,
      h.worker.mono le_rfl (fun _ => hlane' ▸ id) fun _ hts => ⟨hts, rfl⟩, fun ts hts => ?_⟩
    by_cases hb : ts = b.ts
    · subst hb
      have hslot := h.slots b.ts hts
      have hwaiting : (s.submitBar b).waiting b.ts = s.waiting b.ts := by
        rw [waiting, hlane']
        rfl
      refine ⟨fun c hc => ?_, fun hnone d hd => ?_, fun hnone signature hsignature => ?_, ?_⟩
      · rw [hwaiting] at hc
        exact ⟨b, hlatest, (signature_of_waiting hcommitted hseen hc).symm⟩
      · cases (hlatest.symm.trans hd)
        rw [hwaiting] at hnone
        obtain ⟨d, hd, hsame⟩ := hslot.remembered hnone _ hcommitted
        exact (hslot.stored hnone d hd).congr hsame.symm
      · rw [hlane'] at hsignature
        exact ⟨b, hlatest, Option.some.inj (hcommitted.symm.trans hsignature)⟩
      · rw [hlane']
        exact hslot.behind
    · exact (h.slots ts hts).congr (hlane' ▸ rfl) (hlane' ▸ rfl) (fun _ => hlane' ▸ id) rfl
        (hother ts hb) rfl
  · -- equal to the pending revision
    have hlane' : (s.submitBar b).lane = s.lane := hlane
    refine ⟨hlane' ▸ h.keyed, h.rows_le, hlane' ▸ h.assigned_le,
      h.worker.mono le_rfl (fun _ => hlane' ▸ id) fun _ hts => ⟨hts, rfl⟩, fun ts hts => ?_⟩
    by_cases hb : ts = b.ts
    · subst hb
      obtain ⟨p, hp, hsame⟩ := Option.map_eq_some_iff.mp hpending
      have hwaiting : (s.submitBar b).waiting b.ts = some p := by
        rw [waiting, hlane', hp]
        rfl
      refine ⟨fun c hc => ?_, fun hnone => ?_, fun hnone => ?_, ?_⟩
      · rw [hwaiting] at hc
        exact ⟨b, hlatest, Option.some.inj hc ▸ hsame.symm⟩
      · exact absurd (hwaiting.symm.trans hnone) (by simp)
      · exact absurd (hwaiting.symm.trans hnone) (by simp)
      · rw [hlane']
        exact (h.slots b.ts hts).behind
    · exact (h.slots ts hts).congr (hlane' ▸ rfl) (hlane' ▸ rfl) (fun _ => hlane' ▸ id) rfl
        (hother ts hb) rfl
  · have hlane' : (s.submitBar b).lane = { s.lane with
        pending := s.lane.pending.insert b.ts b
        revisionSequences := s.lane.revisionSequences.erase b.ts } := hlane
    have hp : ∀ ts, (s.submitBar b).lane.pending.get? ts =
        if ts = b.ts then some b else s.lane.pending.get? ts := fun ts => by
      rw [hlane']
      exact Dict.get?_insert ..
    have hr : ∀ ts, (s.submitBar b).lane.revisionSequences.get? ts =
        if ts = b.ts then none else s.lane.revisionSequences.get? ts := fun ts => by
      rw [hlane']
      exact Dict.get?_erase ..
    refine ⟨fun ts c hc => ?_, h.rows_le, fun ts c n hc hn => ?_,
      h.worker.mono le_rfl (fun ts hts => ?_) fun _ hts => ⟨hts, rfl⟩, fun ts hts => ?_⟩
    · rw [hp] at hc
      split at hc
      · rename_i hts
        exact Option.some.inj hc ▸ hts.symm
      · exact h.keyed ts c hc
    · rw [hp] at hc
      rw [hr] at hn
      split at hn
      · exact absurd hn (by simp)
      · rename_i hts
        rw [if_neg hts] at hc
        exact h.assigned_le ts c n hc hn
    · rw [hr]
      split
      · rfl
      · exact hts
    · by_cases hb : ts = b.ts
      · subst hb
        have hwaiting : (s.submitBar b).waiting b.ts = some b := by
          rw [waiting, hp, if_pos rfl]
          rfl
        refine ⟨fun c hc => ?_, fun hnone => ?_, fun hnone => ?_, fun c n _ hn => ?_⟩
        · rw [hwaiting] at hc
          exact ⟨b, hlatest, Option.some.inj hc ▸ rfl⟩
        · exact absurd (hwaiting.symm.trans hnone) (by simp)
        · exact absurd (hwaiting.symm.trans hnone) (by simp)
        · rw [hr, if_pos rfl] at hn
          exact absurd hn (by simp)
      · refine (h.slots ts hts).congr ?_ ?_ (fun _ => hlane' ▸ id) rfl (hother ts hb) rfl
        · rw [hp, if_neg hb]
        · rw [hr, if_neg hb]

theorem Tracking.submit {bars : List BarObject} (h : s.Tracking scope) (hseen : ¬ s.Masked bars) :
    (bars.foldl LiveSystem.submitBar s).Tracking scope := by
  induction bars generalizing s with
  | nil => exact h
  | cons b bars ih =>
    obtain ⟨hb, hbars⟩ := not_or.mp hseen
    exact ih (h.submitBar hb) hbars

/-! ### Taking a batch -/

theorem inFlight_takeBatch : (s.takeBatch n).worker.inFlight = (s.lane.popLiveCommitBatch n).1 := by
  simp only [takeBatch]
  split
  · rename_i hempty
    rw [hempty]
    rfl
  · rfl

theorem Tracking.takeBatch (h : s.Tracking scope) (hidle : s.worker = .idle) :
    (s.takeBatch n).Tracking scope := by
  have hp : ∀ ts, (s.takeBatch n).lane.pending.get? ts =
      if s.lane.revisionSequences.get? ts = some n then none else s.lane.pending.get? ts :=
    fun _ => pending_popLiveCommitBatch
  have hr : ∀ ts m, (s.takeBatch n).lane.revisionSequences.get? ts = some m →
      s.lane.revisionSequences.get? ts = some m := fun _ _ => revisionSequences_popLiveCommitBatch
  have hmem : ∀ b ∈ (s.lane.popLiveCommitBatch n).1,
      s.lane.pending.get? b.ts = some b ∧ s.lane.revisionSequences.get? b.ts = some n :=
    fun b hb => (mem_popLiveCommitBatch h.keyed).mp hb
  have hpending : ∀ ts c, (s.takeBatch n).lane.pending.get? ts = some c →
      s.lane.pending.get? ts = some c := by
    intro ts c hc
    rw [hp] at hc
    split at hc
    · exact absurd hc (by simp)
    · exact hc
  -- what was pending under the sequence is out now
  have hwaiting : ∀ ts, (s.takeBatch n).waiting ts = s.waiting ts := by
    intro ts
    rw [waiting, waiting, hp, inFlight_takeBatch, batchAt_popLiveCommitBatch h.keyed, hidle]
    split
    · simp [LiveWorker.inFlight, batchAt]
    · rfl
  refine ⟨fun ts c hc => h.keyed ts c (hpending ts c hc), h.rows_le,
    fun ts c m hc hm => h.assigned_le ts c m (hpending ts c hc) (hr ts m hm), ?_, fun ts hts => ?_⟩
  · by_cases hempty : (s.lane.popLiveCommitBatch n).1 = []
    · have hworker : (s.takeBatch n).worker = .idle := if_pos hempty
      rw [hworker]
      trivial
    · have hworker : (s.takeBatch n).worker =
          .committing n (s.lane.popLiveCommitBatch n).1 none := if_neg hempty
      rw [hworker]
      obtain ⟨b, hb⟩ := List.exists_mem_of_ne_nil _ hempty
      refine ⟨h.assigned_le b.ts b n (hmem b hb).1 (hmem b hb).2,
        popLiveCommitBatch_nodup h.keyed,
        fun c hc => revisionSequences_of_mem_popLiveCommitBatch h.keyed hc, fun c hc hts => ?_⟩
      exact ⟨(h.slots c.ts hts).behind c n (hmem c hc).1 (hmem c hc).2, fun r hr => absurd hr (by simp)⟩
  · have hslot := h.slots ts hts
    refine ⟨hwaiting ts ▸ hslot.waiting, hwaiting ts ▸ hslot.stored, hwaiting ts ▸ hslot.remembered,
      fun c m hc hm => hslot.behind c m (hpending ts c hc) (hr ts m hm)⟩

/-! ### Sequences -/

theorem Tracking.assign {snapshot : Dict Time BarObject} (h : s.Tracking scope)
    (hworker : s.worker = .reserving snapshot (some n)) :
    Tracking scope { s with lane := s.lane.assignSequence snapshot n, worker := .idle } := by
  have hw := h.worker
  rw [hworker] at hw
  obtain ⟨hn, hrows⟩ := hw
  refine ⟨h.keyed, h.rows_le, fun ts c m hc hm => ?_, trivial, fun ts hts => ?_⟩
  · rcases revisionSequences_assignSequence hm with ⟨rfl, -⟩ | hm
    · exact hn
    · exact h.assigned_le ts c m hc hm
  · have hslot := h.slots ts hts
    have hwaiting : waiting { s with lane := s.lane.assignSequence snapshot n, worker := .idle } ts =
        s.waiting ts := by
      rw [waiting, waiting, hworker]
      rfl
    refine ⟨hwaiting ▸ hslot.waiting, hwaiting ▸ hslot.stored, hwaiting ▸ hslot.remembered,
      fun c m hc hm => ?_⟩
    rcases revisionSequences_assignSequence hm with ⟨rfl, -⟩ | hm
    · exact fun r hr => .inl (hrows ts hts r hr)
    · exact hslot.behind c m hc hm

/-- A step of the task that moves nothing. -/
theorem Tracking.turn {w : LiveWorker} {last : ℕ} (h : s.Tracking scope)
    (hlast : s.lastSequence ≤ last) (hout : s.worker.inFlight = []) (hout' : w.inFlight = [])
    (hw : WorkerTracked scope { s with worker := w, lastSequence := last } w) :
    Tracking scope { s with worker := w, lastSequence := last } where
  keyed := h.keyed
  rows_le := fun slot row hrow => (h.rows_le slot row hrow).trans hlast
  assigned_le := fun ts b n hb hn => (h.assigned_le ts b n hb hn).trans hlast
  worker := hw
  slots := fun ts hts => (h.slots ts hts).congr rfl rfl (fun _ => id) (by rw [hout, hout']) rfl rfl

/-! ### Storage -/

variable {table : BarsTable} {receipt : CanonicalBarCommitReceipt}

/-- The bars that reached the table, and what the table made of them. -/
theorem commitChartBars_outcome {table' : BarsTable} {bars : List Bar}
    (h : scope.commitChartBars table bars n = some (receipt, table')) :
    ∃ confirmed, WriteOutcome table scope.route confirmed n receipt table' ∧
      ∀ bar ∈ confirmed, bar ∈ bars ∧ barSlot scope.route bar = scope.slot bar.ts := by
  unfold LiveScope.commitChartBars at h
  dsimp only at h
  split at h
  · cases (Option.some.inj h)
    refine ⟨[], ?_, by simp⟩
    constructor <;> simp [admittedBars]
  split at h
  · exact absurd h (by simp)
  · rename_i htimeframe
    push Not at htimeframe
    split at h
    · rename_i hwrite
      refine ⟨_, writeBarsOnCursor_outcome (Option.some.inj h ▸ hwrite), fun bar hbar => ?_⟩
      refine ⟨(List.mem_filter.mp hbar).1, ?_⟩
      rw [barSlot, LiveScope.slot, htimeframe bar hbar]
    · exact absurd h (by simp)

/-- Everything the table knows of a batch after storage answered for a part of it. -/
theorem Tracking.write (h : s.Tracking scope) (hworker : s.worker = .committing n batch none)
    (hpart : part.Sublist batch)
    (hwrite : scope.commitChartBars s.bars (part.map BarObject.bar) n = some (receipt, table)) :
    Tracking scope { s with bars := table, worker := .committing n batch (some receipt) } := by
  have hw := h.worker
  rw [hworker] at hw
  obtain ⟨hn, hnodup, hfree, hbatch⟩ := hw
  obtain ⟨confirmed, hout, hconfirmed⟩ := commitChartBars_outcome hwrite
  -- an admitted bar is a bar of the batch, and the batch has one for its slot
  have hadmitted : ∀ bar ∈ admittedBars scope.route confirmed, ∃ c ∈ batch, c.bar = bar ∧
      barSlot scope.route bar = scope.slot c.ts := by
    intro bar hbar
    obtain ⟨hmem, hslot⟩ := hconfirmed bar (List.mem_filter.mp hbar).1
    obtain ⟨c, hc, rfl⟩ := List.mem_map.mp hmem
    exact ⟨c, hpart.subset hc, rfl, hslot⟩
  have hunique : ∀ c ∈ batch, ∀ d ∈ batch, c.ts = d.ts → c = d := fun c hc d hd hts =>
    List.inj_on_of_nodup_map hnodup hc hd hts
  have hslot_inj : ∀ ts ts', scope.slot ts = scope.slot ts' → ts = ts' := fun ts ts' heq =>
    congrArg BarSlot.ts heq
  have hclosed : ∀ bar ∈ admittedBars scope.route confirmed, (barValues bar).closed = true :=
    fun bar hbar => Admitted.closed (by simpa using (List.mem_filter.mp hbar).2)
  have hrow : ∀ c ∈ batch, c.ts ∉ s.overwritten →
      Behind (table.get? (scope.slot c.ts)) n c ∧
        (c.bar ∈ admittedBars scope.route confirmed → Shows (table.get? (scope.slot c.ts)) c) := by
    intro c hc hts
    obtain ⟨hbehind, -⟩ := hbatch c hc hts
    by_cases hmem : c.bar ∈ admittedBars scope.route confirmed
    · obtain ⟨d, hd, hdbar, hslot⟩ := hadmitted c.bar hmem
      have hdts : d.ts = c.ts := congrArg Bar.ts hdbar
      have hget := hout.get?_of_mem c.bar hmem
      rw [hslot, hdts] at hget
      rw [hget]
      obtain ⟨hshows, hbehind⟩ := Behind.upsert scope.route hbehind (hclosed c.bar hmem)
      exact ⟨hbehind, fun _ => hshows⟩
    · have hget := hout.get?_of_ne (scope.slot c.ts) fun bar hbar heq => by
        obtain ⟨d, hd, rfl, hslot⟩ := hadmitted bar hbar
        have hdc : d = c := hunique d hd c hc (hslot_inj _ _ (hslot.symm.trans heq))
        exact hmem (hdc ▸ hbar)
      rw [hget]
      exact ⟨hbehind, fun hmem' => absurd hmem' hmem⟩
  have hother : ∀ ts, (∀ c ∈ batch, c.ts ≠ ts) →
      table.get? (scope.slot ts) = s.bars.get? (scope.slot ts) := by
    intro ts hne
    refine hout.get?_of_ne _ fun bar hbar heq => ?_
    obtain ⟨c, hc, -, hslot⟩ := hadmitted bar hbar
    exact hne c hc (hslot_inj _ _ (hslot.symm.trans heq))
  refine ⟨h.keyed, fun slot row hget => ?_, h.assigned_le,
    ⟨hn, hnodup, hfree, fun c hc hts => ⟨(hrow c hc hts).1, fun r hr => ?_⟩⟩, fun ts hts => ?_⟩
  · by_cases hmem : ∃ bar ∈ admittedBars scope.route confirmed, barSlot scope.route bar = slot
    · obtain ⟨bar, hbar, rfl⟩ := hmem
      have hrow := Option.some.inj ((hout.get?_of_mem bar hbar).symm.trans hget)
      cases hold : s.bars.get? (barSlot scope.route bar) with
      | none =>
        rw [hold, upsertCell] at hrow
        exact hrow ▸ hn
      | some old =>
        rw [hold, upsertCell] at hrow
        split at hrow
        · exact hrow ▸ hn
        · exact hrow ▸ h.rows_le _ old hold
    · rw [hout.get?_of_ne slot fun bar hbar heq => hmem ⟨bar, hbar, heq⟩] at hget
      exact h.rows_le slot row hget
  · cases hr
    -- a bar that the receipt names is the bar of the batch with that slot
    have hnamed : ∀ bar ∈ admittedBars scope.route confirmed,
        slotSignature bar = slotSignature c.bar → bar = c.bar := by
      intro bar hbar hsame
      obtain ⟨d, hd, rfl, -⟩ := hadmitted bar hbar
      rw [hunique d hd c hc (congrArg Prod.fst hsame)]
    refine ⟨fun hsuperseded => ?_, fun hacknowledged => ?_⟩
    · obtain ⟨bar, hbar, hsame⟩ := List.mem_map.mp hsuperseded
      rw [hout.superseded, List.mem_filter] at hbar
      obtain rfl := hnamed bar hbar.1 hsame
      have hslot := (hadmitted c.bar hbar.1)
      obtain ⟨d, -, hdbar, hslot⟩ := hslot
      have hdts : d.ts = c.ts := congrArg Bar.ts hdbar
      have hne := hbar.2
      rw [hslot, hdts] at hne
      exact absurd ((hrow c hc hts).2 hbar.1) (by simpa [Shows] using hne)
    · obtain ⟨bar, hbar, hsame⟩ := List.mem_map.mp hacknowledged
      rw [hout.acknowledged, List.mem_filter] at hbar
      obtain rfl := hnamed bar hbar.1 hsame
      exact (hrow c hc hts).2 hbar.1
  · have hslot := h.slots ts hts
    by_cases hmem : ∃ c ∈ batch, c.ts = ts
    · obtain ⟨c, hc, rfl⟩ := hmem
      -- the slot waits, and has no sequence in the lane
      have hwaiting : s.waiting c.ts ≠ none := by
        rw [LiveSystem.waiting, hworker, LiveWorker.inFlight, batchAt_of_mem hnodup hc]
        simp
      have hsame : LiveSystem.waiting
          { s with bars := table, worker := .committing n batch (some receipt) } c.ts =
          s.waiting c.ts := by
        rw [LiveSystem.waiting, LiveSystem.waiting, hworker]
        rfl
      refine ⟨hsame ▸ hslot.waiting, fun hnone => absurd (hsame ▸ hnone) hwaiting,
        fun hnone => absurd (hsame ▸ hnone) hwaiting, fun d m _ hm => ?_⟩
      exact absurd ((hfree c hc).symm.trans hm) (by simp)
    · have hout : batchAt batch ts = batchAt s.worker.inFlight ts := by rw [hworker]; rfl
      exact hslot.congr rfl rfl (fun _ => id) hout rfl (hother ts fun c hc heq => hmem ⟨c, hc, heq⟩)

/-! ### The end of a batch -/

/-- The batch ends: what is not put back shows in the table and is remembered. -/
theorem Tracking.putBack {receipt : Option CanonicalBarCommitReceipt} {missing : List BarObject}
    (remembered : List Bar) (h : s.Tracking scope)
    (hworker : s.worker = .committing n batch receipt) (hmissing : missing.Sublist batch)
    (hdone : ∀ c ∈ batch, c ∉ missing → c.ts ∉ s.overwritten →
      Shows (s.bars.get? (scope.slot c.ts)) c ∧ c.bar ∈ remembered)
    (hremembered : ∀ bar ∈ remembered, ∃ c ∈ batch, c.bar = bar) :
    Tracking scope { s with
      lane := (s.lane.rememberAll remembered).requeueLiveCommitBatch missing n
      worker := .idle } := by
  have hw := h.worker
  rw [hworker] at hw
  obtain ⟨hn, hnodup, hfree, hbatch⟩ := hw
  obtain ⟨hframe, hframe', -⟩ := rememberAll_frame s.lane remembered
  have hp : ∀ ts, ((s.lane.rememberAll remembered).requeueLiveCommitBatch missing n).pending.get? ts =
      (s.lane.pending.get? ts).or (batchAt missing ts) := fun ts => by
    rw [pending_requeueLiveCommitBatch, hframe]
  have hr : ∀ ts c m,
      ((s.lane.rememberAll remembered).requeueLiveCommitBatch missing n).pending.get? ts = some c →
      ((s.lane.rememberAll remembered).requeueLiveCommitBatch missing n).revisionSequences.get? ts =
        some m →
      (s.lane.pending.get? ts = some c ∧ s.lane.revisionSequences.get? ts = some m) ∨
        (batchAt missing ts = some c ∧ m = n) := by
    intro ts c m hc hm
    rcases revisionSequences_requeueLiveCommitBatch hm hc with ⟨hc, hm⟩ | ⟨-, hback, hm⟩
    · exact .inl ⟨hframe ▸ hc, hframe' ▸ hm⟩
    · exact .inr ⟨hback, hm⟩
  have hmem : ∀ ts c, batchAt missing ts = some c → c ∈ batch ∧ c.ts = ts := fun ts c hc =>
    ⟨hmissing.subset (batchAt_eq_some hc).1, (batchAt_eq_some hc).2⟩
  have hout : ∀ ts, s.waiting ts = (s.lane.pending.get? ts).or (batchAt batch ts) := fun ts => by
    rw [waiting, hworker]
    rfl
  have hwaiting : ∀ ts, waiting { s with
      lane := (s.lane.rememberAll remembered).requeueLiveCommitBatch missing n
      worker := .idle } ts = (s.lane.pending.get? ts).or (batchAt missing ts) := fun ts => by
    rw [waiting, hp]
    simp [LiveWorker.inFlight, batchAt]
  -- a slot that waits no longer waited for a bar that is done, or did not wait
  have hended : ∀ ts, (s.lane.pending.get? ts).or (batchAt missing ts) = none →
      s.waiting ts = none ∨ ∃ c ∈ batch, c.ts = ts ∧ c ∉ missing ∧ s.waiting ts = some c := by
    intro ts hnone
    obtain ⟨hpending, hnotMissing⟩ := Option.or_eq_none_iff.mp hnone
    rw [hout, hpending, Option.none_or]
    cases hb : batchAt batch ts with
    | none => exact .inl rfl
    | some c =>
      obtain ⟨hc, hts⟩ := batchAt_eq_some hb
      exact .inr ⟨c, hc, hts, fun hin => batchAt_eq_none.mp hnotMissing c hin hts, rfl⟩
  refine ⟨fun ts c hc => ?_, h.rows_le, fun ts c m hc hm => ?_, trivial, fun ts hts => ?_⟩
  · rcases Option.or_eq_some_iff.mp (hp ts ▸ hc) with hc | ⟨-, hc⟩
    · exact h.keyed ts c hc
    · exact (hmem ts c hc).2
  · rcases hr ts c m hc hm with ⟨hc, hm⟩ | ⟨-, hm⟩
    · exact h.assigned_le ts c m hc hm
    · exact hm ▸ hn
  have hslot := h.slots ts hts
  refine ⟨fun c hc => ?_, fun hnone b hb => ?_, fun hnone signature hsignature => ?_,
    fun c m hc hm => ?_⟩
  · rw [hwaiting] at hc
    refine hslot.waiting c ?_
    rw [hout]
    rcases Option.or_eq_some_iff.mp hc with hc | ⟨hnone, hc⟩
    · rw [hc, Option.some_or]
    · obtain ⟨hmem, hcts⟩ := hmem ts c hc
      rw [hnone, Option.none_or, ← hcts]
      exact batchAt_of_mem hnodup hmem
  · rw [hwaiting] at hnone
    rcases hended ts hnone with hnone | ⟨c, hc, rfl, hnotMissing, hsome⟩
    · exact hslot.stored hnone b hb
    · obtain ⟨d, hd, hsame⟩ := hslot.waiting c hsome
      cases (hd.symm.trans hb)
      exact (hdone c hc hnotMissing hts).1.congr hsame
  · rw [hwaiting] at hnone
    have hsignature' : (s.lane.rememberAll remembered).committed.get? ts = some signature := by
      exact (congrArg (Dict.get? · ts) committed_requeueLiveCommitBatch).symm.trans hsignature
    rcases committed_rememberAll hsignature' with ⟨bar, hbar, hbts, rfl⟩ | ⟨hnever, hbefore⟩
    · obtain ⟨c, hc, rfl⟩ := hremembered bar hbar
      rcases hended ts hnone with hnone | ⟨d, hd, hdts, -, hsome⟩
      · rw [hout, Option.or_eq_none_iff] at hnone
        exact absurd hbts (batchAt_eq_none.mp hnone.2 c hc)
      · obtain rfl := List.inj_on_of_nodup_map hnodup hc hd (hbts.trans hdts.symm)
        exact hslot.waiting c hsome
    · rcases hended ts hnone with hnone | ⟨c, hc, rfl, hnotMissing, -⟩
      · exact hslot.remembered hnone signature hbefore
      · exact absurd rfl (hnever c.bar (hdone c hc hnotMissing hts).2)
  · rcases hr ts c m hc hm with ⟨hc, hm⟩ | ⟨hback, rfl⟩
    · exact hslot.behind c m hc hm
    · obtain ⟨hmem, rfl⟩ := hmem ts c hback
      exact (hbatch c hmem hts).1

theorem Tracking.fail {receipt : Option CanonicalBarCommitReceipt} (h : s.Tracking scope)
    (hworker : s.worker = .committing n batch receipt) :
    Tracking scope { s with lane := s.lane.requeueLiveCommitBatch batch n, worker := .idle } :=
  putBack [] h hworker (List.Sublist.refl _)
    (fun _ hc hnotMissing => absurd hc hnotMissing) (by simp)

theorem Tracking.settle {o : LiveCommitOutcomes}
    (h : s.Tracking scope) (hworker : s.worker = .committing n batch (some receipt))
    (houtcomes : liveCommitReceiptOutcomes batch (some receipt) n = .ok o) :
    (s.settleBatch n o).Tracking scope := by
  have hw := h.worker
  rw [hworker] at hw
  obtain ⟨-, -, -, hbatch⟩ := hw
  obtain ⟨r, hr, -, -, hacknowledged, hsuperseded, hmissing⟩ := liveCommitReceiptOutcomes_eq_ok houtcomes
  cases hr
  refine putBack _ h hworker (hmissing ▸ List.filter_sublist) (fun c hc hnotMissing hts => ?_)
    fun bar hbar => ?_
  · obtain ⟨hnotSuperseded, hstored⟩ := (hbatch c hc hts).2 receipt rfl
    have hmem : slotSignature c.bar ∈ receipt.acknowledged.map slotSignature := by
      by_contra hnot
      refine hnotMissing (hmissing ▸ List.mem_filter.mpr ⟨hc, ?_⟩)
      rw [decide_eq_true_eq, List.mem_append]
      exact not_or.mpr ⟨hnot, hnotSuperseded⟩
    refine ⟨hstored hmem, List.mem_map_of_mem (List.mem_append_left _ ?_)⟩
    exact hacknowledged ▸ List.mem_filter.mpr ⟨hc, by simpa using hmem⟩
  · obtain ⟨c, hc, rfl⟩ := List.mem_map.mp hbar
    refine ⟨c, ?_, rfl⟩
    rw [hacknowledged, hsuperseded] at hc
    rcases List.mem_append.mp hc with hc | hc
    · exact (List.mem_filter.mp hc).1
    · exact (List.mem_filter.mp hc).1

/-! ### Runs -/

theorem Tracking.start {last : ℕ}
    (hrows : ∀ slot row, table.get? slot = some row → row.revisionSequence ≤ last) :
    (LiveSystem.start table last).Tracking scope where
  keyed := fun _ _ hb => absurd hb (by simp [LiveSystem.start, ChartCommitLane.empty])
  rows_le := hrows
  assigned_le := fun _ _ _ hb => absurd hb (by simp [LiveSystem.start, ChartCommitLane.empty])
  worker := trivial
  slots := fun ts _ => by
    constructor <;> simp [LiveSystem.start, ChartCommitLane.empty, waiting, batchAt,
      LiveWorker.inFlight]

theorem Tracking.step (h : s.Tracking scope) (hok : s.Unmasked a) (hstep : scope.Step s a t) :
    t.Tracking scope := by
  cases hstep with
  | submit bars => exact h.submit hok
  | reserve hidle =>
    have hout : s.worker.inFlight = [] := by rw [hidle]; rfl
    exact h.turn le_rfl hout rfl trivial
  | nextval hreserving hnew =>
    have hout : s.worker.inFlight = [] := by rw [hreserving]; rfl
    refine h.turn hnew.le hout rfl ⟨le_rfl, fun ts _ row hrow => ?_⟩
    exact (h.rows_le _ row hrow).trans_lt hnew
  | reserved cancelled hreserving =>
    have hassigned := h.assign hreserving
    cases cancelled with
    | true => exact hassigned
    | false => exact hassigned.takeBatch rfl
  | reserveFailed hreserving =>
    have hout : s.worker.inFlight = [] := by rw [hreserving]; rfl
    exact h.turn le_rfl hout rfl trivial
  | resume hidle => exact h.takeBatch hidle
  | write hcommitting hpart hwrite => exact h.write hcommitting hpart hwrite
  | settle hcommitting houtcomes => exact h.settle hcommitting houtcomes
  | fail hcommitting => exact h.fail hcommitting
  | @foreign table last slots remembered hlast hrows hsame hremembered =>
    obtain ⟨hp, hr, -⟩ := rememberAll_frame s.lane remembered
    have hkept : ∀ ts, ts ∉ s.overwritten ++ slots → ts ∉ s.overwritten ∧
        table.get? (scope.slot ts) = s.bars.get? (scope.slot ts) := fun ts hts =>
      ⟨fun hmem => hts (List.mem_append_left _ hmem),
        hsame ts fun hmem => hts (List.mem_append_right _ hmem)⟩
    refine ⟨fun ts b hb => h.keyed ts b (hp ▸ hb), hrows,
      fun ts b n hb hn => (h.assigned_le ts b n (hp ▸ hb) (hr ▸ hn)).trans hlast,
      h.worker.mono hlast (fun ts => hr ▸ id) hkept, fun ts hts => ?_⟩
    obtain ⟨hts', hrow⟩ := hkept ts hts
    refine (h.slots ts hts').congr (hp ▸ rfl) (hr ▸ rfl) (fun signature hsignature => ?_) rfl rfl hrow
    rcases committed_rememberAll hsignature with ⟨bar, hbar, rfl, -⟩ | ⟨-, hbefore⟩
    · exact absurd (List.mem_append_right _ (hremembered bar hbar)) hts
    · exact hbefore

theorem waiting_eq_none (h : s.Quiescent) (ts : Time) : s.waiting ts = none := by
  obtain ⟨hpending, hidle⟩ := h
  have hempty : s.lane.pending = .empty := Dict.ext hpending
  rw [waiting, hempty, hidle]
  rfl

end LiveSystem

/-- **No lost live revision.** Over any table, in every run of submissions and batch outcomes in
which no submission is masked, once the lane is quiescent the row of a slot that nobody else wrote
shows the last confirmed revision submitted for it. -/
theorem live_revisions_kept (scope : LiveScope) {table : BarsTable} {last : ℕ}
    (hrows : ∀ slot row, table.get? slot = some row → row.revisionSequence ≤ last)
    {acts : List LiveAct} {s : LiveSystem}
    (hrun : Run (Guarded LiveSystem.Unmasked scope.Step) (.start table last) acts s)
    (hquiet : s.Quiescent) {ts : Time} {b : BarObject} (hlatest : s.latest.get? ts = some b)
    (hown : ts ∉ s.overwritten) : Shows (s.bars.get? (scope.slot ts)) b := by
  have htracking : s.Tracking scope :=
    hrun.invariant (fun _ _ _ h hstep => h.step hstep.1 hstep.2) (.start hrows)
  exact (htracking.slots ts hown).stored (LiveSystem.waiting_eq_none hquiet ts) b hlatest

/-! ### A lost revision -/

def spotScope : LiveScope := ⟨spotRoute, .m1⟩

/-- A pass over one pending bar. -/
def onePass (n : ℕ) (b : BarObject) : List LiveAct :=
  [.reserve, .nextval n, .reserved false, .write [b], .settle]

/-- The revision of price `1`, committed, then the revision of price `2`, committed. -/
theorem live_revisions_kept_two :
    ∃ s : LiveSystem, Shows (s.bars.get? (spotScope.slot 0)) ⟨2, flatBar 2⟩ ∧ s.Quiescent := by
  have hrun : ∃ s, Run (Guarded LiveSystem.Unmasked spotScope.Step) (.start .empty 0)
      ([.submit [⟨1, flatBar 1⟩]] ++ onePass 1 ⟨1, flatBar 1⟩ ++
        [.submit [⟨2, flatBar 2⟩]] ++ onePass 2 ⟨2, flatBar 2⟩) s ∧
      s.Quiescent ∧ s.latest.get? 0 = some ⟨2, flatBar 2⟩ ∧ s.overwritten = [] := by
    refine ⟨_, .cons ⟨?_, .submit _⟩ (.cons ⟨trivial, .reserve rfl rfl⟩
      (.cons ⟨trivial, .nextval rfl (by decide)⟩ (.cons ⟨trivial, .reserved false rfl⟩
      (.cons ⟨trivial, .write rfl (List.Sublist.refl _) rfl⟩
      (.cons ⟨trivial, .settle rfl rfl⟩ (.cons ⟨?_, .submit _⟩
      (.cons ⟨trivial, .reserve rfl rfl⟩
      (.cons ⟨trivial, .nextval rfl (by decide)⟩ (.cons ⟨trivial, .reserved false rfl⟩
      (.cons ⟨trivial, .write rfl (List.Sublist.refl _) rfl⟩
      (.cons ⟨trivial, .settle rfl rfl⟩ (.nil _)))))))))))), ⟨rfl, rfl⟩, rfl, rfl⟩
    · exact fun h => h.elim (fun h => absurd h.1 (by decide)) id
    · exact fun h => h.elim (fun h => absurd h.1 (by decide)) id
  obtain ⟨s, hrun, hquiet, hlatest, hown⟩ := hrun
  exact ⟨s, live_revisions_kept spotScope (by simp) hrun hquiet hlatest (by simp [hown]), hquiet⟩

/-- Price `1` is committed and remembered, price `2` arrives and waits, price `1` arrives again and
is skipped; the batch then stores price `2`. -/
theorem live_revision_lost :
    ∃ s : LiveSystem, Run spotScope.Step (.start .empty 0)
      ([.submit [⟨1, flatBar 1⟩]] ++ onePass 1 ⟨1, flatBar 1⟩ ++
        [.submit [⟨2, flatBar 2⟩], .submit [⟨3, flatBar 1⟩]] ++ onePass 2 ⟨2, flatBar 2⟩) s ∧
      s.Quiescent ∧ s.overwritten = [] ∧ s.latest.get? 0 = some ⟨3, flatBar 1⟩ ∧
      Shows (s.bars.get? (spotScope.slot 0)) ⟨2, flatBar 2⟩ ∧
      ¬ Shows (s.bars.get? (spotScope.slot 0)) ⟨3, flatBar 1⟩ := by
  refine ⟨_, .cons (.submit _) (.cons (.reserve rfl rfl) (.cons (.nextval rfl (by decide))
    (.cons (.reserved false rfl) (.cons (.write rfl (List.Sublist.refl _) rfl)
    (.cons (.settle rfl rfl) (.cons (.submit _) (.cons (.submit _) (.cons (.reserve rfl rfl)
    (.cons (.nextval rfl (by decide)) (.cons (.reserved false rfl)
    (.cons (.write rfl (List.Sublist.refl _) rfl) (.cons (.settle rfl rfl) (.nil _))))))))))))),
    ⟨rfl, rfl⟩, rfl, rfl, rfl, ?_⟩
  intro hshows
  have hvalues : barValues (flatBar 2) = barValues (flatBar 1) := Option.some.inj hshows
  exact absurd hvalues (by decide)

end AefTerminal
