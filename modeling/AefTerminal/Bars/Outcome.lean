import AefTerminal.Bars.Storage

/-!
# What a committed batch did

`writeBarsOnCursor_outcome` is the one lemma about the transaction: which bars were admitted, what
each slot holds afterwards, and how the readback sorted the batch. Storage admits only closed
bars, so the receipt's comparison of signatures is a comparison of the value columns.

## Main results

* `barRevisionSignature_readback`: equal signatures are equal value columns
* `writeBarsOnCursor_outcome`
-/

namespace AefTerminal

open Foundation

variable {route : StorageRoute} {bar : Bar} {bars : List Bar} {seq : ℕ}

/-! ### Admission -/

/-- The bar passes every check of the storage boundary. -/
def Admitted (route : StorageRoute) (bar : Bar) : Prop :=
  storageBarRejectReason route bar = .ok none

instance : DecidablePred (Admitted route) := fun bar =>
  inferInstanceAs (Decidable (storageBarRejectReason route bar = .ok none))

/-- The admitted bars of a batch. -/
def admittedBars (route : StorageRoute) (bars : List Bar) : List Bar :=
  bars.filter fun bar => Admitted route bar

theorem allowedBars_eq_ok {allowed : List Bar} (h : allowedBars route bars = .ok allowed) :
    allowed = admittedBars route bars := by
  induction bars generalizing allowed with
  | nil =>
    rw [allowedBars] at h
    exact (Except.ok.inj h).symm
  | cons bar bars ih =>
    rw [allowedBars] at h
    obtain ⟨reason, hreason, h⟩ := bind_eq_ok.mp h
    obtain ⟨rest, hrest, h⟩ := bind_eq_ok.mp h
    rw [← pure_eq_ok.mp h, ih hrest, admittedBars, admittedBars]
    by_cases hnone : reason = none
    · have hadm : Admitted route bar := by rw [Admitted, hreason, hnone]
      rw [if_pos hnone, List.filter_cons_of_pos (by simpa using hadm)]
    · have hadm : ¬ Admitted route bar := fun hadm =>
        hnone (Except.ok.inj (hreason.symm.trans hadm))
      rw [if_neg hnone, List.filter_cons_of_neg (by simpa using hadm)]

/-- An admitted bar is confirmed. -/
theorem Admitted.confirmed (h : Admitted route bar) : bar.state = .confirmed := by
  rw [Admitted, storageBarRejectReason] at h
  split at h
  · exact absurd h (by simp)
  · split at h
    · rename_i hnone
      rw [← isProvisionalBar_eq_false]
      by_contra hp
      rw [Bool.not_eq_false] at hp
      rw [authoritativeBarRejectReason, if_pos hp] at hnone
      exact absurd hnone (by simp)
    · split at h <;> exact absurd h (by simp)

theorem Admitted.closed (h : Admitted route bar) : (barValues bar).closed = true :=
  bar.lifecycle.mpr h.confirmed

/-! ### The upsert -/

theorem barSlot_eq_iff {a b : Bar} : barSlot route a = barSlot route b ↔
    receiptSlot a = receiptSlot b := by
  simp [barSlot, receiptSlot]

variable {l : List Bar} {t : BarsTable}

theorem upsertBars_get?_of_ne {slot : BarSlot} (h : ∀ bar ∈ l, barSlot route bar ≠ slot) :
    (upsertBars route seq l t).2.get? slot = t.get? slot := by
  induction l generalizing t with
  | nil => rfl
  | cons bar l ih =>
    simp only [upsertBars]
    rw [ih fun b hb => h b (List.mem_cons_of_mem _ hb),
      Dict.get?_insert_of_ne _ (h bar (List.mem_cons_self ..)).symm]

/-- With one input row for each slot, every input row meets the row stored before the call. -/
theorem upsertBars_get?_of_mem (hnodup : (l.map receiptSlot).Nodup) (hbar : bar ∈ l) :
    (upsertBars route seq l t).2.get? (barSlot route bar) =
      some (upsertCell (t.get? (barSlot route bar)) (storedBar route seq bar)) := by
  induction l generalizing t with
  | nil => exact absurd hbar (by simp)
  | cons b l ih =>
    obtain ⟨hfresh, hnodup⟩ := List.nodup_cons.mp hnodup
    have hne : ∀ c ∈ l, barSlot route c ≠ barSlot route b := fun c hc heq =>
      hfresh (barSlot_eq_iff.mp heq ▸ List.mem_map_of_mem hc)
    simp only [upsertBars]
    rcases List.mem_cons.mp hbar with rfl | hbar
    · rw [upsertBars_get?_of_ne hne, Dict.get?_insert_self]
    · rw [ih hnodup hbar, Dict.get?_insert_of_ne _ (hne bar hbar)]

/-! ### The receipt -/

/-- Two closed bars of one slot have the same signature exactly when their values agree. -/
theorem barRevisionSignature_readback (row : StoredBar) (h : bar.state = .confirmed) :
    barRevisionSignature (readbackBar route (barSlot route bar) row) = barRevisionSignature bar ↔
      row.values = barValues bar := by
  have hclosed : bar.closed = true := bar.lifecycle.mpr h
  obtain ⟨provider, symbol, ⟨o, hi, lo, c, v, src, closed, hv, hg⟩, n⟩ := row
  simp only [barRevisionSignature, readbackBar, barValues, barSlot, BarRevisionSignature.mk.injEq,
    BarValues.mk.injEq, h, hclosed]
  cases closed <;> simp

theorem classifyBars_eq_ok {persisted : List (Bar × ℕ)} {acknowledged superseded : List Bar}
    (h : classifyBars persisted seq l = .ok (acknowledged, superseded)) :
    acknowledged = l.filter (fun bar => classifyBar persisted seq bar = .ok true) ∧
      superseded = l.filter (fun bar => classifyBar persisted seq bar = .ok false) ∧
      ∀ bar ∈ l, ∃ b, classifyBar persisted seq bar = .ok b := by
  induction l generalizing acknowledged superseded with
  | nil =>
    rw [classifyBars] at h
    cases (Except.ok.inj h)
    simp
  | cons bar l ih =>
    rw [classifyBars] at h
    obtain ⟨b, hb, h⟩ := bind_eq_ok.mp h
    obtain ⟨⟨a, s⟩, hrest, h⟩ := bind_eq_ok.mp h
    obtain ⟨rfl, rfl, hall⟩ := ih hrest
    have h := pure_eq_ok.mp h
    cases b with
    | true =>
      cases h
      refine ⟨by simp [hb], by simp [hb], fun c hc => ?_⟩
      rcases List.mem_cons.mp hc with rfl | hc
      · exact ⟨true, hb⟩
      · exact hall c hc
    | false =>
      cases h
      refine ⟨by simp [hb], by simp [hb], fun c hc => ?_⟩
      rcases List.mem_cons.mp hc with rfl | hc
      · exact ⟨false, hb⟩
      · exact hall c hc

/-- The readback of a bar's own slot is found by its receipt slot. -/
theorem find?_readback {row : StoredBar} (hnodup : (l.map receiptSlot).Nodup) (hbar : bar ∈ l)
    (hrow : t.get? (barSlot route bar) = some row) :
    (readback route t l).find? (fun p => receiptSlot p.1 = receiptSlot bar) =
      some (readbackBar route (barSlot route bar) row, row.revisionSequence) := by
  have hslot : ∀ (b : Bar) (r : StoredBar),
      receiptSlot (readbackBar route (barSlot route b) r) = receiptSlot b := fun b r => by
    simp [receiptSlot, readbackBar, barSlot]
  induction l with
  | nil => exact absurd hbar (by simp)
  | cons b l ih =>
    obtain ⟨hfresh, hnodup⟩ := List.nodup_cons.mp hnodup
    rcases List.mem_cons.mp hbar with rfl | hbar
    · rw [readback, List.filterMap_cons, hrow]
      simp only [Option.map_some]
      rw [List.find?_cons_of_pos (by simp [hslot])]
    · have hne : receiptSlot b ≠ receiptSlot bar := fun heq =>
        hfresh (heq ▸ List.mem_map_of_mem hbar)
      rw [readback, List.filterMap_cons]
      cases hb : t.get? (barSlot route b) with
      | none => exact ih hnodup hbar
      | some r =>
        simp only [Option.map_some]
        rw [List.find?_cons_of_neg (by simpa [hslot] using hne)]
        exact ih hnodup hbar

/-! ### The transaction -/

/-- What a successful call did to the table, and what its receipt says about it. -/
structure WriteOutcome (t : BarsTable) (route : StorageRoute) (bars : List Bar) (seq : ℕ)
    (receipt : CanonicalBarCommitReceipt) (t' : BarsTable) : Prop where
  /-- One admitted bar for each slot. -/
  slots_nodup : ((admittedBars route bars).map receiptSlot).Nodup
  /-- Each admitted bar meets the row stored before the call. -/
  get?_of_mem : ∀ bar ∈ admittedBars route bars, t'.get? (barSlot route bar) =
    some (upsertCell (t.get? (barSlot route bar)) (storedBar route seq bar))
  get?_of_ne : ∀ slot, (∀ bar ∈ admittedBars route bars, barSlot route bar ≠ slot) →
    t'.get? slot = t.get? slot
  /-- Acknowledged: the row shows the bar's values. -/
  acknowledged : receipt.acknowledged = (admittedBars route bars).filter fun bar =>
    (t'.get? (barSlot route bar)).map StoredBar.values = some (barValues bar)
  /-- Superseded: the row shows other values, under a newer sequence. -/
  superseded : receipt.superseded = (admittedBars route bars).filter fun bar =>
    (t'.get? (barSlot route bar)).map StoredBar.values ≠ some (barValues bar)
  newer_of_superseded : ∀ bar ∈ receipt.superseded, ∀ row,
    t'.get? (barSlot route bar) = some row → seq < row.revisionSequence
  rejected : receipt.rejected = bars.filter fun bar => bar ∉ admittedBars route bars
  revisionSequence : receipt.revisionSequence = seq

theorem writeBarsOnCursor_outcome {t' : BarsTable} {receipt : CanonicalBarCommitReceipt}
    (h : writeBarsOnCursor t route bars seq = .ok (receipt, t')) :
    WriteOutcome t route bars seq receipt t' := by
  unfold writeBarsOnCursor at h
  obtain ⟨_, -, h⟩ := bind_eq_ok.mp h
  split at h
  · rename_i hempty
    cases (pure_eq_ok.mp h)
    subst hempty
    constructor <;> simp [admittedBars]
  obtain ⟨_, -, h⟩ := bind_eq_ok.mp h
  obtain ⟨_, -, h⟩ := bind_eq_ok.mp h
  obtain ⟨_, -, h⟩ := bind_eq_ok.mp h
  obtain ⟨allowed, hallowed, h⟩ := bind_eq_ok.mp h
  obtain rfl := allowedBars_eq_ok hallowed
  split at h
  · rename_i hempty
    cases (pure_eq_ok.mp h)
    constructor <;> simp [hempty]
  obtain ⟨_, hnodup, h⟩ := bind_eq_ok.mp h
  rw [require_eq_ok] at hnodup
  obtain ⟨receipt', hreceipt, h⟩ := bind_eq_ok.mp h
  cases (pure_eq_ok.mp h)
  unfold canonicalBarCommitReceipt at hreceipt
  obtain ⟨⟨acknowledged, superseded⟩, hclass, hreceipt⟩ := bind_eq_ok.mp hreceipt
  obtain rfl := pure_eq_ok.mp hreceipt
  obtain ⟨hack, hsup, hall⟩ := classifyBars_eq_ok hclass
  have hperm := List.perm_insertionSort inputOrder (admittedBars route bars)
  have hnodup' : (((admittedBars route bars).insertionSort inputOrder).map receiptSlot).Nodup :=
    (hperm.map receiptSlot).nodup_iff.mpr hnodup
  have hget : ∀ bar ∈ admittedBars route bars,
      (upsertBars route seq ((admittedBars route bars).insertionSort inputOrder) t).2.get?
        (barSlot route bar) =
        some (upsertCell (t.get? (barSlot route bar)) (storedBar route seq bar)) := fun bar hb =>
    upsertBars_get?_of_mem hnodup' (hperm.mem_iff.mpr hb)
  -- the classification of an admitted bar, from the row its slot holds after the call
  have hclassify : ∀ bar ∈ admittedBars route bars, ∀ row,
      (upsertBars route seq ((admittedBars route bars).insertionSort inputOrder) t).2.get?
        (barSlot route bar) = some row →
      ((classifyBar (readback route
          (upsertBars route seq ((admittedBars route bars).insertionSort inputOrder) t).2
          ((admittedBars route bars).insertionSort inputOrder)) seq bar = .ok true ↔
        row.values = barValues bar) ∧
      (classifyBar (readback route
          (upsertBars route seq ((admittedBars route bars).insertionSort inputOrder) t).2
          ((admittedBars route bars).insertionSort inputOrder)) seq bar = .ok false →
        seq < row.revisionSequence)) := by
    intro bar hb row hrow
    have hadm : Admitted route bar := by simpa using (List.mem_filter.mp hb).2
    rw [classifyBar, find?_readback hnodup' (hperm.mem_iff.mpr hb) hrow]
    simp only [barRevisionSignature_readback row hadm.confirmed]
    by_cases hv : row.values = barValues bar
    · simp [hv]
    · rw [if_neg hv]
      by_cases hn : row.revisionSequence > seq
      · simp [hv, hn]
      · simp [hv, hn]
  refine ⟨hnodup, hget, fun slot hslot => ?_, ?_, ?_, ?_, rfl, rfl⟩
  · exact upsertBars_get?_of_ne fun bar hb => hslot bar (hperm.mem_iff.mp hb)
  · rw [hack]
    refine List.filter_congr fun bar hb => ?_
    have hrow := hget bar hb
    simp only [(hclassify bar hb _ hrow).1, hrow, Option.map_some, Option.some.injEq]
  · rw [hsup]
    refine List.filter_congr fun bar hb => ?_
    have hrow := hget bar hb
    obtain ⟨b, hcb⟩ := hall bar hb
    have hiff := (hclassify bar hb _ hrow).1
    simp only [hrow, Option.map_some, ne_eq, Option.some.injEq, ← hiff, hcb, Except.ok.injEq]
    cases b <;> simp
  · intro bar hb row hrow
    rw [hsup] at hb
    obtain ⟨hmem, hfalse⟩ := List.mem_filter.mp hb
    exact (hclassify bar hmem row hrow).2 (by simpa using hfalse)

end AefTerminal
