import AefTerminal.ChartCommits.Lane

/-!
# What the lane operations do to a slot

One lemma for each operation, slot by slot: what is pending, what sequence it has and what is
remembered as committed. Only the pending map is exact. The memory of committed revisions loses
entries, so its lemmas say what an entry that is there can be.
-/

namespace AefTerminal

open Foundation

namespace ChartCommitLane

variable {lane : ChartCommitLane} {ts : Time} {n : ℕ}

/-! ### The committed memory -/

section Remember

variable {at_ : Time} {signature remembered : RevisionSignature} {bars : List Bar}

/-- What is remembered for a slot is what was last settled there, or was remembered before. -/
theorem committed_rememberCommitted
    (h : (lane.rememberCommitted at_ signature).committed.get? ts = some remembered) :
    (ts = at_ ∧ remembered = signature) ∨ (ts ≠ at_ ∧ lane.committed.get? ts = some remembered) := by
  have hinsert : ∀ d : Dict Time RevisionSignature,
      (d.insert at_ signature).get? ts = some remembered →
      (ts = at_ ∧ remembered = signature) ∨ (ts ≠ at_ ∧ d.get? ts = some remembered) := by
    intro d hd
    rw [Dict.get?_insert] at hd
    split at hd
    · exact .inl ⟨‹_›, (Option.some.inj hd).symm⟩
    · exact .inr ⟨‹_›, hd⟩
  -- a slot that is not remembered has no entry, at the limit too
  have habsent : at_ ∉ lane.committed.keys → lane.committed.get? ts = some remembered → ts ≠ at_ := by
    rintro hnone hts rfl
    exact hnone (Dict.mem_keys_of_get? hts)
  unfold rememberCommitted at h
  split at h
  · exact hinsert _ h
  rename_i hnone
  split at h
  · split at h
    · exact .inr ⟨habsent hnone h, h⟩
    · split at h
      · exact .inr ⟨habsent hnone h, h⟩
      · refine (hinsert _ h).imp_right (And.imp_right fun hget => ?_)
        rw [Dict.get?_erase] at hget
        split at hget
        · exact absurd hget (by simp)
        · exact hget
  · exact hinsert _ h

/-- Remembering touches nothing else. -/
theorem rememberCommitted_frame (lane : ChartCommitLane) (at_ : Time)
    (signature : RevisionSignature) :
    (lane.rememberCommitted at_ signature).pending = lane.pending ∧
      (lane.rememberCommitted at_ signature).revisionSequences = lane.revisionSequences ∧
      (lane.rememberCommitted at_ signature).historyPending = lane.historyPending := by
  unfold rememberCommitted
  repeat' split
  all_goals exact ⟨rfl, rfl, rfl⟩

theorem rememberAll_frame (lane : ChartCommitLane) (bars : List Bar) :
    (lane.rememberAll bars).pending = lane.pending ∧
      (lane.rememberAll bars).revisionSequences = lane.revisionSequences ∧
      (lane.rememberAll bars).historyPending = lane.historyPending := by
  induction bars generalizing lane with
  | nil => exact ⟨rfl, rfl, rfl⟩
  | cons bar bars ih =>
    rw [rememberAll, List.foldl_cons, ← rememberAll]
    obtain ⟨hp, hr, hh⟩ := rememberCommitted_frame lane bar.ts (barIngressRevisionSignature bar)
    obtain ⟨hp', hr', hh'⟩ := ih (lane.rememberCommitted bar.ts (barIngressRevisionSignature bar))
    exact ⟨hp'.trans hp, hr'.trans hr, hh'.trans hh⟩

theorem committed_rememberAll (h : (lane.rememberAll bars).committed.get? ts = some remembered) :
    (∃ bar ∈ bars, bar.ts = ts ∧ remembered = barIngressRevisionSignature bar) ∨
      ((∀ bar ∈ bars, bar.ts ≠ ts) ∧ lane.committed.get? ts = some remembered) := by
  induction bars generalizing lane with
  | nil => exact .inr ⟨by simp, h⟩
  | cons bar bars ih =>
    rw [rememberAll, List.foldl_cons, ← rememberAll] at h
    rcases ih h with ⟨b, hb, hts, hsig⟩ | ⟨hnone, hget⟩
    · exact .inl ⟨b, List.mem_cons_of_mem _ hb, hts, hsig⟩
    · rcases committed_rememberCommitted hget with ⟨hts, hsig⟩ | ⟨hne, hget⟩
      · exact .inl ⟨bar, List.mem_cons_self .., hts.symm, hsig⟩
      · refine .inr ⟨fun b hb => ?_, hget⟩
        rcases List.mem_cons.mp hb with rfl | hb
        · exact hne.symm
        · exact hnone b hb

end Remember

/-! ### Submission -/

/-- A bar that is not skipped becomes the pending bar of its slot, without a sequence. -/
theorem submitBar_cases (lane : ChartCommitLane) (b : BarObject) :
    (lane.IsCommitted b ∧ lane.submitBar b = lane) ∨ (lane.IsPending b ∧ lane.submitBar b = lane) ∨
      (¬ lane.IsCommitted b ∧ lane.submitBar b =
        { lane with
          pending := lane.pending.insert b.ts b
          revisionSequences := lane.revisionSequences.erase b.ts }) := by
  unfold submitBar
  split
  · exact .inl ⟨‹_›, rfl⟩
  · split
    · exact .inr (.inl ⟨‹_›, rfl⟩)
    · exact .inr (.inr ⟨‹_›, rfl⟩)

/-! ### Sequences -/

/-- Only a bar of the snapshot that still waits gets the sequence. -/
theorem revisionSequences_assignSequence {snapshot : Dict Time BarObject} {m : ℕ}
    (h : (lane.assignSequence snapshot n).revisionSequences.get? ts = some m) :
    (m = n ∧ ∃ b, snapshot.get? ts = some b ∧ lane.pending.get? ts = some b) ∨
      lane.revisionSequences.get? ts = some m := by
  have hfold : ∀ (l : List (Time × BarObject)) (d : Dict Time ℕ),
      (l.foldl (fun sequences e =>
        if lane.pending.get? e.1 = some e.2 then sequences.insert e.1 n else sequences) d).get? ts =
        some m →
      (m = n ∧ ∃ b, (ts, b) ∈ l ∧ lane.pending.get? ts = some b) ∨ d.get? ts = some m := by
    intro l
    induction l with
    | nil => exact fun _ => .inr
    | cons e l ih =>
      intro d hd
      rcases ih _ hd with ⟨hm, b, hb, hp⟩ | hd
      · exact .inl ⟨hm, b, List.mem_cons_of_mem _ hb, hp⟩
      · dsimp only at hd
        split at hd
        · rename_i hp
          rw [Dict.get?_insert] at hd
          split at hd
          · rename_i hts
            exact .inl ⟨(Option.some.inj hd).symm, e.2, hts ▸ List.mem_cons_self .., hts ▸ hp⟩
          · exact .inr hd
        · exact .inr hd
  refine (hfold snapshot.entries lane.revisionSequences h).imp_left ?_
  rintro ⟨hm, b, hb, hp⟩
  exact ⟨hm, b, Dict.get?_eq_some_iff.mpr hb, hp⟩

/-! ### Batches -/

theorem mem_batchSlots :
    ts ∈ lane.batchSlots n ↔ lane.revisionSequences.get? ts = some n ∧ ts ∈ lane.pending.keys := by
  unfold batchSlots
  simp only [List.mem_insertionSort, List.mem_map, List.mem_filter, Dict.get?_eq_some_iff,
    decide_eq_true_eq]
  constructor
  · rintro ⟨e, ⟨he, rfl, hp⟩, rfl⟩
    exact ⟨he, hp⟩
  · rintro ⟨hts, hp⟩
    exact ⟨(ts, n), ⟨hts, rfl, hp⟩, rfl⟩

theorem batchSlots_nodup : (lane.batchSlots n).Nodup := by
  refine (List.perm_insertionSort ..).nodup_iff.mpr ?_
  exact lane.revisionSequences.nodup_keys.sublist (List.filter_sublist.map _)

/-- The bar of a slot in a batch. -/
def batchAt (batch : List BarObject) (ts : Time) : Option BarObject :=
  batch.find? fun b => b.ts = ts

variable {b : BarObject} {batch : List BarObject}

theorem batchAt_eq_some (h : batchAt batch ts = some b) : b ∈ batch ∧ b.ts = ts :=
  ⟨List.mem_of_find?_eq_some h, by simpa using List.find?_some h⟩

theorem batchAt_cons_self :
    batchAt (b :: batch) b.ts = some b := by
  rw [batchAt, List.find?_cons_of_pos (by simp)]

theorem batchAt_cons_of_ne (h : b.ts ≠ ts) :
    batchAt (b :: batch) ts = batchAt batch ts := by
  rw [batchAt, List.find?_cons_of_neg (by simpa using h)]
  rfl

theorem batchAt_of_mem
    (hnodup : (batch.map BarObject.ts).Nodup) (hb : b ∈ batch) : batchAt batch b.ts = some b := by
  induction batch with
  | nil => exact absurd hb (by simp)
  | cons c batch ih =>
    obtain ⟨hfresh, hnodup⟩ := List.nodup_cons.mp hnodup
    rcases List.mem_cons.mp hb with rfl | hb
    · exact batchAt_cons_self
    · have hne : c.ts ≠ b.ts := fun heq => hfresh (heq ▸ List.mem_map_of_mem hb)
      rw [batchAt_cons_of_ne hne]
      exact ih hnodup hb

theorem batchAt_eq_none :
    batchAt batch ts = none ↔ ∀ b ∈ batch, b.ts ≠ ts := by
  simp [batchAt, List.find?_eq_none]

theorem pending_popLiveCommitBatch :
    (lane.popLiveCommitBatch n).2.pending.get? ts =
      if lane.revisionSequences.get? ts = some n then none else lane.pending.get? ts := by
  simp only [popLiveCommitBatch, Dict.get?_eraseAll, mem_batchSlots]
  by_cases hn : lane.revisionSequences.get? ts = some n
  · by_cases hp : ts ∈ lane.pending.keys
    · simp [hn, hp]
    · simp [hn, hp, Dict.notMem_keys_iff.mp hp]
  · simp [hn]

section Pop

variable (hkeyed : ∀ ts b, lane.pending.get? ts = some b → b.ts = ts)

include hkeyed

/-- The popped batch holds the pending bars of its slots. -/
theorem mem_popLiveCommitBatch {b : BarObject} :
    b ∈ (lane.popLiveCommitBatch n).1 ↔
      lane.pending.get? b.ts = some b ∧ lane.revisionSequences.get? b.ts = some n := by
  simp only [popLiveCommitBatch, List.mem_filterMap]
  constructor
  · rintro ⟨ts, hts, hb⟩
    obtain rfl := hkeyed ts b hb
    exact ⟨hb, (mem_batchSlots.mp hts).1⟩
  · rintro ⟨hb, hn⟩
    exact ⟨b.ts, mem_batchSlots.mpr ⟨hn, Dict.mem_keys_of_get? hb⟩, hb⟩

theorem popLiveCommitBatch_nodup :
    ((lane.popLiveCommitBatch n).1.map BarObject.ts).Nodup := by
  have hslots : ∀ slots : List Time,
      ((slots.filterMap lane.pending.get?).map BarObject.ts).Sublist slots := by
    intro slots
    induction slots with
    | nil => exact List.Sublist.refl _
    | cons ts slots ih =>
      rw [List.filterMap_cons]
      cases hts : lane.pending.get? ts with
      | none => exact ih.cons _
      | some b =>
        simp only [List.map_cons]
        rw [hkeyed ts b hts]
        exact ih.cons_cons _
  exact batchSlots_nodup.sublist (hslots _)

theorem batchAt_popLiveCommitBatch :
    batchAt (lane.popLiveCommitBatch n).1 ts =
      if lane.revisionSequences.get? ts = some n then lane.pending.get? ts else none := by
  split
  · rename_i hn
    cases hp : lane.pending.get? ts with
    | none =>
      refine batchAt_eq_none.mpr fun b hb hts => ?_
      have hb' := ((mem_popLiveCommitBatch hkeyed).mp hb).1
      rw [hts, hp] at hb'
      exact absurd hb' (by simp)
    | some b =>
      obtain rfl := hkeyed ts b hp
      exact batchAt_of_mem (popLiveCommitBatch_nodup hkeyed)
        ((mem_popLiveCommitBatch hkeyed).mpr ⟨hp, hn⟩)
  · rename_i hn
    refine batchAt_eq_none.mpr fun b hb hts => hn ?_
    rw [← hts]
    exact ((mem_popLiveCommitBatch hkeyed).mp hb).2

end Pop

/-- A bar that is out has no sequence in the lane. -/
theorem revisionSequences_of_mem_popLiveCommitBatch
    (hkeyed : ∀ ts b, lane.pending.get? ts = some b → b.ts = ts)
    (hb : b ∈ (lane.popLiveCommitBatch n).1) :
    (lane.popLiveCommitBatch n).2.revisionSequences.get? b.ts = none := by
  obtain ⟨hpending, hsequence⟩ := (mem_popLiveCommitBatch hkeyed).mp hb
  have hslot : b.ts ∈ lane.batchSlots n :=
    mem_batchSlots.mpr ⟨hsequence, Dict.mem_keys_of_get? hpending⟩
  simp [popLiveCommitBatch, hslot]

theorem revisionSequences_popLiveCommitBatch {m : ℕ}
    (h : (lane.popLiveCommitBatch n).2.revisionSequences.get? ts = some m) :
    lane.revisionSequences.get? ts = some m := by
  simp only [popLiveCommitBatch, Dict.get?_eraseAll] at h
  split at h
  · exact absurd h (by simp)
  · exact h

/-! ### Going back -/

/-- A bar of the batch goes back to a slot that is free. -/
theorem pending_requeueLiveCommitBatch :
    (lane.requeueLiveCommitBatch batch n).pending.get? ts =
      (lane.pending.get? ts).or (batchAt batch ts) := by
  induction batch generalizing lane with
  | nil => simp [requeueLiveCommitBatch, batchAt]
  | cons b batch ih =>
    rw [requeueLiveCommitBatch, List.foldl_cons, ← requeueLiveCommitBatch, ih]
    unfold requeueBar
    by_cases hts : b.ts = ts
    · subst hts
      rw [batchAt_cons_self]
      split
      · rename_i hp
        obtain ⟨c, hc⟩ := Option.isSome_iff_exists.mp (Dict.mem_keys_iff.mp hp)
        simp [hc]
      · rename_i hp
        simp [Dict.notMem_keys_iff.mp hp]
    · rw [batchAt_cons_of_ne hts]
      split
      · rfl
      · simp [Dict.get?_insert_of_ne _ (Ne.symm hts)]

theorem committed_requeueLiveCommitBatch :
    (lane.requeueLiveCommitBatch batch n).committed = lane.committed := by
  induction batch generalizing lane with
  | nil => rfl
  | cons b batch ih =>
    rw [requeueLiveCommitBatch, List.foldl_cons, ← requeueLiveCommitBatch, ih, requeueBar]
    split
    · rfl
    · rfl

/-- It goes back under the sequence of the batch; what waited keeps its own. -/
theorem revisionSequences_requeueLiveCommitBatch {m : ℕ}
    (hseq : (lane.requeueLiveCommitBatch batch n).revisionSequences.get? ts = some m)
    (hb : (lane.requeueLiveCommitBatch batch n).pending.get? ts = some b) :
    (lane.pending.get? ts = some b ∧ lane.revisionSequences.get? ts = some m) ∨
      (lane.pending.get? ts = none ∧ batchAt batch ts = some b ∧ m = n) := by
  induction batch generalizing lane with
  | nil => exact .inl ⟨hb, hseq⟩
  | cons c batch ih =>
    rw [requeueLiveCommitBatch, List.foldl_cons, ← requeueLiveCommitBatch] at hseq hb
    rcases ih hseq hb with ⟨hp, hm⟩ | ⟨hp, hbatch, rfl⟩
    · unfold requeueBar at hp hm
      split at hp
      · exact .inl ⟨hp, by simpa [*] using hm⟩
      · rename_i hfree
        simp only [if_neg hfree] at hm
        by_cases hts : ts = c.ts
        · subst hts
          rw [Dict.get?_insert_self] at hp hm
          cases hp
          refine .inr ⟨Dict.notMem_keys_iff.mp hfree, ?_, (Option.some.inj hm).symm⟩
          exact batchAt_cons_self
        · rw [Dict.get?_insert_of_ne _ hts] at hp hm
          exact .inl ⟨hp, hm⟩
    · unfold requeueBar at hp
      split at hp
      · rename_i htaken
        have hts : c.ts ≠ ts := by
          rintro rfl
          exact Dict.notMem_keys_iff.mpr hp htaken
        exact .inr ⟨hp, (batchAt_cons_of_ne hts).trans hbatch, rfl⟩
      · by_cases hts : ts = c.ts
        · subst hts
          rw [Dict.get?_insert_self] at hp
          exact absurd hp (by simp)
        · rw [Dict.get?_insert_of_ne _ hts] at hp
          exact .inr ⟨hp, (batchAt_cons_of_ne (Ne.symm hts)).trans hbatch, rfl⟩

end ChartCommitLane

/-! ### Receipts -/

theorem liveCommitReceiptOutcomes_eq_ok {batch : List BarObject}
    {receipt : Option CanonicalBarCommitReceipt} {n : ℕ} {o : LiveCommitOutcomes}
    (h : liveCommitReceiptOutcomes batch receipt n = .ok o) :
    ∃ r, receipt = some r ∧ r.revisionSequence = n ∧ r.rejected = [] ∧
      o.acknowledged = batch.filter (fun b => slotSignature b.bar ∈ r.acknowledged.map slotSignature) ∧
      o.superseded = batch.filter (fun b => slotSignature b.bar ∈ r.superseded.map slotSignature) ∧
      o.missing = batch.filter (fun b => slotSignature b.bar ∉
        r.acknowledged.map slotSignature ++ r.superseded.map slotSignature) := by
  unfold liveCommitReceiptOutcomes at h
  split at h
  · exact absurd h (by simp)
  · rename_i r
    obtain ⟨_, hseq, h⟩ := bind_eq_ok.mp h
    obtain ⟨_, hrejected, h⟩ := bind_eq_ok.mp h
    obtain ⟨_, -, h⟩ := bind_eq_ok.mp h
    obtain ⟨_, -, h⟩ := bind_eq_ok.mp h
    obtain rfl := pure_eq_ok.mp h
    exact ⟨r, rfl, require_eq_ok.mp hseq, require_eq_ok.mp hrejected, rfl, rfl, rfl⟩

end AefTerminal
