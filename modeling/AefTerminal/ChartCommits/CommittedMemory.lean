import AefTerminal.ChartCommits.Lane
import AefTerminal.Foundation.BinaryHeap
import AefTerminal.Foundation.Greatest
import AefTerminal.Foundation.Grouping

/-!
# The memory of settled revisions

A lane remembers the signatures of the slots it has settled last, in a dictionary, and keeps the
slots in a heap beside it. At the limit the first slot of the heap makes room for a newer one. The
two are read without a check: an empty heap at the limit, or a first slot that the dictionary does
not have, would raise.

They stay in step, so nothing raises, and what is remembered are the greatest slots.

## Main definitions

* `CommittedMemory`, `CommittedMemory.rememberCommitted`

## Main results

* `ChartCommitLane.Keeps.rememberCommitted`: the lane, which keeps its slots sorted, remembers the
  same
* `committed_memory_bounded`
-/

namespace AefTerminal

open Foundation

inductive CommittedMemoryError
  | indexError
  | keyError (slot : Time)
  deriving DecidableEq, Repr

structure CommittedMemory where
  committed : Dict Time RevisionSignature
  committedSlots : List Time

namespace CommittedMemory

def empty : CommittedMemory := ⟨.empty, []⟩

/-- `remember_committed` -/
def rememberCommitted (m : CommittedMemory) (ts : Time) (signature : RevisionSignature) :
    Except CommittedMemoryError CommittedMemory :=
  if ts ∈ m.committed.keys then .ok { m with committed := m.committed.insert ts signature }
  else if chartCommitDedupeTail ≤ m.committed.size then
    match m.committedSlots with
    | [] => .error .indexError
    | oldest :: rest =>
      if ts ≤ oldest then .ok m
      else if oldest ∈ m.committed.keys then
        .ok ⟨(m.committed.erase oldest).insert ts signature, heapreplace (oldest :: rest) ts⟩
      else .error (.keyError oldest)
  else .ok ⟨m.committed.insert ts signature, heappush m.committedSlots ts⟩

/-- The calls one after another. -/
def rememberAll (m : CommittedMemory) (calls : List (Time × RevisionSignature)) :
    Except CommittedMemoryError CommittedMemory :=
  calls.foldlM (fun m call => m.rememberCommitted call.1 call.2) m

/-! ### Heap and dictionary -/

/-- The heap has the keys of the dictionary, each once. -/
structure InStep (m : CommittedMemory) : Prop where
  ordered : HeapOrdered m.committedSlots
  perm : m.committedSlots.Perm m.committed.keys

theorem inStep_empty : empty.InStep := ⟨heapOrdered_nil, .refl _⟩

variable {m : CommittedMemory} {ts : Time} {signature : RevisionSignature}

variable {d : Dict Time RevisionSignature}

theorem perm_keys_insert (h : ts ∉ d.keys) :
    (d.insert ts signature).keys.Perm (ts :: d.keys) := by
  rw [Dict.keys_insert_of_notMem h]
  exact List.perm_append_singleton ts d.keys

/-- What a call does: it overwrites, it adds, it leaves a slot out, or it puts one in the place of
the least. -/
theorem InStep.rememberCommitted_cases (h : m.InStep) (ts : Time) (signature : RevisionSignature) :
    (ts ∈ m.committed.keys ∧
      m.rememberCommitted ts signature = .ok { m with committed := m.committed.insert ts signature }) ∨
    (ts ∉ m.committed.keys ∧ m.committed.size < chartCommitDedupeTail ∧
      m.rememberCommitted ts signature =
        .ok ⟨m.committed.insert ts signature, heappush m.committedSlots ts⟩) ∨
    (ts ∉ m.committed.keys ∧ chartCommitDedupeTail ≤ m.committed.size ∧ ∃ oldest rest,
      m.committedSlots = oldest :: rest ∧ oldest ∈ m.committed.keys ∧
      (∀ slot ∈ m.committed.keys, oldest ≤ slot) ∧
      ((ts ≤ oldest ∧ m.rememberCommitted ts signature = .ok m) ∨
        (oldest < ts ∧ m.rememberCommitted ts signature =
          .ok ⟨(m.committed.erase oldest).insert ts signature, heapreplace (oldest :: rest) ts⟩))) := by
  by_cases hmem : ts ∈ m.committed.keys
  · exact .inl ⟨hmem, by rw [rememberCommitted, if_pos hmem]⟩
  refine .inr ?_
  by_cases hfull : chartCommitDedupeTail ≤ m.committed.size
  · refine .inr ⟨hmem, hfull, ?_⟩
    cases hslots : m.committedSlots with
    | nil =>
      have hlength : m.committed.size = 0 := by
        rw [← Dict.length_keys, ← h.perm.length_eq, hslots, List.length_nil]
      exact absurd hfull (by rw [hlength]; decide)
    | cons oldest rest =>
      have holdest : oldest ∈ m.committed.keys :=
        h.perm.mem_iff.mp (hslots ▸ List.mem_cons_self ..)
      have hleast : ∀ slot ∈ m.committed.keys, oldest ≤ slot := fun slot hslot =>
        h.ordered.head_le (by rw [hslots]; rfl) (h.perm.mem_iff.mpr hslot)
      refine ⟨oldest, rest, rfl, holdest, hleast, ?_⟩
      rw [rememberCommitted, if_neg hmem, if_pos hfull, hslots]
      dsimp only
      by_cases hle : ts ≤ oldest
      · exact .inl ⟨hle, if_pos hle⟩
      · exact .inr ⟨not_le.mp hle, by rw [if_neg hle, if_pos holdest]⟩
  · exact .inl ⟨hmem, not_le.mp hfull, by rw [rememberCommitted, if_neg hmem, if_neg hfull]⟩

theorem InStep.rememberCommitted (h : m.InStep) (ts : Time) (signature : RevisionSignature) :
    ∃ m', m.rememberCommitted ts signature = .ok m' ∧ m'.InStep := by
  obtain ⟨hmem, heq⟩ | ⟨hnone, -, heq⟩ | ⟨hnone, -, oldest, rest, hslots, holdest, -, hcases⟩ :=
    h.rememberCommitted_cases ts signature
  · refine ⟨_, heq, h.ordered, ?_⟩
    dsimp only
    rw [Dict.keys_insert_of_mem hmem]
    exact h.perm
  · exact ⟨_, heq, heapOrdered_heappush h.ordered ts, (heappush_perm h.ordered ts).trans
      ((h.perm.cons ts).trans (perm_keys_insert hnone).symm)⟩
  · obtain ⟨-, heq⟩ | ⟨-, heq⟩ := hcases
    · exact ⟨m, heq, h⟩
    · have hordered := hslots ▸ h.ordered
      have hrest : rest.Perm (m.committed.erase oldest).keys := by
        rw [Dict.keys_erase_eq_erase]
        have herase := (hslots ▸ h.perm : (oldest :: rest).Perm m.committed.keys).erase oldest
        rwa [List.erase_cons_head] at herase
      have hnot : ts ∉ (m.committed.erase oldest).keys := fun hts =>
        hnone (Dict.mem_keys_erase.mp hts).2
      exact ⟨_, heq, heapOrdered_heapreplace hordered ts, (heapreplace_perm hordered ts).trans
        ((hrest.cons ts).trans (perm_keys_insert hnot).symm)⟩

/-! ### What is remembered -/

/-- The slots of some calls. -/
def slotsOf (calls : List (Time × RevisionSignature)) : Finset Time := (calls.map Prod.fst).toFinset

theorem slotsOf_concat (calls : List (Time × RevisionSignature)) :
    slotsOf (calls ++ [(ts, signature)]) = insert ts (slotsOf calls) := by
  ext slot
  simp [slotsOf]

/-- After these calls. -/
structure Remembers (calls : List (Time × RevisionSignature)) (m : CommittedMemory) : Prop where
  inStep : m.InStep
  greatest : Greatest chartCommitDedupeTail (slotsOf calls) m.committed.keys.toFinset
  signatures : ∀ slot ∈ m.committed.keys,
    m.committed.get? slot = (lastWith Prod.fst calls slot).map Prod.snd

theorem remembers_nil : Remembers [] empty where
  inStep := inStep_empty
  greatest := Greatest.empty _
  signatures _ hslot := absurd hslot List.not_mem_nil

theorem card_keys (m : CommittedMemory) : m.committed.keys.toFinset.card = m.committed.size := by
  have hnodup : m.committed.keys.Nodup := m.committed.nodup_keys
  rw [List.toFinset_card_of_nodup hnodup, Dict.length_keys]

variable {calls : List (Time × RevisionSignature)}

/-- A call for another slot changes no signature. -/
theorem Remembers.signatures_insert (h : Remembers calls m)
    (hd : ∀ slot ∈ d.keys, slot ≠ ts → slot ∈ m.committed.keys ∧
      d.get? slot = m.committed.get? slot) {slot : Time}
    (hslot : slot ∈ (d.insert ts signature).keys) : (d.insert ts signature).get? slot =
      (lastWith Prod.fst (calls ++ [(ts, signature)]) slot).map Prod.snd := by
  rw [Dict.get?_insert, lastWith_concat]
  by_cases heq : slot = ts
  · rw [if_pos heq, if_pos heq.symm]
    rfl
  · rw [if_neg heq, if_neg (Ne.symm heq)]
    obtain ⟨hmem, hget⟩ := hd slot ((Dict.mem_keys_insert.mp hslot).resolve_left heq) heq
    rw [hget]
    exact h.signatures slot hmem

theorem toFinset_keys_insert :
    (d.insert ts signature).keys.toFinset = insert ts d.keys.toFinset := by
  ext slot
  simp [Dict.mem_keys_insert]

theorem toFinset_keys_erase :
    (d.erase ts).keys.toFinset = d.keys.toFinset.erase ts := by
  ext slot
  simp [Dict.mem_keys_erase]

theorem Remembers.greatest_concat {m' : CommittedMemory} (h : Remembers calls m)
    (hcall : m.rememberCommitted ts signature = .ok m') :
    Greatest chartCommitDedupeTail (slotsOf (calls ++ [(ts, signature)]))
      m'.committed.keys.toFinset := by
  rw [slotsOf_concat]
  obtain ⟨hmem, heq⟩ | ⟨hnone, hroom, heq⟩ | ⟨hnone, hfull, oldest, rest, -, holdest, hleast, hcases⟩ :=
    h.inStep.rememberCommitted_cases ts signature
  · cases (heq.symm.trans hcall)
    rw [Dict.keys_insert_of_mem hmem]
    exact h.greatest.insert_mem (List.mem_toFinset.mpr hmem)
  · cases (heq.symm.trans hcall)
    rw [toFinset_keys_insert]
    exact h.greatest.insert_free (m.card_keys.trans_lt hroom)
  · have hcard : m.committed.keys.toFinset.card = chartCommitDedupeTail :=
      le_antisymm h.greatest.card_le (hfull.trans_eq m.card_keys.symm)
    obtain ⟨hle, heq⟩ | ⟨hlt, heq⟩ := hcases
    · cases (heq.symm.trans hcall)
      refine h.greatest.insert_below hcard fun slot hslot => ?_
      have hslot := List.mem_toFinset.mp hslot
      exact lt_of_le_of_ne (hle.trans (hleast slot hslot)) fun hts => hnone (hts ▸ hslot)
    · cases (heq.symm.trans hcall)
      rw [toFinset_keys_insert, toFinset_keys_erase]
      exact h.greatest.insert_above hcard (fun hts => hnone (List.mem_toFinset.mp hts))
        (List.mem_toFinset.mpr holdest) (fun slot hslot => hleast slot (List.mem_toFinset.mp hslot)) hlt

theorem Remembers.signatures_concat {m' : CommittedMemory} (h : Remembers calls m)
    (hcall : m.rememberCommitted ts signature = .ok m') :
    ∀ slot ∈ m'.committed.keys, m'.committed.get? slot =
      (lastWith Prod.fst (calls ++ [(ts, signature)]) slot).map Prod.snd := by
  intro slot hslot
  obtain ⟨-, heq⟩ | ⟨-, -, heq⟩ | ⟨hnone, -, oldest, rest, -, -, -, hcases⟩ :=
    h.inStep.rememberCommitted_cases ts signature
  · cases (heq.symm.trans hcall)
    exact h.signatures_insert (fun slot hslot _ => ⟨hslot, rfl⟩) hslot
  · cases (heq.symm.trans hcall)
    exact h.signatures_insert (fun slot hslot _ => ⟨hslot, rfl⟩) hslot
  · obtain ⟨-, heq⟩ | ⟨-, heq⟩ := hcases
    · cases (heq.symm.trans hcall)
      have hne : ts ≠ slot := fun hts => hnone (hts ▸ hslot)
      rw [lastWith_concat, if_neg hne]
      exact h.signatures slot hslot
    · cases (heq.symm.trans hcall)
      refine h.signatures_insert (fun slot hslot _ => ?_) hslot
      obtain ⟨hne, hmem⟩ := Dict.mem_keys_erase.mp hslot
      exact ⟨hmem, Dict.get?_erase_of_ne _ hne⟩

/-- One call more. -/
theorem Remembers.rememberCommitted (h : Remembers calls m) (ts : Time)
    (signature : RevisionSignature) : ∃ m', m.rememberCommitted ts signature = .ok m' ∧
      Remembers (calls ++ [(ts, signature)]) m' := by
  obtain ⟨m', hcall, hstep⟩ := h.inStep.rememberCommitted ts signature
  exact ⟨m', hcall, hstep, h.greatest_concat hcall, h.signatures_concat hcall⟩

theorem rememberAll_concat (m : CommittedMemory) (calls : List (Time × RevisionSignature))
    (call : Time × RevisionSignature) : m.rememberAll (calls ++ [call]) =
      (m.rememberAll calls).bind fun m => m.rememberCommitted call.1 call.2 := by
  rw [rememberAll, List.foldlM_append, ← rememberAll]
  simp only [List.foldlM_cons, List.foldlM_nil, bind_pure]
  rfl

/-- Every sequence of calls. -/
theorem exists_remembers (calls : List (Time × RevisionSignature)) :
    ∃ m, empty.rememberAll calls = .ok m ∧ Remembers calls m := by
  induction calls using List.reverseRecOn with
  | nil => exact ⟨empty, rfl, remembers_nil⟩
  | append_singleton calls call ih =>
    obtain ⟨m, hcalls, h⟩ := ih
    obtain ⟨m', hcall, h'⟩ := h.rememberCommitted call.1 call.2
    refine ⟨m', ?_, h'⟩
    rw [rememberAll_concat, hcalls]
    exact hcall

end CommittedMemory

/-! ### The lane -/

/-- The lane has the memory, with the heap sorted. -/
structure ChartCommitLane.Keeps (lane : ChartCommitLane) (m : CommittedMemory) : Prop where
  committed : lane.committed = m.committed
  sorted : lane.committedSlots.Pairwise (· ≤ ·)
  perm : lane.committedSlots.Perm m.committedSlots

namespace ChartCommitLane

variable {lane : ChartCommitLane} {m : CommittedMemory}

/-- What the lane remembers is what the memory does. -/
theorem Keeps.rememberCommitted (h : lane.Keeps m) (hm : m.InStep) (ts : Time)
    (signature : RevisionSignature) : ∃ m', m.rememberCommitted ts signature = .ok m' ∧ m'.InStep ∧
      (lane.rememberCommitted ts signature).Keeps m' := by
  obtain ⟨m', hcall, hstep⟩ := hm.rememberCommitted ts signature
  refine ⟨m', hcall, hstep, ?_⟩
  unfold ChartCommitLane.rememberCommitted
  rw [h.committed]
  obtain ⟨hmem, heq⟩ | ⟨hnone, hroom, heq⟩ | ⟨hnone, hfull, oldest, rest, hslots, holdest, hleast,
    hcases⟩ := hm.rememberCommitted_cases ts signature
  · cases (heq.symm.trans hcall)
    rw [if_pos hmem]
    exact ⟨rfl, h.sorted, h.perm⟩
  · cases (heq.symm.trans hcall)
    rw [if_neg hnone, if_neg (not_le.mpr hroom)]
    refine ⟨rfl, h.sorted.orderedInsert ts _, (List.perm_orderedInsert _ ts _).trans ?_⟩
    exact (h.perm.cons ts).trans (heappush_perm hm.ordered ts).symm
  · rw [if_neg hnone, if_pos hfull]
    have hperm : lane.committedSlots.Perm (oldest :: rest) := hslots ▸ h.perm
    cases hlane : lane.committedSlots with
    | nil => exact absurd (hlane ▸ hperm).length_eq (Nat.succ_ne_zero _).symm
    | cons first slots =>
      rw [hlane] at hperm
      have hsorted : (first :: slots).Pairwise (· ≤ ·) := hlane ▸ h.sorted
      -- both heads are the least slot
      have hfirst : first = oldest := by
        have hslot : first ∈ m.committed.keys :=
          hm.perm.mem_iff.mp (hslots ▸ hperm.mem_iff.mp (List.mem_cons_self ..))
        refine le_antisymm ?_ (hleast first hslot)
        rcases List.mem_cons.mp (hperm.mem_iff.mpr (List.mem_cons_self ..)) with heq | hin
        · exact heq.ge
        · exact List.rel_of_pairwise_cons hsorted hin
      subst hfirst
      obtain ⟨hle, heq⟩ | ⟨hlt, heq⟩ := hcases
      · cases (heq.symm.trans hcall)
        dsimp only
        rw [if_pos hle]
        exact h
      · cases (heq.symm.trans hcall)
        dsimp only
        rw [if_neg (not_le.mpr hlt)]
        refine ⟨rfl, hsorted.of_cons.orderedInsert ts _, (List.perm_orderedInsert _ ts _).trans ?_⟩
        exact (hperm.cons_inv.cons ts).trans (heapreplace_perm (hslots ▸ hm.ordered) ts).symm

end ChartCommitLane

open CommittedMemory in
/-- **Bounded memory.** No call raises. What is remembered are the slots with fewer than 256 greater
ones among those ever called, each with the signature of its last call, and a slot that is remembered
was so since its first call. The heap has the remembered slots, each once. -/
theorem committed_memory_bounded (calls : List (Time × RevisionSignature)) :
    ∃ m, CommittedMemory.empty.rememberAll calls = .ok m ∧
      (∀ ts, ts ∈ m.committed.keys ↔
        ts ∈ slotsOf calls ∧ ((slotsOf calls).filter (ts < ·)).card < 256) ∧
      (∀ ts ∈ m.committed.keys, m.committed.get? ts = (lastWith Prod.fst calls ts).map Prod.snd) ∧
      (∀ before after, calls = before ++ after → ∃ m₀,
        CommittedMemory.empty.rememberAll before = .ok m₀ ∧
          ∀ ts ∈ m.committed.keys, ts ∈ slotsOf before → ts ∈ m₀.committed.keys) ∧
      m.committedSlots.Perm m.committed.keys ∧ m.committedSlots.Nodup := by
  obtain ⟨m, hcalls, h⟩ := exists_remembers calls
  refine ⟨m, hcalls, fun ts => ?_, h.signatures, fun before after hsplit => ?_, h.inStep.perm,
    h.inStep.perm.nodup_iff.mpr m.committed.nodup_keys⟩
  · rw [← List.mem_toFinset]
    exact h.greatest.mem_iff ts
  · obtain ⟨m₀, hbefore, h₀⟩ := exists_remembers before
    refine ⟨m₀, hbefore, fun ts hts hcalled => List.mem_toFinset.mp ?_⟩
    have hsub : slotsOf before ⊆ slotsOf calls := by
      intro slot hslot
      simp only [slotsOf, hsplit, List.map_append, List.toFinset_append] at hslot ⊢
      exact Finset.mem_union_left _ hslot
    exact h₀.greatest.mem_of_mem h.greatest hsub (List.mem_toFinset.mpr hts) hcalled

/-- **The heap is a sorted list.** After any calls the lane that keeps its slots sorted has the
signatures of the memory with the heap, and the same slots. -/
theorem lane_remembers_same (calls : List (Time × RevisionSignature)) :
    ∃ m, CommittedMemory.empty.rememberAll calls = .ok m ∧ ChartCommitLane.Keeps
      (calls.foldl (fun lane call => lane.rememberCommitted call.1 call.2) .empty) m := by
  induction calls using List.reverseRecOn with
  | nil => exact ⟨.empty, rfl, rfl, .nil, .refl _⟩
  | append_singleton calls call ih =>
    obtain ⟨m, hcalls, hkeeps⟩ := ih
    obtain ⟨m₁, hcalls₁, hremembers⟩ := CommittedMemory.exists_remembers calls
    cases hcalls.symm.trans hcalls₁
    obtain ⟨m', hcall, -, hkeeps'⟩ := hkeeps.rememberCommitted hremembers.inStep call.1 call.2
    refine ⟨m', ?_, by rwa [List.foldl_concat]⟩
    rw [CommittedMemory.rememberAll_concat, hcalls]
    exact hcall

end AefTerminal
