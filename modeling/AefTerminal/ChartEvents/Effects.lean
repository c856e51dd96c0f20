import AefTerminal.ChartEvents.Runtime
import AefTerminal.Foundation.Fallible

/-!
# What each operation does to the table

One lemma for each operation says what a success means and what the table is afterwards; the
modules on runs cite these and never unfold an operation.

The eviction of generations is the only way a scope other than the operation's own can change:
it takes a scope that no event, waiter, writer or publication mentions (`not_active_of_stale`),
so the generation of a scope that is written or published is never lost (`generation_advance`).
-/

namespace AefTerminal

open Foundation

namespace ChartEvents

variable {s t : ChartEvents} {key k : ChartRefreshKey} {reason : String} {bars : List Bar}

theorem writeInProgress_iff : s.writeInProgress k ↔ k ∈ s.writesInProgress.keys :=
  Dict.mem_keys_iff.symm

theorem mem_keys_of_mem_publicationTokens {token : ℕ} (h : token ∈ s.publicationTokens k) :
    k ∈ s.publicationsInProgress.keys := by
  rw [Dict.mem_keys_iff]
  cases hk : s.publicationsInProgress.get? k with
  | none => simp [publicationTokens, hk] at h
  | some _ => rfl

/-! ### Advancing a generation -/

@[simp] theorem evictEvents_generations : (s.evictEvents key).generations = s.generations := by
  unfold evictEvents; split <;> rfl

@[simp] theorem evictEvents_writesInProgress :
    (s.evictEvents key).writesInProgress = s.writesInProgress := by
  unfold evictEvents; split <;> rfl

@[simp] theorem evictEvents_publicationsInProgress :
    (s.evictEvents key).publicationsInProgress = s.publicationsInProgress := by
  unfold evictEvents; split <;> rfl

@[simp] theorem evictEvents_nextWriteToken :
    (s.evictEvents key).nextWriteToken = s.nextWriteToken := by
  unfold evictEvents; split <;> rfl

@[simp] theorem evictEvents_nextPublicationToken :
    (s.evictEvents key).nextPublicationToken = s.nextPublicationToken := by
  unfold evictEvents; split <;> rfl

@[simp] theorem evictEvents_waiters : (s.evictEvents key).waiters = s.waiters := by
  unfold evictEvents; split <;> rfl

theorem evictGenerations_frame :
    (s.evictGenerations key).writesInProgress = s.writesInProgress ∧
      (s.evictGenerations key).publicationsInProgress = s.publicationsInProgress ∧
      (s.evictGenerations key).nextWriteToken = s.nextWriteToken ∧
      (s.evictGenerations key).nextPublicationToken = s.nextPublicationToken ∧
      (s.evictGenerations key).waiters = s.waiters ∧
      (s.evictGenerations key).events = s.events := by
  unfold evictGenerations; split <;> exact ⟨rfl, rfl, rfl, rfl, rfl, rfl⟩

@[simp] theorem advance_writesInProgress :
    (s.advance key reason bars).writesInProgress = s.writesInProgress := by
  rw [advance, recordChartBarsUpdated, evictGenerations_frame.1]
  simp [storeEvent, appendEvent, setGeneration]

@[simp] theorem advance_publicationsInProgress :
    (s.advance key reason bars).publicationsInProgress = s.publicationsInProgress := by
  rw [advance, recordChartBarsUpdated, evictGenerations_frame.2.1]
  simp [storeEvent, appendEvent, setGeneration]

@[simp] theorem advance_nextWriteToken :
    (s.advance key reason bars).nextWriteToken = s.nextWriteToken := by
  rw [advance, recordChartBarsUpdated, evictGenerations_frame.2.2.1]
  simp [storeEvent, appendEvent, setGeneration]

@[simp] theorem advance_nextPublicationToken :
    (s.advance key reason bars).nextPublicationToken = s.nextPublicationToken := by
  rw [advance, recordChartBarsUpdated, evictGenerations_frame.2.2.2.1]
  simp [storeEvent, appendEvent, setGeneration]

@[simp] theorem advance_writeInProgress :
    (s.advance key reason bars).writeInProgress k = s.writeInProgress k := by
  simp [writeInProgress]

@[simp] theorem advance_publicationTokens :
    (s.advance key reason bars).publicationTokens k = s.publicationTokens k := by
  simp [publicationTokens]

/-- The evicted scope is not the advancing one, and nothing holds a guard on it. -/
theorem not_active_of_stale (h : s.staleGenerationKey key = some k) :
    k ≠ key ∧ k ∉ s.events.keys ∧ k ∉ s.writesInProgress.keys ∧
      k ∉ s.publicationsInProgress.keys := by
  unfold staleGenerationKey at h
  split at h
  · have hk := List.find?_some h
    simp only [decide_eq_true_eq] at hk
    exact ⟨hk.1, hk.2.1, hk.2.2.2.1, hk.2.2.2.2⟩
  · exact absurd h (by simp)

theorem not_active_of_evictedScope (h : s.evictedScope key reason bars = some k) :
    k ≠ key ∧ k ∉ s.writesInProgress.keys ∧ k ∉ s.publicationsInProgress.keys := by
  have hk := not_active_of_stale h
  simp only [storeEvent, evictEvents_writesInProgress, evictEvents_publicationsInProgress,
    appendEvent, setGeneration] at hk
  exact ⟨hk.1, hk.2.2.1, hk.2.2.2⟩

theorem generation_setGeneration (g : ℕ) :
    (s.setGeneration key g).generation k = if k = key then g else s.generation k := by
  simp only [setGeneration, generation, Dict.get?_insert]
  by_cases h : k = key <;> simp [h]

theorem generation_storeEvent (g : ℕ) :
    (s.storeEvent key g reason bars).generation k = s.generation k := by
  simp [storeEvent, generation, appendEvent]

theorem generation_evictGenerations :
    (s.evictGenerations key).generation k =
      if s.staleGenerationKey key = some k then 0 else s.generation k := by
  unfold evictGenerations
  cases hs : s.staleGenerationKey key with
  | none => simp
  | some c =>
    simp only [generation, Dict.get?_erase, Option.some.injEq]
    by_cases hk : k = c
    · simp [hk]
    · simp [hk, Ne.symm hk]

/-- An advance moves its own scope by one, forgets the evicted scope and touches no other. -/
theorem generation_advance :
    (s.advance key reason bars).generation k =
      if k = key then s.generation key + 1
      else if s.evictedScope key reason bars = some k then 0 else s.generation k := by
  rw [advance, recordChartBarsUpdated, generation_evictGenerations, generation_storeEvent,
    generation_setGeneration]
  change (if s.evictedScope key reason bars = some k then 0 else _) = _
  by_cases hk : k = key
  · subst hk
    have hne : s.evictedScope k reason bars ≠ some k := fun h =>
      (not_active_of_evictedScope h).1 rfl
    simp [hne]
  · simp [hk]

@[simp] theorem generation_advance_self :
    (s.advance key reason bars).generation key = s.generation key + 1 := by
  simp [generation_advance]

/-- A scope under a guard keeps its generation through another scope's advance. -/
theorem generation_advance_of_active (hne : k ≠ key)
    (h : k ∈ s.writesInProgress.keys ∨ k ∈ s.publicationsInProgress.keys) :
    (s.advance key reason bars).generation k = s.generation k := by
  have hev : s.evictedScope key reason bars ≠ some k := by
    intro hev
    obtain ⟨-, hw, hp⟩ := not_active_of_evictedScope hev
    exact h.elim hw hp
  rw [generation_advance, if_neg hne, if_neg hev]

/-! ### The read fence and the write guard -/

theorem requireChartBarsGeneration_eq_ok {expected g : ℕ}
    (h : s.requireChartBarsGeneration expected key = .ok g) :
    s.generation key = expected ∧ g = expected ∧ s.writeInProgress key = false := by
  simp only [requireChartBarsGeneration] at h
  split at h
  · exact absurd h (by simp)
  · rename_i hc
    push Not at hc
    have hg : s.generation key = g := by simpa using h
    exact ⟨hc.2, hg ▸ hc.2, by simpa using hc.1⟩

variable {guard : ChartBarsWriteGuard}

theorem beginChartBarsWrite_eq_ok {expected : ℕ}
    (h : s.beginChartBarsWrite expected key = .ok (guard, t)) :
    s.generation key = expected ∧ key ∉ s.writesInProgress.keys ∧
      s.publicationTokens key = [] ∧ guard = ⟨key, expected, s.nextWriteToken + 1⟩ ∧
      t = { s with
        nextWriteToken := s.nextWriteToken + 1
        writesInProgress := s.writesInProgress.insert key (s.nextWriteToken + 1) } := by
  simp only [beginChartBarsWrite] at h
  split at h
  · exact absurd h (by simp)
  rename_i hw
  split at h
  · exact absurd h (by simp)
  rename_i hp
  split at h
  · exact absurd h (by simp)
  rename_i hg
  obtain ⟨hguard, ht⟩ := Prod.mk.inj (Except.ok.inj h)
  exact ⟨not_not.mp hg, fun hk => hw (writeInProgress_iff.mpr hk), not_not.mp hp, hguard.symm,
    ht.symm⟩

theorem endChartBarsWrite_eq_ok (h : s.endChartBarsWrite guard = .ok t) :
    s.writesInProgress.get? guard.key = some guard.token ∧ t = s.releaseWrite guard.key := by
  simp only [endChartBarsWrite] at h
  split at h
  · exact absurd h (by simp)
  · rename_i hg
    exact ⟨not_not.mp hg, (Except.ok.inj h).symm⟩

theorem invalidateChartBarsWrite_eq_ok {g : ℕ}
    (h : s.invalidateChartBarsWrite guard reason = .ok (g, t)) :
    s.writesInProgress.get? guard.key = some guard.token ∧
      guard.expectedGeneration ≤ s.generation guard.key ∧
      g = (s.invalidateGeneration guard reason).generation guard.key ∧
      t = (s.invalidateGeneration guard reason).releaseWrite guard.key := by
  simp only [invalidateChartBarsWrite] at h
  split at h
  · exact absurd h (by simp)
  rename_i hg
  split at h
  · exact absurd h (by simp)
  rename_i hle
  obtain ⟨hgen, ht⟩ := Prod.mk.inj (Except.ok.inj h)
  refine ⟨not_not.mp hg, not_lt.mp hle, ?_, ht.symm⟩
  rw [← hgen, invalidateGeneration]
  split <;> simp

/-- The first half of an invalidation leaves the scope guarded and past the guard's generation. -/
theorem invalidateGeneration_spec (reason : String)
    (hle : guard.expectedGeneration ≤ s.generation guard.key) :
    guard.expectedGeneration < (s.invalidateGeneration guard reason).generation guard.key ∧
      (s.invalidateGeneration guard reason).writesInProgress = s.writesInProgress := by
  rw [invalidateGeneration]
  split
  · rename_i heq
    exact ⟨by simp [heq], by simp⟩
  · rename_i hne
    exact ⟨lt_of_le_of_ne hle (Ne.symm hne), rfl⟩

theorem invalidateGeneration_cases (s : ChartEvents) (guard : ChartBarsWriteGuard)
    (reason : String) :
    (s.generation guard.key = guard.expectedGeneration ∧
        s.invalidateGeneration guard reason = s.advance guard.key reason []) ∨
      (s.generation guard.key ≠ guard.expectedGeneration ∧
        s.invalidateGeneration guard reason = s) := by
  rw [invalidateGeneration]
  split
  · rename_i h; exact .inl ⟨h, rfl⟩
  · rename_i h; exact .inr ⟨h, rfl⟩

/-- A publication either finds another generation and changes nothing, or advances. -/
theorem publishChartBarsUpdated_cases (s : ChartEvents) (key : ChartRefreshKey) (reason : String)
    (bars : List Bar) (expected : Option ℕ) :
    s.publishChartBarsUpdated key reason bars expected = (0, s) ∨
      s.publishChartBarsUpdated key reason bars expected =
        (s.generation key + 1, s.advance key reason bars) := by
  rw [publishChartBarsUpdated]
  split
  · exact .inl rfl
  · exact .inr rfl

/-! ### The publication guard -/

theorem normalizeScope_eq_ok {d e : Dict ChartRefreshKey ℕ} {scope : ChartBarsGenerationScope}
    (h : normalizeScope d scope = .ok e) :
    (∀ g, d.get? scope.key = some g → g = scope.generation) ∧
      e = d.insert scope.key scope.generation := by
  unfold normalizeScope at h
  split at h
  · rename_i previous hprev
    split at h
    · exact absurd h (by simp)
    · rename_i hg
      refine ⟨fun g hd => ?_, (Except.ok.inj h).symm⟩
      rw [hprev] at hd
      exact (Option.some.inj hd).symm.trans (not_not.mp hg)
  · rename_i hnone
    exact ⟨fun g hd => absurd (hnone.symm.trans hd) (by simp), (Except.ok.inj h).symm⟩

/-- The normalised scopes are the scopes asked for: an accepted one is never overwritten. -/
theorem normalizeScopes_get? {scopes : List ChartBarsGenerationScope} {d : Dict ChartRefreshKey ℕ}
    (h : normalizeScopes scopes = .ok d) (k : ChartRefreshKey) (g : ℕ) :
    d.get? k = some g ↔ ⟨k, g⟩ ∈ scopes := by
  suffices hfold : ∀ (scopes : List ChartBarsGenerationScope) (acc : Dict ChartRefreshKey ℕ),
      scopes.foldlM normalizeScope acc = .ok d →
      (d.get? k = some g ↔ acc.get? k = some g ∨ ⟨k, g⟩ ∈ scopes) by
    simpa using hfold scopes .empty h
  intro scopes
  induction scopes with
  | nil =>
    intro acc h
    simp [pure_eq_ok.mp h]
  | cons scope rest ih =>
    intro acc h
    rw [List.foldlM_cons] at h
    obtain ⟨next, hstep, hrest⟩ := bind_eq_ok.mp h
    obtain ⟨hkeep, rfl⟩ := normalizeScope_eq_ok hstep
    rw [ih _ hrest, Dict.get?_insert, List.mem_cons]
    by_cases hk : k = scope.key
    · subst hk
      rw [if_pos rfl]
      constructor
      · rintro (h | h)
        · exact .inr (.inl (by rw [← Option.some.inj h]))
        · exact .inr (.inr h)
      · rintro (h | h | h)
        · exact .inl (by rw [hkeep g h])
        · exact .inl (by rw [← h])
        · exact .inr h
    · rw [if_neg hk]
      have hne : (⟨k, g⟩ : ChartBarsGenerationScope) ≠ scope := fun h => hk (by rw [← h])
      simp [hne]

theorem checkScopes_eq_ok {l : List (ChartRefreshKey × ℕ)} (h : s.checkScopes l = .ok ()) :
    ∀ p ∈ l, p.1 ∉ s.writesInProgress.keys ∧ s.generation p.1 = p.2 := by
  induction l with
  | nil => simp
  | cons p rest ih =>
    rw [checkScopes] at h
    split at h
    · exact absurd h (by simp)
    · rename_i hp
      push Not at hp
      intro q hq
      rcases List.mem_cons.mp hq with rfl | hq
      · exact ⟨fun hk => hp.1 (writeInProgress_iff.mpr hk), hp.2⟩
      · exact ih h q hq

/-- Taking or dropping publication tokens changes only the token map. -/
structure SameButPublications (s t : ChartEvents) : Prop where
  generations : t.generations = s.generations
  writesInProgress : t.writesInProgress = s.writesInProgress
  nextWriteToken : t.nextWriteToken = s.nextWriteToken

theorem foldl_addPublicationToken_frame (token : ℕ) (keys : List ChartRefreshKey) :
    SameButPublications s (keys.foldl (fun s key => s.addPublicationToken token key) s) ∧
      (keys.foldl (fun s key => s.addPublicationToken token key) s).nextPublicationToken =
        s.nextPublicationToken := by
  induction keys generalizing s with
  | nil => exact ⟨⟨rfl, rfl, rfl⟩, rfl⟩
  | cons key keys ih =>
    obtain ⟨⟨h₁, h₂, h₃⟩, h₄⟩ := ih (s := s.addPublicationToken token key)
    exact ⟨⟨h₁, h₂, h₃⟩, h₄⟩

theorem mem_publicationTokens_foldl_add (token x : ℕ) (keys : List ChartRefreshKey)
    (k : ChartRefreshKey) :
    x ∈ (keys.foldl (fun s key => s.addPublicationToken token key) s).publicationTokens k ↔
      x ∈ s.publicationTokens k ∨ (x = token ∧ k ∈ keys) := by
  induction keys generalizing s with
  | nil => simp
  | cons key keys ih =>
    rw [List.foldl_cons, ih]
    have hadd : (s.addPublicationToken token key).publicationTokens k =
        if k = key then (s.publicationTokens key).insert token else s.publicationTokens k := by
      simp only [publicationTokens, addPublicationToken, Dict.get?_insert]
      by_cases hk : k = key <;> simp [hk]
    rw [hadd]
    by_cases hk : k = key
    · subst hk
      simp only [if_true, List.mem_insert_iff, List.mem_cons, true_or, and_true]
      tauto
    · simp [hk]

theorem foldl_removePublicationToken_frame (token : ℕ) (keys : List ChartRefreshKey) :
    SameButPublications s (keys.foldl (fun s key => s.removePublicationToken token key) s) ∧
      (keys.foldl (fun s key => s.removePublicationToken token key) s).nextPublicationToken =
        s.nextPublicationToken := by
  induction keys generalizing s with
  | nil => exact ⟨⟨rfl, rfl, rfl⟩, rfl⟩
  | cons key keys ih =>
    obtain ⟨⟨h₁, h₂, h₃⟩, h₄⟩ := ih (s := s.removePublicationToken token key)
    exact ⟨⟨h₁, h₂, h₃⟩, h₄⟩

theorem publicationTokens_removePublicationToken (token : ℕ) :
    (s.removePublicationToken token key).publicationTokens k =
      if k = key then (s.publicationTokens key).filter (· ≠ token)
      else s.publicationTokens k := by
  by_cases hempty : (s.publicationTokens key).filter (· ≠ token) = []
  · have hmap : (s.removePublicationToken token key).publicationsInProgress =
        s.publicationsInProgress.erase key := by
      simp only [removePublicationToken, if_pos hempty]
    rw [hempty]
    simp only [publicationTokens, hmap, Dict.get?_erase]
    by_cases hk : k = key <;> simp [hk]
  · have hmap : (s.removePublicationToken token key).publicationsInProgress =
        s.publicationsInProgress.insert key
          ((s.publicationTokens key).filter (· ≠ token)) := by
      simp only [removePublicationToken, if_neg hempty]
    rw [publicationTokens, hmap, Dict.get?_insert]
    by_cases hk : k = key <;> simp [hk, publicationTokens]

theorem mem_publicationTokens_foldl_remove (token x : ℕ) (keys : List ChartRefreshKey)
    (k : ChartRefreshKey) :
    x ∈ (keys.foldl (fun s key => s.removePublicationToken token key) s).publicationTokens k ↔
      x ∈ s.publicationTokens k ∧ ¬ (x = token ∧ k ∈ keys) := by
  induction keys generalizing s with
  | nil => simp
  | cons key keys ih =>
    rw [List.foldl_cons, ih, publicationTokens_removePublicationToken]
    by_cases hk : k = key
    · subst hk
      simp only [if_true, List.mem_filter, decide_eq_true_eq, List.mem_cons, true_or, and_true]
      tauto
    · simp [hk]

/-- A publication guard is taken on exactly the scopes asked for, each unwritten and at the
generation asked for, or it is not taken. -/
theorem beginChartBarsPublication_eq_ok {scopes : List ChartBarsGenerationScope}
    {guard : ChartBarsPublicationGuard}
    (h : s.beginChartBarsPublication scopes = .ok (guard, t)) :
    guard.token = s.nextPublicationToken + 1 ∧
      (∀ k g, (k, g) ∈ guard.scopes ↔ ⟨k, g⟩ ∈ scopes) ∧
      (∀ p ∈ guard.scopes, p.1 ∉ s.writesInProgress.keys ∧ s.generation p.1 = p.2) ∧
      SameButPublications s t ∧ t.nextPublicationToken = s.nextPublicationToken + 1 ∧
      ∀ x k, x ∈ t.publicationTokens k ↔
        x ∈ s.publicationTokens k ∨ (x = guard.token ∧ k ∈ guard.scopes.map Prod.fst) := by
  unfold beginChartBarsPublication at h
  obtain ⟨normalized, hnorm, h⟩ := bind_eq_ok.mp h
  split at h
  · exact absurd h (by simp)
  obtain ⟨_, hcheck, h⟩ := bind_eq_ok.mp h
  cases (Except.ok.inj h)
  refine ⟨rfl, fun k g => ?_, fun p hp => checkScopes_eq_ok hcheck p hp, ?_, ?_, fun x k => ?_⟩
  · rw [List.mem_insertionSort, ← Dict.get?_eq_some_iff, normalizeScopes_get? hnorm]
  · obtain ⟨⟨h₁, h₂, h₃⟩, -⟩ := foldl_addPublicationToken_frame
      (s := { s with nextPublicationToken := s.nextPublicationToken + 1 })
      (s.nextPublicationToken + 1)
      ((normalized.entries.insertionSort fun a b => a.1.le b.1).map Prod.fst)
    exact ⟨h₁, h₂, h₃⟩
  · exact (foldl_addPublicationToken_frame _ _).2
  · exact mem_publicationTokens_foldl_add _ x _ k

theorem endChartBarsPublication_eq_ok {guard : ChartBarsPublicationGuard}
    (h : s.endChartBarsPublication guard = .ok t) :
    (∀ p ∈ guard.scopes, guard.token ∈ s.publicationTokens p.1) ∧
      SameButPublications s t ∧ t.nextPublicationToken = s.nextPublicationToken ∧
      ∀ x k, x ∈ t.publicationTokens k ↔
        x ∈ s.publicationTokens k ∧ ¬ (x = guard.token ∧ k ∈ guard.scopes.map Prod.fst) := by
  unfold endChartBarsPublication at h
  split at h
  · exact absurd h (by simp)
  rename_i hheld
  push Not at hheld
  cases h
  exact ⟨hheld, (foldl_removePublicationToken_frame _ _).1,
    (foldl_removePublicationToken_frame _ _).2,
    fun x k => mem_publicationTokens_foldl_remove _ x _ k⟩

end ChartEvents

end AefTerminal
