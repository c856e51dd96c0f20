import AefTerminal.Analysis.Bookkeeping

/-!
# Context advances

A notification of a newer generation is dropped when the shared map has that generation already.
The map is also raised by whatever captures a payload: a registration, a retry, another
notification. Such a capture brings its own analysis up to date and no other, so a notification that
comes after it reaches nobody.

`Overtakes` says that a capture does this while another wanted analysis uses the timeframe, or while
its own is the parent of the research capture it belongs to. In a run without such captures the
generations that wanted payloads carry are those of the map.

## Main definitions

* `AdvanceKept`: what an advance promises
* `Overtakes`, `CapturesFinely`: the captures that break it, and the condition on a step
* `advancedTo`: the newest generation of a scope that a run announced

## Main results

* `context_advance_kept`: runs whose steps capture finely keep every advance
* `advance_ignored_after_registration`: a registration that makes an advance of no effect
-/

namespace AefTerminal

open Foundation

/-! ### What was captured for a timeframe -/

def Captured.contextGeneration (c : Captured) (timeframe : String) : Option ℕ :=
  (c.confirmedBarContextGenerations.getD []).lookup timeframe

namespace AnalysisService

variable {s t u : AnalysisService} {cfg : AnalysisConfig} {chart : ℕ → ChartTable}

/-- Every wanted payload that uses the scope carries at least `generation` for it, and no item with
an older one is cached under its key. -/
structure AdvanceKept (s : AnalysisService) (scope : ContextKey) (generation : ℕ) : Prop where
  context : ∀ k w, s.wanted.get? k = some w → w.payload.request.usesContext scope = true →
    ∃ g, w.payload.captured.contextGeneration scope.2.2 = some g ∧ generation ≤ g
  parent : ∀ k w, s.wanted.get? k = some w → w.payload.request.usesParent scope = true →
    ∃ g, w.payload.parentCanonicalGeneration = some g ∧ generation ≤ g
  item_context : ∀ k w item g, s.wanted.get? k = some w → s.cache.get? k = some item →
    w.payload.request.usesContext scope = true →
    item.captured.contextGeneration scope.2.2 = some g → generation ≤ g
  item_parent : ∀ k w item g, s.wanted.get? k = some w → s.cache.get? k = some item →
    w.payload.request.usesParent scope = true →
    item.captured.parentCanonicalGeneration = some g → generation ≤ g

/-- Capturing this payload for the key raises a shared generation past another wanted analysis that
uses it, or past the parent of the very payload. -/
def Overtakes (s : AnalysisService) (key : String) (p : AnalysisPayload) (seen : ChartReads) :
    Prop :=
  ∃ timeframe ∈ p.request.contextTimeframes,
    s.contexts.known (p.request.contextKey timeframe) < seen.context timeframe ∧
    ((∃ k w, k ≠ key ∧ s.wanted.get? k = some w ∧
        (w.payload.request.usesContext (p.request.contextKey timeframe) = true ∨
          w.payload.request.usesParent (p.request.contextKey timeframe) = true)) ∨
      p.request.usesParent (p.request.contextKey timeframe) = true ∧
        p.parentCanonicalGeneration.getD seen.parent < seen.context timeframe)

/-- A research capture does not start below the shared generation of its parent. -/
def ParentCurrent (s : AnalysisService) (p : AnalysisPayload) (seen : ChartReads) : Prop :=
  p.request.analysisEffects = .researchCapture →
    s.contexts.known (p.request.contextKey p.request.interval) ≤
      p.parentCanonicalGeneration.getD seen.parent

/-- What a step captures, it captures without overtaking. An advance that is taken captures the
payloads of all analyses that use the scope, after the map was raised. -/
def CapturesFinely (s : AnalysisService) : AnalysisAct → Prop
  | .register _ key _ payload _ seen =>
    ¬ s.Overtakes key payload seen ∧ s.ParentCurrent payload seen
  | .complete j _ _ seen _ => ∀ job, s.jobs.get? j = some job → s.requestCurrent job ≠ none →
    ¬ s.Overtakes job.key job.payload seen ∧ s.ParentCurrent job.payload seen
  | .advance scope generation _ seen => s.contexts.known scope < generation →
    ∀ k w, s.wanted.get? k = some w →
      (w.payload.request.usesParent scope = true ∨ w.payload.request.usesContext scope = true) →
      ¬ Overtakes { s with contexts := s.contexts.insert scope generation } k
        (advancedPayload scope generation w.payload) (seen k)
  | _ => True

end AnalysisService

/-- The generation that an act announces for a scope. -/
def AnalysisAct.announces (scope : ContextKey) : AnalysisAct → ℕ
  | .advance scope' generation _ _ => if scope' = scope then generation else 0
  | _ => 0

/-- The newest generation that a run announced for a scope. -/
def advancedTo (scope : ContextKey) : List AnalysisAct → ℕ
  | [] => 0
  | a :: as => max (a.announces scope) (advancedTo scope as)

/-! ### The shared map -/

section SharedMap

variable {m : ContextGenerations} {seen : ChartReads} {r : AnalysisRequest} {scope : ContextKey}

theorem AnalysisRequest.usesContext_iff : r.usesContext scope = true ↔
    ∃ timeframe ∈ r.contextTimeframes, r.contextKey timeframe = scope := by
  obtain ⟨i, f, tf⟩ := scope
  simp only [usesContext, decide_eq_true_eq, contextKey, Prod.mk.injEq]
  constructor
  · rintro ⟨rfl, rfl, hmem⟩
    exact ⟨tf, hmem, rfl, rfl, rfl⟩
  · rintro ⟨tf', hmem, rfl, rfl, rfl⟩
    exact ⟨rfl, rfl, hmem⟩

theorem AnalysisRequest.usesParent_iff : r.usesParent scope = true ↔
    r.analysisEffects = .researchCapture ∧ r.contextKey r.interval = scope := by
  obtain ⟨i, f, tf⟩ := scope
  simp only [usesParent, decide_eq_true_eq, contextKey, Prod.mk.injEq]
  constructor
  · rintro ⟨rfl, rfl, heff, rfl⟩
    exact ⟨heff, rfl, rfl, rfl⟩
  · rintro ⟨heff, rfl, rfl, rfl⟩
    exact ⟨rfl, rfl, heff, rfl⟩

theorem ContextGenerations.known_insert (m : ContextGenerations) (key scope : ContextKey) (g : ℕ) :
    known (m.insert key g) scope = if scope = key then g else m.known scope := by
  rw [known, Dict.get?_insert]
  split <;> rfl

/-- What is written for several timeframes of one request. -/
theorem known_foldl_insert (f : String → ℕ) (l : List String) (m : ContextGenerations) :
    ContextGenerations.known ((l.map fun timeframe => (timeframe, f timeframe)).foldl
      (fun m g => m.insert (r.contextKey g.1) g.2) m) scope =
    if ∃ timeframe ∈ l, r.contextKey timeframe = scope then f scope.2.2 else m.known scope := by
  induction l generalizing m with
  | nil => simp
  | cons timeframe l ih =>
    rw [List.map_cons, List.foldl_cons, ih, ContextGenerations.known_insert]
    by_cases hl : ∃ timeframe' ∈ l, r.contextKey timeframe' = scope
    · obtain ⟨timeframe', hmem, heq⟩ := hl
      rw [if_pos ⟨timeframe', hmem, heq⟩,
        if_pos ⟨timeframe', List.mem_cons_of_mem _ hmem, heq⟩]
    · rw [if_neg hl]
      by_cases hkey : scope = r.contextKey timeframe
      · rw [if_pos hkey, if_pos ⟨timeframe, List.mem_cons_self, hkey.symm⟩, hkey]
        rfl
      · rw [if_neg hkey, if_neg]
        rintro ⟨timeframe', hmem, heq⟩
        obtain rfl | hmem := List.mem_cons.mp hmem
        · exact hkey heq.symm
        · exact hl ⟨timeframe', hmem, heq⟩

/-- A capture raises what its request uses, and nothing else. -/
theorem known_raiseGenerations : (raiseGenerations m seen r).known scope =
    if r.usesContext scope = true then max (m.known scope) (seen.context scope.2.2)
    else m.known scope := by
  rw [raiseGenerations, contextGenerations,
    known_foldl_insert (fun timeframe =>
      max (m.known (r.contextKey timeframe)) (seen.context timeframe)) r.contextTimeframes m]
  by_cases huse : r.usesContext scope = true
  · obtain ⟨timeframe, hmem, rfl⟩ := AnalysisRequest.usesContext_iff.mp huse
    rw [if_pos huse, if_pos ⟨timeframe, hmem, rfl⟩]
    rfl
  · rw [if_neg huse, if_neg fun hex => huse (AnalysisRequest.usesContext_iff.mpr hex)]

theorem le_known_raiseGenerations : m.known scope ≤ (raiseGenerations m seen r).known scope := by
  rw [known_raiseGenerations]
  split
  · exact le_max_left _ _
  · exact le_rfl

theorem lookup_map (f : String → ℕ) {l : List String} {timeframe : String} (h : timeframe ∈ l) :
    (l.map fun timeframe => (timeframe, f timeframe)).lookup timeframe = some (f timeframe) := by
  induction l with
  | nil => exact absurd h List.not_mem_nil
  | cons a l ih =>
    rw [List.map_cons, List.lookup_cons]
    by_cases ha : timeframe = a
    · subst ha
      simp
    · rw [beq_false_of_ne ha]
      exact ih ((List.mem_cons.mp h).resolve_left ha)

/-- A prepared payload carries the raised generations. -/
theorem contextGeneration_prepared {p : AnalysisPayload} {timeframe : String}
    (h : timeframe ∈ p.request.contextTimeframes) :
    (p.prepared m seen).captured.contextGeneration timeframe =
      some ((raiseGenerations m seen p.request).known (p.request.contextKey timeframe)) := by
  have hne : p.request.contextTimeframes ≠ [] := List.ne_nil_of_mem h
  have huse : p.request.usesContext (p.request.contextKey timeframe) = true :=
    AnalysisRequest.usesContext_iff.mpr ⟨timeframe, h, rfl⟩
  rw [known_raiseGenerations, if_pos huse]
  simp only [Captured.contextGeneration, AnalysisPayload.captured, AnalysisPayload.prepared,
    if_neg hne, Option.getD_some, contextGenerations]
  exact lookup_map (fun timeframe =>
    max (m.known (p.request.contextKey timeframe)) (seen.context timeframe)) h

end SharedMap

namespace AnalysisService

variable {s t u : AnalysisService} {cfg : AnalysisConfig} {chart : ℕ → ChartTable}

/-! ### Synchronised payloads -/

/-- The payload carries the generations of the map, those of the scopes in `later` left out. -/
structure SyncedWith (m : ContextGenerations) (later : ContextKey → Prop) (p : AnalysisPayload) :
    Prop where
  context : ∀ timeframe ∈ p.request.contextTimeframes, ¬ later (p.request.contextKey timeframe) →
    p.captured.contextGeneration timeframe = some (m.known (p.request.contextKey timeframe))
  parent : p.request.analysisEffects = .researchCapture →
    ¬ later (p.request.contextKey p.request.interval) →
    ∃ g, p.parentCanonicalGeneration = some g ∧
      m.known (p.request.contextKey p.request.interval) ≤ g

def Synced (s : AnalysisService) : Prop :=
  ∀ k w, s.wanted.get? k = some w → SyncedWith s.contexts (fun _ => False) w.payload

variable {p : AnalysisPayload}

/-- The map may move where the payload does not look. -/
theorem SyncedWith.of_known {m m' : ContextGenerations} {later : ContextKey → Prop}
    (h : SyncedWith m later p)
    (hm : ∀ scope, p.request.usesContext scope = true ∨ p.request.usesParent scope = true →
      ¬ later scope → m'.known scope = m.known scope) : SyncedWith m' later p where
  context timeframe hmem hlater := by
    have huse : p.request.usesContext (p.request.contextKey timeframe) = true :=
      AnalysisRequest.usesContext_iff.mpr ⟨timeframe, hmem, rfl⟩
    rw [hm _ (Or.inl huse) hlater]
    exact h.context timeframe hmem hlater
  parent heff hlater := by
    have huse : p.request.usesParent (p.request.contextKey p.request.interval) = true :=
      AnalysisRequest.usesParent_iff.mpr ⟨heff, rfl⟩
    rw [hm _ (Or.inr huse) hlater]
    exact h.parent heff hlater

/-- A payload that was just captured, from a parent that the capture did not overtake. -/
theorem syncedWith_prepared {m : ContextGenerations} (seen : ChartReads)
    (hparent : p.request.analysisEffects = .researchCapture →
      (raiseGenerations m seen p.request).known (p.request.contextKey p.request.interval) ≤
        p.parentCanonicalGeneration.getD seen.parent) :
    SyncedWith (raiseGenerations m seen p.request) (fun _ => False) (p.prepared m seen) where
  context _ hmem _ := contextGeneration_prepared hmem
  parent heff _ := ⟨_, rfl, hparent heff⟩

variable {key : String} {seen : ChartReads}

/-- The parent of a research capture that its own contexts do not overtake. -/
theorem parent_of_not_overtakes
    (hover : ¬ s.Overtakes key p seen) (hparent : s.ParentCurrent p seen)
    (heff : p.request.analysisEffects = .researchCapture) :
    (raiseGenerations s.contexts seen p.request).known (p.request.contextKey p.request.interval) ≤
      p.parentCanonicalGeneration.getD seen.parent := by
  rw [known_raiseGenerations]
  split
  · rename_i huse
    refine max_le (hparent heff) ?_
    by_contra hlt
    obtain ⟨timeframe, hmem, heq⟩ := AnalysisRequest.usesContext_iff.mp huse
    obtain rfl : timeframe = p.request.interval := (Prod.mk.inj (Prod.mk.inj heq).2).2
    have hlt := Nat.lt_of_not_le hlt
    exact hover ⟨_, hmem, lt_of_le_of_lt (hparent heff) hlt,
      Or.inr ⟨AnalysisRequest.usesParent_iff.mpr ⟨heff, rfl⟩, hlt⟩⟩
  · exact hparent heff

variable {scope : ContextKey} {w : WantedItem}

/-- A capture that overtakes nobody moves the map only where no other wanted analysis looks. -/
theorem known_of_not_overtakes (hover : ¬ s.Overtakes key p seen) {k : String} (hk : k ≠ key)
    (hw : s.wanted.get? k = some w)
    (huse : w.payload.request.usesContext scope = true ∨ w.payload.request.usesParent scope = true) :
    (raiseGenerations s.contexts seen p.request).known scope = s.contexts.known scope := by
  rw [known_raiseGenerations]
  split
  · rename_i hmine
    obtain ⟨timeframe, hmem, rfl⟩ := AnalysisRequest.usesContext_iff.mp hmine
    refine max_eq_left (Nat.le_of_not_lt fun hlt => hover ?_)
    exact ⟨timeframe, hmem, hlt, Or.inl ⟨k, w, hk, hw, huse⟩⟩
  · rfl

theorem Drops.synced (h : Drops s t) (hs : s.Synced) : t.Synced := fun k w hw =>
  h.contexts ▸ hs k w (h.wanted k w hw)

/-- The demand of a key changes and its generations do not. -/
theorem Synced.insert (h : s.Synced) {k : String} {v : WantedItem}
    (hk : s.wanted.get? k = some w) (hreq : v.payload.request = w.payload.request)
    (hctx : v.payload.confirmedBarContextGenerations = w.payload.confirmedBarContextGenerations)
    (hparent : v.payload.parentCanonicalGeneration = w.payload.parentCanonicalGeneration)
    (ht : t.contexts = s.contexts) (hwanted : t.wanted = s.wanted.insert k v) : t.Synced := by
  intro k' u hu
  rw [hwanted, Dict.get?_insert] at hu
  rw [ht]
  split_ifs at hu with hkk
  · cases hu
    have hold := h k w hk
    refine ⟨fun timeframe hmem hlater => ?_, fun heff hlater => ?_⟩
    · rw [hreq] at hmem ⊢
      have hgen := hold.context timeframe hmem hlater
      simp only [Captured.contextGeneration, AnalysisPayload.captured] at hgen ⊢
      rw [hctx]
      exact hgen
    · rw [hreq] at heff ⊢
      rw [hparent]
      exact hold.parent heff hlater
  · exact h k' u hu

/-- A key's demand is captured again without overtaking. -/
theorem Synced.capture (h : s.Synced)
    (hover : ¬ s.Overtakes key p seen) (hparent : s.ParentCurrent p seen)
    (ht : t.contexts = raiseGenerations s.contexts seen p.request)
    (hwanted : ∀ k w, t.wanted.get? k = some w →
      (k = key ∧ w.payload = p.prepared s.contexts seen) ∨
        (k ≠ key ∧ s.wanted.get? k = some w)) : t.Synced := by
  intro k w hw
  rw [ht]
  obtain ⟨-, hpayload⟩ | ⟨hne, hold⟩ := hwanted k w hw
  · rw [hpayload]
    exact syncedWith_prepared seen (parent_of_not_overtakes hover hparent)
  · exact (h k w hold).of_known fun scope huse _ => known_of_not_overtakes hover hne hold huse

/-! ### An advance that is taken -/

section Advance

variable {scope : ContextKey} {generation : ℕ} {now : ℚ} {seen : String → ChartReads}

/-- The captures of an advance overtake nobody. `s` is the state with the map raised. -/
def AdvanceFine (s : AnalysisService) (scope : ContextKey) (generation : ℕ)
    (seen : String → ChartReads) : Prop :=
  ∀ k w, s.wanted.get? k = some w →
    (w.payload.request.usesParent scope = true ∨ w.payload.request.usesContext scope = true) →
    ¬ s.Overtakes k (advancedPayload scope generation w.payload) (seen k)

@[simp] theorem request_advancedPayload (p : AnalysisPayload) :
    (advancedPayload scope generation p).request = p.request := by
  rw [advancedPayload]
  split <;> rfl

/-- The loop of an advance: `u` is the state before the keys in `rest`, `s` that before all. -/
structure AdvanceInv (s u : AnalysisService) (scope : ContextKey) (rest : List String) : Prop where
  nodup : rest.Nodup
  untouched : ∀ k ∈ rest, u.wanted.get? k = s.wanted.get? k
  requests : ∀ k w, u.wanted.get? k = some w →
    ∃ w', s.wanted.get? k = some w' ∧ w'.payload.request = w.payload.request
  known : ∀ sc, s.contexts.known sc ≤ u.contexts.known sc
  fixed : ∀ k ∈ rest, ∀ w, s.wanted.get? k = some w → ∀ sc,
    w.payload.request.usesContext sc = true ∨ w.payload.request.usesParent sc = true →
    u.contexts.known sc = s.contexts.known sc
  synced : ∀ k w, u.wanted.get? k = some w →
    SyncedWith u.contexts (fun sc => k ∈ rest ∧ sc = scope) w.payload

variable {k : String} {w : WantedItem}

/-- The state after a key was captured again. -/
theorem advanceKey_of_uses (cfg : AnalysisConfig) (generation : ℕ) (now : ℚ)
    (seen : String → ChartReads) (hw : u.wanted.get? k = some w)
    (huse : w.payload.request.usesParent scope = true ∨
      w.payload.request.usesContext scope = true) :
    (advanceKey cfg scope generation now seen u k).contexts =
        raiseGenerations u.contexts (seen k) w.payload.request ∧
      ∀ k' w', (advanceKey cfg scope generation now seen u k).wanted.get? k' = some w' →
        (k' = k ∧ w'.payload =
          (advancedPayload scope generation w.payload).prepared u.contexts (seen k)) ∨
        (k' ≠ k ∧ u.wanted.get? k' = some w') := by
  rw [advanceKey, hw]
  dsimp only
  rw [if_pos huse]
  constructor
  · rw [(cancelRunning_fields k).2.1]
    have heq : ((u.recaptureItem cfg k (advancedPayload scope generation w.payload) w now
        (seen k)).dropItem k).contexts = raiseGenerations u.contexts (seen k)
          (advancedPayload scope generation w.payload).request := rfl
    rw [heq, request_advancedPayload]
  · intro k' w' hw'
    rw [cancelRunning_wanted] at hw'
    have hinsert : (u.wanted.insert k _).get? k' = some w' := hw'
    rw [Dict.get?_insert] at hinsert
    split_ifs at hinsert with hk
    · exact Or.inl ⟨hk, (congrArg WantedItem.payload (Option.some.inj hinsert)).symm⟩
    · exact Or.inr ⟨hk, hinsert⟩

variable {rest : List String}

theorem AdvanceInv.skip (h : AdvanceInv s u scope (k :: rest))
    (hk : ∀ w, u.wanted.get? k = some w → ¬ (w.payload.request.usesParent scope = true ∨
      w.payload.request.usesContext scope = true)) : AdvanceInv s u scope rest where
  nodup := (List.nodup_cons.mp h.nodup).2
  untouched j hj := h.untouched j (List.mem_cons_of_mem _ hj)
  requests := h.requests
  known := h.known
  fixed j hj := h.fixed j (List.mem_cons_of_mem _ hj)
  synced j w hw := by
    have hold := h.synced j w hw
    have hlater : ∀ sc, w.payload.request.usesParent sc = true ∨
        w.payload.request.usesContext sc = true → ¬ (j ∈ rest ∧ sc = scope) →
        ¬ (j ∈ k :: rest ∧ sc = scope) := by
      rintro sc huse hnot ⟨hmem, rfl⟩
      obtain rfl | hmem := List.mem_cons.mp hmem
      · exact hk w hw huse
      · exact hnot ⟨hmem, rfl⟩
    exact
      { context := fun timeframe hmem hnot => hold.context timeframe hmem
          (hlater _ (Or.inr (AnalysisRequest.usesContext_iff.mpr ⟨timeframe, hmem, rfl⟩)) hnot)
        parent := fun heff hnot => hold.parent heff
          (hlater _ (Or.inl (AnalysisRequest.usesParent_iff.mpr ⟨heff, rfl⟩)) hnot) }

/-- A capture of the loop moves the map only where its own analysis alone looks. -/
theorem AdvanceInv.known_eq
    (h : AdvanceInv s u scope (k :: rest)) (hs : s.AdvanceFine scope generation seen)
    (hw : s.wanted.get? k = some w)
    (huse : w.payload.request.usesParent scope = true ∨ w.payload.request.usesContext scope = true)
    {k' : String} {w' : WantedItem} (hk : k' ≠ k) (hw' : s.wanted.get? k' = some w')
    {sc : ContextKey}
    (hsc : w'.payload.request.usesContext sc = true ∨ w'.payload.request.usesParent sc = true) :
    (raiseGenerations u.contexts (seen k) w.payload.request).known sc = u.contexts.known sc := by
  rw [known_raiseGenerations]
  split
  · rename_i hmine
    obtain ⟨timeframe, hmem, rfl⟩ := AnalysisRequest.usesContext_iff.mp hmine
    refine max_eq_left (Nat.le_of_not_lt fun hlt => hs k w hw huse ?_)
    rw [Overtakes, request_advancedPayload]
    exact ⟨timeframe, hmem, lt_of_le_of_lt (h.known _) hlt, Or.inl ⟨k', w', hk, hw', hsc⟩⟩
  · rfl

/-- The parent that a research capture carries after its turn. -/
theorem AdvanceInv.parent
    (h : AdvanceInv s u scope (k :: rest)) (hs : s.AdvanceFine scope generation seen)
    (hknown : s.contexts.known scope = generation) (hw : s.wanted.get? k = some w)
    (huse : w.payload.request.usesParent scope = true ∨ w.payload.request.usesContext scope = true)
    (heff : w.payload.request.analysisEffects = .researchCapture) :
    (raiseGenerations u.contexts (seen k) w.payload.request).known
        (w.payload.request.contextKey w.payload.request.interval) ≤
      (advancedPayload scope generation w.payload).parentCanonicalGeneration.getD
        (seen k).parent := by
  set r := w.payload.request with hr
  have hself : r.usesParent (r.contextKey r.interval) = true :=
    AnalysisRequest.usesParent_iff.mpr ⟨heff, rfl⟩
  have hfixed : u.contexts.known (r.contextKey r.interval) =
      s.contexts.known (r.contextKey r.interval) :=
    h.fixed k List.mem_cons_self w hw _ (Or.inr hself)
  -- before the capture the parent is not below the map
  have hbase : u.contexts.known (r.contextKey r.interval) ≤
      (advancedPayload scope generation w.payload).parentCanonicalGeneration.getD
        (seen k).parent := by
    rw [advancedPayload]
    split
    · rename_i hparent
      rw [(AnalysisRequest.usesParent_iff.mp hparent).2] at hfixed ⊢
      rw [hfixed, hknown]
      exact le_rfl
    · rename_i hparent
      have hold := h.synced k w ((h.untouched k List.mem_cons_self).trans hw)
      obtain ⟨g, hg, hle⟩ := hold.parent heff fun hlater => hparent (hlater.2 ▸ hself)
      rw [hg]
      exact hle
  rw [known_raiseGenerations]
  split
  · rename_i hmine
    refine max_le hbase (Nat.le_of_not_lt fun hlt => hs k w hw huse ?_)
    obtain ⟨timeframe, hmem, heq⟩ := AnalysisRequest.usesContext_iff.mp hmine
    obtain rfl : timeframe = r.interval := (Prod.mk.inj (Prod.mk.inj heq).2).2
    rw [Overtakes, request_advancedPayload]
    exact ⟨_, hmem, lt_of_le_of_lt (hfixed ▸ hbase) hlt, Or.inr ⟨hself, hlt⟩⟩
  · exact hbase

theorem AdvanceInv.capture
    (h : AdvanceInv s u scope (k :: rest)) (hs : s.AdvanceFine scope generation seen)
    (hknown : s.contexts.known scope = generation) (hw : u.wanted.get? k = some w)
    (huse : w.payload.request.usesParent scope = true ∨
      w.payload.request.usesContext scope = true) :
    AdvanceInv s (advanceKey cfg scope generation now seen u k) scope rest := by
  obtain ⟨hnot, hnodup⟩ := List.nodup_cons.mp h.nodup
  have hws : s.wanted.get? k = some w := (h.untouched k List.mem_cons_self).symm.trans hw
  obtain ⟨hctx, hwanted⟩ := advanceKey_of_uses cfg generation now seen hw huse
  refine ⟨hnodup, fun j hj => ?_, fun j w' hw' => ?_, fun sc => ?_, fun j hj w' hw' sc hsc => ?_,
    fun j w' hw' => ?_⟩
  · have hne : j ≠ k := fun heq => hnot (heq ▸ hj)
    refine (Option.ext fun w' => ?_).trans (h.untouched j (List.mem_cons_of_mem _ hj))
    rw [advanceKey, hw]
    dsimp only
    rw [if_pos huse, cancelRunning_wanted]
    have heq : ((u.recaptureItem cfg k (advancedPayload scope generation w.payload) w now
        (seen k)).dropItem k).wanted.get? j = u.wanted.get? j := Dict.get?_insert_of_ne _ hne _
    rw [heq]
  · obtain ⟨rfl, hpayload⟩ | ⟨-, hold⟩ := hwanted j w' hw'
    · refine ⟨w, hws, ?_⟩
      rw [hpayload]
      exact (request_advancedPayload w.payload).symm
    · exact h.requests j w' hold
  · rw [hctx]
    exact (h.known sc).trans le_known_raiseGenerations
  · have hne : j ≠ k := fun heq => hnot (heq ▸ hj)
    rw [hctx, h.known_eq hs hws huse hne hw' hsc]
    exact h.fixed j (List.mem_cons_of_mem _ hj) w' hw' sc hsc
  · rw [hctx]
    obtain ⟨rfl, hpayload⟩ | ⟨hne, hold⟩ := hwanted j w' hw'
    · have hprep := syncedWith_prepared (m := u.contexts) (seen j)
        (p := advancedPayload scope generation w.payload) fun heff => by
          rw [request_advancedPayload] at heff ⊢
          exact h.parent hs hknown hws huse heff
      rw [request_advancedPayload] at hprep
      rw [hpayload]
      exact ⟨fun timeframe hmem _ => hprep.context timeframe hmem not_false,
        fun heff _ => hprep.parent heff not_false⟩
    · obtain ⟨w'', hw'', hreq⟩ := h.requests j w' hold
      have hkept := h.synced j w' hold
      have hlater : ∀ sc, ¬ (j ∈ rest ∧ sc = scope) → ¬ (j ∈ k :: rest ∧ sc = scope) :=
        fun sc hn hboth => hn ⟨(List.mem_cons.mp hboth.1).resolve_left hne, hboth.2⟩
      have hrest : SyncedWith u.contexts (fun sc => j ∈ rest ∧ sc = scope) w'.payload :=
        ⟨fun timeframe hmem hn => hkept.context timeframe hmem (hlater _ hn),
          fun heff hn => hkept.parent heff (hlater _ hn)⟩
      refine hrest.of_known fun sc hsc _ => ?_
      exact h.known_eq hs hws huse hne hw'' (hreq ▸ hsc)

theorem AdvanceInv.foldl (h : AdvanceInv s u scope rest)
    (cfg : AnalysisConfig) (now : ℚ) (hs : s.AdvanceFine scope generation seen) (hknown : s.contexts.known scope = generation) :
    AdvanceInv s (rest.foldl (advanceKey cfg scope generation now seen) u) scope [] := by
  induction rest generalizing u with
  | nil => exact h
  | cons k rest ih =>
    rw [List.foldl_cons]
    cases hw : u.wanted.get? k with
    | none =>
      have hsame : advanceKey cfg scope generation now seen u k = u := by rw [advanceKey, hw]
      rw [hsame]
      exact ih (h.skip fun w hw' => by cases hw.symm.trans hw')
    | some w =>
      by_cases huse : w.payload.request.usesParent scope = true ∨
          w.payload.request.usesContext scope = true
      · exact ih (h.capture hs hknown hw huse)
      · have hsame : advanceKey cfg scope generation now seen u k = u := by
          rw [advanceKey, hw]
          exact if_neg huse
        rw [hsame]
        exact ih (h.skip fun w' hw' => Option.some.inj (hw.symm.trans hw') ▸ huse)

end Advance

/-! ### Steps -/

/-- What the shared map is after a section: as before, or raised by the capture of one payload. -/
theorem contexts_completeJob (cfg : AnalysisConfig) (s : AnalysisService) (j : ℕ)
    (job : AnalysisJob) (outcome : JobOutcome) (now : ℚ) (seen : ChartReads)
    (views : ℕ → ChartTable) :
    (s.completeJob cfg j job outcome now seen views).contexts = s.contexts ∨
      (s.completeJob cfg j job outcome now seen views).contexts =
        raiseGenerations s.contexts seen job.payload.request := by
  refine completeJob_cases (P := fun t => t.contexts = s.contexts ∨
    t.contexts = raiseGenerations s.contexts seen job.payload.request) (fun _ => Or.inl rfl)
    (fun _ => Or.inl rfl) (fun _ _ _ _ _ _ => Or.inl rfl) (fun _ => Or.inl rfl)
    (fun _ w contextMatches _ => ?_) (fun _ => Or.inl rfl)
  rw [retryItem]
  split
  · exact Or.inl rfl
  · exact Or.inr rfl

variable {now : ℚ} {generation : ℕ}

theorem known_le_advanceKeys {seen : String → ChartReads} (keys : List String) (sc : ContextKey) :
    s.contexts.known sc ≤
      (keys.foldl (advanceKey cfg scope generation now seen) s).contexts.known sc := by
  induction keys generalizing s with
  | nil => exact le_rfl
  | cons k keys ih =>
    refine le_trans ?_ ih
    cases hw : s.wanted.get? k with
    | none =>
      rw [advanceKey, hw]
    | some w =>
      by_cases huse : w.payload.request.usesParent scope = true ∨
          w.payload.request.usesContext scope = true
      · rw [(advanceKey_of_uses cfg generation now seen hw huse).1]
        exact le_known_raiseGenerations
      · have hsame : advanceKey cfg scope generation now seen s k = s := by
          rw [advanceKey, hw]
          exact if_neg huse
        rw [hsame]

/-- An advance announces a generation, and the map has it afterwards. -/
theorem known_confirmedBarContextAdvanced {seen : String → ChartReads} (sc : ContextKey) :
    max (s.contexts.known sc) (if scope = sc then generation else 0) ≤
      (s.confirmedBarContextAdvanced cfg scope generation now seen).contexts.known sc := by
  by_cases hle : generation ≤ s.contexts.known scope
  · rw [confirmedBarContextAdvanced, if_pos hle]
    refine max_le le_rfl ?_
    split
    · rename_i heq
      exact heq ▸ hle
    · exact Nat.zero_le _
  · rw [confirmedBarContextAdvanced, if_neg hle]
    have hraised : max (s.contexts.known sc) (if scope = sc then generation else 0) ≤
        ContextGenerations.known (s.contexts.insert scope generation) sc := by
      rw [ContextGenerations.known_insert]
      by_cases heq : sc = scope
      · subst heq
        rw [if_pos rfl, if_pos rfl]
        exact max_le (Nat.le_of_not_le hle) le_rfl
      · rw [if_neg heq, if_neg (Ne.symm heq)]
        exact max_le le_rfl (Nat.zero_le _)
    exact hraised.trans
      (known_le_advanceKeys (s := { s with contexts := s.contexts.insert scope generation }) _ sc)

theorem wanted_renewItem {c : String} {n : ℕ} :
    (s.renewItem c key n now w).wanted = s.wanted.insert key { w with wantedAt := now } := rfl

theorem Synced.withClientVersion {version : String} (h : s.Synced)
    (hw : s.wanted.get? key = some w) (c : String) (n : ℕ) (now : ℚ) :
    (s.renewItem c key n now
      { w with payload := AnalysisService.withClientVersion w.payload version }).Synced := by
  refine h.insert hw ?_ ?_ ?_ rfl wanted_renewItem
  all_goals
    dsimp only
    rw [AnalysisService.withClientVersion]
    split <;> rfl

theorem Synced.completeJob (h : s.Synced) {j : ℕ} {job : AnalysisJob}
    (hj : s.jobs.get? j = some job) (hdone : job.done = false) {outcome : JobOutcome}
    {views : ℕ → ChartTable} (hfine : s.requestCurrent job ≠ none →
      ¬ s.Overtakes job.key job.payload seen ∧ s.ParentCurrent job.payload seen) :
    (s.completeJob cfg j job outcome now seen views).Synced := by
  refine completeJob_cases (P := Synced) (fun _ => (drops_finishJob hj hdone).synced h)
    (fun howns => (drops_settled hj hdone howns).synced h) (fun _ _ _ _ _ _ => h)
    (fun _ => h) (fun _ w contextMatches hreq => ?_) (fun _ k w hw => ?_)
  · have hsame : s.requestCurrent job = some w := hreq
    obtain ⟨hw, -⟩ := of_requestCurrent hsame
    rw [retryItem]
    split
    · exact h.insert hw (v := { w with notBefore := some (now + cfg.generationSettleSeconds) })
        rfl rfl rfl rfl rfl
    · obtain ⟨hover, hparent⟩ := hfine (hsame ▸ Option.some_ne_none _)
      refine h.capture hover hparent rfl fun k w' hw' => ?_
      have hinsert : (s.wanted.insert job.key _).get? k = some w' := hw'
      rw [Dict.get?_insert] at hinsert
      split_ifs at hinsert with hk
      · exact Or.inl ⟨hk, (congrArg WantedItem.payload (Option.some.inj hinsert)).symm⟩
      · exact Or.inr ⟨hk, hinsert⟩
  · have herase : (s.wanted.erase job.key).get? k = some w := hw
    rw [Dict.get?_erase] at herase
    split_ifs at herase
    exact h k w herase

theorem Synced.confirmedBarContextAdvanced (h : s.Synced) {seen : String → ChartReads}
    (hfine : s.contexts.known scope < generation →
      AdvanceFine { s with contexts := s.contexts.insert scope generation } scope generation
        seen) :
    (s.confirmedBarContextAdvanced cfg scope generation now seen).Synced := by
  rw [AnalysisService.confirmedBarContextAdvanced]
  split
  · exact h
  · rename_i hlt
    have hknown : ContextGenerations.known (s.contexts.insert scope generation) scope =
        generation := by
      rw [ContextGenerations.known_insert, if_pos rfl]
    have hstart : AdvanceInv { s with contexts := s.contexts.insert scope generation }
        { s with contexts := s.contexts.insert scope generation } scope s.wanted.keys :=
      { nodup := s.wanted.nodup_keys
        untouched := fun _ _ => rfl
        requests := fun k w hw => ⟨w, hw, rfl⟩
        known := fun _ => le_rfl
        fixed := fun _ _ _ _ _ _ => rfl
        synced := fun k w hw => by
          have hmem : k ∈ s.wanted.keys := Dict.mem_keys_of_get? hw
          have hold := h k w hw
          have hsame : ∀ sc, ¬ (k ∈ s.wanted.keys ∧ sc = scope) →
              ContextGenerations.known (s.contexts.insert scope generation) sc =
                s.contexts.known sc := fun sc hsc => by
            rw [ContextGenerations.known_insert, if_neg fun heq => hsc ⟨hmem, heq⟩]
          refine ⟨fun timeframe htf hlater => ?_, fun heff hlater => ?_⟩
          · dsimp only
            rw [hsame _ hlater]
            exact hold.context timeframe htf not_false
          · dsimp only
            rw [hsame _ hlater]
            exact hold.parent heff not_false }
    have hend := hstart.foldl cfg now (hfine (Nat.lt_of_not_le hlt)) hknown
    intro k w hw
    have hlast := hend.synced k w hw
    exact ⟨fun timeframe hmem _ => hlast.context timeframe hmem fun hn => absurd hn.1 List.not_mem_nil,
      fun heff _ => hlast.parent heff fun hn => absurd hn.1 List.not_mem_nil⟩

/-- The map never falls, and it has what a step announced. -/
theorem announces_step {a : AnalysisAct} (sc : ContextKey)
    (hstep : StepOf (analysisStep cfg chart) s a t) :
    max (s.contexts.known sc) (a.announces sc) ≤ t.contexts.known sc := by
  have hdrop : Drops s t → max (s.contexts.known sc) 0 ≤ t.contexts.known sc := fun h => by
    rw [h.contexts]
    exact max_le le_rfl (Nat.zero_le _)
  cases a with
  | register c k n p now seen =>
    obtain ⟨-, hstep⟩ := guard_bind_eq_some.mp hstep
    cases hstep
    refine max_le ?_ (Nat.zero_le _)
    rw [registerWanted_state]
    split
    · rw [contexts_registerPayload]
      exact le_known_raiseGenerations (m := s.contexts)
    · exact le_rfl
  | renew c k n i r now =>
    obtain ⟨-, hstep⟩ := guard_bind_eq_some.mp hstep
    cases hstep
    have hprune : Drops s (s.pruneClientLeases cfg now) := .pruneClientLeases now
    refine max_le ?_ (Nat.zero_le _)
    rw [← hprune.contexts, renewClientLease]
    cases (s.pruneClientLeases cfg now).heldItem c k n i r <;> exact le_rfl
  | refresh c k n i r version now =>
    obtain ⟨-, hstep⟩ := guard_bind_eq_some.mp hstep
    cases hstep
    have hprune : Drops s (s.pruneClientLeases cfg now) := .pruneClientLeases now
    refine max_le ?_ (Nat.zero_le _)
    rw [← hprune.contexts, refreshClientAnalysis]
    cases (s.pruneClientLeases cfg now).heldItem c k n i r with
    | none => exact le_rfl
    | some w => rw [(Drops.dropAgedItem k now _).contexts]; exact le_rfl
  | release c n now =>
    obtain ⟨-, hstep⟩ := guard_bind_eq_some.mp hstep
    cases hstep
    refine max_le ?_ (Nat.zero_le _)
    rw [releaseClientLease]
    split
    · exact le_rfl
    · split
      · exact le_of_eq (congrArg (ContextGenerations.known · sc)
          (Drops.detachClientLease (s := s) c).contexts.symm)
      · exact le_rfl
  | invalidate i r =>
    exact hdrop (Option.some.inj hstep ▸ Drops.foldl (fun _ k => .invalidateKey k) _ s)
  | advance scope g now seen =>
    obtain ⟨-, hstep⟩ := guard_bind_eq_some.mp hstep
    exact Option.some.inj hstep ▸ known_confirmedBarContextAdvanced sc
  | sweep now =>
    exact hdrop (Option.some.inj hstep ▸ Drops.popDoneTasks.trans (.pruneClientLeases now))
  | start k =>
    rw [StepOf, analysisStep, startJob] at hstep
    obtain ⟨item, -, hstep⟩ := Option.bind_eq_some_iff.mp hstep
    obtain ⟨-, hstep⟩ := guard_bind_eq_some.mp hstep
    cases hstep
    exact max_le le_rfl (Nat.zero_le _)
  | complete j outcome now seen delays =>
    obtain ⟨job, hjob, hstep⟩ := Option.bind_eq_some_iff.mp hstep
    obtain ⟨-, hstep⟩ := guard_bind_eq_some.mp hstep
    cases hstep
    refine max_le ?_ (Nat.zero_le _)
    obtain heq | heq := contexts_completeJob cfg s j job outcome now seen
      (sectionViews chart s.clock delays)
    · exact le_of_eq (congrArg (ContextGenerations.known · sc) heq.symm)
    · exact le_known_raiseGenerations.trans
        (le_of_eq (congrArg (ContextGenerations.known · sc) heq.symm))
  | exit j failed =>
    obtain ⟨job, hjob, hstep⟩ := Option.bind_eq_some_iff.mp hstep
    obtain ⟨hdone, hstep⟩ := guard_bind_eq_some.mp hstep
    cases hstep
    exact hdrop (drops_exitJob hjob hdone failed)
  | awaitFailed k i r retryable now =>
    rw [StepOf, analysisStep, awaitFailedJob] at hstep
    obtain ⟨j, -, hstep⟩ := Option.bind_eq_some_iff.mp hstep
    obtain ⟨job, -, hstep⟩ := Option.bind_eq_some_iff.mp hstep
    obtain ⟨-, hstep⟩ := guard_bind_eq_some.mp hstep
    cases hstep
    refine max_le ?_ (Nat.zero_le _)
    split <;> exact le_rfl
  | snapshot k i r delays =>
    cases hstep
    exact hdrop ((Drops.snapshot k i r _).trans (.passTime delays))

/-- A step that captures finely keeps the payloads synchronised. -/
theorem synced_step {a : AnalysisAct} (h : s.Synced) (hfine : s.CapturesFinely a)
    (hstep : StepOf (analysisStep cfg chart) s a t) : t.Synced := by
  cases a with
  | register c k n p now seen =>
    obtain ⟨-, hstep⟩ := guard_bind_eq_some.mp hstep
    cases hstep
    rw [registerWanted_state]
    split
    · have hprune : (s.pruneClientHighwaters now).Synced := h
      exact hprune.capture hfine.1 hfine.2 contexts_registerPayload fun _ _ => wanted_registerPayload
    · exact h
  | renew c k n i r now =>
    obtain ⟨-, hstep⟩ := guard_bind_eq_some.mp hstep
    cases hstep
    have hprune : (s.pruneClientLeases cfg now).Synced := Drops.synced (.pruneClientLeases now) h
    rw [renewClientLease]
    cases hitem : (s.pruneClientLeases cfg now).heldItem c k n i r with
    | none => exact hprune
    | some w =>
      exact hprune.insert (LeaseInv.of_heldItem hitem).1 (v := { w with wantedAt := now })
        rfl rfl rfl rfl rfl
  | refresh c k n i r version now =>
    obtain ⟨-, hstep⟩ := guard_bind_eq_some.mp hstep
    cases hstep
    have hprune : (s.pruneClientLeases cfg now).Synced := Drops.synced (.pruneClientLeases now) h
    rw [refreshClientAnalysis]
    cases hitem : (s.pruneClientLeases cfg now).heldItem c k n i r with
    | none => exact hprune
    | some w =>
      exact (Drops.dropAgedItem k now _).synced
        (hprune.withClientVersion (LeaseInv.of_heldItem hitem).1 c n now)
  | release c n now =>
    obtain ⟨-, hstep⟩ := guard_bind_eq_some.mp hstep
    cases hstep
    rw [releaseClientLease]
    split
    · exact h
    · split
      · exact (Drops.detachClientLease (s := s) c).synced h
      · exact h
  | invalidate i r =>
    exact Option.some.inj hstep ▸ (Drops.foldl (fun _ k => .invalidateKey k) _ s).synced h
  | advance scope g now seen =>
    obtain ⟨-, hstep⟩ := guard_bind_eq_some.mp hstep
    exact Option.some.inj hstep ▸ h.confirmedBarContextAdvanced hfine
  | sweep now =>
    exact Option.some.inj hstep ▸ (Drops.popDoneTasks.trans (.pruneClientLeases now)).synced h
  | start k =>
    rw [StepOf, analysisStep, startJob] at hstep
    obtain ⟨item, -, hstep⟩ := Option.bind_eq_some_iff.mp hstep
    obtain ⟨-, hstep⟩ := guard_bind_eq_some.mp hstep
    cases hstep
    exact h
  | complete j outcome now seen delays =>
    obtain ⟨job, hjob, hstep⟩ := Option.bind_eq_some_iff.mp hstep
    obtain ⟨⟨hdone, -⟩, hstep⟩ := guard_bind_eq_some.mp hstep
    cases hstep
    exact (Drops.passTime delays).synced (h.completeJob hjob hdone (hfine job hjob))
  | exit j failed =>
    obtain ⟨job, hjob, hstep⟩ := Option.bind_eq_some_iff.mp hstep
    obtain ⟨hdone, hstep⟩ := guard_bind_eq_some.mp hstep
    cases hstep
    exact (drops_exitJob hjob hdone failed).synced h
  | awaitFailed k i r retryable now =>
    rw [StepOf, analysisStep, awaitFailedJob] at hstep
    obtain ⟨j, -, hstep⟩ := Option.bind_eq_some_iff.mp hstep
    obtain ⟨job, -, hstep⟩ := Option.bind_eq_some_iff.mp hstep
    obtain ⟨-, hstep⟩ := guard_bind_eq_some.mp hstep
    cases hstep
    split <;> exact h
  | snapshot k i r delays =>
    cases hstep
    exact ((Drops.snapshot k i r _).trans (.passTime delays)).synced h

theorem advancedTo_le_known {s t : AnalysisService} {as : List AnalysisAct} (scope : ContextKey)
    (h : Run (StepOf (analysisStep cfg chart)) s as t) :
    max (s.contexts.known scope) (advancedTo scope as) ≤ t.contexts.known scope := by
  induction h with
  | nil => exact max_le le_rfl (Nat.zero_le _)
  | @cons s u t a as hstep _ ih =>
    have hone := announces_step scope hstep
    have hrest : advancedTo scope as ≤ t.contexts.known scope := (le_max_right _ _).trans ih
    have hknown : u.contexts.known scope ≤ t.contexts.known scope := (le_max_left _ _).trans ih
    refine max_le ((le_max_left _ _).trans (hone.trans hknown)) ?_
    exact max_le ((le_max_right _ _).trans (hone.trans hknown)) hrest

/-- Where the payloads are synchronised, whatever the map has is kept. -/
theorem advanceKept_of_synced (hs : s.Synced) (hr : s.ResultInv)
    (hle : generation ≤ s.contexts.known scope) : s.AdvanceKept scope generation := by
  have hcontext : ∀ k w, s.wanted.get? k = some w → w.payload.request.usesContext scope = true →
      w.payload.captured.contextGeneration scope.2.2 = some (s.contexts.known scope) := by
    intro k w hw huse
    obtain ⟨timeframe, hmem, rfl⟩ := AnalysisRequest.usesContext_iff.mp huse
    exact (hs k w hw).context timeframe hmem not_false
  have hparent : ∀ k w, s.wanted.get? k = some w → w.payload.request.usesParent scope = true →
      ∃ g, w.payload.parentCanonicalGeneration = some g ∧ generation ≤ g := by
    intro k w hw huse
    obtain ⟨heff, rfl⟩ := AnalysisRequest.usesParent_iff.mp huse
    obtain ⟨g, hg, hknown⟩ := (hs k w hw).parent heff not_false
    exact ⟨g, hg, hle.trans hknown⟩
  refine ⟨fun k w hw huse => ⟨_, hcontext k w hw huse, hle⟩, hparent,
    fun k w item g hw hitem huse hg => ?_, fun k w item g hw hitem huse hg => ?_⟩
  · have hgen := hcontext k w hw huse
    -- the item has the very contexts of the wanted payload, or none
    rw [Captured.contextGeneration] at hg hgen
    cases he : w.payload.captured.confirmedBarContextGenerations with
    | none => rw [he] at hgen; nomatch hgen
    | some e =>
      cases he' : item.captured.confirmedBarContextGenerations with
      | none => rw [he'] at hg; nomatch hg
      | some e' =>
        obtain rfl := (hr.fits k item w hitem hw).contexts e e' he he'
        rw [he] at hgen
        rw [he'] at hg
        exact Option.some.inj (hgen.symm.trans hg) ▸ hle
  · obtain ⟨g', hg', hle'⟩ := hparent k w hw huse
    have hsame : w.payload.parentCanonicalGeneration = some g :=
      (hr.fits k item w hitem hw).parent g hg
    exact Option.some.inj (hg'.symm.trans hsame) ▸ hle'

end AnalysisService

open AnalysisService

/-- **No lost context advance.** In every run whose steps capture finely, every advance that was
announced so far is kept, whatever happened since. -/
theorem context_advance_kept (cfg : AnalysisConfig) (chart : ℕ → ChartTable)
    (acts : List AnalysisAct) (s : AnalysisService)
    (h : Run (Guarded CapturesFinely (StepOf (analysisStep cfg chart))) .initial acts s)
    (scope : ContextKey) : s.AdvanceKept scope (advancedTo scope acts) := by
  have hsynced : s.Synced := by
    refine h.invariant (fun _ _ _ hs hstep => synced_step hs hstep.1 hstep.2) ?_
    intro k w hw
    simp [AnalysisService.initial] at hw
  have hknown := advancedTo_le_known scope h.unguard
  exact advanceKept_of_synced hsynced (resultInv_run h.unguard) ((le_max_right _ _).trans hknown)

/-! ### Two analyses with one context -/

def noReads : ChartReads := ⟨0, fun _ => 0⟩

theorem capturesFinely_register_noReads (s : AnalysisService) (c key : String) (n : ℕ)
    (contextTimeframes : List String) (other : String) (now : ℚ) :
    s.CapturesFinely (.register c key n (examplePayload contextTimeframes other) now noReads) :=
  ⟨fun ⟨_, _, hlt, _⟩ => Nat.not_lt_zero _ hlt, nofun⟩

theorem capturesFinely_advance_noReads (s : AnalysisService) (scope : ContextKey) (g : ℕ)
    (now : ℚ) : s.CapturesFinely (.advance scope g now fun _ => noReads) :=
  fun _ _ _ _ _ ⟨_, _, hlt, _⟩ => Nat.not_lt_zero _ hlt

def minuteScope : ContextKey := ("ES", "route", "1m")

/-- An analysis is registered, and its context advances. -/
def plainAdvance : List AnalysisAct :=
  [.register "a" "first" 1 (examplePayload ["1m"] "first") 0 noReads,
    .advance minuteScope 1 3 fun _ => noReads]

theorem context_advance_kept_acts : ∃ s, Run (Guarded CapturesFinely
    (StepOf (analysisStep .standard stillChart))) .initial plainAdvance s ∧
    s.AdvanceKept minuteScope 1 := by
  obtain ⟨u, hu⟩ : ∃ u, analysisStep .standard stillChart .initial
      (.register "a" "first" 1 (examplePayload ["1m"] "first") 0 noReads) = some u := ⟨_, rfl⟩
  obtain ⟨t, ht⟩ : ∃ t, analysisStep .standard stillChart u
      (.advance minuteScope 1 3 fun _ => noReads) = some t := ⟨_, rfl⟩
  have hrun : Run (Guarded CapturesFinely (StepOf (analysisStep .standard stillChart))) .initial
      plainAdvance t :=
    .cons ⟨capturesFinely_register_noReads _ _ _ _ _ _ _, hu⟩
      (.single ⟨capturesFinely_advance_noReads _ _ _ _, ht⟩)
  exact ⟨t, hrun, context_advance_kept _ _ _ _ hrun minuteScope⟩

/-- The minute chart is published at moment ten. -/
def minutePublished : ℕ → ChartTable := fun moment scope =>
  ⟨if scope = minuteScope ∧ 10 ≤ moment then 1 else 0, false⟩

/-- The first analysis has its result when the minute chart is published. The second one registers
and captures the new generation, and then the publication is announced. -/
def ignoredAdvance : List AnalysisAct :=
  [.register "a" "first" 1 (examplePayload ["1m"] "first") 0 noReads,
    .start "first",
    .complete 0 (.ready "result" 6) 1 noReads [],
    .register "b" "second" 1 { examplePayload ["1m"] "second" with
      request := { exampleRequest ["1m"] "second" with range := "5d" } } 2 ⟨0, fun _ => 1⟩,
    .advance minuteScope 1 3 fun _ => ⟨0, fun _ => 1⟩]

def afterIgnoredAdvance : AnalysisService :=
  (ignoredAdvance.foldlM (analysisStep .standard minutePublished) .initial).get (by decide +kernel)

/-- The announcement reaches nobody: the first analysis still carries the old generation, and its
old result is still cached. -/
theorem advance_ignored_after_registration :
    Run (StepOf (analysisStep .standard minutePublished)) .initial ignoredAdvance
        afterIgnoredAdvance ∧
      (afterIgnoredAdvance.cache.get? "first").map CacheItem.isReady = some true ∧
      ¬ afterIgnoredAdvance.AdvanceKept minuteScope 1 := by
  refine ⟨.of_foldlM (Option.some_get _).symm, by decide +kernel, fun h => ?_⟩
  have hold : (afterIgnoredAdvance.wanted.get? "first").map (fun w =>
      (w.payload.captured.contextGeneration "1m", w.payload.request.usesContext minuteScope)) =
      some (some 0, true) := by decide +kernel
  obtain ⟨w, hw, heq⟩ := Option.map_eq_some_iff.mp hold
  obtain ⟨hgen, huse⟩ := Prod.mk.inj heq
  obtain ⟨g, hg, hle⟩ := h.context "first" w hw huse
  cases (hgen.symm.trans hg)
  exact absurd hle (by decide)

end AefTerminal
