import AefTerminal.Paper.JournalRuntime

/-!
# No invalidation of the journal is lost

The generation of the projection is the number of marks. A refresh takes the generation before it
reads, so what it read has seen every commit marked by then; it publishes only under the generation
it took, so nothing marked since is missing. A caller who found nothing to load, or waited until
nothing was left to load, is answered from rows that have seen every mark before the call.

## Main definitions

* `CallMove`, `Move`: what a step does
* `Sound`: what has been seen by whom
* `Answered`: what a call that started at a generation is owed

## Main results

* `step_cases`: the inversion lemma of the step function
* `JournalSystem.active_snapshot_fresh`
-/

namespace AefTerminal

open Foundation

namespace JournalSystem

/-- The orders were all that were pending after the first `g` marked commits, or later. -/
def OrdersSeen (h : MarkedHistory PaperTables) (g : ℕ) (orders : List SavedOrder) : Prop :=
  h.SeenSince g fun t => readPendingOrders t = .ok orders

/-- As `OrdersSeen`, of the open positions. -/
def PositionsSeen (h : MarkedHistory PaperTables) (g : ℕ) (positions : List SavedPosition) : Prop :=
  h.SeenSince g fun t => readOpenPositions t = .ok positions

/-! ### What a step does -/

/-- What a reader's step does to its call. -/
inductive CallMove (s : JournalSystem) : Option SnapshotCall → SnapshotCall → Prop
  | wait : CallMove s none .waiting
  | current (h : s.runtime.loadedGeneration = s.runtime.generation) : CallMove s none .refreshed
  | acquire : CallMove s (some .waiting) .looping
  | enter : CallMove s (some .looping) (.reading s.runtime.generation)
  | leave (h : s.runtime.loadedGeneration = s.runtime.generation) :
      CallMove s (some .looping) .refreshed
  | readOrders {generation : ℕ} {orders : List SavedOrder}
      (h : readPendingOrders s.journal.current = .ok orders) :
      CallMove s (some (.reading generation)) (.ordersRead generation orders)
  | readPositions {generation : ℕ} {orders : List SavedOrder} {positions : List SavedPosition}
      (h : readOpenPositions s.journal.current = .ok positions) :
      CallMove s (some (.ordersRead generation orders))
        (.positionsRead generation orders positions)
  /-- What was read is stale. -/
  | again {generation : ℕ} {orders : List SavedOrder} {positions : List SavedPosition} :
      CallMove s (some (.positionsRead generation orders positions)) .looping
  | finish : CallMove s (some .refreshed)
      (.returned s.runtime.pendingOrders s.runtime.openPositions)
  | fail {call : SnapshotCall} (h : ∀ orders positions, call ≠ .returned orders positions) :
      CallMove s (some call) .raised

/-- The four kinds of steps. -/
inductive Move (s : JournalSystem) : Act → JournalSystem → Prop
  | commit (call : PaperAct) {t : JournalSystem}
      (hjournal : t.journal = s.journal.commit (s.journal.current.perform call))
      (hunmarked : t.unmarked = (s.journal.commits + 1) :: s.unmarked)
      (hruntime : t.runtime = s.runtime) (hcalls : t.calls = s.calls) : Move s (.commit call) t
  | mark {m : ℕ} (hm : m ∈ s.unmarked) {t : JournalSystem}
      (hjournal : t.journal = s.journal.mark m) (hunmarked : t.unmarked = s.unmarked.erase m)
      (hruntime : t.runtime = s.runtime.markCommitted) (hcalls : t.calls = s.calls) :
      Move s (.markCommitted m) t
  | call {a : Act} {c : ℕ} {call : SnapshotCall} {t : JournalSystem}
      (hmove : CallMove s (s.calls.get? c) call) (hjournal : t.journal = s.journal)
      (hunmarked : t.unmarked = s.unmarked) (hruntime : t.runtime = s.runtime)
      (hcalls : t.calls = s.calls.insert c call) : Move s a t
  | publish {c : ℕ} {orders : List SavedOrder} {positions : List SavedPosition} {t : JournalSystem}
      (hcall : s.calls.get? c = some (.positionsRead s.runtime.generation orders positions))
      (hjournal : t.journal = s.journal) (hunmarked : t.unmarked = s.unmarked)
      (hruntime : t.runtime = ⟨s.runtime.generation, s.runtime.generation, orders, positions⟩)
      (hcalls : t.calls = s.calls.insert c .refreshed) : Move s (.publish c) t

theorem freezeOrders_eq_ok {rows frozen : List SavedOrder}
    (h : PaperJournalRuntime.freezeOrders rows = .ok frozen) : frozen = rows := by
  obtain ⟨_, -, h⟩ := bind_eq_ok.mp h
  exact (pure_eq_ok.mp h).symm

theorem freezePositions_eq_ok {rows frozen : List SavedPosition}
    (h : PaperJournalRuntime.freezePositions rows = .ok frozen) : frozen = rows := by
  obtain ⟨_, -, h⟩ := bind_eq_ok.mp h
  exact (pure_eq_ok.mp h).symm

variable {generation g : ℕ} {orders : List SavedOrder} {positions : List SavedPosition}
   {r : PaperJournalRuntime}

/-- Rows are published under the generation of the projection, or not at all. -/
theorem publishSnapshot_eq_ok {r' : PaperJournalRuntime} {published : Bool}
    (h : r.publishSnapshot orders positions generation = .ok (published, r')) :
    published = true ∧ generation = r.generation ∧ r' = ⟨r.generation, generation, orders, positions⟩ ∨
      published = false ∧ generation ≠ r.generation ∧ r' = r := by
  unfold PaperJournalRuntime.publishSnapshot at h
  obtain ⟨frozenOrders, horders, h⟩ := bind_eq_ok.mp h
  obtain ⟨frozenPositions, hpositions, h⟩ := bind_eq_ok.mp h
  rw [freezeOrders_eq_ok horders, freezePositions_eq_ok hpositions] at h
  split_ifs at h with hfuture hstale
  · cases (pure_eq_ok.mp h)
    exact Or.inr ⟨rfl, hstale, rfl⟩
  · cases (pure_eq_ok.mp h)
    exact Or.inl ⟨rfl, not_not.mp hstale, rfl⟩

theorem refreshGeneration_eq_none (h : r.refreshGeneration = none) :
    r.loadedGeneration = r.generation := by
  unfold PaperJournalRuntime.refreshGeneration at h
  split_ifs at h with hloaded
  exact hloaded

theorem refreshGeneration_eq_some
    (h : r.refreshGeneration = some generation) : generation = r.generation := by
  unfold PaperJournalRuntime.refreshGeneration at h
  split_ifs at h
  exact (Option.some.inj h).symm

variable {c : ℕ} {s t : JournalSystem}

theorem move_publishCall
    (hcall : s.calls.get? c = some (.positionsRead generation orders positions)) :
    Move s (.publish c) (s.publishCall c generation orders positions) := by
  unfold publishCall
  split
  · rename_i runtime hpublish
    obtain ⟨-, rfl, rfl⟩ | ⟨habsurd, -⟩ := publishSnapshot_eq_ok hpublish
    · exact .publish hcall rfl rfl rfl rfl
    · cases habsurd
  · rename_i runtime hpublish
    obtain ⟨habsurd, -⟩ | ⟨-, -, rfl⟩ := publishSnapshot_eq_ok hpublish
    · cases habsurd
    · exact .call (hcall ▸ .again) rfl rfl rfl rfl
  · exact .call (hcall ▸ .fail nofun) rfl rfl rfl rfl

variable {a : Act}

/-- Every step is one of the four kinds. -/
theorem step_cases (h : s.step a = some t) : Move s a t := by
  cases a with
  | commit call =>
    rw [← Option.some.inj h]
    exact .commit call rfl rfl rfl rfl
  | markCommitted m =>
    simp only [step] at h
    split_ifs at h with hm
    rw [← Option.some.inj h]
    exact .mark hm rfl rfl rfl rfl
  | start c =>
    simp only [step] at h
    split_ifs at h with hc
    rw [← Option.some.inj h]
    rw [Dict.notMem_keys_iff] at hc
    refine .call (c := c) ?_ rfl rfl rfl rfl
    rw [hc]
    unfold startCall
    split
    · exact .wait
    · rename_i hnone
      exact .current (refreshGeneration_eq_none hnone)
  | acquire c =>
    simp only [step] at h
    split at h
    · rename_i hcall hlock
      rw [← Option.some.inj h]
      exact .call (hcall ▸ .acquire) rfl rfl rfl rfl
    · cases h
  | refreshGeneration c =>
    simp only [step] at h
    split at h
    · rename_i hcall
      rw [← Option.some.inj h]
      unfold enterLoop
      split
      · rename_i generation hsome
        rw [refreshGeneration_eq_some hsome]
        exact .call (hcall ▸ .enter) rfl rfl rfl rfl
      · rename_i hnone
        exact .call (hcall ▸ .leave (refreshGeneration_eq_none hnone)) rfl rfl rfl rfl
    · cases h
  | readOrders c =>
    simp only [step] at h
    split at h
    · rename_i hcall hread
      rw [← Option.some.inj h]
      exact .call (hcall ▸ .readOrders hread) rfl rfl rfl rfl
    · cases h
  | readPositions c =>
    simp only [step] at h
    split at h
    · rename_i hcall hread
      rw [← Option.some.inj h]
      exact .call (hcall ▸ .readPositions hread) rfl rfl rfl rfl
    · cases h
  | publish c =>
    simp only [step] at h
    split at h
    · rename_i hcall
      rw [← Option.some.inj h]
      exact move_publishCall hcall
    · cases h
  | finish c =>
    simp only [step] at h
    split at h
    · rename_i hcall
      rw [← Option.some.inj h]
      exact .call (hcall ▸ .finish) rfl rfl rfl rfl
    · cases h
  | fail c =>
    simp only [step] at h
    split at h
    · cases h
    · cases h
    · cases h
    · rename_i call hreturned hraised hcall
      rw [← Option.some.inj h]
      exact .call (hcall ▸ .fail hreturned) rfl rfl rfl rfl

/-! ### What has been seen -/

/-- What a call under way has read, since when. -/
def CallSound (s : JournalSystem) : SnapshotCall → Prop
  | .reading generation => generation ≤ s.runtime.generation
  | .ordersRead generation orders =>
    generation ≤ s.runtime.generation ∧ OrdersSeen s.journal generation orders
  | .positionsRead generation orders positions =>
    generation ≤ s.runtime.generation ∧ OrdersSeen s.journal generation orders ∧
      PositionsSeen s.journal generation positions
  | _ => True

structure Sound (s : JournalSystem) : Prop where
  journal : s.journal.Sound
  unmarked_le : ∀ m ∈ s.unmarked, m ≤ s.journal.commits
  generation_eq : s.runtime.generation = s.journal.marks.length
  loaded_le : s.runtime.loadedGeneration ≤ s.runtime.generation
  /-- What is published has seen the marks of the generation it is published under. -/
  loaded : ∀ g : ℕ, (g : ℤ) ≤ s.runtime.loadedGeneration →
    OrdersSeen s.journal g s.runtime.pendingOrders ∧
      PositionsSeen s.journal g s.runtime.openPositions
  calls : ∀ c call, s.calls.get? c = some call → s.CallSound call

/-- What a call is owed that started under generation `g`. -/
structure Answered (g : ℕ) (c : ℕ) (s : JournalSystem) : Prop where
  started : g ≤ s.runtime.generation
  known : c ∈ s.calls.keys
  refreshed : s.calls.get? c = some .refreshed → (g : ℤ) ≤ s.runtime.loadedGeneration
  returned : ∀ orders positions, s.calls.get? c = some (.returned orders positions) →
    OrdersSeen s.journal g orders ∧ PositionsSeen s.journal g positions

/-- The journal and the generation of a system may grow. -/
structure Grows (s t : JournalSystem) : Prop where
  journal : s.journal.Extends t.journal
  generation_le : s.runtime.generation ≤ t.runtime.generation

theorem sound_initial (tables : PaperTables) : Sound (initial tables) where
  journal := MarkedHistory.sound_start tables
  unmarked_le := nofun
  generation_eq := rfl
  loaded_le := (by decide : (-1 : ℤ) ≤ 0)
  loaded g hg := by
    have hg : (g : ℤ) ≤ -1 := hg
    omega
  calls := nofun

theorem Grows.refl (s : JournalSystem) : Grows s s := ⟨.refl _, le_rfl⟩

theorem Grows.trans {u : JournalSystem} (h : Grows s t) (k : Grows t u) : Grows s u :=
  ⟨h.journal.trans k.journal, h.generation_le.trans k.generation_le⟩

theorem Move.grows (h : Move s a t) : Grows s t := by
  cases h with
  | commit call hjournal hunmarked hruntime hcalls =>
    refine ⟨?_, by rw [hruntime]⟩
    rw [hjournal]
    exact MarkedHistory.extends_commit ..
  | mark hm hjournal hunmarked hruntime hcalls =>
    refine ⟨?_, ?_⟩
    · rw [hjournal]
      exact MarkedHistory.extends_mark ..
    · rw [hruntime]
      exact Nat.le_succ _
  | call hmove hjournal hunmarked hruntime hcalls =>
    exact ⟨hjournal ▸ .refl _, by rw [hruntime]⟩
  | publish hcall hjournal hunmarked hruntime hcalls =>
    exact ⟨hjournal ▸ .refl _, by rw [hruntime]⟩

/-- What is published keeps its worth. -/
theorem Sound.loaded_grows (hs : Sound s) (h : Grows s t)
    (hg : (g : ℤ) ≤ s.runtime.loadedGeneration) :
    OrdersSeen t.journal g s.runtime.pendingOrders ∧
      PositionsSeen t.journal g s.runtime.openPositions := by
  have hle : g ≤ s.journal.marks.length := by
    rw [← hs.generation_eq]
    exact Int.ofNat_le.mp (hg.trans hs.loaded_le)
  obtain ⟨horders, hpositions⟩ := hs.loaded g hg
  exact ⟨horders.extends h.journal hle, hpositions.extends h.journal hle⟩

/-- What a call has read keeps its worth. -/
theorem CallSound.grows {call : SnapshotCall} (hs : Sound s)
    (h : Grows s t) (hcall : s.CallSound call) : t.CallSound call := by
  have hseen {g : ℕ} (hg : g ≤ s.runtime.generation) {p : PaperTables → Prop}
      (hp : s.journal.SeenSince g p) : t.journal.SeenSince g p :=
    hp.extends h.journal (hs.generation_eq ▸ hg)
  cases call with
  | reading generation => exact hcall.trans h.generation_le
  | ordersRead generation orders =>
    exact ⟨hcall.1.trans h.generation_le, hseen hcall.1 hcall.2⟩
  | positionsRead generation orders positions =>
    exact ⟨hcall.1.trans h.generation_le, hseen hcall.1 hcall.2.1, hseen hcall.1 hcall.2.2⟩
  | _ => trivial

variable {old : Option SnapshotCall}

/-- A reader's step earns its call what the call has then read. -/
theorem CallMove.callSound {new : SnapshotCall}
    (hs : Sound s) (hmove : CallMove s old new) (hold : ∀ call, old = some call → s.CallSound call) :
    s.CallSound new := by
  cases hmove with
  | enter => exact le_rfl
  | readOrders h => exact ⟨hold _ rfl, hs.journal.seenSince_current _ h⟩
  | readPositions h =>
    exact ⟨(hold _ rfl).1, (hold _ rfl).2, hs.journal.seenSince_current _ h⟩
  | _ => trivial

theorem Sound.step (hs : Sound s) (h : Move s a t) : Sound t := by
  have hgrows := h.grows
  cases h with
  | commit call hjournal hunmarked hruntime hcalls =>
    refine ⟨?_, ?_, ?_, ?_, ?_, ?_⟩
    · rw [hjournal]
      exact hs.journal.commit _
    · intro m hm
      rw [hunmarked, List.mem_cons] at hm
      rw [hjournal, MarkedHistory.commits_commit]
      rcases hm with rfl | hm
      · exact le_rfl
      · exact (hs.unmarked_le m hm).trans (Nat.le_succ _)
    · rw [hruntime, hjournal]
      exact hs.generation_eq
    · rw [hruntime]
      exact hs.loaded_le
    · rw [hruntime]
      exact fun g hg => hs.loaded_grows hgrows hg
    · rw [hcalls]
      exact fun c call hcall => (hs.calls c call hcall).grows hs hgrows
  | @mark m hm t hjournal hunmarked hruntime hcalls =>
    refine ⟨?_, ?_, ?_, ?_, ?_, ?_⟩
    · rw [hjournal]
      exact hs.journal.mark (hs.unmarked_le m hm)
    · intro n hn
      rw [hunmarked] at hn
      rw [hjournal, MarkedHistory.commits_mark]
      exact hs.unmarked_le n (List.mem_of_mem_erase hn)
    · rw [hruntime, hjournal]
      show s.runtime.generation + 1 = (s.journal.marks ++ [m]).length
      rw [List.length_append, hs.generation_eq]
      rfl
    · rw [hruntime]
      show s.runtime.loadedGeneration ≤ ((s.runtime.generation + 1 : ℕ) : ℤ)
      have hle := hs.loaded_le
      omega
    · rw [hruntime]
      exact fun g hg => hs.loaded_grows hgrows hg
    · rw [hcalls]
      exact fun c call hcall => (hs.calls c call hcall).grows hs hgrows
  | @call a c call t hmove hjournal hunmarked hruntime hcalls =>
    refine ⟨?_, ?_, ?_, ?_, ?_, ?_⟩
    · rw [hjournal]
      exact hs.journal
    · rw [hunmarked, hjournal]
      exact hs.unmarked_le
    · rw [hruntime, hjournal]
      exact hs.generation_eq
    · rw [hruntime]
      exact hs.loaded_le
    · rw [hruntime]
      exact fun g hg => hs.loaded_grows hgrows hg
    · intro c' call' hcall'
      rw [hcalls, Dict.get?_insert] at hcall'
      split_ifs at hcall' with hc
      · rw [← Option.some.inj hcall']
        exact (hmove.callSound hs (hs.calls c)).grows hs hgrows
      · exact (hs.calls c' call' hcall').grows hs hgrows
  | @publish c orders positions t hcall hjournal hunmarked hruntime hcalls =>
    obtain ⟨-, horders, hpositions⟩ := hs.calls c _ hcall
    refine ⟨?_, ?_, ?_, ?_, ?_, ?_⟩
    · rw [hjournal]
      exact hs.journal
    · rw [hunmarked, hjournal]
      exact hs.unmarked_le
    · rw [hruntime, hjournal]
      exact hs.generation_eq
    · rw [hruntime]
    · rw [hruntime, hjournal]
      intro g hg
      have hg : g ≤ s.runtime.generation := Int.ofNat_le.mp hg
      exact ⟨horders.of_le hg, hpositions.of_le hg⟩
    · intro c' call' hcall'
      rw [hcalls, Dict.get?_insert] at hcall'
      split_ifs at hcall' with hc
      · rw [← Option.some.inj hcall']
        trivial
      · exact (hs.calls c' call' hcall').grows hs hgrows

variable {as : List Act}

theorem sound_of_run (hs : Sound s) (hrun : Run (StepOf step) s as t) : Sound t :=
  hrun.invariant (fun _ _ _ hs hstep => hs.step (step_cases hstep)) hs

/-! ### What a call is owed -/

/-- Publishing only raises the loaded generation. -/
theorem Move.loadedGeneration_le (hs : Sound s) (h : Move s a t) :
    s.runtime.loadedGeneration ≤ t.runtime.loadedGeneration := by
  cases h with
  | commit call hjournal hunmarked hruntime hcalls => rw [hruntime]
  | mark hm hjournal hunmarked hruntime hcalls => rw [hruntime]; exact le_rfl
  | call hmove hjournal hunmarked hruntime hcalls => rw [hruntime]
  | publish hcall hjournal hunmarked hruntime hcalls => rw [hruntime]; exact hs.loaded_le

/-- A call that finds nothing to load is new, or the current generation is loaded. -/
theorem CallMove.of_refreshed (h : CallMove s old .refreshed) :
    old = none ∨ s.runtime.loadedGeneration = s.runtime.generation := by
  cases h with
  | current _ => exact Or.inl rfl
  | leave hloaded => exact Or.inr hloaded

theorem CallMove.of_returned
    (h : CallMove s old (.returned orders positions)) :
    old = some .refreshed ∧ orders = s.runtime.pendingOrders ∧
      positions = s.runtime.openPositions := by
  cases h with
  | finish => exact ⟨rfl, rfl, rfl⟩

/-- What a step does to one call: nothing, a move of its own, or the publication of its rows. -/
theorem Move.calls (h : Move s a t) (c : ℕ) :
    t.calls.get? c = s.calls.get? c ∨
      (∃ call, t.calls.get? c = some call ∧ CallMove s (s.calls.get? c) call ∧
        t.runtime = s.runtime ∧ t.journal = s.journal) ∨
      t.calls.get? c = some .refreshed ∧
        t.runtime.loadedGeneration = s.runtime.generation := by
  cases h with
  | commit call hjournal hunmarked hruntime hcalls => exact Or.inl (by rw [hcalls])
  | mark hm hjournal hunmarked hruntime hcalls => exact Or.inl (by rw [hcalls])
  | @call a c' call t hmove hjournal hunmarked hruntime hcalls =>
    by_cases hc : c = c'
    · subst hc
      refine Or.inr (Or.inl ⟨call, ?_, hmove, hruntime, hjournal⟩)
      rw [hcalls, Dict.get?_insert_self]
    · exact Or.inl (by rw [hcalls, Dict.get?_insert_of_ne _ hc])
  | @publish c' orders positions t hcall hjournal hunmarked hruntime hcalls =>
    by_cases hc : c = c'
    · subst hc
      refine Or.inr (Or.inr ⟨?_, by rw [hruntime]⟩)
      rw [hcalls, Dict.get?_insert_self]
    · exact Or.inl (by rw [hcalls, Dict.get?_insert_of_ne _ hc])

theorem Answered.step (h : Answered g c s)
    (hs : Sound s) (hmove : Move s a t) : Answered g c t := by
  have hgrows := hmove.grows
  have hg : g ≤ s.journal.marks.length := hs.generation_eq ▸ h.started
  obtain hsame | ⟨call, hcall, hcallMove, hruntime, hjournal⟩ | ⟨hcall, hloaded⟩ := hmove.calls c
  · refine ⟨h.started.trans hgrows.generation_le, ?_, ?_, ?_⟩
    · rw [Dict.mem_keys_iff, hsame, ← Dict.mem_keys_iff]
      exact h.known
    · intro hrefreshed
      exact (h.refreshed (hsame ▸ hrefreshed)).trans (hmove.loadedGeneration_le hs)
    · intro orders positions hreturned
      obtain ⟨horders, hpositions⟩ := h.returned orders positions (hsame ▸ hreturned)
      exact ⟨horders.extends hgrows.journal hg, hpositions.extends hgrows.journal hg⟩
  · refine ⟨h.started.trans hgrows.generation_le, Dict.mem_keys_of_get? hcall, ?_, ?_⟩
    · rw [hcall, hruntime]
      intro hrefreshed
      rw [Option.some.injEq] at hrefreshed
      subst hrefreshed
      obtain hnone | hloaded := hcallMove.of_refreshed
      · exact absurd hnone (Option.ne_none_iff_isSome.mpr (Dict.mem_keys_iff.mp h.known))
      · rw [hloaded]
        exact Int.ofNat_le.mpr h.started
    · rw [hcall, hjournal]
      intro orders positions hreturned
      rw [Option.some.injEq] at hreturned
      subst hreturned
      obtain ⟨hrefreshed, rfl, rfl⟩ := hcallMove.of_returned
      exact hs.loaded g (h.refreshed hrefreshed)
  · refine ⟨h.started.trans hgrows.generation_le, Dict.mem_keys_of_get? hcall, fun _ => ?_, ?_⟩
    · rw [hloaded]
      exact Int.ofNat_le.mpr h.started
    · rw [hcall]
      nofun

/-- A call that starts is owed what is marked by then. -/
theorem answered_start (h : s.step (.start c) = some t) :
    Answered s.runtime.generation c t := by
  simp only [step] at h
  split_ifs at h with hc
  rw [← Option.some.inj h]
  have hcall : (s.setCall c (startCall s.runtime)).calls.get? c = some (startCall s.runtime) :=
    Dict.get?_insert_self ..
  refine ⟨le_rfl, Dict.mem_keys_of_get? hcall, fun hrefreshed => ?_, fun orders positions hr => ?_⟩
  · rw [hcall] at hrefreshed
    have hstart := Option.some.inj hrefreshed
    unfold startCall at hstart
    split at hstart
    · cases hstart
    · rename_i hnone
      exact (refreshGeneration_eq_none hnone).ge
  · rw [hcall] at hr
    have hstart := Option.some.inj hr
    unfold startCall at hstart
    split at hstart <;> cases hstart

theorem answered_of_run (hs : Sound s)
    (h : Answered g c s) (hrun : Run (StepOf step) s as t) : Answered g c t := by
  have hstep : ∀ s a t, Sound s ∧ Answered g c s → StepOf step s a t → Sound t ∧ Answered g c t :=
    fun s a t h hstep => ⟨h.1.step (step_cases hstep), h.2.step h.1 (step_cases hstep)⟩
  exact (hrun.invariant hstep ⟨hs, h⟩).2

theorem grows_of_run (hrun : Run (StepOf step) s as t) :
    Grows s t := by
  induction hrun with
  | nil s => exact .refl s
  | cons hstep _ ih => exact (step_cases hstep).grows.trans ih

/-- A commit that was marked in a run is among the marks. -/
theorem mem_marks_of_run {m : ℕ}
    (hrun : Run (StepOf step) s as t) (hm : .markCommitted m ∈ as) : m ∈ t.journal.marks := by
  obtain ⟨_, _, u, u', -, -, hstep, hafter⟩ := hrun.exists_step hm
  have hmark : m ∈ u'.journal.marks := by
    simp only [StepOf, step] at hstep
    split_ifs at hstep
    rw [← Option.some.inj hstep]
    exact List.mem_append_right _ (List.mem_singleton_self m)
  exact (grows_of_run hafter).journal.marks.subset hmark

/-- A mark raises the generation. -/
theorem generation_lt_of_mark {m : ℕ}
    (hrun : Run (StepOf step) s as t) (hm : .markCommitted m ∈ as) :
    s.runtime.generation < t.runtime.generation := by
  obtain ⟨_, _, u, u', -, hbefore, hstep, hafter⟩ := hrun.exists_step hm
  have hmark : u'.runtime.generation = u.runtime.generation + 1 := by
    simp only [StepOf, step] at hstep
    split_ifs at hstep
    rw [← Option.some.inj hstep]
    rfl
  have hu := (grows_of_run hbefore).generation_le
  have ht := (grows_of_run hafter).generation_le
  omega

/-- **No lost journal invalidation.** A call of `active_snapshot` that starts after commit `m` was
marked returns the orders and the positions of journals no older than that commit. And a read
under a generation that was taken before a mark is not published. -/
theorem active_snapshot_fresh {tables : PaperTables} {as : List Act} {s : JournalSystem}
    (hrun : Run (StepOf step) (initial tables) as s) :
    (∀ m c bs s₁ t orders positions, .markCommitted m ∈ as → s.step (.start c) = some s₁ →
      Run (StepOf step) s₁ bs t → t.calls.get? c = some (.returned orders positions) →
      (∃ i journal, m ≤ i ∧ t.journal.valueAt i = some journal ∧
        readPendingOrders journal = .ok orders) ∧
      ∃ i journal, m ≤ i ∧ t.journal.valueAt i = some journal ∧
        readOpenPositions journal = .ok positions) ∧
    (∀ m c bs s₁ t u orders positions, s.step (.refreshGeneration c) = some s₁ →
      Run (StepOf step) s₁ bs t → .markCommitted m ∈ bs →
      t.calls.get? c = some (.positionsRead s.runtime.generation orders positions) →
      t.step (.publish c) = some u → u.runtime = t.runtime) := by
  have hs : Sound s := sound_of_run (sound_initial tables) hrun
  refine ⟨fun m c bs s₁ t orders positions hm hstart hbs hreturned => ?_,
    fun m c bs s₁ t u orders positions htake hbs hm hcall hpublish => ?_⟩
  · have hs₁ : Sound s₁ := hs.step (step_cases hstart)
    have hanswer := answered_of_run hs₁ (answered_start hstart) hbs
    obtain ⟨horders, hpositions⟩ := hanswer.returned orders positions hreturned
    have hmarks : s.journal.marks <+: t.journal.marks :=
      (grows_of_run (.cons hstart hbs)).journal.marks
    have hmem : m ∈ t.journal.marks.take s.runtime.generation := by
      rw [hs.generation_eq, ← List.prefix_iff_eq_take.mp hmarks]
      exact mem_marks_of_run hrun hm
    exact ⟨horders.exists_le hmem, hpositions.exists_le hmem⟩
  · have hlt : s.runtime.generation < t.runtime.generation :=
      (grows_of_run (.single htake)).generation_le.trans_lt (generation_lt_of_mark hbs hm)
    simp only [step, hcall] at hpublish
    rw [← Option.some.inj hpublish]
    unfold publishCall
    split
    · rename_i runtime hok
      obtain ⟨-, heq, -⟩ | ⟨habsurd, -⟩ := publishSnapshot_eq_ok hok
      · exact absurd heq hlt.ne
      · cases habsurd
    · rename_i runtime hok
      obtain ⟨habsurd, -⟩ | ⟨-, -, rfl⟩ := publishSnapshot_eq_ok hok
      · cases habsurd
      · rfl
    · rfl

/-! ### A race -/

/-- A refresh takes its generation; then an order is placed, and marked. -/
def racingActs : List Act :=
  [.start 1, .acquire 1, .refreshGeneration 1, .commit (.upsert (entryOrder "o1" .long 1 100) 0),
    .markCommitted 1]

/-- The refresh reads, is told to read again, and answers the second call too. -/
def answeringActs : List Act :=
  [.readOrders 1, .readPositions 1, .publish 1, .refreshGeneration 1, .readOrders 1,
    .readPositions 1, .publish 1, .acquire 2, .refreshGeneration 2, .finish 2]

/-- The ids of the orders a call was answered with. -/
def answeredIds (s : JournalSystem) (c : ℕ) : Option (List String) :=
  match s.calls.get? c with
  | some (.returned orders _) => some (orders.map SavedOrder.id)
  | _ => none

theorem active_snapshot_fresh_racing : ∃ s s₁ t orders positions,
    Run (StepOf step) (initial .empty) racingActs s ∧ s.step (.start 2) = some s₁ ∧
      Run (StepOf step) s₁ answeringActs t ∧
      t.calls.get? 2 = some (.returned orders positions) ∧ orders.map SavedOrder.id = ["o1"] ∧
      ∃ i journal, 1 ≤ i ∧ t.journal.valueAt i = some journal ∧
        readPendingOrders journal = .ok orders := by
  have hanswer : ((racingActs ++ .start 2 :: answeringActs).foldlM step (initial .empty)).bind
      (fun t => t.answeredIds 2) = some ["o1"] := by decide +kernel
  obtain ⟨t, hfold, hids⟩ := Option.bind_eq_some_iff.mp hanswer
  obtain ⟨s, hrun, hrest⟩ := (Run.of_foldlM hfold).of_append
  cases hrest with
  | @cons _ s₁ _ _ _ hstart hrest =>
    unfold answeredIds at hids
    split at hids
    · rename_i orders positions hreturned
      refine ⟨s, s₁, t, orders, positions, hrun, hstart, hrest, hreturned, Option.some.inj hids, ?_⟩
      exact ((active_snapshot_fresh hrun).1 1 2 _ s₁ t orders positions (by simp [racingActs])
        hstart hrest hreturned).1
    · cases hids

end JournalSystem

end AefTerminal
