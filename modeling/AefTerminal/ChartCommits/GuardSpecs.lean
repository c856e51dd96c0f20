import AefTerminal.ChartCommits.LaneEffects
import AefTerminal.ChartCommits.WriteGuard
import AefTerminal.ChartEvents.GenerationFence

/-!
# What the operations of a commit do while it holds its guard

One triple for each operation of a commit. `At B v` says what the commit knows of the chart events
(`B`) and what the parts of the state that are its own hold (`v`): the record of its events, the
queue of history requests and the futures settled so far. `Session.Held g n` says that it holds `g`
and that the scope of `g` is at generation `n`; others change neither (`others_held`).
-/

namespace AefTerminal

open Foundation ChartCommitLane

/-! ### The calls of others -/

namespace Session

variable {s : Session} {a : ChartEventAct} {g : ChartBarsWriteGuard} {v : ℕ}

/-- The commit's guard: it was handed out, it is held, and its scope is at this generation. -/
structure HoldsAt (s : Session) (g : ChartBarsWriteGuard) (generation : ℕ) : Prop where
  issued : g ∈ s.writeGuards
  held : s.table.HoldsWrite g
  generation_eq : s.table.generation g.key = generation

/-- A call that leaves a held guard alone leaves its scope at its generation. -/
theorem generation_perform_of_leaves (hinv : s.Inv) (h : s.HoldsAt g v) (howned : s.Owned a)
    (hleaves : a.Leaves g) : (s.table.perform a).generation g.key = v := by
  rcases s.table.generation_perform a with ⟨-, hsame⟩ | ⟨key, reason, bars, hadvances, hmoved⟩
  · exact (hsame _).trans h.generation_eq
  · have hne : g.key ≠ key := by
      rintro rfl
      cases a with
      | publish k reason' bars' expected =>
        simp only [ChartEvents.advances] at hadvances
        split at hadvances
        · exact absurd hadvances (by simp)
        · exact hleaves (congrArg Prod.fst (Option.some.inj hadvances))
      | invalidateWrite g' reason' =>
        simp only [ChartEvents.advances] at hadvances
        split at hadvances
        · rename_i hheld
          have hkey : g'.key = g.key := congrArg Prod.fst (Option.some.inj hadvances)
          have htoken : g'.token = g.token :=
            Option.some.inj (hheld.1.symm.trans (hkey ▸ h.held))
          exact hleaves (hinv.writeToken_inj g' howned g h.issued htoken)
        · exact absurd hadvances (by simp)
      | _ => exact absurd hadvances (by simp [ChartEvents.advances])
    have hactive : s.table.evictedScope key reason bars ≠ some g.key := fun hevicted =>
      (ChartEvents.not_active_of_evictedScope hevicted).2.1 (Dict.mem_keys_of_get? h.held)
    rw [hmoved, if_neg hne, if_neg hactive]
    exact h.generation_eq

/-- A call that leaves a held guard alone leaves it held. -/
theorem holdsWrite_perform_of_leaves (hinv : s.Inv) (h : s.HoldsAt g v) (howned : s.Owned a)
    (hleaves : a.Leaves g) : (s.table.perform a).HoldsWrite g := by
  have hheld : s.table.writesInProgress.get? g.key = some g.token := h.held
  -- a release of another guard is a release of another scope
  have hother : ∀ g' ∈ s.writeGuards, g' ≠ g → s.table.HoldsWrite g' → g.key ≠ g'.key := by
    rintro g' hg' hne hheld' hkey
    refine hne (hinv.writeToken_inj g' hg' g h.issued ?_)
    rw [ChartEvents.HoldsWrite, ← hkey] at hheld'
    exact Option.some.inj (hheld'.symm.trans hheld)
  cases a with
  | requireGeneration expected key => exact hheld
  | beginWrite expected key =>
    simp only [ChartEvents.perform]
    rcases hok : s.table.beginChartBarsWrite expected key with e | ⟨g', t⟩
    · exact hheld
    · obtain ⟨-, hfree, -, -, rfl⟩ := ChartEvents.beginChartBarsWrite_eq_ok hok
      have hne : g.key ≠ key := fun hkey => hfree (hkey ▸ Dict.mem_keys_of_get? hheld)
      simp only [ChartEvents.HoldsWrite, Dict.get?_insert_of_ne _ hne]
      exact hheld
  | endWrite g' =>
    simp only [ChartEvents.perform]
    rcases hok : s.table.endChartBarsWrite g' with e | t
    · exact hheld
    · obtain ⟨hheld', rfl⟩ := ChartEvents.endChartBarsWrite_eq_ok hok
      have hne := hother g' howned hleaves hheld'
      simp only [ChartEvents.HoldsWrite, ChartEvents.releaseWrite, Dict.get?_erase_of_ne _ hne]
      exact hheld
  | invalidateWrite g' reason =>
    simp only [ChartEvents.perform]
    rcases hok : s.table.invalidateChartBarsWrite g' reason with e | ⟨n, t⟩
    · exact hheld
    · obtain ⟨hheld', hle, -, rfl⟩ := ChartEvents.invalidateChartBarsWrite_eq_ok hok
      have hne := hother g' howned hleaves hheld'
      simp only [ChartEvents.HoldsWrite, ChartEvents.releaseWrite, Dict.get?_erase_of_ne _ hne,
        (ChartEvents.invalidateGeneration_spec reason hle).2]
      exact hheld
  | publish key reason bars expected =>
    simp only [ChartEvents.perform]
    rcases ChartEvents.publishChartBarsUpdated_cases s.table key reason bars expected with heq | heq
    · rw [heq]
      exact hheld
    · rw [heq, ChartEvents.HoldsWrite, ChartEvents.advance_writesInProgress]
      exact hheld
  | beginPublication scopes =>
    simp only [ChartEvents.perform]
    rcases hok : s.table.beginChartBarsPublication scopes with e | ⟨g', t⟩
    · exact hheld
    · obtain ⟨-, -, -, hframe, -⟩ := ChartEvents.beginChartBarsPublication_eq_ok hok
      rw [ChartEvents.HoldsWrite, hframe.writesInProgress]
      exact hheld
  | endPublication g' =>
    simp only [ChartEvents.perform]
    rcases hok : s.table.endChartBarsPublication g' with e | t
    · exact hheld
    · obtain ⟨-, hframe, -⟩ := ChartEvents.endChartBarsPublication_eq_ok hok
      rw [ChartEvents.HoldsWrite, hframe.writesInProgress]
      exact hheld
  | addWaiter key => exact hheld
  | removeWaiter key => exact hheld

theorem HoldsAt.next (hinv : s.Inv) (h : s.HoldsAt g v) (howned : s.Owned a)
    (hleaves : a.Leaves g) : (s.next a).HoldsAt g v :=
  ⟨List.mem_append_left _ h.issued, holdsWrite_perform_of_leaves hinv h howned hleaves,
    generation_perform_of_leaves hinv h howned hleaves⟩

theorem Inv.interfere {mine : Option ChartBarsWriteGuard} (h : s.Inv) (acts : List ChartEventAct) :
    (s.interfere mine acts).Inv := by
  unfold Session.interfere
  induction acts generalizing s with
  | nil => exact h
  | cons a acts ih =>
    rw [List.foldl_cons]
    split
    · rename_i hforeign
      exact ih (inv_step s a _ h ⟨hforeign.1, rfl⟩)
    · exact ih h

theorem HoldsAt.interfere (hinv : s.Inv) (h : s.HoldsAt g v) (acts : List ChartEventAct) :
    (s.interfere (some g) acts).HoldsAt g v := by
  unfold Session.interfere
  induction acts generalizing s with
  | nil => exact h
  | cons a acts ih =>
    rw [List.foldl_cons]
    split
    · rename_i hforeign
      exact ih (inv_step s a _ hinv ⟨hforeign.1, rfl⟩)
        (h.next hinv hforeign.1 (hforeign.2 g rfl))
    · exact ih hinv h

end Session

/-- The guard is held, with its scope at this generation. -/
def Session.Held (g : ChartBarsWriteGuard) (generation : ℕ) (σ : Session) : Prop :=
  σ.Inv ∧ σ.HoldsAt g generation

/-- The guard is not held. -/
def Session.Freed (g : ChartBarsWriteGuard) (σ : Session) : Prop :=
  σ.Inv ∧ ¬ σ.table.HoldsWrite g

/-! ### What a commit keeps track of -/

/-- The parts of the state that others leave to the commit. -/
structure CommitView where
  log : List GuardEvent
  queue : List PendingHistoryCommit
  settled : List (ℕ × HistoryCommitOutcome)

namespace CommitView

def of (s : CommitState) : CommitView := ⟨s.log, s.lane.historyPending, s.settled⟩

def addAll (v : CommitView) (events : List GuardEvent) : CommitView :=
  { v with log := v.log ++ events }

@[simp] theorem addAll_nil (v : CommitView) : v.addAll [] = v := by simp [addAll]

@[simp] theorem addAll_addAll (v : CommitView) (l l' : List GuardEvent) :
    (v.addAll l).addAll l' = v.addAll (l ++ l') := by
  simp [addAll]

/-- The request is settled with an outcome, unless its future was done. -/
def settle (v : CommitView) (item : PendingHistoryCommit) (outcome : HistoryCommitOutcome) :
    CommitView :=
  if item.id ∈ v.settled.map Prod.fst then v
  else { v with settled := v.settled ++ [(item.id, outcome)] }

/-- The first request leaves the queue, and `item` is settled. -/
def complete (v : CommitView) (item : PendingHistoryCommit) (outcome : HistoryCommitOutcome) :
    CommitView :=
  { v with queue := v.queue.tail }.settle item outcome

@[simp] theorem settle_addAll (v : CommitView) (l : List GuardEvent) (item : PendingHistoryCommit)
    (outcome : HistoryCommitOutcome) :
    (v.addAll l).settle item outcome = (v.settle item outcome).addAll l := by
  by_cases h : item.id ∈ v.settled.map Prod.fst
  · simp [settle, addAll, h]
  · simp [settle, addAll, h]

@[simp] theorem settle_log (v : CommitView) (item : PendingHistoryCommit)
    (outcome : HistoryCommitOutcome) : (v.settle item outcome).log = v.log := by
  by_cases h : item.id ∈ v.settled.map Prod.fst
  · simp [settle, h]
  · simp [settle, h]

@[simp] theorem complete_log (v : CommitView) (item : PendingHistoryCommit)
    (outcome : HistoryCommitOutcome) : (v.complete item outcome).log = v.log :=
  settle_log { v with queue := v.queue.tail } item outcome

@[simp] theorem complete_addAll (v : CommitView) (l : List GuardEvent)
    (item : PendingHistoryCommit) (outcome : HistoryCommitOutcome) :
    (v.addAll l).complete item outcome = (v.complete item outcome).addAll l :=
  settle_addAll { v with queue := v.queue.tail } l item outcome

end CommitView

/-- The session meets `B`, and the commit's own parts are `v`. -/
structure At (B : Session → Prop) (v : CommitView) (s : CommitState) : Prop where
  session : B s.session
  view : CommitView.of s = v

namespace CommitM

variable {g : ChartBarsWriteGuard} {n : ℕ} {v : CommitView} {σ : Session} {B : Session → Prop}
  {key : ChartRefreshKey} {reason : String} {bars : List Bar} {event : GuardEvent}
  {acts : List ChartEventAct} {item : PendingHistoryCommit} {outcome : HistoryCommitOutcome}

/-! ### The commit's own parts -/

theorem record_at :
    Triple (At B v) (record event) fun r s => ∃ u, r = .ok u ∧ At B (v.addAll [event]) s :=
  .update fun _ h => ⟨(), rfl, h.session, h.view ▸ rfl⟩

theorem remember_at : Triple (At B v) (remember bars) fun r s => ∃ u, r = .ok u ∧ At B v s := by
  refine .update fun s h => ⟨(), rfl, h.session, ?_⟩
  rw [← h.view, CommitView.of, CommitView.of, (rememberAll_frame s.lane bars).2.2]

theorem popHistory_at :
    Triple (At B v) popHistory fun r s =>
      ∃ u, r = .ok u ∧ At B { v with queue := v.queue.tail } s :=
  .update fun _ h => ⟨(), rfl, h.session, h.view ▸ rfl⟩

theorem settleHistoryCompletion_at :
    Triple (At B v) (settleHistoryCompletion item outcome) fun r s =>
      ∃ u, r = .ok u ∧ At B (v.settle item outcome) s := by
  refine .update fun s h => ⟨(), rfl, ?_⟩
  obtain ⟨hsession, rfl⟩ := h
  by_cases hdone : item.id ∈ s.settled.map Prod.fst
  · rw [if_pos hdone]
    exact ⟨hsession, (if_pos hdone).symm⟩
  · rw [if_neg hdone]
    exact ⟨hsession, (if_neg hdone).symm⟩

/-! ### The guard -/

theorem others_idle {mine : Option ChartBarsWriteGuard} :
    Triple (At (fun τ => τ.Inv ∧ τ = σ) v) (others mine acts) fun r s =>
      ∃ u, r = .ok u ∧ At (fun τ => τ.Inv ∧ τ = σ.interfere mine acts) v s :=
  .update fun _ h => ⟨(), rfl, ⟨h.session.1.interfere acts, h.session.2 ▸ rfl⟩, h.view⟩

theorem others_held :
    Triple (At (Session.Held g n) v) (others (some g) acts) fun r s =>
      ∃ u, r = .ok u ∧ At (Session.Held g n) v s :=
  .update fun _ h => ⟨(), rfl,
    ⟨h.session.1.interfere acts, h.session.2.interfere h.session.1 acts⟩, h.view⟩

/-- A guard is begun at the expected generation, or nothing happens. -/
theorem beginWrite_idle {expected : ℕ} :
    Triple (At (fun τ => τ.Inv ∧ τ = σ) v) (beginWrite expected key) fun r s =>
      (∃ e, r = .error (.events e) ∧ σ.table.beginChartBarsWrite expected key = .error e ∧
        At Session.Inv v s) ∨
        ∃ g t, r = .ok g ∧ σ.table.beginChartBarsWrite expected key = .ok (g, t) ∧ g.key = key ∧
          g.expectedGeneration = expected ∧
          At (Session.Held g expected) (v.addAll [.began g]) s := by
  rintro s ⟨⟨hinv, rfl⟩, rfl⟩
  rcases hok : s.session.table.beginChartBarsWrite expected key with e | ⟨g, t⟩
  · have hexec : (beginWrite expected key).exec s = (.error (.events e), s) := by
      simp [beginWrite, Prog.exec, Prog.read, Prog.raise, bind, hok]
    rw [hexec]
    exact .inl ⟨e, rfl, rfl, hinv, rfl⟩
  · have hexec : (beginWrite expected key).exec s = (.ok g, { s with
        session := s.session.next (.beginWrite expected key)
        log := s.log ++ [.began g] }) := by
      simp [beginWrite, Prog.exec, Prog.read, Prog.update, call, record, bind, pure, hok]
    rw [hexec]
    obtain ⟨hgeneration, hfree, -, rfl, rfl⟩ := ChartEvents.beginChartBarsWrite_eq_ok hok
    refine .inr ⟨_, _, rfl, rfl, rfl, rfl,
      ⟨Session.inv_step _ (.beginWrite expected key) _ hinv ⟨trivial, rfl⟩, ?_⟩, rfl⟩
    constructor
    · simp [Session.next, ChartEvents.issuedWrite, hok]
    · simp [Session.next, ChartEvents.perform, hok, ChartEvents.HoldsWrite]
    · simpa [Session.next, ChartEvents.perform, hok, ChartEvents.generation] using hgeneration

/-- A held guard ends, at the generation its scope has. -/
theorem endWrite_held :
    Triple (At (Session.Held g n) v) (endWrite g) fun r s =>
      ∃ u, r = .ok u ∧ At (Session.Freed g) (v.addAll [.ended g n]) s := by
  rintro s ⟨⟨hinv, hholds⟩, rfl⟩
  have hheld : s.session.table.writesInProgress.get? g.key = some g.token := hholds.held
  have hok : s.session.table.endChartBarsWrite g =
      .ok (s.session.table.releaseWrite g.key) := by
    simp [ChartEvents.endChartBarsWrite, hheld]
  have hexec : (endWrite g).exec s = (.ok (), { s with
      session := s.session.next (.endWrite g)
      log := s.log ++ [.ended g n] }) := by
    simp [endWrite, readGeneration, Prog.exec, Prog.read, Prog.update, call, record, bind, hok,
      hholds.generation_eq]
  rw [hexec]
  refine ⟨(), rfl, ⟨Session.inv_step _ (.endWrite g) _ hinv ⟨hholds.issued, rfl⟩, ?_⟩, rfl⟩
  simp [Session.next, ChartEvents.perform, hok, ChartEvents.HoldsWrite, ChartEvents.releaseWrite]

/-- A held guard is invalidated, past the generation it expects. -/
theorem invalidateWrite_held :
    Triple (At (Session.Held g n) v) (invalidateWrite g reason) fun r s =>
      ∃ m, r = .ok m ∧ g.expectedGeneration < m ∧
        At (Session.Freed g) (v.addAll [.invalidated g m]) s := by
  rintro s ⟨⟨hinv, hholds⟩, rfl⟩
  obtain ⟨hlt, -, hok⟩ := hinv.releasedUncertain hholds.issued hholds.held reason
  have hexec : (invalidateWrite g reason).exec s =
      (.ok ((s.session.table.invalidateGeneration g reason).generation g.key), { s with
        session := s.session.next (.invalidateWrite g reason)
        log := s.log ++ [.invalidated g
          ((s.session.table.invalidateGeneration g reason).generation g.key)] }) := by
    simp [invalidateWrite, Prog.exec, Prog.read, Prog.update, call, record, bind, pure, hok]
  rw [hexec]
  refine ⟨_, rfl, hlt,
    ⟨Session.inv_step _ (.invalidateWrite g reason) _ hinv ⟨hholds.issued, rfl⟩, ?_⟩, rfl⟩
  simp [Session.next, ChartEvents.perform, hok, ChartEvents.HoldsWrite, ChartEvents.releaseWrite]

/-- What a publication under the guard comes to: nothing, with `0`; one generation on; or a raise,
wherever the scope is then. -/
def PublishedUnder (g : ChartBarsWriteGuard) (n : ℕ) (v : CommitView) (expected : ℕ)
    (r : Except CommitRaise ℕ) (s : CommitState) : Prop :=
  (r = .ok 0 ∧ n ≠ expected ∧ At (Session.Held g n) v s) ∨
    (r = .ok (n + 1) ∧ n = expected ∧
      At (Session.Held g (n + 1)) (v.addAll [.published (n + 1)]) s) ∨
      ∃ e m, r = .error e ∧ At (Session.Held g m) v s

theorem publish_held {expected : ℕ} {publication : PublicationEnd} :
    Triple (At (Session.Held g n) v) (publish g.key reason bars expected publication)
      (PublishedUnder g n v expected) := by
  rintro s ⟨⟨hinv, hholds⟩, rfl⟩
  have hkey : g.key ∈ s.session.table.writesInProgress.keys := Dict.mem_keys_of_get? hholds.held
  have hinv' : (s.session.next (.publish g.key reason bars (some expected))).Inv :=
    Session.inv_step _ (.publish g.key reason bars (some expected)) _ hinv ⟨hkey, rfl⟩
  -- the call takes effect exactly at the expected generation
  have hcall : ∃ m, (if n = expected then m = n + 1 else m = n) ∧
      (s.session.table.publishChartBarsUpdated g.key reason bars (some expected)).1 =
        (if n = expected then n + 1 else 0) ∧
      (s.session.next (.publish g.key reason bars (some expected))).HoldsAt g m := by
    by_cases heq : n = expected
    · have hpublish : s.session.table.publishChartBarsUpdated g.key reason bars (some expected) =
          (n + 1, s.session.table.advance g.key reason bars) := by
        simp [ChartEvents.publishChartBarsUpdated, hholds.generation_eq, heq]
      refine ⟨n + 1, by simp [heq], by rw [hpublish, if_pos heq],
        List.mem_append_left _ hholds.issued, ?_, ?_⟩
      · simpa [Session.next, ChartEvents.perform, hpublish, ChartEvents.HoldsWrite] using hholds.held
      · simp [Session.next, ChartEvents.perform, hpublish, hholds.generation_eq]
    · have hpublish : s.session.table.publishChartBarsUpdated g.key reason bars (some expected) =
          (0, s.session.table) := by
        simp [ChartEvents.publishChartBarsUpdated, hholds.generation_eq, heq]
      refine ⟨n, by simp [heq], by rw [hpublish, if_neg heq],
        List.mem_append_left _ hholds.issued, ?_, ?_⟩
      · simpa [Session.next, ChartEvents.perform, hpublish] using hholds.held
      · simpa [Session.next, ChartEvents.perform, hpublish] using hholds.generation_eq
  obtain ⟨m, hm, hresult, hholds'⟩ := hcall
  cases publication with
  | raisedBefore e => exact .inr (.inr ⟨e, n, rfl, ⟨hinv, hholds⟩, rfl⟩)
  | raisedAfter e => exact .inr (.inr ⟨e, m, rfl, ⟨hinv', hholds'⟩, rfl⟩)
  | returned =>
    by_cases heq : n = expected
    · have hexec : (publish g.key reason bars expected .returned).exec s =
          (.ok (n + 1), { s with
            session := s.session.next (.publish g.key reason bars (some expected))
            log := s.log ++ [.published (n + 1)] }) := by
        simp [publish, Prog.exec, Prog.read, Prog.update, call, record, bind, pure, hresult, heq]
      rw [hexec]
      rw [if_pos heq] at hm
      exact .inr (.inl ⟨rfl, heq, ⟨hinv', hm ▸ hholds'⟩, rfl⟩)
    · have hexec : (publish g.key reason bars expected .returned).exec s =
          (.ok 0, { s with
            session := s.session.next (.publish g.key reason bars (some expected)) }) := by
        simp [publish, Prog.exec, Prog.read, Prog.update, call, bind, pure, hresult, heq]
      rw [hexec]
      rw [if_neg heq] at hm
      exact .inl ⟨rfl, heq, ⟨hinv', hm ▸ hholds'⟩, rfl⟩

/-! ### The queue -/

/-- The head of the queue fails: it leaves the queue and is settled. -/
theorem failHistoryCommit_at {code : String} {receipt : Option CanonicalHistoryCommitReceipt}
    {generation : Option ℕ} (hhead : v.queue.head?.map PendingHistoryCommit.id = some item.id) :
    Triple (At B v) (failHistoryCommit item code receipt generation) fun r s =>
      ∃ u, r = .ok u ∧ At B (v.complete item ⟨.failed, receipt, generation, some code⟩) s := by
  refine .read_bind fun owned => .lift_bind (fun e he s hs => ?_) fun _ _ => ?_
  · -- the item is the head
    obtain ⟨⟨-, hview⟩, howned⟩ := hs
    have hqueue : s.lane.historyPending = v.queue := congrArg CommitView.queue hview
    rw [hqueue, hhead] at howned
    simp only [decide_true] at howned
    exact absurd (howned.symm.trans rfl) (require_eq_error.mp he).1
  · exact (popHistory_at.pre fun s hs => hs.1).seq fun _ => settleHistoryCompletion_at

end CommitM

end AefTerminal
