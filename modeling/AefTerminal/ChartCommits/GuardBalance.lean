import AefTerminal.Bars.RevisionOrder
import AefTerminal.ChartCommits.GuardSpecs

/-!
# Every guard a commit begins is released once

A commit records what it does with its guard. Whatever storage, the receipt, the publication and
the cancellations come to, and whatever others do meanwhile, the record of a live commit is closed:
nothing was begun, or the guard ended after a validated receipt whose change was published, or it
was invalidated past the generation it expected.

A history commit begins its guard in a thread and hands it to the lane's task through the task of
the attempt. When that task is itself cancelled, the guard of a thread that came to a receipt is
lost. In every other case its record is closed too.

## Main results

* `executeLiveCommit_spec`, `runHistoryStorageAttempt_spec`, `finalizeHistoryStorageAttempt_spec`
* `guards_balanced`, `guard_leaked`
-/

namespace AefTerminal

open Foundation CommitM

variable {g : ChartBarsWriteGuard} {n : ℕ} {v : CommitView} {σ : Session}

/-! ### Records -/

/-- An event between the beginning of a guard and its release. -/
def GuardEvent.Inner : GuardEvent → Prop
  | .storageStarted => True
  | .validated _ => True
  | .published _ => True
  | _ => False

/-- What happens between the storage call and a normal end. -/
def settledEvents (changed : Bool) (generation : ℕ) : List GuardEvent :=
  [.storageStarted, .validated changed] ++ if changed then [.published generation] else []

/-- The record of a commit that is over. -/
inductive Closed : List GuardEvent → Prop
  | untouched : Closed []
  | ended (guard : ChartBarsWriteGuard) (changed : Bool) (published generation : ℕ) :
      Closed (.began guard :: (settledEvents changed published ++ [.ended guard generation]))
  | invalidated (guard : ChartBarsWriteGuard) (events : List GuardEvent) (generation : ℕ)
      (hevents : ∀ e ∈ events, e.Inner) (hgeneration : guard.expectedGeneration < generation) :
      Closed (.began guard :: (events ++ [.invalidated guard generation]))

/-- The commit still holds its guard, some way on from `v`. -/
def UnderWay (g : ChartBarsWriteGuard) (v : CommitView) (s : CommitState) : Prop :=
  ∃ m events, (∀ e ∈ events, GuardEvent.Inner e) ∧ At (Session.Held g m) (v.addAll events) s

/-- The commit ended its guard the normal way, from `v`. -/
def EndedFrom (g : ChartBarsWriteGuard) (v : CommitView) (s : CommitState) : Prop :=
  ∃ changed published generation, At (Session.Freed g)
    (v.addAll (settledEvents changed published ++ [.ended g generation])) s

/-- The commit is over: nothing was begun, or the guard was released. -/
def Over (v : CommitView) (s : CommitState) : Prop :=
  At Session.Inv v s ∨
    ∃ g events, Closed (.began g :: events) ∧ At (Session.Freed g) (v.addAll (.began g :: events)) s

variable {s : CommitState}

theorem At.underWay (events : List GuardEvent) (hevents : ∀ e ∈ events, e.Inner)
    (h : At (Session.Held g n) (v.addAll events) s) : UnderWay g v s :=
  ⟨n, events, hevents, h⟩

theorem EndedFrom.over (h : EndedFrom g (v.addAll [.began g]) s) : Over v s := by
  obtain ⟨changed, published, generation, h⟩ := h
  rw [CommitView.addAll_addAll] at h
  exact .inr ⟨g, _, .ended g changed published generation, h⟩

/-- What is under way is released by an invalidation. -/
theorem invalidateWrite_underWay {reason : String} :
    Triple (UnderWay g (v.addAll [.began g])) (invalidateWrite g reason) fun r s =>
      ∃ m, r = .ok m ∧ ∃ events, Closed (.began g :: events) ∧
        At (Session.Freed g) (v.addAll (.began g :: events)) s := by
  rintro s ⟨m, events, hevents, h⟩
  obtain ⟨k, hr, hlt, h⟩ := invalidateWrite_held s h
  rw [CommitView.addAll_addAll, CommitView.addAll_addAll] at h
  exact ⟨k, hr, _, .invalidated g events k hevents hlt, h⟩

theorem others_underWay {acts : List ChartEventAct} :
    Triple (UnderWay g v) (others (some g) acts) fun r s => ∃ u, r = .ok u ∧ UnderWay g v s := by
  rintro s ⟨m, events, hevents, h⟩
  obtain ⟨u, hr, h⟩ := others_held s h
  exact ⟨u, hr, m, events, hevents, h⟩

/-! ### The live commit -/

variable {expected : ℕ} {env : CommitEnv CanonicalBarCommitReceipt}

theorem publishLiveCommit_spec {r : CanonicalBarCommitReceipt} :
    Triple (At (Session.Held g n)
        (v.addAll [.storageStarted, .validated (decide (0 < r.written))]))
      (publishLiveCommit g.key expected g r env) fun end_ s =>
        (∃ m published, end_ = .ok () ∧ At (Session.Held g m)
          (v.addAll (settledEvents (decide (0 < r.written)) published)) s) ∨
        (∃ e, end_ = .error e) ∧ UnderWay g v s := by
  refine .split (fun hwritten => ?_) fun hnone => ?_
  · refine others_held.seq fun _ => publish_held.bind (fun e s hend => ?_) fun generation => ?_
    · rcases hend with ⟨habs, -⟩ | ⟨habs, -⟩ | ⟨e', m, -, h⟩
      · exact absurd habs (by simp)
      · exact absurd habs (by simp)
      · exact .inr ⟨⟨e, rfl⟩, h.underWay _ (by simp [GuardEvent.Inner])⟩
    · refine .lift fun s hend => ?_
      rcases hend with ⟨hzero, -, h⟩ | ⟨hone, -, h⟩ | ⟨e', m, habs, -⟩
      · cases hzero
        exact .inr ⟨⟨_, rfl⟩, h.underWay _ (by simp [GuardEvent.Inner])⟩
      · cases hone
        refine .inl ⟨n + 1, n + 1, by simp [require], ?_⟩
        simpa [settledEvents, hwritten] using h
      · exact absurd habs (by simp)
  · refine .pure fun s h => .inl ⟨n, 0, rfl, ?_⟩
    simpa [settledEvents, hnone] using h

variable {seq : ℕ}

theorem finalizeLiveCommitReceipt_spec {batch : List BarObject}
    {receipt : Option CanonicalBarCommitReceipt} :
    Triple (At (Session.Held g n) (v.addAll [.storageStarted]))
      (finalizeLiveCommitReceipt g.key batch seq expected g receipt env) fun end_ s =>
        (∃ missing, end_ = .ok missing ∧ EndedFrom g v s) ∨
        (∃ e, end_ = .error e) ∧ UnderWay g v s := by
  unfold finalizeLiveCommitReceipt
  split
  · rename_i r o houtcomes
    refine record_at.seq fun _ => ?_
    rw [CommitView.addAll_addAll]
    refine publishLiveCommit_spec.bind (fun e s hend => ?_) fun _ => .choose fun s hend => ?_
    · rcases hend with ⟨m, published, habs, -⟩ | ⟨-, h⟩
      · exact absurd habs (by simp)
      · exact .inr ⟨⟨e, rfl⟩, h⟩
    · rcases hend with ⟨m, published, -, h⟩ | ⟨⟨e, habs⟩, -⟩
      · refine ⟨_, h, others_held.seq fun _ => endWrite_held.seq fun _ =>
          remember_at.seq fun _ => .pure fun s h => ?_⟩
        rw [CommitView.addAll_addAll] at h
        exact .inl ⟨o.missing, rfl, decide (0 < r.written), published, m, h⟩
      · exact absurd habs (by simp)
  · exact .raise fun s h => .inr ⟨⟨_, rfl⟩, h.underWay _ (by simp [GuardEvent.Inner])⟩

/-- The part of a live commit that runs under its guard. -/
theorem executeLiveCommit_guarded {batch : List BarObject} :
    Triple (At (Session.Held g n) v)
      (do
        record .storageStarted
        others (some g) (env.others 2)
        let receipt ← Prog.lift (settledAttempt env)
        let missing ← finalizeLiveCommitReceipt g.key batch seq expected g receipt env
        return (⟨missing, env.cancellation⟩ : LiveCommitResult))
      fun r s => (∃ result, r = .ok result ∧ EndedFrom g v s) ∨
        (∃ e, r = .error e) ∧ UnderWay g v s := by
  refine record_at.seq fun _ => others_held.seq fun _ =>
    .lift_bind (fun e _ s h => ?_) fun receipt _ => ?_
  · exact .inr ⟨⟨e, rfl⟩, h.underWay _ (by simp [GuardEvent.Inner])⟩
  · refine finalizeLiveCommitReceipt_spec.bind (fun e s hend => ?_) fun missing =>
      .pure fun s hend => ?_
    · rcases hend with ⟨_, habs, -⟩ | ⟨-, h⟩
      · exact absurd habs (by simp)
      · exact .inr ⟨⟨e, rfl⟩, h⟩
    · rcases hend with ⟨_, -, h⟩ | ⟨⟨e, habs⟩, -⟩
      · exact .inl ⟨_, rfl, h⟩
      · exact absurd habs (by simp)

/-- However a live commit ends, it is over. -/
theorem executeLiveCommit_spec (key : ChartRefreshKey) (batch : List BarObject) (seq : ℕ)
    (env : CommitEnv CanonicalBarCommitReceipt) :
    Triple (At (fun τ => τ.Inv ∧ τ = σ) v) (executeLiveCommit key batch seq env)
      fun _ s => Over v s := by
  unfold executeLiveCommit
  refine .lift_bind (fun _ _ _ h => .inl ⟨h.session.1, h.view⟩) fun _ _ => ?_
  refine others_idle.seq fun _ => .read_bind fun expected => ?_
  refine (others_idle.pre fun _ h => h.1).seq fun _ => beginWrite_idle.bind (fun e s hend => ?_)
    fun g => .choose fun s hend => ?_
  · rcases hend with ⟨_, -, -, h⟩ | ⟨g, t, habs, -⟩
    · exact .inl h
    · exact absurd habs (by simp)
  rcases hend with ⟨_, habs, -⟩ | ⟨g', t, hg, -, rfl, -, h⟩
  · exact absurd habs (by simp)
  cases hg
  refine ⟨_, h, Triple.observe executeLiveCommit_guarded fun r => ?_⟩
  cases r with
  | ok result =>
    refine .pure fun s hend => ?_
    rcases hend with ⟨_, -, h⟩ | ⟨⟨e, habs⟩, -⟩
    · exact h.over
    · exact absurd habs (by simp)
  | error e =>
    refine .choose fun s hend => ?_
    rcases hend with ⟨_, habs, -⟩ | ⟨-, h⟩
    · exact absurd habs (by simp)
    · refine ⟨_, h, others_underWay.seq fun _ => invalidateWrite_underWay.seq fun _ =>
        .raise fun s h => ?_⟩
      obtain ⟨events, hclosed, h⟩ := h
      exact .inr ⟨g, events, hclosed, h⟩

/-! ### The history thread -/

/-- The thread gets a guard: the scope is free and at the request's generation when it asks. -/
def BeginsGuard (σ : Session) (request : HistoryCommitRequest) (env : HistoryEnv) : Prop :=
  ∃ r, (σ.interfere none (env.others 0)).table.beginChartBarsWrite request.canonicalGeneration
    request.key = .ok r

/-- The thread of a request holds its guard, with storage started. -/
def ThreadHolds (request : HistoryCommitRequest) (v : CommitView) (g : ChartBarsWriteGuard)
    (s : CommitState) : Prop :=
  g.key = request.key ∧ g.expectedGeneration = request.canonicalGeneration ∧
    At (Session.Held g request.canonicalGeneration)
      ((v.addAll [.began g]).addAll [.storageStarted]) s

theorem commitHistoryResultUnderWriteGuard_spec (request : HistoryCommitRequest)
    (env : HistoryEnv) :
    Triple (At (fun τ => τ.Inv ∧ τ = σ) v) (commitHistoryResultUnderWriteGuard request env)
      fun r s =>
        (∃ receipt g, r = .ok (receipt, g) ∧ env.storage = .ok receipt ∧
          BeginsGuard σ request env ∧ ThreadHolds request v g s) ∨
        (∃ e, r = .error e) ∧ Over v s ∧
          ((∃ e, env.storage = .error e) ∨ ¬ BeginsGuard σ request env) := by
  refine others_idle.seq fun _ => beginWrite_idle.bind (fun e s hend => ?_)
    fun g => .choose fun s hend => ?_
  · rcases hend with ⟨e', -, hbegin, h⟩ | ⟨g, t, habs, -⟩
    · refine .inr ⟨⟨e, rfl⟩, .inl h, .inr fun hbegins => ?_⟩
      obtain ⟨r, hr⟩ := hbegins
      exact absurd (hbegin.symm.trans hr) (by simp)
    · exact absurd habs (by simp)
  rcases hend with ⟨_, habs, -⟩ | ⟨g', t, hg, hbegin, hkey, hexpected, h⟩
  · exact absurd habs (by simp)
  cases hg
  refine ⟨_, h, record_at.seq fun _ => others_held.seq fun _ => ?_⟩
  cases hstorage : env.storage with
  | ok receipt =>
    exact .pure fun s h => .inl ⟨receipt, g, rfl, rfl, ⟨_, hbegin⟩, hkey, hexpected, h⟩
  | error e =>
    refine (invalidateWrite_underWay.pre fun s h =>
      h.underWay [.storageStarted] (by simp [GuardEvent.Inner])).seq fun _ => .raise fun s h => ?_
    obtain ⟨events, hclosed, h⟩ := h
    exact .inr ⟨⟨_, rfl⟩, .inr ⟨g, events, hclosed, h⟩, .inl ⟨e, rfl⟩⟩

/-- The guard of the attempt is lost: the task that carries the thread was cancelled, the thread
began its guard, and its storage call returned. -/
def Abandons (σ : Session) (request : HistoryCommitRequest) (env : HistoryEnv) : Prop :=
  env.taskCancelled = true ∧ env.threadStarted = true ∧ (∃ receipt, env.storage = .ok receipt) ∧
    BeginsGuard σ request env

variable {env : HistoryEnv} {request : HistoryCommitRequest}

theorem runHistoryStorageAttempt_spec :
    Triple (At (fun τ => τ.Inv ∧ τ = σ) v) (runHistoryStorageAttempt request env) fun r s =>
      (∃ receipt g, r = .ok (receipt, g, env.cancellation) ∧ env.taskCancelled = false ∧
        ThreadHolds request v g s) ∨
      (∃ e, r = .error e) ∧
        ((¬ Abandons σ request env ∧ Over v s) ∨
          (Abandons σ request env ∧ ∃ g, ThreadHolds request v g s)) := by
  have hthread := commitHistoryResultUnderWriteGuard_spec (v := v) (σ := σ) request env
  refine .split (fun hcancelled => ?_) fun hrunning => ?_
  · have habandoned : Triple (At (fun τ => τ.Inv ∧ τ = σ) v) (abandonedThread request env)
        fun r s => ∃ u, r = .ok u ∧ ((¬ Abandons σ request env ∧ Over v s) ∨
          (Abandons σ request env ∧ ∃ g, ThreadHolds request v g s)) := by
      refine .split (fun hstarted => Triple.observe hthread fun r => .pure fun s hend => ?_)
        fun hidle => .pure fun s h => ?_
      · rcases hend with ⟨receipt, g, -, hstorage, hbegins, h⟩ | ⟨-, h, hnot⟩
        · exact ⟨(), rfl, .inr ⟨⟨hcancelled, hstarted, ⟨receipt, hstorage⟩, hbegins⟩, g, h⟩⟩
        · refine ⟨(), rfl, .inl ⟨fun ⟨_, _, ⟨receipt, hstorage⟩, hbegins⟩ => ?_, h⟩⟩
          rcases hnot with ⟨e, herror⟩ | hnot
          · exact absurd (hstorage.symm.trans herror) (by simp)
          · exact hnot hbegins
      · exact ⟨(), rfl, .inl ⟨fun habandons => hidle habandons.2.1, .inl ⟨h.session.1, h.view⟩⟩⟩
    exact habandoned.seq fun _ => .raise fun s h => .inr ⟨⟨_, rfl⟩, h⟩
  · refine Triple.observe hthread fun r => ?_
    have hnot : ¬ Abandons σ request env := fun habandons => hrunning habandons.1
    rcases r with e | ⟨receipt, g⟩
    · refine .raise fun s hend => ?_
      rcases hend with ⟨_, _, habs, -⟩ | ⟨-, h, -⟩
      · exact absurd habs (by simp)
      · exact .inr ⟨⟨_, rfl⟩, .inl ⟨hnot, h⟩⟩
    · refine .pure fun s hend => ?_
      rcases hend with ⟨receipt', g', heq, -, -, h⟩ | ⟨⟨e, habs⟩, -⟩
      · cases (Except.ok.inj heq)
        exact .inl ⟨receipt, g, rfl, by simpa using hrunning, h⟩
      · exact absurd habs (by simp)

/-! ### Settling a history receipt -/

variable {receipt : Option CanonicalHistoryCommitReceipt}

theorem finalizeHistoryCommitReceipt_spec (hkey : g.key = request.key) :
    Triple (At (Session.Held g request.canonicalGeneration) (v.addAll [.storageStarted]))
      (finalizeHistoryCommitReceipt request seq g receipt env) fun end_ s =>
        (∃ r generation, end_ = .ok (r, generation) ∧
          generation = (if r.mutated then request.canonicalGeneration + 1
            else request.canonicalGeneration) ∧
          At (Session.Held g generation)
            (v.addAll (settledEvents r.mutated (request.canonicalGeneration + 1))) s) ∨
        ((∃ k, end_ = .error (.historyGenerationChanged k)) ∨ ∃ code, end_ = .error (.terminal code)) ∧
          UnderWay g v s := by
  unfold finalizeHistoryCommitReceipt
  split
  · exact .raise fun s h => .inr ⟨.inr ⟨_, rfl⟩, h.underWay _ (by simp [GuardEvent.Inner])⟩
  rename_i r
  split
  · exact .raise fun s h => .inr ⟨.inr ⟨_, rfl⟩, h.underWay _ (by simp [GuardEvent.Inner])⟩
  rename_i acknowledged superseded _
  refine record_at.seq fun _ => remember_at.seq fun _ => others_held.seq fun _ =>
    .read_bind fun observed => ?_
  rw [CommitView.addAll_addAll]
  refine .split (fun hmutated => ?_) fun hsame => ?_
  · rw [← hkey]
    refine (others_held.pre fun _ h => h.1).seq fun _ => Triple.observe publish_held fun end_ => ?_
    rcases end_ with e | published
    · refine .raise fun s hend => ?_
      rcases hend with ⟨habs, -⟩ | ⟨habs, -⟩ | ⟨_, m, -, h⟩
      · exact absurd habs (by simp)
      · exact absurd habs (by simp)
      · exact .inr ⟨.inr ⟨_, rfl⟩, h.underWay _ (by simp [GuardEvent.Inner])⟩
    · refine .lift_bind (fun e he s hend => ?_) fun _ hpublished => .pure fun s hend => ?_
      · obtain ⟨-, rfl⟩ := require_eq_error.mp he
        rcases hend with ⟨-, -, h⟩ | ⟨-, -, h⟩ | ⟨_, m, habs, -⟩
        · exact .inr ⟨.inr ⟨_, rfl⟩, h.underWay _ (by simp [GuardEvent.Inner])⟩
        · rw [CommitView.addAll_addAll] at h
          exact .inr ⟨.inr ⟨_, rfl⟩, h.underWay _ (by simp [GuardEvent.Inner])⟩
        · exact absurd habs (by simp)
      · rcases hend with ⟨hzero, -, -⟩ | ⟨hone, -, h⟩ | ⟨_, m, habs, -⟩
        · cases hzero
          exact absurd (require_eq_ok.mp hpublished) (by simp)
        · cases hone
          rw [CommitView.addAll_addAll] at h
          refine .inl ⟨r, _, rfl, by simp [hmutated], ?_⟩
          simpa [settledEvents, hmutated] using h
        · exact absurd habs (by simp)
  · refine .lift_bind (fun e he s hs => ?_) fun _ hobserved => .pure fun s hs => ?_
    · obtain ⟨-, rfl⟩ := require_eq_error.mp he
      exact .inr ⟨.inl ⟨_, rfl⟩, hs.1.underWay _ (by simp [GuardEvent.Inner])⟩
    · obtain rfl := require_eq_ok.mp hobserved
      refine .inl ⟨r, _, rfl, by simp [hsame], ?_⟩
      simpa [settledEvents, hsame] using hs.1

/-- The part of the settling that runs under the guard. -/
theorem finalizeHistoryStorageAttempt_guarded (hkey : g.key = request.key) :
    Triple (At (Session.Held g request.canonicalGeneration) (v.addAll [.storageStarted]))
      (do
        let typed ← finalizeHistoryCommitReceipt request seq g receipt env
        others (some g) (env.others 4)
        endWrite g
        return typed)
      fun end_ s =>
        (∃ r generation, end_ = .ok (r, generation) ∧
          generation = (if r.mutated then request.canonicalGeneration + 1
            else request.canonicalGeneration) ∧
          At (Session.Freed g) (v.addAll (settledEvents r.mutated (request.canonicalGeneration + 1) ++
            [.ended g generation])) s) ∨
        ((∃ k, end_ = .error (.historyGenerationChanged k)) ∨ ∃ code, end_ = .error (.terminal code)) ∧
          UnderWay g v s := by
  refine (finalizeHistoryCommitReceipt_spec hkey).bind (fun e s hend => ?_)
    fun typed => .choose fun s hend => ?_
  · rcases hend with ⟨_, _, habs, -⟩ | ⟨he, h⟩
    · exact absurd habs (by simp)
    · refine .inr ⟨he.imp (fun ⟨k, hk⟩ => ⟨k, ?_⟩) fun ⟨code, hcode⟩ => ⟨code, ?_⟩, h⟩
      · exact congrArg Except.error (Except.error.inj hk)
      · exact congrArg Except.error (Except.error.inj hcode)
  · rcases hend with ⟨r, generation, hok, hgeneration, h⟩ | ⟨⟨_, habs⟩ | ⟨_, habs⟩, -⟩
    · cases hok
      refine ⟨_, h, others_held.seq fun _ => endWrite_held.seq fun _ => .pure fun s h => ?_⟩
      rw [CommitView.addAll_addAll] at h
      exact .inl ⟨r, generation, rfl, hgeneration, h⟩
    · exact absurd habs (by simp)
    · exact absurd habs (by simp)

/-- The record of an attempt that settled its request as committed, or as without a change. -/
structure Explains (request : HistoryCommitRequest) (outcome : HistoryCommitOutcome)
    (record : List GuardEvent) : Prop where
  committed : outcome.status = .committed →
    outcome.generation = some (request.canonicalGeneration + 1) ∧
      ∃ g, g.key = request.key ∧ g.expectedGeneration = request.canonicalGeneration ∧
        record = [.began g, .storageStarted, .validated true,
          .published (request.canonicalGeneration + 1),
          .ended g (request.canonicalGeneration + 1)]
  noChange : outcome.status = .noChange →
    outcome.generation = some request.canonicalGeneration ∧
      ∃ g, g.key = request.key ∧ g.expectedGeneration = request.canonicalGeneration ∧
        record = [.began g, .storageStarted, .validated false,
          .ended g request.canonicalGeneration]

variable {outcome : HistoryCommitOutcome}

theorem Explains.of_ne
    {record : List GuardEvent} (h : outcome.status ≠ .committed) (h' : outcome.status ≠ .noChange) :
    Explains request outcome record :=
  ⟨fun hstatus => absurd hstatus h, fun hstatus => absurd hstatus h'⟩

/-- A record that may stand at the end of an attempt: it is closed, and the guard is free. -/
def Freed (record : List GuardEvent) (σ : Session) : Prop :=
  σ.Inv ∧ Closed record ∧ ∀ g, .began g ∈ record → ¬ σ.table.HoldsWrite g

variable {events : List GuardEvent}

theorem Closed.guard_eq {g' : ChartBarsWriteGuard}
    (h : Closed (.began g :: events)) (hmem : .began g' ∈ GuardEvent.began g :: events) :
    g' = g := by
  rcases List.mem_cons.mp hmem with heq | hmem
  · exact GuardEvent.began.inj heq
  · cases h with
    | ended _ changed published generation => cases changed <;> simp [settledEvents] at hmem
    | invalidated _ events generation hevents =>
      rcases List.mem_append.mp hmem with hmem | hmem
      · exact absurd (hevents _ hmem) (by simp [GuardEvent.Inner])
      · simp at hmem

theorem Closed.freed (h : Closed (.began g :: events))
    (hσ : σ.Freed g) : Freed (.began g :: events) σ :=
  ⟨hσ.1, h, fun _ hmem => h.guard_eq hmem ▸ hσ.2⟩

/-- The attempt settled `item`: it left the queue with an outcome that the record explains. -/
def SettledWith (item : PendingHistoryCommit) (v : CommitView) (s : CommitState) : Prop :=
  ∃ outcome record, Explains item.request outcome record ∧
    At (Freed record) ((v.complete item outcome).addAll record) s

variable {item : PendingHistoryCommit}

theorem Closed.settledWith (hclosed : Closed (.began g :: events))
    (hexplains : Explains item.request outcome (.began g :: events))
    (h : At (Session.Freed g) ((v.addAll (.began g :: events)).complete item outcome) s) :
    SettledWith item v s := by
  rw [CommitView.complete_addAll] at h
  exact ⟨outcome, _, hexplains, hclosed.freed h.session, h.view⟩

/-- The last lines of a settlement: the request leaves, and a deferred cancellation is raised. -/
theorem complete_at {B : Session → Prop} {deferredCancel : Bool} :
    Triple (At B v)
      (do
        popHistory
        settleHistoryCompletion item outcome
        raiseDeferred deferredCancel)
      fun r s => (r = .ok true ∨ deferredCancel = true ∧ r = .error .cancelled) ∧
        At B (v.complete item outcome) s := by
  refine popHistory_at.seq fun _ => settleHistoryCompletion_at.seq fun _ => ?_
  cases deferredCancel with
  | true => exact .raise fun s hs => ⟨.inr ⟨rfl, rfl⟩, hs⟩
  | false => exact .pure fun s hs => ⟨.inl rfl, hs⟩

theorem finalizeHistoryStorageAttempt_spec {deferredCancel : Bool}
    (hhead : v.queue.head?.map PendingHistoryCommit.id = some item.id) :
    Triple (ThreadHolds item.request v g)
      (finalizeHistoryStorageAttempt item seq receipt g deferredCancel env) fun r s =>
        (r = .ok true ∨ deferredCancel = true ∧ r = .error .cancelled) ∧ SettledWith item v s := by
  refine .choose fun s hs => ?_
  obtain ⟨hkey, hexpected, h⟩ := hs
  refine ⟨_, h, Triple.observe (finalizeHistoryStorageAttempt_guarded hkey) fun end_ =>
    .choose fun s hend => ?_⟩
  rcases hend with ⟨r, generation, rfl, hgeneration, h⟩ | ⟨⟨k, rfl⟩ | ⟨code, rfl⟩, h⟩
  · refine ⟨_, h, complete_at.post fun _ _ ⟨hr, hs⟩ => ⟨hr, ?_⟩⟩
    rw [CommitView.addAll_addAll] at hs
    refine (Closed.ended g r.mutated _ generation).settledWith ⟨fun hstatus => ?_, fun hstatus => ?_⟩ hs
    · have hmutated : r.mutated = true := by
        by_contra hsame
        simp [hsame] at hstatus
      simp only [hmutated, if_true] at hgeneration
      subst hgeneration
      exact ⟨rfl, g, hkey, hexpected, by simp [settledEvents, hmutated]⟩
    · have hsame : r.mutated = false := by
        by_contra hmutated
        simp [hmutated] at hstatus
      simp only [hsame, Bool.false_eq_true, if_false] at hgeneration
      subst hgeneration
      exact ⟨rfl, g, hkey, hexpected, by simp [settledEvents, hsame]⟩
  · refine ⟨_, h, others_underWay.seq fun _ => invalidateWrite_underWay.seq fun observed =>
      .choose fun s hs => ?_⟩
    obtain ⟨events, hclosed, hs⟩ := hs
    exact ⟨_, hs, complete_at.post fun _ _ ⟨hr, hs⟩ =>
      ⟨hr, hclosed.settledWith (.of_ne (by simp) (by simp)) hs⟩⟩
  · refine ⟨_, h, others_underWay.seq fun _ => invalidateWrite_underWay.seq fun observed =>
      .choose fun s hs => ?_⟩
    obtain ⟨events, hclosed, hs⟩ := hs
    have hhead' : (v.addAll (.began g :: events)).queue.head?.map PendingHistoryCommit.id =
        some item.id := hhead
    exact ⟨_, hs, (failHistoryCommit_at hhead').seq fun _ => .pure fun _ hs =>
      ⟨.inl rfl, hclosed.settledWith (.of_ne (by simp) (by simp)) hs⟩⟩

/-! ### The attempt and its handlers -/

/-- What the handlers of a failed attempt do: the request stays, or it leaves with an outcome that
is neither committed nor without a change. -/
theorem handleHistoryStorageError_spec {B : Session → Prop}
    {e : CommitRaise} (hhead : v.queue.head?.map PendingHistoryCommit.id = some item.id) :
    Triple (At B v) (handleHistoryStorageError item e) fun r s =>
      ((r = .ok .retry ∨ ∃ e, r = .error e) ∧ At B v s) ∨
        (r = .ok .settled ∧ ∃ outcome : HistoryCommitOutcome, outcome.status ≠ .committed ∧
          outcome.status ≠ .noChange ∧ At B (v.complete item outcome) s) := by
  have hfail : ∀ code generation, Triple (At B v)
      (do
        failHistoryCommit item code none generation
        return HistoryStage.settled)
      fun r s => ((r = .ok .retry ∨ ∃ e, r = .error e) ∧ At B v s) ∨
        (r = .ok .settled ∧ ∃ outcome : HistoryCommitOutcome, outcome.status ≠ .committed ∧
          outcome.status ≠ .noChange ∧ At B (v.complete item outcome) s) := fun code generation =>
    (failHistoryCommit_at hhead).seq fun _ => .pure fun _ hs =>
      .inr ⟨rfl, _, by simp, by simp, hs⟩
  unfold handleHistoryStorageError
  split
  · exact .raise fun _ hs => .inl ⟨.inr ⟨_, rfl⟩, hs⟩
  · exact .pure fun _ hs => .inl ⟨.inl rfl, hs⟩
  · exact popHistory_at.seq fun _ => settleHistoryCompletion_at.seq fun _ => .pure fun _ hs =>
      .inr ⟨rfl, _, by simp, by simp, hs⟩
  · exact hfail _ _
  · exact hfail _ _
  · exact .pure fun _ hs => .inl ⟨.inl rfl, hs⟩
  · exact hfail _ _

theorem Over.record (h : Over v s) :
    ∃ record, At (Freed record) (v.addAll record) s := by
  rcases h with h | ⟨g, events, hclosed, h⟩
  · exact ⟨[], ⟨h.session, .untouched, by simp⟩, by simpa using h.view⟩
  · exact ⟨_, hclosed.freed h.session, h.view⟩

/-- The request stays in the queue and the commit is over. -/
def Stays (v : CommitView) (s : CommitState) : Prop := ∃ record, At (Freed record) (v.addAll record) s

theorem historyStorageAttempt_spec
    (hhead : v.queue.head?.map PendingHistoryCommit.id = some item.id)
    (hkept : ¬ Abandons σ item.request env) :
    Triple (At (fun τ => τ.Inv ∧ τ = σ) v) (historyStorageAttempt item env) fun r s =>
      (∃ receipt g, r = .ok (.ready receipt g env.cancellation) ∧ ThreadHolds item.request v g s) ∨
        ((r = .ok .retry ∨ ∃ e, r = .error e) ∧ Stays v s) ∨
        (r = .ok .settled ∧ SettledWith item v s) := by
  refine Triple.observe runHistoryStorageAttempt_spec fun r => .choose fun s hend => ?_
  rcases hend with ⟨receipt, g, rfl, -, h⟩ | ⟨⟨e, rfl⟩, ⟨-, h⟩ | ⟨habandons, -⟩⟩
  · exact ⟨_, h, .pure fun s h => .inl ⟨receipt, g, rfl, h⟩⟩
  · obtain ⟨record, h⟩ := h.record
    have hhead' : (v.addAll record).queue.head?.map PendingHistoryCommit.id = some item.id := hhead
    refine ⟨_, h, (handleHistoryStorageError_spec hhead').post fun r s hs => .inr ?_⟩
    rcases hs with ⟨hr, hs⟩ | ⟨hr, outcome, hne, hne', hs⟩
    · exact .inl ⟨hr, record, hs⟩
    · rw [CommitView.complete_addAll] at hs
      exact .inr ⟨hr, outcome, record, .of_ne hne hne', hs⟩
  · exact absurd habandons hkept

/-- A turn of the queue in which no guard is abandoned: the request stays and the commit is over,
or it leaves with an outcome that the record explains. -/
theorem commitHistoryOnce_spec (hhead : v.queue.head?.map PendingHistoryCommit.id = some item.id)
    (hkept : ¬ Abandons σ item.request env) :
    Triple (At (fun τ => τ.Inv ∧ τ = σ) v) (commitHistoryOnce item env) fun r s =>
      ((r = .ok .retry ∨ ∃ e, r = .error e) ∧ Stays v s) ∨
        ((r = .ok .settled ∨ env.cancellation = true ∧ r = .error .cancelled) ∧
          SettledWith item v s) := by
  refine (historyStorageAttempt_spec hhead hkept).bind (fun e s hend => ?_)
    fun stage => .choose fun s hend => ?_
  · rcases hend with ⟨_, _, habs, -⟩ | ⟨-, h⟩ | ⟨habs, -⟩
    · exact absurd habs (by simp)
    · exact .inl ⟨.inr ⟨e, rfl⟩, h⟩
    · exact absurd habs (by simp)
  · rcases hend with ⟨receipt, g, hready, h⟩ | ⟨hretry | ⟨_, habs⟩, h⟩ | ⟨hsettled, h⟩
    · cases hready
      refine ⟨_, h, (finalizeHistoryStorageAttempt_spec hhead).bind (fun e s hend => ?_)
        fun _ => .pure fun s hend => ?_⟩
      · rcases hend with ⟨habs | ⟨hcancel, he⟩, h⟩
        · exact absurd habs (by simp)
        · exact .inr ⟨.inr ⟨hcancel, congrArg Except.error (Except.error.inj he)⟩, h⟩
      · exact .inr ⟨.inl rfl, hend.2⟩
    · cases hretry
      exact ⟨_, h, .pure fun s h => .inl ⟨.inl rfl, h⟩⟩
    · exact absurd habs (by simp)
    · cases hsettled
      exact ⟨_, h, .pure fun s h => .inr ⟨.inl rfl, h⟩⟩

/-- A guard was begun and nothing releases it. The request stays, or it leaves with an outcome that
is neither committed nor without a change. -/
def Lost (item : PendingHistoryCommit) (v : CommitView) (r : Except CommitRaise HistoryStage)
    (s : CommitState) : Prop :=
  ∃ g, ((r = .ok .retry ∨ ∃ e, r = .error e) ∧
      At Session.Inv (v.addAll [.began g, .storageStarted]) s) ∨
    (r = .ok .settled ∧ ∃ outcome : HistoryCommitOutcome, outcome.status ≠ .committed ∧
      outcome.status ≠ .noChange ∧
      At Session.Inv ((v.complete item outcome).addAll [.began g, .storageStarted]) s)

theorem Lost.log {r : Except CommitRaise HistoryStage} (h : Lost item v r s) :
    ∃ g, s.log = v.log ++ [.began g, .storageStarted] := by
  obtain ⟨g, ⟨-, h⟩ | ⟨-, outcome, -, -, h⟩⟩ := h
  · exact ⟨g, congrArg CommitView.log h.view⟩
  · refine ⟨g, (congrArg CommitView.log h.view).trans ?_⟩
    show (v.complete item outcome).log ++ _ = _
    rw [CommitView.complete_log]

/-- A turn of the queue in which the guard is abandoned. -/
theorem commitHistoryOnce_abandoned
    (hhead : v.queue.head?.map PendingHistoryCommit.id = some item.id)
    (habandons : Abandons σ item.request env) :
    Triple (At (fun τ => τ.Inv ∧ τ = σ) v) (commitHistoryOnce item env) (Lost item v) := by
  have hattempt : Triple (At (fun τ => τ.Inv ∧ τ = σ) v) (historyStorageAttempt item env)
      (Lost item v) := by
    refine Triple.observe runHistoryStorageAttempt_spec fun r => .choose fun s hend => ?_
    rcases hend with ⟨_, _, -, hrunning, -⟩ | ⟨⟨e, rfl⟩, ⟨hnot, -⟩ | ⟨-, g, -, -, h⟩⟩
    · exact absurd (hrunning.symm.trans habandons.1) (by simp)
    · exact absurd habandons hnot
    · rw [CommitView.addAll_addAll] at h
      have hinv : At Session.Inv (v.addAll [.began g, .storageStarted]) s := ⟨h.session.1, h.view⟩
      have hhead' : (v.addAll [.began g, .storageStarted]).queue.head?.map
          PendingHistoryCommit.id = some item.id := hhead
      refine ⟨_, hinv, (handleHistoryStorageError_spec hhead').post fun r s hs => ⟨g, ?_⟩⟩
      simpa only [CommitView.complete_addAll] using hs
  refine hattempt.bind (fun e s hend => ?_) fun stage => .choose fun s hend => ?_
  · obtain ⟨g, ⟨-, h⟩ | ⟨habs, -⟩⟩ := hend
    · exact ⟨g, .inl ⟨.inr ⟨e, rfl⟩, h⟩⟩
    · exact absurd habs (by simp)
  · obtain ⟨g, ⟨hretry | ⟨_, habs⟩, h⟩ | ⟨hsettled, outcome, hne, hne', h⟩⟩ := hend
    · cases hretry
      exact ⟨_, h, .pure fun _ h => ⟨g, .inl ⟨.inl rfl, h⟩⟩⟩
    · exact absurd habs (by simp)
    · cases hsettled
      exact ⟨_, h, .pure fun _ h => ⟨g, .inr ⟨rfl, outcome, hne, hne', h⟩⟩⟩

/-! ### Balance -/

/-- The guard an event begins. -/
def GuardEvent.begins : GuardEvent → Option ChartBarsWriteGuard
  | .began guard => some guard
  | _ => none

/-- The guard an event releases. -/
def GuardEvent.releases : GuardEvent → Option ChartBarsWriteGuard
  | .ended guard _ => some guard
  | .invalidated guard _ => some guard
  | _ => none

/-- The commit's guards are balanced. -/
structure GuardsBalanced (s : CommitState) : Prop where
  /-- What was begun was released as often, and nothing was begun twice. -/
  released_once : s.log.filterMap GuardEvent.releases = s.log.filterMap GuardEvent.begins ∧
    (s.log.filterMap GuardEvent.begins).Nodup
  free : ∀ g, .began g ∈ s.log → ¬ s.session.table.HoldsWrite g
  /-- A normal end comes after a validated receipt, and after the publication of its change. -/
  ended : ∀ before g n after, s.log = before ++ .ended g n :: after →
    ∃ changed, .validated changed ∈ before ∧ (changed = true → ∃ m, .published m ∈ before)
  /-- Any other release finds the generation advanced. -/
  invalidated : ∀ g n, .invalidated g n ∈ s.log → g.expectedGeneration < n

theorem filterMap_eq_nil_of_inner (h : ∀ e ∈ events, e.Inner) :
    events.filterMap GuardEvent.releases = [] ∧ events.filterMap GuardEvent.begins = [] := by
  rw [List.filterMap_eq_nil_iff, List.filterMap_eq_nil_iff]
  constructor
  · intro e he
    have hinner := h e he
    cases e <;> first | rfl | exact absurd hinner (by simp [GuardEvent.Inner])
  · intro e he
    have hinner := h e he
    cases e <;> first | rfl | exact absurd hinner (by simp [GuardEvent.Inner])

theorem settledEvents_inner {changed : Bool} {m : ℕ} : ∀ e ∈ settledEvents changed m, e.Inner := by
  cases changed <;> simp [settledEvents, GuardEvent.Inner]

theorem guards_of_inner {inner : List GuardEvent} (last : GuardEvent)
    (hinner : ∀ e ∈ inner, e.Inner) (hreleases : last.releases = some g)
    (hbegins : last.begins = none) :
    (GuardEvent.began g :: (inner ++ [last])).filterMap GuardEvent.releases = [g] ∧
      (GuardEvent.began g :: (inner ++ [last])).filterMap GuardEvent.begins = [g] := by
  obtain ⟨hinner, hinner'⟩ := filterMap_eq_nil_of_inner hinner
  have hbegan : (GuardEvent.began g).releases = none ∧ (GuardEvent.began g).begins = some g :=
    ⟨rfl, rfl⟩
  constructor
  · simp [List.filterMap_append, hinner, hbegan.1, hreleases]
  · simp [List.filterMap_append, hinner', hbegan.2, hbegins]

/-- An event that does not occur before the last one is the last one. -/
theorem eq_of_append_singleton {l before after : List GuardEvent} {x y : GuardEvent}
    (h : l ++ [x] = before ++ y :: after) (hy : y ∉ l) : before = l := by
  rcases List.eq_nil_or_concat after with rfl | ⟨after, z, rfl⟩
  · exact (List.append_inj' h rfl).1.symm
  · rw [List.concat_eq_append, ← List.cons_append, ← List.append_assoc] at h
    obtain ⟨rfl, -⟩ := List.append_inj' h rfl
    exact absurd (List.mem_append_right _ (List.mem_cons_self ..)) hy

theorem Freed.balanced (h : Freed s.log s.session) : GuardsBalanced s := by
  obtain ⟨-, hclosed, hfree⟩ := h
  generalize hlog : s.log = record at hclosed hfree
  refine ⟨?_, by rw [hlog]; exact hfree, fun before g n after heq => ?_, fun g n hmem => ?_⟩
  · rw [hlog]
    cases hclosed with
    | untouched => exact ⟨rfl, List.nodup_nil⟩
    | ended g changed published generation =>
      obtain ⟨hreleases, hbegins⟩ :=
        guards_of_inner (.ended g generation) (@settledEvents_inner changed published) rfl rfl
      exact ⟨hreleases.trans hbegins.symm, hbegins ▸ List.nodup_singleton g⟩
    | invalidated g events generation hevents =>
      obtain ⟨hreleases, hbegins⟩ :=
        guards_of_inner (.invalidated g generation) hevents rfl rfl
      exact ⟨hreleases.trans hbegins.symm, hbegins ▸ List.nodup_singleton g⟩
  · rw [hlog] at heq
    cases hclosed with
    | untouched => exact absurd heq (by simp)
    | ended g' changed published generation =>
      rw [← List.cons_append] at heq
      obtain rfl := eq_of_append_singleton heq fun hmem => by
        rcases List.mem_cons.mp hmem with habs | hmem
        · exact absurd habs (by simp)
        · exact settledEvents_inner _ hmem
      refine ⟨changed, by simp [settledEvents], fun hchanged => ⟨published, ?_⟩⟩
      simp [settledEvents, hchanged]
    | invalidated g' events generation hevents =>
      have hmem : GuardEvent.ended g n ∈ GuardEvent.began g' ::
          (events ++ [.invalidated g' generation]) := by
        rw [heq]
        exact List.mem_append_right _ (List.mem_cons_self ..)
      rcases List.mem_cons.mp hmem with habs | hmem
      · exact absurd habs (by simp)
      · rcases List.mem_append.mp hmem with hmem | hmem
        · exact absurd (hevents _ hmem) (by simp [GuardEvent.Inner])
        · simp at hmem
  · rw [hlog] at hmem
    cases hclosed with
    | untouched => exact absurd hmem (by simp)
    | ended g' changed published generation =>
      rcases List.mem_cons.mp hmem with habs | hmem
      · exact absurd habs (by simp)
      · rcases List.mem_append.mp hmem with hmem | hmem
        · exact absurd (settledEvents_inner _ hmem) (by simp [GuardEvent.Inner])
        · simp at hmem
    | invalidated g' events generation hevents hlt =>
      rcases List.mem_cons.mp hmem with habs | hmem
      · exact absurd habs (by simp)
      · rcases List.mem_append.mp hmem with hmem | hmem
        · exact absurd (hevents _ hmem) (by simp [GuardEvent.Inner])
        · obtain ⟨rfl, rfl⟩ := GuardEvent.invalidated.inj (List.mem_singleton.mp hmem)
          exact hlt

/-- A record with a beginning and no release is not balanced. -/
theorem not_balanced_of_leak (h : s.log = [.began g, .storageStarted]) :
    ¬ GuardsBalanced s := by
  intro hbalanced
  have hreleased := hbalanced.released_once.1
  rw [h] at hreleased
  exact absurd hreleased (by simp [List.filterMap_cons, GuardEvent.releases, GuardEvent.begins])

/-- **Guard balance.** From every state that calls on the chart events reach: every execution of a
live commit is balanced, and a turn of the history queue is balanced exactly when it does not
abandon its guard. -/
theorem guards_balanced {acts : List ChartEventAct} {s : CommitState}
    (hrun : Run Session.Step .initial acts s.session) (hlog : s.log = []) :
    (∀ key batch seq env, GuardsBalanced ((executeLiveCommit key batch seq env).exec s).2) ∧
      ∀ item ∈ s.lane.historyPending.head?, ∀ env,
        (GuardsBalanced ((commitHistoryOnce item env).exec s).2 ↔
          ¬ Abandons s.session item.request env) := by
  have hpre : At (fun τ => τ.Inv ∧ τ = s.session) ⟨[], s.lane.historyPending, s.settled⟩ s :=
    ⟨⟨Session.inv_of_run hrun, rfl⟩, by rw [CommitView.of, hlog]⟩
  have hover : ∀ (record : List GuardEvent) (v : CommitView) (t : CommitState), v.log = [] →
      At (Freed record) (v.addAll record) t → GuardsBalanced t := by
    intro record v t hv ht
    have hrecord : t.log = record := by
      have hlog' := congrArg CommitView.log ht.view
      rwa [CommitView.addAll, hv, List.nil_append] at hlog'
    exact Freed.balanced (hrecord ▸ ht.session)
  refine ⟨fun key batch seq env => ?_, fun item hitem env => ⟨fun hbalanced habandons => ?_,
    fun hkept => ?_⟩⟩
  · obtain ⟨record, h⟩ := (executeLiveCommit_spec _ _ _ _ s hpre).record
    exact hover record _ _ rfl h
  · obtain ⟨g, hleak⟩ := (commitHistoryOnce_abandoned (by rw [hitem]; rfl) habandons s hpre).log
    exact not_balanced_of_leak hleak hbalanced
  · rcases commitHistoryOnce_spec (by rw [hitem]; rfl) hkept s hpre with
      ⟨-, record, h⟩ | ⟨-, outcome, record, -, h⟩
    · exact hover record _ _ rfl h
    · exact hover record _ _ (CommitView.complete_log ..) h

/-! ### A lost guard -/

def spotKey : ChartRefreshKey := ⟨"AAPL", "route", .m1, by decide, of_decide_eq_false rfl⟩

/-- A history result of one bar. -/
def flatRequest : HistoryCommitRequest where
  key := spotKey
  canonicalGeneration := 0
  bars := [flatBar 1]
  slots_nodup := List.nodup_singleton _
  contract := by
    intro bar hbar
    obtain rfl := List.mem_singleton.mp hbar
    exact ⟨rfl, rfl, _, rfl, rfl, rfl, rfl⟩

def flatItem : PendingHistoryCommit := ⟨1, flatRequest, some 1, 0⟩

/-- A runtime in which nothing happened yet, with this request at the head of the lane. -/
def flatState : CommitState :=
  ⟨.initial, { ChartCommitLane.empty with historyPending := [flatItem] }, [], []⟩

/-- Storage wrote the bar; nobody else does anything. -/
def flatEnv (taskCancelled : Bool) : HistoryEnv where
  routeChanged := false
  others := fun _ => []
  storage := .ok (some ⟨⟨1, 1, [flatBar 1], [], [], 0⟩, 0, false, by simp⟩)
  taskCancelled := taskCancelled
  threadStarted := true
  cancellation := false
  publication := .returned

theorem guards_balanced_committed :
    GuardsBalanced ((commitHistoryOnce flatItem (flatEnv false)).exec flatState).2 := by
  have hkept : ¬ Abandons flatState.session flatItem.request (flatEnv false) := fun h =>
    absurd h.1 (by decide)
  exact ((guards_balanced (s := flatState) (.nil _) rfl).2 flatItem (by rfl) (flatEnv false)).mpr hkept

/-- The task that carries the storage thread is cancelled; the thread stores the bar and returns
its receipt with the guard, and nobody takes them. The scope stays guarded. -/
theorem guard_leaked :
    ¬ GuardsBalanced ((commitHistoryOnce flatItem (flatEnv true)).exec flatState).2 ∧
      ((commitHistoryOnce flatItem (flatEnv true)).exec flatState).2.session.table.writeInProgress
        spotKey = true := by
  refine ⟨fun hbalanced => ?_, by rfl⟩
  have hlog : ((commitHistoryOnce flatItem (flatEnv true)).exec flatState).2.log =
      [.began ⟨spotKey, 0, 1⟩, .storageStarted] := by rfl
  exact not_balanced_of_leak hlog hbalanced

end AefTerminal
