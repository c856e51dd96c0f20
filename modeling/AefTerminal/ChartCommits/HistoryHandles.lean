import AefTerminal.ChartCommits.GuardBalance
import AefTerminal.ChartCommits.HistoryQueue

/-!
# Every handle is completed at most once, in order

What the task does between two waits either leaves the request at the head of the queue or takes
it out and settles it, with an outcome that the record of the attempt explains. So the handles that
were accepted are, in order, those that were completed followed by those that wait.

A handle need not be completed: a shutdown leaves what it does not reach in the queue, and so does
a cancellation of the task. Only a start, or the next submission, goes on with it.

## Main results

* `drainHistoryOnce_spec`, `reserveHistoryRevisionSequence_spec`, `attemptHistoryCommit_spec`
* `HistorySystem.inv_step`
* `HistorySystem.handles_settle_once`, `HistorySystem.handle_left_pending`
-/

namespace AefTerminal

open Foundation CommitM

variable {item : PendingHistoryCommit} {v : CommitView} {s : CommitState} {σ : Session}
  {accepted : List (ℕ × HistoryCommitRequest)}

/-! ### What the task does to the queue -/

/-- The request keeps its handle and what it asks for. -/
def SameRequest (f : PendingHistoryCommit → PendingHistoryCommit) : Prop :=
  ∀ item, (f item).id = item.id ∧ (f item).request = item.request

namespace CommitView

def updateHead (v : CommitView) (f : PendingHistoryCommit → PendingHistoryCommit) : CommitView :=
  { v with queue := v.queue.modifyHead f }

theorem complete_updateHead (v : CommitView) (f : PendingHistoryCommit → PendingHistoryCommit)
    (item : PendingHistoryCommit) (outcome : HistoryCommitOutcome) :
    (v.updateHead f).complete item outcome = v.complete item outcome := by
  have htail : (v.queue.modifyHead f).tail = v.queue.tail := by cases v.queue <;> rfl
  show { v with queue := (v.queue.modifyHead f).tail }.settle item outcome = _
  rw [htail, complete]

end CommitView

/-- The request stays at the head. -/
def Remains (v : CommitView) (s : CommitState) : Prop :=
  ∃ f record, SameRequest f ∧ At Session.Inv ((v.updateHead f).addAll record) s

/-- The request left with an outcome that the record explains. -/
def Leaves (item : PendingHistoryCommit) (v : CommitView) (s : CommitState) : Prop :=
  ∃ outcome record, Explains item.request outcome record ∧
    At Session.Inv ((v.complete item outcome).addAll record) s

def Advances (item : PendingHistoryCommit) (v : CommitView) (s : CommitState) : Prop :=
  Remains v s ∨ Leaves item v s

theorem CommitView.updateHead_id (v : CommitView) : v.updateHead id = v := by
  cases v with
  | mk log queue settled => cases queue <;> rfl

theorem At.remains (record : List GuardEvent) (h : At Session.Inv (v.addAll record) s) :
    Remains v s :=
  ⟨id, record, fun _ => ⟨rfl, rfl⟩, by rwa [v.updateHead_id]⟩

theorem At.stays (h : At Session.Inv v s) : Remains v s :=
  At.remains [] (by simpa using h)

theorem At.leaves {outcome : HistoryCommitOutcome} (hne : outcome.status ≠ .committed)
    (hne' : outcome.status ≠ .noChange) (h : At Session.Inv (v.complete item outcome) s) :
    Leaves item v s :=
  ⟨outcome, [], .of_ne hne hne', by simpa using h⟩

/-- The head was rewritten before it left. -/
theorem Advances.of_updateHead {f : PendingHistoryCommit → PendingHistoryCommit}
    (hf : SameRequest f) (h : Advances item (v.updateHead f) s) : Advances item v s := by
  rcases h with ⟨g, record, hg, h⟩ | ⟨outcome, record, hexplains, h⟩
  · refine .inl ⟨g ∘ f, record, fun i => ?_, ?_⟩
    · exact ⟨(hg _).1.trans (hf i).1, (hg _).2.trans (hf i).2⟩
    · have heq : (v.updateHead f).updateHead g = v.updateHead (g ∘ f) := by
        cases v with
        | mk log queue settled => cases queue <;> rfl
      exact heq ▸ h
  · exact .inr ⟨outcome, record, hexplains, v.complete_updateHead f item outcome ▸ h⟩

theorem updateHead_at {B : Session → Prop} {f : PendingHistoryCommit → PendingHistoryCommit} :
    Triple (At B v) (updateHead f) fun r s => ∃ u, r = .ok u ∧ At B (v.updateHead f) s :=
  .update fun _ h => ⟨(), rfl, h.session, h.view ▸ rfl⟩

/-! ### The task between two waits -/

variable {routeChanged deadline : Bool}

theorem historyCommitScopeIsCurrent_spec :
    Triple (At Session.Inv v) (historyCommitScopeIsCurrent item routeChanged) fun r s =>
      (r = .ok true ∧ At Session.Inv v s) ∨ (r = .ok false ∧ Leaves item v s) := by
  refine .split (fun _ => ?_) fun _ => .read_bind fun generation => .split (fun _ => ?_) fun _ => ?_
  · exact Triple.bind (popHistory_at.seq fun _ => settleHistoryCompletion_at)
      (fun e s h => absurd h (by simp)) fun _ => .pure fun s h => by
        obtain ⟨_, -, h⟩ := h
        exact .inr ⟨rfl, h.leaves (by simp) (by simp)⟩
  · exact Triple.bind ((popHistory_at.pre fun s h => h.1).seq fun _ => settleHistoryCompletion_at)
      (fun e s h => absurd h (by simp)) fun _ => .pure fun s h => by
        obtain ⟨_, -, h⟩ := h
        exact .inr ⟨rfl, h.leaves (by simp) (by simp)⟩
  · exact .pure fun s h => .inl ⟨rfl, h.1⟩

theorem retryHistoryCommit_spec (record : List GuardEvent) :
    Triple (At Session.Inv (v.addAll record)) (retryHistoryCommit deadline)
      fun _ s => Advances item v s :=
  updateHead_at.seq fun _ => .pure fun _ h =>
    .inl ⟨fun item => { item with failures := item.failures + 1 }, record,
      fun _ => ⟨rfl, rfl⟩, h⟩

theorem confirmHistoryScope_spec :
    Triple (At Session.Inv v) (confirmHistoryScope item routeChanged)
      fun _ s => Advances item v s := by
  refine historyCommitScopeIsCurrent_spec.bind (fun e s h => ?_) fun current =>
    .split (fun hcurrent => .pure fun s h => ?_) fun hstale => .pure fun s h => ?_
  · rcases h with ⟨habs, -⟩ | ⟨habs, -⟩ <;> exact absurd habs (by simp)
  · rcases h with ⟨-, h⟩ | ⟨-, h⟩
    · exact .inl h.stays
    · exact .inr h
  · rcases h with ⟨-, h⟩ | ⟨-, h⟩
    · exact .inl h.stays
    · exact .inr h

theorem failHistoryCommit_spec {code : String} {task : LaneTask}
    (hhead : v.queue.head?.map PendingHistoryCommit.id = some item.id) :
    Triple (At Session.Inv v)
      (do
        failHistoryCommit item code none none
        return task)
      fun _ s => Advances item v s :=
  (failHistoryCommit_at hhead).seq fun _ => .pure fun _ h =>
    .inr (h.leaves (by simp) (by simp))

theorem drainHistoryOnce_spec {env : TurnEnv} :
    Triple (At Session.Inv v) (drainHistoryOnce item env deadline)
      fun _ s => Advances item v s := by
  have hprepare : Triple (At Session.Inv v) (prepareHistoryCommit item env deadline)
      fun _ s => Advances item v s := by
    refine .split (fun _ => ?_) fun _ => .split (fun _ => ?_) fun _ => ?_
    · exact (retryHistoryCommit_spec []).pre fun s h => by simpa using h
    · exact .pure fun s h => .inl h.stays
    · refine .choose fun s h => ⟨At (fun τ => τ.Inv ∧ τ = s.session) v, ⟨⟨h.session, rfl⟩, h.view⟩,
        others_idle.seq fun _ => confirmHistoryScope_spec.pre fun t ht => ?_⟩
      exact ⟨ht.session.1, ht.view⟩
  refine .split (fun _ => .pure fun s h => .inl h.stays) fun _ => ?_
  refine historyCommitScopeIsCurrent_spec.bind (fun e s h => ?_) fun current => .choose fun s h => ?_
  · rcases h with ⟨habs, -⟩ | ⟨habs, -⟩ <;> exact absurd habs (by simp)
  · rcases h with ⟨hcurrent, h⟩ | ⟨hstale, h⟩
    · cases hcurrent
      exact ⟨_, h, hprepare⟩
    · cases hstale
      exact ⟨_, h, .pure fun s h => .inr h⟩

theorem reserveHistoryRevisionSequence_spec {end_ : SequenceEnd}
    (hhead : v.queue.head?.map PendingHistoryCommit.id = some item.id) :
    Triple (At Session.Inv v) (reserveHistoryRevisionSequence item end_ routeChanged deadline)
      fun _ s => Advances item v s := by
  cases end_ with
  | reserved sequence cancelled =>
    refine .split (fun _ => failHistoryCommit_spec hhead) fun _ => ?_
    have hsame : SameRequest fun item => { item with revisionSequence := some sequence.toNat } :=
      fun _ => ⟨rfl, rfl⟩
    refine updateHead_at.seq fun _ => .split (fun _ => .raise fun s h => ?_) fun _ => ?_
    · exact .of_updateHead hsame (.inl h.stays)
    · exact confirmHistoryScope_spec.post fun r s h => h.of_updateHead hsame
  | contract errorType => exact failHistoryCommit_spec hhead
  | failed errorType transient =>
    refine .split (fun _ => ?_) fun _ => failHistoryCommit_spec hhead
    exact (retryHistoryCommit_spec []).pre fun s h => by simpa using h

/-- A turn with storage, whether its guard is abandoned or not. -/
theorem commitHistoryOnce_advances {env : HistoryEnv}
    (hhead : v.queue.head?.map PendingHistoryCommit.id = some item.id) :
    Triple (At (fun τ => τ.Inv ∧ τ = σ) v) (commitHistoryOnce item env) fun r s =>
      (∃ record, At Session.Inv (v.addAll record) s) ∨ r ≠ .ok .retry ∧ Leaves item v s := by
  by_cases habandons : Abandons σ item.request env
  · refine (commitHistoryOnce_abandoned hhead habandons).post fun r s h => ?_
    obtain ⟨g, ⟨-, h⟩ | ⟨rfl, outcome, hne, hne', h⟩⟩ := h
    · exact .inl ⟨_, h⟩
    · exact .inr ⟨by simp, outcome, _, .of_ne hne hne', h⟩
  · refine (commitHistoryOnce_spec hhead habandons).post fun r s h => ?_
    rcases h with ⟨-, record, h⟩ | ⟨hr, outcome, record, hexplains, h⟩
    · exact .inl ⟨record, h.session.1, h.view⟩
    · refine .inr ⟨?_, outcome, record, hexplains, h.session.1, h.view⟩
      rcases hr with rfl | ⟨-, rfl⟩ <;> simp

theorem attemptHistoryCommit_spec {env : HistoryEnv}
    (hhead : v.queue.head?.map PendingHistoryCommit.id = some item.id) :
    Triple (At Session.Inv v) (attemptHistoryCommit item env deadline)
      fun _ s => Advances item v s := by
  refine .choose fun s h => ⟨At (fun τ => τ.Inv ∧ τ = s.session) v, ⟨⟨h.session, rfl⟩, h.view⟩,
    (commitHistoryOnce_advances hhead).bind (fun e t ht => ?_) fun stage => .choose fun t ht => ?_⟩
  · rcases ht with ⟨record, ht⟩ | ⟨-, ht⟩
    · exact .inl (ht.remains record)
    · exact .inr ht
  · rcases ht with ⟨record, ht⟩ | ⟨hstage, ht⟩
    · refine ⟨_, ht, ?_⟩
      split
      · exact retryHistoryCommit_spec record
      · exact .pure fun s h => .inl (h.remains record)
    · refine ⟨_, ht, ?_⟩
      cases stage with
      | retry => exact absurd rfl hstage
      | settled => exact .pure fun s h => .inr h
      | ready receipt guard deferredCancel => exact .pure fun s h => .inr h

/-! ### Accounts -/

/-- What was admitted is what was settled, in that order, followed by what waits; and what was
settled as committed, or as without a change, is explained by a part of the log. -/
structure Accounts (v : CommitView) (accepted : List (ℕ × HistoryCommitRequest)) : Prop where
  order : accepted.map Prod.fst = v.settled.map Prod.fst ++ v.queue.map PendingHistoryCommit.id
  pending : ∀ item ∈ v.queue, (item.id, item.request) ∈ accepted
  explained : ∀ p ∈ v.settled, ∃ request, (p.1, request) ∈ accepted ∧
    ∃ before record after, v.log = before ++ record ++ after ∧ Explains request p.2 record

namespace Accounts

theorem addAll (h : Accounts v accepted) (record : List GuardEvent) :
    Accounts (v.addAll record) accepted := by
  refine ⟨h.order, h.pending, fun p hp => ?_⟩
  obtain ⟨request, hmem, before, attempt, after, hlog, hexplains⟩ := h.explained p hp
  refine ⟨request, hmem, before, attempt, after ++ record, ?_, hexplains⟩
  show v.log ++ record = _
  rw [hlog, List.append_assoc _ after]

theorem updateHead {f : PendingHistoryCommit → PendingHistoryCommit} (hf : SameRequest f)
    (h : Accounts v accepted) : Accounts (v.updateHead f) accepted := by
  obtain ⟨log, queue, settled⟩ := v
  cases queue with
  | nil => exact h
  | cons head rest =>
    refine ⟨?_, fun item hitem => ?_, h.explained⟩
    · refine h.order.trans ?_
      simp [CommitView.updateHead, (hf head).1]
    · rcases List.mem_cons.mp hitem with rfl | hitem
      · rw [(hf head).1, (hf head).2]
        exact h.pending head (List.mem_cons_self ..)
      · exact h.pending item (List.mem_cons_of_mem _ hitem)

/-- The head of the queue leaves with an outcome that the events of its attempt explain. -/
theorem leaves {outcome : HistoryCommitOutcome} {record : List GuardEvent}
    (hnodup : (accepted.map Prod.fst).Nodup) (hhead : v.queue.head? = some item)
    (hexplains : Explains item.request outcome record) (h : Accounts v accepted) :
    Accounts ((v.complete item outcome).addAll record) accepted := by
  obtain ⟨log, queue, settled⟩ := v
  obtain ⟨rest, rfl⟩ : ∃ rest, queue = item :: rest := by
    cases queue with
    | nil => exact absurd hhead (by simp)
    | cons head rest => exact ⟨rest, by rw [Option.some.inj hhead]⟩
  have horder : accepted.map Prod.fst =
      settled.map Prod.fst ++ item.id :: rest.map PendingHistoryCommit.id := h.order
  have hfresh : item.id ∉ settled.map Prod.fst := by
    rw [horder] at hnodup
    exact fun hmem => (List.nodup_append.mp hnodup).2.2 _ hmem _ (List.mem_cons_self ..) rfl
  have hcomplete : (CommitView.mk log (item :: rest) settled).complete item outcome =
      ⟨log, rest, settled ++ [(item.id, outcome)]⟩ := if_neg hfresh
  rw [hcomplete]
  refine ⟨?_, fun i hi => h.pending i (List.mem_cons_of_mem _ hi), fun p hp => ?_⟩
  · simpa [CommitView.addAll] using horder
  · rcases List.mem_append.mp hp with hp | hp
    · exact (h.addAll record).explained p hp
    · obtain rfl := List.mem_singleton.mp hp
      exact ⟨item.request, h.pending item (List.mem_cons_self ..), log, record, [],
        by simp [CommitView.addAll], hexplains⟩

theorem advances (hnodup : (accepted.map Prod.fst).Nodup) (hhead : v.queue.head? = some item)
    (h : Accounts v accepted) (hs : Advances item v s) :
    Accounts (CommitView.of s) accepted := by
  rcases hs with ⟨f, record, hf, hs⟩ | ⟨outcome, record, hexplains, hs⟩
  · exact hs.view ▸ (h.updateHead hf).addAll record
  · exact hs.view ▸ h.leaves hnodup hhead hexplains

end Accounts

theorem Advances.inv (h : Advances item v s) : s.session.Inv := by
  rcases h with ⟨_, _, _, h⟩ | ⟨_, _, _, h⟩ <;> exact h.session

theorem Over.inv (h : Over v s) : s.session.Inv := by
  rcases h with h | ⟨_, _, _, h⟩
  · exact h.session
  · exact h.session.1

/-- What is settled stays settled. -/
theorem CommitView.settled_extends_complete (v : CommitView) (item : PendingHistoryCommit)
    (outcome : HistoryCommitOutcome) : v.settled <+: (v.complete item outcome).settled := by
  unfold complete settle
  split
  · exact List.prefix_rfl
  · exact List.prefix_append ..

theorem Advances.settled_extends (h : Advances item v s) : v.settled <+: s.settled := by
  rcases h with ⟨f, record, -, h⟩ | ⟨outcome, record, -, h⟩
  · have hsettled : s.settled = v.settled := congrArg CommitView.settled h.view
    exact hsettled ▸ List.prefix_rfl
  · have hsettled : s.settled = (v.complete item outcome).settled :=
      congrArg CommitView.settled h.view
    exact hsettled ▸ v.settled_extends_complete item outcome

/-! ### The system -/

namespace HistorySystem

variable {key : ChartRefreshKey} {a : HistoryAct} {acts : List HistoryAct} {s t : HistorySystem}

def view (s : HistorySystem) : CommitView := CommitView.of s.commits

structure Inv (s : HistorySystem) : Prop where
  session : s.commits.session.Inv
  accounts : Accounts s.view s.accepted
  numbered : (s.accepted.map Prod.fst ++ s.refused.map Prod.fst).Nodup
  below : ∀ id ∈ s.accepted.map Prod.fst ++ s.refused.map Prod.fst, id < s.nextId
  refused : ∀ p ∈ s.refused, p.2.status = .queueFull

theorem inv_initial : initial.Inv where
  session := Session.inv_initial
  accounts := ⟨rfl, fun _ h => absurd h (by simp [view, CommitView.of, initial,
    ChartCommitLane.empty]), fun _ h => absurd h (by simp [view, CommitView.of, initial])⟩
  numbered := List.nodup_nil
  below := fun _ h => absurd h (by simp [initial])
  refused := fun _ h => absurd h (by simp [initial])

namespace Inv

theorem fresh (h : s.Inv) : s.nextId ∉ s.accepted.map Prod.fst ++ s.refused.map Prod.fst :=
  fun hmem => absurd (h.below _ hmem) (lt_irrefl _)

/-- A step of the task: the rest of the system stays. -/
theorem work {m : CommitM LaneTask} (h : s.Inv) (hhead : s.queue.head? = some item)
    (hm : Triple (At Session.Inv s.view) m fun _ t => Advances item s.view t) :
    (s.work m).Inv := by
  have hadvances := hm s.commits ⟨h.session, rfl⟩
  have hnodup := (List.nodup_append.mp h.numbered).1
  exact ⟨hadvances.inv, h.accounts.advances hnodup hhead hadvances, h.numbered, h.below, h.refused⟩

theorem accept (h : s.Inv) (request : HistoryCommitRequest) : (s.accept request).Inv := by
  have hids : (s.accepted ++ [(s.nextId, request)]).map Prod.fst ++ s.refused.map Prod.fst =
      s.accepted.map Prod.fst ++ s.nextId :: s.refused.map Prod.fst := by simp
  refine ⟨h.session, ⟨?_, fun item hitem => ?_, fun p hp => ?_⟩, ?_, fun id hid => ?_, h.refused⟩
  · have horder := h.accounts.order
    show (s.accepted ++ [(s.nextId, request)]).map Prod.fst = _ ++ (s.queue ++ _).map _
    rw [List.map_append, List.map_append, ← List.append_assoc]
    exact congrArg (· ++ [s.nextId]) horder
  · rcases List.mem_append.mp hitem with hitem | hitem
    · exact List.mem_append_left _ (h.accounts.pending item hitem)
    · obtain rfl := List.mem_singleton.mp hitem
      exact List.mem_append_right _ (List.mem_singleton_self _)
  · obtain ⟨request', hmem, hexplained⟩ := h.accounts.explained p hp
    exact ⟨request', List.mem_append_left _ hmem, hexplained⟩
  · show ((s.accepted ++ [(s.nextId, request)]).map Prod.fst ++ s.refused.map Prod.fst).Nodup
    rw [hids, List.nodup_middle]
    exact List.nodup_cons.mpr ⟨h.fresh, h.numbered⟩
  · replace hid : id ∈ (s.accepted ++ [(s.nextId, request)]).map Prod.fst ++
        s.refused.map Prod.fst := hid
    show id < s.nextId + 1
    rw [hids] at hid
    rcases List.mem_append.mp hid with hid | hid
    · exact Nat.lt_succ_of_lt (h.below id (List.mem_append_left _ hid))
    · rcases List.mem_cons.mp hid with rfl | hid
      · exact Nat.lt_succ_self _
      · exact Nat.lt_succ_of_lt (h.below id (List.mem_append_right _ hid))

theorem refuse (h : s.Inv) : s.refuse.Inv := by
  refine ⟨h.session, h.accounts, ?_, fun id hid => ?_, fun p hp => ?_⟩
  · show (s.accepted.map Prod.fst ++ (s.refused ++ [_]).map Prod.fst).Nodup
    rw [List.map_append, ← List.append_assoc, List.nodup_append]
    refine ⟨h.numbered, List.nodup_singleton _, fun id hid id' hid' => ?_⟩
    obtain rfl := List.mem_singleton.mp hid'
    rintro rfl
    exact h.fresh hid
  · replace hid : id ∈ s.accepted.map Prod.fst ++ (s.refused ++ [_]).map Prod.fst := hid
    show id < s.nextId + 1
    rw [List.map_append, ← List.append_assoc] at hid
    rcases List.mem_append.mp hid with hid | hid
    · exact Nat.lt_succ_of_lt (h.below id hid)
    · obtain rfl := List.mem_singleton.mp hid
      exact Nat.lt_succ_self _
  · rcases List.mem_append.mp hp with hp | hp
    · exact h.refused p hp
    · obtain rfl := List.mem_singleton.mp hp
      rfl

end Inv

theorem head_id (h : s.queue.head? = some item) :
    s.view.queue.head?.map PendingHistoryCommit.id = some item.id :=
  congrArg (Option.map PendingHistoryCommit.id) h

/-- The step lemma. -/
theorem inv_step (s : HistorySystem) (a : HistoryAct) (t : HistorySystem) (h : s.Inv)
    (hstep : Step key s a t) : t.Inv := by
  cases hstep with
  | accept request => exact h.accept request
  | refuse => exact h.refuse
  | turn env item _ hhead => exact h.work hhead drainHistoryOnce_spec
  | reserve end_ routeChanged item _ hhead =>
    exact h.work hhead (reserveHistoryRevisionSequence_spec (head_id hhead))
  | attempt env item _ hhead => exact h.work hhead (attemptHistoryCommit_spec (head_id hhead))
  | live batch sequence env next =>
    have hover := executeLiveCommit_spec key batch sequence env (σ := s.commits.session) (v := s.view) s.commits ⟨⟨h.session, rfl⟩, rfl⟩
    refine ⟨hover.inv, ?_, h.numbered, h.below, h.refused⟩
    show Accounts (CommitView.of ((executeLiveCommit key batch sequence env).exec s.commits).2) _
    rcases hover with hover | ⟨g, events, -, hover⟩
    · rw [hover.view]
      exact h.accounts
    · rw [hover.view]
      exact h.accounts.addAll _
  | foreign a howned =>
    exact ⟨Session.inv_step _ a _ h.session ⟨howned, rfl⟩, h.accounts, h.numbered, h.below,
      h.refused⟩
  | _ => exact ⟨h.session, h.accounts, h.numbered, h.below, h.refused⟩

theorem settled_extends_step (s : HistorySystem) (a : HistoryAct) (t : HistorySystem) (h : s.Inv)
    (hstep : Step key s a t) : s.commits.settled <+: t.commits.settled := by
  have hwork : ∀ item {m}, Triple (At Session.Inv s.view) m (fun _ t => Advances item s.view t) →
      s.commits.settled <+: (s.work m).commits.settled := fun _ _ hm =>
    (hm s.commits ⟨h.session, rfl⟩).settled_extends
  cases hstep with
  | turn env item _ hhead => exact hwork item drainHistoryOnce_spec
  | reserve end_ routeChanged item _ hhead =>
    exact hwork _ (reserveHistoryRevisionSequence_spec (head_id hhead))
  | attempt env item _ hhead => exact hwork _ (attemptHistoryCommit_spec (head_id hhead))
  | live batch sequence env next =>
    have hover := executeLiveCommit_spec key batch sequence env (σ := s.commits.session) (v := s.view) s.commits ⟨⟨h.session, rfl⟩, rfl⟩
    have hsettled : ((executeLiveCommit key batch sequence env).exec s.commits).2.settled =
        s.commits.settled := by
      rcases hover with hover | ⟨g, events, -, hover⟩ <;>
        exact congrArg CommitView.settled hover.view
    exact hsettled ▸ List.prefix_rfl
  | _ => exact List.prefix_rfl

/-! ### Completion -/

/-- The handles of the lane's requests. -/
structure HandlesSettled (s : HistorySystem) : Prop where
  /-- No handle is completed twice. -/
  once : (s.commits.settled.map Prod.fst).Nodup
  /-- The accepted handles are those completed, in order, followed by those that wait. -/
  order : s.accepted.map Prod.fst =
    s.commits.settled.map Prod.fst ++ s.queue.map PendingHistoryCommit.id
  pending_iff : ∀ id ∈ s.accepted.map Prod.fst,
    id ∈ s.queue.map PendingHistoryCommit.id ↔ id ∉ s.commits.settled.map Prod.fst
  /-- A handle that was not accepted was completed at once. -/
  refused : ∀ p ∈ s.refused, p.2.status = .queueFull ∧ p.1 ∉ s.accepted.map Prod.fst
  explained : ∀ p ∈ s.commits.settled, ∃ request, (p.1, request) ∈ s.accepted ∧
    ∃ before record after, s.commits.log = before ++ record ++ after ∧ Explains request p.2 record

theorem Inv.handlesSettled (h : s.Inv) : s.HandlesSettled := by
  obtain ⟨hnodup, -, hdisjoint⟩ := List.nodup_append.mp h.numbered
  have horder : s.accepted.map Prod.fst =
    s.commits.settled.map Prod.fst ++ s.queue.map PendingHistoryCommit.id := h.accounts.order
  obtain ⟨honce, -, hapart⟩ := List.nodup_append.mp (horder ▸ hnodup)
  refine ⟨honce, horder, fun id hid => ⟨fun hqueue hsettled => ?_, fun hsettled => ?_⟩,
    fun p hp => ⟨h.refused p hp, fun hmem => ?_⟩, h.accounts.explained⟩
  · exact hapart id hsettled id hqueue rfl
  · rw [horder] at hid
    exact (List.mem_append.mp hid).resolve_left hsettled
  · exact hdisjoint _ hmem _ (List.mem_map_of_mem hp) rfl

/-- **History handles.** In every state that submissions, the task's turns, cancellations, starts
and shutdowns reach: no handle is completed twice, handles are completed in the order of their
admission, a request waits as long as its handle is not completed, and what a completed handle says
of a commit is what its attempt did. What is completed stays as it is. -/
theorem handles_settle_once (hrun : Run (Step key) initial acts s) :
    s.HandlesSettled ∧
      ∀ acts' t, Run (Step key) s acts' t → s.commits.settled <+: t.commits.settled := by
  have hinv : s.Inv := hrun.invariant inv_step inv_initial
  refine ⟨hinv.handlesSettled, fun acts' t hrun' => ?_⟩
  exact hrun'.relates (R := fun s t => s.commits.settled <+: t.commits.settled) inv_step
    (fun _ => List.prefix_rfl) (fun _ _ _ => List.IsPrefix.trans) settled_extends_step hinv

/-- A request is admitted, its sequence reserved, and its bar stored. -/
theorem handles_settle_once_committed :
    ∃ s, Run (Step spotKey) initial [.start, .submit flatRequest,
        .turn ⟨false, false, false, [], false⟩, .reserve (.reserved 1 false) false,
        .attempt (flatEnv false)] s ∧
      s.commits.settled.map (fun p => (p.1, p.2.status)) = [(0, .committed)] ∧
      s.HandlesSettled := by
  have hstart : Run (Step spotKey) initial [.start] _ := .single (.start rfl rfl)
  have hrun := hstart
    |>.snoc (.accept flatRequest rfl rfl (by decide))
    |>.snoc (.turn ⟨false, false, false, [], false⟩ ⟨0, flatRequest, none, 0⟩ rfl rfl (by decide))
    |>.snoc (.reserve (.reserved 1 false) false ⟨0, flatRequest, none, 0⟩ rfl rfl)
    |>.snoc (.attempt (flatEnv false) ⟨0, flatRequest, some 1, 0⟩ rfl rfl)
  exact ⟨_, hrun, rfl, (handles_settle_once hrun).1⟩

/-- A lane that was shut down: only a start moves its queue. -/
theorem settled_of_stopped (htask : s.task = .done) (haccepting : s.accepting = false)
    (hacts : ∀ a ∈ acts, a ≠ .start) (hrun : Run (Step key) s acts t) :
    t.commits.settled = s.commits.settled := by
  induction hrun with
  | nil => rfl
  | cons hstep _ ih =>
    have hrest := fun a ha => hacts a (List.mem_cons_of_mem _ ha)
    cases hstep with
    | accept _ habs | refuse _ habs => exact absurd (haccepting.symm.trans habs) (by simp)
    | turn _ _ habs | reserve _ _ _ habs | attempt _ _ habs | live _ _ _ _ habs | wake habs
    | finish habs => exact absurd (htask.symm.trans habs) (by simp)
    | cancel habs => rcases habs with habs | habs <;> exact absurd (htask.symm.trans habs) (by simp)
    | shutdown => exact ih htask rfl hrest
    | start => exact absurd rfl (hacts _ (List.mem_cons_self ..))
    | foreign => exact ih htask haccepting hrest

/-- A request is admitted and the runtime is shut down before its turn. Its handle is not completed
as long as the runtime is not started again. -/
theorem handle_left_pending :
    ∃ s, Run (Step spotKey) initial [.start, .submit flatRequest, .shutdown,
        .turn ⟨true, false, false, [], false⟩] s ∧
      0 ∈ s.accepted.map Prod.fst ∧
      ∀ acts t, (∀ a ∈ acts, a ≠ .start) → Run (Step spotKey) s acts t →
        0 ∉ t.commits.settled.map Prod.fst := by
  have hstart : Run (Step spotKey) initial [.start] _ := .single (.start rfl rfl)
  have hrun := hstart
    |>.snoc (.accept flatRequest rfl rfl (by decide))
    |>.snoc .shutdown
    |>.snoc (.turn ⟨true, false, false, [], false⟩ ⟨0, flatRequest, none, 0⟩ rfl rfl fun _ => rfl)
  refine ⟨_, hrun, List.mem_singleton_self _, fun acts t hacts hrun' => ?_⟩
  rw [settled_of_stopped rfl rfl hacts hrun']
  exact List.not_mem_nil

end HistorySystem

end AefTerminal
