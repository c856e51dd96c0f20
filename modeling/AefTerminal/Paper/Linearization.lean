import AefTerminal.Paper.OrderLife

/-!
# Submissions of one command linearize

Clients submit the command `id`, each in several transactions, while others place, cancel and reject
orders, the order of `id` too. The stored row of `id` is the one thing they share, and it evolves: it
keeps its command and is final once it has left `pending`. That carries what a client knows about the
row from one of its transactions to the next.

The transaction that ends a call leaves the row with the status the call answers. An answer other
than "pending" is about a row that never changes again, so it is still right when the call returns;
a "pending" one may be overtaken. Whatever happens in between, a call never goes back: a collision
is met only before the order is known to be the one asked for, and a lost race leaves an order that
is not pending.

## Main definitions

* `PaperExecutionSubmission.Agrees`: the answer describes the stored order
* `Submitter.Sound`: what a call knows about the stored order
* `Submitter.rank`: how much a call has left to do

## Main results

* `Submitter.advance_advanced`: one transaction of a call
* `SubmissionSystem.submissions_linearize`
-/

namespace AefTerminal

open Foundation

/-! ### What an answer says -/

/-- The status of a row is the one an outcome reports. -/
def PaperSubmissionOutcome.Describes (row : OrderRow) : PaperSubmissionOutcome → Prop
  | .pending => row.status = .pending
  | .filled => row.status = .filled
  | .noOp => row.status ≠ .pending
  | .cancelled => row.status = .cancelled ∧ row.document.executionRejection.isSome = false
  | .rejected => row.status = .cancelled ∧ row.document.executionRejection.isSome = true

/-- The answer carries the order as it is stored, and reports its status. -/
structure PaperExecutionSubmission.Agrees (s : PaperExecutionSubmission) (id : String)
    (t : PaperTables) : Prop where
  id_eq : s.order.id = id
  stored : t.orders.get? id = some s.order.row
  outcome : s.outcome.Describes s.order.row

namespace PaperExecutionSubmission

variable {s : PaperExecutionSubmission} {id : String} {t t' : PaperTables} {o : SavedOrder}
  {result : PaperFillResult}

theorem Agrees.settled (h : s.Agrees id t) (hpending : s.outcome ≠ .pending) :
    s.order.row.status ≠ .pending := by
  have hdescribes := h.outcome
  cases houtcome : s.outcome with
  | pending => exact absurd houtcome hpending
  | noOp =>
    rw [houtcome] at hdescribes
    exact hdescribes
  | filled =>
    rw [houtcome] at hdescribes
    rw [show s.order.row.status = .filled from hdescribes]
    decide
  | cancelled =>
    rw [houtcome] at hdescribes
    rw [hdescribes.1]
    decide
  | rejected =>
    rw [houtcome] at hdescribes
    rw [hdescribes.1]
    decide

/-- An answer about a settled order stays right. -/
theorem Agrees.evolves (h : s.Agrees id t) (hpending : s.outcome ≠ .pending)
    (he : Evolves id (t.orders.get? id) (t'.orders.get? id)) : s.Agrees id t' := by
  rw [h.stored] at he
  obtain ⟨row', hrow', hsucceeds⟩ := he.succeeds
  obtain rfl := hsucceeds.settled (h.settled hpending)
  exact ⟨h.id_eq, hrow', h.outcome⟩

theorem agrees_cancelled (hid : o.id = id) (hstored : t.orders.get? id = some o.row)
    (hstatus : o.row.status = .cancelled) : (cancelledSubmission o).Agrees id t := by
  refine ⟨hid, hstored, ?_⟩
  unfold cancelledSubmission
  cases hrejection : o.row.document.executionRejection with
  | none => exact ⟨hstatus, by simp [hrejection]⟩
  | some rejection => exact ⟨hstatus, by simp [hrejection]⟩

theorem agrees_filled (hid : result.order.id = id)
    (hstored : t.orders.get? id = some result.order.row) (hstatus : result.StatusAgrees) :
    (filledSubmission result).Agrees id t := by
  refine ⟨hid, hstored, ?_⟩
  show (committedOutcome result).Describes result.order.row
  unfold PaperFillResult.StatusAgrees at hstatus
  unfold committedOutcome
  cases houtcome : result.outcome with
  | filled =>
    rw [houtcome] at hstatus
    exact hstatus
  | noOp =>
    rw [houtcome] at hstatus
    exact hstatus
  | cancelled =>
    rw [houtcome] at hstatus
    cases hrejection : result.order.row.document.executionRejection with
    | none => exact ⟨hstatus, by simp [hrejection]⟩
    | some rejection => exact ⟨hstatus, by simp [hrejection]⟩

end PaperExecutionSubmission

/-! ### What a call knows -/

/-- What the stored order has to be for a step. -/
def SubmissionStep.Sound (id : String) (t : PaperTables) : SubmissionStep → Prop
  | .replay o => o.id = id ∧ t.orders.get? id = some o.row ∧ o.row.status = .filled
  | .fill o => o.id = id ∧ ∃ row, t.orders.get? id = some row ∧ o.payload = some row.document.payload
  | .conclude s | .returned s => s.outcome ≠ .pending → s.Agrees id t
  | _ => True

/-- What a call knows about the stored order. -/
structure Submitter.Sound (id : String) (t : PaperTables) (c : Submitter) : Prop where
  id_eq : c.request.order.id = id
  /-- A call that was entered again asks for the order that is stored. -/
  admitted : c.entry ≠ .first → ∃ row, t.orders.get? id = some row ∧ row.Admits c.request.order
  /-- After a lost race the order is not pending. -/
  settled : c.entry = .reentered → ∃ row, t.orders.get? id = some row ∧ row.status ≠ .pending
  step : c.step.Sound id t

/-- How many transactions a call has left at most. -/
def Submitter.rank (c : Submitter) : ℕ :=
  match c.step, c.entry with
  | .reserve, .first => 8
  | .readCollided, _ => 7
  | .reserve, .resumed => 6
  | .reject _ _ _, _ => 5
  | .reconcile _, _ => 4
  | .reserve, .reentered => 3
  | .replay _, _ => 2
  | .fill _, _ => 2
  | .conclude _, _ => 1
  | .returned _, _ => 0
  | .raised _, _ => 0

theorem SubmissionStep.Sound.evolves {id : String} {t t' : PaperTables} {step : SubmissionStep}
    (h : step.Sound id t) (he : Evolves id (t.orders.get? id) (t'.orders.get? id)) :
    step.Sound id t' := by
  cases step with
  | reserve => trivial
  | readCollided => trivial
  | reject => trivial
  | reconcile => trivial
  | raised => trivial
  | replay o =>
    obtain ⟨hid, hstored, hstatus⟩ := h
    rw [hstored] at he
    obtain ⟨row', hrow', hsucceeds⟩ := he.succeeds
    obtain rfl := hsucceeds.settled (by rw [hstatus]; decide)
    exact ⟨hid, hrow', hstatus⟩
  | fill o =>
    obtain ⟨hid, row, hstored, hpayload⟩ := h
    rw [hstored] at he
    obtain ⟨row', hrow', hsucceeds⟩ := he.succeeds
    exact ⟨hid, row', hrow', by rw [hpayload, hsucceeds.payload_eq]⟩
  | conclude s => exact fun hpending => (h hpending).evolves hpending he
  | returned s => exact fun hpending => (h hpending).evolves hpending he

namespace Submitter

variable {c c' : Submitter} {t t' : PaperTables} {id : String} {now : Time}

theorem Sound.evolves (h : c.Sound id t)
    (he : Evolves id (t.orders.get? id) (t'.orders.get? id)) : c.Sound id t' := by
  refine ⟨h.id_eq, fun hentry => ?_, fun hentry => ?_, h.step.evolves he⟩
  · obtain ⟨row, hstored, hadmits⟩ := h.admitted hentry
    rw [hstored] at he
    obtain ⟨row', hrow', hsucceeds⟩ := he.succeeds
    exact ⟨row', hrow', hsucceeds.admits hadmits⟩
  · obtain ⟨row, hstored, hsettled⟩ := h.settled hentry
    rw [hstored] at he
    obtain ⟨row', hrow', hsucceeds⟩ := he.succeeds
    obtain rfl := hsucceeds.settled hsettled
    exact ⟨_, hrow', hsettled⟩

theorem Sound.goTo {step : SubmissionStep} (h : c.Sound id t) (hstep : step.Sound id t) :
    (c.goTo step).Sound id t :=
  ⟨h.id_eq, h.admitted, h.settled, hstep⟩

theorem Sound.start {request : PaperSubmissionRequest} (hid : request.order.id = id) :
    (start request).Sound id t :=
  ⟨hid, fun hentry => absurd rfl hentry, nofun, trivial⟩

/-- What one transaction of a call comes to. -/
structure Advanced (id : String) (t : PaperTables) (c c' : Submitter) (t' : PaperTables) : Prop where
  tables : t' = t ∨ ∃ call, t' = t.perform call
  evolves : Evolves id (t.orders.get? id) (t'.orders.get? id)
  sound : c'.Sound id t'
  rank_lt : c'.rank < c.rank
  agrees : ∀ s, c'.step = .conclude s → s.Agrees id t'

/-- A transaction that raises. -/
theorem Sound.raised {e : PaperError} (h : c.Sound id t) (hrank : 0 < c.rank) :
    Advanced id t c (c.goTo (.raised e)) t :=
  ⟨.inl rfl, .refl _ _, h.goTo trivial, hrank, fun _ hs => SubmissionStep.noConfusion hs⟩

/-! ### The transactions -/

variable (now) in
/-- After a reservation a call has little left, and less if the order is settled. -/
theorem reserved_rank {o : SavedOrder} : (c.goTo (c.reserved now o)).rank ≤ 5 ∧
    (o.row.status ≠ .pending → (c.goTo (c.reserved now o)).rank ≤ 2) := by
  unfold reserved
  split_ifs
  · exact ⟨by simp [rank, goTo], fun _ => by simp [rank, goTo]⟩
  · cases hstatus : o.row.status with
    | filled => exact ⟨by simp [rank, goTo], fun _ => by simp [rank, goTo]⟩
    | cancelled => exact ⟨by simp [rank, goTo], fun _ => by simp [rank, goTo]⟩
    | pending =>
      refine ⟨?_, fun hsettled => absurd rfl hsettled⟩
      dsimp only
      unfold resolve
      cases c.request.resolver o (c.resolvedAt now) <;> simp [rank, goTo]

variable (now) in
/-- What a reservation leads to is right about the order it was answered with. -/
theorem reserved_sound {saved : SavedOrder} (hid : saved.id = id)
    (hstored : t.orders.get? id = some saved.row) :
    (c.reserved now saved).Sound id t ∧
      ∀ s, c.reserved now saved = .conclude s → s.Agrees id t := by
  unfold reserved
  split_ifs
  · exact ⟨trivial, fun _ hs => hs.elim⟩
  · cases hstatus : saved.row.status with
    | filled => exact ⟨⟨hid, hstored, hstatus⟩, fun _ hs => SubmissionStep.noConfusion hs⟩
    | cancelled =>
      have hagrees := PaperExecutionSubmission.agrees_cancelled hid hstored hstatus
      refine ⟨fun _ => hagrees, fun s hs => ?_⟩
      cases hs
      exact hagrees
    | pending =>
      dsimp only
      unfold resolve
      have hagrees : ∀ code message, PaperExecutionSubmission.Agrees
          ⟨.pending, false, saved, none, code, message⟩ id t :=
        fun _ _ => ⟨hid, hstored, hstatus⟩
      cases c.request.resolver saved (c.resolvedAt now) with
      | pending code message =>
        refine ⟨fun _ => hagrees _ _, fun s hs => ?_⟩
        cases hs
        exact hagrees _ _
      | priceUnavailable code message =>
        refine ⟨fun _ => hagrees _ _, fun s hs => ?_⟩
        cases hs
        exact hagrees _ _
      | rejected code message => exact ⟨trivial, fun _ hs => SubmissionStep.noConfusion hs⟩
      | filled fillPrice stopLoss target => 
        exact ⟨⟨hid, saved.row, hstored, rfl⟩, fun _ hs => SubmissionStep.noConfusion hs⟩

variable (now) in
theorem advanceReserve_advanced (h : c.Sound id t) (hstep : c.step = .reserve) :
    Advanced id t c (c.advanceReserve t now).1 (c.advanceReserve t now).2 := by
  unfold advanceReserve
  cases hupsert : upsertPaperOrder t c.request.order now with
  | error e =>
    dsimp only
    split_ifs with hcollides
    · -- an order that is known to be admitted does not collide
      have hfirst : c.entry = .first := by
        by_contra hentry
        obtain ⟨row, hstored, hadmits⟩ := h.admitted hentry
        rw [← h.id_eq] at hstored
        rw [hcollides.1] at hupsert
        exact upsertPaperOrder_avoids hstored hadmits hupsert
      have hrank : (c.goTo .readCollided).rank < c.rank := by simp [rank, goTo, hstep, hfirst]
      exact ⟨.inl rfl, .refl _ _, h.goTo trivial, hrank, fun _ hs => SubmissionStep.noConfusion hs⟩
    · refine h.raised ?_
      cases hentry : c.entry <;> simp [rank, hstep, hentry]
  | ok r =>
    obtain ⟨saved, t'⟩ := r
    obtain ⟨hid, hstored, hadmits⟩ := upsertPaperOrder_result hupsert
    rw [h.id_eq] at hid hstored
    have hperform : t' = t.perform (.upsert c.request.order now) := by
      show t' = t.commit (upsertPaperOrder t c.request.order now)
      rw [hupsert]
      rfl
    have hevolves : Evolves id (t.orders.get? id) (t'.orders.get? id) :=
      hperform ▸ perform_evolves trivial
    obtain ⟨hsound, hagrees⟩ := reserved_sound (c := c) now hid hstored
    obtain ⟨hrank, hrankSettled⟩ := reserved_rank (c := c) now (o := saved)
    refine ⟨.inr ⟨_, hperform⟩, hevolves, (h.evolves hevolves).goTo hsound, ?_, hagrees⟩
    dsimp only
    cases hentry : c.entry with
    | first =>
      have hcurrent : c.rank = 8 := by simp [rank, hstep, hentry]
      omega
    | resumed =>
      have hcurrent : c.rank = 6 := by simp [rank, hstep, hentry]
      omega
    | reentered =>
      have hcurrent : c.rank = 3 := by simp [rank, hstep, hentry]
      obtain ⟨row, hrow, hsettled⟩ := (h.evolves hevolves).settled hentry
      cases (hrow.symm.trans hstored)
      have hleft := hrankSettled hsettled
      omega

theorem readPaperOrder_some {instrumentId routeFingerprint : String} {saved : SavedOrder}
    (h : readPaperOrder t id instrumentId routeFingerprint = .ok (some saved)) :
    t.orders.get? id = some saved.row := by
  unfold readPaperOrder at h
  split at h
  · cases h
  · rename_i row hrow
    split at h
    · obtain ⟨s, hs, heq⟩ := map_eq_ok.mp h
      cases heq
      obtain ⟨rfl, -⟩ := paperOrderFromRow_eq_ok.mp hs
      exact hrow
    · cases h

theorem advanceReadCollided_advanced (h : c.Sound id t) (hstep : c.step = .readCollided)
    (hresumable : ∀ row, t.orders.get? id = some row → row.Resumable id) :
    Advanced id t c (c.advanceReadCollided t) t := by
  have hcurrent : c.rank = 7 := by simp [rank, hstep]
  have hraised : ∀ e, Advanced id t c (c.goTo (.raised e)) t := fun e => h.raised (by omega)
  unfold advanceReadCollided
  dsimp only
  split
  · exact hraised _
  · exact hraised _
  · rename_i collided hread
    rw [h.id_eq] at hread
    have hstored := readPaperOrder_some hread
    have hrow := hresumable _ hstored
    split_ifs
    · refine ⟨.inl rfl, .refl _ _, ⟨hrow.id_eq, fun _ => ⟨_, hstored, hrow.admits⟩,
        fun hentry => SubmissionEntry.noConfusion hentry, trivial⟩, ?_,
        fun _ hs => SubmissionStep.noConfusion hs⟩
      rw [hcurrent]
      simp [rank]
    · exact hraised _

variable (now) in
theorem advanceReplay_advanced {o : SavedOrder} (h : c.Sound id t) (hstep : c.step = .replay o) :
    Advanced id t c (c.advanceReplay t now o).1 (c.advanceReplay t now o).2 := by
  have hcurrent : c.rank = 2 := by simp [rank, hstep]
  have hknown := h.step
  rw [hstep] at hknown
  obtain ⟨rfl, hstored, hstatus⟩ := hknown
  unfold advanceReplay
  cases happly : applyFilledPaperOrder t o.toOrder now with
  | error e => exact h.raised (by omega)
  | ok r =>
    obtain ⟨result, t'⟩ := r
    obtain ⟨hid, hresult, hagrees⟩ := applyFilledPaperOrder_result happly
    obtain ⟨f, hf, -⟩ := bind_eq_ok.mp happly
    obtain ⟨horder, hmade⟩ := paperFillCommand_made hf
    have hforder : f.orderId = o.id := by rw [hmade.orderId_eq, horder]; rfl
    obtain ⟨hsame, hnoOp⟩ := perform_of_not_pending hf (hforder ▸ hstored) (by rw [hstatus]; decide)
    have ht' : t' = t := by
      rw [← hsame]
      show t' = t.commit (applyFilledPaperOrder t o.toOrder now)
      rw [happly]
      rfl
    subst ht'
    have houtcome := hnoOp result _ happly
    have hanswer : (replayedSubmission .noOp result).Agrees o.id t' := by
      refine ⟨hid, hresult, ?_⟩
      unfold PaperFillResult.StatusAgrees at hagrees
      rw [houtcome] at hagrees
      exact hagrees
    dsimp only
    rw [houtcome]
    refine ⟨.inl rfl, .refl _ _, h.goTo fun _ => hanswer, ?_, fun s hs => ?_⟩
    · rw [hcurrent]
      simp [rank, goTo]
    · cases hs
      exact hanswer

variable (now) in
theorem advanceReject_advanced {resolvedAt : Time} {code message : String} (h : c.Sound id t)
    (hstep : c.step = .reject resolvedAt code message) :
    Advanced id t c (c.advanceReject t now resolvedAt code message).1
      (c.advanceReject t now resolvedAt code message).2 := by
  have hcurrent : c.rank = 5 := by simp [rank, hstep]
  unfold advanceReject
  cases hreject : rejectPaperOrderExecutionIfPending t c.request.order.id (some resolvedAt) c.filter
      code message now with
  | error e => exact h.raised (by omega)
  | ok r =>
    obtain ⟨saved, t'⟩ := r
    have hperform : t' = t.perform (.reject c.request.order.id (some resolvedAt) c.filter code
        message now) := by
      show t' = t.commit (rejectPaperOrderExecutionIfPending t c.request.order.id (some resolvedAt)
        c.filter code message now)
      rw [hreject]
      rfl
    have hevolves : Evolves id (t.orders.get? id) (t'.orders.get? id) :=
      hperform ▸ perform_evolves trivial
    cases saved with
    | none =>
      refine ⟨.inr ⟨_, hperform⟩, hevolves, (h.evolves hevolves).goTo trivial, ?_,
        fun _ hs => SubmissionStep.noConfusion hs⟩
      rw [hcurrent]
      simp [rank, goTo]
    | some cancelled =>
      rw [h.id_eq] at hreject
      obtain ⟨hid, hstored, hstatus, hrejection⟩ :=
        rejectPaperOrderExecutionIfPending_result hreject
      have hanswer : PaperExecutionSubmission.Agrees
          ⟨.rejected, false, cancelled, none, code, message⟩ id t' :=
        ⟨hid, hstored, hstatus, hrejection⟩
      refine ⟨.inr ⟨_, hperform⟩, hevolves, (h.evolves hevolves).goTo fun _ => hanswer, ?_,
        fun s hs => ?_⟩
      · rw [hcurrent]
        simp [rank, goTo]
      · cases hs
        exact hanswer

variable (now) in
theorem advanceReconcile_advanced {resolvedAt : Time} (h : c.Sound id t)
    (hstep : c.step = .reconcile resolvedAt) :
    Advanced id t c (c.advanceReconcile t now resolvedAt).1
      (c.advanceReconcile t now resolvedAt).2 := by
  have hcurrent : c.rank = 4 := by simp [rank, hstep]
  unfold advanceReconcile
  cases hupsert : upsertPaperOrder t c.request.order now with
  | error e => exact h.raised (by omega)
  | ok r =>
    obtain ⟨saved, t'⟩ := r
    obtain ⟨-, hstored, hadmits⟩ := upsertPaperOrder_result hupsert
    rw [h.id_eq] at hstored
    have hperform : t' = t.perform (.upsert c.request.order now) := by
      show t' = t.commit (upsertPaperOrder t c.request.order now)
      rw [hupsert]
      rfl
    have hevolves : Evolves id (t.orders.get? id) (t'.orders.get? id) :=
      hperform ▸ perform_evolves trivial
    dsimp only
    split_ifs with hpending
    · refine ⟨.inr ⟨_, hperform⟩, hevolves, (h.evolves hevolves).goTo trivial, ?_,
        fun _ hs => SubmissionStep.noConfusion hs⟩
      rw [hcurrent]
      simp [rank, goTo]
    · refine ⟨.inr ⟨_, hperform⟩, hevolves, ⟨h.id_eq, fun _ => ⟨_, hstored, hadmits⟩,
        fun _ => ⟨_, hstored, hpending⟩, trivial⟩, ?_, fun _ hs => SubmissionStep.noConfusion hs⟩
      rw [hcurrent]
      simp [rank]

variable (now) in
theorem advanceFill_advanced {o : PaperOrder} (h : c.Sound id t) (hstep : c.step = .fill o) :
    Advanced id t c (c.advanceFill t now o).1 (c.advanceFill t now o).2 := by
  have hcurrent : c.rank = 2 := by simp [rank, hstep]
  have hknown := h.step
  rw [hstep] at hknown
  obtain ⟨rfl, row, hstored, hpayload⟩ := hknown
  unfold advanceFill
  cases happly : applyFilledPaperOrder t o now with
  | error e => exact h.raised (by omega)
  | ok r =>
    obtain ⟨result, t'⟩ := r
    obtain ⟨hid, hresult, hagrees⟩ := applyFilledPaperOrder_result happly
    have hperform : t' = t.perform (.apply o now) := by
      show t' = t.commit (applyFilledPaperOrder t o now)
      rw [happly]
      rfl
    have hevolves : Evolves o.id (t.orders.get? o.id) (t'.orders.get? o.id) := by
      obtain ⟨f, hf, happlied⟩ := bind_eq_ok.mp happly
      obtain ⟨horder, hmade⟩ := paperFillCommand_made hf
      have hforder : f.orderId = o.id := by rw [hmade.orderId_eq, horder]
      -- the application carries the payload that is stored
      have hprotection : f.protectionPayload = row.document.payload := by
        obtain ⟨hsome, -⟩ := PaperOrder.protection_eq_ok.mp hmade.protection
        rw [horder, hpayload] at hsome
        exact (Option.some.inj hsome).symm
      have happlied := (applyPaperFillWithCursor_applied happlied).1
      rw [← hforder] at hstored ⊢
      exact happlied.evolves_self hmade hstored hprotection
    have hanswer := PaperExecutionSubmission.agrees_filled hid hresult hagrees
    refine ⟨.inr ⟨_, hperform⟩, hevolves, (h.evolves hevolves).goTo fun _ => hanswer, ?_,
      fun s hs => ?_⟩
    · rw [hcurrent]
      simp [rank, goTo]
    · cases hs
      exact hanswer

/-- **One transaction** of a call keeps what the call knows, brings it nearer to its end, and
answers with what is stored. -/
theorem advance_advanced (h : c.Sound id t)
    (hresumable : ∀ row, t.orders.get? id = some row → row.Resumable id)
    (hadvance : c.advance t now = some (c', t')) : Advanced id t c c' t' := by
  unfold advance at hadvance
  cases hstep : c.step with
  | reserve =>
    rw [hstep] at hadvance
    have hreserve := advanceReserve_advanced now h hstep
    rw [Option.some.inj hadvance] at hreserve
    exact hreserve
  | readCollided =>
    rw [hstep] at hadvance
    cases (Option.some.inj hadvance)
    exact advanceReadCollided_advanced h hstep hresumable
  | replay o =>
    rw [hstep] at hadvance
    have hreplay := advanceReplay_advanced now h hstep
    rw [Option.some.inj hadvance] at hreplay
    exact hreplay
  | reject resolvedAt code message =>
    rw [hstep] at hadvance
    have hreject := advanceReject_advanced now h hstep
    rw [Option.some.inj hadvance] at hreject
    exact hreject
  | reconcile resolvedAt =>
    rw [hstep] at hadvance
    have hreconcile := advanceReconcile_advanced now h hstep
    rw [Option.some.inj hadvance] at hreconcile
    exact hreconcile
  | fill o =>
    rw [hstep] at hadvance
    have hfill := advanceFill_advanced now h hstep
    rw [Option.some.inj hadvance] at hfill
    exact hfill
  | conclude s =>
    rw [hstep] at hadvance
    cases (Option.some.inj hadvance)
    have hknown := h.step
    rw [hstep] at hknown
    refine ⟨.inl rfl, .refl _ _, h.goTo hknown, ?_, fun _ hs => SubmissionStep.noConfusion hs⟩
    simp [rank, goTo, hstep]
  | returned s =>
    rw [hstep] at hadvance
    cases hadvance
  | raised e =>
    rw [hstep] at hadvance
    cases hadvance

theorem rank_pos (h : c.ended = false) : 0 < c.rank := by
  cases hstep : c.step with
  | reserve => cases hentry : c.entry <;> simp [rank, hstep, hentry]
  | returned s => simp [ended, hstep] at h
  | raised e => simp [ended, hstep] at h
  | _ => simp [rank, hstep]

variable (now) in
/-- A call that has not ended can go on. -/
theorem isSome_advance (h : c.ended = false) : (c.advance t now).isSome := by
  unfold advance
  unfold ended at h
  cases hstep : c.step with
  | returned s =>
    rw [hstep] at h
    cases h
  | raised e =>
    rw [hstep] at h
    cases h
  | _ => rfl

end Submitter

/-! ### Interleavings -/

namespace SubmissionSystem

variable {s s' : SubmissionSystem} {a : Act} {id : String}

/-- Everything an act can do. -/
inductive Stepped (s : SubmissionSystem) : Act → SubmissionSystem → Prop
  | submit {c : ℕ} {request : PaperSubmissionRequest} (hnew : s.submitters.get? c = none) :
      Stepped s (.submit c request)
        { s with submitters := s.submitters.insert c (.start request) }
  | advance {c : ℕ} {now : Time} {sub sub' : Submitter} {t : PaperTables}
      (hsub : s.submitters.get? c = some sub) (hadvance : sub.advance s.tables now = some (sub', t)) :
      Stepped s (.advance c now) ⟨t, s.submitters.insert c sub'⟩
  | fail {c : ℕ} {e : PaperError} {sub : Submitter} (hsub : s.submitters.get? c = some sub)
      (hactive : sub.ended = false) :
      Stepped s (.fail c e)
        { s with submitters := s.submitters.insert c (sub.goTo (.raised e)) }
  | outside {call : PaperAct} :
      Stepped s (.outside call) { s with tables := s.tables.perform call }

theorem step_cases (h : s.step a = some s') : Stepped s a s' := by
  cases a with
  | submit c request =>
    simp only [step] at h
    split at h
    · cases h
    · rename_i hnew
      cases h
      exact .submit hnew
  | advance c now =>
    simp only [step] at h
    split at h
    · cases h
    · rename_i sub hsub
      obtain ⟨⟨sub', t⟩, hadvance, rfl⟩ := Option.map_eq_some_iff.mp h
      exact .advance hsub hadvance
  | fail c e =>
    simp only [step] at h
    split at h
    · cases h
    · rename_i sub hsub
      split at h
      · cases h
      · rename_i hactive
        cases h
        exact .fail hsub (Bool.eq_false_of_not_eq_true hactive)
  | outside call =>
    cases h
    exact .outside

/-- The invariant of an interleaving. -/
structure Sound (id : String) (s : SubmissionSystem) : Prop where
  once : FilledOnce s.tables
  resumable : ∀ row, s.tables.orders.get? id = some row → row.Resumable id
  submitters : ∀ c sub, s.submitters.get? c = some sub → sub.Sound id s.tables

namespace Sound

/-- New tables and a new state of one call. -/
theorem update {t : PaperTables} {submitters : Dict ℕ Submitter} (h : s.Sound id)
    (honce : FilledOnce t) (he : Evolves id (s.tables.orders.get? id) (t.orders.get? id))
    (hsubmitters : ∀ c sub, submitters.get? c = some sub →
      s.submitters.get? c = some sub ∨ sub.Sound id t) : Sound id ⟨t, submitters⟩ := by
  refine ⟨honce, he.resumable h.resumable, fun c sub hsub => ?_⟩
  rcases hsubmitters c sub hsub with hold | hnew
  · exact (h.submitters c sub hold).evolves he
  · exact hnew

theorem of_insert {c : ℕ} {sub : Submitter} {t : PaperTables} (hsub : sub.Sound id t) (c' : ℕ)
    (sub' : Submitter) (h : (s.submitters.insert c sub).get? c' = some sub') :
    s.submitters.get? c' = some sub' ∨ sub'.Sound id t := by
  by_cases hc : c' = c
  · subst hc
    rw [Dict.get?_insert_self] at h
    cases h
    exact .inr hsub
  · rw [Dict.get?_insert_of_ne _ hc] at h
    exact .inl h

theorem performed {call : PaperAct} {t : PaperTables} (h : FilledOnce t) :
    FilledOnce (t.perform call) := h.step rfl

theorem step (h : s.Sound id) (hstep : Step id s a s') : s'.Sound id := by
  obtain ⟨hconcerns, hstep⟩ := hstep
  cases step_cases hstep with
  | submit hnew =>
    exact h.update h.once (.refl _ _) (of_insert (.start hconcerns))
  | @advance c now sub sub' t hsub hadvance =>
    have hadvanced := Submitter.advance_advanced (h.submitters c sub hsub) h.resumable hadvance
    refine h.update ?_ hadvanced.evolves (of_insert hadvanced.sound)
    rcases hadvanced.tables with rfl | ⟨call, rfl⟩
    · exact h.once
    · exact performed h.once
  | fail hsub hactive =>
    exact h.update h.once (.refl _ _) (of_insert ((h.submitters _ _ hsub).goTo trivial))
  | outside => exact h.update (performed h.once) (perform_evolves hconcerns) fun _ _ => .inl

theorem initial {t : PaperTables} (honce : FilledOnce t) (hnew : t.orders.get? id = none) :
    Sound id ⟨t, .empty⟩ := by
  refine ⟨honce, fun row hrow => ?_, fun c sub hsub => ?_⟩
  · rw [hnew] at hrow
    cases hrow
  · cases hsub

end Sound

/-! ### How long a call runs -/

/-- An act of call `c`. -/
def Act.isOf (c : ℕ) : Act → Bool
  | .submit c' _ => c' = c
  | .advance c' _ => c' = c
  | .fail c' _ => c' = c
  | .outside _ => false

/-- What call `c` has left, with its start. -/
def left (s : SubmissionSystem) (c : ℕ) : ℕ :=
  match s.submitters.get? c with
  | none => 9
  | some sub => sub.rank

theorem left_insert_of_ne {c c' : ℕ} {sub : Submitter} {t : PaperTables} (h : c ≠ c') :
    left ⟨t, s.submitters.insert c' sub⟩ c = left s c := by
  unfold left
  rw [Dict.get?_insert_of_ne _ h]

theorem left_insert_self {c : ℕ} {sub : Submitter} {t : PaperTables} :
    left ⟨t, s.submitters.insert c sub⟩ c = sub.rank := by
  unfold left
  rw [Dict.get?_insert_self]

theorem left_step (h : s.Sound id) (hstep : Step id s a s') (c : ℕ) :
    (if a.isOf c then 1 else 0) + s'.left c ≤ s.left c := by
  obtain ⟨-, hstep⟩ := hstep
  have hchange : ∀ (c' : ℕ) (sub : Submitter) (t : PaperTables),
      (c' = c → sub.rank < s.left c) →
      (if decide (c' = c) then 1 else 0) + left ⟨t, s.submitters.insert c' sub⟩ c ≤ s.left c := by
    intro c' sub t hrank
    by_cases hc : c' = c
    · subst hc
      rw [left_insert_self]
      simp only [decide_true, if_true]
      have := hrank rfl
      omega
    · rw [left_insert_of_ne (Ne.symm hc)]
      simp [hc]
  cases step_cases hstep with
  | @submit c' request hnew =>
    refine hchange c' _ s.tables ?_
    rintro rfl
    unfold left
    rw [hnew]
    show (8 : ℕ) < 9
    omega
  | @advance c' now sub sub' t hsub hadvance =>
    refine hchange c' sub' t ?_
    rintro rfl
    have hadvanced := Submitter.advance_advanced (h.submitters c' sub hsub) h.resumable hadvance
    unfold left
    rw [hsub]
    exact hadvanced.rank_lt
  | @fail c' e sub hsub hactive =>
    refine hchange c' _ s.tables ?_
    rintro rfl
    unfold left
    rw [hsub]
    exact Submitter.rank_pos hactive
  | outside => simp [Act.isOf, left]

/-- **A call ends** after a bounded number of transactions. -/
theorem left_run {as : List Act} (h : s.Sound id) (hrun : Run (Step id) s as s') (c : ℕ) :
    as.countP (Act.isOf c) + s'.left c ≤ s.left c := by
  induction hrun with
  | nil => simp
  | @cons s t u a as hstep _ ih =>
    have hhead := left_step h hstep c
    have htail := ih (h.step hstep)
    rw [List.countP_cons]
    omega

/-! ### Linearization -/

/-- **Submissions of one command linearize.** In any interleaving with calls that leave the facts of
the order to its submitters, the order has at most one fill; the transaction that ends a submission
leaves the order as it is answered; an answer other than "pending" is right from then on; and a
submission takes at most nine acts and can always go on until it has ended. -/
theorem submissions_linearize {calls : List PaperAct} {t : PaperTables} {as : List Act}
    (hjournal : Run PaperStep .empty calls t) (hnew : t.orders.get? id = none)
    (hrun : Run (Step id) ⟨t, .empty⟩ as s) :
    (s.tables.fillsOf id).length ≤ 1 ∧
      (∀ c now s' sub answer, Step id s (.advance c now) s' → s'.submitters.get? c = some sub →
        sub.step = .conclude answer → answer.Agrees id s'.tables) ∧
      (∀ c sub answer, s.submitters.get? c = some sub →
        sub.step = .conclude answer ∨ sub.step = .returned answer → answer.outcome ≠ .pending →
        answer.Agrees id s.tables) ∧
      (∀ c, as.countP (Act.isOf c) ≤ 9) ∧
      ∀ c sub now, s.submitters.get? c = some sub → sub.ended = false →
        ∃ s', Step id s (.advance c now) s' := by
  have honce : FilledOnce t := hjournal.invariant (fun _ _ _ hinv hstep => hinv.step hstep) .empty
  have hinitial : Sound id ⟨t, .empty⟩ := .initial honce hnew
  have hs : Sound id s := hrun.invariant (fun _ _ _ hinv hstep => hinv.step hstep) hinitial
  refine ⟨hs.once.once id, fun c now s' sub answer hstep hsub hconclude => ?_,
    fun c sub answer hsub hanswer hpending => ?_, fun c => ?_, fun c sub now hsub hactive => ?_⟩
  · obtain ⟨-, hstep⟩ := hstep
    cases step_cases hstep with
    | @advance _ _ old new t' hold hadvance =>
      have hadvanced := Submitter.advance_advanced (hs.submitters c old hold) hs.resumable hadvance
      rw [Dict.get?_insert_self] at hsub
      cases hsub
      exact hadvanced.agrees answer hconclude
  · have hstep := (hs.submitters c sub hsub).step
    rcases hanswer with hanswer | hanswer
    · rw [hanswer] at hstep
      exact hstep hpending
    · rw [hanswer] at hstep
      exact hstep hpending
  · have hleft : left ⟨t, .empty⟩ c = 9 := rfl
    have hrun := left_run hinitial hrun c
    omega
  · obtain ⟨r, hr⟩ := Option.isSome_iff_exists.mp
      (Submitter.isSome_advance (t := s.tables) now hactive)
    refine ⟨⟨r.2, s.submitters.insert c r.1⟩, trivial, ?_⟩
    show s.step _ = _
    simp only [SubmissionSystem.step, hsub, hr, Option.map_some]

/-! ### A submission that is overtaken -/

/-- Two clients submit one order; the price has reached its level for the second one only. -/
def waitingRequest : PaperSubmissionRequest :=
  ⟨entryOrder "a" .long 1 100, fun _ _ => .pending "PAPER_LIMIT_NOT_REACHED" "limit not reached",
    none, some 2⟩

def fillingRequest : PaperSubmissionRequest :=
  ⟨entryOrder "a" .long 1 100, fun _ _ => .filled 100 none none, none, some 3⟩

def overtakenActs : List Act :=
  [.submit 0 waitingRequest, .submit 1 fillingRequest, .advance 0 2, .advance 1 3, .advance 1 3,
    .advance 1 3, .advance 0 4]

/-- The outcome a call has returned. -/
def returnedOutcome (s : SubmissionSystem) (c : ℕ) : Option PaperSubmissionOutcome :=
  match s.submitters.get? c with
  | some ⟨_, _, .returned answer⟩ => some answer.outcome
  | _ => none

theorem run_of_foldlM {as : List Act} (h : as.foldlM step s = some s')
    (hconcerns : ∀ a ∈ as, Concerns id a) : Run (Step id) s as s' :=
  (Run.of_foldlM h).guard hconcerns

theorem concerns_overtakenActs : ∀ a ∈ overtakenActs, Concerns "a" a := by
  simp [overtakenActs, Concerns, waitingRequest, fillingRequest, entryOrder]

/-- A submission answers "pending" for an order that was filled since it looked. -/
theorem pending_answer_overtaken : ∃ s sub answer, Run (Step "a") ⟨.empty, .empty⟩ overtakenActs s ∧
    s.submitters.get? 0 = some sub ∧ sub.step = .returned answer ∧
      answer.outcome = .pending ∧ (s.tables.orders.get? "a").map OrderRow.status = some .filled ∧
      ¬ answer.Agrees "a" s.tables := by
  have hfinal : (overtakenActs.foldlM step ⟨.empty, .empty⟩).bind (fun s =>
      if (s.tables.orders.get? "a").map OrderRow.status = some .filled then s.returnedOutcome 0
      else none) = some .pending := by decide +kernel
  obtain ⟨s, hfold, hfinal⟩ := Option.bind_eq_some_iff.mp hfinal
  split at hfinal
  · rename_i hfilled
    unfold returnedOutcome at hfinal
    split at hfinal
    · rename_i request entry answer hsub
      have houtcome : answer.outcome = .pending := Option.some.inj hfinal
      refine ⟨s, _, answer, run_of_foldlM hfold concerns_overtakenActs, hsub, rfl, houtcome, hfilled,
        fun hagrees => ?_⟩
      have hpending := hagrees.outcome
      rw [houtcome] at hpending
      rw [hagrees.stored] at hfilled
      have hstatus : answer.order.row.status = .filled := Option.some.inj hfilled
      rw [show answer.order.row.status = .pending from hpending] at hstatus
      cases hstatus
    · cases hfinal
  · cases hfinal

/-- The fill of the client that overtook the other one is right when it returns. -/
theorem submissions_linearize_overtaken : ∃ (s : SubmissionSystem)
    (answer : PaperExecutionSubmission), Run (Step "a") ⟨.empty, .empty⟩ overtakenActs s ∧ answer.outcome = .filled ∧
      answer.Agrees "a" s.tables ∧ (s.tables.fillsOf "a").length ≤ 1 := by
  have hfinal : (overtakenActs.foldlM step ⟨.empty, .empty⟩).bind (fun s => s.returnedOutcome 1) =
      some .filled := by decide +kernel
  obtain ⟨s, hfold, hfinal⟩ := Option.bind_eq_some_iff.mp hfinal
  have hrun := run_of_foldlM hfold concerns_overtakenActs
  have hlinearize := submissions_linearize (s := s) (.nil _) rfl hrun
  unfold returnedOutcome at hfinal
  split at hfinal
  · rename_i request entry answer hsub
    have houtcome : answer.outcome = .filled := Option.some.inj hfinal
    exact ⟨s, answer, hrun, houtcome,
      hlinearize.2.2.1 1 _ answer hsub (.inr rfl) (by rw [houtcome]; decide), hlinearize.1⟩
  · cases hfinal

end SubmissionSystem

end AefTerminal
