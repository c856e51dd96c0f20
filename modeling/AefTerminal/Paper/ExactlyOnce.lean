import AefTerminal.Paper.Repository

/-!
# Exactly-once fills

An order id is filled at most once, and is filled exactly when its stored status says so. The
status is what a replay is answered from: an order leaves `pending` in the transaction that writes
its fill, and a row that left `pending` is never written again.

No condition is put on a run. An application answers from the tables or goes on only with an order
that is new or pending and agrees with what is stored, so everything else leaves the tables alone.

## Main definitions

* `Refused`: what an application of a known order is refused for
* `PaperTables.fillsOf`, `FilledOnce`

## Main results

* `perform_of_not_pending`: an order that is not pending is not filled
* `FilledOnce.step`: every call keeps fills and statuses in step
* `exactly_once`
-/

namespace AefTerminal

open Foundation

/-- The fill rows of an order id. -/
def PaperTables.fillsOf (t : PaperTables) (orderId : String) : List FillRow :=
  t.fills.filter fun r => r.orderId = orderId

/-- Fill rows and filled orders correspond. -/
structure FilledOnce (t : PaperTables) : Prop where
  once : ∀ id, (t.fillsOf id).length ≤ 1
  /-- The order of a fill is filled, in the scope of the fill. -/
  order : ∀ r ∈ t.fills, ∃ row, t.orders.get? r.orderId = some row ∧ row.status = .filled ∧
    row.document.identity.scope = r.identity.scope
  /-- The position of a fill is in the scope of the fill. -/
  position : ∀ r ∈ t.fills, ∃ row, t.positions.get? r.positionId = some row ∧
    row.document.identity.scope = r.identity.scope
  filled : ∀ id row, t.orders.get? id = some row → row.status = .filled → t.fillsOf id ≠ []

/-! ### Admission of a known order -/

/-- What an application of a known order is refused for, with what it raises. -/
inductive Refused (row : OrderRow) (f : PaperFillCommand) : String → Prop
  | route (h : ¬ (row.document.identity.instrumentId = f.command.instrumentId ∧
      row.document.identity.routeFingerprint = f.command.routeFingerprint)) :
      Refused row f "PAPER_ORDER_ID_ROUTE_COLLISION"
  | createCommand (hroute : row.document.identity.instrumentId = f.command.instrumentId ∧
      row.document.identity.routeFingerprint = f.command.routeFingerprint)
      (h : row.document.createCommand ≠ f.createCommand) :
      Refused row f "PAPER_ORDER_ID_COMMAND_COLLISION"
  | command (hroute : row.document.identity.instrumentId = f.command.instrumentId ∧
      row.document.identity.routeFingerprint = f.command.routeFingerprint)
      (hcreate : row.document.createCommand = f.createCommand)
      (hstatus : row.status ≠ .filled ∧ ¬ (row.status = .cancelled ∧ f.manualClose))
      (h : ¬ (row.document.executionCommand = f.command ∨
        (row.status = .pending ∧ paperFillDistanceExecutionUpdateAllowed row.document f))) :
      Refused row f "PAPER_ORDER_ID_COMMAND_COLLISION"
  | status (hroute : row.document.identity.instrumentId = f.command.instrumentId ∧
      row.document.identity.routeFingerprint = f.command.routeFingerprint)
      (hcreate : row.document.createCommand = f.createCommand)
      (hstatus : row.status ≠ .filled ∧ ¬ (row.status = .cancelled ∧ f.manualClose))
      (hcommand : row.document.executionCommand = f.command) (h : row.status ≠ .pending) :
      Refused row f "PAPER_ORDER_NOT_FILLABLE"

section Admission

variable {t : PaperTables} {o : PaperOrder} {now : Time} {f : PaperFillCommand} {row : OrderRow}

theorem Refused.outcome {code : String} (h : Refused row f code) (hdecodes : row.Decodes f.orderId) :
    paperFillExistingOrderOutcome t f row = .error ⟨code⟩ := by
  refine bind_eq_error.mpr (.inr ⟨_, hdecodes.fromRow, ?_⟩)
  cases h with
  | route h => exact bind_eq_error.mpr (.inl (require_eq_error.mpr ⟨h, rfl⟩))
  | createCommand hroute h =>
    refine bind_eq_error.mpr (.inr ⟨⟨⟩, require_eq_ok.mpr hroute, ?_⟩)
    exact bind_eq_error.mpr (.inl (require_eq_error.mpr ⟨h, rfl⟩))
  | command hroute hcreate hstatus h =>
    refine bind_eq_error.mpr (.inr ⟨⟨⟩, require_eq_ok.mpr hroute, ?_⟩)
    refine bind_eq_error.mpr (.inr ⟨⟨⟩, require_eq_ok.mpr hcreate, ?_⟩)
    rw [if_neg hstatus.1, if_neg hstatus.2]
    exact bind_eq_error.mpr (.inl (require_eq_error.mpr ⟨h, rfl⟩))
  | status hroute hcreate hstatus hcommand h =>
    refine bind_eq_error.mpr (.inr ⟨⟨⟩, require_eq_ok.mpr hroute, ?_⟩)
    refine bind_eq_error.mpr (.inr ⟨⟨⟩, require_eq_ok.mpr hcreate, ?_⟩)
    rw [if_neg hstatus.1, if_neg hstatus.2]
    refine bind_eq_error.mpr (.inr ⟨⟨⟩, require_eq_ok.mpr (.inl hcommand), ?_⟩)
    exact bind_eq_error.mpr (.inl (require_eq_error.mpr ⟨h, rfl⟩))

/-- A known order that is refused ends the application. -/
theorem apply_of_refused {e : PaperError} (hf : paperFillCommand o now = .ok f)
    (hrow : t.orders.get? f.orderId = some row)
    (houtcome : paperFillExistingOrderOutcome t f row = .error e) :
    applyFilledPaperOrder t o now = .error e := by
  refine bind_eq_error.mpr (.inr ⟨f, hf, bind_eq_error.mpr (.inl ?_)⟩)
  unfold reservePaperFillOrder
  rw [hrow]
  exact bind_eq_error.mpr (.inl houtcome)

/-- A known order that is answered ends the application. -/
theorem apply_of_answered {result : PaperFillResult} (hf : paperFillCommand o now = .ok f)
    (hrow : t.orders.get? f.orderId = some row)
    (houtcome : paperFillExistingOrderOutcome t f row = .ok (some result)) :
    applyFilledPaperOrder t o now = .ok (result, t) := by
  refine bind_eq_ok.mpr ⟨f, hf, bind_eq_ok.mpr ⟨(some result, t), ?_, rfl⟩⟩
  unfold reservePaperFillOrder
  rw [hrow]
  exact bind_eq_ok.mpr ⟨_, houtcome, rfl⟩

theorem perform_of_error {e : PaperError} (h : applyFilledPaperOrder t o now = .error e) :
    t.perform (.apply o now) = t := by
  rw [PaperTables.perform_of_apply, h]
  rfl

/-- **An order that is not pending** is refused or answered, whatever the application says. -/
theorem perform_of_not_pending (hf : paperFillCommand o now = .ok f)
    (hrow : t.orders.get? f.orderId = some row) (hstatus : row.status ≠ .pending) :
    t.perform (.apply o now) = t ∧ ∀ result t',
      applyFilledPaperOrder t o now = .ok (result, t') → result.outcome = .noOp := by
  cases houtcome : paperFillExistingOrderOutcome t f row with
  | error e =>
    have herror := apply_of_refused hf hrow houtcome
    refine ⟨perform_of_error herror, fun result t' h => ?_⟩
    rw [herror] at h
    exact absurd h (by simp)
  | ok answer =>
    cases answer with
    | none => exact absurd (paperFillExistingOrderOutcome_none houtcome) hstatus
    | some answer =>
      have hanswer := apply_of_answered hf hrow houtcome
      refine ⟨by rw [PaperTables.perform_of_apply, hanswer]; rfl, fun result t' h => ?_⟩
      rw [hanswer] at h
      obtain ⟨rfl, -⟩ := Prod.mk.inj (Except.ok.inj h)
      exact (paperFillExistingOrderOutcome_some houtcome).1

end Admission

namespace FilledOnce

variable {t t' : PaperTables}

theorem empty : FilledOnce .empty := by
  refine ⟨fun _ => ?_, fun _ h => ?_, fun _ h => ?_, fun _ _ h => ?_⟩
  · simp [PaperTables.fillsOf, PaperTables.empty]
  all_goals simp [PaperTables.empty] at h

/-- Filled orders and all else that a fill rests on survive. -/
theorem of_kept (h : FilledOnce t) (hfills : t'.fills = t.fills)
    (hpositions : t'.positions = t.positions)
    (hkept : ∀ id row, t.orders.get? id = some row → row.status = .filled →
      t'.orders.get? id = some row)
    (hfrom : ∀ id row, t'.orders.get? id = some row → row.status = .filled →
      t.orders.get? id = some row) : FilledOnce t' := by
  have hof : ∀ id, t'.fillsOf id = t.fillsOf id := fun id => by
    rw [PaperTables.fillsOf, PaperTables.fillsOf, hfills]
  refine ⟨fun id => ?_, fun r hr => ?_, fun r hr => ?_, fun id row hrow hstatus => ?_⟩
  · rw [hof]
    exact h.once id
  · rw [hfills] at hr
    obtain ⟨row, hrow, hstatus, hscope⟩ := h.order r hr
    exact ⟨row, hkept _ row hrow hstatus, hstatus, hscope⟩
  · rw [hfills] at hr
    rw [hpositions]
    exact h.position r hr
  · rw [hof]
    exact h.filled id row (hfrom id row hrow hstatus) hstatus

theorem edits (h : FilledOnce t) (he : EditsOrders t t') : FilledOnce t' := by
  refine h.of_kept he.fills_eq he.positions_eq (fun id row hrow hstatus => ?_)
    fun id row hrow hstatus => ?_
  · exact he.orders.frozen (fun _ _ _ hw => hw.pending) hrow (by simp [hstatus])
  · exact he.orders.of_filled (fun _ _ _ hw => hw.not_filled) hrow hstatus

variable {row : OrderRow} {f : PaperFillCommand}

/-- The order an application goes on with is not filled. -/
theorem reserved_not_filled (h : Reserved t f row)
    {stored : OrderRow} (hstored : t.orders.get? f.orderId = some stored) :
    stored.status = .pending := by
  cases h with
  | new hnone =>
    rw [hnone] at hstored
    exact absurd hstored (by simp)
  | known hrow hpending =>
    rw [hrow] at hstored
    exact Option.some.inj hstored ▸ hpending

/-- Nothing is filled yet under the id an application goes on with. -/
theorem no_fill (h : FilledOnce t)
    (hreserved : Reserved t f row) : ∀ r ∈ t.fills, r.orderId ≠ f.orderId := by
  intro r hr heq
  obtain ⟨stored, hstored, hstatus, -⟩ := h.order r hr
  rw [heq] at hstored
  rw [reserved_not_filled hreserved hstored] at hstatus
  exact absurd hstatus (by simp)

theorem applied {now : Time} {result : PaperFillResult} (hf : f.Made)
    (h : FilledOnce t) (ha : AppliedFill t f now result t') : FilledOnce t' := by
  cases ha with
  | replayed => exact h
  | @cancelled row rejection orders events _ hreserved horders =>
    have hcancelled : (row.cancelled f.filledAt rejection).status ≠ .filled := by
      simp [OrderRow.cancelled]
    refine h.of_kept rfl rfl (fun id r hr hstatus => ?_) fun id r hr hstatus => ?_
    · have hid : id ≠ f.orderId := by
        rintro rfl
        rw [reserved_not_filled hreserved hr] at hstatus
        exact absurd hstatus (by simp)
      exact (horders.other id hid).trans hr
    · by_cases hid : id = f.orderId
      · subst hid
        rw [show orders.get? f.orderId = _ from horders.self] at hr
        exact absurd (Option.some.inj hr ▸ hstatus) hcancelled
      · exact (horders.other id hid).symm.trans hr
  | @filled row position tr positions orders orders' current _ _ _ hreserved hlocked _ hmove _ _
      hcurrent hcurrentId hcurrentScope _ _ horders hprotective =>
    have hfresh := h.no_fill hreserved
    have hidentity : (f.fillRow tr).identity = f.identity := hf.identity_eq
    have hself : orders'.get? f.orderId = some (row.filled f tr) :=
      hprotective.frozen (fun _ _ _ hw => hw.pending) horders.self (by simp [OrderRow.filled])
    -- a filled order was filled before or is the one just filled
    have hkept : ∀ id r, t.orders.get? id = some r → r.status = .filled →
        orders'.get? id = some r := by
      intro id r hr hstatus
      have hid : id ≠ f.orderId := by
        rintro rfl
        rw [reserved_not_filled hreserved hr] at hstatus
        exact absurd hstatus (by simp)
      exact hprotective.frozen (fun _ _ _ hw => hw.pending) ((horders.other id hid).trans hr)
        (by simp [hstatus])
    refine ⟨fun id => ?_, fun r hr => ?_, fun r hr => ?_, fun id r hr hstatus => ?_⟩
    · rw [PaperTables.fillsOf, List.filter_append, List.length_append]
      by_cases hid : f.orderId = id
      · have hnone : (t.fills.filter fun r => r.orderId = id) = [] :=
          List.filter_eq_nil_iff.mpr fun r hr => by simpa [← hid] using hfresh r hr
        rw [hnone, List.length_nil, Nat.zero_add]
        exact List.length_filter_le ..
      · have hnone : ([f.fillRow tr].filter fun r => r.orderId = id) = [] :=
          List.filter_eq_nil_iff.mpr fun r hr => by
            simpa [List.mem_singleton.mp hr, PaperFillCommand.fillRow] using hid
        rw [hnone, List.length_nil, Nat.add_zero]
        exact h.once id
    · rcases List.mem_append.mp hr with hr | hr
      · obtain ⟨stored, hstored, hstatus, hscope⟩ := h.order r hr
        exact ⟨stored, hkept _ stored hstored hstatus, hstatus, hscope⟩
      · obtain rfl := List.mem_singleton.mp hr
        exact ⟨_, hself, rfl, rfl⟩
    · rcases List.mem_append.mp hr with hr | hr
      · obtain ⟨stored, hstored, hscope⟩ := h.position r hr
        obtain ⟨stored', hstored', hdoc⟩ := hmove.document_kept hlocked _ stored hstored
        exact ⟨stored', hstored', by rw [hdoc]; exact hscope⟩
      · obtain rfl := List.mem_singleton.mp hr
        have hposition : positions.get? tr.positionId = some current.row := by
          rw [← hcurrentId]
          exact hcurrent
        refine ⟨current.row, hposition, ?_⟩
        rw [hidentity]
        exact hcurrentScope
    · rw [PaperTables.fillsOf, List.filter_append]
      by_cases hid : f.orderId = id
      · simp [PaperFillCommand.fillRow, hid]
      · have hr' := hprotective.of_filled (fun _ _ _ hw => hw.not_filled) hr hstatus
        rw [horders.other id (Ne.symm hid)] at hr'
        exact fun hnil => h.filled id r hr' hstatus (List.append_eq_nil_iff.mp hnil).1

/-- **Every call keeps fills and statuses in step.** -/
theorem step {a : PaperAct} (h : FilledOnce t) (hstep : PaperStep t a t') : FilledOnce t' := by
  obtain rfl := hstep
  by_cases happly : ∃ o now, a = .apply o now
  · obtain ⟨o, now, rfl⟩ := happly
    rcases perform_apply t o now with hsame | ⟨f, result, -, hf, -, happlied⟩
    · rw [hsame]
      exact h
    · exact h.applied hf happlied
  · push Not at happly
    exact h.edits (perform_edits happly)

/-- The one fill of a filled order. -/
theorem fill_of_filled (h : FilledOnce t) {id : String}
    (hrow : t.orders.get? id = some row) (hstatus : row.status = .filled) :
    ∃ r, t.fillsOf id = [r] := by
  cases hfills : t.fillsOf id with
  | nil => exact absurd hfills (h.filled id row hrow hstatus)
  | cons r rest =>
    have honce := h.once id
    rw [hfills, List.length_cons] at honce
    have hrest : rest = [] := List.length_eq_zero_iff.mp (by omega)
    exact ⟨r, by rw [hrest]⟩

theorem length_eq_one_iff (h : FilledOnce t) (id : String) : (t.fillsOf id).length = 1 ↔
    ∃ row, t.orders.get? id = some row ∧ row.status = .filled := by
  constructor
  · intro hone
    obtain ⟨r, hr⟩ := List.length_eq_one_iff.mp hone
    have hmem : r ∈ t.fillsOf id := hr ▸ List.mem_singleton.mpr rfl
    obtain ⟨hfill, hid⟩ := List.mem_filter.mp hmem
    obtain ⟨row, hrow, hstatus, -⟩ := h.order r hfill
    rw [decide_eq_true_eq] at hid
    exact ⟨row, hid ▸ hrow, hstatus⟩
  · rintro ⟨row, hrow, hstatus⟩
    obtain ⟨r, hr⟩ := h.fill_of_filled hrow hstatus
    rw [hr]
    rfl

/-- **A replay** of a filled order is answered from its fill. -/
theorem replay (h : FilledOnce t) (hread : Readable t) {o : PaperOrder} {now : Time}
    (hf : paperFillCommand o now = .ok f)
    (hrow : t.orders.get? f.orderId = some row) (hstatus : row.status = .filled)
    (hcommand : row.document.createCommand = f.createCommand)
    (hscope : row.document.identity.scope = f.scope) :
    ∃ position fill, applyFilledPaperOrder t o now =
        .ok (.replay ⟨f.orderId, row⟩ (some position) (some fill), t) ∧
      t.fillsOf f.orderId = [fill] := by
  obtain ⟨fill, hfill⟩ := h.fill_of_filled hrow hstatus
  have hmem : fill ∈ t.fillsOf f.orderId := hfill ▸ List.mem_singleton.mpr rfl
  obtain ⟨hfillMem, hfillId⟩ := List.mem_filter.mp hmem
  rw [decide_eq_true_eq] at hfillId
  obtain ⟨stored, hstored, -, hstoredScope⟩ := h.order fill hfillMem
  rw [hfillId, hrow] at hstored
  cases hstored
  obtain ⟨position, hposition, hpositionScope⟩ := h.position fill hfillMem
  obtain ⟨hpid, hpvalid⟩ := hread.positions _ position hposition
  have hfillScope : fill.identity.scope = f.scope := hstoredScope.symm.trans hscope
  -- the query by id and scope finds the same one fill
  have hquery : (t.fills.filter fun r => r.orderId = f.orderId ∧ r.identity.scope = f.scope) =
      [fill] := by
    have hsub : (t.fills.filter fun r => r.orderId = f.orderId ∧ r.identity.scope = f.scope) =
        (t.fillsOf f.orderId).filter fun r => r.identity.scope = f.scope := by
      rw [PaperTables.fillsOf, List.filter_filter]
      exact List.filter_congr fun r _ => by simp [Bool.and_comm]
    rw [hsub, hfill]
    simp [hfillScope]
  have hreplay : paperFillReplayOutcome t f ⟨f.orderId, row⟩ =
      .ok (.replay ⟨f.orderId, row⟩ (some ⟨fill.positionId, position⟩) (some fill)) := by
    unfold paperFillReplayOutcome
    rw [hquery]
    refine bind_eq_ok.mpr ⟨fill, paperFillFromRow_eq_ok.mpr ⟨rfl, hread.fills fill hfillMem⟩,
      bind_eq_ok.mpr ⟨fill.positionId, requireExactIdentityText_eq_ok.mpr ⟨hpid, rfl⟩,
        bind_eq_ok.mpr ⟨some ⟨fill.positionId, position⟩, ?_, rfl⟩⟩⟩
    simp only [paperPositionById, hposition, hpositionScope, hfillScope, if_true]
    exact map_eq_ok.mpr ⟨_, paperPositionFromRow_eq_ok.mpr ⟨rfl, hpid, hpvalid⟩, rfl⟩
  refine ⟨⟨fill.positionId, position⟩, fill, ?_, hfill⟩
  have hroute : row.document.identity.instrumentId = f.command.instrumentId ∧
      row.document.identity.routeFingerprint = f.command.routeFingerprint :=
    ⟨congrArg PaperScope.instrumentId hscope, congrArg PaperScope.routeFingerprint hscope⟩
  have houtcome : paperFillExistingOrderOutcome t f row =
      .ok (some (.replay ⟨f.orderId, row⟩ (some ⟨fill.positionId, position⟩) (some fill))) := by
    unfold paperFillExistingOrderOutcome
    refine bind_eq_ok.mpr ⟨_, (hread.orders _ row hrow).fromRow, bind_eq_ok.mpr ⟨⟨⟩,
      require_eq_ok.mpr hroute, bind_eq_ok.mpr ⟨⟨⟩, require_eq_ok.mpr hcommand, ?_⟩⟩⟩
    rw [if_pos hstatus]
    exact map_eq_ok.mpr ⟨_, hreplay, rfl⟩
  exact apply_of_answered hf hrow houtcome

end FilledOnce

/-! ### Runs -/

/-- **Exactly-once fills.** After any calls, an order id has at most one fill, and one exactly when
its order is filled. Another application of a filled order whose command and route agree is
answered with its fill; an application refused for its command, its route or the status of the
order raises; and no application of an order that is not pending changes a table. -/
theorem exactly_once {as : List PaperAct} {t : PaperTables} (h : Run PaperStep .empty as t) :
    (∀ id, (t.fillsOf id).length ≤ 1) ∧
      (∀ id, (t.fillsOf id).length = 1 ↔
        ∃ row, t.orders.get? id = some row ∧ row.status = .filled) ∧
      (∀ o now f row, paperFillCommand o now = .ok f → t.orders.get? f.orderId = some row →
        row.status = .filled → row.document.createCommand = f.createCommand →
        row.document.identity.scope = f.scope →
        ∃ position fill, t.fillsOf f.orderId = [fill] ∧ applyFilledPaperOrder t o now =
          .ok (.replay ⟨f.orderId, row⟩ (some position) (some fill), t)) ∧
      (∀ o now f row, paperFillCommand o now = .ok f → t.orders.get? f.orderId = some row →
        (∀ code, Refused row f code → applyFilledPaperOrder t o now = .error ⟨code⟩ ∧
          t.perform (.apply o now) = t) ∧
        (row.status ≠ .pending → t.perform (.apply o now) = t ∧
          ∀ result t', applyFilledPaperOrder t o now = .ok (result, t') → result.outcome = .noOp)) := by
  have honce : FilledOnce t := h.invariant (fun _ _ _ hinv hstep => hinv.step hstep) .empty
  have hread : Readable t := h.invariant (fun _ _ _ hinv hstep => hinv.step hstep) .empty
  refine ⟨honce.once, honce.length_eq_one_iff, ?_, ?_⟩
  · intro o now f row hf hrow hstatus hcommand hscope
    obtain ⟨position, fill, happly, hfill⟩ :=
      honce.replay hread hf hrow hstatus hcommand hscope
    exact ⟨position, fill, hfill, happly⟩
  · intro o now f row hf hrow
    refine ⟨fun code hrefused => ?_, fun hstatus => ?_⟩
    · have herror := apply_of_refused hf hrow (hrefused.outcome (hread.orders _ row hrow))
      exact ⟨herror, perform_of_error herror⟩
    · exact perform_of_not_pending hf hrow hstatus

/-- An order that is stored, filled and sent again at another price has one fill. -/
theorem exactly_once_replayed :
    let order := entryOrder "a" .long 2 100
    let t := ((PaperTables.empty.perform (.upsert order 1)).perform (.apply order 2)).perform
      (.apply { order with fillPrice := some 104 } 3)
    (t.fillsOf "a").length = 1 ∧ (t.fillsOf "b").length ≤ 1 := by
  intro order t
  have hrun : Run PaperStep .empty [.upsert order 1, .apply order 2,
      .apply { order with fillPrice := some 104 } 3] t :=
    .cons rfl (.cons rfl (.cons rfl (.nil _)))
  have hfilled : (t.orders.get? "a").map OrderRow.status = some .filled := by decide +kernel
  obtain ⟨row, hrow, hstatus⟩ := Option.map_eq_some_iff.mp hfilled
  exact ⟨((exactly_once hrun).2.1 "a").mpr ⟨row, hrow, hstatus⟩, (exactly_once hrun).1 "b"⟩

end AefTerminal
