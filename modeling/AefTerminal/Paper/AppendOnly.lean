import AefTerminal.Paper.ExactlyOnce

/-!
# The journal only grows

Fills and events are appended, and neither an order nor a position is ever deleted. What an order or
a position ended as stays: a row that left `pending` and a position that was closed are not written
again, whatever a call is given. Nothing is asked of the tables that a run starts from.

## Main definitions

* `Survive`, `PaperTables.Extends`

## Main results

* `Extends.perform`: what one call keeps
* `journal_append_only`
-/

namespace AefTerminal

open Foundation

/-- Every row of `d` is still there in `d'`, and the final ones are as they were. -/
def Survive {α : Type} (final : α → Prop) (d d' : Dict String α) : Prop :=
  ∀ id row, d.get? id = some row → ∃ row', d'.get? id = some row' ∧ (final row → row' = row)

namespace Survive

variable {α : Type} {final : α → Prop} {d d' d'' : Dict String α} {id : String} {new : α}

theorem refl (d : Dict String α) : Survive final d d := fun _ row hrow => ⟨row, hrow, fun _ => rfl⟩

theorem trans (h : Survive final d d') (k : Survive final d' d'') : Survive final d d'' := by
  intro id row hrow
  obtain ⟨row', hrow', hfinal⟩ := h id row hrow
  obtain ⟨row'', hrow'', hfinal'⟩ := k id row' hrow'
  refine ⟨row'', hrow'', fun hf => ?_⟩
  obtain rfl := hfinal hf
  exact hfinal' hf

/-- One row was written that was not final, the others are as they were. -/
theorem of_written (hself : d'.get? id = some new) (hother : ∀ j, j ≠ id → d'.get? j = d.get? j)
    (hopen : ∀ row, d.get? id = some row → ¬ final row) : Survive final d d' := by
  intro j row hrow
  by_cases hj : j = id
  · subst hj
    exact ⟨new, hself, fun hf => absurd hf (hopen row hrow)⟩
  · exact ⟨row, (hother j hj).trans hrow, fun _ => rfl⟩

theorem insert (hopen : ∀ row, d.get? id = some row → ¬ final row) :
    Survive final d (d.insert id new) :=
  of_written (Dict.get?_insert_self ..) (fun _ hj => Dict.get?_insert_of_ne _ hj _) hopen

end Survive

/-- `t'` has all that `t` recorded, and what was final in `t` as it was. -/
structure PaperTables.Extends (t t' : PaperTables) : Prop where
  fills : t.fills <+: t'.fills
  events : t.events <+: t'.events
  orders : Survive (fun row => row.status ≠ .pending) t.orders t'.orders
  positions : Survive (fun row => row.status = .closed) t.positions t'.positions

/-! ### Writes -/

/-- Where only pending rows are written to and none is removed, orders survive. -/
theorem Chained.survive {W : String → Option OrderRow → Option OrderRow → Prop}
    {orders orders' : Dict String OrderRow}
    (hpending : ∀ id row new, W id (some row) new → row.status = .pending)
    (hsome : ∀ id old new, W id old new → ∃ row, new = some row ∧ row.status ≠ .filled)
    (h : Chained W orders orders') : Survive (fun row => row.status ≠ .pending) orders orders' := by
  intro id row hrow
  by_cases hstatus : row.status = .pending
  · rcases Relation.ReflTransGen.cases_tail (h id) with heq | ⟨old, -, hwrite⟩
    · exact ⟨row, heq.trans hrow, fun _ => rfl⟩
    · obtain ⟨row', hnew, -⟩ := hsome id old _ hwrite
      exact ⟨row', hnew, fun hsettled => absurd hstatus hsettled⟩
  · exact ⟨row, h.frozen hpending hrow hstatus, fun _ => rfl⟩

variable {t t' t'' : PaperTables} {f : PaperFillCommand}

/-- The application of an order writes to it while it is pending. -/
theorem Reserved.survive {orders : Dict String OrderRow} {row new : OrderRow}
    (h : Reserved t f row) (hw : Rewritten t.orders orders f.orderId new) :
    Survive (fun row => row.status ≠ .pending) t.orders orders := by
  refine .of_written hw.self hw.other fun old hold hsettled => ?_
  cases h with
  | new hnone => exact absurd (hnone.symm.trans hold) (by simp)
  | known hrow hpending =>
    cases hrow.symm.trans hold
    exact hsettled hpending

/-- A fill moves the open position that it found, and opens positions under new ids. -/
theorem PositionMove.survive {positions : Dict String PositionRow}
    {position : Option SavedPosition} {tr : PaperPositionTransition}
    (hlocked : lockedPaperFillPosition t f = .ok position)
    (h : PositionMove f t.positions position tr positions) :
    Survive (fun row => row.status = .closed) t.positions positions := by
  have hmoved : ∀ p, lockedPaperFillPosition t f = .ok (some p) → ∀ row,
      t.positions.get? p.id = some row → ¬ row.status = .closed := by
    intro p hp row hrow hclosed
    have hopen := lockedPaperFillPosition_some hp
    cases hopen.stored.symm.trans hrow
    exact absurd (hopen.isOpen.symm.trans hclosed) (by simp)
  cases h with
  | opened _ _ hnew => exact .insert fun _ hold => absurd (Dict.mem_keys_of_get? hold) hnew
  | increased | reduced | closed => exact .insert (hmoved _ hlocked)
  | reversed _ _ _ _ _ _ hnew =>
    exact .trans (.insert (hmoved _ hlocked))
      (.insert fun _ hold => absurd (Dict.mem_keys_of_get? hold) hnew)

namespace PaperTables.Extends

theorem refl (t : PaperTables) : t.Extends t :=
  ⟨List.prefix_refl _, List.prefix_refl _, .refl _, .refl _⟩

theorem trans (h : t.Extends t') (k : t'.Extends t'') : t.Extends t'' :=
  ⟨h.fills.trans k.fills, h.events.trans k.events, h.orders.trans k.orders,
    h.positions.trans k.positions⟩

/-- **Every call** of the repository extends the tables. -/
theorem perform (t : PaperTables) (a : PaperAct) : t.Extends (t.perform a) := by
  by_cases happly : ∃ o now, a = .apply o now
  · obtain ⟨o, now, rfl⟩ := happly
    rcases perform_apply t o now with hsame | ⟨f, result, -, -, -, happlied⟩
    · exact hsame.symm ▸ .refl t
    · generalize t.perform (.apply o now) = t' at happlied
      cases happlied with
      | replayed => exact .refl t
      | cancelled hreserved horders =>
        exact ⟨List.prefix_refl _, List.prefix_append _ _, hreserved.survive horders, .refl _⟩
      | filled hreserved hlocked _ hmove _ _ _ _ _ _ _ horders hprotective =>
        exact ⟨List.prefix_append _ _, List.prefix_append _ _, (hreserved.survive horders).trans
          (hprotective.survive (fun _ _ _ hw => hw.pending) fun _ _ _ hw => hw.not_filled),
          hmove.survive hlocked⟩
  · push Not at happly
    obtain ⟨horders, hpositions, hfills, events, hevents, -⟩ := perform_edits (t := t) happly
    refine ⟨hfills ▸ List.prefix_refl _, hevents ▸ List.prefix_append _ _, ?_,
      hpositions ▸ .refl _⟩
    exact horders.survive (fun _ _ _ hw => hw.pending) fun _ _ _ hw => hw.not_filled

end PaperTables.Extends

/-- **The journal is append-only.** From any tables and by any calls, fills and events are only
appended, no order and no position disappears, and an order that left `pending` and a position that
was closed are the same ever after. -/
theorem journal_append_only {as : List PaperAct} (h : Run PaperStep t as t') : t.Extends t' := by
  induction h with
  | nil s => exact .refl s
  | @cons s u v a as hstep _ ih =>
    obtain rfl := hstep
    exact (PaperTables.Extends.perform s a).trans ih

/-- A closed position, and its entry sent once more. -/
theorem journal_append_only_replayed :
    let t := (PaperTables.empty.perform (.apply (entryOrder "a" .long 2 100) 1)).perform
      (.apply (closeOrder "c" "pos-a" 101) 2)
    (t.positions.get? "pos-a").map PositionRow.status = some .closed ∧
      t.Extends (t.perform (.apply (entryOrder "a" .long 2 100) 3)) :=
  ⟨by decide +kernel, journal_append_only (.cons rfl (.nil _))⟩

end AefTerminal
