import AefTerminal.Bars.Outcome
import AefTerminal.Foundation.LwwRegister
import AefTerminal.Foundation.Run

/-!
# The order of revisions

Calls on the bar table carry a revision sequence each, and the greater sequence is meant to win:
for one slot the table should be a last-writer-wins register. `Tracks` compares the two.

The stored row is such a register except for one thing. A revision that repeats the row's values
is acknowledged without touching the row, so the row stays behind at an older sequence; a revision
between the two sequences is then newer than the row and older than what it replaces
(`StaleRevision`). `revision_order_iff` says that this is the only way the order is lost.

## Main results

* `upsertCell_values`: what the upsert does to the values and the sequence of a row
* `tracks_of_run`: without a stale revision the row follows the register
* `revision_order_violated`, `revision_order_iff`
-/

namespace AefTerminal

open Foundation LwwRegister

/-- One call of the live bar upsert. -/
structure BarWrite where
  route : StorageRoute
  bars : List Bar
  revisionSequence : ℕ

/-- The input row a call has for a slot. -/
def BarWrite.revision (w : BarWrite) (slot : BarSlot) : Option StoredBar :=
  ((admittedBars w.route w.bars).find? fun bar => barSlot w.route bar = slot).map
    (storedBar w.route w.revisionSequence)

/-- A call that commits. -/
def Commits (t : BarsTable) (w : BarWrite) (t' : BarsTable) : Prop :=
  ∃ receipt, writeBarsOnCursor t w.route w.bars w.revisionSequence = .ok (receipt, t')

/-- The sequence and the values of a row, the pair the order is about. -/
def StoredBar.cell (row : StoredBar) : ℕ × BarValues := (row.revisionSequence, row.values)

def cellAt (t : BarsTable) (slot : BarSlot) : Option (ℕ × BarValues) :=
  (t.get? slot).map StoredBar.cell

/-- The revisions of a slot, in the order the calls applied them. -/
def revisions (slot : BarSlot) (writes : List BarWrite) : List (ℕ × BarValues) :=
  writes.filterMap fun w => (w.revision slot).map StoredBar.cell

variable {t t' u v : BarsTable} {slot : BarSlot} {w : BarWrite} {writes before after : List BarWrite}
  {new row : StoredBar}

theorem revisions_append (l₁ l₂ : List BarWrite) :
    revisions slot (l₁ ++ l₂) = revisions slot l₁ ++ revisions slot l₂ :=
  List.filterMap_append

theorem revisions_singleton :
    revisions slot [w] = ((w.revision slot).map StoredBar.cell).toList := by
  rw [revisions, List.filterMap_cons]
  cases w.revision slot <;> rfl

theorem Commits.deterministic (t : BarsTable) (w : BarWrite) (u v : BarsTable)
    (h : Commits t w u) (h' : Commits t w v) : u = v := by
  obtain ⟨r, h⟩ := h
  obtain ⟨r', h'⟩ := h'
  exact (Prod.mk.inj (Except.ok.inj (h.symm.trans h'))).2

/-! ### One call, one slot -/

theorem BarWrite.revision_eq_some (h : w.revision slot = some new) :
    ∃ bar ∈ admittedBars w.route w.bars, barSlot w.route bar = slot ∧
      new = storedBar w.route w.revisionSequence bar := by
  obtain ⟨bar, hfind, rfl⟩ := Option.map_eq_some_iff.mp h
  exact ⟨bar, List.mem_of_find?_eq_some hfind, by simpa using List.find?_some hfind, rfl⟩

theorem BarWrite.closed_of_revision (h : w.revision slot = some new) : new.values.closed = true := by
  obtain ⟨bar, hbar, -, rfl⟩ := BarWrite.revision_eq_some h
  have hadm : Admitted w.route bar := by simpa using (List.mem_filter.mp hbar).2
  exact hadm.closed

/-- A slot the call has no bar for keeps its row. -/
theorem Commits.get?_of_none (h : Commits t w t') (hnone : w.revision slot = none) :
    t'.get? slot = t.get? slot := by
  obtain ⟨receipt, h⟩ := h
  refine (writeBarsOnCursor_outcome h).get?_of_ne slot fun bar hbar heq => ?_
  rw [BarWrite.revision, Option.map_eq_none_iff, List.find?_eq_none] at hnone
  exact hnone bar hbar (by simpa using heq)

/-- A slot the call has a bar for goes through the upsert. -/
theorem Commits.get?_of_some (h : Commits t w t') (hnew : w.revision slot = some new) :
    t'.get? slot = some (upsertCell (t.get? slot) new) := by
  obtain ⟨receipt, h⟩ := h
  obtain ⟨bar, hbar, rfl, rfl⟩ := BarWrite.revision_eq_some hnew
  exact (writeBarsOnCursor_outcome h).get?_of_mem bar hbar

theorem upsertCell_of_replaces (hrow : row.revisionSequence < new.revisionSequence)
    (hclosed : new.values.closed = true) (hne : row.values ≠ new.values) :
    upsertCell (some row) new = new :=
  if_pos ⟨hrow, fun hc => absurd (hclosed.symm.trans hc.2) (by simp), hne⟩

theorem upsertCell_of_le (h : new.revisionSequence ≤ row.revisionSequence) :
    upsertCell (some row) new = row :=
  if_neg fun hr => absurd hr.1 (not_lt.mpr h)

theorem upsertCell_of_values (h : row.values = new.values) : upsertCell (some row) new = row :=
  if_neg fun hr => hr.2.2 h

/-- The upsert takes the new values only over an older row that differs. -/
theorem replaces_of_values_ne (h : (upsertCell (some row) new).values ≠ row.values) :
    row.revisionSequence < new.revisionSequence ∧ row.values ≠ new.values := by
  rw [upsertCell] at h
  split at h
  · rename_i hr
    exact ⟨hr.1, hr.2.2⟩
  · exact absurd rfl h

/-! ### Following the register -/

/-- The call's revision of the slot is newer than the stored row and has other values, although a
revision newer still was applied before. -/
def StaleRevision (slot : BarSlot) (before : List BarWrite) (u : BarsTable) (w : BarWrite) : Prop :=
  ∃ row new, u.get? slot = some row ∧ w.revision slot = some new ∧
    row.revisionSequence < new.revisionSequence ∧ row.values ≠ new.values ∧
    ∃ x ∈ revisions slot before, new.revisionSequence < x.1

/-- No call of the history is stale for the slot. -/
def NoStaleRevision (slot : BarSlot) (t : BarsTable) (writes : List BarWrite) : Prop :=
  ∀ before w after u, writes = before ++ w :: after → Run Commits t before u →
    ¬ StaleRevision slot before u w

theorem NoStaleRevision.of_append (h : NoStaleRevision slot t (before ++ after)) :
    NoStaleRevision slot t before := fun b w a u heq hrun =>
  h b w (a ++ after) u (by rw [heq]; simp) hrun

/-- One upsert keeps up with the register unless the revision is stale. -/
theorem tracks_step {reg : Option (ℕ × BarValues)} {row : Option StoredBar}
    (htracks : Tracks (row.map StoredBar.cell) reg) (hclosed : new.values.closed = true)
    (hfresh : ∀ c, reg = some c → c.1 ≠ new.revisionSequence)
    (hstale : ∀ r c, row = some r → reg = some c → r.revisionSequence < new.revisionSequence →
      r.values ≠ new.values → ¬ new.revisionSequence < c.1) :
    Tracks (some (upsertCell row new).cell) (write reg new.cell) := by
  rcases row with _ | row
  · have hreg : reg = none := by cases htracks; rfl
    rw [hreg]
    exact .value le_rfl
  · rcases reg with _ | ⟨n, val⟩
    · exact absurd htracks (by rintro ⟨⟩)
    · obtain ⟨hle, rfl⟩ : row.revisionSequence ≤ n ∧ row.values = val := by
        cases htracks with
        | value h => exact ⟨h, rfl⟩
      have hne : n ≠ new.revisionSequence := hfresh _ rfl
      rcases lt_or_ge n new.revisionSequence with hlt | hge
      · have hwrite : write (some (n, row.values)) new.cell = some new.cell := write_of_lt hlt
        rw [hwrite]
        by_cases hval : row.values = new.values
        · rw [upsertCell_of_values hval, StoredBar.cell, StoredBar.cell, hval]
          exact .value (hle.trans hlt.le)
        · rw [upsertCell_of_replaces (hle.trans_lt hlt) hclosed hval]
          exact .value le_rfl
      · have hgt : new.revisionSequence < n := lt_of_le_of_ne hge (Ne.symm hne)
        have hwrite : write (some (n, row.values)) new.cell = some (n, row.values) :=
          write_of_le hge
        have hkeep : upsertCell (some row) new = row := by
          by_cases hval : row.values = new.values
          · exact upsertCell_of_values hval
          · refine upsertCell_of_le (not_lt.mp fun hlt => ?_)
            exact hstale row _ rfl rfl hlt hval hgt
        rw [hwrite, hkeep]
        exact .value hle

/-- Without a stale revision the row of a slot shows what the register of its revisions holds. -/
theorem tracks_of_run (h : Run Commits t writes t') (hnew : t.get? slot = none)
    (hd : ((revisions slot writes).map Prod.fst).Nodup) (hns : NoStaleRevision slot t writes) :
    Tracks (cellAt t' slot) (LwwRegister.writes (revisions slot writes)) := by
  induction writes using List.reverseRecOn generalizing t' with
  | nil =>
    cases h
    rw [cellAt, hnew]
    exact .empty
  | append_singleton before w ih =>
    obtain ⟨u, hbefore, hlast⟩ := h.of_append
    have hstep : Commits u w t' := by
      cases hlast with
      | cons hs hr => cases hr; exact hs
    rw [revisions_append, List.map_append] at hd
    have htracks := ih hbefore hd.of_append_left hns.of_append
    rw [revisions_append, revisions_singleton]
    cases hrev : w.revision slot with
    | none =>
      rw [cellAt, hstep.get?_of_none hrev]
      simpa [cellAt] using htracks
    | some new =>
      have hcell : cellAt t' slot = some (upsertCell (u.get? slot) new).cell := by
        rw [cellAt, hstep.get?_of_some hrev]
        rfl
      rw [hcell]
      simp only [Option.map_some, Option.toList_some, writes_append_singleton]
      refine tracks_step htracks (BarWrite.closed_of_revision hrev) (fun c hc heq => ?_)
        fun r c hr hc hlt hval hgt => ?_
      · -- sequences are distinct, so the register cannot hold this one yet
        have hmem : new.revisionSequence ∈ (revisions slot before).map Prod.fst :=
          heq ▸ List.mem_map_of_mem (mem_of_writes_eq_some hc)
        have hdisj := (List.nodup_append.mp hd).2.2 _ hmem new.revisionSequence
          (by simp [revisions_singleton, hrev, StoredBar.cell])
        exact hdisj rfl
      · exact hns before w [] u rfl hbefore
          ⟨r, new, hr, hrev, hlt, hval, c, mem_of_writes_eq_some hc, hgt⟩

/-! ### The law -/

/-- The row of the slot has the values of its greatest revision. -/
def StoresGreatest (slot : BarSlot) (writes : List BarWrite) (t' : BarsTable) : Prop :=
  ∀ x ∈ revisions slot writes, (∀ y ∈ revisions slot writes, y.1 ≤ x.1) →
    (t'.get? slot).map StoredBar.values = some x.2

/-- The call acknowledges its revision of the slot as committed. -/
def Acknowledges (slot : BarSlot) (u : BarsTable) (w : BarWrite) : Prop :=
  ∃ receipt v, writeBarsOnCursor u w.route w.bars w.revisionSequence = .ok (receipt, v) ∧
    ∃ bar ∈ receipt.acknowledged, barSlot w.route bar = slot

/-- The call overwrites what the row shows of an earlier revision with a greater sequence. -/
def OverwritesNewer (slot : BarSlot) (before : List BarWrite) (u : BarsTable) (w : BarWrite) :
    Prop :=
  ∃ row new v, u.get? slot = some row ∧ w.revision slot = some new ∧ Commits u w v ∧
    (v.get? slot).map StoredBar.values ≠ some row.values ∧
    ∃ x ∈ revisions slot before, x.2 = row.values ∧ new.revisionSequence < x.1

/-- After an acknowledgement, no revision is overwritten by one with a smaller sequence. -/
def AcknowledgedOrder (slot : BarSlot) (t : BarsTable) (writes : List BarWrite) : Prop :=
  ∀ before w after u, writes = before ++ w :: after → Run Commits t before u →
    (∃ before' w' after' u', before = before' ++ w' :: after' ∧ Run Commits t before' u' ∧
      Acknowledges slot u' w') →
    ¬ OverwritesNewer slot before u w

theorem StaleRevision.of_overwritesNewer (h : OverwritesNewer slot before u w) :
    StaleRevision slot before u w := by
  obtain ⟨row, new, v, hrow, hrev, hcommit, hne, x, hx, -, hlt⟩ := h
  rw [hcommit.get?_of_some hrev, hrow] at hne
  have hvalues : (upsertCell (some row) new).values ≠ row.values :=
    fun heq => hne (by rw [Option.map_some, heq])
  obtain ⟨hseq, hval⟩ := replaces_of_values_ne hvalues
  exact ⟨row, new, hrow, hrev, hseq, hval, x, hx, hlt⟩

/-- The first revision of an empty slot is stored and acknowledged. -/
theorem acknowledges_of_none (hcommit : Commits u w v) (hnone : u.get? slot = none)
    (hrev : w.revision slot = some new) : Acknowledges slot u w := by
  have hget := hcommit.get?_of_some hrev
  obtain ⟨receipt, h⟩ := hcommit
  obtain ⟨bar, hbar, hslot, rfl⟩ := BarWrite.revision_eq_some hrev
  refine ⟨receipt, v, h, bar, ?_, hslot⟩
  rw [(writeBarsOnCursor_outcome h).acknowledged, List.mem_filter]
  refine ⟨hbar, ?_⟩
  rw [hslot, hget, hnone]
  simp [upsertCell, storedBar]

/-- A slot without revisions keeps its row. -/
theorem get?_of_revisions_nil (h : Run Commits t writes t') (hnil : revisions slot writes = []) :
    t'.get? slot = t.get? slot := by
  induction h with
  | nil => rfl
  | cons hs _ ih =>
    rename_i w _ _
    rw [revisions, List.filterMap_cons] at hnil
    cases hrev : w.revision slot with
    | none =>
      rw [hrev] at hnil
      exact (ih hnil).trans (hs.get?_of_none hrev)
    | some new =>
      rw [hrev] at hnil
      exact absurd hnil (by simp)

/-- A history with a revision of the slot has a first one. -/
theorem exists_first_revision (h : revisions slot writes ≠ []) :
    ∃ before w after new, writes = before ++ w :: after ∧ revisions slot before = [] ∧
      w.revision slot = some new := by
  induction writes with
  | nil => exact absurd rfl h
  | cons w writes ih =>
    cases hrev : w.revision slot with
    | some new => exact ⟨[], w, writes, new, rfl, rfl, hrev⟩
    | none =>
      have hcons : revisions slot (w :: writes) = revisions slot writes := by
        rw [revisions, List.filterMap_cons, hrev]
        rfl
      obtain ⟨before, w', after, new, rfl, hnil, hw'⟩ := ih (hcons ▸ h)
      refine ⟨w :: before, w', after, new, rfl, ?_, hw'⟩
      rw [revisions, List.filterMap_cons, hrev]
      exact hnil

/-- The first revision of a slot that was empty is acknowledged, whatever follows. -/
theorem exists_acknowledges (h : Run Commits t writes t') (hnew : t.get? slot = none)
    (hne : revisions slot writes ≠ []) :
    ∃ before w after u, writes = before ++ w :: after ∧ Run Commits t before u ∧
      Acknowledges slot u w := by
  obtain ⟨before, w, after, new, rfl, hnil, hrev⟩ := exists_first_revision hne
  obtain ⟨u, hbefore, hrest⟩ := h.of_append
  cases hrest with
  | cons hs _ =>
    have hnone : u.get? slot = none := (get?_of_revisions_nil hbefore hnil).trans hnew
    exact ⟨before, w, after, u, rfl, hbefore, acknowledges_of_none hs hnone hrev⟩

/-- A stale revision over a row that follows the register overwrites a newer one. -/
theorem overwritesNewer_of_stale (hcommit : Commits u w v)
    (htracks : Tracks (cellAt u slot) (LwwRegister.writes (revisions slot before)))
    (h : StaleRevision slot before u w) : OverwritesNewer slot before u w := by
  obtain ⟨row, new, hrow, hrev, hlt, hval, x, hx, hgt⟩ := h
  have hget := hcommit.get?_of_some hrev
  rw [hrow, upsertCell_of_replaces hlt (BarWrite.closed_of_revision hrev) hval] at hget
  refine ⟨row, new, v, hrow, hrev, hcommit, ?_, ?_⟩
  · rw [hget, Option.map_some]
    exact fun heq => hval (Option.some.inj heq).symm
  · rw [cellAt, hrow, Option.map_some, StoredBar.cell] at htracks
    generalize hreg : LwwRegister.writes (revisions slot before) = reg at htracks
    cases htracks with
    | value hle =>
      exact ⟨_, mem_of_writes_eq_some hreg, rfl,
        hgt.trans_le (le_of_writes_eq_some hreg x hx)⟩

/-- **Revision order.** For a slot that starts empty, and every history of committed calls whose
revisions of the slot have distinct sequences: the greatest revision is stored and no acknowledged
history overwrites a newer revision by an older one, exactly when no call of the history is
stale. -/
theorem revision_order_iff (h : Run Commits t writes t') (hnew : t.get? slot = none)
    (hd : ((revisions slot writes).map Prod.fst).Nodup) :
    (StoresGreatest slot writes t' ∧ AcknowledgedOrder slot t writes) ↔
      NoStaleRevision slot t writes := by
  constructor
  · rintro ⟨-, hack⟩ before
    -- by induction on the length of the prefix: the first stale call meets a faithful row
    induction hn : before.length using Nat.strong_induction_on generalizing before with
    | _ n ih =>
      rintro w after u rfl hbefore hstale
      have hprefix : NoStaleRevision slot t before := fun b w' a u' heq hrun =>
        ih b.length (by rw [← hn, heq]; simp) b rfl w' (a ++ w :: after) u' (by rw [heq]; simp) hrun
      rw [revisions_append, List.map_append] at hd
      have htracks := tracks_of_run hbefore hnew hd.of_append_left hprefix
      obtain ⟨u', hu', hrest⟩ := h.of_append
      obtain rfl := hu'.deterministic Commits.deterministic hbefore
      have hne : revisions slot before ≠ [] := by
        obtain ⟨-, -, -, -, -, -, x, hx, -⟩ := hstale
        exact List.ne_nil_of_mem hx
      cases hrest with
      | cons hs _ =>
        exact hack before w after _ rfl hbefore (exists_acknowledges hbefore hnew hne)
          (overwritesNewer_of_stale hs htracks hstale)
  · intro hns
    refine ⟨fun x hx hgreatest => ?_, fun before w after u heq hrun _ hover => ?_⟩
    · have htracks := tracks_of_run h hnew hd hns
      cases hreg : LwwRegister.writes (revisions slot writes) with
      | none =>
        rw [writes_eq_none_iff.mp hreg] at hx
        exact absurd hx (by simp)
      | some c =>
        obtain rfl := eq_of_greatest hreg hd hx hgreatest
        rw [hreg] at htracks
        generalize hcell : cellAt t' slot = cell at htracks
        cases htracks with
        | value _ =>
          obtain ⟨row, hrow, hc⟩ := Option.map_eq_some_iff.mp hcell
          rw [hrow, Option.map_some]
          exact congrArg some (congrArg Prod.snd hc)
    · exact hns before w after u heq hrun (.of_overwritesNewer hover)

/-! ### A lost revision -/

def spotRoute : StorageRoute where
  provider := "ibkr"
  instrumentId := "AAPL"
  routeFingerprint := "route"
  providerContractId := "265598"
  dataType := "trades"
  authoritativeOhlcv := true
  isFutures := false

/-- A confirmed one-minute bar with a single price. -/
def flatBar (price : ℚ) : Bar where
  symbol := "AAPL"
  ts := 0
  «open» := price
  high := price
  low := price
  close := price
  volume := 0
  timeframe := .m1
  source := "ibkr"
  closed := true
  state := .confirmed
  provenance := some
    { provider := "ibkr"
      instrumentId := "AAPL"
      routeFingerprint := "route"
      requestType := .historical
      providerContractId := "265598"
      providerContractType := "STK"
      dataType := "trades"
      sourceTimeframe := none }
  volume_nonneg := le_rfl
  geometry := by simp
  lifecycle := by simp

def flatSlot : BarSlot := barSlot spotRoute (flatBar 0)

def flatWrite (price : ℚ) (revisionSequence : ℕ) : BarWrite :=
  ⟨spotRoute, [flatBar price], revisionSequence⟩

def flatTable (price : ℚ) (revisionSequence : ℕ) : BarsTable :=
  Dict.empty.insert flatSlot (storedBar spotRoute revisionSequence (flatBar price))

theorem commits_first : Commits .empty (flatWrite 1 1) (flatTable 1 1) := ⟨_, rfl⟩

/-- The row keeps the sequence of its first writer. -/
theorem commits_repeated : Commits (flatTable 1 1) (flatWrite 1 3) (flatTable 1 1) := ⟨_, rfl⟩

theorem commits_stale : Commits (flatTable 1 1) (flatWrite 2 2) (flatTable 2 2) := ⟨_, rfl⟩

theorem revision_order_iff_two :
    (StoresGreatest flatSlot [flatWrite 1 1, flatWrite 2 2] (flatTable 2 2) ∧
        AcknowledgedOrder flatSlot .empty [flatWrite 1 1, flatWrite 2 2]) ↔
      NoStaleRevision flatSlot .empty [flatWrite 1 1, flatWrite 2 2] :=
  revision_order_iff (.cons commits_first (.cons commits_stale (.nil _))) rfl (by decide)

/-- Price `1` at sequence `1`, again at sequence `3`, then price `2` at sequence `2`: the row ends
at price `2`, over an acknowledged revision that was newer. -/
theorem revision_order_violated :
    let history := [flatWrite 1 1, flatWrite 1 3, flatWrite 2 2]
    Run Commits .empty history (flatTable 2 2) ∧
      ((revisions flatSlot history).map Prod.fst).Nodup ∧
      ¬ StoresGreatest flatSlot history (flatTable 2 2) ∧
      ¬ AcknowledgedOrder flatSlot .empty history := by
  refine ⟨.cons commits_first (.cons commits_repeated (.cons commits_stale (.nil _))), by decide,
    fun hstores => ?_, fun hack => ?_⟩
  · exact absurd (hstores (3, barValues (flatBar 1)) (by decide) (by decide)) (by decide)
  · have hrun : Run Commits .empty [flatWrite 1 1, flatWrite 1 3] (flatTable 1 1) :=
      .cons commits_first (.cons commits_repeated (.nil _))
    refine hack [flatWrite 1 1, flatWrite 1 3] (flatWrite 2 2) [] (flatTable 1 1) rfl hrun
      ⟨[], flatWrite 1 1, [flatWrite 1 3], .empty, rfl, .nil _,
        acknowledges_of_none commits_first rfl rfl⟩ ?_
    exact ⟨_, _, _, rfl, rfl, commits_stale, by decide, (3, barValues (flatBar 1)), by decide, rfl,
      by decide⟩

end AefTerminal
