import AefTerminal.History.Coverage

/-!
# The store of coverage receipts

A chunk of a history request is recorded only where it expands what is already covered. The write
reads the receipts of the contract that meet the envelope of the chunks, goes through the chunks in
the order of their ranges, and inserts each that the union of what it has seen does not cover.

Receipts that do not meet the envelope hold no instant of it, so the bounded read and the whole table
cover the same chunks.

## Main definitions

* `HistoryCoverageTable`: the rows, one for each key
* `writeHistoryCoveragesIfExpanded`: the conditional write

## Main results

* `Expanding.run`: what the loop over the chunks keeps
* `coverage_store_expansion`: the write adds the chunks to the union and is idempotent
-/

namespace AefTerminal

open Foundation

/-! ### The table -/

/-- The primary key of a row. -/
def HistoryCoverageReceipt.primaryKey (r : HistoryCoverageReceipt) :
    HistoryCoverageContract × Time × Time :=
  (r.contract, r.coveredFrom, r.coveredTo)

/-- `history_coverage` -/
structure HistoryCoverageTable where
  rows : List HistoryCoverageReceipt
  nodup : (rows.map HistoryCoverageReceipt.primaryKey).Nodup

/-- `INSERT .. ON CONFLICT DO NOTHING`, with the number of rows inserted. -/
def HistoryCoverageTable.insert (table : HistoryCoverageTable) (r : HistoryCoverageReceipt) :
    HistoryCoverageTable × ℕ :=
  if h : r.primaryKey ∈ table.rows.map HistoryCoverageReceipt.primaryKey then (table, 0)
  else
    ({ rows := table.rows ++ [r]
       nodup := by
        rw [List.map_append, List.map_singleton]
        exact List.nodup_append.mpr ⟨table.nodup, List.nodup_singleton _, fun a ha b hb heq =>
          h (List.mem_singleton.mp hb ▸ heq ▸ ha)⟩ }, 1)

/-- The receipts of one contract. -/
def HistoryCoverageTable.of (table : HistoryCoverageTable) (c : HistoryCoverageContract) :
    List HistoryCoverageReceipt :=
  table.rows.filter fun r => r.contract = c

section Write

-- whether `provider_key_for_source` of a provider is the provider itself
variable (registered : String → Bool)

/-- `_require_registered_provider` -/
def requireRegisteredProvider (contract : HistoryCoverageContract) : Except String Unit :=
  require (registered contract.provider = true)
    s!"HISTORY_COVERAGE_PROVIDER_NOT_CANONICAL provider={contract.provider}"

/-- `_write_history_coverages` -/
def writeHistoryCoverages (table : HistoryCoverageTable) (receipts : List HistoryCoverageReceipt) :
    Except String (HistoryCoverageTable × ℕ) := do
  receipts.forM fun receipt => requireRegisteredProvider registered receipt.contract
  pure (receipts.foldl (fun s receipt =>
    ((s.1.insert receipt).1, s.2 + (s.1.insert receipt).2)) (table, 0))

/-- `_read_history_coverages_on_cursor` -/
def readHistoryCoverages (table : HistoryCoverageTable) (contract : HistoryCoverageContract)
    (window : Span Time) : Except String (List HistoryCoverageReceipt) := do
  requireRegisteredProvider registered contract
  require (window.starts < window.ends) "history coverage range must be non-empty"
  pure ((table.rows.filter fun r =>
    r.contract = contract ∧ window.starts < r.coveredTo ∧ r.coveredFrom < window.ends).insertionSort
      fun a b => a.sortKey ≤ b.sortKey)

/-- What the loop over the chunks carries. -/
structure ExpansionState where
  table : HistoryCoverageTable
  eligible : List HistoryCoverageReceipt
  inserted : ℕ

/-- One chunk: it is inserted where the receipts seen so far do not cover it. -/
def expandCoverage (s : ExpansionState) (receipt : HistoryCoverageReceipt) :
    Except String ExpansionState := do
  let covered ← historyRangeIsCovered s.eligible receipt.range
  if covered then pure s
  else do
    let (table, written) ← writeHistoryCoverages registered s.table [receipt]
    require (written = 1) "HISTORY_COVERAGE_EXPANSION_NOT_DURABLE"
    pure { table := table, eligible := s.eligible ++ [receipt], inserted := s.inserted + 1 }

/-- The receipts in the order of their ranges. -/
def orderedReceipts (receipts : List HistoryCoverageReceipt) : List HistoryCoverageReceipt :=
  receipts.insertionSort fun a b => a.sortKey ≤ b.sortKey

/-- From the start of the first receipt to the end of the last. -/
def receiptEnvelope (first : HistoryCoverageReceipt) (ordered : List HistoryCoverageReceipt) :
    Span Time :=
  ⟨(ordered.headD first).coveredFrom, (ordered.getLastD first).coveredTo⟩

/-- `_write_history_coverages_if_expanded`: the table, the number of receipts inserted, and whether
the union has grown. -/
def writeHistoryCoveragesIfExpanded (table : HistoryCoverageTable)
    (receipts : List HistoryCoverageReceipt) :
    Except String (HistoryCoverageTable × ℕ × Bool) :=
  match receipts with
  | [] => pure (table, 0, false)
  | first :: _ => do
    require (∀ receipt ∈ receipts, receipt.contract = first.contract)
      "coverage expansion requires one exact contract"
    require (∀ pair ∈ (orderedReceipts receipts).zip (orderedReceipts receipts).tail,
        pair.1.coveredTo ≤ pair.2.coveredFrom)
      "coverage chunk receipts must not overlap"
    let existing ← readHistoryCoverages registered table first.contract
      (receiptEnvelope first (orderedReceipts receipts))
    let s ← (orderedReceipts receipts).foldlM (expandCoverage registered)
      { table := table, eligible := existing, inserted := 0 }
    pure (s.table, s.inserted, 0 < s.inserted)

end Write

/-! ### What receipts cover -/

/-- The receipts hold every instant of the span. -/
def CoveredBy (receipts : List HistoryCoverageReceipt) (s : Span Time) : Prop :=
  ∀ t, s.Holds t → ∃ r ∈ receipts, r.range.Holds t

section Covered

variable {receipts receipts' : List HistoryCoverageReceipt} {c : HistoryCoverageContract}
  {s : Span Time} {r : HistoryCoverageReceipt}

theorem CoveredBy.mono (h : CoveredBy receipts s) (hsub : receipts ⊆ receipts') :
    CoveredBy receipts' s := fun t ht => by
  obtain ⟨r, hr, hholds⟩ := h t ht
  exact ⟨r, hsub hr, hholds⟩

theorem coveredBy_of_mem (hr : r ∈ receipts) : CoveredBy receipts r.range :=
  fun _ ht => ⟨r, hr, ht⟩

/-- The test of the code, for the receipts of one contract. -/
theorem historyRangeIsCovered_eq (hseries : ∀ r ∈ receipts, r.contract = c) (hs : s.Proper) :
    ∃ covered, historyRangeIsCovered receipts s = .ok covered ∧
      (covered = true ↔ CoveredBy receipts s) := by
  obtain ⟨union, hunion, hseparated, hheld⟩ := historyCoverageUnion_eq_ok hseries
  refine ⟨union.any fun s' => s'.starts ≤ s.starts ∧ s.ends ≤ s'.ends, ?_, ?_⟩
  · have hproper : s.starts < s.ends := hs
    rw [historyRangeIsCovered, require_eq_ok (u := .unit).mpr hproper, hunion]
    rfl
  · have hany : (union.any fun s' => s'.starts ≤ s.starts ∧ s.ends ≤ s'.ends) = true ↔
        ∃ s' ∈ union, s.Within s' := by
      simp [Span.Within]
    rw [hany, Span.within_separated_iff hseparated hs, CoveredBy]
    exact forall₂_congr fun t _ => hheld t

theorem historyRangeIsCovered_eq_ok_true (hseries : ∀ r ∈ receipts, r.contract = c) (hs : s.Proper) :
    historyRangeIsCovered receipts s = .ok true ↔ CoveredBy receipts s := by
  obtain ⟨covered, heq, hcovered⟩ := historyRangeIsCovered_eq hseries hs
  rw [heq, ← hcovered, Except.ok.injEq]

theorem historyRangeIsCovered_eq_ok_false (hseries : ∀ r ∈ receipts, r.contract = c)
    (hs : s.Proper) :
    historyRangeIsCovered receipts s = .ok false ↔ ¬ CoveredBy receipts s := by
  obtain ⟨covered, heq, hcovered⟩ := historyRangeIsCovered_eq hseries hs
  rw [heq, ← hcovered, Except.ok.injEq, Bool.not_eq_true]

/-- Receipts of one contract have the same union where they hold the same instants. -/
theorem historyCoverageUnion_eq_iff (hseries : ∀ r ∈ receipts, r.contract = c)
    (hseries' : ∀ r ∈ receipts', r.contract = c) :
    historyCoverageUnion receipts = historyCoverageUnion receipts' ↔
      ∀ t, (∃ r ∈ receipts, r.range.Holds t) ↔ ∃ r ∈ receipts', r.range.Holds t := by
  obtain ⟨union, hunion, hseparated, hheld⟩ := historyCoverageUnion_eq_ok hseries
  obtain ⟨union', hunion', hseparated', hheld'⟩ := historyCoverageUnion_eq_ok hseries'
  rw [hunion, hunion', Except.ok.injEq]
  constructor
  · rintro rfl t
    rw [← hheld, hheld']
  · intro hall
    refine hseparated.ext hseparated' fun t => ?_
    rw [hheld, hheld', hall]

end Covered

/-! ### The loop over the chunks -/

/-- Where the loop stands after the processed chunks: the added ones are those that what was there
before them did not cover, and what is there now covers all. -/
structure Expanding (table : HistoryCoverageTable) (c : HistoryCoverageContract)
    (existing processed added : List HistoryCoverageReceipt) (s : ExpansionState) : Prop where
  rows : s.table.rows = table.rows ++ added
  eligible : s.eligible = existing ++ added
  count : s.inserted = added.length
  chunks : ∀ r ∈ added, r ∈ processed
  fresh : ∀ before r after, added = before ++ r :: after →
    ¬ CoveredBy (table.of c ++ before) r.range
  covered : ∀ r ∈ processed, CoveredBy (table.of c ++ added) r.range

section Loop

variable {registered : String → Bool} {table table' : HistoryCoverageTable}
  {c : HistoryCoverageContract} {existing processed added chunks : List HistoryCoverageReceipt}
  {s : ExpansionState} {r : HistoryCoverageReceipt}

theorem mem_of : r ∈ table.of c ↔ r ∈ table.rows ∧ r.contract = c := by
  rw [HistoryCoverageTable.of, List.mem_filter, decide_eq_true_iff]

/-- A receipt that is not covered has a new key. -/
theorem primaryKey_notMem (hc : r.contract = c) (h : ¬ CoveredBy (table.of c) r.range) :
    r.primaryKey ∉ table.rows.map HistoryCoverageReceipt.primaryKey := by
  intro hmem
  obtain ⟨r', hr', hkey⟩ := List.mem_map.mp hmem
  obtain ⟨hcontract, hrange⟩ := Prod.mk.inj hkey
  obtain ⟨hfrom, hto⟩ := Prod.mk.inj hrange
  refine h fun t ht => ⟨r', mem_of.mpr ⟨hr', hcontract.trans hc⟩, ?_⟩
  rw [HistoryCoverageReceipt.range, hfrom, hto]
  exact ht

theorem writeHistoryCoverages_singleton (hregistered : registered r.contract.provider = true)
    (hkey : r.primaryKey ∉ table.rows.map HistoryCoverageReceipt.primaryKey) :
    ∃ table', writeHistoryCoverages registered table [r] = .ok (table', 1) ∧
      table'.rows = table.rows ++ [r] := by
  refine ⟨(table.insert r).1, ?_, ?_⟩
  · have hcheck : [r].forM (fun receipt => requireRegisteredProvider registered receipt.contract) =
        .ok () := by
      simp only [List.forM, requireRegisteredProvider]
      rw [require_eq_ok (u := .unit).mpr hregistered]
      rfl
    rw [writeHistoryCoverages, hcheck]
    have hone : (table.insert r).2 = 1 := by rw [HistoryCoverageTable.insert, dif_neg hkey]
    simp [List.foldl, hone, bind, Except.bind, pure, Except.pure]
  · rw [HistoryCoverageTable.insert, dif_neg hkey]

theorem of_eq_of_rows (hrows : table'.rows = table.rows ++ added) (hadded : ∀ r ∈ added, r.contract = c) :
    table'.of c = table.of c ++ added := by
  rw [HistoryCoverageTable.of, hrows, List.filter_append, HistoryCoverageTable.of]
  refine congrArg _ (List.filter_eq_self.mpr fun r hr => ?_)
  exact decide_eq_true (hadded r hr)

/-- One chunk. -/
theorem Expanding.step (h : Expanding table c existing processed added s)
    (hregistered : registered c.provider = true) (hexisting : ∀ r ∈ existing, r.contract = c)
    (hprocessed : ∀ r ∈ processed, r.contract = c) (hr : r.contract = c)
    (hbounded : ∀ added, CoveredBy (existing ++ added) r.range ↔ CoveredBy (table.of c ++ added) r.range) :
    ∃ s' added', expandCoverage registered s r = .ok s' ∧
      Expanding table c existing (processed ++ [r]) added' s' := by
  have hadded : ∀ r ∈ added, r.contract = c := fun r hr => hprocessed r (h.chunks r hr)
  have heligible : ∀ r ∈ s.eligible, r.contract = c := by
    rw [h.eligible]
    exact List.forall_mem_append.mpr ⟨hexisting, hadded⟩
  obtain ⟨covered, htest, hcovered⟩ := historyRangeIsCovered_eq heligible r.range_proper
  rw [h.eligible, hbounded added] at hcovered
  cases covered with
  | true =>
    refine ⟨s, added, by rw [expandCoverage, htest]; rfl, { h with chunks := ?_, covered := ?_ }⟩
    · exact fun r hr => List.mem_append_left _ (h.chunks r hr)
    · exact List.forall_mem_append.mpr ⟨h.covered, List.forall_mem_singleton.mpr (hcovered.mp rfl)⟩
  | false =>
    have hnot : ¬ CoveredBy (table.of c ++ added) r.range := fun hall => nomatch hcovered.mpr hall
    have hof := of_eq_of_rows h.rows hadded
    obtain ⟨table', hwrite, hrows⟩ := writeHistoryCoverages_singleton (hr ▸ hregistered)
      (primaryKey_notMem hr (hof.symm ▸ hnot))
    refine ⟨{ table := table', eligible := s.eligible ++ [r], inserted := s.inserted + 1 },
      added ++ [r], by rw [expandCoverage, htest]; simp [hwrite, bind, Except.bind, require, pure, Except.pure],
      { rows := by rw [hrows, h.rows, List.append_assoc]
        eligible := by rw [h.eligible, List.append_assoc]
        count := by rw [List.length_append, h.count]; rfl
        chunks := ?_, fresh := ?_, covered := ?_ }⟩
    · refine List.forall_mem_append.mpr ⟨fun r hr => List.mem_append_left _ (h.chunks r hr), ?_⟩
      exact List.forall_mem_singleton.mpr (by simp)
    · intro before r' after hsplit
      rcases List.eq_nil_or_concat after with rfl | ⟨after, last, rfl⟩
      · obtain ⟨rfl, hlast⟩ := List.append_inj' hsplit rfl
        rw [← List.singleton_inj.mp hlast]
        exact hnot
      · rw [List.concat_eq_append, ← List.cons_append, ← List.append_assoc] at hsplit
        exact h.fresh before r' after (List.append_inj' hsplit rfl).1
    · refine List.forall_mem_append.mpr ⟨fun r' hr' => (h.covered r' hr').mono ?_, ?_⟩
      · rw [← List.append_assoc]
        exact List.subset_append_left _ _
      · exact List.forall_mem_singleton.mpr (coveredBy_of_mem (by simp))

theorem expanding_nil : Expanding table c existing [] [] ⟨table, existing, 0⟩ where
  rows := (List.append_nil _).symm
  eligible := (List.append_nil _).symm
  count := rfl
  chunks _ hr := absurd hr List.not_mem_nil
  fresh := by
    intro before r after hsplit
    exact absurd hsplit.symm (by simp)
  covered _ hr := absurd hr List.not_mem_nil

/-- All chunks. -/
theorem Expanding.run (h : Expanding table c existing processed added s)
    (hregistered : registered c.provider = true) (hexisting : ∀ r ∈ existing, r.contract = c)
    (hprocessed : ∀ r ∈ processed, r.contract = c) (hchunks : ∀ r ∈ chunks, r.contract = c)
    (hbounded : ∀ r ∈ chunks, ∀ added,
      CoveredBy (existing ++ added) r.range ↔ CoveredBy (table.of c ++ added) r.range) :
    ∃ s' added', chunks.foldlM (expandCoverage registered) s = .ok s' ∧
      Expanding table c existing (processed ++ chunks) added' s' := by
  induction chunks generalizing processed added s with
  | nil => exact ⟨s, added, rfl, by rwa [List.append_nil]⟩
  | cons r chunks ih =>
    obtain ⟨hr, hrest⟩ := List.forall_mem_cons.mp hchunks
    obtain ⟨hrbounded, hrestbounded⟩ := List.forall_mem_cons.mp hbounded
    obtain ⟨s₁, added₁, hstep, h₁⟩ := h.step hregistered hexisting hprocessed hr hrbounded
    obtain ⟨s', added', hrun, h'⟩ := ih h₁
      (List.forall_mem_append.mpr ⟨hprocessed, List.forall_mem_singleton.mpr hr⟩) hrest hrestbounded
    refine ⟨s', added', ?_, by rwa [List.append_assoc] at h'⟩
    rw [List.foldlM_cons, hstep]
    exact hrun

/-- Chunks that are covered change nothing. -/
theorem expandCoverage_of_covered (hseries : ∀ r ∈ s.eligible, r.contract = c)
    (hcovered : ∀ r ∈ chunks, CoveredBy s.eligible r.range) :
    chunks.foldlM (expandCoverage registered) s = .ok s := by
  induction chunks with
  | nil => rfl
  | cons r chunks ih =>
    obtain ⟨hr, hrest⟩ := List.forall_mem_cons.mp hcovered
    have htest := (historyRangeIsCovered_eq_ok_true hseries r.range_proper).mpr hr
    have hstep : expandCoverage registered s r = .ok s := by
      rw [expandCoverage, htest]
      rfl
    rw [List.foldlM_cons, hstep]
    exact ih hrest

end Loop

/-! ### The order of the chunks -/

section Order

variable {chunks : List HistoryCoverageReceipt} {c : HistoryCoverageContract}
  {r : HistoryCoverageReceipt}

theorem mem_orderedReceipts : r ∈ orderedReceipts chunks ↔ r ∈ chunks :=
  (List.perm_insertionSort _ _).mem_iff

theorem forall_mem_zip_tail {α : Type*} {R : α → α → Prop} {l : List α} (h : l.Pairwise R) :
    ∀ pair ∈ l.zip l.tail, R pair.1 pair.2 := by
  induction l with
  | nil => exact fun _ hpair => nomatch hpair
  | cons a l ih =>
    obtain ⟨hfirst, hrest⟩ := List.pairwise_cons.mp h
    cases l with
    | nil => exact fun _ hpair => nomatch hpair
    | cons b l => exact List.forall_mem_cons.mpr ⟨hfirst b (by simp), ih hrest⟩

/-- Chunks that do not meet follow each other in the order of their ranges. -/
theorem orderedReceipts_apart
    (hapart : chunks.Pairwise fun a b => ¬ a.range.Meets b.range) :
    (orderedReceipts chunks).Pairwise fun a b => a.coveredTo ≤ b.coveredFrom := by
  have hperm := List.perm_insertionSort
    (fun a b : HistoryCoverageReceipt => a.sortKey ≤ b.sortKey) chunks
  have hapart' : (orderedReceipts chunks).Pairwise fun a b => ¬ a.range.Meets b.range :=
    (hperm.pairwise_iff fun hnot hmeets => hnot hmeets.symm).mpr hapart
  have hsorted : (orderedReceipts chunks).Pairwise fun a b => a.sortKey ≤ b.sortKey :=
    List.pairwise_insertionSort _ _
  refine (hsorted.and hapart').imp fun {a b} h => not_lt.mp fun hlt => h.2 ⟨?_, hlt⟩
  have hstarts : a.coveredFrom ≤ b.coveredFrom :=
    (Prod.Lex.le_iff.mp h.1).elim le_of_lt fun h => h.1.le
  exact lt_of_le_of_lt hstarts b.nonempty

/-- Every chunk lies in the envelope. -/
theorem within_receiptEnvelope (first : HistoryCoverageReceipt)
    (hapart : (orderedReceipts chunks).Pairwise fun a b => a.coveredTo ≤ b.coveredFrom)
    (hr : r ∈ orderedReceipts chunks) :
    r.range.Within (receiptEnvelope first (orderedReceipts chunks)) := by
  constructor
  · cases hordered : orderedReceipts chunks with
    | nil => exact absurd (hordered ▸ hr) List.not_mem_nil
    | cons a rest =>
      rw [hordered] at hapart hr
      rcases List.mem_cons.mp hr with rfl | hr
      · exact le_rfl
      · exact a.nonempty.le.trans ((List.pairwise_cons.mp hapart).1 r hr)
  · rcases List.eq_nil_or_concat (orderedReceipts chunks) with hnil | ⟨rest, b, hordered⟩
    · exact absurd (hnil ▸ hr) List.not_mem_nil
    · rw [List.concat_eq_append] at hordered
      rw [hordered] at hapart hr ⊢
      have hlast : (receiptEnvelope first (rest ++ [b])).ends = b.coveredTo := by
        simp [receiptEnvelope]
      rw [hlast]
      rcases List.mem_append.mp hr with hr | hr
      · exact ((List.pairwise_append.mp hapart).2.2 r hr b (by simp)).trans b.nonempty.le
      · rw [List.mem_singleton.mp hr]
        exact le_rfl

end Order

/-! ### The write -/

section Expansion

variable {registered : String → Bool} {table table' : HistoryCoverageTable}
  {c : HistoryCoverageContract} {chunks added : List HistoryCoverageReceipt}
  {first r : HistoryCoverageReceipt} {window : Span Time}

/-- The receipts of a contract that meet a window. -/
def boundedReceipts (table : HistoryCoverageTable) (c : HistoryCoverageContract)
    (window : Span Time) : List HistoryCoverageReceipt :=
  (table.rows.filter fun r =>
    r.contract = c ∧ window.starts < r.coveredTo ∧ r.coveredFrom < window.ends).insertionSort
      fun a b => a.sortKey ≤ b.sortKey

theorem mem_boundedReceipts : r ∈ boundedReceipts table c window ↔
    r ∈ table.of c ∧ window.starts < r.coveredTo ∧ r.coveredFrom < window.ends := by
  rw [boundedReceipts, (List.perm_insertionSort _ _).mem_iff, List.mem_filter, mem_of,
    decide_eq_true_iff, and_assoc]

theorem readHistoryCoverages_eq (hregistered : registered c.provider = true)
    (hwindow : window.starts < window.ends) :
    readHistoryCoverages registered table c window = .ok (boundedReceipts table c window) := by
  rw [readHistoryCoverages, requireRegisteredProvider,
    require_eq_ok (u := .unit).mpr hregistered, require_eq_ok (u := .unit).mpr hwindow]
  rfl

/-- In a window, the receipts that meet it cover what all do. -/
theorem coveredBy_boundedReceipts_iff (hr : r.range.Within window) (added : List HistoryCoverageReceipt) :
    CoveredBy (boundedReceipts table c window ++ added) r.range ↔
      CoveredBy (table.of c ++ added) r.range := by
  constructor
  · refine fun h => h.mono (List.append_subset.mpr ⟨fun r hr => ?_, List.subset_append_right _ _⟩)
    exact List.mem_append_left _ (mem_boundedReceipts.mp hr).1
  · intro h t ht
    obtain ⟨r', hr', hholds⟩ := h t ht
    refine ⟨r', ?_, hholds⟩
    rcases List.mem_append.mp hr' with hr' | hr'
    · have hin := hr.holds ht
      refine List.mem_append_left _ (mem_boundedReceipts.mpr ⟨hr', ?_, ?_⟩)
      · exact lt_of_le_of_lt hin.1 hholds.2
      · exact lt_of_le_of_lt hholds.1 hin.2
    · exact List.mem_append_right _ hr'

/-- The write is its loop, from the receipts that meet the envelope. -/
theorem writeHistoryCoveragesIfExpanded_eq {s : ExpansionState} (hfirst : first.contract = c)
    (hregistered : registered c.provider = true)
    (hcontract : ∀ r ∈ first :: chunks, r.contract = c)
    (hapart : (first :: chunks).Pairwise fun a b => ¬ a.range.Meets b.range)
    (hrun : (orderedReceipts (first :: chunks)).foldlM (expandCoverage registered)
      ⟨table, boundedReceipts table c (receiptEnvelope first (orderedReceipts (first :: chunks))), 0⟩ =
        .ok s) :
    writeHistoryCoveragesIfExpanded registered table (first :: chunks) =
      .ok (s.table, s.inserted, decide (0 < s.inserted)) := by
  have hone : ∀ r ∈ first :: chunks, r.contract = first.contract := fun r hr =>
    (hcontract r hr).trans hfirst.symm
  have horder := orderedReceipts_apart hapart
  have hwithin := within_receiptEnvelope first horder
    (mem_orderedReceipts.mpr (List.mem_cons_self (a := first) (l := chunks)))
  have hwindow : (receiptEnvelope first (orderedReceipts (first :: chunks))).starts <
      (receiptEnvelope first (orderedReceipts (first :: chunks))).ends :=
    lt_of_le_of_lt hwithin.1 (lt_of_lt_of_le first.nonempty hwithin.2)
  rw [writeHistoryCoveragesIfExpanded, require_eq_ok (u := .unit).mpr hone,
    require_eq_ok (u := .unit).mpr (forall_mem_zip_tail horder), hfirst]
  simp only [readHistoryCoverages_eq hregistered hwindow, hrun, bind, Except.bind, pure, Except.pure]

/-- What the write leaves: the loop from the stored receipts. -/
theorem exists_expanding (hregistered : registered c.provider = true)
    (hcontract : ∀ r ∈ chunks, r.contract = c)
    (hapart : chunks.Pairwise fun a b => ¬ a.range.Meets b.range) :
    ∃ table' added, writeHistoryCoveragesIfExpanded registered table chunks =
        .ok (table', added.length, decide (0 < added.length)) ∧
      table'.rows = table.rows ++ added ∧ (∀ r ∈ added, r ∈ chunks) ∧
      (∀ before r after, added = before ++ r :: after →
        ¬ CoveredBy (table.of c ++ before) r.range) ∧
      ∀ r ∈ chunks, CoveredBy (table.of c ++ added) r.range := by
  cases chunks with
  | nil =>
    exact ⟨table, [], rfl, (List.append_nil _).symm, fun _ hr => absurd hr List.not_mem_nil,
      by simp, fun _ hr => absurd hr List.not_mem_nil⟩
  | cons first chunks =>
    have hwithin : ∀ r ∈ orderedReceipts (first :: chunks),
        r.range.Within (receiptEnvelope first (orderedReceipts (first :: chunks))) := fun r hr =>
      within_receiptEnvelope first (orderedReceipts_apart hapart) hr
    have hstart : Expanding table c (boundedReceipts table c
        (receiptEnvelope first (orderedReceipts (first :: chunks)))) [] [] ⟨table, _, 0⟩ :=
      expanding_nil
    obtain ⟨s, added, hrun, hexpanding⟩ := hstart.run hregistered
      (fun r hr => (mem_of.mp (mem_boundedReceipts.mp hr).1).2)
      (fun _ hr => absurd hr List.not_mem_nil)
      (fun r hr => hcontract r (mem_orderedReceipts.mp hr))
      fun r hr added => coveredBy_boundedReceipts_iff (hwithin r hr) added
    rw [List.nil_append] at hexpanding
    refine ⟨s.table, added, ?_, hexpanding.rows,
      fun r hr => mem_orderedReceipts.mp (hexpanding.chunks r hr), hexpanding.fresh,
      fun r hr => hexpanding.covered r (mem_orderedReceipts.mpr hr)⟩
    rw [← hexpanding.count]
    exact writeHistoryCoveragesIfExpanded_eq (hcontract first (by simp)) hregistered hcontract
      hapart hrun

/-- Where all chunks are covered, the write leaves the table. -/
theorem write_of_covered (hregistered : registered c.provider = true)
    (hcontract : ∀ r ∈ chunks, r.contract = c)
    (hapart : chunks.Pairwise fun a b => ¬ a.range.Meets b.range)
    (hcovered : ∀ r ∈ chunks, CoveredBy (table.of c) r.range) :
    writeHistoryCoveragesIfExpanded registered table chunks = .ok (table, 0, false) := by
  cases chunks with
  | nil => rfl
  | cons first chunks =>
    refine writeHistoryCoveragesIfExpanded_eq (hcontract first (by simp)) hregistered hcontract hapart
      (expandCoverage_of_covered (fun r hr => (mem_of.mp (mem_boundedReceipts.mp hr).1).2) ?_)
    intro r hr
    have hwithin := within_receiptEnvelope first (orderedReceipts_apart hapart) hr
    rw [← List.append_nil (boundedReceipts table c _), coveredBy_boundedReceipts_iff hwithin,
      List.append_nil]
    exact hcovered r (mem_orderedReceipts.mp hr)

/-- **Expansion of the coverage store.** For chunks of one contract that do not meet, in any order,
the write adds to the stored union exactly the chunks. It inserts a chunk only where the stored
receipts and those inserted before it do not cover it, says that the union has grown exactly where it
has, and does nothing the second time. -/
theorem coverage_store_expansion (registered : String → Bool) (table : HistoryCoverageTable)
    (c : HistoryCoverageContract) (chunks : List HistoryCoverageReceipt)
    (hregistered : registered c.provider = true) (hcontract : ∀ r ∈ chunks, r.contract = c)
    (hapart : chunks.Pairwise fun a b => ¬ a.range.Meets b.range) :
    ∃ table' added expanded,
      writeHistoryCoveragesIfExpanded registered table chunks =
        .ok (table', added.length, expanded) ∧
      table'.rows = table.rows ++ added ∧ (∀ r ∈ added, r ∈ chunks) ∧
      historyCoverageUnion (table'.of c) = historyCoverageUnion (table.of c ++ chunks) ∧
      (∀ before r after, added = before ++ r :: after →
        historyRangeIsCovered (table.of c ++ before) r.range = .ok false) ∧
      (expanded = true ↔
        historyCoverageUnion (table'.of c) ≠ historyCoverageUnion (table.of c)) ∧
      writeHistoryCoveragesIfExpanded registered table' chunks = .ok (table', 0, false) := by
  obtain ⟨table', added, hwrite, hrows, hchunks, hfresh, hcovered⟩ :=
    exists_expanding hregistered hcontract hapart
  have hadded : ∀ r ∈ added, r.contract = c := fun r hr => hcontract r (hchunks r hr)
  have hof := of_eq_of_rows hrows hadded
  have hstored : ∀ r ∈ table.of c, r.contract = c := fun r hr => (mem_of.mp hr).2
  have hstored' : ∀ r ∈ table'.of c, r.contract = c := fun r hr => (mem_of.mp hr).2
  refine ⟨table', added, _, hwrite, hrows, hchunks, ?_, fun before r after hsplit => ?_, ?_, ?_⟩
  · rw [historyCoverageUnion_eq_iff hstored' (List.forall_mem_append.mpr ⟨hstored, hcontract⟩), hof]
    intro t
    constructor
    · rintro ⟨r, hr, ht⟩
      rcases List.mem_append.mp hr with hr | hr
      · exact ⟨r, List.mem_append_left _ hr, ht⟩
      · exact ⟨r, List.mem_append_right _ (hchunks r hr), ht⟩
    · rintro ⟨r, hr, ht⟩
      rcases List.mem_append.mp hr with hr | hr
      · exact ⟨r, List.mem_append_left _ hr, ht⟩
      · exact hcovered r hr t ht
  · refine (historyRangeIsCovered_eq_ok_false (List.forall_mem_append.mpr ⟨hstored, ?_⟩)
      r.range_proper).mpr (hfresh before r after hsplit)
    exact fun r' hr' => hadded r' (hsplit ▸ List.mem_append_left _ hr')
  · rw [decide_eq_true_iff, ne_eq, historyCoverageUnion_eq_iff hstored' hstored, hof]
    cases added with
    | nil => simp
    | cons r added =>
      refine iff_of_true (Nat.succ_pos _) fun hsame => ?_
      -- the first chunk that was inserted holds an instant that nothing stored holds
      refine hfresh [] r added rfl fun t ht => ?_
      rw [List.append_nil]
      exact (hsame t).mp ⟨r, by simp, ht⟩
  · exact write_of_covered hregistered hcontract hapart fun r hr => hof ▸ hcovered r hr

/-- A table with one receipt, which sticks out of the envelope of the chunks. -/
def storedExample : HistoryCoverageTable where
  rows := [exampleReceipt ⟨0, 4⟩ (by decide : (0 : ℤ) < 4)]
  nodup := by decide

/-- Chunks that touch each other: one partly covered, one new, one covered. -/
def chunkExamples : List HistoryCoverageReceipt :=
  [exampleReceipt ⟨6, 9⟩ (by decide : (6 : ℤ) < 9), exampleReceipt ⟨3, 6⟩ (by decide),
    exampleReceipt ⟨2, 3⟩ (by decide)]

/-- **Expansion of the coverage store**, for three chunks. -/
theorem coverage_store_expansion_example :
    ∃ table' added expanded,
      writeHistoryCoveragesIfExpanded (fun _ => true) storedExample chunkExamples =
        .ok (table', added.length, expanded) ∧
      table'.rows = storedExample.rows ++ added ∧ (∀ r ∈ added, r ∈ chunkExamples) ∧
      historyCoverageUnion (table'.of exampleContract) =
        historyCoverageUnion (storedExample.of exampleContract ++ chunkExamples) ∧
      (∀ before r after, added = before ++ r :: after →
        historyRangeIsCovered (storedExample.of exampleContract ++ before) r.range = .ok false) ∧
      (expanded = true ↔ historyCoverageUnion (table'.of exampleContract) ≠
        historyCoverageUnion (storedExample.of exampleContract)) ∧
      writeHistoryCoveragesIfExpanded (fun _ => true) table' chunkExamples =
        .ok (table', 0, false) :=
  coverage_store_expansion _ _ exampleContract _ rfl (by decide +kernel) (by decide)

end Expansion

end AefTerminal
