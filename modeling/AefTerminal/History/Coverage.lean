import Mathlib.Data.List.Sort
import Mathlib.Data.Prod.Lex
import AefTerminal.Domain.Bar
import AefTerminal.Foundation.Fallible
import AefTerminal.Foundation.SpanUnion

/-!
# Coverage of provider history

A receipt says that a provider has answered one range of a series completely. What is known of a
series is the union of its receipts, and a window is asked for only where the union does not cover
it.

The three functions are sweeps over sorted ranges. Each is tied here to the set of instants that it
stands for: the union holds the instants of the receipts, what is uncovered of a window holds the
others, and both are lists of ranges that their instants determine.

## Main definitions

* `HistoryCoverageReceipt`
* `historyCoverageUnion`, `historyRangeIsCovered`, `historyUncoveredRanges`

## Main results

* `historyCoverageUnion_eq_ok`: the union of one series
* `coverage_arithmetic`: coverage as the difference of point sets
-/

namespace AefTerminal

open Foundation

/-- Exact authority dimensions that make one range receipt eligible. -/
structure HistoryCoverageContract where
  provider : String
  instrumentId : String
  routeFingerprint : String
  timeframe : BarInterval
  receiptContractVersion : ℕ
  requestContractVersion : ℕ
  admissionContractVersion : ℕ
  requestMode : String
  providerSource : String
  providerContractId : String
  providerContractType : String
  deriving DecidableEq, Repr

/-- One admitted provider-complete exact half-open history range, with the checks of its
`__post_init__` as fields. -/
structure HistoryCoverageReceipt where
  contract : HistoryCoverageContract
  coveredFrom : Time
  coveredTo : Time
  responseCount : ℕ
  completedAt : Time
  providerLimit : Option ℕ
  /-- `history coverage range must be non-empty` -/
  nonempty : coveredFrom < coveredTo
  /-- `history coverage range must be fully elapsed` -/
  elapsed : coveredTo ≤ completedAt
  /-- `history coverage response must not be saturated` -/
  unsaturated : ∀ limit ∈ providerLimit, 0 < limit ∧ responseCount < limit

def HistoryCoverageReceipt.range (r : HistoryCoverageReceipt) : Span Time :=
  ⟨r.coveredFrom, r.coveredTo⟩

theorem HistoryCoverageReceipt.range_proper (r : HistoryCoverageReceipt) : r.range.Proper :=
  r.nonempty

/-- The key that receipts are sorted by. -/
def HistoryCoverageReceipt.sortKey (r : HistoryCoverageReceipt) : Time ×ₗ Time :=
  toLex (r.coveredFrom, r.coveredTo)

/-- A receipt in the merge: it extends the last range where it touches it. -/
def mergeReceipt (merged : List (Span Time)) (r : HistoryCoverageReceipt) : List (Span Time) :=
  match merged.getLast? with
  | none => merged ++ [r.range]
  | some last =>
    if last.ends < r.coveredFrom then merged ++ [r.range]
    else merged.dropLast ++ [⟨last.starts, max last.ends r.coveredTo⟩]

/-- Merge overlapping or adjacent receipts without inventing intermediate slots. -/
def historyCoverageUnion (receipts : List HistoryCoverageReceipt) :
    Except String (List (Span Time)) :=
  match receipts with
  | [] => pure []
  | r :: _ => do
    require (∀ r' ∈ receipts, r'.contract = r.contract)
      "history coverage union requires one exact contract"
    pure ((receipts.insertionSort fun a b => a.sortKey ≤ b.sortKey).foldl mergeReceipt [])

/-- Whether the eligible receipt union covers one exact half-open range. -/
def historyRangeIsCovered (receipts : List HistoryCoverageReceipt) (window : Span Time) :
    Except String Bool := do
  require (window.starts < window.ends) "history coverage query range must be non-empty"
  let union ← historyCoverageUnion receipts
  pure (union.any fun s => s.starts ≤ window.starts ∧ window.ends ≤ s.ends)

/-- What the loop leaves of the window. -/
def closeUncovered (window : Span Time) (cursor : Time) (uncovered : List (Span Time)) :
    List (Span Time) :=
  if cursor < window.ends then uncovered ++ [⟨cursor, window.ends⟩] else uncovered

/-- The loop over the union, with its cursor and what it has collected. -/
def sweepUncovered (window : Span Time) :
    List (Span Time) → Time → List (Span Time) → List (Span Time)
  | [], cursor, uncovered => closeUncovered window cursor uncovered
  | s :: union, cursor, uncovered =>
    if s.ends ≤ cursor then sweepUncovered window union cursor uncovered
    else if window.ends ≤ s.starts then closeUncovered window cursor uncovered
    else
      let clippedFrom := max s.starts window.starts
      let clippedTo := min s.ends window.ends
      let uncovered :=
        if cursor < clippedFrom then uncovered ++ [⟨cursor, clippedFrom⟩] else uncovered
      let cursor := max cursor clippedTo
      if window.ends ≤ cursor then closeUncovered window cursor uncovered
      else sweepUncovered window union cursor uncovered

/-- Subtract the eligible receipt union from one exact half-open range. -/
def historyUncoveredRanges (receipts : List HistoryCoverageReceipt) (window : Span Time) :
    Except String (List (Span Time)) := do
  require (window.starts < window.ends) "history coverage query range must be non-empty"
  let union ← historyCoverageUnion receipts
  pure (sweepUncovered window union window.starts [])

/-! ### The union -/

section Union

variable {receipts : List HistoryCoverageReceipt} {c : HistoryCoverageContract}

/-- The receipts after the first are joined to the last merged range. -/
theorem foldl_mergeReceipt (merged : List (Span Time)) (last : Span Time) :
    receipts.foldl mergeReceipt (merged ++ [last]) =
      merged ++ Span.joined last (receipts.map HistoryCoverageReceipt.range) := by
  induction receipts generalizing merged last with
  | nil => rfl
  | cons r receipts ih =>
    rw [List.foldl_cons, List.map_cons, Span.joined]
    have hlast : (merged ++ [last]).getLast? = some last := List.getLast?_concat
    by_cases hgap : last.ends < r.range.starts
    · have hmerge : mergeReceipt (merged ++ [last]) r = merged ++ [last] ++ [r.range] := by
        rw [mergeReceipt, hlast]
        exact if_pos hgap
      rw [if_pos hgap, hmerge, ih, List.append_assoc, List.singleton_append]
    · have hmerge : mergeReceipt (merged ++ [last]) r =
          merged ++ [⟨last.starts, max last.ends r.range.ends⟩] := by
        rw [mergeReceipt, hlast, List.dropLast_concat]
        exact if_neg hgap
      rw [if_neg hgap, hmerge, ih]

/-- What the merge makes of receipts in the order of their keys. -/
theorem foldl_mergeReceipt_spec
    (hsorted : receipts.Pairwise fun a b => a.coveredFrom ≤ b.coveredFrom) :
    Span.Separated (receipts.foldl mergeReceipt []) ∧
      ∀ t, Span.Held (receipts.foldl mergeReceipt []) t ↔ ∃ r ∈ receipts, r.range.Holds t := by
  cases receipts with
  | nil => exact ⟨Span.separated_nil, by simp⟩
  | cons r receipts =>
    have hmerged : (r :: receipts).foldl mergeReceipt [] =
        Span.joined r.range (receipts.map HistoryCoverageReceipt.range) :=
      foldl_mergeReceipt [] r.range
    have hstarts : (r.range :: receipts.map HistoryCoverageReceipt.range).Pairwise
        fun s s' => s.starts ≤ s'.starts := by
      rw [← List.map_cons]
      exact List.pairwise_map.mpr hsorted
    have hproper : ∀ s ∈ r.range :: receipts.map HistoryCoverageReceipt.range, s.Proper := by
      rw [← List.map_cons]
      exact List.forall_mem_map.mpr fun r _ => r.range_proper
    rw [hmerged]
    refine ⟨Span.separated_joined hstarts hproper, fun t => ?_⟩
    rw [Span.held_joined hstarts, ← Span.held_cons, ← List.map_cons]
    simp [Span.Held]

/-- The union of the receipts of one series: ranges with gaps between them, which hold what the
receipts hold. -/
theorem historyCoverageUnion_eq_ok (hseries : ∀ r ∈ receipts, r.contract = c) :
    ∃ union, historyCoverageUnion receipts = .ok union ∧ Span.Separated union ∧
      ∀ t, Span.Held union t ↔ ∃ r ∈ receipts, r.range.Holds t := by
  cases receipts with
  | nil => exact ⟨[], rfl, Span.separated_nil, by simp⟩
  | cons r receipts =>
    have hone : ∀ r' ∈ r :: receipts, r'.contract = r.contract := fun r' hr' =>
      (hseries r' hr').trans (hseries r (by simp)).symm
    have hperm := List.perm_insertionSort
      (fun a b : HistoryCoverageReceipt => a.sortKey ≤ b.sortKey) (r :: receipts)
    have hsorted : ((r :: receipts).insertionSort fun a b => a.sortKey ≤ b.sortKey).Pairwise
        fun a b => a.coveredFrom ≤ b.coveredFrom := by
      refine (List.pairwise_insertionSort
        (fun a b : HistoryCoverageReceipt => a.sortKey ≤ b.sortKey) _).imp fun h => ?_
      exact (Prod.Lex.le_iff.mp h).elim le_of_lt fun h => h.1.le
    obtain ⟨hseparated, hheld⟩ := foldl_mergeReceipt_spec hsorted
    refine ⟨_, ?_, hseparated, fun t => (hheld t).trans ?_⟩
    · rw [historyCoverageUnion, require_eq_ok (u := .unit).mpr hone]
      rfl
    · exact exists_congr fun r' => and_congr_left fun _ => hperm.mem_iff

/-- The order of the receipts of a series does not matter. -/
theorem historyCoverageUnion_perm {receipts' : List HistoryCoverageReceipt}
    (hseries : ∀ r ∈ receipts, r.contract = c) (hperm : receipts'.Perm receipts) :
    historyCoverageUnion receipts' = historyCoverageUnion receipts := by
  obtain ⟨union, hunion, hseparated, hheld⟩ := historyCoverageUnion_eq_ok hseries
  obtain ⟨union', hunion', hseparated', hheld'⟩ :=
    historyCoverageUnion_eq_ok fun r hr => hseries r (hperm.mem_iff.mp hr)
  rw [hunion, hunion', hseparated'.ext hseparated fun t => ?_]
  rw [hheld, hheld']
  exact exists_congr fun r => and_congr_left fun _ => hperm.mem_iff

end Union

/-! ### The window -/

section Window

variable {window : Span Time} {union : List (Span Time)} {cursor : Time}

theorem closeUncovered_eq (uncovered : List (Span Time)) :
    closeUncovered window cursor uncovered = uncovered ++ Span.remainder cursor window.ends := by
  rw [closeUncovered, Span.remainder]
  split
  · rfl
  · rw [List.append_nil]

/-- The loop collects the gaps of the union from its cursor on. -/
theorem sweepUncovered_eq (hcursor : window.starts ≤ cursor) (uncovered : List (Span Time)) :
    sweepUncovered window union cursor uncovered =
      uncovered ++ Span.gaps window.ends cursor union := by
  induction union generalizing cursor uncovered with
  | nil => exact closeUncovered_eq uncovered
  | cons s union ih =>
    rw [sweepUncovered, Span.gaps]
    by_cases hpast : s.ends ≤ cursor
    · rw [if_pos hpast, if_pos hpast, ih hcursor]
    by_cases hbeyond : window.ends ≤ s.starts
    · rw [if_neg hpast, if_pos hbeyond, if_neg hpast, if_pos hbeyond, closeUncovered_eq]
    rw [if_neg hpast, if_neg hbeyond, if_neg hpast, if_neg hbeyond]
    have hopen : cursor < s.ends := not_le.mp hpast
    -- the range is clipped at the start of the window only where the cursor is past it
    have hgap : (if cursor < max s.starts window.starts
        then uncovered ++ [⟨cursor, max s.starts window.starts⟩] else uncovered) =
        uncovered ++ Span.remainder cursor s.starts := by
      rw [Span.remainder]
      by_cases hlt : cursor < s.starts
      · rw [max_eq_left (hcursor.trans hlt.le), if_pos hlt, if_pos hlt]
      · have hmax : ¬ cursor < max s.starts window.starts :=
          not_lt.mpr (max_le (not_lt.mp hlt) hcursor)
        rw [if_neg hlt, if_neg hmax, List.append_nil]
    dsimp only
    rw [hgap]
    by_cases hends : window.ends ≤ s.ends
    · -- the range reaches the end of the window: nothing is left
      have hdone : window.ends ≤ max cursor (min s.ends window.ends) := by
        rw [min_eq_right hends]
        exact le_max_right _ _
      rw [if_pos hdone, closeUncovered, if_neg (not_lt.mpr hdone), Span.gaps_of_le hends,
        List.append_nil]
    · have hnext : max cursor (min s.ends window.ends) = s.ends := by
        rw [min_eq_left (not_le.mp hends).le, max_eq_right hopen.le]
      rw [hnext, if_neg hends, ih (hcursor.trans hopen.le), List.append_assoc]

/-- For receipts of one series in any order and any window: what is uncovered of the window are the
ranges, with gaps between them, that hold the instants of the window that no receipt holds. The
window is covered where there are none, and the union does not depend on the order. -/
theorem coverage_arithmetic {receipts : List HistoryCoverageReceipt} {c : HistoryCoverageContract}
    (hseries : ∀ r ∈ receipts, r.contract = c) (hwindow : window.starts < window.ends) :
    ∃ union uncovered covered,
      historyCoverageUnion receipts = .ok union ∧
      historyUncoveredRanges receipts window = .ok uncovered ∧
      historyRangeIsCovered receipts window = .ok covered ∧
      Span.Separated uncovered ∧
      (∀ t, Span.Held uncovered t ↔ window.Holds t ∧ ¬ ∃ r ∈ receipts, r.range.Holds t) ∧
      (covered = true ↔ uncovered = []) ∧
      ∀ receipts', receipts'.Perm receipts → historyCoverageUnion receipts' = .ok union := by
  obtain ⟨union, hunion, hseparated, hheld⟩ := historyCoverageUnion_eq_ok hseries
  have huncovered : historyUncoveredRanges receipts window =
      .ok (Span.gaps window.ends window.starts union) := by
    rw [historyUncoveredRanges, require_eq_ok (u := .unit).mpr hwindow, hunion]
    exact congrArg Except.ok (sweepUncovered_eq le_rfl [])
  have hpoints : ∀ t, Span.Held (Span.gaps window.ends window.starts union) t ↔
      window.Holds t ∧ ¬ ∃ r ∈ receipts, r.range.Holds t := fun t =>
    (Span.held_gaps hseparated).trans (and_congr_right fun _ => not_congr (hheld t))
  have hcovered : historyRangeIsCovered receipts window =
      .ok (union.any fun s => s.starts ≤ window.starts ∧ window.ends ≤ s.ends) := by
    rw [historyRangeIsCovered, require_eq_ok (u := .unit).mpr hwindow, hunion]
    rfl
  refine ⟨union, _, _, hunion, huncovered, hcovered, Span.separated_gaps hseparated, hpoints, ?_,
    fun receipts' hperm => (historyCoverageUnion_perm hseries hperm).trans hunion⟩
  have hany : (union.any fun s => s.starts ≤ window.starts ∧ window.ends ≤ s.ends) = true ↔
      ∃ s ∈ union, window.Within s := by
    simp [Span.Within]
  rw [hany, Span.within_separated_iff hseparated hwindow, Span.gaps_eq_nil_iff hseparated]

def exampleContract : HistoryCoverageContract where
  provider := "ibkr"
  instrumentId := "ES"
  routeFingerprint := "route"
  timeframe := .m1
  receiptContractVersion := 2
  requestContractVersion := 2
  admissionContractVersion := 2
  requestMode := "exact"
  providerSource := "historical"
  providerContractId := "100"
  providerContractType := "FUT"

/-- A receipt for a range that is not empty. -/
def exampleReceipt (range : Span Time) (h : range.starts < range.ends) :
    HistoryCoverageReceipt where
  contract := exampleContract
  coveredFrom := range.starts
  coveredTo := range.ends
  responseCount := 1
  completedAt := range.ends
  providerLimit := none
  nonempty := h
  elapsed := le_rfl
  unsaturated := nofun

/-- A receipt that sticks out of the window, one that lies in it, and two that touch. -/
def exampleReceipts : List HistoryCoverageReceipt :=
  [exampleReceipt ⟨6, 9⟩ (by decide), exampleReceipt ⟨0, 4⟩ (by decide),
    exampleReceipt ⟨1, 2⟩ (by decide), exampleReceipt ⟨9, 12⟩ (by decide)]

example : historyUncoveredRanges exampleReceipts ⟨2, 14⟩ = .ok [⟨4, 6⟩, ⟨12, 14⟩] := by
  decide +kernel

theorem coverage_arithmetic_example :
    ∃ union uncovered covered,
      historyCoverageUnion exampleReceipts = .ok union ∧
      historyUncoveredRanges exampleReceipts ⟨2, 14⟩ = .ok uncovered ∧
      historyRangeIsCovered exampleReceipts ⟨2, 14⟩ = .ok covered ∧
      Span.Separated uncovered ∧
      (∀ t, Span.Held uncovered t ↔
        (⟨2, 14⟩ : Span Time).Holds t ∧ ¬ ∃ r ∈ exampleReceipts, r.range.Holds t) ∧
      (covered = true ↔ uncovered = []) ∧
      ∀ receipts', receipts'.Perm exampleReceipts → historyCoverageUnion receipts' = .ok union :=
  coverage_arithmetic (c := exampleContract) (by decide +kernel) (by decide)

end Window

end AefTerminal
