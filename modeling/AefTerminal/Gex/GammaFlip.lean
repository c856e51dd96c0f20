import AefTerminal.Domain.Rounding
import AefTerminal.Foundation.Bisection
import AefTerminal.Foundation.Dict
import AefTerminal.Foundation.Fallible
import AefTerminal.Gex.Contracts
import Mathlib.Data.List.MinMax

/-!
# The search for zero gamma

`compute_gamma_flip` reprices the chain over a grid of underlying prices, takes the grid prices where
the total is zero and the cells where its sign changes, and returns the root nearest to the spot. A
grid price is tested as the left end of its cell. The last one is no left end, so a total that is
zero there and nowhere else on the grid, and never changes its sign, has no root for the search.

The total of the model is a parameter. A check that fails makes the search unavailable, whichever
check it is.

## Main definitions

* `selectGammaRows`, `gammaSearchBounds`: the checks of a chain, and the interval that is searched
* `zeroGammaRoot`: grid, brackets, bisection and choice of a root
* `computeGammaFlip`

## Main results

* `mem_gammaBrackets`: which brackets are searched
* `zero_gamma_found_iff`
-/

namespace AefTerminal

open Foundation

/-! ### The chain -/

inductive OptionRight
  | call | put
  deriving DecidableEq, Repr

def optionRight (right : String) : Option OptionRight :=
  if right = "C" then some .call else if right = "P" then some .put else none

/-- A contract row. What its checks refuse and what is no finite number is absent; the open interest
of checked market facts may be `None`. -/
structure GexContractRow where
  marketOpenInterest : Option (Option ℚ)
  series : Option GexOptionSeriesIdentity
  strike : Option ℚ
  timeToExpiryYears : Option ℚ
  iv : Option ℚ
  multiplier : Option ℚ
  right : String

/-- A row the model prices. -/
structure GammaRow where
  seriesStrike : GexOptionSeriesIdentity × ℚ
  strike : ℚ
  right : OptionRight
  years : ℚ
  iv : ℚ
  openInterest : ℚ
  multiplier : ℚ
  deriving DecidableEq

def GexContractRow.gammaRow (row : GexContractRow) : Option GammaRow := do
  let marketOpenInterest ← row.marketOpenInterest
  let series ← row.series
  let strike ← row.strike
  let years ← row.timeToExpiryYears
  let iv ← row.iv
  let multiplier ← row.multiplier
  let right ← optionRight row.right
  let openInterest ← marketOpenInterest
  guard (0 < strike ∧ 0 < years ∧ 0 < iv ∧ 0 ≤ openInterest ∧ 0 < multiplier)
  return ⟨(series, strike), strike, right, years, iv, openInterest, multiplier⟩

/-- `rows` and `rights_by_series_strike`. -/
structure GammaRows where
  rows : List GammaRow
  rights : Dict (GexOptionSeriesIdentity × ℚ) (List OptionRight)

/-- One round over the contract rows. -/
def GammaRows.add (selected : GammaRows) (row : GexContractRow) : Option GammaRows := do
  let row ← row.gammaRow
  let rights := (selected.rights.get? row.seriesStrike).getD []
  guard (row.right ∉ rights)
  return ⟨selected.rows ++ [row], selected.rights.insert row.seriesStrike (rights ++ [row.right])⟩

/-- Rows of exact pairs, at least two of them. -/
def selectGammaRows (contractRows : List GexContractRow) : Option (List GammaRow) := do
  let selected ← contractRows.foldlM GammaRows.add ⟨[], .empty⟩
  guard (∀ entry ∈ selected.rights.entries, .call ∈ entry.2 ∧ .put ∈ entry.2)
  guard (4 ≤ selected.rows.length ∧ 2 ≤ selected.rights.size)
  return selected.rows

/-- The lower and the upper end of the search. -/
def gammaSearchBounds (rows : List GammaRow) (anchor : ℚ) : Option (ℚ × ℚ) := do
  let least ← (rows.map GammaRow.strike).min?
  let greatest ← (rows.map GammaRow.strike).max?
  let lower := max (1 / 100) (min least (anchor * (85 / 100)))
  let upper := max greatest (anchor * (115 / 100))
  guard (lower < upper)
  return (lower, upper)

/-! ### The search -/

/-- The price of a grid point. -/
def gammaGridPrice (lower upper : ℚ) (index : ℕ) : ℚ := lower + (upper - lower) * index / 120

def gammaGrid (lower upper : ℚ) : List ℚ := (List.range 121).map (gammaGridPrice lower upper)

/-- What one pair of neighbouring points brackets. -/
def gammaBracket (cell : (ℚ × ℚ) × (ℚ × ℚ)) : Option (ℚ × ℚ) :=
  if cell.1.2 = 0 then some (cell.1.1, cell.1.1)
  else if cell.1.2 * cell.2.2 < 0 then some (cell.1.1, cell.2.1)
  else none

def gammaBrackets (values : List (ℚ × ℚ)) : List (ℚ × ℚ) :=
  (values.zip values.tail).filterMap gammaBracket

def gammaTolerance : ℚ := 1 / 1000000

/-- The root of one bracket. -/
def gammaRoot (total : ℚ → Option ℚ) (bracket : ℚ × ℚ) : Option ℚ :=
  if bracket.1 = bracket.2 then some bracket.1
  else do
    let leftValue ← total bracket.1
    bisect total gammaTolerance 48 bracket.1 bracket.2 leftValue

def zeroGammaRoot (total : ℚ → Option ℚ) (lower upper anchor : ℚ) : Option ℚ := do
  let values ← (gammaGrid lower upper).mapM fun price => (total price).map fun value => (price, value)
  let roots ← (gammaBrackets values).mapM (gammaRoot total)
  roots.argmin fun root => |root - anchor|

/-- A model of the total gamma of some rows at a price. -/
abbrev GammaModel := Bool → GexValuationRates → List GammaRow → ℚ → Option ℚ

/-- What is searched: the rows, the rates, and the interval around the spot. -/
structure GammaSearch where
  rates : GexValuationRates
  rows : List GammaRow
  lower : ℚ
  upper : ℚ
  anchor : ℚ

/-- The checks of `compute_gamma_flip`. -/
def admitGammaSearch (contractRows : List GexContractRow) (spot riskFreeRate dividendYield : Option ℚ) :
    Option GammaSearch := do
  let anchor ← spot
  guard (0 < anchor)
  let rates ← requireGexValuationRates riskFreeRate dividendYield
  let rows ← selectGammaRows contractRows
  let (lower, upper) ← gammaSearchBounds rows anchor
  return ⟨rates, rows, lower, upper, anchor⟩

/-- `compute_gamma_flip`, before its result is rounded. -/
def exactGammaFlip (model : GammaModel) (futuresOptions : Bool) (contractRows : List GexContractRow)
    (spot riskFreeRate dividendYield : Option ℚ) : Option ℚ := do
  let search ← admitGammaSearch contractRows spot riskFreeRate dividendYield
  zeroGammaRoot (model futuresOptions search.rates search.rows) search.lower search.upper search.anchor

/-- `compute_gamma_flip` -/
def computeGammaFlip (model : GammaModel) (futuresOptions : Bool) (contractRows : List GexContractRow)
    (spot riskFreeRate dividendYield : Option ℚ) : Option ℚ :=
  (exactGammaFlip model futuresOptions contractRows spot riskFreeRate dividendYield).map
    (roundDigits 4)

/-! ### The grid -/

section Grid

variable {lower upper anchor : ℚ} {i : ℕ} {total : ℚ → Option ℚ} {f : ℚ → ℚ} {bracket : ℚ × ℚ}
  {root : ℚ}

theorem gammaGridPrice_last : gammaGridPrice lower upper 120 = upper := by
  rw [gammaGridPrice]
  push_cast
  ring

theorem gammaGridPrice_succ : gammaGridPrice lower upper (i + 1) =
    gammaGridPrice lower upper i + (upper - lower) / 120 := by
  rw [gammaGridPrice, gammaGridPrice]
  push_cast
  ring

theorem gammaGridPrice_lt_succ (h : lower < upper) :
    gammaGridPrice lower upper i < gammaGridPrice lower upper (i + 1) := by
  rw [gammaGridPrice_succ]
  linarith

theorem gammaGridPrice_mem (h : lower ≤ upper) (hi : i ≤ 120) :
    lower ≤ gammaGridPrice lower upper i ∧ gammaGridPrice lower upper i ≤ upper := by
  have hspan : 0 ≤ upper - lower := sub_nonneg.mpr h
  have hindex : (i : ℚ) ≤ 120 := by exact_mod_cast hi
  have hnonneg : (0 : ℚ) ≤ i := Nat.cast_nonneg i
  rw [gammaGridPrice]
  constructor
  · have hpart : 0 ≤ (upper - lower) * i / 120 := by positivity
    linarith
  · have hpart : (upper - lower) * i ≤ (upper - lower) * 120 := mul_le_mul_of_nonneg_left hindex hspan
    linarith

/-- The pairs of neighbouring items of a list given by an index. -/
theorem zip_tail_map_range {α : Type*} (v : ℕ → α) (n : ℕ) :
    ((List.range (n + 1)).map v).zip ((List.range (n + 1)).map v).tail =
      (List.range n).map fun i => (v i, v (i + 1)) := by
  refine List.ext_getElem (by simp) fun i h _ => ?_
  simp

/-- The values of the grid. -/
def gridValues (f : ℚ → ℚ) (lower upper : ℚ) : List (ℚ × ℚ) :=
  (gammaGrid lower upper).map fun price => (price, f price)

/-- The brackets that are searched: grid points but the last, and cells. -/
theorem mem_gammaBrackets : bracket ∈ gammaBrackets (gridValues f lower upper) ↔
    ∃ i < 120, (f (gammaGridPrice lower upper i) = 0 ∧
        bracket = (gammaGridPrice lower upper i, gammaGridPrice lower upper i)) ∨
      (SignChange f (gammaGridPrice lower upper i) (gammaGridPrice lower upper (i + 1)) ∧
        bracket = (gammaGridPrice lower upper i, gammaGridPrice lower upper (i + 1))) := by
  rw [gammaBrackets, gridValues, gammaGrid, List.map_map, zip_tail_map_range]
  simp only [List.mem_filterMap, List.mem_map, List.mem_range, exists_exists_and_eq_and,
    Function.comp_apply]
  refine exists_congr fun i => and_congr_right fun hi => ?_
  rw [gammaBracket, SignChange]
  dsimp only
  split_ifs with hzero hsign
  · simp [hzero, eq_comm]
  · simp [hzero, hsign, eq_comm]
  · simp [hzero, hsign]

/-- The total is given by a function on the interval of the search. -/
def DefinedOn (total : ℚ → Option ℚ) (f : ℚ → ℚ) (lower upper : ℚ) : Prop :=
  ∀ x, lower ≤ x → x ≤ upper → total x = some (f x)

theorem gammaRoot_self (price : ℚ) : gammaRoot total (price, price) = some price := if_pos rfl

/-- A cell with a change of sign has a root. -/
theorem exists_gammaRoot (hlt : lower < upper) (hdefined : DefinedOn total f lower upper) (hi : i < 120)
    (hsign : SignChange f (gammaGridPrice lower upper i) (gammaGridPrice lower upper (i + 1))) :
    ∃ root, gammaRoot total (gammaGridPrice lower upper i, gammaGridPrice lower upper (i + 1)) =
        some root ∧
      Bisected f gammaTolerance 48 (gammaGridPrice lower upper i) (gammaGridPrice lower upper (i + 1))
        root := by
  have hstep : gammaGridPrice lower upper i < gammaGridPrice lower upper (i + 1) :=
    gammaGridPrice_lt_succ hlt
  obtain ⟨hleft, hleft'⟩ := gammaGridPrice_mem hlt.le hi.le
  obtain ⟨hright, hright'⟩ := gammaGridPrice_mem hlt.le (Nat.succ_le_of_lt hi)
  have htolerance : (0 : ℚ) ≤ gammaTolerance := by rw [gammaTolerance]; positivity
  obtain ⟨root, hroot, hbisected⟩ := @exists_bisect ℚ _ _ _ total f _ 48 _ _ htolerance hstep.le
    (fun x hx hx' => hdefined x (hleft.trans hx) (hx'.trans hright')) hsign
  refine ⟨root, ?_, hbisected⟩
  rw [gammaRoot, if_neg hstep.ne, hdefined _ hleft hleft']
  exact hroot

/-- What the search finds of a total that is defined on its interval. -/
structure ZeroGammaFound (total : ℚ → Option ℚ) (f : ℚ → ℚ) (lower upper anchor : ℚ)
    (result : Option ℚ) : Prop where
  /-- There is no result exactly where no grid price is a zero and no cell has a change of sign. -/
  none_iff : result = none ↔ (∀ i ≤ 120, f (gammaGridPrice lower upper i) ≠ 0) ∧
    ∀ i < 120, ¬ SignChange f (gammaGridPrice lower upper i) (gammaGridPrice lower upper (i + 1))
  /-- The result is a grid price with a zero, or was bracketed in a cell with a change of sign. -/
  root : ∀ root ∈ result, (∃ i ≤ 120, f (gammaGridPrice lower upper i) = 0 ∧
      root = gammaGridPrice lower upper i) ∨
    ∃ i < 120, SignChange f (gammaGridPrice lower upper i) (gammaGridPrice lower upper (i + 1)) ∧
      Bisected f gammaTolerance 48 (gammaGridPrice lower upper i) (gammaGridPrice lower upper (i + 1))
        root
  /-- No other cell with a change of sign has a root nearer to the spot. -/
  nearest : ∀ root ∈ result, ∀ i < 120,
    SignChange f (gammaGridPrice lower upper i) (gammaGridPrice lower upper (i + 1)) →
    ∀ other ∈ gammaRoot total (gammaGridPrice lower upper i, gammaGridPrice lower upper (i + 1)),
      |root - anchor| ≤ |other - anchor|

/-- A zero at the last grid price is not the only one that the grid shows. -/
def NotOnlyLastZero (f : ℚ → ℚ) (lower upper : ℚ) : Prop :=
  f upper ≠ 0 ∨ ∃ i < 120, f (gammaGridPrice lower upper i) = 0 ∨
    SignChange f (gammaGridPrice lower upper i) (gammaGridPrice lower upper (i + 1))

/-- The search chooses among the roots of its brackets; each bracket has one. -/
theorem zeroGammaRoot_eq (hlt : lower < upper) (hdefined : DefinedOn total f lower upper) :
    (∀ bracket ∈ gammaBrackets (gridValues f lower upper),
      gammaRoot total bracket = some ((gammaRoot total bracket).getD 0)) ∧
    zeroGammaRoot total lower upper anchor =
      ((gammaBrackets (gridValues f lower upper)).map fun bracket =>
        (gammaRoot total bracket).getD 0).argmin fun root => |root - anchor| := by
  have hvalues : (gammaGrid lower upper).mapM (fun price => (total price).map fun value =>
      (price, value)) = some (gridValues f lower upper) := by
    refine mapM_eq_some fun price hprice => ?_
    obtain ⟨i, hi, rfl⟩ := List.mem_map.mp hprice
    obtain ⟨hle, hle'⟩ := gammaGridPrice_mem hlt.le (Nat.lt_succ_iff.mp (List.mem_range.mp hi))
    rw [hdefined _ hle hle']
    rfl
  have hroots : ∀ bracket ∈ gammaBrackets (gridValues f lower upper),
      gammaRoot total bracket = some ((gammaRoot total bracket).getD 0) := by
    intro bracket hbracket
    obtain ⟨i, hi, ⟨-, rfl⟩ | ⟨hsign, rfl⟩⟩ := mem_gammaBrackets.mp hbracket
    · rw [gammaRoot_self]
      rfl
    · obtain ⟨root, hroot, -⟩ := exists_gammaRoot hlt hdefined hi hsign
      rw [hroot]
      rfl
  refine ⟨hroots, ?_⟩
  rw [zeroGammaRoot, hvalues, Option.bind_eq_bind, Option.bind_some, mapM_eq_some hroots]
  rfl

/-- There is no result exactly where there is no bracket. -/
theorem zeroGammaRoot_eq_none (hlt : lower < upper) (hdefined : DefinedOn total f lower upper) :
    zeroGammaRoot total lower upper anchor = none ↔ ∀ i < 120,
      f (gammaGridPrice lower upper i) ≠ 0 ∧
        ¬ SignChange f (gammaGridPrice lower upper i) (gammaGridPrice lower upper (i + 1)) := by
  rw [(zeroGammaRoot_eq hlt hdefined).2, List.argmin_eq_none, List.map_eq_nil_iff,
    List.eq_nil_iff_forall_not_mem]
  constructor
  · intro hnone i hi
    exact ⟨fun hzero => hnone _ (mem_gammaBrackets.mpr ⟨i, hi, .inl ⟨hzero, rfl⟩⟩),
      fun hsign => hnone _ (mem_gammaBrackets.mpr ⟨i, hi, .inr ⟨hsign, rfl⟩⟩)⟩
  · intro hall bracket hbracket
    obtain ⟨i, hi, ⟨hzero, -⟩ | ⟨hsign, -⟩⟩ := mem_gammaBrackets.mp hbracket
    · exact (hall i hi).1 hzero
    · exact (hall i hi).2 hsign

/-- The result is the root of a bracket, and no bracket has a nearer one. -/
theorem zeroGammaRoot_eq_some (hlt : lower < upper) (hdefined : DefinedOn total f lower upper)
    (h : zeroGammaRoot total lower upper anchor = some root) :
    (∃ bracket ∈ gammaBrackets (gridValues f lower upper), gammaRoot total bracket = some root) ∧
      ∀ bracket ∈ gammaBrackets (gridValues f lower upper), ∀ other ∈ gammaRoot total bracket,
        |root - anchor| ≤ |other - anchor| := by
  obtain ⟨hroots, hsearch⟩ := @zeroGammaRoot_eq lower upper anchor total f hlt hdefined
  rw [hsearch] at h
  constructor
  · obtain ⟨bracket, hbracket, rfl⟩ := List.mem_map.mp (List.argmin_mem h)
    exact ⟨bracket, hbracket, hroots bracket hbracket⟩
  · intro bracket hbracket other hother
    have hmem : other ∈ (gammaBrackets (gridValues f lower upper)).map fun bracket =>
        (gammaRoot total bracket).getD 0 :=
      List.mem_map.mpr ⟨bracket, hbracket, by rw [Option.mem_def.mp hother]; rfl⟩
    exact List.le_of_mem_argmin (f := fun root => |root - anchor|) hmem h

theorem ZeroGammaFound.notOnlyLastZero (hlt : lower < upper) (hdefined : DefinedOn total f lower upper)
    (h : ZeroGammaFound total f lower upper anchor (zeroGammaRoot total lower upper anchor)) :
    NotOnlyLastZero f lower upper := by
  by_contra hnot
  obtain ⟨hlast, hnone⟩ := not_or.mp hnot
  have hall : ∀ i < 120, f (gammaGridPrice lower upper i) ≠ 0 ∧
      ¬ SignChange f (gammaGridPrice lower upper i) (gammaGridPrice lower upper (i + 1)) :=
    fun i hi => not_or.mp fun h => hnone ⟨i, hi, h⟩
  have hzero := (h.none_iff.mp ((zeroGammaRoot_eq_none hlt hdefined).mpr hall)).1 120 le_rfl
  rw [gammaGridPrice_last] at hzero
  exact hlast hzero

theorem zeroGammaFound_of (hlt : lower < upper) (hdefined : DefinedOn total f lower upper)
    (h : NotOnlyLastZero f lower upper) :
    ZeroGammaFound total f lower upper anchor (zeroGammaRoot total lower upper anchor) where
  none_iff := by
    rw [zeroGammaRoot_eq_none hlt hdefined]
    constructor
    · intro hall
      refine ⟨fun i hi => ?_, fun i hi => (hall i hi).2⟩
      rcases hi.lt_or_eq with hi | rfl
      · exact (hall i hi).1
      · rw [gammaGridPrice_last]
        exact h.resolve_right fun ⟨i, hi, hbracket⟩ =>
          hbracket.elim (hall i hi).1 (hall i hi).2
    · exact fun hall i hi => ⟨hall.1 i hi.le, hall.2 i hi⟩
  root root hroot := by
    obtain ⟨⟨bracket, hbracket, hfound⟩, -⟩ := zeroGammaRoot_eq_some hlt hdefined hroot
    obtain ⟨i, hi, ⟨hzero, rfl⟩ | ⟨hsign, rfl⟩⟩ := mem_gammaBrackets.mp hbracket
    · rw [gammaRoot_self] at hfound
      exact .inl ⟨i, hi.le, hzero, (Option.some.inj hfound).symm⟩
    · obtain ⟨root', hroot', hbisected⟩ := exists_gammaRoot hlt hdefined hi hsign
      cases (hroot'.symm.trans hfound)
      exact .inr ⟨i, hi, hsign, hbisected⟩
  nearest root hroot i hi hsign other hother :=
    (zeroGammaRoot_eq_some hlt hdefined hroot).2 _ (mem_gammaBrackets.mpr ⟨i, hi, .inr ⟨hsign, rfl⟩⟩)
      other hother

end Grid

/-! ### Admitted chains -/

section Admitted

variable {contractRows : List GexContractRow} {spot riskFreeRate dividendYield : Option ℚ}
  {search : GammaSearch}

theorem admitGammaSearch_lt
    (h : admitGammaSearch contractRows spot riskFreeRate dividendYield = some search) :
    search.lower < search.upper := by
  obtain ⟨anchor, -, h⟩ := Option.bind_eq_some_iff.mp h
  obtain ⟨-, h⟩ := guard_bind_eq_some.mp h
  obtain ⟨rates, -, h⟩ := Option.bind_eq_some_iff.mp h
  obtain ⟨rows, -, h⟩ := Option.bind_eq_some_iff.mp h
  obtain ⟨⟨lower, upper⟩, hbounds, h⟩ := Option.bind_eq_some_iff.mp h
  cases h
  obtain ⟨least, -, hbounds⟩ := Option.bind_eq_some_iff.mp hbounds
  obtain ⟨greatest, -, hbounds⟩ := Option.bind_eq_some_iff.mp hbounds
  obtain ⟨hlt, hbounds⟩ := guard_bind_eq_some.mp hbounds
  cases (Option.some.inj hbounds)
  exact hlt

/-- **Zero-gamma search.** Of a chain that is admitted, with a total that is defined on the interval
of the search, `compute_gamma_flip` finds what the grid shows exactly where a zero at the last grid
price is not all that it shows. -/
theorem zero_gamma_found_iff {model : GammaModel} {futuresOptions : Bool} {f : ℚ → ℚ}
    (h : admitGammaSearch contractRows spot riskFreeRate dividendYield = some search)
    (hdefined : DefinedOn (model futuresOptions search.rates search.rows) f search.lower search.upper) :
    ZeroGammaFound (model futuresOptions search.rates search.rows) f search.lower search.upper
        search.anchor
        (exactGammaFlip model futuresOptions contractRows spot riskFreeRate dividendYield) ↔
      NotOnlyLastZero f search.lower search.upper := by
  have hlt := admitGammaSearch_lt h
  rw [exactGammaFlip, h, Option.bind_eq_bind, Option.bind_some]
  exact ⟨ZeroGammaFound.notOnlyLastZero hlt hdefined, zeroGammaFound_of hlt hdefined⟩

end Admitted

/-! ### A chain around 100 -/

def chainSeries : GexOptionSeriesIdentity := ⟨"20260101", "E1A", "CME", 50⟩

def chainRow (strike : ℚ) (right : String) : GexContractRow where
  marketOpenInterest := some (some 10)
  series := some chainSeries
  strike := some strike
  timeToExpiryYears := some (1 / 10)
  iv := some (1 / 5)
  multiplier := some 50
  right := right

def pairedChain : List GexContractRow :=
  [chainRow 90 "C", chainRow 90 "P", chainRow 110 "C", chainRow 110 "P"]

/-- A total that is zero at one price. -/
def zeroAt (price : ℚ) : GammaModel := fun _ _ _ x => some (x - price)

theorem pairedChain_admitted : ∃ search,
    admitGammaSearch pairedChain (some 100) (some 0) (some 0) = some search ∧ search.lower = 85 ∧
      search.upper = 115 := by
  have hbounds : (admitGammaSearch pairedChain (some 100) (some 0) (some 0)).map (fun search =>
      (search.lower, search.upper)) = some (85, 115) := by decide +kernel
  obtain ⟨search, hsearch, hpair⟩ := Option.map_eq_some_iff.mp hbounds
  exact ⟨search, hsearch, (Prod.mk.inj hpair).1, (Prod.mk.inj hpair).2⟩

/-- A zero in the middle of the grid is found. -/
theorem zero_gamma_found_iff_middle : ∃ search,
    admitGammaSearch pairedChain (some 100) (some 0) (some 0) = some search ∧
      ZeroGammaFound (zeroAt 100 true search.rates search.rows) (· - 100) search.lower search.upper
        search.anchor (exactGammaFlip (zeroAt 100) true pairedChain (some 100) (some 0) (some 0)) := by
  obtain ⟨search, hsearch, -, hupper⟩ := pairedChain_admitted
  refine ⟨search, hsearch, (zero_gamma_found_iff hsearch fun x _ _ => rfl).mpr (.inl ?_)⟩
  rw [hupper]
  norm_num

/-- A line that crosses zero at the upper end shows no more than that on the grid. -/
theorem not_notOnlyLastZero {lower upper : ℚ} (hlt : lower < upper) :
    ¬ NotOnlyLastZero (· - upper) lower upper := by
  have hbelow : ∀ i < 120, gammaGridPrice lower upper i < upper := fun i hi =>
    (gammaGridPrice_lt_succ hlt).trans_le (gammaGridPrice_mem hlt.le (Nat.succ_le_of_lt hi)).2
  rintro (hlast | ⟨i, hi, hzero | hsign⟩)
  · exact hlast (sub_self upper)
  · exact (hbelow i hi).ne (sub_eq_zero.mp hzero)
  · have hle := sub_nonpos.mpr (hbelow i hi).le
    have hle' := sub_nonpos.mpr (gammaGridPrice_mem hlt.le (Nat.succ_le_of_lt hi)).2
    exact absurd hsign (not_lt.mpr (mul_nonneg_of_nonpos_of_nonpos hle hle'))

/-- A zero at the last grid price, and nowhere else, is not found. -/
theorem last_zero_not_found : ∃ search,
    admitGammaSearch pairedChain (some 100) (some 0) (some 0) = some search ∧
      DefinedOn (zeroAt 115 true search.rates search.rows) (· - 115) search.lower search.upper ∧
      ¬ ZeroGammaFound (zeroAt 115 true search.rates search.rows) (· - 115) search.lower search.upper
        search.anchor (exactGammaFlip (zeroAt 115) true pairedChain (some 100) (some 0) (some 0)) := by
  obtain ⟨search, hsearch, -, hupper⟩ := pairedChain_admitted
  have hlt := admitGammaSearch_lt hsearch
  have hdefined : DefinedOn (zeroAt 115 true search.rates search.rows) (· - 115) search.lower
      search.upper := fun x _ _ => rfl
  refine ⟨search, hsearch, hdefined, fun h => ?_⟩
  rw [exactGammaFlip, hsearch, Option.bind_eq_bind, Option.bind_some] at h
  have hfound := h.notOnlyLastZero hlt hdefined
  rw [← hupper] at hfound
  exact not_notOnlyLastZero hlt hfound

end AefTerminal
