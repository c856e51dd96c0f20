import Mathlib.Data.Char
import Mathlib.Data.Fin.Basic
import Mathlib.Data.List.Lex
import Mathlib.Data.Prod.Lex
import Mathlib.Order.Fin.Basic

/-!
# The order of client mutations

A client mutation carries the order `(changed_at_ms, writer, sequence)`. PostgreSQL compares the
writers as values of type `uuid`, Python compares their texts. `UUID.text_lt_text_iff` says that the
two comparisons agree, which is what lets one linear order stand for both below.

## Main definitions

* `UUID`, `UUID.text`: thirty-two hexadecimal digits and their canonical text
* `parseWriterId`: the texts that are accepted as a writer
* `MutationOrder`: the order of a mutation, inside the bounds that the table checks

## Main results

* `UUID.text_lt_text_iff`, `UUID.text_injective`
* `MutationOrder.precedes_iff`, `MutationOrder.exceeds_iff`: the row comparison of the store and the
  tuple comparison of Python are the order of `MutationOrder`
-/

namespace AefTerminal

/-- A number of 128 bits, by its hexadecimal digits, the leading one first. -/
@[ext] structure UUID where
  digits : List (Fin 16)
  length_digits : digits.length = 32
  deriving DecidableEq

namespace UUID

/-- The order of type `uuid`: byte by byte, so digit by digit. -/
instance : LinearOrder UUID := LinearOrder.lift' digits fun _ _ h => UUID.ext h

theorem lt_iff {u v : UUID} : u < v ↔ u.digits < v.digits := Iff.rfl

def version (u : UUID) : Option ℕ :=
  -- only the variant of RFC 4122 has a version
  if 8 ≤ (u.digits.getD 16 0).val ∧ (u.digits.getD 16 0).val < 12 then
    some (u.digits.getD 12 0).val
  else none

def hexDigit (d : Fin 16) : Char :=
  if d.val < 10 then Char.ofNat ('0'.toNat + d.val) else Char.ofNat ('a'.toNat + (d.val - 10))

theorem hexDigit_lt {d e : Fin 16} : hexDigit d < hexDigit e ↔ d < e := by
  revert d e; decide

theorem hexDigit_injective : Function.Injective hexDigit := by
  intro d e; revert d e; decide

/-- The digits with a hyphen before each group after the first. -/
def hyphenate : List ℕ → List (Fin 16) → List Char
  | [], ds => ds.map hexDigit
  | n :: ns, ds => (ds.take n).map hexDigit ++ '-' :: hyphenate ns (ds.drop n)

/-- `str(uuid)`, and `uuid::text` of PostgreSQL. -/
def text (u : UUID) : String := String.ofList (hyphenate [8, 4, 4, 4] u.digits)

/-! ### The texts are ordered as the numbers -/

theorem append_lt_append_iff {α : Type*} [LinearOrder α] {a b c d : List α}
    (h : a.length = b.length) : a ++ c < b ++ d ↔ a < b ∨ a = b ∧ c < d := by
  induction a generalizing b with
  | nil =>
    obtain rfl := List.length_eq_zero_iff.mp h.symm
    simp
  | cons x a ih =>
    cases b with
    | nil => simp at h
    | cons y b =>
      have hab : a.length = b.length := by simpa using h
      simp only [List.cons_append, List.cons_lt_cons_iff, ih hab, List.cons.injEq]
      constructor
      · rintro (hxy | ⟨rfl, hlt | ⟨rfl, hcd⟩⟩)
        · exact Or.inl (Or.inl hxy)
        · exact Or.inl (Or.inr ⟨rfl, hlt⟩)
        · exact Or.inr ⟨⟨rfl, rfl⟩, hcd⟩
      · rintro ((hxy | ⟨rfl, hlt⟩) | ⟨⟨rfl, rfl⟩, hcd⟩)
        · exact Or.inl hxy
        · exact Or.inr ⟨rfl, Or.inl hlt⟩
        · exact Or.inr ⟨rfl, Or.inr ⟨rfl, hcd⟩⟩

theorem map_hexDigit_lt {as bs : List (Fin 16)} (h : as.length = bs.length) :
    as.map hexDigit < bs.map hexDigit ↔ as < bs := by
  induction as generalizing bs with
  | nil =>
    obtain rfl := List.length_eq_zero_iff.mp h.symm
    simp
  | cons a as ih =>
    cases bs with
    | nil => simp at h
    | cons b bs =>
      have hlen : as.length = bs.length := by simpa using h
      simp only [List.map_cons, List.cons_lt_cons_iff, hexDigit_lt, ih hlen,
        hexDigit_injective.eq_iff]

theorem hyphenate_lt {ns : List ℕ} {as bs : List (Fin 16)} (h : as.length = bs.length) :
    hyphenate ns as < hyphenate ns bs ↔ as < bs := by
  induction ns generalizing as bs with
  | nil => exact map_hexDigit_lt h
  | cons n ns ih =>
    have htake : (as.take n).length = (bs.take n).length := by simp [h]
    have hdrop : (as.drop n).length = (bs.drop n).length := by simp [h]
    have hmap : ((as.take n).map hexDigit).length = ((bs.take n).map hexDigit).length := by
      simpa using htake
    calc hyphenate (n :: ns) as < hyphenate (n :: ns) bs
        ↔ as.take n < bs.take n ∨ as.take n = bs.take n ∧ as.drop n < bs.drop n := by
          rw [hyphenate, hyphenate, append_lt_append_iff hmap, map_hexDigit_lt htake,
            hexDigit_injective.list_map.eq_iff, List.cons_lt_cons_self, ih hdrop]
      _ ↔ as.take n ++ as.drop n < bs.take n ++ bs.drop n := (append_lt_append_iff htake).symm
      _ ↔ as < bs := by rw [List.take_append_drop, List.take_append_drop]

/-- **Python and PostgreSQL order the writers alike.** -/
theorem text_lt_text_iff {u v : UUID} : u.text.toList < v.text.toList ↔ u < v := by
  rw [text, text, String.toList_ofList, String.toList_ofList, lt_iff]
  exact hyphenate_lt (u.length_digits.trans v.length_digits.symm)

theorem text_injective : Function.Injective text := by
  intro u v h
  rcases lt_trichotomy u v with hlt | rfl | hlt
  · exact absurd (congrArg String.toList h) (text_lt_text_iff.mpr hlt).ne
  · rfl
  · exact absurd (congrArg String.toList h) (text_lt_text_iff.mpr hlt).ne'

end UUID

/-! ### Reading a writer -/

def hexDigit? (c : Char) : Option (Fin 16) :=
  (List.finRange 16).find? fun d => UUID.hexDigit d = c

/-- `UUID(text)`, for the texts that `str` gives back unchanged; of the others none is accepted as a
writer, so they are refused here already. -/
def UUID.ofText? (s : String) : Option UUID := do
  let digits ← (s.toList.filter (· ≠ '-')).mapM hexDigit?
  if h : digits.length = 32 then some ⟨digits, h⟩ else none

def parseWriterId (s : String) : Option UUID := do
  let parsed ← UUID.ofText? s
  if parsed.version ≠ some 4 ∨ parsed.text ≠ s then none else some parsed

theorem text_of_parseWriterId {s : String} {u : UUID} (h : parseWriterId s = some u) :
    u.text = s := by
  obtain ⟨v, -, h⟩ := Option.bind_eq_some_iff.mp h
  split at h
  · cases h
  · rename_i hv
    cases h
    exact not_not.mp fun hne => hv (Or.inr hne)

/-! ### Orders -/

@[irreducible] def maxSafeSettingsRevision : ℕ := 9007199254740991

/-- The three columns of a row that an ordered mutation wrote; the table's check keeps the bounds. -/
@[ext] structure MutationOrder where
  changedAtMs : ℤ
  writerId : UUID
  sequence : ℤ
  changedAtMs_mem : 0 < changedAtMs ∧ changedAtMs ≤ maxSafeSettingsRevision
  sequence_mem : 0 < sequence ∧ sequence ≤ maxSafeSettingsRevision
  deriving DecidableEq

namespace MutationOrder

/-- The order of these columns, if they are inside the bounds. -/
def of? (changedAtMs : ℤ) (writerId : UUID) (sequence : ℤ) : Option MutationOrder :=
  if h : (0 < changedAtMs ∧ changedAtMs ≤ maxSafeSettingsRevision) ∧
      (0 < sequence ∧ sequence ≤ maxSafeSettingsRevision) then
    some ⟨changedAtMs, writerId, sequence, h.1, h.2⟩
  else none

def rank (o : MutationOrder) : ℤ ×ₗ UUID ×ₗ ℤ :=
  toLex (o.changedAtMs, toLex (o.writerId, o.sequence))

theorem rank_injective : Function.Injective rank := by
  intro o p h
  have h' : (o.changedAtMs, toLex (o.writerId, o.sequence))
      = (p.changedAtMs, toLex (p.writerId, p.sequence)) := toLex.injective h
  obtain ⟨hc, h'⟩ := Prod.mk.inj h'
  obtain ⟨hw, hs⟩ := Prod.mk.inj (toLex.injective h')
  exact MutationOrder.ext hc hw hs

noncomputable instance : LinearOrder MutationOrder := LinearOrder.lift' rank rank_injective

theorem lt_iff {o p : MutationOrder} : o < p ↔ o.changedAtMs < p.changedAtMs ∨
    o.changedAtMs = p.changedAtMs ∧ (o.writerId < p.writerId ∨
      o.writerId = p.writerId ∧ o.sequence < p.sequence) := by
  show rank o < rank p ↔ _
  rw [rank, rank, Prod.Lex.toLex_lt_toLex, Prod.Lex.toLex_lt_toLex]

/-- The row comparison `(…) < (…)` of the upsert. -/
def precedes (o p : MutationOrder) : Bool :=
  o.changedAtMs < p.changedAtMs ||
    (o.changedAtMs = p.changedAtMs && (o.writerId < p.writerId ||
      (o.writerId = p.writerId && o.sequence < p.sequence)))

theorem precedes_iff {o p : MutationOrder} : o.precedes p ↔ o < p := by
  simp [precedes, lt_iff]

end MutationOrder

/-- The order as Python reads it back: `mutation_writer_id::text` may be `None`. -/
abbrev OrderTuple := ℤ × Option String × ℤ

def MutationOrder.tuple (o : MutationOrder) : OrderTuple :=
  (o.changedAtMs, some o.writerId.text, o.sequence)

/-- The order of a row, and of a mutation without a writer. -/
def orderTuple : Option MutationOrder → OrderTuple
  | none => (0, none, 0)
  | some o => o.tuple

/-- `a > b` of Python: the first item that differs decides, texts compare by their code points, and
`None` is not comparable. -/
def tupleGreater (a b : OrderTuple) : Option Bool :=
  if a.1 ≠ b.1 then some (b.1 < a.1)
  else if a.2.1 ≠ b.2.1 then
    match a.2.1, b.2.1 with
    | some v, some w => some (w.toList < v.toList)
    | _, _ => none
  else some (b.2.2 < a.2.2)

theorem MutationOrder.tuple_injective : Function.Injective MutationOrder.tuple := by
  intro o p h
  obtain ⟨hc, h⟩ := Prod.mk.inj h
  obtain ⟨hw, hs⟩ := Prod.mk.inj h
  exact MutationOrder.ext hc (UUID.text_injective (Option.some.inj hw)) hs

theorem orderTuple_injective : Function.Injective orderTuple := by
  intro o p h
  cases o with
  | none =>
    cases p with
    | none => rfl
    | some p => exact absurd (congrArg Prod.fst h) p.changedAtMs_mem.1.ne
  | some o =>
    cases p with
    | none => exact absurd (congrArg Prod.fst h) o.changedAtMs_mem.1.ne'
    | some p => exact congrArg some (MutationOrder.tuple_injective h)

/-- **The tuple comparison is the row comparison.** -/
theorem MutationOrder.exceeds_iff {o p : MutationOrder} :
    tupleGreater o.tuple p.tuple = some (decide (p < o)) := by
  have hlt := lt_iff (o := p) (p := o)
  rw [tupleGreater]
  by_cases hc : o.changedAtMs = p.changedAtMs
  · rw [if_neg (not_not.mpr (show o.tuple.1 = p.tuple.1 from hc))]
    by_cases hw : o.writerId = p.writerId
    · have hsame : o.tuple.2.1 = p.tuple.2.1 := congrArg (some ∘ UUID.text) hw
      have hiff : p.sequence < o.sequence ↔ p < o := by simp [hlt, hc, hw]
      rw [if_neg (not_not.mpr hsame)]
      exact congrArg some (decide_eq_decide.mpr hiff)
    · have htext : o.tuple.2.1 ≠ p.tuple.2.1 :=
        fun h => hw (UUID.text_injective (Option.some.inj h))
      have hiff : p.writerId.text.toList < o.writerId.text.toList ↔ p < o := by
        rw [UUID.text_lt_text_iff, hlt]
        simp [hc, Ne.symm hw]
      rw [if_pos htext]
      exact congrArg some (decide_eq_decide.mpr hiff)
  · have hiff : p.changedAtMs < o.changedAtMs ↔ p < o := by simp [hlt, Ne.symm hc]
    rw [if_pos (show o.tuple.1 ≠ p.tuple.1 from hc)]
    exact congrArg some (decide_eq_decide.mpr hiff)

end AefTerminal
