import AefTerminal.Foundation.LwwRegister
import AefTerminal.Foundation.Run
import AefTerminal.Settings.Store
import Mathlib.Order.Bounds.Basic

/-!
# Client settings converge

Every client mutation of a key is a write to a last-writer-wins register, whatever batch carries it:
`clientRegister_insertSetting` says so for one row, `Accepted` for one batch, and the run lemma folds
the batches of a run. What a batch reports is read off the same comparison.

A batch that raises is in the run too: it is a step that leaves the tables as they are.

## Main definitions

* `ClientMutation`, `SettingsBatch`, `SettingsStep`
* `Known`: the orders that were stored or submitted for a key
* `Reported`: what one call reports of one step

## Main results

* `clientSettings_converge`
-/

namespace AefTerminal

open Foundation

variable {V : Type} [DecidableEq V]

/-! ### Mutations and batches -/

structure ClientMutation (V : Type) where
  key : String
  value : V
  changedAtMs : ℤ
  writer : String
  sequence : ℤ

namespace ClientMutation

def order? (m : ClientMutation V) : Option MutationOrder :=
  (parseWriterId m.writer).bind fun w => MutationOrder.of? m.changedAtMs w m.sequence

end ClientMutation

/-- One call of `upsert_settings` with the client scope and a writer. -/
structure SettingsBatch (V : Type) where
  values : Dict String V
  writerId : String
  orders : Dict String (ℤ × ℤ)
  call : SettingsCall

/-- The mutation that a batch carries for each key with an order. -/
def SettingsBatch.mutations (b : SettingsBatch V) : List (ClientMutation V) :=
  b.values.entries.filterMap fun e =>
    (b.orders.get? e.1).map fun o => ⟨e.1, e.2, o.1, b.writerId, o.2⟩

/-- A call and its answer. -/
structure SettingsAct (V : Type) where
  batch : SettingsBatch V
  answer : Except SettingsError (List (String × MutationResult V) × ℕ)

/-- One call: the transaction is committed or rolled back. -/
def SettingsStep (B : SettingsBackend V) (t : SettingsTables V) (a : SettingsAct V)
    (t' : SettingsTables V) : Prop :=
  match upsertSettings B a.batch.call "client" a.batch.values a.batch.writerId a.batch.orders t with
  | .ok (u, results, revision) => a.answer = .ok (results, revision) ∧ t' = u
  | .error e => a.answer = .error e ∧ t' = t

def SettingsAct.accepted (a : SettingsAct V) : Bool :=
  match a.answer with
  | .ok _ => true
  | .error _ => false

def acceptedMutations (acts : List (SettingsAct V)) : List (ClientMutation V) :=
  (acts.filter SettingsAct.accepted).flatMap fun a => a.batch.mutations

/-! ### The state of a key -/

def SettingsTables.clientRow (t : SettingsTables V) (key : String) : Option (SettingRow V) :=
  t.settings.get? (.client, key)

def SettingsTables.clientOrder (t : SettingsTables V) (key : String) : Option MutationOrder :=
  (t.clientRow key).bind SettingRow.order

/-- What an ordered row holds; the rows without an order do not count. -/
def register (row : Option (SettingRow V)) : Option (MutationOrder × V) :=
  row.bind fun r => r.order.map fun o => (o, r.value)

def SettingsTables.clientRegister (t : SettingsTables V) (key : String) :
    Option (MutationOrder × V) :=
  register (t.clientRow key)

/-- The orders of a key that a row of `t` holds or an accepted batch carried. -/
def Known (t : SettingsTables V) (acts : List (SettingsAct V)) (key : String) :
    Set MutationOrder :=
  {o | t.clientOrder key = some o ∨
    ∃ m ∈ acceptedMutations acts, m.key = key ∧ m.order? = some o}

/-- Equal orders carry equal values. -/
def EqualOrdersAgree (B : SettingsBackend V) (M : List (ClientMutation V)) : Prop :=
  ∀ m ∈ M, ∀ m' ∈ M, m.key = m'.key → m.changedAtMs = m'.changedAtMs → m.writer = m'.writer →
    m.sequence = m'.sequence → B.same m.value m'.value

/-- The stored rows carry the values of the mutations of their order. -/
def Agrees (B : SettingsBackend V) (M : List (ClientMutation V)) (t : SettingsTables V) : Prop :=
  ∀ m ∈ M, ∀ row, t.clientRow m.key = some row → row.order = m.order? → row.order.isSome →
    B.same row.value m.value

/-! ### One row -/

variable {v : V} {o : MutationOrder}

theorem upsertRow_eq_some_iff {cur : Option (SettingRow V)}
    {row : SettingRow V} : upsertRow cur ⟨v, some o⟩ = some row ↔
      row = ⟨v, some o⟩ ∧ ∀ c, cur.bind SettingRow.order = some c → c < o := by
  cases cur with
  | none => simp [upsertRow, eq_comm]
  | some r =>
    have hiff : excludedSupersedes r ⟨v, some o⟩ ↔ ∀ c, r.order = some c → c < o := by
      rcases hr : r.order with _ | c
      · simp [excludedSupersedes, hr]
      · simp [excludedSupersedes, hr, MutationOrder.precedes_iff]
    rw [upsertRow, Option.bind_some, ← hiff]
    by_cases hs : excludedSupersedes r ⟨v, some o⟩
    · simp [hs, eq_comm]
    · simp [hs]

/-- An ordered row follows its register. -/
theorem register_upsertRow (cur : Option (SettingRow V)) (v : V) (o : MutationOrder) :
    register ((upsertRow cur ⟨v, some o⟩).or cur) = LwwRegister.write (register cur) (o, v) := by
  cases hup : upsertRow cur ⟨v, some o⟩ with
  | some row =>
    obtain ⟨rfl, hlt⟩ := upsertRow_eq_some_iff.mp hup
    cases hreg : register cur with
    | none => rfl
    | some c =>
      obtain ⟨r, rfl, hr⟩ := Option.bind_eq_some_iff.mp hreg
      obtain ⟨d, hd, rfl⟩ := Option.map_eq_some_iff.mp hr
      exact (LwwRegister.write_of_lt (hlt d hd)).symm
  | none =>
    have hnot : ¬ ∀ c, cur.bind SettingRow.order = some c → c < o := fun hlt =>
      absurd (upsertRow_eq_some_iff.mpr ⟨rfl, hlt⟩) (by rw [hup]; nofun)
    push Not at hnot
    obtain ⟨c, hc, hle⟩ := hnot
    obtain ⟨r, rfl, hr⟩ := Option.bind_eq_some_iff.mp hc
    have hreg : register (some r) = some (c, r.value) := by simp [register, hr]
    rw [Option.none_or, hreg, LwwRegister.write_of_le hle]

/-- The row that an ordered mutation leaves alone has an order at least as great. -/
theorem upsertRow_eq_none {cur : Option (SettingRow V)} (h : upsertRow cur ⟨v, some o⟩ = none) :
    ∃ row c, cur = some row ∧ row.order = some c ∧ o ≤ c := by
  have hnot : ¬ ∀ c, cur.bind SettingRow.order = some c → c < o := fun hlt =>
    absurd (upsertRow_eq_some_iff.mpr ⟨rfl, hlt⟩) (by rw [h]; nofun)
  push Not at hnot
  obtain ⟨c, hc, hle⟩ := hnot
  obtain ⟨row, hrow, hr⟩ := Option.bind_eq_some_iff.mp hc
  exact ⟨row, c, hrow, hr, hle⟩

/-! ### The insert loop -/

/-- What the insert loop did to one of its keys. -/
def InsertedKey (B : SettingsBackend V) (cur cur' : Option (SettingRow V))
    (submitted : Option MutationOrder) (v : V) (applied : Prop) : Prop :=
  ∃ stored, B.jsonb v = some stored ∧
    cur' = (upsertRow cur ⟨stored, submitted⟩).or cur ∧
    (applied ↔ (upsertRow cur ⟨stored, submitted⟩).isSome)

section Loop

variable {B : SettingsBackend V} {scope : SettingsScope} {submitted : String → Option MutationOrder}
  {acc acc' : SettingTable V × List String} {items : List (String × V)} {item : String × V}

theorem insertSetting_eq_ok (h : insertSetting B scope submitted acc item = .ok acc') :
    ∃ stored, B.jsonb item.2 = some stored ∧
      ((∃ row, upsertRow (acc.1.get? (scope, item.1)) ⟨stored, submitted item.1⟩ = some row ∧
          acc' = (acc.1.insert (scope, item.1) row, item.1 :: acc.2)) ∨
        upsertRow (acc.1.get? (scope, item.1)) ⟨stored, submitted item.1⟩ = none ∧ acc' = acc) := by
  rw [insertSetting] at h
  split at h
  · cases h
  · rename_i stored hstored
    refine ⟨stored, hstored, ?_⟩
    split at h
    · rename_i row hrow
      exact Or.inl ⟨row, hrow, (Except.ok.inj h).symm⟩
    · rename_i hrow
      exact Or.inr ⟨hrow, (Except.ok.inj h).symm⟩

variable {k : String}

/-- One pass leaves the other rows and the other keys alone. -/
theorem insertSetting_frame (h : insertSetting B scope submitted acc item = .ok acc')
    {s : SettingsScope} (hne : (s, k) ≠ (scope, item.1)) :
    acc'.1.get? (s, k) = acc.1.get? (s, k) := by
  obtain ⟨stored, -, ⟨row, -, rfl⟩ | ⟨-, rfl⟩⟩ := insertSetting_eq_ok h
  · exact Dict.get?_insert_of_ne _ hne _
  · rfl

theorem insertSetting_mem_frame (h : insertSetting B scope submitted acc item = .ok acc')
    (hne : k ≠ item.1) : k ∈ acc'.2 ↔ k ∈ acc.2 := by
  obtain ⟨stored, -, ⟨row, -, rfl⟩ | ⟨-, rfl⟩⟩ := insertSetting_eq_ok h
  · simp [hne]
  · rfl

/-- One pass does to its own key what `upsertRow` says. -/
theorem insertSetting_own (h : insertSetting B scope submitted acc item = .ok acc')
    (hfresh : item.1 ∉ acc.2) :
    InsertedKey B (acc.1.get? (scope, item.1)) (acc'.1.get? (scope, item.1)) (submitted item.1)
      item.2 (item.1 ∈ acc'.2) := by
  obtain ⟨stored, hstored, ⟨row, hrow, rfl⟩ | ⟨hrow, rfl⟩⟩ := insertSetting_eq_ok h
  · refine ⟨stored, hstored, ?_, ?_⟩
    · rw [hrow, Dict.get?_insert_self, Option.some_or]
    · simp [hrow]
  · refine ⟨stored, hstored, ?_, ?_⟩
    · rw [hrow, Option.none_or]
    · simp [hrow, hfresh]

theorem insertLoop_frame
    (h : items.foldlM (insertSetting B scope submitted) acc = .ok acc') {s : SettingsScope}
    (hne : s ≠ scope ∨ k ∉ items.map Prod.fst) :
    acc'.1.get? (s, k) = acc.1.get? (s, k) := by
  refine foldlM_induct (P := fun a => a.1.get? (s, k) = acc.1.get? (s, k))
    (fun a item a' hitem ha hstep => ?_) rfl h
  have hne' : (s, k) ≠ (scope, item.1) := by
    rintro heq
    cases heq
    exact hne.elim (· rfl) (· (List.mem_map_of_mem hitem))
  rw [insertSetting_frame hstep hne', ha]

theorem insertLoop_mem_frame (h : items.foldlM (insertSetting B scope submitted) acc = .ok acc')
    (hk : k ∉ items.map Prod.fst) : k ∈ acc'.2 ↔ k ∈ acc.2 := by
  refine foldlM_induct (P := fun a => k ∈ a.2 ↔ k ∈ acc.2)
    (fun a item a' hitem ha hstep => ?_) Iff.rfl h
  have hne : k ≠ item.1 := by
    rintro rfl
    exact hk (List.mem_map_of_mem hitem)
  rw [insertSetting_mem_frame hstep hne, ha]

/-- The loop does to each of its keys what one pass does. -/
theorem insertLoop_own (h : items.foldlM (insertSetting B scope submitted) acc = .ok acc')
    (hd : (items.map Prod.fst).Nodup) (hitem : item ∈ items) (hfresh : item.1 ∉ acc.2) :
    InsertedKey B (acc.1.get? (scope, item.1)) (acc'.1.get? (scope, item.1)) (submitted item.1)
      item.2 (item.1 ∈ acc'.2) := by
  induction items generalizing acc with
  | nil => simp at hitem
  | cons head items ih =>
    rw [List.foldlM_cons] at h
    obtain ⟨mid, hmid, h⟩ := bind_eq_ok.mp h
    obtain ⟨hnot, hd⟩ := List.nodup_cons.mp hd
    rcases List.mem_cons.mp hitem with hhead | hitem
    · rw [← hhead] at hnot hmid
      rw [insertLoop_frame h (Or.inr hnot), insertLoop_mem_frame h hnot]
      exact insertSetting_own hmid hfresh
    · have hne : item.1 ≠ head.1 := fun heq =>
        hnot (heq ▸ List.mem_map_of_mem (f := Prod.fst) hitem)
      have hframe : mid.1.get? (scope, item.1) = acc.1.get? (scope, item.1) :=
        insertSetting_frame hmid fun heq => hne (Prod.mk.inj heq).2
      rw [← hframe]
      exact ih h hd hitem ((insertSetting_mem_frame hmid hne).not.mpr hfresh)

theorem insertLoop_mem (h : items.foldlM (insertSetting B scope submitted) acc = .ok acc')
    (hk : k ∈ acc'.2) : k ∈ acc.2 ∨ k ∈ items.map Prod.fst := by
  by_cases hmem : k ∈ items.map Prod.fst
  · exact Or.inr hmem
  · exact Or.inl ((insertLoop_mem_frame h hmem).mp hk)

end Loop

/-! ### One batch -/

omit [DecidableEq V] in
theorem requireMutationOrders_eq_ok {values : Dict String V} {writerId : String}
    {orders : Dict String (ℤ × ℤ)} {writer : Option UUID}
    (h : requireMutationOrders .client values writerId orders = .ok writer) (hw : writerId ≠ "") :
    writer.isSome ∧ parseWriterId writerId = writer ∧
      ∀ k ∈ values.keys, ∃ o, submittedOrder writer orders k = some o := by
  obtain ⟨-, -, h⟩ := bind_eq_ok.mp h
  rw [if_neg hw] at h
  obtain ⟨-, -, h⟩ := bind_eq_ok.mp h
  split at h
  · cases h
  · rename_i w hparse
    obtain ⟨_, hkeys, h⟩ := bind_eq_ok.mp h
    obtain ⟨_, hbounds, h⟩ := bind_eq_ok.mp h
    obtain rfl := pure_eq_ok.mp h
    refine ⟨rfl, hparse, fun k hk => ?_⟩
    have hmem := (require_eq_ok.mp hkeys).2 k hk
    obtain ⟨o, ho⟩ := Option.isSome_iff_exists.mp (Dict.mem_keys_iff.mp hmem)
    have hsome := require_eq_ok.mp hbounds _ (Dict.get?_eq_some_iff.mp ho)
    obtain ⟨order, horder⟩ := Option.isSome_iff_exists.mp hsome
    exact ⟨order, by rw [submittedOrder, Option.bind_some, ho]; exact horder⟩

variable {t u : SettingsTables V}

omit [DecidableEq V] in
theorem settleRevision_eq_ok {changed : Bool} {revision : ℕ}
    (h : settleRevision changed t = .ok (u, revision)) :
    u.settings = t.settings ∧ revision = u.revision ∧
      u.revision = if changed then t.revision + 1 else t.revision := by
  rw [settleRevision] at h
  split at h
  · rename_i hc
    obtain ⟨t', ht', h⟩ := bind_eq_ok.mp h
    cases (pure_eq_ok.mp h)
    rw [advanceSettingsRevision] at ht'
    split at ht'
    · cases ht'
      exact ⟨rfl, rfl, by simp [hc]⟩
    · cases ht'
  · rename_i hc
    obtain ⟨n, hn, h⟩ := bind_eq_ok.mp h
    obtain ⟨-, -, hn⟩ := bind_eq_ok.mp hn
    cases (pure_eq_ok.mp h)
    exact ⟨rfl, (pure_eq_ok.mp hn).symm, by simp [hc]⟩

/-- The order that a batch submits for a key. -/
def SettingsBatch.order? (b : SettingsBatch V) (key : String) : Option MutationOrder :=
  submittedOrder (parseWriterId b.writerId) b.orders key

/-- What an accepted batch did and answered. -/
structure Accepted (B : SettingsBackend V) (b : SettingsBatch V) (t u : SettingsTables V)
    (results : List (String × MutationResult V)) (revision : ℕ) (applied : List String) : Prop where
  order : ∀ k ∈ b.values.keys, ∃ o, b.order? k = some o
  own : ∀ k v, b.values.get? k = some v →
    InsertedKey B (t.clientRow k) (u.clientRow k) (b.order? k) v (k ∈ applied)
  frame : ∀ k, k ∉ b.values.keys → u.clientRow k = t.clientRow k
  applied_mem : ∀ k ∈ applied, k ∈ b.values.keys
  result : ∀ k ∈ b.values.keys, ∃ r, (k, r) ∈ results
  mem_results : ∀ k r, (k, r) ∈ results → ∃ v row, b.values.get? k = some v ∧
    u.clientRow k = some row ∧
    mutationOutcome B true (k ∈ applied) (b.order? k) v row = .ok r.outcome
  revision_eq : revision = u.revision
  advance : u.revision = if applied ≠ [] then t.revision + 1 else t.revision

variable {b : SettingsBatch V} {B : SettingsBackend V}

theorem accepted_of_locked
    {results : List (String × MutationResult V)} {revision : ℕ} {writer : Option UUID}
    (hw : b.writerId ≠ "")
    (hwriter : requireMutationOrders .client b.values b.writerId b.orders = .ok writer)
    (h : upsertSettingsLocked B b.call.instrumentIds .client b.values writer b.orders t
      = .ok (u, results, revision)) :
    ∃ applied, Accepted B b t u results revision applied := by
  obtain ⟨hsome, hparse, horder⟩ := requireMutationOrders_eq_ok hwriter hw
  have hsub : ∀ k, submittedOrder writer b.orders k = b.order? k := fun k => by
    rw [SettingsBatch.order?, hparse]
  obtain ⟨-, -, h⟩ := bind_eq_ok.mp h
  obtain ⟨⟨settings, applied⟩, hloop, h⟩ := bind_eq_ok.mp h
  obtain ⟨_, hall, h⟩ := bind_eq_ok.mp h
  obtain ⟨-, -, h⟩ := bind_eq_ok.mp h
  obtain ⟨rs, hrs, h⟩ := bind_eq_ok.mp h
  obtain ⟨⟨t', revision'⟩, hsettle, h⟩ := bind_eq_ok.mp h
  obtain ⟨rfl, hres⟩ := Prod.mk.inj (pure_eq_ok.mp h)
  cases hres
  obtain ⟨hrows, hrevision, hadvance⟩ := settleRevision_eq_ok hsettle
  have hrow : ∀ k, t'.clientRow k = settings.get? (.client, k) := fun k => by
    rw [SettingsTables.clientRow, hrows]
  refine ⟨applied, ?_, ?_, ?_, ?_, ?_, ?_, hrevision, ?_⟩
  · intro k hk
    exact hsub k ▸ horder k hk
  · intro k v hv
    have hmem := Dict.get?_eq_some_iff.mp hv
    have hown := insertLoop_own hloop b.values.nodup_keys hmem (by simp)
    rw [hrow]
    exact hsub k ▸ hown
  · intro k hk
    rw [hrow]
    exact insertLoop_frame hloop (Or.inr hk)
  · intro k hk
    exact (insertLoop_mem hloop hk).resolve_left (by simp)
  · intro k hk
    obtain ⟨row, hmem, hkey⟩ := List.mem_map.mp (require_eq_ok.mp hall k hk)
    obtain ⟨⟨k', r⟩, hr, hf⟩ := exists_mem_of_mapM_eq_ok hrs hmem
    rw [mutationResult] at hf
    split at hf
    · cases hf
    · obtain ⟨outcome, -, hf⟩ := bind_eq_ok.mp hf
      obtain ⟨rfl, -⟩ := Prod.mk.inj (pure_eq_ok.mp hf)
      exact ⟨r, hkey ▸ hr⟩
  · intro k r hr
    obtain ⟨⟨⟨s, k'⟩, row⟩, hmem, hf⟩ := mem_of_mapM_eq_ok hrs hr
    obtain ⟨hget, hcond⟩ := Dict.mem_select.mp hmem
    obtain ⟨rfl, -⟩ : s = .client ∧ k' ∈ b.values.keys := by simpa using hcond
    rw [mutationResult] at hf
    split at hf
    · cases hf
    · rename_i v hv
      obtain ⟨outcome, houtcome, hf⟩ := bind_eq_ok.mp hf
      cases (pure_eq_ok.mp hf)
      rw [hsome, hsub] at houtcome
      exact ⟨v, row, hv, (hrow k').trans hget, houtcome⟩
  · rw [hadvance]
    cases applied <;> rfl

/-- The checks before the transaction. -/
theorem upsertSettings_eq_ok {res : SettingsTables V × List (String × MutationResult V) × ℕ}
    (h : upsertSettings B b.call "client" b.values b.writerId b.orders t = .ok res) :
    ∃ writer, requireMutationOrders .client b.values b.writerId b.orders = .ok writer ∧
      upsertSettingsLocked B b.call.instrumentIds .client b.values writer b.orders t = .ok res := by
  obtain ⟨⟨scope', writer'⟩, hprep, h⟩ := bind_eq_ok.mp h
  obtain ⟨scope, hscope, hprep⟩ := bind_eq_ok.mp hprep
  obtain rfl : SettingsScope.client = scope := Except.ok.inj hscope
  obtain ⟨-, -, hprep⟩ := bind_eq_ok.mp hprep
  obtain ⟨writer, hwriter, hprep⟩ := bind_eq_ok.mp hprep
  obtain ⟨-, -, hprep⟩ := bind_eq_ok.mp hprep
  obtain ⟨-, -, hprep⟩ := bind_eq_ok.mp hprep
  obtain ⟨-, -, hprep⟩ := bind_eq_ok.mp hprep
  obtain ⟨rfl, rfl⟩ := Prod.mk.inj (pure_eq_ok.mp hprep)
  exact ⟨writer, hwriter, h⟩

/-! ### What a batch reports -/

section Outcome

variable {B : SettingsBackend V} {cur cur' : Option (SettingRow V)} {o : MutationOrder} {v : V}
  {row : SettingRow V} {applied : Prop} [Decidable applied] {outcome : MutationOutcome}

/-- The three outcomes, by what became of the row. -/
inductive KeyOutcome (B : SettingsBackend V) (cur cur' : Option (SettingRow V)) (o : MutationOrder)
    (v : V) : MutationOutcome → Prop
  | applied {stored : V} (hbefore : ∀ c, cur.bind SettingRow.order = some c → c < o)
      (hafter : cur' = some ⟨stored, some o⟩) (hsame : B.same stored v) :
      KeyOutcome B cur cur' o v .applied
  | replayed {row : SettingRow V} (hbefore : cur = some row) (horder : row.order = some o)
      (hafter : cur' = cur) : KeyOutcome B cur cur' o v .replayed
  | rejected {row : SettingRow V} {c : MutationOrder} (hbefore : cur = some row)
      (horder : row.order = some c) (hlt : o < c) (hafter : cur' = cur) :
      KeyOutcome B cur cur' o v .rejected

theorem keyOutcome (hown : InsertedKey B cur cur' (some o) v applied) (hrow : cur' = some row)
    (h : mutationOutcome B true (decide applied) (some o) v row = .ok outcome) :
    KeyOutcome B cur cur' o v outcome := by
  obtain ⟨stored, -, hcur', hiff⟩ := hown
  cases hup : upsertRow cur ⟨stored, some o⟩ with
  | some r =>
    obtain ⟨rfl, hlt⟩ := upsertRow_eq_some_iff.mp hup
    have happ : applied := hiff.mpr (by rw [hup]; rfl)
    rw [hup, Option.some_or] at hcur'
    cases (hcur'.symm.trans hrow)
    rw [mutationOutcome, if_pos (by simpa using happ)] at h
    split at h
    · cases h
    · rename_i hok
      cases h
      push Not at hok
      exact .applied hlt hcur' hok.2
  | none =>
    have happ : ¬ applied := fun ha => by simpa [hup] using hiff.mp ha
    obtain ⟨r, c, hr, hc, hle⟩ := upsertRow_eq_none hup
    rw [hup, Option.none_or] at hcur'
    obtain rfl : r = row := Option.some.inj (hr.symm.trans (hcur'.symm.trans hrow))
    rw [mutationOutcome, if_neg (by simpa using happ), hc] at h
    split at h
    · rename_i heq
      split at h
      · cases h
      · cases h
        exact .replayed hr (hc.trans (orderTuple_injective heq)) hcur'
    · rename_i hne
      have hlt : o < c := lt_of_le_of_ne hle fun heq => hne (by rw [heq])
      have hgt : tupleGreater (orderTuple (some c)) (orderTuple (some o)) = some true := by
        rw [orderTuple, orderTuple, MutationOrder.exceeds_iff, decide_eq_true hlt]
      rw [if_pos ⟨rfl, c.changedAtMs_mem.1⟩, hgt] at h
      cases h
      exact .rejected hr hc hlt hcur'

omit [DecidableEq V] in
theorem KeyOutcome.applied_iff (h : KeyOutcome B cur cur' o v outcome) :
    outcome = .applied ↔ cur'.bind SettingRow.order ≠ cur.bind SettingRow.order := by
  cases h with
  | applied hbefore hafter hsame =>
    refine iff_of_true rfl fun heq => ?_
    have hcur : cur.bind SettingRow.order = some o := by rw [← heq, hafter]; rfl
    exact lt_irrefl o (hbefore o hcur)
  | replayed hbefore horder hafter => exact iff_of_false (by decide) (by simp [hafter])
  | rejected hbefore horder hlt hafter => exact iff_of_false (by decide) (by simp [hafter])

omit [DecidableEq V] in
theorem KeyOutcome.replayed_iff (h : KeyOutcome B cur cur' o v outcome) :
    outcome = .replayed ↔ cur.bind SettingRow.order = some o := by
  cases h with
  | applied hbefore hafter hsame =>
    exact iff_of_false (by decide) fun heq => lt_irrefl o (hbefore o heq)
  | replayed hbefore horder hafter => exact iff_of_true rfl (by rw [hbefore]; exact horder)
  | rejected hbefore horder hlt hafter =>
    refine iff_of_false (by decide) fun heq => ?_
    rw [hbefore, Option.bind_some, horder] at heq
    exact hlt.ne' (Option.some.inj heq)

omit [DecidableEq V] in
theorem KeyOutcome.rejected_iff (h : KeyOutcome B cur cur' o v outcome) :
    outcome = .rejected ↔ ∃ c, cur.bind SettingRow.order = some c ∧ o < c := by
  cases h with
  | applied hbefore hafter hsame =>
    refine iff_of_false (by decide) ?_
    rintro ⟨c, hc, hlt⟩
    exact lt_asymm hlt (hbefore c hc)
  | replayed hbefore horder hafter =>
    refine iff_of_false (by decide) ?_
    rintro ⟨c, hc, hlt⟩
    rw [hbefore, Option.bind_some, horder] at hc
    exact hlt.ne (Option.some.inj hc)
  | rejected hbefore horder hlt hafter =>
    exact iff_of_true rfl ⟨_, by rw [hbefore]; exact horder, hlt⟩

end Outcome

/-- What a call that returned reports of the step from `t` to `u`. -/
structure Reported (b : SettingsBatch V) (t u : SettingsTables V)
    (results : List (String × MutationResult V)) (revision : ℕ) : Prop where
  keys : ∀ k, k ∈ b.values.keys ↔ ∃ r, (k, r) ∈ results
  applied : ∀ k r, (k, r) ∈ results → (r.outcome = .applied ↔ u.clientOrder k ≠ t.clientOrder k)
  replayed : ∀ k r, (k, r) ∈ results → (r.outcome = .replayed ↔ t.clientOrder k = b.order? k)
  rejected : ∀ k r, (k, r) ∈ results →
    (r.outcome = .rejected ↔ ∃ o c, b.order? k = some o ∧ t.clientOrder k = some c ∧ o < c)
  revision_eq : revision = u.revision
  advance : u.revision =
    if ∃ e ∈ results, e.2.outcome = .applied then t.revision + 1 else t.revision

namespace Accepted

variable {B : SettingsBackend V} {b : SettingsBatch V} {t u : SettingsTables V}
  {results : List (String × MutationResult V)} {revision : ℕ} {applied : List String}

theorem keyOutcome (h : Accepted B b t u results revision applied) {k : String}
    {r : MutationResult V} (hr : (k, r) ∈ results) :
    ∃ v o, b.values.get? k = some v ∧ b.order? k = some o ∧
      KeyOutcome B (t.clientRow k) (u.clientRow k) o v r.outcome := by
  obtain ⟨v, row, hv, hrow, hout⟩ := h.mem_results k r hr
  obtain ⟨o, ho⟩ := h.order k (Dict.mem_keys_of_get? hv)
  have hown := h.own k v hv
  rw [ho] at hown hout
  exact ⟨v, o, hv, ho, AefTerminal.keyOutcome hown hrow hout⟩

theorem outcome_applied_iff (h : Accepted B b t u results revision applied) {k : String}
    {r : MutationResult V} (hr : (k, r) ∈ results) : r.outcome = .applied ↔ k ∈ applied := by
  obtain ⟨v, row, hv, hrow, hout⟩ := h.mem_results k r hr
  by_cases hk : k ∈ applied
  · refine iff_of_true ?_ hk
    rw [mutationOutcome, if_pos (by simpa using hk)] at hout
    split at hout
    · cases hout
    · exact (Except.ok.inj hout).symm
  · refine iff_of_false (fun hr => ?_) hk
    rw [mutationOutcome, if_neg (by simpa using hk), hr] at hout
    split at hout
    · split at hout <;> cases hout
    · split at hout
      · split at hout <;> cases hout
      · cases hout

theorem reported (h : Accepted B b t u results revision applied) :
    Reported b t u results revision where
  keys k := ⟨h.result k, fun ⟨r, hr⟩ => by
    obtain ⟨v, row, hv, -⟩ := h.mem_results k r hr
    exact Dict.mem_keys_of_get? hv⟩
  applied k r hr := by
    obtain ⟨v, o, -, -, ho⟩ := h.keyOutcome hr
    exact ho.applied_iff
  replayed k r hr := by
    obtain ⟨v, o, -, horder, ho⟩ := h.keyOutcome hr
    rw [horder]
    exact ho.replayed_iff
  rejected k r hr := by
    obtain ⟨v, o, -, horder, ho⟩ := h.keyOutcome hr
    rw [ho.rejected_iff, horder]
    simp [SettingsTables.clientOrder]
  revision_eq := h.revision_eq
  advance := by
    have hiff : (∃ e ∈ results, e.2.outcome = .applied) ↔ applied ≠ [] := by
      constructor
      · rintro ⟨⟨k, r⟩, hr, hout⟩
        exact List.ne_nil_of_mem ((h.outcome_applied_iff hr).mp hout)
      · intro hne
        obtain ⟨k, hk⟩ := List.exists_mem_of_ne_nil applied hne
        obtain ⟨r, hr⟩ := h.result k (h.applied_mem k hk)
        exact ⟨(k, r), hr, (h.outcome_applied_iff hr).mpr hk⟩
    rw [h.advance, if_congr hiff rfl rfl]

end Accepted

/-! ### The mutations of a batch -/

theorem MutationOrder.of?_eq_some {changedAtMs sequence : ℤ} {w : UUID}
    (h : MutationOrder.of? changedAtMs w sequence = some o) :
    o.changedAtMs = changedAtMs ∧ o.writerId = w ∧ o.sequence = sequence := by
  rw [MutationOrder.of?] at h
  split at h
  · cases h
    exact ⟨rfl, rfl, rfl⟩
  · cases h

omit [DecidableEq V] in
theorem ClientMutation.of_order?_eq {m : ClientMutation V} (h : m.order? = some o) :
    m.changedAtMs = o.changedAtMs ∧ m.writer = o.writerId.text ∧ m.sequence = o.sequence := by
  obtain ⟨w, hw, hof⟩ := Option.bind_eq_some_iff.mp h
  obtain ⟨hc, hwriter, hs⟩ := MutationOrder.of?_eq_some hof
  exact ⟨hc.symm, by rw [hwriter, text_of_parseWriterId hw], hs.symm⟩

variable {M : List (ClientMutation V)}

omit [DecidableEq V] in
theorem EqualOrdersAgree.same
    (hM : EqualOrdersAgree B M) {m m' : ClientMutation V} (hm : m ∈ M) (hm' : m' ∈ M)
    (hkey : m.key = m'.key) (ho : m.order? = some o) (ho' : m'.order? = some o) :
    B.same m.value m'.value := by
  obtain ⟨hc, hw, hs⟩ := ClientMutation.of_order?_eq ho
  obtain ⟨hc', hw', hs'⟩ := ClientMutation.of_order?_eq ho'
  exact hM m hm m' hm' hkey (hc.trans hc'.symm) (hw.trans hw'.symm) (hs.trans hs'.symm)

omit [DecidableEq V] in
/-- The mutation of a key with a submitted order. -/
theorem SettingsBatch.mem_mutations {k : String}
    (hv : b.values.get? k = some v) (ho : b.order? k = some o) :
    ∃ m ∈ b.mutations, m.key = k ∧ m.value = v ∧ m.order? = some o := by
  obtain ⟨w, hw, h⟩ := Option.bind_eq_some_iff.mp ho
  obtain ⟨p, hp, hof⟩ := Option.bind_eq_some_iff.mp h
  refine ⟨⟨k, v, p.1, b.writerId, p.2⟩, ?_, rfl, rfl, ?_⟩
  · exact List.mem_filterMap.mpr ⟨(k, v), Dict.get?_eq_some_iff.mp hv, by simp [hp]⟩
  · rw [ClientMutation.order?, hw]
    exact hof

omit [DecidableEq V] in
theorem SettingsBatch.of_mem_mutations {m : ClientMutation V}
    (hm : m ∈ b.mutations) : b.values.get? m.key = some m.value ∧ b.order? m.key = m.order? := by
  obtain ⟨⟨k, v⟩, hmem, hmap⟩ := List.mem_filterMap.mp hm
  obtain ⟨p, hp, rfl⟩ := Option.map_eq_some_iff.mp hmap
  refine ⟨Dict.get?_eq_some_iff.mpr hmem, ?_⟩
  show submittedOrder (parseWriterId b.writerId) b.orders k = _
  rw [submittedOrder, hp]
  rfl

/-! ### A run of batches -/

/-- The register write of an accepted batch, for one key. -/
def SettingsBatch.write (B : SettingsBackend V) (b : SettingsBatch V) (key : String) :
    Option (MutationOrder × V) :=
  (b.values.get? key).bind fun v => (b.order? key).bind fun o => (B.jsonb v).map fun s => (o, s)

namespace Accepted

variable {B : SettingsBackend V} {b : SettingsBatch V} {t u : SettingsTables V}
  {results : List (String × MutationResult V)} {revision : ℕ} {applied : List String}

theorem write_eq (h : Accepted B b t u results revision applied) {k : String}
    (hk : k ∈ b.values.keys) :
    ∃ v o s, b.values.get? k = some v ∧ b.order? k = some o ∧ b.write B k = some (o, s) ∧
      u.clientRow k = (upsertRow (t.clientRow k) ⟨s, some o⟩).or (t.clientRow k) := by
  obtain ⟨v, hv⟩ := Option.isSome_iff_exists.mp (Dict.mem_keys_iff.mp hk)
  obtain ⟨o, ho⟩ := h.order k hk
  obtain ⟨s, hs, hrow, -⟩ := h.own k v hv
  refine ⟨v, o, s, hv, ho, ?_, ho ▸ hrow⟩
  rw [SettingsBatch.write, hv, Option.bind_some, ho, Option.bind_some, hs]
  rfl

theorem clientRegister (h : Accepted B b t u results revision applied) (k : String) :
    u.clientRegister k = (b.write B k).toList.foldl LwwRegister.write (t.clientRegister k) := by
  by_cases hk : k ∈ b.values.keys
  · obtain ⟨v, o, s, -, -, hwrite, hrow⟩ := h.write_eq hk
    rw [SettingsTables.clientRegister, hrow, hwrite]
    exact register_upsertRow _ _ _
  · have hnone : b.write B k = none := by
      rw [SettingsBatch.write, Dict.notMem_keys_iff.mp hk]
      rfl
    rw [SettingsTables.clientRegister, h.frame k hk, hnone]
    rfl

/-- An applied key holds the value of its mutation, so the stored values keep agreeing. -/
theorem agrees (h : Accepted B b t u results revision applied) {M : List (ClientMutation V)}
    (hM : EqualOrdersAgree B M) (hb : ∀ m ∈ b.mutations, m ∈ M) (ht : Agrees B M t) :
    Agrees B M u := by
  intro m hm row hrow horder hsome
  by_cases hk : m.key ∈ b.values.keys
  · obtain ⟨r, hr⟩ := h.result _ hk
    obtain ⟨v, o, hv, ho, hout⟩ := h.keyOutcome hr
    generalize r.outcome = outcome at hout
    cases hout with
    | applied hbefore hafter hsame =>
      cases (hafter.symm.trans hrow)
      obtain ⟨m', hm', hkey, hvalue, horder'⟩ := SettingsBatch.mem_mutations hv ho
      exact B.same_trans hsame
        (hvalue ▸ hM.same (hb m' hm') hm hkey horder' horder.symm)
    | replayed hbefore horder' hafter => exact ht m hm row (hafter ▸ hrow) horder hsome
    | rejected hbefore horder' hlt hafter => exact ht m hm row (hafter ▸ hrow) horder hsome
  · exact ht m hm row ((h.frame _ hk).symm.trans hrow) horder hsome

end Accepted

/-- A batch of ordered mutations of `M`. -/
def SettingsAct.OrderedIn (M : List (ClientMutation V)) (a : SettingsAct V) : Prop :=
  a.batch.writerId ≠ "" ∧ ∀ m ∈ a.batch.mutations, m ∈ M

theorem SettingsStep.cases {a : SettingsAct V}
    (h : SettingsStep B t a u) (hw : a.batch.writerId ≠ "") :
    (a.accepted = true ∧ ∃ results revision applied, a.answer = .ok (results, revision) ∧
      Accepted B a.batch t u results revision applied) ∨
    (a.accepted = false ∧ u = t ∧ ∃ e, a.answer = .error e ∧
      upsertSettings B a.batch.call "client" a.batch.values a.batch.writerId a.batch.orders t
        = .error e) := by
  rw [SettingsStep] at h
  split at h
  · rename_i v results revision hok
    obtain ⟨hans, rfl⟩ := h
    obtain ⟨writer, hwriter, hlocked⟩ := upsertSettings_eq_ok hok
    obtain ⟨applied, hacc⟩ := accepted_of_locked hw hwriter hlocked
    exact Or.inl ⟨by rw [SettingsAct.accepted, hans], results, revision, applied, hans, hacc⟩
  · rename_i e herr
    exact Or.inr ⟨by rw [SettingsAct.accepted, h.1], h.2, e, h.1, herr⟩

/-- The register writes of a run, for one key. -/
def keyWrites (B : SettingsBackend V) (k : String) (acts : List (SettingsAct V)) :
    List (MutationOrder × V) :=
  (acts.filter SettingsAct.accepted).flatMap fun a => (a.batch.write B k).toList

section Runs

variable {B : SettingsBackend V} {M : List (ClientMutation V)} {t u : SettingsTables V}
  {acts : List (SettingsAct V)}

theorem clientRegister_run (h : Run (SettingsStep B) t acts u) (hacts : ∀ a ∈ acts, a.OrderedIn M)
    (k : String) :
    u.clientRegister k = (keyWrites B k acts).foldl LwwRegister.write (t.clientRegister k) := by
  induction h with
  | nil => rfl
  | @cons t s u a as hstep _ ih =>
    obtain ⟨ha, has⟩ := List.forall_mem_cons.mp hacts
    rw [ih has]
    rcases hstep.cases ha.1 with ⟨hacc, _, _, _, -, hok⟩ | ⟨hacc, rfl, -⟩
    · rw [hok.clientRegister k, keyWrites, keyWrites, List.filter_cons_of_pos hacc,
        List.flatMap_cons, List.foldl_append]
    · rw [keyWrites, keyWrites, List.filter_cons_of_neg (by simp [hacc])]

theorem agrees_run (hM : EqualOrdersAgree B M) (h : Run (SettingsStep B) t acts u)
    (hacts : ∀ a ∈ acts, a.OrderedIn M) (ht : Agrees B M t) : Agrees B M u := by
  induction h with
  | nil => exact ht
  | cons hstep _ ih =>
    obtain ⟨ha, has⟩ := List.forall_mem_cons.mp hacts
    refine ih has ?_
    rcases hstep.cases ha.1 with ⟨-, _, _, _, -, hok⟩ | ⟨-, rfl, -⟩
    · exact hok.agrees hM ha.2 ht
    · exact ht

/-- A key of which no mutation was accepted keeps its row. -/
theorem clientRow_run (h : Run (SettingsStep B) t acts u) (hacts : ∀ a ∈ acts, a.OrderedIn M)
    {k : String} (hk : ∀ m ∈ acceptedMutations acts, m.key ≠ k) : u.clientRow k = t.clientRow k := by
  induction h with
  | nil => rfl
  | @cons t s u a as hstep _ ih =>
    obtain ⟨ha, has⟩ := List.forall_mem_cons.mp hacts
    rcases hstep.cases ha.1 with ⟨hacc, _, _, _, -, hok⟩ | ⟨hacc, rfl, -⟩
    · have hmuts : acceptedMutations (a :: as) = a.batch.mutations ++ acceptedMutations as := by
        rw [acceptedMutations, List.filter_cons_of_pos hacc, List.flatMap_cons]; rfl
      rw [hmuts] at hk
      rw [ih has fun m hm => hk m (List.mem_append_right _ hm)]
      refine hok.frame k fun hmem => ?_
      obtain ⟨v, o, s, hv, ho, -⟩ := hok.write_eq hmem
      obtain ⟨m, hm, hkey, -⟩ := SettingsBatch.mem_mutations hv ho
      exact hk m (List.mem_append_left _ hm) hkey
    · refine ih has ?_
      rwa [acceptedMutations, List.filter_cons_of_neg (by simp [hacc])] at hk

/-- The known orders are those of the register writes. -/
theorem mem_known_iff (h : Run (SettingsStep B) t acts u) (hacts : ∀ a ∈ acts, a.OrderedIn M)
    {k : String} {o : MutationOrder} :
    o ∈ Known t acts k ↔ ∃ v, (o, v) ∈ (t.clientRegister k).toList ++ keyWrites B k acts := by
  have hstart : t.clientOrder k = some o ↔ ∃ v, (o, v) ∈ (t.clientRegister k).toList := by
    rw [SettingsTables.clientOrder, SettingsTables.clientRegister, register]
    cases t.clientRow k with
    | none => simp
    | some row => cases horder : row.order <;> simp [horder, eq_comm]
  have hwrites : (∃ m ∈ acceptedMutations acts, m.key = k ∧ m.order? = some o) ↔
      ∃ v, (o, v) ∈ keyWrites B k acts := by
    constructor
    · rintro ⟨m, hm, rfl, ho⟩
      obtain ⟨a, ha, hmem⟩ := List.mem_flatMap.mp hm
      obtain ⟨hin, hacc⟩ := List.mem_filter.mp ha
      obtain ⟨as₁, as₂, s, s', -, -, hstep, -⟩ := h.exists_step hin
      rcases hstep.cases (hacts a hin).1 with ⟨-, _, _, _, -, hok⟩ | ⟨hno, -⟩
      · obtain ⟨hv, horder⟩ := SettingsBatch.of_mem_mutations hmem
        obtain ⟨v, o', w, -, ho', hwrite, -⟩ := hok.write_eq (Dict.mem_keys_of_get? hv)
        cases (ho'.symm.trans (horder.trans ho))
        exact ⟨w, List.mem_flatMap.mpr ⟨a, ha, by rw [hwrite]; simp⟩⟩
      · rw [hacc] at hno
        cases hno
    · rintro ⟨w, hw⟩
      obtain ⟨a, ha, hmem⟩ := List.mem_flatMap.mp hw
      obtain ⟨v, hv, h⟩ := Option.bind_eq_some_iff.mp (Option.mem_toList.mp hmem)
      obtain ⟨o', ho', h⟩ := Option.bind_eq_some_iff.mp h
      obtain ⟨s, -, heq⟩ := Option.map_eq_some_iff.mp h
      cases heq
      obtain ⟨m, hm, hkey, -, horder⟩ := SettingsBatch.mem_mutations hv ho'
      exact ⟨m, List.mem_flatMap.mpr ⟨a, ha, hm⟩, hkey, horder⟩
  simp only [Known, Set.mem_ofPred_eq, hstart, hwrites, List.mem_append, exists_or]

end Runs

/-! ### Batches that raise -/

/-- The checks that are not about what is stored: the arguments, the contract, the lease and its
fence, whether PostgreSQL stores the values as they are, and the bound of the revision. -/
structure SettingsBatch.Passes (B : SettingsBackend V) (b : SettingsBatch V)
    (t : SettingsTables V) : Prop where
  payload : b.values.entries ≠ []
  orders : ∃ writer, requireMutationOrders .client b.values b.writerId b.orders = .ok writer
  contract : B.validate .client b.values.entries none = .ok ()
  contractNow : ∀ rows, (∀ e ∈ rows, e.1 ∈ b.values.keys) →
    B.validate .client rows (some fun i => i ∈ b.call.instrumentIds) = .ok ()
  lease : b.call.lease = .ok ()
  fence : b.call.fence = .ok ()
  stored : ∀ e ∈ b.values.entries, ∃ s, B.jsonb e.2 = some s ∧ B.same s e.2
  revision : t.revision < maxSafeSettingsRevision

theorem exists_insertSetting_eq_ok {scope : SettingsScope}
    {submitted : String → Option MutationOrder} {item : String × V}
    (h : ∃ s, B.jsonb item.2 = some s ∧ B.same s item.2) (acc : SettingTable V × List String) :
    ∃ acc', insertSetting B scope submitted acc item = .ok acc' := by
  obtain ⟨s, hs, -⟩ := h
  rw [insertSetting, hs]
  dsimp only
  split
  · exact ⟨_, rfl⟩
  · exact ⟨_, rfl⟩

/-- The comparison of Python accepts what the comparison of the store left. -/
theorem exists_mutationOutcome_eq_ok {cur cur' : Option (SettingRow V)}
    {row : SettingRow V} {applied : Prop} [Decidable applied]
    (hown : InsertedKey B cur cur' (some o) v applied) (hrow : cur' = some row)
    (hstored : ∃ s, B.jsonb v = some s ∧ B.same s v)
    (hsame : ∀ r, cur = some r → r.order = some o → B.same r.value v) :
    ∃ outcome, mutationOutcome B true (decide applied) (some o) v row = .ok outcome := by
  obtain ⟨stored, hjson, hcur', hiff⟩ := hown
  obtain ⟨s, hs, hsv⟩ := hstored
  cases (hjson.symm.trans hs)
  cases hup : upsertRow cur ⟨stored, some o⟩ with
  | some r =>
    obtain ⟨rfl, -⟩ := upsertRow_eq_some_iff.mp hup
    have happ : applied := hiff.mpr (by rw [hup]; rfl)
    rw [hup, Option.some_or] at hcur'
    cases (hcur'.symm.trans hrow)
    exact ⟨.applied, by simp [mutationOutcome, happ, hsv]⟩
  | none =>
    have happ : ¬ applied := fun ha => by simpa [hup] using hiff.mp ha
    obtain ⟨r, c, hr, hc, hle⟩ := upsertRow_eq_none hup
    rw [hup, Option.none_or] at hcur'
    obtain rfl : r = row := Option.some.inj (hr.symm.trans (hcur'.symm.trans hrow))
    rcases eq_or_lt_of_le hle with rfl | hlt
    · exact ⟨.replayed, by simp [mutationOutcome, happ, hc, hsame r hr hc]⟩
    · have hne : orderTuple (some c) ≠ orderTuple (some o) := fun heq =>
        hlt.ne' (Option.some.inj (orderTuple_injective heq))
      have hgt : tupleGreater (orderTuple (some c)) (orderTuple (some o)) = some true := by
        rw [orderTuple, orderTuple, MutationOrder.exceeds_iff, decide_eq_true hlt]
      refine ⟨.rejected, ?_⟩
      rw [mutationOutcome, if_neg (by simpa using happ), hc, if_neg hne,
        if_pos ⟨rfl, c.changedAtMs_mem.1⟩, hgt]

omit [DecidableEq V] in
theorem exists_settleRevision_eq_ok (h : t.revision < maxSafeSettingsRevision) (changed : Bool) :
    ∃ res, settleRevision changed t = .ok res := by
  cases changed with
  | true =>
    let u : SettingsTables V := { t with revision := t.revision + 1, revision_le := h }
    refine ⟨(u, u.revision), ?_⟩
    rw [settleRevision, if_pos rfl, advanceSettingsRevision, dif_pos h]
    rfl
  | false =>
    refine ⟨(t, t.revision), ?_⟩
    have hread : readSettingsRevision t = .ok t.revision :=
      bind_eq_ok.mpr ⟨⟨⟩, require_eq_ok.mpr t.revision_le, rfl⟩
    rw [settleRevision, if_neg Bool.false_ne_true, hread]
    rfl

/-- **Only a failed check raises**: the rows read back never contradict what was written. -/
theorem exists_upsertSettings_eq_ok (ht : Agrees B M t)
    (hb : ∀ m ∈ b.mutations, m ∈ M) (hw : b.writerId ≠ "") (h : b.Passes B t) :
    ∃ res, upsertSettings B b.call "client" b.values b.writerId b.orders t = .ok res := by
  obtain ⟨writer, hwriter⟩ := h.orders
  obtain ⟨hsome, hparse, horder⟩ := requireMutationOrders_eq_ok hwriter hw
  obtain ⟨⟨settings, applied⟩, hloop⟩ := exists_foldlM_eq_ok
    (f := insertSetting B .client (submittedOrder writer b.orders)) (b := (t.settings, []))
    fun e he => exists_insertSetting_eq_ok (h.stored e he)
  obtain ⟨⟨u, revision⟩, hsettle⟩ := exists_settleRevision_eq_ok
    (t := { t with settings := settings }) h.revision (!applied.isEmpty)
  have hown : ∀ k v, b.values.get? k = some v →
      InsertedKey B (t.clientRow k) (settings.get? (.client, k)) (submittedOrder writer b.orders k)
        v (k ∈ applied) := fun k v hv =>
    insertLoop_own hloop b.values.nodup_keys (Dict.get?_eq_some_iff.mp hv) (by simp)
  let rows := settings.select fun k _ => k.1 = .client ∧ k.2 ∈ b.values.keys
  have hall : ∀ k ∈ b.values.keys, k ∈ rows.map fun row => row.1.2 := by
    intro k hk
    obtain ⟨v, hv⟩ := Option.isSome_iff_exists.mp (Dict.mem_keys_iff.mp hk)
    obtain ⟨o, ho⟩ := horder k hk
    obtain ⟨s, -, hcur, -⟩ := hown k v hv
    rw [ho] at hcur
    have hrow : ∃ row, settings.get? (.client, k) = some row := by
      cases hup : upsertRow (t.clientRow k) ⟨s, some o⟩ with
      | some row => exact ⟨row, by rw [hcur, hup]; rfl⟩
      | none =>
        obtain ⟨row, c, hr, -⟩ := upsertRow_eq_none hup
        exact ⟨row, by rw [hcur, hup, hr]; rfl⟩
    obtain ⟨row, hrow⟩ := hrow
    exact List.mem_map.mpr ⟨((.client, k), row), Dict.mem_select.mpr ⟨hrow, by simp [hk]⟩, rfl⟩
  obtain ⟨results, hresults⟩ : ∃ results, rows.mapM
      (mutationResult B writer.isSome (submittedOrder writer b.orders) b.values applied)
        = .ok results := by
    refine exists_mapM_eq_ok fun row hrow => ?_
    obtain ⟨⟨s, k⟩, row⟩ := row
    obtain ⟨hget, hcond⟩ := Dict.mem_select.mp hrow
    obtain ⟨rfl, hk⟩ : s = .client ∧ k ∈ b.values.keys := by simpa using hcond
    obtain ⟨v, hv⟩ := Option.isSome_iff_exists.mp (Dict.mem_keys_iff.mp hk)
    obtain ⟨o, ho⟩ := horder k hk
    have ho' : b.order? k = some o := by rw [SettingsBatch.order?, hparse, ho]
    obtain ⟨m, hm, rfl, rfl, hmo⟩ := SettingsBatch.mem_mutations hv ho'
    have hkey := hown _ _ hv
    rw [ho] at hkey
    obtain ⟨outcome, hout⟩ := exists_mutationOutcome_eq_ok hkey hget
      (h.stored _ (Dict.get?_eq_some_iff.mp hv)) fun r hr horder =>
        ht m (hb m hm) r hr (horder.trans hmo.symm) (by rw [horder]; rfl)
    refine ⟨(m.key, ⟨outcome, row.value, orderTuple row.order⟩), ?_⟩
    rw [mutationResult]
    dsimp only
    rw [hv]
    dsimp only
    rw [ho, hsome, hout]
    rfl
  have hrows : ∀ e ∈ rows.map fun row => (row.1.2, row.2.value), e.1 ∈ b.values.keys := by
    intro e he
    obtain ⟨⟨⟨s, k⟩, row⟩, hrow, rfl⟩ := List.mem_map.mp he
    obtain ⟨-, hcond⟩ := Dict.mem_select.mp hrow
    exact (by simpa using hcond : s = .client ∧ k ∈ b.values.keys).2
  refine ⟨(u, results, revision), ?_⟩
  have hlocked : upsertSettingsLocked B b.call.instrumentIds .client b.values writer b.orders t
      = .ok (u, results, revision) := by
    refine bind_eq_ok.mpr ⟨(), h.contractNow _ fun e he => List.mem_map_of_mem he, ?_⟩
    refine bind_eq_ok.mpr ⟨(settings, applied), hloop, ?_⟩
    refine bind_eq_ok.mpr ⟨⟨⟩, require_eq_ok.mpr hall, ?_⟩
    refine bind_eq_ok.mpr ⟨(), h.contractNow _ hrows, ?_⟩
    exact bind_eq_ok.mpr ⟨results, hresults, bind_eq_ok.mpr ⟨(u, revision), hsettle, rfl⟩⟩
  refine bind_eq_ok.mpr ⟨(.client, writer), ?_, hlocked⟩
  refine bind_eq_ok.mpr ⟨.client, rfl, ?_⟩
  refine bind_eq_ok.mpr ⟨⟨⟩, require_eq_ok.mpr h.payload, ?_⟩
  refine bind_eq_ok.mpr ⟨writer, hwriter, ?_⟩
  refine bind_eq_ok.mpr ⟨(), h.contract, ?_⟩
  exact bind_eq_ok.mpr ⟨(), h.lease, bind_eq_ok.mpr ⟨(), h.fence, rfl⟩⟩

/-! ### The main result -/

/-- What a run did to a key: without a mutation its row is untouched, and else the row is the one of
the greatest order that was known. -/
def Settled (B : SettingsBackend V) (M : List (ClientMutation V)) (t : SettingsTables V)
    (acts : List (SettingsAct V)) (u : SettingsTables V) (k : String) : Prop :=
  ((∀ m ∈ acceptedMutations acts, m.key ≠ k) → u.clientRow k = t.clientRow k) ∧
  ((Known t acts k).Nonempty → ∃ row o, u.clientRow k = some row ∧ row.order = some o ∧
    IsGreatest (Known t acts k) o ∧
    ∀ m ∈ M, m.key = k → m.order? = some o → B.same row.value m.value)

/-- What one step of a run is for the caller: a report, or an error that changed nothing and that a
failed check explains. -/
def AnsweredBy (B : SettingsBackend V) (t u : SettingsTables V) (a : SettingsAct V) : Prop :=
  match a.answer with
  | .ok (results, revision) => Reported a.batch t u results revision
  | .error _ => u = t ∧ ¬ a.batch.Passes B t

theorem settled_of_run {acts : List (SettingsAct V)} (hM : EqualOrdersAgree B M)
    (ht : Agrees B M t) (h : Run (SettingsStep B) t acts u) (hacts : ∀ a ∈ acts, a.OrderedIn M)
    (k : String) : Settled B M t acts u k := by
  refine ⟨clientRow_run h hacts, ?_⟩
  rintro ⟨o, ho⟩
  have hreg := clientRegister_run h hacts k
  rw [LwwRegister.foldl_write] at hreg
  obtain ⟨v, hv⟩ := (mem_known_iff h hacts).mp ho
  cases hwrites : LwwRegister.writes ((t.clientRegister k).toList ++ keyWrites B k acts) with
  | none =>
    rw [LwwRegister.writes_eq_none_iff.mp hwrites] at hv
    simp at hv
  | some w =>
    obtain ⟨c, value⟩ := w
    rw [hwrites] at hreg
    obtain ⟨row, hrow, hmap⟩ := Option.bind_eq_some_iff.mp hreg
    obtain ⟨d, hd, heq⟩ := Option.map_eq_some_iff.mp hmap
    obtain ⟨rfl, rfl⟩ := Prod.mk.inj heq
    refine ⟨row, d, hrow, hd, ⟨?_, ?_⟩, ?_⟩
    · exact (mem_known_iff h hacts).mpr ⟨_, LwwRegister.mem_of_writes_eq_some hwrites⟩
    · intro p hp
      obtain ⟨w, hw⟩ := (mem_known_iff h hacts).mp hp
      exact LwwRegister.le_of_writes_eq_some hwrites _ hw
    · rintro m hm rfl horder
      exact agrees_run hM h hacts ht m hm row hrow (hd.trans horder.symm) (by rw [hd]; rfl)

theorem answeredBy_of_step {a : SettingsAct V} (ht : Agrees B M t) (ha : a.OrderedIn M)
    (h : SettingsStep B t a u) : AnsweredBy B t u a := by
  rcases h.cases ha.1 with ⟨-, results, revision, applied, hans, hok⟩ | ⟨-, rfl, e, hans, herr⟩
  · rw [AnsweredBy, hans]
    exact hok.reported
  · rw [AnsweredBy, hans]
    refine ⟨rfl, fun hpass => ?_⟩
    obtain ⟨res, hres⟩ := exists_upsertSettings_eq_ok ht ha.2 ha.1 hpass
    rw [herr] at hres
    cases hres

/-- **Client settings converge.** In every run of batches of mutations whose equal orders carry
equal values, each key ends at the mutation with the greatest order that was accepted or stored
before, and each call is answered by what it did. -/
theorem clientSettings_converge {B : SettingsBackend V} {M : List (ClientMutation V)}
    {t u : SettingsTables V} {acts : List (SettingsAct V)} (hM : EqualOrdersAgree B M)
    (ht : Agrees B M t) (h : Run (SettingsStep B) t acts u)
    (hacts : ∀ a ∈ acts, a.OrderedIn M) :
    (∀ k, Settled B M t acts u k) ∧
    ∀ as₁ a as₂ s s', acts = as₁ ++ a :: as₂ → Run (SettingsStep B) t as₁ s →
      SettingsStep B s a s' → AnsweredBy B s s' a := by
  refine ⟨settled_of_run hM ht h hacts, ?_⟩
  rintro as₁ a as₂ s s' rfl hrun hstep
  have has₁ : ∀ b ∈ as₁, b.OrderedIn M := fun b hb => hacts b (List.mem_append_left _ hb)
  exact answeredBy_of_step (agrees_run hM hrun has₁ ht) (hacts a (by simp)) hstep

/-- The step that a call takes. -/
def SettingsBatch.step (B : SettingsBackend V) (b : SettingsBatch V) (t : SettingsTables V) :
    SettingsAct V × SettingsTables V :=
  match upsertSettings B b.call "client" b.values b.writerId b.orders t with
  | .ok (u, results, revision) => (⟨b, .ok (results, revision)⟩, u)
  | .error e => (⟨b, .error e⟩, t)

theorem SettingsBatch.step_spec (B : SettingsBackend V) (b : SettingsBatch V)
    (t : SettingsTables V) : SettingsStep B t (b.step B t).1 (b.step B t).2 := by
  rw [SettingsBatch.step]
  split
  · rename_i u results revision h
    rw [SettingsStep]
    dsimp only
    rw [h]
    exact ⟨rfl, rfl⟩
  · rename_i e h
    rw [SettingsStep]
    dsimp only
    rw [h]
    exact ⟨rfl, rfl⟩

theorem SettingsBatch.step_batch (B : SettingsBackend V) (b : SettingsBatch V)
    (t : SettingsTables V) : (b.step B t).1.batch = b := by
  rw [SettingsBatch.step]
  split <;> rfl

/-! Two tabs write one key; the later batch has the smaller order. -/

def numberBackend : SettingsBackend ℕ where
  validate _ _ _ := .ok ()
  jsonb := some
  same v w := v = w
  same_refl := by simp
  same_symm := by simp [eq_comm]
  same_trans := by simp

def singleSetting (value : ℕ) (writerId : String) (changedAtMs : ℤ) : SettingsBatch ℕ where
  values := Dict.empty.insert "theme" value
  writerId := writerId
  orders := Dict.empty.insert "theme" (changedAtMs, 1)
  call := ⟨.ok (), .ok (), []⟩

def firstTab : SettingsBatch ℕ := singleSetting 1 "11111111-1111-4111-8111-111111111111" 10

def secondTab : SettingsBatch ℕ := singleSetting 2 "22222222-2222-4222-8222-222222222222" 5

def noSettings : SettingsTables ℕ := ⟨Dict.empty, 0, Nat.zero_le _⟩

def afterFirstTab : SettingsTables ℕ := (firstTab.step numberBackend noSettings).2

def afterBothTabs : SettingsTables ℕ := (secondTab.step numberBackend afterFirstTab).2

theorem clientSettings_converge_twoTabs :
    (∀ k, Settled numberBackend (firstTab.mutations ++ secondTab.mutations) noSettings
      [(firstTab.step numberBackend noSettings).1, (secondTab.step numberBackend afterFirstTab).1]
      afterBothTabs k) ∧
    (afterBothTabs.clientRow "theme").map SettingRow.value = some 1 ∧
    afterBothTabs.revision = 1 := by
  have hrun : Run (SettingsStep numberBackend) noSettings
      [(firstTab.step numberBackend noSettings).1, (secondTab.step numberBackend afterFirstTab).1]
      afterBothTabs :=
    .cons (firstTab.step_spec numberBackend noSettings)
      (.cons (secondTab.step_spec numberBackend afterFirstTab) (.nil afterBothTabs))
  refine ⟨(clientSettings_converge ?_ ?_ hrun ?_).1, by decide +kernel, by decide +kernel⟩
  · rw [EqualOrdersAgree]
    decide +kernel
  · intro m _ row hrow
    cases hrow
  · intro a ha
    rcases List.mem_pair.mp ha with rfl | rfl
    · rw [SettingsAct.OrderedIn, SettingsBatch.step_batch]
      exact ⟨by decide +kernel, fun m hm => List.mem_append_left _ hm⟩
    · rw [SettingsAct.OrderedIn, SettingsBatch.step_batch]
      exact ⟨by decide +kernel, fun m hm => List.mem_append_right _ hm⟩

end AefTerminal
