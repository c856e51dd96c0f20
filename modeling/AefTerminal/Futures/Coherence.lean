import AefTerminal.Foundation.Run
import AefTerminal.Futures.Roll

/-!
# A futures root stays coherent

Drawings are only accepted for the current contract, and a current contract gives way to another one
together with the drawings on it. But whether a row is current is kept by the key of the contract,
and what contract it is by its metadata: a write that is not current and has the key of the current
row overwrites the contract id there, without a transition and without the drawings.

## Main definitions

* `RollCoherent`, `RollStep`
* `KeepsCurrentId`: such a write has the contract id that is stored

## Main results

* `futures_roll_coherent`
* `current_id_overwritten`
-/

namespace AefTerminal

open Foundation

variable {β : Type}

namespace FuturesTables

variable (s : FuturesTables β)

/-- The contract id of the current contract. -/
def currentId : Option String := s.currentRow.bind (·.providerContractId)

end FuturesTables

/-- At most one contract is current, and every drawing is bound to it. -/
structure RollCoherent (s : FuturesTables β) : Prop where
  one : (s.contracts.filter (·.isCurrent)).length ≤ 1
  bound : ∀ d ∈ s.drawings, s.currentId = some d.payload.providerContractId

/-- The drawings of a route on the next route and contract. -/
def movedDrawings (drawings : List (DrawingRow β)) (t : FuturesRouteTransition) :
    List (DrawingRow β) :=
  drawings.map fun d =>
    if d.routeFingerprint = t.previousRouteFingerprint then
      d.rebound t.nextRouteFingerprint t.nextSessionContractId
    else d

/-- What a call does to the current contract and to the drawings. -/
structure RollStep (root : FuturesRoot) (durable : DrawingPayload β → Except String Unit)
    (s : FuturesTables β) (call : FuturesCall β) : Prop where
  raised : ∀ e, futuresCall root durable s call = .error e → s.after root durable call = s
  /-- The current contract only changes with a transition that names it, and the drawings move. -/
  changes : ∀ a, s.currentId = some a → ∃ b, (s.after root durable call).currentId = some b ∧
    (b ≠ a → ∃ c t, call = .write c (some t) ∧ t.previousSessionContractId = a ∧
      t.nextSessionContractId = b ∧
      (s.after root durable call).drawings = movedDrawings s.drawings t)
  /-- Another write leaves the drawings. -/
  stays : ∀ c t, call = .write c t →
    (∀ a, s.currentId = some a → (s.after root durable call).currentId = some a) →
    (s.after root durable call).drawings = s.drawings

/-- A write that is not current, with the key of the current row, has the contract id of the row. -/
def KeepsCurrentId (root : FuturesRoot) (s : FuturesTables β) : FuturesCall β → Prop
  | .write c t => checkContract root c t = .ok () → c.isCurrent = false →
      ∀ r ∈ s.contracts, r.isCurrent = true → r.contractKey = c.contractKey →
        r.providerContractId = some c.providerContractId
  | .replace _ => True

/-! ### The contracts -/

/-- The table of contracts: a key has one row, and every row has a contract id. -/
structure ContractsInv (contracts : List ContractRow) : Prop where
  keys : (contracts.map (·.contractKey)).Nodup
  ids : ∀ r ∈ contracts, ∃ a, r.providerContractId = some a ∧ a ≠ ""
  one : ∀ r ∈ contracts, ∀ r' ∈ contracts, r.isCurrent = true → r'.isCurrent = true → r = r'

theorem providerContractId_overwrite (r : ContractRow) (c : ContractInput) :
    (r.overwrite c).providerContractId = some c.providerContractId := by
  rw [ContractRow.providerContractId, ContractRow.overwrite]
  exact Dict.get?_merge_of_get? (Dict.get?_insert_self _ _ _)

theorem providerContractId_row (c : ContractInput) :
    c.row.providerContractId = some c.providerContractId :=
  Dict.get?_insert_self _ _ _

variable {r : ContractRow} {c : ContractInput} {contracts : List ContractRow}

/-- The rows after an upsert: the one under the key of the input, and the others. -/
theorem mem_upsertContract :
    r ∈ upsertContract contracts c ↔
      (r ∈ contracts ∧ r.contractKey ≠ c.contractKey) ∨
      (∃ q ∈ contracts, q.contractKey = c.contractKey ∧ r = q.overwrite c) ∨
      ((∀ q ∈ contracts, q.contractKey ≠ c.contractKey) ∧ r = c.row) := by
  rw [upsertContract]
  split_ifs with hany
  · obtain ⟨q, hq, hkey⟩ := List.any_eq_true.mp hany
    rw [decide_eq_true_eq] at hkey
    rw [List.mem_map]
    constructor
    · rintro ⟨p, hp, rfl⟩
      by_cases hpkey : p.contractKey = c.contractKey
      · rw [if_pos hpkey]
        exact .inr (.inl ⟨p, hp, hpkey, rfl⟩)
      · rw [if_neg hpkey]
        exact .inl ⟨hp, hpkey⟩
    · rintro (⟨hr, hrkey⟩ | ⟨p, hp, hpkey, rfl⟩ | ⟨hnone, -⟩)
      · exact ⟨r, hr, if_neg hrkey⟩
      · exact ⟨p, hp, if_pos hpkey⟩
      · exact absurd hkey (hnone q hq)
  · have hnone : ∀ q ∈ contracts, q.contractKey ≠ c.contractKey := by
      intro q hq hkey
      exact hany (List.any_eq_true.mpr ⟨q, hq, decide_eq_true hkey⟩)
    rw [List.mem_append, List.mem_singleton]
    constructor
    · rintro (hr | rfl)
      · exact .inl ⟨hr, hnone r hr⟩
      · exact .inr (.inr ⟨hnone, rfl⟩)
    · rintro (⟨hr, -⟩ | ⟨p, hp, hpkey, -⟩ | ⟨-, rfl⟩)
      · exact .inl hr
      · exact absurd hpkey (hnone p hp)
      · exact .inr rfl

theorem keys_upsertContract (c : ContractInput) (h : (contracts.map (·.contractKey)).Nodup) :
    ((upsertContract contracts c).map (·.contractKey)).Nodup := by
  rw [upsertContract]
  split_ifs with hany
  · have hsame : (contracts.map fun r => if r.contractKey = c.contractKey then r.overwrite c else r).map
        (·.contractKey) = contracts.map (·.contractKey) := by
      rw [List.map_map]
      refine List.map_congr_left fun r _ => ?_
      by_cases hkey : r.contractKey = c.contractKey <;> simp [hkey, ContractRow.overwrite]
    rwa [hsame]
  · rw [List.map_append]
    refine List.nodup_append.mpr ⟨h, by simp, fun a ha b hb => ?_⟩
    obtain ⟨r, hr, rfl⟩ := List.mem_map.mp ha
    rw [List.map_singleton, List.mem_singleton] at hb
    rintro rfl
    exact hany (List.any_eq_true.mpr ⟨r, hr, decide_eq_true hb⟩)

theorem mem_demoteCurrent (h : r ∈ demoteCurrent contracts) :
    ∃ q ∈ contracts, r.contractKey = q.contractKey ∧ r.isCurrent = false ∧
      r.providerContractId = q.providerContractId := by
  obtain ⟨q, hq, rfl⟩ := List.mem_map.mp h
  exact ⟨q, hq, rfl, rfl, rfl⟩

/-- One row for a key. -/
theorem eq_of_contractKey
    (h : (contracts.map (·.contractKey)).Nodup) {r' : ContractRow} (hr : r ∈ contracts)
    (hr' : r' ∈ contracts) (hkey : r.contractKey = r'.contractKey) : r = r' :=
  List.inj_on_of_nodup_map h hr hr' hkey

namespace ContractsInv

variable {contracts : List ContractRow} {c : ContractInput}

/-- A current write: its row is the only current one. -/
theorem current (h : ContractsInv contracts) (hid : c.providerContractId ≠ "")
    (hcurrent : c.isCurrent = true) :
    ContractsInv (upsertContract (demoteCurrent contracts) c) ∧
      ∃ r ∈ upsertContract (demoteCurrent contracts) c, r.isCurrent = true ∧
        r.providerContractId = some c.providerContractId := by
  have hkeys : ((demoteCurrent contracts).map (·.contractKey)).Nodup := by
    rw [demoteCurrent, List.map_map]
    exact h.keys
  have honly : ∀ r ∈ upsertContract (demoteCurrent contracts) c, r.isCurrent = true →
      r.contractKey = c.contractKey := by
    intro r hr hrc
    rcases mem_upsertContract.mp hr with ⟨hr, -⟩ | ⟨q, -, hkey, rfl⟩ | ⟨-, rfl⟩
    · obtain ⟨q, -, -, hfalse, -⟩ := mem_demoteCurrent hr
      exact absurd (hfalse.symm.trans hrc) (by simp)
    · exact hkey
    · rfl
  refine ⟨⟨keys_upsertContract c hkeys, fun r hr => ?_, fun r hr r' hr' hrc hrc' => ?_⟩, ?_⟩
  · rcases mem_upsertContract.mp hr with ⟨hr, -⟩ | ⟨q, -, -, rfl⟩ | ⟨-, rfl⟩
    · obtain ⟨q, hq, -, -, hsame⟩ := mem_demoteCurrent hr
      rw [hsame]
      exact h.ids q hq
    · exact ⟨_, providerContractId_overwrite q c, hid⟩
    · exact ⟨_, providerContractId_row c, hid⟩
  · exact eq_of_contractKey (keys_upsertContract c hkeys) hr hr'
      ((honly r hr hrc).trans (honly r' hr' hrc').symm)
  · by_cases hany : ∃ q ∈ demoteCurrent contracts, q.contractKey = c.contractKey
    · obtain ⟨q, hq, hkey⟩ := hany
      refine ⟨q.overwrite c, mem_upsertContract.mpr (.inr (.inl ⟨q, hq, hkey, rfl⟩)), ?_,
        providerContractId_overwrite q c⟩
      rw [ContractRow.overwrite, hcurrent, Bool.or_true]
    · push Not at hany
      exact ⟨c.row, mem_upsertContract.mpr (.inr (.inr ⟨hany, rfl⟩)), hcurrent,
        providerContractId_row c⟩

/-- A write that is not current keeps the current row, under whatever contract id. -/
theorem plain (h : ContractsInv contracts) (hid : c.providerContractId ≠ "")
    (hcurrent : c.isCurrent = false) :
    ContractsInv (upsertContract contracts c) ∧
      ∀ r ∈ contracts, r.isCurrent = true → ∃ r' ∈ upsertContract contracts c,
        r'.isCurrent = true ∧ r'.providerContractId =
          if r.contractKey = c.contractKey then some c.providerContractId
          else r.providerContractId := by
  have hback : ∀ r ∈ upsertContract contracts c, r.isCurrent = true →
      ∃ q ∈ contracts, q.isCurrent = true ∧ q.contractKey = r.contractKey := by
    intro r hr hrc
    rcases mem_upsertContract.mp hr with ⟨hr, -⟩ | ⟨q, hq, hkey, rfl⟩ | ⟨-, rfl⟩
    · exact ⟨r, hr, hrc, rfl⟩
    · refine ⟨q, hq, ?_, rfl⟩
      rwa [ContractRow.overwrite, hcurrent, Bool.or_false] at hrc
    · exact absurd (hcurrent.symm.trans hrc) (by simp)
  refine ⟨⟨keys_upsertContract c h.keys, fun r hr => ?_, fun r hr r' hr' hrc hrc' => ?_⟩,
    fun r hr hrc => ?_⟩
  · rcases mem_upsertContract.mp hr with ⟨hr, -⟩ | ⟨q, -, -, rfl⟩ | ⟨-, rfl⟩
    · exact h.ids r hr
    · exact ⟨_, providerContractId_overwrite q c, hid⟩
    · exact ⟨_, providerContractId_row c, hid⟩
  · obtain ⟨q, hq, hqc, hkey⟩ := hback r hr hrc
    obtain ⟨q', hq', hqc', hkey'⟩ := hback r' hr' hrc'
    have hsame := h.one q hq q' hq' hqc hqc'
    exact eq_of_contractKey (keys_upsertContract c h.keys) hr hr' (by rw [← hkey, hsame, hkey'])
  · by_cases hkey : r.contractKey = c.contractKey
    · refine ⟨r.overwrite c, mem_upsertContract.mpr (.inr (.inl ⟨r, hr, hkey, rfl⟩)), ?_, ?_⟩
      · rw [ContractRow.overwrite, hrc, Bool.true_or]
      · rw [if_pos hkey, providerContractId_overwrite]
    · exact ⟨r, mem_upsertContract.mpr (.inl ⟨hr, hkey⟩), hrc, by rw [if_neg hkey]⟩

end ContractsInv

/-! ### The calls -/

theorem requireIdentityText_eq_ok {value field : String} {u : Unit} :
    requireIdentityText value field = .ok u ↔ value ≠ "" := by
  rw [requireIdentityText, require_eq_ok]

theorem rowContractId_eq_ok {a : String} (h : rowContractId r = .ok a) :
    r.providerContractId = some a ∧ a ≠ "" := by
  rw [rowContractId] at h
  split at h
  · rename_i value hvalue
    obtain ⟨_, htext, h⟩ := bind_eq_ok.mp h
    cases h
    exact ⟨hvalue, requireIdentityText_eq_ok.mp htext⟩
  · exact nomatch h

variable {root : FuturesRoot}

variable {t : Option FuturesRouteTransition}

theorem checkContract_eq_ok (h : checkContract root c t = .ok ()) :
    c.providerContractId ≠ "" ∧ (t.isSome → c.isCurrent = true) ∧
      ∀ t' ∈ t, t'.nextSessionContractId = c.providerContractId := by
  simp only [checkContract, bind_eq_ok, requireIdentityText_eq_ok, require_eq_ok] at h
  obtain ⟨_, -, _, -, _, -, _, hid, _, -, _, -, _, -, _, hcurrent, _, -, _, htransition, -⟩ := h
  refine ⟨hid, hcurrent, fun t' ht' => ?_⟩
  obtain rfl := Option.mem_def.mp ht'
  simp only [checkTransition, validatedFuturesRouteTransition, bind_eq_ok,
    requireIdentityText_eq_ok, require_eq_ok] at htransition
  obtain ⟨_, -, _, -, _, -, _, -, _, -, _, -, _, -, hnext⟩ := htransition
  exact hnext

/-- The rows that the rebinding locks are all on the previous route and contract. -/
theorem foldlM_checkRebound {previousRoute nextRoute previousId nextId : String}
    {rows : List (DrawingRow β)} {seen source : List (String × String × ℤ)}
    (h : rows.foldlM (checkRebound root previousRoute nextRoute previousId nextId) seen =
      .ok source) :
    (∀ d ∈ rows, d.routeFingerprint = previousRoute) ∧ source.length = seen.length + rows.length := by
  induction rows generalizing seen with
  | nil =>
    obtain rfl := pure_eq_ok.mp h
    exact ⟨by simp, rfl⟩
  | cons d rows ih =>
    rw [List.foldlM_cons] at h
    obtain ⟨seen', hd, h⟩ := bind_eq_ok.mp h
    obtain ⟨hrest, hlength⟩ := ih h
    simp only [checkRebound, bind_eq_ok, require_eq_ok, Except.ok.injEq] at hd
    obtain ⟨-, -, -, -, -, -, -, -, -, -, -, -, -, -, -, -, -, hscope, -, -, rfl⟩ := hd
    refine ⟨List.forall_mem_cons.mpr ⟨hscope.1, hrest⟩, ?_⟩
    rw [hlength, List.length_append, List.length_singleton, List.length_cons]
    omega

/-- All drawings of the previous route move, and all drawings of the previous contract are there. -/
theorem rebind_eq_ok {drawings moved : List (DrawingRow β)}
    {previousRoute nextRoute previousId nextId : String}
    (h : rebindFuturesRootDrawings root drawings previousRoute nextRoute previousId nextId =
      .ok moved) :
    (moved = drawings.map fun d =>
      if d.routeFingerprint = previousRoute then d.rebound nextRoute nextId else d) ∧
      ∀ d ∈ drawings, d.payload.providerContractId = previousId →
        d.routeFingerprint = previousRoute := by
  rw [rebindFuturesRootDrawings] at h
  obtain ⟨-, -, h⟩ := bind_eq_ok.mp h
  obtain ⟨-, -, h⟩ := bind_eq_ok.mp h
  obtain ⟨source, hsource, h⟩ := bind_eq_ok.mp h
  obtain ⟨hrows, hlength⟩ := foldlM_checkRebound hsource
  have hcontract : ∀ d ∈ drawings, d.payload.providerContractId = previousId →
      d.routeFingerprint = previousRoute := by
    intro d hd hid
    exact hrows d (List.mem_filter.mpr ⟨hd, decide_eq_true (.inr (.inr (.inl hid)))⟩)
  refine ⟨?_, hcontract⟩
  split_ifs at h with hempty
  · cases h
    rw [hempty, List.length_nil, Nat.zero_add] at hlength
    have hnone := List.eq_nil_of_length_eq_zero hlength.symm
    have hsame : (drawings.map fun d =>
        if d.routeFingerprint = previousRoute then d.rebound nextRoute nextId else d) =
        drawings.map id := by
      refine List.map_congr_left fun d hd => if_neg fun hroute => ?_
      exact (List.filter_eq_nil_iff.mp hnone) d hd (decide_eq_true (.inl hroute))
    rw [hsame, List.map_id]
  · obtain ⟨-, -, h⟩ := bind_eq_ok.mp h
    obtain ⟨-, -, h⟩ := bind_eq_ok.mp h
    obtain ⟨-, -, h⟩ := bind_eq_ok.mp h
    exact (Except.ok.inj h).symm

variable {s : FuturesTables β}

/-- What a current contract does to the drawings. -/
theorem rollDrawings_eq_ok {drawings : List (DrawingRow β)}
    (h : rollDrawings root s c t = .ok drawings) :
    (s.currentId = none ∧ drawings = s.drawings) ∨
    (s.currentId = some c.providerContractId ∧ drawings = s.drawings) ∨
    ∃ a t', s.currentId = some a ∧ a ≠ c.providerContractId ∧ t = some t' ∧
      t'.previousSessionContractId = a ∧
      rebindFuturesRootDrawings root s.drawings t'.previousRouteFingerprint
        t'.nextRouteFingerprint a c.providerContractId = .ok drawings := by
  rw [rollDrawings] at h
  split at h
  · rename_i hnone
    exact .inl ⟨by rw [FuturesTables.currentId, hnone]; rfl, (Except.ok.inj h).symm⟩
  · rename_i r hr
    obtain ⟨a, ha, h⟩ := bind_eq_ok.mp h
    have hid : s.currentId = some a := by
      rw [FuturesTables.currentId, hr]
      exact (rowContractId_eq_ok ha).1
    cases t with
    | none =>
      obtain ⟨_, hsame, h⟩ := bind_eq_ok.mp h
      rw [require_eq_ok] at hsame
      exact .inr (.inl ⟨hsame ▸ hid, (Except.ok.inj h).symm⟩)
    | some t' =>
      obtain ⟨_, hprevious, h⟩ := bind_eq_ok.mp h
      rw [require_eq_ok] at hprevious
      split_ifs at h with hne
      · obtain ⟨-, -, h⟩ := bind_eq_ok.mp h
        exact .inr (.inr ⟨a, t', hid, hne, rfl, hprevious, h⟩)
      · obtain ⟨-, -, h⟩ := bind_eq_ok.mp h
        exact .inr (.inl ⟨not_not.mp hne ▸ hid, (Except.ok.inj h).symm⟩)

theorem writeFuturesContract_eq_ok {s' : FuturesTables β}
    (h : writeFuturesContract root s c t = .ok s') :
    checkContract root c t = .ok () ∧
      ((c.isCurrent = true ∧ ∃ drawings, rollDrawings root s c t = .ok drawings ∧
          s' = ⟨upsertContract (demoteCurrent s.contracts) c, drawings⟩) ∨
        (c.isCurrent = false ∧ s' = ⟨upsertContract s.contracts c, s.drawings⟩)) := by
  obtain ⟨_, hcheck, h⟩ := bind_eq_ok.mp h
  refine ⟨hcheck, ?_⟩
  split_ifs at h with hcurrent
  · obtain ⟨drawings, hdrawings, h⟩ := bind_eq_ok.mp h
    exact .inl ⟨hcurrent, drawings, hdrawings, (Except.ok.inj h).symm⟩
  · exact .inr ⟨by simpa using hcurrent, (Except.ok.inj h).symm⟩

theorem foldlM_scopeItem {durable : DrawingPayload β → Except String Unit}
    {r : ReplaceDrawings β} {items : List (DrawingItem β)} {seen payloads : List (DrawingPayload β)}
    (h : items.foldlM (scopeItem root durable r) seen = .ok payloads)
    (hseen : ∀ p ∈ seen, p.providerContractId = r.providerContractId) :
    ∀ p ∈ payloads, p.providerContractId = r.providerContractId := by
  refine foldlM_induct (P := fun seen : List (DrawingPayload β) =>
    ∀ p ∈ seen, p.providerContractId = r.providerContractId) (fun seen item seen' _ hP hbody => ?_)
    hseen h
  simp only [scopeItem, bind_eq_ok, Except.ok.injEq] at hbody
  obtain ⟨_, -, _, -, _, -, _, -, _, -, _, -, _, -, _, -, rfl⟩ := hbody
  intro p hp
  rcases List.mem_append.mp hp with hp | hp
  · exact hP p hp
  · rw [List.mem_singleton.mp hp]

/-- Drawings are accepted for the current contract. -/
theorem replaceDrawings_eq_ok {durable : DrawingPayload β → Except String Unit}
    {s' : FuturesTables β} {r : ReplaceDrawings β} (h : replaceDrawings root durable s r = .ok s') :
    s'.contracts = s.contracts ∧ ∀ d ∈ s'.drawings, d ∈ s.drawings ∨
      s.currentId = some d.payload.providerContractId := by
  simp only [replaceDrawings, bind_eq_ok, requireIdentityText_eq_ok, require_eq_ok,
    Except.ok.injEq] at h
  obtain ⟨_, -, _, -, _, -, _, -, _, -, _, hid, persisted, hpersisted, _, hcurrent, -, -, _, -, rfl⟩ := h
  refine ⟨rfl, fun d hd => ?_⟩
  rcases List.mem_append.mp hd with hd | hd
  · exact .inl (List.mem_filter.mp hd).1
  · obtain ⟨p, hp, rfl⟩ := List.mem_map.mp hd
    have hscope := foldlM_scopeItem hpersisted (by simp) p hp
    refine .inr ?_
    rw [verifyDrawingRouteCurrent] at hcurrent
    split at hcurrent
    · rename_i row hrow
      obtain ⟨a, ha, hsame⟩ := bind_eq_ok.mp hcurrent
      rw [require_eq_ok] at hsame
      rw [FuturesTables.currentId, hrow]
      show row.providerContractId = some p.providerContractId
      rw [hscope, ← hsame]
      exact (rowContractId_eq_ok ha).1
    · rw [require_eq_ok] at hcurrent
      exact absurd hcurrent.symm hid

/-! ### Steps -/

structure RollInv (s : FuturesTables β) : Prop where
  contracts : ContractsInv s.contracts
  bound : ∀ d ∈ s.drawings, s.currentId = some d.payload.providerContractId

theorem rollInv_empty : RollInv (FuturesTables.empty : FuturesTables β) :=
  ⟨⟨List.nodup_nil, by simp [FuturesTables.empty], by simp [FuturesTables.empty]⟩,
    by simp [FuturesTables.empty]⟩

namespace FuturesTables

variable {s : FuturesTables β}

theorem currentId_of_mem (h : ContractsInv s.contracts) {r : ContractRow} (hr : r ∈ s.contracts)
    (hcurrent : r.isCurrent = true) : s.currentId = r.providerContractId := by
  have hsome : (s.contracts.find? (·.isCurrent)).isSome :=
    List.find?_isSome.mpr ⟨r, hr, hcurrent⟩
  obtain ⟨q, hq⟩ := Option.isSome_iff_exists.mp hsome
  have hsame := h.one q (List.mem_of_find?_eq_some hq) r hr (by simpa using List.find?_some hq)
    hcurrent
  rw [currentId, currentRow, hq, hsame]
  rfl

theorem exists_current {a : String} (h : s.currentId = some a) :
    ∃ r ∈ s.contracts, r.isCurrent = true ∧ r.providerContractId = some a := by
  obtain ⟨r, hr, hid⟩ := Option.bind_eq_some_iff.mp h
  exact ⟨r, List.mem_of_find?_eq_some hr, by simpa using List.find?_some hr, hid⟩

end FuturesTables

section Steps

variable {root : FuturesRoot} {durable : DrawingPayload β → Except String Unit}
  {s s' : FuturesTables β} {c : ContractInput} {t : Option FuturesRouteTransition}

/-- After a current write the contract is current, and the drawings are on it. -/
theorem RollInv.write_current (h : RollInv s) (hcheck : checkContract root c t = .ok ())
    (hcurrent : c.isCurrent = true) {drawings : List (DrawingRow β)}
    (hdrawings : rollDrawings root s c t = .ok drawings) :
    RollInv ⟨upsertContract (demoteCurrent s.contracts) c, drawings⟩ ∧
      FuturesTables.currentId ⟨upsertContract (demoteCurrent s.contracts) c, drawings⟩ =
        some c.providerContractId := by
  obtain ⟨hid, -, -⟩ := checkContract_eq_ok hcheck
  obtain ⟨hcontracts, r, hr, hrc, hrid⟩ := h.contracts.current hid hcurrent
  have hnow : FuturesTables.currentId ⟨upsertContract (demoteCurrent s.contracts) c, drawings⟩ =
      some c.providerContractId :=
    (FuturesTables.currentId_of_mem hcontracts hr hrc).trans hrid
  refine ⟨⟨hcontracts, fun d hd => ?_⟩, hnow⟩
  rw [hnow]
  rcases rollDrawings_eq_ok hdrawings with ⟨hnone, rfl⟩ | ⟨hsame, rfl⟩ | ⟨a, t', ha, -, -, -, hrebind⟩
  · exact absurd (hnone.symm.trans (h.bound d hd)) (by simp)
  · exact hsame.symm.trans (h.bound d hd)
  · obtain ⟨rfl, hroutes⟩ := rebind_eq_ok hrebind
    obtain ⟨q, hq, rfl⟩ := List.mem_map.mp hd
    have hqid := Option.some.inj (ha.symm.trans (h.bound q hq))
    rw [if_pos (hroutes q hq hqid.symm)]
    rfl

/-- After another write the current contract is the same row. -/
theorem RollInv.write_plain (h : RollInv s) (hcheck : checkContract root c t = .ok ())
    (hcurrent : c.isCurrent = false)
    (hkeeps : ∀ r ∈ s.contracts, r.isCurrent = true → r.contractKey = c.contractKey →
      r.providerContractId = some c.providerContractId) :
    RollInv ⟨upsertContract s.contracts c, s.drawings⟩ ∧ ∀ a, s.currentId = some a →
      FuturesTables.currentId ⟨upsertContract s.contracts c, s.drawings⟩ = some a := by
  obtain ⟨hid, -, -⟩ := checkContract_eq_ok hcheck
  obtain ⟨hcontracts, hrows⟩ := h.contracts.plain hid hcurrent
  have hnow : ∀ a, s.currentId = some a →
      FuturesTables.currentId ⟨upsertContract s.contracts c, s.drawings⟩ = some a := by
    intro a ha
    obtain ⟨r, hr, hrc, hrid⟩ := FuturesTables.exists_current ha
    obtain ⟨r', hr', hrc', hrid'⟩ := hrows r hr hrc
    rw [FuturesTables.currentId_of_mem hcontracts hr' hrc', hrid']
    split_ifs with hkey
    · rw [← hkeeps r hr hrc hkey, hrid]
    · exact hrid
  exact ⟨⟨hcontracts, fun d hd => hnow _ (h.bound d hd)⟩, hnow⟩

variable {call : FuturesCall β}

theorem RollInv.after (h : RollInv s) (hkeeps : KeepsCurrentId root s call) :
    RollInv (s.after root durable call) := by
  rw [FuturesTables.after]
  split
  · rename_i s' hcall
    cases call with
    | write c t =>
      obtain ⟨hcheck, ⟨hcurrent, drawings, hdrawings, rfl⟩ | ⟨hcurrent, rfl⟩⟩ :=
        writeFuturesContract_eq_ok hcall
      · exact (h.write_current hcheck hcurrent hdrawings).1
      · exact (h.write_plain hcheck hcurrent (hkeeps hcheck hcurrent)).1
    | replace r =>
      obtain ⟨hcontracts, hdrawings⟩ := replaceDrawings_eq_ok hcall
      have hid : s'.currentId = s.currentId := by
        rw [FuturesTables.currentId, FuturesTables.currentRow, hcontracts]
        rfl
      refine ⟨hcontracts ▸ h.contracts, fun d hd => ?_⟩
      rw [hid]
      rcases hdrawings d hd with hold | hnew
      · exact h.bound d hold
      · exact hnew
  · exact h

theorem RollInv.coherent (h : RollInv s) : RollCoherent s := by
  refine ⟨?_, h.bound⟩
  have hnodup : (s.contracts.filter (·.isCurrent)).Nodup :=
    (List.Nodup.of_map _ h.contracts.keys).filter _
  by_contra htwo
  match hrows : s.contracts.filter (·.isCurrent) with
  | [] => simp [hrows] at htwo
  | [_] => simp [hrows] at htwo
  | r :: r' :: rest =>
    have hmem : ∀ q ∈ s.contracts.filter (·.isCurrent), q ∈ s.contracts ∧ q.isCurrent = true :=
      fun q hq => List.mem_filter.mp hq
    obtain ⟨hr, hrc⟩ := hmem r (hrows ▸ List.mem_cons_self)
    obtain ⟨hr', hrc'⟩ := hmem r' (hrows ▸ List.mem_cons_of_mem _ List.mem_cons_self)
    rw [hrows, h.contracts.one r hr r' hr' hrc hrc'] at hnodup
    exact (List.nodup_cons.mp hnodup).1 List.mem_cons_self

theorem RollInv.rollStep (h : RollInv s) (hkeeps : KeepsCurrentId root s call) :
    RollStep root durable s call := by
  refine ⟨fun e he => by rw [FuturesTables.after, he], fun a ha => ?_, fun c t hwrite hstays => ?_⟩
  · cases hcall : futuresCall root durable s call with
    | error e =>
      have hafter : s.after root durable call = s := by rw [FuturesTables.after, hcall]
      exact ⟨a, hafter.symm ▸ ha, fun hne => absurd rfl hne⟩
    | ok s' =>
      have hafter : s.after root durable call = s' := by rw [FuturesTables.after, hcall]
      rw [hafter]
      cases call with
      | write c t =>
        obtain ⟨hcheck, ⟨hcurrent, drawings, hdrawings, rfl⟩ | ⟨hcurrent, rfl⟩⟩ :=
          writeFuturesContract_eq_ok hcall
        · obtain ⟨-, hnow⟩ := h.write_current hcheck hcurrent hdrawings
          refine ⟨_, hnow, fun hne => ?_⟩
          rcases rollDrawings_eq_ok hdrawings with
            ⟨hnone, -⟩ | ⟨hsame, -⟩ | ⟨a', t', ha', -, rfl, hprevious, hrebind⟩
          · exact absurd (hnone.symm.trans ha) (by simp)
          · exact absurd (Option.some.inj (hsame.symm.trans ha)) hne
          · cases (ha.symm.trans ha')
            have hnext := (checkContract_eq_ok hcheck).2.2 t' rfl
            refine ⟨c, t', rfl, hprevious, hnext, ?_⟩
            rw [movedDrawings, hnext]
            exact (rebind_eq_ok hrebind).1
        · obtain ⟨-, hnow⟩ := h.write_plain hcheck hcurrent (hkeeps hcheck hcurrent)
          exact ⟨a, hnow a ha, fun hne => absurd rfl hne⟩
      | replace r =>
        obtain ⟨hcontracts, -⟩ := replaceDrawings_eq_ok hcall
        refine ⟨a, ?_, fun hne => absurd rfl hne⟩
        rw [FuturesTables.currentId, FuturesTables.currentRow, hcontracts]
        exact ha
  · subst hwrite
    cases hcall : futuresCall root durable s (.write c t) with
    | error e => rw [FuturesTables.after, hcall]
    | ok s' =>
      have hafter : s.after root durable (.write c t) = s' := by rw [FuturesTables.after, hcall]
      rw [hafter] at hstays ⊢
      obtain ⟨hcheck, ⟨hcurrent, drawings, hdrawings, rfl⟩ | ⟨hcurrent, rfl⟩⟩ :=
        writeFuturesContract_eq_ok hcall
      · obtain ⟨-, hnow⟩ := h.write_current hcheck hcurrent hdrawings
        rcases rollDrawings_eq_ok hdrawings with ⟨-, rfl⟩ | ⟨-, rfl⟩ | ⟨a, t', ha, hne, -⟩
        · rfl
        · rfl
        · exact absurd (Option.some.inj ((hstays a ha).symm.trans hnow)) hne
      · rfl

/-- A write that is not current and changes the contract id of the current row. -/
theorem RollInv.keeps_of_rollStep (h : RollInv s)
    (hstep : RollStep root durable s call) : KeepsCurrentId root s call := by
  cases call with
  | replace r => trivial
  | write c t =>
    intro hcheck hcurrent r hr hrc hkey
    obtain ⟨hid, htransition, -⟩ := checkContract_eq_ok hcheck
    obtain ⟨a, ha, -⟩ := h.contracts.ids r hr
    have hcall : futuresCall root durable s (.write c t) =
        .ok ⟨upsertContract s.contracts c, s.drawings⟩ := by
      rw [futuresCall, writeFuturesContract, hcheck]
      show (if c.isCurrent = true then _ else _) = _
      rw [if_neg (by simp [hcurrent])]
    have hafter : s.after root durable (.write c t) =
        ⟨upsertContract s.contracts c, s.drawings⟩ := by
      rw [FuturesTables.after, hcall]
    obtain ⟨hcontracts, hrows⟩ := h.contracts.plain hid hcurrent
    obtain ⟨r', hr', hrc', hrid'⟩ := hrows r hr hrc
    rw [if_pos hkey] at hrid'
    obtain ⟨b, hb, hchange⟩ := hstep.changes a
      ((FuturesTables.currentId_of_mem h.contracts hr hrc).trans ha)
    rw [hafter, FuturesTables.currentId_of_mem hcontracts hr' hrc', hrid'] at hb
    cases hb
    rw [ha]
    by_contra hne
    obtain ⟨c', t', hwrite, -⟩ := hchange fun heq => hne (by rw [heq])
    obtain ⟨rfl, rfl⟩ := FuturesCall.write.inj hwrite
    exact absurd (hcurrent.symm.trans (htransition rfl)) (by simp)

end Steps

/-- A step of a root: a call, and the tables after its transaction. -/
def FuturesStep (root : FuturesRoot) (durable : DrawingPayload β → Except String Unit)
    (s : FuturesTables β) (call : FuturesCall β) (s' : FuturesTables β) : Prop :=
  s' = s.after root durable call

/-- In a run whose calls keep the contract id of the current row, the root is coherent; and from
there a call does to it what it should exactly where it keeps that id. -/
theorem futures_roll_coherent {root : FuturesRoot} {durable : DrawingPayload β → Except String Unit}
    {calls : List (FuturesCall β)} {s : FuturesTables β}
    (h : Run (Guarded (KeepsCurrentId root) (FuturesStep root durable)) .empty calls s) :
    RollCoherent s ∧ ∀ call, RollStep root durable s call ↔ KeepsCurrentId root s call := by
  have hinv : RollInv s := by
    refine h.invariant (fun u call v hu hstep => ?_) rollInv_empty
    obtain ⟨hkeeps, rfl⟩ := hstep
    exact hu.after hkeeps
  exact ⟨hinv.coherent, fun call => ⟨hinv.keeps_of_rollStep, hinv.rollStep⟩⟩

/-! ### A roll, and an overwritten contract id -/

namespace FuturesRun

def nq : FuturesRoot := ⟨"ibkr", "CME.NQ"⟩

def facts : ContractFacts := ⟨"NQ", "CME", "USD", "NQU6", none, "", "202609", none, none⟩

def contract (key providerContractId : String) (isCurrent : Bool) : ContractInput :=
  ⟨key, providerContractId, isCurrent, facts, Dict.empty⟩

def draw (route providerContractId : String) : FuturesCall Unit :=
  .replace ⟨route, "5m", "NQ", providerContractId, [⟨"d1", none, none, none, none, none, ()⟩], 0⟩

def roll : List (FuturesCall Unit) :=
  [.write (contract "NQU6" "100" true) none, draw "route-100" "100",
    .write (contract "NQZ6" "200" true)
      (some ⟨"ibkr", "CME.NQ", "route-100", "route-200", "100", "200"⟩)]

/-- The last call has the key of the current contract and another contract id. -/
def overwrite : List (FuturesCall Unit) :=
  [.write (contract "NQU6" "100" true) none, draw "route-100" "100",
    .write (contract "NQU6" "200" false) none]

def afterCalls (calls : List (FuturesCall Unit)) : FuturesTables Unit :=
  calls.foldl (fun s call => s.after nq (fun _ => .ok ()) call) .empty

theorem run_afterCalls (calls : List (FuturesCall Unit)) (s : FuturesTables Unit) :
    Run (FuturesStep nq fun _ => .ok ()) s calls
      (calls.foldl (fun s call => s.after nq (fun _ => .ok ()) call) s) := by
  induction calls generalizing s with
  | nil => exact .nil s
  | cons call calls ih => exact .cons rfl (ih _)

end FuturesRun

open FuturesRun in
theorem futures_roll_coherent_roll :
    RollCoherent (afterCalls roll) ∧ (afterCalls roll).currentId = some "200" ∧
      (afterCalls roll).drawings.map (·.routeFingerprint) = ["route-200"] := by
  have hkeeps : ∀ call ∈ roll, ∀ s : FuturesTables Unit, KeepsCurrentId nq s call := by
    intro call hcall s
    simp only [roll, draw, List.mem_cons, List.not_mem_nil, or_false] at hcall
    rcases hcall with rfl | rfl | rfl
    · exact fun _ hcurrent => absurd hcurrent (by decide)
    · trivial
    · exact fun _ hcurrent => absurd hcurrent (by decide)
  have hguard : Run (Guarded (fun _ call => ∀ s : FuturesTables Unit, KeepsCurrentId nq s call)
      (FuturesStep nq fun _ => .ok ())) .empty roll (afterCalls roll) :=
    (run_afterCalls roll .empty).guard hkeeps
  have hrun : Run (Guarded (KeepsCurrentId nq) (FuturesStep nq fun _ => .ok ())) .empty roll
      (afterCalls roll) := hguard.mono fun s call t hstep => ⟨hstep.1 s, hstep.2⟩
  exact ⟨(futures_roll_coherent hrun).1, by decide +kernel, by decide +kernel⟩

open FuturesRun in
/-- A write that is not current moves the current contract away from its drawings. -/
theorem current_id_overwritten :
    ¬ ∀ (root : FuturesRoot) (durable : DrawingPayload Unit → Except String Unit)
      (calls : List (FuturesCall Unit)) (s : FuturesTables Unit),
      Run (FuturesStep root durable) .empty calls s → RollCoherent s := by
  intro hclaim
  have hcoherent := hclaim nq _ overwrite _ (run_afterCalls overwrite .empty)
  have hids : (afterCalls overwrite).drawings.map (·.payload.providerContractId) = ["100"] := by
    decide +kernel
  have hcurrent : (afterCalls overwrite).currentId = some "200" := by decide +kernel
  have hmem : "100" ∈ (afterCalls overwrite).drawings.map (·.payload.providerContractId) := by
    rw [hids]
    exact List.mem_singleton_self _
  obtain ⟨d, hd, hid⟩ := List.mem_map.mp hmem
  have hbound := (hcoherent.bound d hd).symm.trans hcurrent
  rw [hid] at hbound
  exact absurd hbound (by decide)

end AefTerminal
