import AefTerminal.Foundation.Run
import Mathlib.Logic.Function.Basic

/-!
# The lease of the canonical writer

A process becomes the canonical writer by a session lock on a connection of its own. The lock goes
when the session does, and the process learns of it only when it checks. So a transaction of the old
writer may still be in flight, past its first check, when a new process takes the lock.

Two things close that gap. Every transaction holds a second lock, the fence, in shared mode from
before its second check to its end; and a new writer does not have the lease before it held the
fence exclusively for a moment. A transaction that holds the fence blocks the new writer; one that
does not is refused by its second check.

Stores with the capability `LEASE_REQUIRED` are modelled, each with any number of transactions.

## Main definitions

* `WriterDb`: the locks of PostgreSQL, the stores and their transactions
* `WriterStep`: the steps of the stores; a session may end between any two of them
* `WriterDb.Leads`: the store that acquired the lease and still has it
* `WriterInv`

## Main results

* `canonicalWriter_single`
-/

namespace AefTerminal

open Foundation

/-- How far a call of `acquire_canonical_writer_lease` or of the release has come, with the session
it works on. The store's lock is held throughout. -/
inductive LeaseStage
  | idle
  | connected (session : ℕ)
  /-- The lease lock was granted. -/
  | leader (session : ℕ)
  /-- The fence was granted, exclusively. -/
  | fenced (session : ℕ)
  /-- The fence was given back. -/
  | unfenced (session : ℕ)
  | releasing (session : ℕ)
  deriving DecidableEq

def LeaseStage.session? : LeaseStage → Option ℕ
  | idle => none
  | connected t => some t
  | leader t => some t
  | fenced t => some t
  | unfenced t => some t
  | releasing t => some t

/-- The dedicated connection of a store, with the owner it was acquired for. -/
structure WriterConnection where
  session : ℕ
  owner : String
  deriving DecidableEq

structure WriterStore where
  connection : Option WriterConnection
  /-- `_canonical_writer_lease_loss` is latched. -/
  lost : Bool
  stage : LeaseStage
  deriving DecidableEq

/-- A transaction, with the store it runs in. -/
inductive FencedTransaction
  | idle
  /-- The check before the fence passed. -/
  | started (store : ℕ)
  /-- The fence is held, shared. -/
  | fenced (store : ℕ)
  /-- The second check passed; what follows is the mutation. -/
  | verified (store : ℕ)
  | committed (store : ℕ)
  | rolledBack (store : ℕ)
  deriving DecidableEq

def FencedTransaction.HoldsFence : FencedTransaction → Prop
  | fenced _ => True
  | verified _ => True
  | _ => False

structure WriterDb where
  stores : ℕ → WriterStore
  transactions : ℕ → FencedTransaction
  /-- The session with the lease lock. -/
  leader : Option ℕ
  /-- The session with the fence, in exclusive mode. -/
  fence : Option ℕ
  /-- The sessions that ended. -/
  ended : List ℕ
  nextSession : ℕ
  /-- Not in the program: the store that opened a session. -/
  opener : ℕ → ℕ
  /-- Not in the program: the sessions that held the fence exclusively. -/
  probed : List ℕ
  /-- Not in the program: the sessions whose acquisition returned. -/
  acquired : List ℕ

namespace WriterDb

def start : WriterDb where
  stores _ := ⟨none, false, .idle⟩
  transactions _ := .idle
  leader := none
  fence := none
  ended := []
  nextSession := 0
  opener _ := 0
  probed := []
  acquired := []

def setStore (s : WriterDb) (p : ℕ) (w : WriterStore) : WriterDb :=
  { s with stores := Function.update s.stores p w }

def setTransaction (s : WriterDb) (i : ℕ) (x : FencedTransaction) : WriterDb :=
  { s with transactions := Function.update s.transactions i x }

/-- The query of `_verify_canonical_writer_lease_locked`: the session of the store has the lock. -/
def VerifiesLease (s : WriterDb) (p : ℕ) : Prop :=
  (s.stores p).stage = .idle ∧
    ∃ c, (s.stores p).connection = some c ∧ c.owner ≠ "" ∧ c.session ∉ s.ended ∧
      s.leader = some c.session

/-- The store `p` acquired the lease and its session still has the lock. -/
def Leads (s : WriterDb) (p : ℕ) : Prop :=
  ∃ t ∈ s.acquired, s.leader = some t ∧ s.opener t = p

end WriterDb

inductive WriterAct
  | connect (p : ℕ)
  | tryLease (p : ℕ)
  | probeFence (p : ℕ)
  | unlockFence (p : ℕ)
  | acquired (p : ℕ) (owner : String)
  | abandon (p : ℕ)
  | check (p : ℕ)
  | latchLoss (p : ℕ)
  | beginRelease (p : ℕ)
  | unlockLease (p : ℕ)
  | endRelease (p : ℕ) (failed : Bool)
  | endSession (t : ℕ)
  | begin (i p : ℕ)
  | lockFence (i : ℕ)
  | verify (i : ℕ)
  | commit (i : ℕ)
  | rollback (i : ℕ)
  deriving DecidableEq

open WriterDb in
/-- One step. A refused lock or a failed query of an acquisition is `abandon`; closing a connection
ends its session now, later or, when the close fails, not at all, so it is `endSession`. -/
inductive WriterStep : WriterDb → WriterAct → WriterDb → Prop
  /-- `psycopg.connect`: only without a connection and without a latched loss. -/
  | connect {s p} (hstage : (s.stores p).stage = .idle)
      (hnone : (s.stores p).connection = none) (hlost : (s.stores p).lost = false) :
      WriterStep s (.connect p)
        { s.setStore p { s.stores p with stage := .connected s.nextSession } with
          nextSession := s.nextSession + 1
          opener := Function.update s.opener s.nextSession p }
  | tryLease {s p t} (hstage : (s.stores p).stage = .connected t) (halive : t ∉ s.ended)
      (hfree : s.leader = none) :
      WriterStep s (.tryLease p)
        { s.setStore p { s.stores p with stage := .leader t } with leader := some t }
  | probeFence {s p t} (hstage : (s.stores p).stage = .leader t) (halive : t ∉ s.ended)
      (hfree : s.fence = none) (hshared : ∀ i, ¬ (s.transactions i).HoldsFence) :
      WriterStep s (.probeFence p)
        { s.setStore p { s.stores p with stage := .fenced t } with
          fence := some t
          probed := t :: s.probed }
  | unlockFence {s p t} (hstage : (s.stores p).stage = .fenced t) (halive : t ∉ s.ended) :
      WriterStep s (.unlockFence p)
        { s.setStore p { s.stores p with stage := .unfenced t } with fence := none }
  | acquired {s p t owner} (hstage : (s.stores p).stage = .unfenced t) (howner : owner ≠ "") :
      WriterStep s (.acquired p owner)
        { s.setStore p ⟨some ⟨t, owner⟩, (s.stores p).lost, .idle⟩ with
          acquired := t :: s.acquired }
  | abandon {s p t} (hstage : (s.stores p).stage = .connected t ∨
      (s.stores p).stage = .leader t ∨ (s.stores p).stage = .fenced t ∨
      (s.stores p).stage = .unfenced t) :
      WriterStep s (.abandon p) (s.setStore p { s.stores p with stage := .idle })
  /-- A check that passed, outside a transaction or by a second acquisition of the same owner. -/
  | check {s p} (hok : s.VerifiesLease p) : WriterStep s (.check p) s
  /-- A check that failed: the loss is latched and the connection given up. -/
  | latchLoss {s p} (hstage : (s.stores p).stage = .idle)
      (hsome : (s.stores p).connection.isSome) :
      WriterStep s (.latchLoss p) (s.setStore p ⟨none, true, .idle⟩)
  | beginRelease {s p c} (hstage : (s.stores p).stage = .idle)
      (hsome : (s.stores p).connection = some c) :
      WriterStep s (.beginRelease p)
        (s.setStore p ⟨none, (s.stores p).lost, .releasing c.session⟩)
  | unlockLease {s p t} (hstage : (s.stores p).stage = .releasing t) (halive : t ∉ s.ended) :
      WriterStep s (.unlockLease p)
        { s with leader := if s.leader = some t then none else s.leader }
  | endRelease {s p t failed} (hstage : (s.stores p).stage = .releasing t) :
      WriterStep s (.endRelease p failed)
        (s.setStore p ⟨none, failed || (s.stores p).lost, .idle⟩)
  /-- PostgreSQL drops the session locks of a session that ends. -/
  | endSession {s t} :
      WriterStep s (.endSession t)
        { s with
          ended := t :: s.ended
          leader := if s.leader = some t then none else s.leader
          fence := if s.fence = some t then none else s.fence }
  | begin {s i p} (hi : s.transactions i = .idle) (hok : s.VerifiesLease p) :
      WriterStep s (.begin i p) (s.setTransaction i (.started p))
  | lockFence {s i p} (hi : s.transactions i = .started p) (hfree : s.fence = none) :
      WriterStep s (.lockFence i) (s.setTransaction i (.fenced p))
  | verify {s i p} (hi : s.transactions i = .fenced p) (hok : s.VerifiesLease p) :
      WriterStep s (.verify i) (s.setTransaction i (.verified p))
  | commit {s i p} (hi : s.transactions i = .verified p) :
      WriterStep s (.commit i) (s.setTransaction i (.committed p))
  /-- The second check failed, the mutation raised, or the session of the transaction ended. -/
  | rollback {s i p} (hi : s.transactions i = .started p ∨ s.transactions i = .fenced p ∨
      s.transactions i = .verified p) :
      WriterStep s (.rollback i) (s.setTransaction i (.rolledBack p))

/-! ### The invariant -/

structure WriterInv (s : WriterDb) : Prop where
  /-- Sessions are numbered as they are opened. -/
  stage_lt : ∀ p t, (s.stores p).stage.session? = some t → t < s.nextSession ∧ s.opener t = p
  connection_lt : ∀ p c, (s.stores p).connection = some c →
    c.session < s.nextSession ∧ s.opener c.session = p ∧ c.session ∈ s.probed
  probed_lt : ∀ t ∈ s.probed, t < s.nextSession
  acquired_probed : ∀ t ∈ s.acquired, t ∈ s.probed
  /-- A store probes the fence after it has the lease lock. -/
  fresh : ∀ p t, (s.stores p).stage = .connected t ∨ (s.stores p).stage = .leader t →
    t ∉ s.probed
  past : ∀ p t, (s.stores p).stage = .fenced t ∨ (s.stores p).stage = .unfenced t → t ∈ s.probed
  /-- A transaction past its second check knows who has the lease. -/
  verified : ∀ i p, s.transactions i = .verified p →
    ∀ t ∈ s.probed, s.leader = some t → s.opener t = p

namespace WriterInv

variable {s : WriterDb} {p i : ℕ}

theorem start : WriterInv WriterDb.start where
  stage_lt _ _ h := by cases h
  connection_lt _ _ h := by cases h
  probed_lt _ h := by cases h
  acquired_probed _ h := by cases h
  fresh _ _ h := by rcases h with h | h <;> cases h
  past _ _ h := by rcases h with h | h <;> cases h
  verified _ _ h := by cases h

/-- Store and locks apart: a store is replaced by one that satisfies what the invariant asks of a
single store. -/
theorem setStore (h : WriterInv s) {w : WriterStore}
    (hstage : ∀ t, w.stage.session? = some t → t < s.nextSession ∧ s.opener t = p)
    (hconn : ∀ c, w.connection = some c →
      c.session < s.nextSession ∧ s.opener c.session = p ∧ c.session ∈ s.probed)
    (hfresh : ∀ t, w.stage = .connected t ∨ w.stage = .leader t → t ∉ s.probed)
    (hpast : ∀ t, w.stage = .fenced t ∨ w.stage = .unfenced t → t ∈ s.probed) :
    WriterInv (s.setStore p w) where
  stage_lt q t hq := by
    change (Function.update s.stores p w q).stage.session? = some t at hq
    by_cases hqp : q = p
    · subst hqp
      rw [Function.update_self] at hq
      exact hstage t hq
    · rw [Function.update_of_ne hqp] at hq
      exact h.stage_lt q t hq
  connection_lt q c hq := by
    change (Function.update s.stores p w q).connection = some c at hq
    by_cases hqp : q = p
    · subst hqp
      rw [Function.update_self] at hq
      exact hconn c hq
    · rw [Function.update_of_ne hqp] at hq
      exact h.connection_lt q c hq
  probed_lt := h.probed_lt
  acquired_probed := h.acquired_probed
  fresh q t hq := by
    change (Function.update s.stores p w q).stage = _ ∨
      (Function.update s.stores p w q).stage = _ at hq
    by_cases hqp : q = p
    · subst hqp
      rw [Function.update_self] at hq
      exact hfresh t hq
    · rw [Function.update_of_ne hqp] at hq
      exact h.fresh q t hq
  past q t hq := by
    change (Function.update s.stores p w q).stage = _ ∨
      (Function.update s.stores p w q).stage = _ at hq
    by_cases hqp : q = p
    · subst hqp
      rw [Function.update_self] at hq
      exact hpast t hq
    · rw [Function.update_of_ne hqp] at hq
      exact h.past q t hq
  verified := h.verified

/-- A store that is idle afterwards, with a connection it had before or without one. -/
theorem setIdle (h : WriterInv s) {w : WriterStore} (hstage : w.stage = .idle)
    (hconn : w.connection = none ∨ w.connection = (s.stores p).connection) :
    WriterInv (s.setStore p w) := by
  refine h.setStore ?_ ?_ ?_ ?_
  · intro t ht
    rw [hstage] at ht
    cases ht
  · intro c hc
    rcases hconn with hnone | hsame
    · rw [hnone] at hc
      cases hc
    · exact h.connection_lt p c (hsame ▸ hc)
  · intro t ht
    rw [hstage] at ht
    rcases ht with ht | ht <;> cases ht
  · intro t ht
    rw [hstage] at ht
    rcases ht with ht | ht <;> cases ht

theorem setTransaction (h : WriterInv s) {x : FencedTransaction}
    (hx : ∀ p, x = .verified p → ∀ t ∈ s.probed, s.leader = some t → s.opener t = p) :
    WriterInv (s.setTransaction i x) where
  stage_lt := h.stage_lt
  connection_lt := h.connection_lt
  probed_lt := h.probed_lt
  acquired_probed := h.acquired_probed
  fresh := h.fresh
  past := h.past
  verified j p hj := by
    change Function.update s.transactions i x j = _ at hj
    by_cases hji : j = i
    · subst hji
      rw [Function.update_self] at hj
      exact hx p hj
    · rw [Function.update_of_ne hji] at hj
      exact h.verified j p hj

/-- The lease lock goes to nobody, or stays. -/
theorem dropLocks (h : WriterInv s) {l f : Option ℕ} {e : List ℕ}
    (hl : ∀ t, l = some t → s.leader = some t) :
    WriterInv { s with leader := l, fence := f, ended := e } where
  stage_lt := h.stage_lt
  connection_lt := h.connection_lt
  probed_lt := h.probed_lt
  acquired_probed := h.acquired_probed
  fresh := h.fresh
  past := h.past
  verified j p hj t ht hlead := h.verified j p hj t ht (hl t hlead)

/-- The lease lock goes to a session that has not probed the fence. -/
theorem grantLease (h : WriterInv s) {t : ℕ} (ht : t ∉ s.probed) :
    WriterInv { s with leader := some t } where
  stage_lt := h.stage_lt
  connection_lt := h.connection_lt
  probed_lt := h.probed_lt
  acquired_probed := h.acquired_probed
  fresh := h.fresh
  past := h.past
  verified j p hj t' ht' hlead := by
    cases hlead
    exact absurd ht' ht

/-- A passed check names the only session with the lease. -/
theorem of_verifiesLease (h : WriterInv s) (hok : s.VerifiesLease p) {t : ℕ}
    (hlead : s.leader = some t) : s.opener t = p := by
  obtain ⟨-, c, hc, -, -, hleader⟩ := hok
  obtain rfl : c.session = t := Option.some.inj (hleader.symm.trans hlead)
  exact (h.connection_lt p c hc).2.1

/-- A session is opened. -/
theorem openSession (h : WriterInv s) (p : ℕ) :
    WriterInv { s with
      nextSession := s.nextSession + 1
      opener := Function.update s.opener s.nextSession p } where
  stage_lt q t hq := by
    obtain ⟨hlt, hopen⟩ := h.stage_lt q t hq
    exact ⟨Nat.lt_succ_of_lt hlt, (Function.update_of_ne (Nat.ne_of_lt hlt) _ _).trans hopen⟩
  connection_lt q c hq := by
    obtain ⟨hlt, hopen, hprobed⟩ := h.connection_lt q c hq
    exact ⟨Nat.lt_succ_of_lt hlt, (Function.update_of_ne (Nat.ne_of_lt hlt) _ _).trans hopen, hprobed⟩
  probed_lt t ht := Nat.lt_succ_of_lt (h.probed_lt t ht)
  acquired_probed := h.acquired_probed
  fresh := h.fresh
  past := h.past
  verified j q hj t ht hlead :=
    (Function.update_of_ne (Nat.ne_of_lt (h.probed_lt t ht)) _ _).trans (h.verified j q hj t ht hlead)

/-- The fence is granted exclusively: no transaction is between its two ends. -/
theorem probeFence (h : WriterInv s) {t : ℕ} (hstage : (s.stores p).stage = .leader t)
    (hshared : ∀ i, ¬ (s.transactions i).HoldsFence) :
    WriterInv { s.setStore p { s.stores p with stage := .fenced t } with
      fence := some t
      probed := t :: s.probed } where
  stage_lt q u hq := by
    change (Function.update s.stores p _ q).stage.session? = some u at hq
    by_cases hqp : q = p
    · subst hqp
      rw [Function.update_self] at hq
      cases hq
      exact h.stage_lt q _ (by rw [hstage]; rfl)
    · rw [Function.update_of_ne hqp] at hq
      exact h.stage_lt q u hq
  connection_lt q c hq := by
    have hkeep : (Function.update s.stores p { s.stores p with stage := .fenced t } q).connection
        = (s.stores q).connection := by
      by_cases hqp : q = p
      · subst hqp
        rw [Function.update_self]
      · rw [Function.update_of_ne hqp]
    obtain ⟨hlt, hopen, hprobed⟩ := h.connection_lt q c (hkeep ▸ hq)
    exact ⟨hlt, hopen, List.mem_cons_of_mem _ hprobed⟩
  probed_lt u hu := by
    rcases List.mem_cons.mp hu with rfl | hu
    · exact (h.stage_lt p _ (by rw [hstage]; rfl)).1
    · exact h.probed_lt u hu
  acquired_probed u hu := List.mem_cons_of_mem _ (h.acquired_probed u hu)
  fresh q u hq := by
    change (Function.update s.stores p _ q).stage = _ ∨
      (Function.update s.stores p _ q).stage = _ at hq
    by_cases hqp : q = p
    · subst hqp
      rw [Function.update_self] at hq
      rcases hq with hq | hq <;> cases hq
    · rw [Function.update_of_ne hqp] at hq
      -- another store works on a session of its own
      have hu : s.opener u = q := by
        rcases hq with hq | hq
        · exact (h.stage_lt q u (by rw [hq]; rfl)).2
        · exact (h.stage_lt q u (by rw [hq]; rfl)).2
      have ht : s.opener t = p := (h.stage_lt p t (by rw [hstage]; rfl)).2
      have hne : u ≠ t := fun heq => hqp (by rw [← hu, heq, ht])
      exact List.not_mem_cons_of_ne_of_not_mem hne (h.fresh q u hq)
  past q u hq := by
    change (Function.update s.stores p _ q).stage = _ ∨
      (Function.update s.stores p _ q).stage = _ at hq
    by_cases hqp : q = p
    · subst hqp
      rw [Function.update_self] at hq
      rcases hq with hq | hq
      · cases hq
        exact List.mem_cons_self ..
      · cases hq
    · rw [Function.update_of_ne hqp] at hq
      exact List.mem_cons_of_mem _ (h.past q u hq)
  verified j q hj := by
    change s.transactions j = _ at hj
    exact absurd (by rw [hj]; trivial) (hshared j)

theorem noteAcquired (h : WriterInv s) {t : ℕ} (ht : t ∈ s.probed) :
    WriterInv { s with acquired := t :: s.acquired } where
  stage_lt := h.stage_lt
  connection_lt := h.connection_lt
  probed_lt := h.probed_lt
  acquired_probed u hu := by
    rcases List.mem_cons.mp hu with rfl | hu
    · exact ht
    · exact h.acquired_probed u hu
  fresh := h.fresh
  past := h.past
  verified := h.verified

/-- The stage moves on to a later one of the same session. -/
theorem setStage (h : WriterInv s) {t : ℕ} {stage : LeaseStage}
    (hbefore : (s.stores p).stage.session? = some t) (hafter : stage.session? = some t)
    (hfresh : stage = .connected t ∨ stage = .leader t → t ∉ s.probed)
    (hpast : stage = .fenced t ∨ stage = .unfenced t → t ∈ s.probed) :
    WriterInv (s.setStore p { s.stores p with stage := stage }) := by
  have hsame : ∀ u, stage.session? = some u → u = t := fun u hu =>
    Option.some.inj (hu.symm.trans hafter)
  refine h.setStore ?_ (h.connection_lt p) ?_ ?_
  · intro u hu
    rw [hsame u hu]
    exact h.stage_lt p t hbefore
  · intro u hu
    obtain rfl := hsame u (by rcases hu with hu | hu <;> (change stage = _ at hu; rw [hu]; rfl))
    exact hfresh hu
  · intro u hu
    obtain rfl := hsame u (by rcases hu with hu | hu <;> (change stage = _ at hu; rw [hu]; rfl))
    exact hpast hu

end WriterInv

theorem WriterInv.step (s : WriterDb) (a : WriterAct) (t : WriterDb) (h : WriterInv s)
    (hstep : WriterStep s a t) : WriterInv t := by
  cases hstep with
  | @connect p hstage hnone hlost =>
    have hopen := h.openSession p
    refine hopen.setStore (p := p) (w := { s.stores p with stage := .connected s.nextSession })
      ?_ (hopen.connection_lt p) ?_ ?_
    · intro t ht
      cases ht
      exact ⟨Nat.lt_succ_self _, Function.update_self ..⟩
    · intro t ht hmem
      rcases ht with ht | ht <;> cases ht
      exact Nat.lt_irrefl _ (h.probed_lt _ hmem)
    · intro t ht
      rcases ht with ht | ht <;> cases ht
  | @tryLease p t hstage halive hfree =>
    have hnot := h.fresh p t (Or.inl hstage)
    exact (h.setStage (by rw [hstage]; rfl) rfl (fun _ => hnot)
      (by rintro (hx | hx) <;> cases hx)).grantLease hnot
  | probeFence hstage halive hfree hshared => exact h.probeFence hstage hshared
  | @unlockFence p t hstage halive =>
    have hin := h.past p t (Or.inl hstage)
    have hset : WriterInv (s.setStore p { s.stores p with stage := .unfenced t }) :=
      h.setStage (by rw [hstage]; rfl) rfl (by rintro (hx | hx) <;> cases hx) fun _ => hin
    exact hset.dropLocks fun _ hl => hl
  | @acquired p t owner hstage howner =>
    have hin := h.past p t (Or.inr hstage)
    obtain ⟨hlt, hopen⟩ := h.stage_lt p t (by rw [hstage]; rfl)
    refine (h.setStore (w := ⟨some ⟨t, owner⟩, (s.stores p).lost, .idle⟩) ?_ ?_ ?_ ?_).noteAcquired
      hin
    · intro u hu
      cases hu
    · intro c hc
      cases hc
      exact ⟨hlt, hopen, hin⟩
    · rintro u (hu | hu) <;> cases hu
    · rintro u (hu | hu) <;> cases hu
  | abandon hstage => exact h.setIdle rfl (Or.inr rfl)
  | check hok => exact h
  | latchLoss hstage hsome => exact h.setIdle rfl (Or.inl rfl)
  | @beginRelease p c hstage hsome =>
    obtain ⟨hlt, hopen, -⟩ := h.connection_lt p c hsome
    refine h.setStore ?_ ?_ ?_ ?_
    · intro t ht
      cases ht
      exact ⟨hlt, hopen⟩
    · intro d hd
      cases hd
    · rintro u (hu | hu) <;> cases hu
    · rintro u (hu | hu) <;> cases hu
  | @unlockLease p t hstage halive =>
    refine h.dropLocks fun u hu => ?_
    split at hu
    · cases hu
    · exact hu
  | endRelease hstage => exact h.setIdle rfl (Or.inl rfl)
  | @endSession t =>
    refine h.dropLocks fun u hu => ?_
    split at hu
    · cases hu
    · exact hu
  | begin hi hok => exact h.setTransaction fun p hp => by cases hp
  | lockFence hi hfree => exact h.setTransaction fun p hp => by cases hp
  | verify hi hok =>
    refine h.setTransaction fun p hp => ?_
    cases hp
    intro t _ hlead
    exact h.of_verifiesLease hok hlead
  | commit hi => exact h.setTransaction fun p hp => by cases hp
  | rollback hi => exact h.setTransaction fun p hp => by cases hp

/-! ### The main result -/

/-- **There is one canonical writer.** In every run at most one store leads, and while a store leads
no transaction of another store commits. -/
theorem canonicalWriter_single {s : WriterDb} {acts : List WriterAct}
    (h : Run WriterStep WriterDb.start acts s) :
    (∀ p q, s.Leads p → s.Leads q → p = q) ∧
    ∀ i p t, s.transactions i = .verified p → WriterStep s (.commit i) t →
      ∀ q, s.Leads q → q = p := by
  have hinv : WriterInv s := h.invariant WriterInv.step WriterInv.start
  constructor
  · rintro p q ⟨t, -, ht, rfl⟩ ⟨u, -, hu, rfl⟩
    rw [Option.some.inj (ht.symm.trans hu)]
  · rintro i p t hi - q ⟨u, hu, hlead, rfl⟩
    exact hinv.verified i p hi u (hinv.acquired_probed u hu) hlead

/-- The session of a writer ends under a transaction; another store takes over. -/
theorem canonicalWriter_single_takeover : ∃ s : WriterDb, s.Leads 1 ∧
    s.transactions 0 = .started 0 ∧ ∀ q, s.Leads q → q = 1 := by
  have hshared : ∀ (s : WriterDb) (x : FencedTransaction), s.transactions = Function.update
      (fun _ => .idle) 0 x → ¬ x.HoldsFence → ∀ i, ¬ (s.transactions i).HoldsFence := by
    intro s x hs hx i
    rw [hs]
    by_cases hi : i = 0
    · subst hi
      rwa [Function.update_self]
    · rw [Function.update_of_ne hi]
      exact id
  have acquiredBy : ∀ {s : WriterDb} (p t : ℕ), (s.stores p).stage = .unfenced t →
      WriterStep s (.acquired p "app")
        { s.setStore p ⟨some ⟨t, "app"⟩, (s.stores p).lost, .idle⟩ with
          acquired := t :: s.acquired } := fun _ _ h => .acquired h (by decide)
  have hrun : ∃ s acts, Run WriterStep WriterDb.start acts s ∧ s.Leads 1 ∧
      s.transactions 0 = .started 0 := by
    refine ⟨_, _, .cons (.connect (p := 0) rfl rfl rfl) <|
      .cons (.tryLease (p := 0) (t := 0) rfl (by decide) rfl) <|
      .cons (.probeFence (p := 0) (t := 0) rfl (by decide) rfl fun _ => id) <|
      .cons (.unlockFence (p := 0) (t := 0) rfl (by decide)) <|
      .cons (acquiredBy 0 0 rfl) <|
      .cons (.begin (i := 0) (p := 0) rfl ⟨rfl, ⟨0, "app"⟩, rfl, by decide, by decide, rfl⟩) <|
      .cons (.endSession (t := 0)) <|
      .cons (.connect (p := 1) rfl rfl rfl) <|
      .cons (.tryLease (p := 1) (t := 1) rfl (by decide) rfl) <|
      .cons (.probeFence (p := 1) (t := 1) rfl (by decide) rfl
        (hshared _ (.started 0) rfl id)) <|
      .cons (.unlockFence (p := 1) (t := 1) rfl (by decide)) <|
      .single (acquiredBy 1 1 rfl),
      ⟨1, by decide, rfl, rfl⟩, rfl⟩
  obtain ⟨s, acts, hrun, hlead, htx⟩ := hrun
  exact ⟨s, hlead, htx, fun q hq => (canonicalWriter_single hrun).1 q 1 hq hlead⟩

end AefTerminal
