import Mathlib.Data.List.Basic
import Mathlib.Data.List.Nodup
import Mathlib.Data.List.Perm.Basic
import Mathlib.Data.List.Range

/-!
# Subscribers that are told once

A subscriber waits under a key for the end of a request. When the request ends everything that
waits under its key leaves the table and is due to be told the outcome; each is told at some later
moment. Keys may be used again by later requests, so a subscription remembers its request.

`Notifier.Sound live` says what holds as long as the requests in progress are those of `live`, at
most one under each key: every subscriber is in one place, and it is told the outcome of its own
request.

## Main results

* `Notifier.Sound.subscribe`, `Sound.complete`, `Sound.call`, `Sound.mono`: what keeps it
* `Notifier.Sound.told_once`, `Sound.still_waiting`: what it says of one subscriber
-/

namespace Foundation

variable {κ ι ω : Type*}

/-- The subscribers are numbered in the order of their subscription. -/
structure Notifier (κ ι ω : Type*) where
  waiting : List (κ × ℕ)
  due : List (ℕ × ω)
  told : List (ℕ × ω)
  subscriptions : List (ℕ × ι)
  ended : List (ι × ω)

namespace Notifier

def empty : Notifier κ ι ω := ⟨[], [], [], [], []⟩

variable (b : Notifier κ ι ω)

def subscribe (key : κ) (request : ι) : Notifier κ ι ω :=
  { b with
    waiting := b.waiting ++ [(key, b.subscriptions.length)]
    subscriptions := b.subscriptions ++ [(b.subscriptions.length, request)] }

def complete [DecidableEq κ] (key : κ) (request : ι) (outcome : ω) : Notifier κ ι ω :=
  { b with
    waiting := b.waiting.filter fun entry => entry.1 ≠ key
    due := b.due ++ ((b.waiting.filter fun entry => entry.1 = key).map Prod.snd).map
      fun subscriber => (subscriber, outcome)
    ended := b.ended ++ [(request, outcome)] }

def call (i : ℕ) (entry : ℕ × ω) : Notifier κ ι ω :=
  { b with due := b.due.eraseIdx i, told := b.told ++ [entry] }

/-- Where the subscribers are. -/
def places : List ℕ := b.waiting.map Prod.snd ++ (b.due ++ b.told).map Prod.fst

/-- The invariant, for the requests in progress with their keys. -/
structure Sound (live : κ → ι → Prop) : Prop where
  numbered : b.subscriptions.map Prod.fst = List.range b.subscriptions.length
  account : b.places.Perm (List.range b.subscriptions.length)
  waits : ∀ entry ∈ b.waiting, ∃ request, live entry.1 request ∧ (entry.2, request) ∈ b.subscriptions
  tells : ∀ entry ∈ b.due ++ b.told, ∃ request, (entry.1, request) ∈ b.subscriptions ∧
    (request, entry.2) ∈ b.ended
  once : (b.ended.map Prod.fst).Nodup
  dead : ∀ entry ∈ b.ended, ∀ key, ¬ live key entry.1
  settled : ∀ entry ∈ b.subscriptions, (∃ key, live key entry.2) ∨ entry.2 ∈ b.ended.map Prod.fst

variable {b} {live live' : κ → ι → Prop}

theorem sound_empty : (empty : Notifier κ ι ω).Sound live :=
  ⟨rfl, .refl _, by simp [empty], by simp [empty], List.nodup_nil, by simp [empty],
    by simp [empty]⟩

/-- Requests may begin that never ended. -/
theorem Sound.mono (h : b.Sound live) (hsub : ∀ key request, live key request → live' key request)
    (hnew : ∀ key request, live' key request →
      live key request ∨ request ∉ b.ended.map Prod.fst) : b.Sound live' := by
  refine ⟨h.numbered, h.account, fun entry he => ?_, h.tells, h.once, fun entry he key hlive => ?_,
    fun entry he => ?_⟩
  · obtain ⟨request, hlive, hmem⟩ := h.waits entry he
    exact ⟨request, hsub _ _ hlive, hmem⟩
  · rcases hnew key entry.1 hlive with hlive | hnot
    · exact h.dead entry he key hlive
    · exact hnot (List.mem_map_of_mem he)
  · exact (h.settled entry he).imp_left fun ⟨key, hlive⟩ => ⟨key, hsub _ _ hlive⟩

theorem Sound.subscribe (h : b.Sound live) {key : κ} {request : ι} (hlive : live key request) :
    (b.subscribe key request).Sound live := by
  have hlength : (b.subscribe key request).subscriptions.length = b.subscriptions.length + 1 :=
    List.length_append
  refine ⟨?_, ?_, fun entry he => ?_, fun entry he => ?_, h.once, h.dead, fun entry he => ?_⟩
  · rw [hlength, List.range_succ, Notifier.subscribe, List.map_append, h.numbered]
    rfl
  · rw [hlength, List.range_succ]
    have hplaces : (b.subscribe key request).places =
        b.waiting.map Prod.snd ++ [b.subscriptions.length] ++ (b.due ++ b.told).map Prod.fst := by
      simp [places, Notifier.subscribe]
    rw [hplaces]
    calc (b.waiting.map Prod.snd ++ [b.subscriptions.length] ++
            (b.due ++ b.told).map Prod.fst).Perm (b.places ++ [b.subscriptions.length]) := by
          rw [places, List.append_assoc, List.append_assoc]
          exact List.perm_append_comm.append_left _
      _ |>.Perm _ := h.account.append_right _
  · rcases List.mem_append.mp he with he | he
    · obtain ⟨other, hother, hmem⟩ := h.waits entry he
      exact ⟨other, hother, List.mem_append_left _ hmem⟩
    · rw [List.mem_singleton.mp he]
      exact ⟨request, hlive, List.mem_append_right _ (List.mem_singleton_self _)⟩
  · obtain ⟨other, hmem, hended⟩ := h.tells entry he
    exact ⟨other, List.mem_append_left _ hmem, hended⟩
  · rcases List.mem_append.mp he with he | he
    · exact h.settled entry he
    · rw [List.mem_singleton.mp he]
      exact .inl ⟨key, hlive⟩

/-- A request ends that was the only one under its key. -/
theorem Sound.complete [DecidableEq κ] (h : b.Sound live) {key : κ} {request : ι}
    (hlive : live key request) (hkey : ∀ other, live key other → other = request)
    (hrequest : ∀ other, live other request → other = key) (outcome : ω) :
    (b.complete key request outcome).Sound fun k r => live k r ∧ r ≠ request := by
  refine ⟨h.numbered, ?_, fun entry he => ?_, fun entry he => ?_, ?_, fun entry he k hk => ?_,
    fun entry he => ?_⟩
  · refine List.Perm.trans ?_ h.account
    have hsplit := (List.filter_append_perm (fun entry : κ × ℕ => entry.1 = key) b.waiting).map
      Prod.snd
    have hplaces : (b.complete key request outcome).places =
        (b.waiting.filter fun entry => entry.1 ≠ key).map Prod.snd ++ (b.due.map Prod.fst ++
          ((b.waiting.filter fun entry => entry.1 = key).map Prod.snd ++ b.told.map Prod.fst)) := by
      simp [places, Notifier.complete, Function.comp_def]
    have hrest : (b.waiting.filter fun entry => entry.1 ≠ key) =
        b.waiting.filter fun entry => !decide (entry.1 = key) :=
      List.filter_congr fun entry _ => by simp
    rw [hplaces, places, List.map_append, hrest]
    rw [List.perm_iff_count] at hsplit ⊢
    intro subscriber
    have hcount := hsplit subscriber
    simp only [List.map_append, List.count_append] at hcount ⊢
    omega
  · obtain ⟨hmem, hne⟩ := List.mem_filter.mp he
    obtain ⟨other, hother, hsub⟩ := h.waits entry hmem
    refine ⟨other, ⟨hother, ?_⟩, hsub⟩
    rintro rfl
    exact absurd (hrequest _ hother) (by simpa using hne)
  · rw [Notifier.complete, List.append_assoc, List.mem_append, List.mem_append] at he
    have hold (hmem : entry ∈ b.due ++ b.told) : ∃ r, (entry.1, r) ∈ b.subscriptions ∧
        (r, entry.2) ∈ b.ended ++ [(request, outcome)] := by
      obtain ⟨r, hr, hended⟩ := h.tells entry hmem
      exact ⟨r, hr, List.mem_append_left _ hended⟩
    rcases he with he | he | he
    · exact hold (List.mem_append_left _ he)
    · obtain ⟨subscriber, hwaits, rfl⟩ := List.mem_map.mp he
      obtain ⟨⟨k, n⟩, hmem, rfl⟩ := List.mem_map.mp hwaits
      obtain ⟨hmem, hk⟩ := List.mem_filter.mp hmem
      obtain ⟨r, hr, hsub⟩ := h.waits _ hmem
      rw [show k = key from of_decide_eq_true hk] at hr
      rw [hkey r hr] at hsub
      exact ⟨request, hsub, List.mem_append_right _ (List.mem_singleton_self _)⟩
    · exact hold (List.mem_append_right _ he)
  · rw [Notifier.complete, List.map_append]
    refine h.once.append (List.nodup_singleton _) fun r hr hmem => ?_
    obtain ⟨entry, hentry, rfl⟩ := List.mem_map.mp hr
    exact h.dead entry hentry key (List.mem_singleton.mp hmem ▸ hlive)
  · rcases List.mem_append.mp he with he | he
    · exact h.dead entry he k hk.1
    · rw [List.mem_singleton.mp he] at hk
      exact hk.2 rfl
  · rw [Notifier.complete, List.map_append]
    rcases h.settled entry he with ⟨k, hk⟩ | hended
    · by_cases heq : entry.2 = request
      · exact .inr (List.mem_append_right _ (by simp [heq]))
      · exact .inl ⟨k, hk, heq⟩
    · exact .inr (List.mem_append_left _ hended)

theorem Sound.call (h : b.Sound live) {i : ℕ} {entry : ℕ × ω} (hdue : b.due[i]? = some entry) :
    (b.call i entry).Sound live := by
  obtain ⟨hi, hentry⟩ := List.getElem?_eq_some_iff.mp hdue
  have hperm : (b.due.eraseIdx i ++ (b.told ++ [entry])).Perm (b.due ++ b.told) := by
    calc (b.due.eraseIdx i ++ (b.told ++ [entry])).Perm (entry :: b.due.eraseIdx i ++ b.told) := by
          rw [← List.append_assoc]
          exact List.perm_append_singleton entry (b.due.eraseIdx i ++ b.told)
      _ |>.Perm (b.due ++ b.told) :=
          (hentry ▸ List.getElem_cons_eraseIdx_perm hi).append_right _
  refine ⟨h.numbered, ((hperm.map Prod.fst).append_left _).trans h.account, h.waits,
    fun other ho => h.tells other (hperm.mem_iff.mp ho), h.once, h.dead, h.settled⟩

/-! ### What a subscriber sees -/

theorem Sound.subscription_eq (h : b.Sound live) {subscriber : ℕ} {request request' : ι}
    (hmem : (subscriber, request) ∈ b.subscriptions)
    (hmem' : (subscriber, request') ∈ b.subscriptions) : request = request' :=
  congrArg Prod.snd (List.inj_on_of_nodup_map (f := Prod.fst)
    (h.numbered ▸ List.nodup_range) hmem hmem' rfl)

theorem Sound.nodup_places (h : b.Sound live) : b.places.Nodup :=
  h.account.nodup_iff.mpr List.nodup_range

/-- The subscriber of a request that ended is told its outcome, once. -/
theorem Sound.told_once (h : b.Sound live) {subscriber : ℕ} {request : ι} {outcome : ω}
    (hsub : (subscriber, request) ∈ b.subscriptions) (hended : (request, outcome) ∈ b.ended) :
    (subscriber, outcome) ∈ b.due ++ b.told ∧ ((b.due ++ b.told).map Prod.fst).count subscriber = 1 ∧
      ∀ other, (subscriber, other) ∈ b.due ++ b.told → other = outcome := by
  have hplace : subscriber ∈ b.places := by
    refine h.account.mem_iff.mpr (h.numbered ▸ List.mem_map_of_mem (f := Prod.fst) hsub)
  have hwaits : subscriber ∉ b.waiting.map Prod.snd := by
    intro hmem
    obtain ⟨entry, hentry, rfl⟩ := List.mem_map.mp hmem
    obtain ⟨other, hlive, hother⟩ := h.waits entry hentry
    rw [h.subscription_eq hother hsub] at hlive
    exact h.dead _ hended _ hlive
  have hsame (other : ω) (hother : (subscriber, other) ∈ b.due ++ b.told) : other = outcome := by
    obtain ⟨r, hr, hr'⟩ := h.tells _ hother
    rw [h.subscription_eq hr hsub] at hr'
    exact congrArg Prod.snd (List.inj_on_of_nodup_map (f := Prod.fst) h.once hr' hended rfl)
  have hmem : subscriber ∈ (b.due ++ b.told).map Prod.fst :=
    (List.mem_append.mp hplace).resolve_left hwaits
  refine ⟨?_, List.count_eq_one_of_mem (List.nodup_append'.mp h.nodup_places).2.1 hmem, hsame⟩
  obtain ⟨⟨s, o⟩, hentry, rfl⟩ := List.mem_map.mp hmem
  rwa [← hsame o hentry]

/-- The subscriber of a request that did not end waits, and is not told anything. -/
theorem Sound.still_waiting (h : b.Sound live) {subscriber : ℕ} {request : ι}
    (hsub : (subscriber, request) ∈ b.subscriptions) (hopen : request ∉ b.ended.map Prod.fst) :
    (∃ key, live key request) ∧ subscriber ∈ b.waiting.map Prod.snd ∧
      subscriber ∉ (b.due ++ b.told).map Prod.fst := by
  have hplace : subscriber ∈ b.places := by
    refine h.account.mem_iff.mpr (h.numbered ▸ List.mem_map_of_mem (f := Prod.fst) hsub)
  have hnot : subscriber ∉ (b.due ++ b.told).map Prod.fst := by
    intro hmem
    obtain ⟨entry, hentry, rfl⟩ := List.mem_map.mp hmem
    obtain ⟨r, hr, hended⟩ := h.tells entry hentry
    rw [h.subscription_eq hr hsub] at hended
    exact hopen (List.mem_map_of_mem (f := Prod.fst) hended)
  exact ⟨(h.settled _ hsub).resolve_right hopen, (List.mem_append.mp hplace).resolve_right hnot,
    hnot⟩

end Notifier

end Foundation
