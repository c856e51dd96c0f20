import Mathlib.Data.List.Basic
import Mathlib.Data.Nat.Basic
import Mathlib.Tactic.Ring

/-!
# Length-prefixed frames

A frame is a header of fixed length, which tells the size of the payload, and the payload. A stream
of items is cut into frames from its beginning. What is cut off depends on the stream up to there
only, so a frame that is complete stays the one it is, whatever follows.

Numbers in a header are big-endian.

## Main results

* `unpackBE_packBE`: reading back a number
* `frameAt_append`: a complete frame stays what it is
* `frameAt_of_prefix`: the frames of a beginning of written frames are the written ones
-/

namespace Foundation

/-! ### Big-endian numbers -/

/-- The last `k` bytes of a number, most significant first. -/
def packBE : ℕ → ℕ → List UInt8
  | 0, _ => []
  | k + 1, n => packBE k (n / 256) ++ [UInt8.ofNat n]

def unpackBE (bytes : List UInt8) : ℕ := bytes.foldl (fun acc b => acc * 256 + b.toNat) 0

@[simp] theorem length_packBE (k n : ℕ) : (packBE k n).length = k := by
  induction k generalizing n with
  | zero => rfl
  | succ k ih => rw [packBE, List.length_append, ih, List.length_singleton]

theorem unpackBE_packBE_mod (k n : ℕ) : unpackBE (packBE k n) = n % 256 ^ k := by
  induction k generalizing n with
  | zero => rw [packBE, pow_zero, Nat.mod_one]; rfl
  | succ k ih =>
    have hpack : unpackBE (packBE (k + 1) n) = unpackBE (packBE k (n / 256)) * 256 + n % 256 := by
      rw [packBE, unpackBE, List.foldl_append]
      simp [unpackBE]
    rw [hpack, ih, pow_succ, Nat.mul_comm (256 ^ k), Nat.mod_mul]
    ring

theorem unpackBE_packBE {k n : ℕ} (h : n < 256 ^ k) : unpackBE (packBE k n) = n := by
  rw [unpackBE_packBE_mod, Nat.mod_eq_of_lt h]

/-! ### Frames -/

variable {β : Type*} (headerSize : ℕ) (payloadSize : List β → ℕ)

/-- The first frame of a stream, and the rest. -/
def splitFrame (s : List β) : Option ((List β × List β) × List β) :=
  let header := s.take headerSize
  let body := s.drop headerSize
  if s.length < headerSize ∨ body.length < payloadSize header then none
  else some ((header, body.take (payloadSize header)), body.drop (payloadSize header))

/-- What follows the first `k` frames. -/
def skipFrames : ℕ → List β → Option (List β)
  | 0, s => some s
  | k + 1, s => (splitFrame headerSize payloadSize s).bind fun p => skipFrames k p.2

def frameAt (k : ℕ) (s : List β) : Option (List β × List β) :=
  (skipFrames headerSize payloadSize k s).bind fun rest =>
    (splitFrame headerSize payloadSize rest).map Prod.fst

/-- A header of the right length for its payload. -/
def FrameWf (f : List β × List β) : Prop :=
  f.1.length = headerSize ∧ payloadSize f.1 = f.2.length

variable {headerSize payloadSize} {s t rest : List β} {f : List β × List β} {k : ℕ}

theorem splitFrame_eq_some_iff :
    splitFrame headerSize payloadSize s = some (f, rest) ↔
      FrameWf headerSize payloadSize f ∧ s = f.1 ++ f.2 ++ rest := by
  obtain ⟨header, payload⟩ := f
  constructor
  · intro h
    dsimp only [splitFrame] at h
    split_ifs at h with hshort
    obtain ⟨hpair, rfl⟩ := Prod.mk.inj (Option.some.inj h)
    cases hpair
    rw [not_or, not_lt, not_lt] at hshort
    obtain ⟨hheader, hbody⟩ := hshort
    refine ⟨⟨List.length_take_of_le hheader, ?_⟩, ?_⟩
    · exact (List.length_take_of_le hbody).symm
    · simp only [List.append_assoc, List.take_append_drop]
  · rintro ⟨⟨hheader, hpayload⟩, rfl⟩
    dsimp only at hheader hpayload ⊢
    have htake : (header ++ payload ++ rest).take headerSize = header := by
      rw [List.append_assoc, ← hheader, List.take_left']
      rfl
    have hdrop : (header ++ payload ++ rest).drop headerSize = payload ++ rest := by
      rw [List.append_assoc, ← hheader, List.drop_left']
      rfl
    have hlong : ¬ ((header ++ payload ++ rest).length < headerSize ∨
        (payload ++ rest).length < payloadSize header) := by
      simp only [List.length_append]
      omega
    dsimp only [splitFrame]
    rw [htake, hdrop, if_neg hlong, hpayload, List.take_left', List.drop_left']
    · rfl
    · rfl

theorem splitFrame_append (h : splitFrame headerSize payloadSize s = some (f, rest)) (t : List β) :
    splitFrame headerSize payloadSize (s ++ t) = some (f, rest ++ t) := by
  obtain ⟨hwf, rfl⟩ := splitFrame_eq_some_iff.mp h
  exact splitFrame_eq_some_iff.mpr ⟨hwf, List.append_assoc _ _ _⟩

theorem skipFrames_append (h : skipFrames headerSize payloadSize k s = some rest) (t : List β) :
    skipFrames headerSize payloadSize k (s ++ t) = some (rest ++ t) := by
  induction k generalizing s with
  | zero =>
    cases h
    rfl
  | succ k ih =>
    obtain ⟨⟨f, rest'⟩, hsplit, h⟩ := Option.bind_eq_some_iff.mp h
    rw [skipFrames, splitFrame_append hsplit]
    exact ih h

/-- One more frame is skipped. -/
theorem skipFrames_succ (h : skipFrames headerSize payloadSize k s = some t)
    (hsplit : splitFrame headerSize payloadSize t = some (f, rest)) :
    skipFrames headerSize payloadSize (k + 1) s = some rest := by
  induction k generalizing s with
  | zero =>
    cases h
    rw [skipFrames, hsplit]
    rfl
  | succ k ih =>
    obtain ⟨⟨f', rest'⟩, hfirst, h⟩ := Option.bind_eq_some_iff.mp h
    rw [skipFrames, hfirst]
    exact ih h

theorem frameAt_of_skipFrames (h : skipFrames headerSize payloadSize k s = some t)
    (hsplit : splitFrame headerSize payloadSize t = some (f, rest)) :
    frameAt headerSize payloadSize k s = some f := by
  rw [frameAt, h, Option.bind_some, hsplit]
  rfl

theorem frameAt_append (h : frameAt headerSize payloadSize k s = some f) (t : List β) :
    frameAt headerSize payloadSize k (s ++ t) = some f := by
  obtain ⟨rest, hskip, h⟩ := Option.bind_eq_some_iff.mp h
  obtain ⟨⟨f', rest'⟩, hsplit, rfl⟩ := Option.map_eq_some_iff.mp h
  exact frameAt_of_skipFrames (skipFrames_append hskip t) (splitFrame_append hsplit t)

/-- Frames that were written one after the other are read as they were written. -/
theorem frameAt_flatMap {fs : List (List β × List β)}
    (hwf : ∀ f ∈ fs, FrameWf headerSize payloadSize f) (hk : k < fs.length) :
    frameAt headerSize payloadSize k (fs.flatMap fun f => f.1 ++ f.2) = some fs[k] := by
  induction fs generalizing k with
  | nil => exact absurd hk (Nat.not_lt_zero _)
  | cons f fs ih =>
    obtain ⟨hf, hrest⟩ := List.forall_mem_cons.mp hwf
    have hsplit : splitFrame headerSize payloadSize ((f :: fs).flatMap fun f => f.1 ++ f.2) =
        some (f, fs.flatMap fun f => f.1 ++ f.2) :=
      splitFrame_eq_some_iff.mpr ⟨hf, List.flatMap_cons⟩
    cases k with
    | zero => exact frameAt_of_skipFrames rfl hsplit
    | succ k =>
      rw [frameAt, skipFrames, hsplit]
      exact ih hrest (Nat.lt_of_succ_lt_succ hk)

theorem skipFrames_length_le (h : skipFrames headerSize payloadSize k s = some rest) :
    rest.length ≤ s.length := by
  induction k generalizing s with
  | zero =>
    cases h
    exact le_rfl
  | succ k ih =>
    obtain ⟨⟨f, rest'⟩, hsplit, hskip⟩ := Option.bind_eq_some_iff.mp h
    obtain ⟨-, rfl⟩ := splitFrame_eq_some_iff.mp hsplit
    have hle := ih hskip
    dsimp only at hle
    simp only [List.length_append]
    omega

/-- There are no further ones. -/
theorem frameAt_flatMap_of_le {fs : List (List β × List β)}
    (hwf : ∀ f ∈ fs, FrameWf headerSize payloadSize f) (hpos : 0 < headerSize)
    (hk : fs.length ≤ k) :
    frameAt headerSize payloadSize k (fs.flatMap fun f => f.1 ++ f.2) = none := by
  rw [Option.eq_none_iff_forall_ne_some]
  intro f hframe
  induction fs generalizing k with
  | nil =>
    obtain ⟨rest, hskip, h⟩ := Option.bind_eq_some_iff.mp hframe
    obtain ⟨⟨f', rest'⟩, hsplit, rfl⟩ := Option.map_eq_some_iff.mp h
    obtain ⟨hf, heq⟩ := splitFrame_eq_some_iff.mp hsplit
    have hlen := skipFrames_length_le hskip
    rw [heq] at hlen
    simp only [List.flatMap_nil, List.length_append, List.length_nil, hf.1] at hlen
    omega
  | cons g fs ih =>
    obtain ⟨hg, hrest⟩ := List.forall_mem_cons.mp hwf
    have hsplit : splitFrame headerSize payloadSize ((g :: fs).flatMap fun f => f.1 ++ f.2) =
        some (g, fs.flatMap fun f => f.1 ++ f.2) :=
      splitFrame_eq_some_iff.mpr ⟨hg, List.flatMap_cons⟩
    cases k with
    | zero => exact absurd hk (by simp)
    | succ k =>
      rw [frameAt, skipFrames, hsplit] at hframe
      exact ih hrest (Nat.le_of_succ_le_succ hk) hframe

/-- A complete frame of a beginning of written frames is the written one. -/
theorem frameAt_of_prefix {fs : List (List β × List β)}
    (hwf : ∀ f ∈ fs, FrameWf headerSize payloadSize f) (hpos : 0 < headerSize)
    (hs : s <+: fs.flatMap fun f => f.1 ++ f.2)
    (h : frameAt headerSize payloadSize k s = some f) : fs[k]? = some f := by
  obtain ⟨t, ht⟩ := hs
  have hall : frameAt headerSize payloadSize k (fs.flatMap fun f => f.1 ++ f.2) = some f :=
    ht ▸ frameAt_append h t
  rcases Nat.lt_or_ge k fs.length with hk | hk
  · rw [List.getElem?_eq_getElem hk, ← hall, frameAt_flatMap hwf hk]
  · rw [frameAt_flatMap_of_le hwf hpos hk] at hall
    exact absurd hall (by simp)

end Foundation
