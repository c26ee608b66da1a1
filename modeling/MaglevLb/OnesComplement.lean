import MaglevLb.Bytes
import Mathlib.Data.Nat.ModEq

/-!
# One's-complement sums of 16-bit words

A byte string is read as big-endian words, the last one padded with a zero
byte. Folding adds the carry above bit 16 back in until none is left. The
folded value is the representative of the sum modulo 65535 in 1 .. 65535,
except that only an empty sum folds to zero; this is what makes a stored
complement verify.
-/
namespace MaglevLb.OnesComplement
open Bytes

/-- The unbounded sum of the words of a byte string. -/
def wordSum : List UInt8 → ℕ
  | [] => 0
  | [a] => a.toNat * 256
  | a :: b :: rest => (be16 a b).toNat + wordSum rest

theorem wordSum_le (l : List UInt8) : wordSum l ≤ 65535 * ((l.length + 1) / 2) := by
  induction l using wordSum.induct with
  | case1 => simp [wordSum]
  | case2 a =>
      have ha := a.toNat_lt
      simp only [wordSum, List.length_singleton]
      omega
  | case3 a b rest ih =>
      have hw := (be16 a b).toNat_lt
      simp only [wordSum, List.length_cons]
      omega

/-- Words are aligned at even offsets. -/
theorem wordSum_append {l : List UInt8} (l' : List UInt8) (h : l.length % 2 = 0) :
    wordSum (l ++ l') = wordSum l + wordSum l' := by
  induction l using wordSum.induct with
  | case1 => simp [wordSum]
  | case2 a => simp at h
  | case3 a b rest ih =>
      have hr : rest.length % 2 = 0 := by
        simp only [List.length_cons] at h
        omega
      simp only [List.cons_append, wordSum, ih hr]
      omega

/-- Add the carry back in until the sum fits in 16 bits. -/
def foldCarry (sum : ℕ) : ℕ :=
  if sum / 65536 = 0 then sum else foldCarry (sum % 65536 + sum / 65536)
termination_by sum
decreasing_by omega

theorem foldCarry_lt (s : ℕ) : foldCarry s < 65536 := by
  induction s using foldCarry.induct with
  | case1 s h => rw [foldCarry, if_pos h]; omega
  | case2 s h ih => rw [foldCarry, if_neg h]; exact ih

theorem foldCarry_mod (s : ℕ) : foldCarry s % 65535 = s % 65535 := by
  induction s using foldCarry.induct with
  | case1 s h => rw [foldCarry, if_pos h]
  | case2 s h ih => rw [foldCarry, if_neg h, ih]; omega

theorem foldCarry_pos {s : ℕ} (hs : 0 < s) : 0 < foldCarry s := by
  induction s using foldCarry.induct with
  | case1 s h => rwa [foldCarry, if_pos h]
  | case2 s h ih => rw [foldCarry, if_neg h]; exact ih (by omega)

/-- Adding the complement of the folded sum folds to all ones. -/
theorem foldCarry_add_complement (s : ℕ) : foldCarry (s + (65535 - foldCarry s)) = 65535 := by
  have hlt := foldCarry_lt s
  have hmod := foldCarry_mod s
  have hpos : 0 < s + (65535 - foldCarry s) := by
    rcases Nat.eq_zero_or_pos s with rfl | hs
    · rw [foldCarry]
      simp
    · omega
  have hlt' := foldCarry_lt (s + (65535 - foldCarry s))
  have hmod' := foldCarry_mod (s + (65535 - foldCarry s))
  have hpos' := foldCarry_pos hpos
  omega

/-- A 32-bit sum leaves room for that complement. -/
theorem add_complement_lt {s : ℕ} (h : s < 2 ^ 32) : s + (65535 - foldCarry s) < 2 ^ 32 := by
  have hlt := foldCarry_lt s
  have hmod := foldCarry_mod s
  rcases Nat.eq_zero_or_pos s with rfl | hs
  · omega
  · have hpos := foldCarry_pos hs
    omega

/-- The folded value is the only one of its kind. -/
theorem eq_foldCarry {x s : ℕ} (hlt : x < 65536) (hmod : x % 65535 = s % 65535)
    (hzero : x = 0 ↔ s = 0) : x = foldCarry s := by
  have hlt' := foldCarry_lt s
  have hmod' := foldCarry_mod s
  rcases Nat.eq_zero_or_pos s with rfl | hs
  · rw [hzero.mpr rfl, foldCarry]
    rfl
  · have hpos := foldCarry_pos hs
    omega

/-! ### Sums of words -/

/-- One's-complement addition: a carry out of the top bit comes in at the bottom. -/
def endAroundAdd (a b : UInt16) : UInt16 :=
  if a.toNat + b.toNat < 65536 then a + b else a + b + 1

def onesSum (ws : List UInt16) : UInt16 := ws.foldl endAroundAdd 0

/-- The big-endian words of a byte string, the last one padded with a zero byte. -/
def words : List UInt8 → List UInt16
  | [] => []
  | [a] => [be16 a 0]
  | a :: b :: rest => be16 a b :: words rest

theorem sum_words (l : List UInt8) : ((words l).map UInt16.toNat).sum = wordSum l := by
  induction l using wordSum.induct with
  | case1 => rfl
  | case2 a => simp [words, wordSum, be16_toNat]
  | case3 a b rest ih => rw [words, List.map_cons, List.sum_cons, ih, wordSum]

theorem endAroundAdd_toNat (a b : UInt16) :
    (endAroundAdd a b).toNat = foldCarry (a.toNat + b.toNat) := by
  have ha := a.toNat_lt
  have hb := b.toNat_lt
  have hone : (1 : UInt16).toNat = 1 := rfl
  unfold endAroundAdd
  split
  · next h =>
      rw [UInt16.toNat_add, Nat.mod_eq_of_lt h]
      exact eq_foldCarry h rfl Iff.rfl
  · next h =>
      rw [UInt16.toNat_add, UInt16.toNat_add, hone]
      exact eq_foldCarry (by omega) (by omega) (by omega)

/-- Folding may be put off to the end of a sum. -/
theorem foldCarry_add (s t : ℕ) : foldCarry (foldCarry s + t) = foldCarry (s + t) := by
  have hmod := foldCarry_mod s
  refine eq_foldCarry (foldCarry_lt _) ?_ ?_
  · rw [foldCarry_mod]
    omega
  · have hfold : ∀ u, foldCarry u = 0 ↔ u = 0 := by
      intro u
      constructor
      · intro hu
        by_contra hne
        have hpos := foldCarry_pos (Nat.pos_of_ne_zero hne)
        omega
      · rintro rfl
        rw [foldCarry]
        rfl
    rw [hfold, Nat.add_eq_zero_iff, Nat.add_eq_zero_iff, hfold]

theorem foldl_endAroundAdd (ws : List UInt16) (a : UInt16) :
    (ws.foldl endAroundAdd a).toNat = foldCarry (a.toNat + (ws.map UInt16.toNat).sum) := by
  induction ws generalizing a with
  | nil => exact eq_foldCarry a.toNat_lt rfl Iff.rfl
  | cons w ws ih =>
      rw [List.foldl_cons, ih, endAroundAdd_toNat, foldCarry_add, List.map_cons, List.sum_cons,
        Nat.add_assoc]

/-- Carries folded in at the end or on the way: the sum is the same. -/
theorem onesSum_words (l : List UInt8) : (onesSum (words l)).toNat = foldCarry (wordSum l) := by
  rw [onesSum, foldl_endAroundAdd, sum_words, UInt16.toNat_zero, Nat.zero_add]

/-- One turn of the folding loop. -/
def carryStep (s : ℕ) : ℕ := s % 65536 + s / 65536

/-- The loop leaves a 32-bit sum after two turns at the latest. -/
theorem foldCarry_eq_iterate {s : ℕ} (h : s < 2 ^ 32) :
    ∃ k ≤ 2, foldCarry s = carryStep^[k] s ∧ ∀ j < k, carryStep^[j] s / 65536 ≠ 0 := by
  by_cases h₀ : s / 65536 = 0
  · refine ⟨0, by omega, ?_, fun j hj => absurd hj (Nat.not_lt_zero j)⟩
    rw [foldCarry, if_pos h₀]
    rfl
  · by_cases h₁ : carryStep s / 65536 = 0
    · refine ⟨1, by omega, ?_, fun j hj => ?_⟩
      · rw [foldCarry, if_neg h₀, ← carryStep, foldCarry, if_pos h₁]
        rfl
      · obtain rfl : j = 0 := by omega
        exact h₀
    · have h₂ : carryStep (carryStep s) / 65536 = 0 := by
        unfold carryStep at h₁ ⊢
        omega
      refine ⟨2, le_rfl, ?_, fun j hj => ?_⟩
      · rw [foldCarry, if_neg h₀, ← carryStep, foldCarry, if_neg h₁, ← carryStep, foldCarry,
          if_pos h₂]
        rfl
      · obtain rfl | rfl : j = 0 ∨ j = 1 := by omega
        · exact h₀
        · exact h₁

end MaglevLb.OnesComplement
