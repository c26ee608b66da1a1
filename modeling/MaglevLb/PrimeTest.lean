import MaglevLb.Maglev
import Mathlib.Data.Nat.Prime.Basic

/-!
# The primality test of the start-up

`maglev_is_prime` divides by odd numbers as long as their square does not exceed
`n`. The divisor is a 32-bit counter and is squared in 64 bits. A loop that does
not leave within 2^31 steps has come back to a divisor it had before; running out
of that fuel stands for a test that does not return.
-/
namespace MaglevLb.PrimeTest

open Maglev

/-- The loop of `maglev_is_prime` from divisor `d` on. -/
def divideFrom (n : UInt32) : ℕ → UInt32 → Option Bool
  | 0, _ => none
  | fuel + 1, d =>
      if d.toUInt64 * d.toUInt64 ≤ n.toUInt64 then
        if n % d = 0 then some false else divideFrom n fuel (d + 2)
      else some true

def maglevIsPrime (n : UInt32) : Option Bool :=
  if n < 2 then some false
  else if n % 2 = 0 then some (n == 2)
  else divideFrom n (2 ^ 31) 3

/-- The divisors for which that loop evaluates its condition. -/
def divisorsFrom (n : UInt32) : ℕ → UInt32 → List UInt32
  | 0, _ => []
  | fuel + 1, d =>
      d :: if d.toUInt64 * d.toUInt64 ≤ n.toUInt64 ∧ n % d ≠ 0 then divisorsFrom n fuel (d + 2)
        else []

theorem square_toNat (d : UInt32) : (d.toUInt64 * d.toUInt64).toNat = d.toNat * d.toNat := by
  have hd := d.toNat_lt
  have hmul : d.toNat * d.toNat < 2 ^ 32 * 2 ^ 32 := Nat.mul_lt_mul'' hd hd
  rw [UInt64.toNat_mul, UInt32.toNat_toUInt64]
  exact Nat.mod_eq_of_lt hmul

theorem square_le_iff {d n : UInt32} :
    d.toUInt64 * d.toUInt64 ≤ n.toUInt64 ↔ d.toNat * d.toNat ≤ n.toNat := by
  rw [UInt64.le_iff_toNat_le, square_toNat, UInt32.toNat_toUInt64]

theorem mod_eq_zero_iff {d n : UInt32} : n % d = 0 ↔ d.toNat ∣ n.toNat := by
  rw [← UInt32.toNat_inj, UInt32.toNat_mod, UInt32.toNat_zero, Nat.dvd_iff_mod_eq_zero]

/-- A divisor whose square is a 32-bit number is far from the end of the counter. -/
theorem lt_of_square_le {d n : ℕ} (hn : n < 2 ^ 32) (h : d * d ≤ n) : d < 65536 := by
  by_contra hd
  have hsq : 65536 * 65536 ≤ d * d := Nat.mul_le_mul (Nat.le_of_not_lt hd) (Nat.le_of_not_lt hd)
  omega

theorem toNat_add_two {d : UInt32} (h : d.toNat ≤ 65537) : (d + 2).toNat = d.toNat + 2 := by
  have htwo : (2 : UInt32).toNat = 2 := rfl
  rw [UInt32.toNat_add, htwo]
  omega

/-- The loop has ruled out every divisor below `d`. -/
structure Clear (n d : ℕ) : Prop where
  odd : d % 2 = 1
  three_le : 3 ≤ d
  le_minFac : d ≤ n.minFac

theorem clear_three {n : ℕ} (hn : 2 ≤ n) (hodd : n % 2 = 1) : Clear n 3 := by
  refine ⟨rfl, le_rfl, ?_⟩
  have htwo := (Nat.minFac_prime (n := n) (by omega)).two_le
  have hne : n.minFac ≠ 2 := by
    rw [Ne, Nat.minFac_eq_two_iff]
    omega
  omega

theorem Clear.next {n d : ℕ} (h : Clear n d) (hodd : n % 2 = 1) (hd : ¬ d ∣ n) :
    Clear n (d + 2) := by
  have hparity := h.odd
  have hthree := h.three_le
  have hle := h.le_minFac
  refine ⟨by omega, by omega, ?_⟩
  have hself : n.minFac ≠ d := fun he => hd (he ▸ n.minFac_dvd)
  -- an even divisor would make `n` even
  have heven : n.minFac ≠ d + 1 := by
    intro he
    have htwo : 2 ∣ n := (Nat.dvd_of_mod_eq_zero (by omega)).trans (he ▸ n.minFac_dvd)
    omega
  omega

theorem Clear.prime {n d : ℕ} (h : Clear n d) (hn : 2 ≤ n) (hd : n < d * d) : n.Prime := by
  by_contra hprime
  have hsq := Nat.minFac_sq_le_self (by omega) hprime
  rw [Nat.pow_two] at hsq
  have hmul := Nat.mul_le_mul h.le_minFac h.le_minFac
  omega

theorem Clear.not_prime {n d : ℕ} (h : Clear n d) (hsq : d * d ≤ n) (hd : d ∣ n) : ¬ n.Prime := by
  intro hprime
  have hthree := h.three_le
  rcases (Nat.dvd_prime hprime).mp hd with rfl | rfl
  · omega
  · have hmul := Nat.mul_le_mul_right d hthree
    omega

section Loop

variable {n d : UInt32} {fuel : ℕ}

/-- From a divisor up to which all others are ruled out, the loop decides primality. -/
theorem divideFrom_eq (hn : 2 ≤ n.toNat) (hodd : n.toNat % 2 = 1) (h : Clear n.toNat d.toNat)
    (hd : d.toNat ≤ 65537) (hfuel : 65537 - d.toNat < 2 * fuel) :
    divideFrom n fuel d = some (decide n.toNat.Prime) := by
  induction fuel generalizing d with
  | zero => omega
  | succ fuel ih =>
      unfold divideFrom
      split
      · next hsq =>
          rw [square_le_iff] at hsq
          have hlt := lt_of_square_le n.toNat_lt hsq
          split
          · next hmod =>
              have hdvd := mod_eq_zero_iff.mp hmod
              rw [decide_eq_false (h.not_prime hsq hdvd)]
          · next hmod =>
              have hdvd := mt mod_eq_zero_iff.mpr hmod
              have hstep := toNat_add_two (d := d) (by omega)
              have hparity := h.odd
              have hclear : Clear n.toNat (d + 2).toNat := hstep ▸ h.next hodd hdvd
              exact ih hclear (by omega) (by omega)
      · next hsq =>
          rw [square_le_iff, Nat.not_le] at hsq
          rw [decide_eq_true (h.prime hn hsq)]

/-- On the way the divisor stays below the end of the counter. -/
theorem divisorsFrom_le (hd : d.toNat ≤ 65537) : ∀ k ∈ divisorsFrom n fuel d, k.toNat ≤ 65537 := by
  induction fuel generalizing d with
  | zero => exact fun _ hk => nomatch hk
  | succ fuel ih =>
      intro k hk
      unfold divisorsFrom at hk
      rcases List.mem_cons.mp hk with rfl | hk
      · exact hd
      · split at hk
        · next hgo =>
            have hlt := lt_of_square_le n.toNat_lt (square_le_iff.mp hgo.1)
            have hstep := toNat_add_two (d := d) (by omega)
            exact ih (by omega) k hk
        · cases hk

end Loop

theorem prime_iff_of_even {n : UInt32} (h : 2 ∣ n.toNat) : n.toNat.Prime ↔ n = 2 := by
  constructor
  · intro hprime
    have htwo : 2 = n.toNat := (Nat.prime_dvd_prime_iff_eq Nat.prime_two hprime).mp h
    exact UInt32.toNat_inj.mp htwo.symm
  · rintro rfl
    exact Nat.prime_two

theorem maglevIsPrime_eq (n : UInt32) : maglevIsPrime n = some (decide n.toNat.Prime) := by
  have htwo : (2 : UInt32).toNat = 2 := rfl
  unfold maglevIsPrime
  split
  · next hlt =>
      rw [UInt32.lt_iff_toNat_lt, htwo] at hlt
      have hnot : ¬ n.toNat.Prime := fun hprime => absurd hprime.two_le (Nat.not_le.mpr hlt)
      rw [decide_eq_false hnot]
  · next hge =>
      rw [UInt32.lt_iff_toNat_lt, htwo, Nat.not_lt] at hge
      split
      · next heven =>
          have hdvd := mod_eq_zero_iff.mp heven
          rw [htwo] at hdvd
          rw [beq_eq_decide, decide_eq_decide.mpr (prime_iff_of_even hdvd)]
      · next hodd =>
          have hdvd := mt mod_eq_zero_iff.mpr hodd
          rw [htwo] at hdvd
          have hmod : n.toNat % 2 = 1 := by omega
          exact divideFrom_eq hge hmod (clear_three hge hmod) (by decide) (by decide)

theorem maglevIsPrime_iff {n : UInt32} : maglevIsPrime n = some true ↔ n.toNat.Prime := by
  rw [maglevIsPrime_eq, Option.some_inj, decide_eq_true_iff]

/-- The table size with which `main` starts; it refuses any that fails the test. -/
def tableSize (size : UInt32) : Option TableSize :=
  if h : maglevIsPrime size = some true then some ⟨size, maglevIsPrime_iff.mp h⟩ else none

theorem tableSize_of_prime {size : UInt32} (h : size.toNat.Prime) :
    tableSize size = some ⟨size, h⟩ :=
  dif_pos (maglevIsPrime_iff.mpr h)

/-- For every 32-bit number the test returns and is right. Each divisor at which the loop
evaluates its condition is far below the end of the counter, so the next one is two more, and
its square is exact. -/
theorem is_prime_exact (n : UInt32) :
    (∃ answer, maglevIsPrime n = some answer ∧ (answer = true ↔ n.toNat.Prime)) ∧
      ∀ d ∈ divisorsFrom n (2 ^ 31) 3, d.toNat ≤ 65537 ∧ (d + 2).toNat = d.toNat + 2 ∧
        (d.toUInt64 * d.toUInt64).toNat = d.toNat * d.toNat := by
  refine ⟨⟨_, maglevIsPrime_eq n, decide_eq_true_iff⟩, fun d hd => ?_⟩
  have hle := divisorsFrom_le (by decide) d hd
  exact ⟨hle, toNat_add_two hle, square_toNat d⟩

/-- The default table size, and the largest square of an odd 32-bit number. -/
example : maglevIsPrime 65537 = some true ∧ maglevIsPrime 4294836225 = some false := by
  decide +kernel

end MaglevLb.PrimeTest
