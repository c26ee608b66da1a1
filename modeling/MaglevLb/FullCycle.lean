import Mathlib.Data.Nat.Prime.Basic
import Mathlib.Data.Nat.ModEq
import Mathlib.Data.Fintype.EquivFin

/-!
# Strided walks around a prime cycle

Stepping by a stride that is neither zero nor the cycle length visits every
position of a prime cycle exactly once before it repeats.
-/
namespace MaglevLb.FullCycle

variable {m skip : ℕ}

/-- Two steps within one turn of a prime cycle land on different positions. -/
theorem stride_injOn (hm : m.Prime) (hpos : 0 < skip) (hlt : skip < m) (offset : ℕ) {i j : ℕ}
    (hi : i < m) (hj : j < m) (h : (offset + i * skip) % m = (offset + j * skip) % m) :
    i = j := by
  have hcop : Nat.gcd m skip = 1 := Nat.coprime_of_lt_prime hpos.ne' hlt hm
  have hmul : i * skip ≡ j * skip [MOD m] := Nat.ModEq.add_left_cancel' offset h
  exact (hmul.cancel_right_of_coprime hcop).eq_of_lt_of_lt hi hj

theorem stride_surjective (hm : m.Prime) (hpos : 0 < skip) (hlt : skip < m) (offset : ℕ)
    {c : ℕ} (hc : c < m) : ∃ j < m, (offset + j * skip) % m = c := by
  let f : Fin m → Fin m := fun j => ⟨(offset + j * skip) % m, Nat.mod_lt _ hm.pos⟩
  have hf : Function.Injective f := by
    intro i j h
    exact Fin.ext (stride_injOn hm hpos hlt offset i.isLt j.isLt (Fin.val_eq_of_eq h))
  obtain ⟨j, hj⟩ := (Finite.injective_iff_surjective.mp hf) ⟨c, hc⟩
  exact ⟨j, j.isLt, Fin.val_eq_of_eq hj⟩

end MaglevLb.FullCycle
