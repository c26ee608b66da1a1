import Mathlib.Algebra.Order.BigOperators.Group.Finset
import Mathlib.Data.Fintype.BigOperators

/-!
# Things with one owner

A finite family of places holds things in lists. The census of a thing counts
its occurrences over all places. When it is one, the thing is in exactly one
place, once.
-/
namespace MaglevLb.Ownership

variable {ι α : Type*} [Fintype ι] [DecidableEq α]

/-- How often a thing occurs over all places. -/
def census (own : ι → List α) (a : α) : ℕ := ∑ i, (own i).count a

theorem count_le_census (own : ι → List α) (a : α) (i : ι) : (own i).count a ≤ census own a :=
  Finset.single_le_sum (f := fun i => (own i).count a) (fun _ _ => Nat.zero_le _)
    (Finset.mem_univ i)

theorem mem_of_census_pos {own : ι → List α} {a : α} (h : 0 < census own a) : ∃ i, a ∈ own i := by
  by_contra hne
  push Not at hne
  have hzero : census own a = 0 := Finset.sum_eq_zero fun i _ => List.count_eq_zero.mpr (hne i)
  omega

theorem nodup_of_census {own : ι → List α} (h : ∀ a, census own a ≤ 1) (i : ι) :
    (own i).Nodup :=
  List.nodup_iff_count_le_one.mpr fun a => (count_le_census own a i).trans (h a)

variable [DecidableEq ι]

/-- No thing with a census of at most one is in two places. -/
theorem eq_of_mem {own : ι → List α} {a : α} (h : census own a ≤ 1) {i j : ι} (hi : a ∈ own i)
    (hj : a ∈ own j) : i = j := by
  by_contra hne
  have hsum : (own i).count a + (own j).count a ≤ census own a := by
    rw [census, ← Finset.add_sum_erase _ _ (Finset.mem_univ i)]
    exact Nat.add_le_add_left (Finset.single_le_sum (f := fun i => (own i).count a)
      (fun _ _ => Nat.zero_le _) (Finset.mem_erase.mpr ⟨Ne.symm hne, Finset.mem_univ j⟩)) _
  have h₁ := List.count_pos_iff.mpr hi
  have h₂ := List.count_pos_iff.mpr hj
  omega

theorem existsUnique_of_census {own : ι → List α} {a : α} (h : census own a = 1) :
    ∃! i, a ∈ own i := by
  have hpos : 0 < census own a := by omega
  obtain ⟨i, hi⟩ := mem_of_census_pos hpos
  exact ⟨i, hi, fun j hj => eq_of_mem (by omega) hj hi⟩

end MaglevLb.Ownership
