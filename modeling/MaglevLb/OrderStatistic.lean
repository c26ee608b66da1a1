import Mathlib.Algebra.BigOperators.Group.Finset.Piecewise
import Mathlib.Order.Interval.Finset.Fin

/-!
# Order statistics and histograms

The rank of a value among sorted items is how many of them are not above it. Items counted by
class, with classes in the order of the items, still tell the class of the item of any rank:
the first class up to which that many have been counted.
-/
namespace MaglevLb.OrderStatistic

variable {α β : Type*} [LinearOrder β]

/-- The items that are at most `b` are the first ones. -/
theorem getElem_le_iff {l : List β} (h : l.Pairwise (· ≤ ·)) {k : ℕ} (hk : k < l.length) (b : β) :
    l[k] ≤ b ↔ k < l.countP (· ≤ b) := by
  induction l generalizing k with
  | nil => cases hk
  | cons a l ih =>
      obtain ⟨hfirst, hrest⟩ := List.pairwise_cons.mp h
      by_cases ha : a ≤ b
      · rw [List.countP_cons_of_pos (by simpa using ha)]
        cases k with
        | zero => simpa using ha
        | succ k =>
            rw [List.getElem_cons_succ, ih hrest (Nat.lt_of_succ_lt_succ hk), Nat.succ_lt_succ_iff]
      · have habove : ∀ x ∈ a :: l, ¬ x ≤ b := by
          intro x hx
          rcases List.mem_cons.mp hx with rfl | hx
          · exact ha
          · exact fun hle => ha ((hfirst x hx).trans hle)
        have hnone : (a :: l).countP (· ≤ b) = 0 := by
          rw [List.countP_eq_zero]
          simpa using habove
        rw [hnone]
        exact iff_of_false (habove _ (List.getElem_mem hk)) (Nat.not_lt_zero _)

section Histogram

variable {n : ℕ} (f : α → Fin n) (items : List α)

/-- How many items are in a class. -/
def inClass (i : Fin n) : ℕ := items.countP fun a => f a = i

/-- The classes up to `i` hold the items that are in none above it. -/
theorem sum_inClass (i : Fin n) :
    ∑ j ∈ Finset.Iic i, inClass f items j = items.countP fun a => f a ≤ i := by
  unfold inClass
  induction items with
  | nil => simp
  | cons a items ih =>
      simp only [List.countP_cons, Finset.sum_add_distrib, ih, decide_eq_true_eq]
      rw [Finset.sum_ite_eq]
      simp only [Finset.mem_Iic]

variable {f items}

/-- The class of the item of a rank is the first up to which as many have been counted. -/
theorem rank_le_iff [LinearOrder α] (hf : Monotone f) {sorted : List α}
    (hsorted : sorted.Pairwise (· ≤ ·)) (hperm : sorted.Perm items) {k : ℕ}
    (hk : k < sorted.length) (i : Fin n) :
    f sorted[k] ≤ i ↔ k < ∑ j ∈ Finset.Iic i, inClass f items j := by
  have hmap : (sorted.map f).Pairwise (· ≤ ·) := hsorted.map f fun a b hab => hf hab
  have hrank := getElem_le_iff hmap (k := k) (by rwa [List.length_map]) i
  rw [List.getElem_map, List.countP_map] at hrank
  rw [hrank, sum_inClass, ← hperm.countP_eq]
  rfl

end Histogram

end MaglevLb.OrderStatistic
