import Mathlib.Data.List.DropRight

/-!
# Threshold crossings of a sequence

A value crosses its threshold where the run of it that the sequence ends with
first has the length the threshold asks for. The value that crossed last is
followed from one element of the sequence to the next.
-/
namespace MaglevLb.Crossings

variable {α : Type*} [DecidableEq α] {thr : α → ℕ} {v w : α} {l : List α}

/-- The length of the run of `v` that the sequence ends with. -/
def streak (v : α) (l : List α) : ℕ := (l.rtakeWhile (· = v)).length

@[simp] theorem streak_nil (v : α) : streak v [] = 0 := by
  simp [streak]

theorem streak_concat (v w : α) (l : List α) :
    streak v (l ++ [w]) = if w = v then streak v l + 1 else 0 := by
  unfold streak
  rw [List.rtakeWhile_concat]
  by_cases h : w = v <;> simp [h]

/-- The last element brings the run of `v` to its threshold. -/
def Crosses (thr : α → ℕ) (v : α) (l : List α) : Prop := streak v l = thr v

instance : Decidable (Crosses thr v l) := inferInstanceAs (Decidable (_ = _))

theorem Crosses.eq_last (hthr : ∀ u, 0 < thr u) (h : Crosses thr v (l ++ [w])) : v = w := by
  by_contra hne
  have hpos := hthr v
  rw [Crosses, streak_concat, if_neg (Ne.symm hne)] at h
  omega

/-- The most recent crossing of the sequence is one of `v`. -/
def LastCrossing (thr : α → ℕ) (v : α) (l : List α) : Prop :=
  ∃ p, p <+: l ∧ Crosses thr v p ∧
    ∀ q, q <+: l → p.length < q.length → ∀ u, ¬ Crosses thr u q

theorem not_lastCrossing_nil (hthr : ∀ u, 0 < thr u) : ¬ LastCrossing thr v [] := by
  rintro ⟨p, hp, hcross, -⟩
  have hpos := hthr v
  rw [List.prefix_nil.mp hp, Crosses, streak_nil] at hcross
  omega

theorem lastCrossing_of_crosses (hthr : ∀ u, 0 < thr u) (h : Crosses thr w (l ++ [w])) :
    LastCrossing thr v (l ++ [w]) ↔ v = w := by
  constructor
  · rintro ⟨p, hp, hcross, hlater⟩
    rcases List.prefix_concat_iff.mp hp with rfl | hp
    · exact hcross.eq_last hthr
    · have hlen : p.length < (l ++ [w]).length := by
        have hle := hp.length_le
        rw [List.length_append, List.length_singleton]
        omega
      exact absurd h (hlater _ List.prefix_rfl hlen w)
  · rintro rfl
    refine ⟨l ++ [v], List.prefix_rfl, h, fun q hq hlen => ?_⟩
    exact absurd hq.length_le (by omega)

theorem lastCrossing_of_not_crosses (hthr : ∀ u, 0 < thr u)
    (h : ¬ Crosses thr w (l ++ [w])) :
    LastCrossing thr v (l ++ [w]) ↔ LastCrossing thr v l := by
  have hno : ∀ u, ¬ Crosses thr u (l ++ [w]) := by
    intro u hu
    obtain rfl := hu.eq_last hthr
    exact h hu
  constructor
  · rintro ⟨p, hp, hcross, hlater⟩
    rcases List.prefix_concat_iff.mp hp with rfl | hp
    · exact absurd hcross (hno v)
    · exact ⟨p, hp, hcross, fun q hq => hlater q (hq.trans (List.prefix_append ..))⟩
  · rintro ⟨p, hp, hcross, hlater⟩
    refine ⟨p, hp.trans (List.prefix_append ..), hcross, fun q hq hlen => ?_⟩
    rcases List.prefix_concat_iff.mp hq with rfl | hq
    · exact hno
    · exact hlater q hq hlen

end MaglevLb.Crossings
