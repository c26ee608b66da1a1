import Mathlib.Data.List.Basic

/-!
# Linear scans over a fixed array of slots

A loop that walks an array, changes the first slot passing a test and breaks.
-/
namespace MaglevLb.SlotScan

variable {α : Type*} {p : α → Bool} {f : α → α}

/-- Change the first slot that passes the test; `none` when no slot does. -/
def rewriteFirst (p : α → Bool) (f : α → α) : List α → Option (List α)
  | [] => none
  | a :: l => if p a then some (f a :: l) else (rewriteFirst p f l).map (a :: ·)

theorem rewriteFirst_eq_none {l : List α} :
    rewriteFirst p f l = none ↔ ∀ a ∈ l, p a = false := by
  induction l with
  | nil => simp [rewriteFirst]
  | cons a l ih =>
      unfold rewriteFirst
      cases ha : p a <;> simp [ha, ih]

/-- The scan splits the array at the slot it changes. -/
theorem rewriteFirst_split {l l' : List α} (h : rewriteFirst p f l = some l') :
    ∃ l₁ a l₂, l = l₁ ++ a :: l₂ ∧ l' = l₁ ++ f a :: l₂ ∧ p a = true ∧
      ∀ x ∈ l₁, p x = false := by
  induction l generalizing l' with
  | nil => simp [rewriteFirst] at h
  | cons a l ih =>
      unfold rewriteFirst at h
      cases ha : p a with
      | true =>
          simp only [ha, if_true, Option.some.injEq] at h
          exact ⟨[], a, l, rfl, h.symm, ha, by simp⟩
      | false =>
          simp only [ha, Bool.false_eq_true, if_false, Option.map_eq_some_iff] at h
          obtain ⟨t, ht, rfl⟩ := h
          obtain ⟨l₁, b, l₂, rfl, rfl, hb, hfirst⟩ := ih ht
          refine ⟨a :: l₁, b, l₂, rfl, rfl, hb, ?_⟩
          intro x hx
          rcases List.mem_cons.mp hx with rfl | hx
          · exact ha
          · exact hfirst x hx

theorem rewriteFirst_append {l₁ l₂ : List α} {a : α} (hfirst : ∀ x ∈ l₁, p x = false)
    (ha : p a = true) : rewriteFirst p f (l₁ ++ a :: l₂) = some (l₁ ++ f a :: l₂) := by
  induction l₁ with
  | nil => simp [rewriteFirst, ha]
  | cons b l₁ ih =>
      have hb : p b = false := hfirst b (by simp)
      have ht := ih (fun x hx => hfirst x (by simp [hx]))
      simp only [List.cons_append, rewriteFirst, hb, Bool.false_eq_true, if_false, ht,
        Option.map_some]

theorem rewriteFirst_length {l l' : List α} (h : rewriteFirst p f l = some l') :
    l'.length = l.length := by
  obtain ⟨l₁, a, l₂, rfl, rfl, -⟩ := rewriteFirst_split h
  simp

end MaglevLb.SlotScan
