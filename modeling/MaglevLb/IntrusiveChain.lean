import Mathlib.Data.Fintype.Card
import Mathlib.Data.List.Nodup

/-!
# Chains of nodes linked through one successor field

Every node of a pool carries a single link. A chain is what a walk from a
starting link meets before it reaches the null link. The walk is deterministic,
so a finite chain is determined by its start and never meets a node twice.
Walks are given fuel; a chain certificate says how much of it is enough.
-/
namespace MaglevLb.IntrusiveChain

variable {α : Type*}

/-- The nodes met when following `next` from the link `p` down to null. -/
def IsChain (next : α → Option α) : Option α → List α → Prop
  | p, [] => p = none
  | p, a :: l => p = some a ∧ IsChain next (next a) l

/-- Follow at most `fuel` links and collect the nodes. -/
def walk (next : α → Option α) : ℕ → Option α → List α
  | 0, _ => []
  | _ + 1, none => []
  | fuel + 1, some a => a :: walk next fuel (next a)

/-- Follow at most `fuel` links up to the first node that passes the test. -/
def firstMatch (next : α → Option α) (test : α → Bool) : ℕ → Option α → Option α
  | 0, _ => none
  | _ + 1, none => none
  | fuel + 1, some a => if test a then some a else firstMatch next test fuel (next a)

@[simp] theorem isChain_nil {next : α → Option α} {p : Option α} :
    IsChain next p [] ↔ p = none := Iff.rfl

@[simp] theorem isChain_cons {next : α → Option α} {p : Option α} {a : α} {l : List α} :
    IsChain next p (a :: l) ↔ p = some a ∧ IsChain next (next a) l := Iff.rfl

theorem IsChain.unique {next : α → Option α} {p : Option α} {l l' : List α}
    (h : IsChain next p l) (h' : IsChain next p l') : l = l' := by
  induction l generalizing p l' with
  | nil =>
      cases l' with
      | nil => rfl
      | cons b l' => simp only [isChain_nil, isChain_cons] at h h'; simp [h] at h'
  | cons a l ih =>
      cases l' with
      | nil => simp only [isChain_nil, isChain_cons] at h h'; simp [h'] at h
      | cons b l' =>
          obtain ⟨rfl, ht⟩ := h
          obtain ⟨hb, ht'⟩ := h'
          obtain rfl : a = b := Option.some.inj hb
          rw [ih ht ht']

/-- The part of a chain behind one of its nodes is the chain of that node's link. -/
theorem IsChain.suffix {next : α → Option α} {p : Option α} {l₁ l₂ : List α} {a : α}
    (h : IsChain next p (l₁ ++ a :: l₂)) : IsChain next (next a) l₂ := by
  induction l₁ generalizing p with
  | nil => exact h.2
  | cons b l₁ ih => exact ih h.2

theorem IsChain.nodup {next : α → Option α} {p : Option α} {l : List α}
    (h : IsChain next p l) : l.Nodup := by
  induction l generalizing p with
  | nil => exact List.nodup_nil
  | cons a l ih =>
      refine List.nodup_cons.mpr ⟨?_, ih h.2⟩
      intro ha
      -- a second visit would make the two tails behind `a` equal
      obtain ⟨l₁, l₂, rfl⟩ := List.append_of_mem ha
      have ht : l₁ ++ a :: l₂ = l₂ := h.2.unique h.2.suffix
      have hlen := congrArg List.length ht
      simp only [List.length_append, List.length_cons] at hlen
      omega

theorem IsChain.congr {next next' : α → Option α} {p : Option α} {l : List α}
    (h : IsChain next p l) (he : ∀ a ∈ l, next' a = next a) : IsChain next' p l := by
  induction l generalizing p with
  | nil => exact h
  | cons a l ih =>
      refine ⟨h.1, ?_⟩
      rw [he a (by simp)]
      exact ih h.2 (fun b hb => he b (by simp [hb]))

theorem IsChain.update [DecidableEq α] {next : α → Option α} {p q : Option α} {l : List α}
    {a : α} (h : IsChain next p l) (ha : a ∉ l) : IsChain (Function.update next a q) p l := by
  apply h.congr
  intro b hb
  have hne : b ≠ a := by
    rintro rfl
    exact ha hb
  exact Function.update_of_ne hne _ _

/-- Redirecting the link of a node past its successor takes that successor out. -/
theorem IsChain.unlink [DecidableEq α] {next : α → Option α} {p : Option α}
    {l₁ l₂ : List α} {a e : α} (h : IsChain next p (l₁ ++ a :: e :: l₂)) :
    IsChain (Function.update next a (next e)) p (l₁ ++ a :: l₂) := by
  induction l₁ generalizing p with
  | nil =>
      have ha : a ∉ l₂ := by
        have hnd := h.nodup
        simp only [List.nil_append, List.nodup_cons, List.mem_cons, not_or] at hnd
        exact hnd.1.2
      refine ⟨h.1, ?_⟩
      rw [Function.update_self]
      exact h.2.2.update ha
  | cons b l₁ ih =>
      have hb : b ≠ a := by
        rintro rfl
        have hnd := h.nodup
        simp at hnd
      refine ⟨h.1, ?_⟩
      rw [Function.update_of_ne hb]
      exact ih h.2

theorem walk_eq {next : α → Option α} {p : Option α} {l : List α} {fuel : ℕ}
    (h : IsChain next p l) (hf : l.length ≤ fuel) : walk next fuel p = l := by
  induction l generalizing p fuel with
  | nil =>
      rw [isChain_nil] at h
      subst h
      cases fuel <;> rfl
  | cons a l ih =>
      obtain ⟨rfl, ht⟩ := h
      cases fuel with
      | zero => simp at hf
      | succ fuel => rw [walk, ih ht (by simpa using hf)]

theorem firstMatch_eq {next : α → Option α} {test : α → Bool} {p : Option α} {l : List α}
    {fuel : ℕ} (h : IsChain next p l) (hf : l.length ≤ fuel) :
    firstMatch next test fuel p = l.find? test := by
  induction l generalizing p fuel with
  | nil =>
      rw [isChain_nil] at h
      subst h
      cases fuel <;> rfl
  | cons a l ih =>
      obtain ⟨rfl, ht⟩ := h
      cases fuel with
      | zero => simp at hf
      | succ fuel =>
          rw [firstMatch, ih ht (by simpa using hf), List.find?_cons]
          cases test a <;> rfl

/-- A chain over a finite pool is no longer than the pool. -/
theorem IsChain.length_le [Fintype α] {next : α → Option α} {p : Option α} {l : List α}
    (h : IsChain next p l) : l.length ≤ Fintype.card α := h.nodup.length_le_card

end MaglevLb.IntrusiveChain
