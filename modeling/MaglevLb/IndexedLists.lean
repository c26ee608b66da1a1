import Mathlib.Data.Int.CardIntervalMod
import Mathlib.Data.List.Basic

/-!
# Lists addressed by index

Tasks, connections and histories are kept in lists, and an entry is known by its place. A history
grows at its end, an entry changes or goes, and the entries are taken in turn.
-/
namespace MaglevLb.IndexedLists

variable {α : Type*} {l : List α} {k : ℕ} {a : α}

/-- What stands in a list stays there when the list grows. -/
theorem getElem?_of_prefix {l' : List α} (h : l <+: l') (hk : l[k]? = some a) :
    l'[k]? = some a := by
  obtain ⟨hlt, rfl⟩ := List.getElem?_eq_some_iff.mp hk
  exact List.prefix_iff_getElem?.mp h k hlt

theorem length_eraseIdx_of_getElem? (h : l[k]? = some a) :
    l.length = (l.eraseIdx k).length + 1 := by
  obtain ⟨hlt, -⟩ := List.getElem?_eq_some_iff.mp h
  rw [List.length_eraseIdx_of_lt hlt]
  omega

theorem forall_mem_modify {P : α → Prop} {f : α → α} (hf : ∀ a, P a → P (f a))
    (h : ∀ a ∈ l, P a) (k : ℕ) : ∀ a ∈ l.modify k f, P a := by
  induction l generalizing k with
  | nil => simp
  | cons a l ih =>
      obtain ⟨ha, hl⟩ := List.forall_mem_cons.mp h
      cases k with
      | zero => exact List.forall_mem_cons.mpr ⟨hf a ha, hl⟩
      | succ k => exact List.forall_mem_cons.mpr ⟨ha, ih hl k⟩

/-- How many of a list have something, after one of them has changed. -/
theorem countP_set_add (p : α → Bool) (h : l[k]? = some a) (b : α) :
    (l.set k b).countP p + (p a).toNat = l.countP p + (p b).toNat := by
  obtain ⟨hk, rfl⟩ := List.getElem?_eq_some_iff.mp h
  have hpos : p l[k] = true → 0 < l.countP p := fun hp =>
    List.countP_pos_iff.mpr ⟨l[k], List.getElem_mem hk, hp⟩
  rw [List.countP_set hk]
  cases hp : p l[k] with
  | false => cases p b <;> simp
  | true =>
      have := hpos hp
      cases p b <;> simp only [Bool.toNat_true, Bool.toNat_false, if_true, Bool.false_eq_true,
        if_false] <;> omega

/-- Of `n` entries taken in turn, each comes up as often as the others, or once more. -/
theorem count_turns [DecidableEq α] (hl : l.Nodup) (ha : a ∈ l) (r n : ℕ) :
    n / l.length ≤ ((List.range n).map fun j => l[(r + j) % l.length]?).count (some a) ∧
      ((List.range n).map fun j => l[(r + j) % l.length]?).count (some a) ≤ n / l.length + 1 := by
  have hpos : 0 < l.length := List.length_pos_of_mem ha
  obtain ⟨m, hm, rfl⟩ := List.mem_iff_getElem.mp ha
  -- the residue of the turns that hit place `m`
  have hturn (j : ℕ) : l[(r + j) % l.length]? = some l[m] ↔
      j ≡ m + (l.length - 1) * r [MOD l.length] := by
    have hlt : (r + j) % l.length < l.length := Nat.mod_lt _ hpos
    have hshift : r + (m + (l.length - 1) * r) = m + l.length * r := by
      obtain ⟨k, hk⟩ := Nat.exists_eq_add_of_lt hpos
      rw [hk, Nat.zero_add, Nat.add_sub_cancel]
      ring
    rw [List.getElem?_eq_getElem hlt, Option.some.injEq, hl.getElem_inj_iff]
    calc (r + j) % l.length = m ↔ r + j ≡ m + l.length * r [MOD l.length] := by
          rw [Nat.ModEq, Nat.add_mul_mod_self_left, Nat.mod_eq_of_lt hm]
      _ ↔ j ≡ m + (l.length - 1) * r [MOD l.length] := by
          rw [← hshift]
          exact ⟨Nat.ModEq.add_left_cancel' r, Nat.ModEq.add_left r⟩
  have hcount : ((List.range n).map fun j => l[(r + j) % l.length]?).count (some l[m]) =
      n.count (· ≡ m + (l.length - 1) * r [MOD l.length]) := by
    rw [List.count, List.countP_map, Nat.count]
    exact List.countP_congr fun j _ => by simp [hturn]
  rw [hcount, Nat.count_modEq_card n hpos]
  split <;> omega

end MaglevLb.IndexedLists
