import Mathlib.Algebra.BigOperators.Group.List.Basic
import Mathlib.Order.Lattice

/-!
# Windows that slide along a timeline

Items with a time come in order. A window drops items from its front as long as they
are older than a cutoff that never moves back, so it holds what has come since the
cutoff, and in another kind of window the newest item before that as well. A total that
is kept up to date, by adding what comes and subtracting what is dropped, is the total
over the items held.
-/
namespace MaglevLb.SlidingWindow

variable {τ α : Type*} [LinearOrder τ]

/-- No item is older than one before it. -/
def Ordered (items : List (τ × α)) : Prop := items.Pairwise fun p q => p.1 ≤ q.1

theorem Ordered.concat {items : List (τ × α)} (h : Ordered items) {t : τ}
    (ht : ∀ p ∈ items.getLast?, p.1 ≤ t) (a : α) : Ordered (items ++ [(t, a)]) := by
  refine List.pairwise_append.mpr ⟨h, List.pairwise_singleton .., fun p hp q hq => ?_⟩
  rw [List.mem_singleton.mp hq]
  rcases List.eq_nil_or_concat' items with rfl | ⟨init, l, rfl⟩
  · cases hp
  · have hlast : l.1 ≤ t := ht l List.getLast?_concat
    rcases List.mem_append.mp hp with hp | hp
    · exact ((List.pairwise_append.mp h).2.2 p hp l List.mem_cons_self).trans hlast
    · rwa [List.mem_singleton.mp hp]

/-- The items at or after the cutoff. -/
def since (cutoff : τ) (items : List (τ × α)) : List (τ × α) :=
  items.filter fun p => cutoff ≤ p.1

/-- The items dropped from the front, and those left. -/
def expire (cutoff : τ) (items : List (τ × α)) : List (τ × α) × List (τ × α) :=
  items.span fun p => p.1 < cutoff

theorem since_append (cutoff : τ) (items items' : List (τ × α)) :
    since cutoff (items ++ items') = since cutoff items ++ since cutoff items' :=
  List.filter_append ..

theorem since_map {β : Type*} (f : α → β) (cutoff : τ) (items : List (τ × α)) :
    since cutoff (items.map (Prod.map id f)) = (since cutoff items).map (Prod.map id f) :=
  List.filter_map

theorem expire_eq {cutoff : τ} {items : List (τ × α)} (h : Ordered items) :
    expire cutoff items = (items.filter fun p => p.1 < cutoff, since cutoff items) := by
  rw [expire, List.span_eq_takeWhile_dropWhile]
  induction items with
  | nil => rfl
  | cons p items ih =>
      obtain ⟨hfirst, hrest⟩ := List.pairwise_cons.mp h
      by_cases hold : p.1 < cutoff
      · have hih := ih hrest
        rw [Prod.mk.injEq] at hih
        rw [List.takeWhile_cons_of_pos (by simpa using hold),
          List.dropWhile_cons_of_pos (by simpa using hold), hih.1, hih.2,
          List.filter_cons_of_pos (by simpa using hold), since, since,
          List.filter_cons_of_neg (by simpa using hold)]
      · -- the first item is in the window, and so are all that came after it
        have hnone : ∀ q ∈ p :: items, ¬ q.1 < cutoff := by
          intro q hq
          rcases List.mem_cons.mp hq with rfl | hq
          · exact hold
          · exact fun hlt => hold ((hfirst q hq).trans_lt hlt)
        rw [List.takeWhile_cons_of_neg (by simpa using hold),
          List.dropWhile_cons_of_neg (by simpa using hold),
          List.filter_eq_nil_iff.mpr fun q hq => by simpa using hnone q hq, since,
          List.filter_eq_self.mpr fun q hq => by simpa using hnone q hq]

theorem since_since {cutoff cutoff' : τ} (h : cutoff ≤ cutoff') (items : List (τ × α)) :
    since cutoff' (since cutoff items) = since cutoff' items := by
  rw [since, since, List.filter_filter]
  refine List.filter_congr fun p _ => ?_
  rw [Bool.and_eq_left_iff_imp]
  simpa using h.trans

/-- A window that holds what has come since a cutoff, slid on to a later one. -/
theorem expire_append {cutoff cutoff' : τ} {items new : List (τ × α)} (h : cutoff ≤ cutoff')
    (hitems : Ordered (items ++ new)) :
    (expire cutoff' (since cutoff items ++ new)).2 = since cutoff' (items ++ new) := by
  have hsub : (since cutoff items ++ new).Sublist (items ++ new) :=
    List.filter_sublist.append (List.Sublist.refl new)
  have hordered : Ordered (since cutoff items ++ new) := List.Pairwise.sublist hsub hitems
  rw [expire_eq hordered, since_append, since_append, since_since h]

section Base

/-- The newest item at or before the cutoff, and the items after the cutoff. -/
def sinceBase (cutoff : τ) (items : List (τ × α)) : List (τ × α) :=
  (items.filter fun p => p.1 ≤ cutoff).getLast?.toList ++ items.filter fun p => cutoff < p.1

theorem Ordered.split {items : List (τ × α)} (h : Ordered items) (cutoff : τ) :
    ((items.filter fun p => p.1 ≤ cutoff) ++ items.filter fun p => cutoff < p.1) = items := by
  induction items with
  | nil => rfl
  | cons p items ih =>
      obtain ⟨hfirst, hrest⟩ := List.pairwise_cons.mp h
      by_cases hold : p.1 ≤ cutoff
      · rw [List.filter_cons_of_pos (by simpa using hold),
          List.filter_cons_of_neg (by simpa using hold), List.cons_append, ih hrest]
      · -- the first item is after the cutoff, and so are all that came after it
        have hafter : ∀ q ∈ p :: items, cutoff < q.1 := by
          intro q hq
          rcases List.mem_cons.mp hq with rfl | hq
          · exact not_le.mp hold
          · exact (not_le.mp hold).trans_le (hfirst q hq)
        rw [List.filter_eq_nil_iff.mpr fun q hq => by simpa using hafter q hq,
          List.filter_eq_self.mpr fun q hq => by simpa using hafter q hq, List.nil_append]

/-- A base is superseded by one that is not after the cutoff either. -/
theorem sinceBase_cons_cons {cutoff : τ} {p q : τ × α} (hp : p.1 ≤ cutoff) (hq : q.1 ≤ cutoff)
    (items : List (τ × α)) :
    sinceBase cutoff (p :: q :: items) = sinceBase cutoff (q :: items) := by
  simp only [sinceBase, List.filter_cons, hp, hq, hp.not_gt, decide_true, decide_false, if_true,
    List.getLast?_cons_cons, Bool.false_eq_true, if_false]

/-- The first item is the base, or after the cutoff as well. -/
theorem sinceBase_cons_eq_self {cutoff : τ} {items : List (τ × α)}
    (h : ∀ q ∈ items, cutoff < q.1) (p : τ × α) : sinceBase cutoff (p :: items) = p :: items := by
  have holder : (items.filter fun q => q.1 ≤ cutoff) = [] :=
    List.filter_eq_nil_iff.mpr fun q hq => by simpa using h q hq
  have hnewer : (items.filter fun q => cutoff < q.1) = items :=
    List.filter_eq_self.mpr fun q hq => by simpa using h q hq
  by_cases hp : p.1 ≤ cutoff
  · simp [sinceBase, hp, holder, hnewer]
  · simp [sinceBase, List.filter_cons, hp, holder, hnewer]

theorem sinceBase_sublist {items : List (τ × α)} (h : Ordered items) (cutoff : τ) :
    (sinceBase cutoff items).Sublist items := by
  have hbase : ∀ l : List (τ × α), l.getLast?.toList.Sublist l := by
    intro l
    rcases List.eq_nil_or_concat' l with rfl | ⟨init, p, rfl⟩
    · exact List.Sublist.refl _
    · rw [List.getLast?_concat]
      exact List.sublist_append_right ..
  nth_rewrite 2 [← h.split cutoff]
  exact (hbase _).append (List.Sublist.refl _)

/-- The newest item stays the newest if it is after the cutoff. -/
theorem getLast?_sinceBase {cutoff : τ} {items : List (τ × α)}
    (h : ∀ p ∈ items.getLast?, cutoff < p.1) :
    (sinceBase cutoff items).getLast? = items.getLast? := by
  rcases List.eq_nil_or_concat' items with rfl | ⟨init, p, rfl⟩
  · rfl
  · have hp : cutoff < p.1 := h p List.getLast?_concat
    simp [sinceBase, hp]

/-- A window with its base, slid on to a later cutoff: what it dropped is not missed. -/
theorem sinceBase_append {cutoff cutoff' : τ} {items : List (τ × α)} (h : cutoff ≤ cutoff')
    (hitems : Ordered items) (new : List (τ × α)) :
    sinceBase cutoff' (sinceBase cutoff items ++ new) = sinceBase cutoff' (items ++ new) := by
  let older := items.filter fun p => p.1 ≤ cutoff
  have hstays : ∀ l : List (τ × α), (∀ p ∈ l, p ∈ older) →
      (l.filter fun p => p.1 ≤ cutoff') = l ∧ (l.filter fun p => cutoff' < p.1) = [] := by
    intro l hl
    have hle : ∀ p ∈ l, p.1 ≤ cutoff' := fun p hp =>
      (of_decide_eq_true (List.mem_filter.mp (hl p hp)).2 : p.1 ≤ cutoff).trans h
    exact ⟨List.filter_eq_self.mpr fun p hp => by simpa using hle p hp,
      List.filter_eq_nil_iff.mpr fun p hp => by simpa using hle p hp⟩
  have hbase := hstays older.getLast?.toList fun p hp =>
    List.mem_of_getLast? (Option.mem_toList.mp hp)
  have holder := hstays older fun p hp => hp
  have hlast : older.getLast?.toList.getLast? = older.getLast? := by cases older.getLast? <;> rfl
  nth_rewrite 2 [← hitems.split cutoff]
  simp only [sinceBase, List.filter_append, List.getLast?_append] at hbase holder ⊢
  rw [hbase.1, hbase.2, holder.1, holder.2, hlast]

end Base

section Total

variable {M : Type*} [AddCommGroup M] (weight : α → M)

/-- The total over some items. -/
def total (items : List (τ × α)) : M := (items.map fun p => weight p.2).sum

omit [LinearOrder τ] in
theorem total_append (items items' : List (τ × α)) :
    total weight (items ++ items') = total weight items + total weight items' := by
  rw [total, List.map_append, List.sum_append]
  rfl

theorem total_expire (cutoff : τ) (items : List (τ × α)) :
    total weight items - total weight (expire cutoff items).1 =
      total weight (expire cutoff items).2 := by
  have hsplit : (expire cutoff items).1 ++ (expire cutoff items).2 = items := by
    rw [expire, List.span_eq_takeWhile_dropWhile]
    exact List.takeWhile_append_dropWhile
  nth_rewrite 1 [← hsplit]
  rw [total_append, add_sub_cancel_left]

end Total

end MaglevLb.SlidingWindow
