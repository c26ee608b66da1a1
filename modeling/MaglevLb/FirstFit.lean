import Mathlib.Data.Finset.Max
import Mathlib.Data.Finset.Card
import Mathlib.Data.List.Basic
import Mathlib.Data.Set.Card

/-!
# First fit with wishes

Places are given away one after the other. Who comes gets the place that was wished for if it is
still free, and the first free place otherwise. A given place is left over exactly if nobody
wishes for it and the others find enough room before it: all but those who are the first to wish
for a free place behind it.
-/
namespace MaglevLb.FirstFit

variable {ι α : Type*} [LinearOrder α]

/-- The places that are free after one has come. -/
def place (wish : Option α) (free : Finset α) : Finset α :=
  match wish.filter (· ∈ free) with
  | some k => free.erase k
  | none => if h : free.Nonempty then free.erase (free.min' h) else free

def places (wish : ι → Option α) (free : Finset α) (l : List ι) : Finset α :=
  l.foldl (fun free a => place (wish a) free) free

section Place

variable {wish : Option α} {free : Finset α} {k m : α}

theorem place_wished (hk : k ∈ free) : place (some k) free = free.erase k := by
  simp [place, Option.filter, hk]

theorem place_first (hwish : ∀ j ∈ wish, j ∉ free) (hk : k ∈ free) (hfirst : ∀ j ∈ free, k ≤ j) :
    place wish free = free.erase k := by
  have hnone : wish.filter (· ∈ free) = none := by
    rw [Option.filter_eq_none_iff]
    exact fun j hj => by simpa using hwish j hj
  have hmin : free.min' ⟨k, hk⟩ = k := le_antisymm (free.min'_le k hk) (hfirst _ (free.min'_mem _))
  simp only [place, hnone]
  rw [dif_pos ⟨k, hk⟩, hmin]

theorem place_empty (wish : Option α) : place wish ∅ = ∅ := by
  cases wish <;> simp [place, Option.filter]

theorem place_cases (h : free.Nonempty) (wish : Option α) :
    ∃ k ∈ free, place wish free = free.erase k ∧
      (wish = some k ∨ (∀ j ∈ wish, j ∉ free) ∧ ∀ j ∈ free, k ≤ j) := by
  by_cases hwish : ∃ k ∈ wish, k ∈ free
  · obtain ⟨k, rfl, hk⟩ := hwish
    exact ⟨k, hk, place_wished hk, .inl rfl⟩
  · push Not at hwish
    have hfirst : ∀ j ∈ free, free.min' h ≤ j := fun j hj => free.min'_le j hj
    exact ⟨free.min' h, free.min'_mem h, place_first hwish (free.min'_mem h) hfirst,
      .inr ⟨hwish, hfirst⟩⟩

theorem place_subset (wish : Option α) (free : Finset α) : place wish free ⊆ free := by
  rcases free.eq_empty_or_nonempty with rfl | h
  · rw [place_empty]
  · obtain ⟨k, -, hplace, -⟩ := place_cases h wish
    rw [hplace]
    exact free.erase_subset k

end Place

theorem places_concat (wish : ι → Option α) (free : Finset α) (l : List ι) (x : ι) :
    places wish free (l ++ [x]) = place (wish x) (places wish free l) := by
  rw [places, List.foldl_append]
  rfl

theorem places_congr {wish wish' : ι → Option α} {free : Finset α} {l : List ι}
    (h : ∀ a ∈ l, wish a = wish' a) : places wish free l = places wish' free l :=
  List.foldl_ext _ _ _ fun free a ha => by rw [h a ha]

section Run

variable [LinearOrder ι] {wish : ι → Option α} {free : Finset α} {m : α} {l : List ι} {a x : ι}

/-- Among those of `l`, `a` is the first to wish for some free place behind `m`. -/
def Returns (wish : ι → Option α) (free : Finset α) (m : α) (l : List ι) (a : ι) : Prop :=
  ∃ k ∈ wish a, m < k ∧ k ∈ free ∧ ∀ b ∈ l, b < a → wish b ≠ some k

open Classical in
/-- How many take a place before `m` if there is one, and `m` otherwise. -/
noncomputable def demand (wish : ι → Option α) (free : Finset α) (m : α) (l : List ι) : ℕ :=
  l.countP fun a => ¬ Returns wish free m l a

theorem returns_concat_of_lt (hax : a < x) :
    Returns wish free m (l ++ [x]) a ↔ Returns wish free m l a := by
  have hnot : ¬ x < a := hax.not_gt
  simp only [Returns, List.mem_append, List.mem_singleton, or_imp, forall_and, forall_eq, hnot,
    false_imp_iff, and_true]

theorem returns_concat_self (hl : ∀ a ∈ l, a < x) :
    Returns wish free m (l ++ [x]) x ↔
      ∃ k ∈ wish x, m < k ∧ k ∈ free ∧ ∀ b ∈ l, wish b ≠ some k := by
  refine exists_congr fun k => and_congr_right fun _ => and_congr_right fun _ =>
    and_congr_right fun _ => ⟨fun h b hb => h b (List.mem_append_left _ hb) (hl b hb), ?_⟩
  intro h b hb hbx
  rcases List.mem_append.mp hb with hb | hb
  · exact h b hb
  · exact absurd hbx (List.mem_singleton.mp hb ▸ lt_irrefl _)

open Classical in
theorem demand_concat (hl : ∀ a ∈ l, a < x) :
    demand wish free m (l ++ [x]) =
      demand wish free m l + if Returns wish free m (l ++ [x]) x then 0 else 1 := by
  have hcongr : l.countP (fun a => ¬ Returns wish free m (l ++ [x]) a) = demand wish free m l :=
    List.countP_congr fun a ha => by simp [returns_concat_of_lt (hl a ha)]
  rw [demand, List.countP_append, hcongr, List.countP_singleton]
  by_cases hx : Returns wish free m (l ++ [x]) x <;> simp [hx]

/-- What is free as long as `m` is: behind it what nobody has wished for, before it all but one
for each of the others. -/
structure Spared (wish : ι → Option α) (free : Finset α) (m : α) (l : List ι) : Prop where
  mem : m ∈ places wish free l
  behind : ∀ k, m < k → (k ∈ places wish free l ↔ k ∈ free ∧ ∀ a ∈ l, wish a ≠ some k)
  before : ((places wish free l).filter (· < m)).card + demand wish free m l =
    (free.filter (· < m)).card

theorem Spared.nil (hm : m ∈ free) : Spared wish free m [] :=
  ⟨hm, fun _ _ => (and_iff_left (fun _ ha => absurd ha List.not_mem_nil)).symm, rfl⟩

/-- One who takes a place behind `m`. -/
theorem Spared.returns (h : Spared wish free m l) (hl : ∀ a ∈ l, a < x)
    (hx : Returns wish free m (l ++ [x]) x) : Spared wish free m (l ++ [x]) := by
  obtain ⟨k, hk, hmk, hfree, hfirst⟩ := (returns_concat_self hl).mp hx
  have hplace : places wish free (l ++ [x]) = (places wish free l).erase k := by
    rw [places_concat, show wish x = some k from hk]
    exact place_wished ((h.behind k hmk).mpr ⟨hfree, hfirst⟩)
  refine ⟨?_, fun j hj => ?_, ?_⟩
  · rw [hplace]
    exact Finset.mem_erase.mpr ⟨hmk.ne, h.mem⟩
  · rw [hplace, Finset.mem_erase, h.behind j hj, List.forall_mem_append, List.forall_mem_singleton,
      show wish x = some k from hk, Ne, Ne, Option.some_inj]
    tauto
  · rw [hplace, demand_concat hl, if_pos hx, ← h.before, add_zero, Finset.filter_erase,
      Finset.erase_eq_of_notMem]
    exact fun hmem => hmk.not_gt (Finset.mem_filter.mp hmem).2

/-- One who takes a place before `m`. -/
theorem Spared.shifts (h : Spared wish free m l) (hl : ∀ a ∈ l, a < x)
    (hx : ¬ Returns wish free m (l ++ [x]) x) {k : α} (hk : k ∈ places wish free l) (hkm : k < m)
    (hplace : place (wish x) (places wish free l) = (places wish free l).erase k) :
    Spared wish free m (l ++ [x]) := by
  rw [← places_concat] at hplace
  refine ⟨?_, fun j hj => ?_, ?_⟩
  · rw [hplace]
    exact Finset.mem_erase.mpr ⟨hkm.ne', h.mem⟩
  · have hne : j ≠ k := (hkm.trans hj).ne'
    rw [hplace, Finset.mem_erase, and_iff_right hne, h.behind j hj, List.forall_mem_append,
      List.forall_mem_singleton, ← and_assoc]
    refine (and_iff_left_of_imp fun ⟨hfree, hfirst⟩ hwish => hx ?_).symm
    exact (returns_concat_self hl).mpr ⟨j, hwish, hj, hfree, hfirst⟩
  · have hmem : k ∈ (places wish free l).filter (· < m) := Finset.mem_filter.mpr ⟨hk, hkm⟩
    have hpos := Finset.card_pos.mpr ⟨k, hmem⟩
    rw [hplace, demand_concat hl, if_neg hx, ← h.before, Finset.filter_erase,
      Finset.card_erase_of_mem hmem]
    omega

theorem Spared.step (h : Spared wish free m l) (hl : ∀ a ∈ l, a < x) :
    Spared wish free m (l ++ [x]) ∧ wish x ≠ some m ∨
      m ∉ places wish free (l ++ [x]) ∧
        (wish x = some m ∨ (free.filter (· < m)).card < demand wish free m (l ++ [x])) := by
  by_cases hx : Returns wish free m (l ++ [x]) x
  · refine .inl ⟨h.returns hl hx, fun heq => ?_⟩
    obtain ⟨j, hj, hmj, -⟩ := hx
    exact hmj.ne (Option.some.inj (heq.symm.trans hj))
  · obtain ⟨k, hk, hplace, hcases⟩ := place_cases ⟨m, h.mem⟩ (wish x)
    have hle : k ≤ m := by
      rcases hcases with hwish | ⟨-, hfirst⟩
      · refine not_lt.mp fun hmk => hx ((returns_concat_self hl).mpr ⟨k, hwish, hmk, ?_⟩)
        exact (h.behind k hmk).mp hk
      · exact hfirst m h.mem
    rcases hle.lt_or_eq with hkm | rfl
    · refine .inl ⟨h.shifts hl hx hk hkm hplace, fun heq => ?_⟩
      rcases hcases with hwish | ⟨hnone, -⟩
      · exact hkm.ne' (Option.some.inj (heq.symm.trans hwish))
      · exact hnone m heq h.mem
    · -- `m` itself is taken: it was wished for, or nothing before it was left.
      refine .inr ⟨?_, hcases.imp_right fun ⟨_, hfirst⟩ => ?_⟩
      · rw [places_concat, hplace]
        exact Finset.notMem_erase k _
      · have hempty : (places wish free l).filter (· < k) = ∅ :=
          Finset.filter_eq_empty_iff.mpr fun j hj => (hfirst j hj).not_gt
        have hbefore := h.before
        rw [hempty, Finset.card_empty] at hbefore
        rw [demand_concat hl, if_neg hx]
        omega

theorem demand_le_concat (hl : ∀ a ∈ l, a < x) :
    demand wish free m l ≤ demand wish free m (l ++ [x]) :=
  (Nat.le_add_right _ _).trans_eq (demand_concat hl).symm

/-- `m` is left over exactly if nobody wishes for it and the others find room before it. -/
theorem spared_iff (hl : l.Pairwise (· < ·)) (hm : m ∈ free) :
    (m ∈ places wish free l → Spared wish free m l) ∧
      (m ∈ places wish free l ↔
        (∀ a ∈ l, wish a ≠ some m) ∧ demand wish free m l ≤ (free.filter (· < m)).card) := by
  induction l using List.reverseRecOn with
  | nil =>
      refine ⟨fun _ => .nil hm, iff_of_true hm ⟨?_, Nat.zero_le _⟩⟩
      exact fun _ ha => absurd ha List.not_mem_nil
  | append_singleton l x ih =>
      obtain ⟨hsorted, -, hlast⟩ := List.pairwise_append.mp hl
      have hlt : ∀ a ∈ l, a < x := fun a ha => hlast a ha x (List.mem_singleton_self x)
      obtain ⟨hspared, hiff⟩ := ih hsorted
      rw [List.forall_mem_append, List.forall_mem_singleton]
      by_cases hleft : m ∈ places wish free l
      · rcases (hspared hleft).step hlt with ⟨hnext, hwish⟩ | ⟨hgone, hwhy⟩
        · have hroom : demand wish free m (l ++ [x]) ≤ (free.filter (· < m)).card :=
            hnext.before ▸ Nat.le_add_left _ _
          exact ⟨fun _ => hnext, iff_of_true hnext.mem ⟨⟨(hiff.mp hleft).1, hwish⟩, hroom⟩⟩
        · refine ⟨fun hmem => absurd hmem hgone, iff_of_false hgone ?_⟩
          rintro ⟨⟨-, hwish⟩, hroom⟩
          exact (hwhy.resolve_left hwish).not_ge hroom
      · have hgone : m ∉ places wish free (l ++ [x]) := fun hmem =>
          hleft (place_subset _ _ (places_concat wish free l x ▸ hmem))
        refine ⟨fun hmem => absurd hmem hgone, iff_of_false hgone ?_⟩
        rintro ⟨⟨hwishes, -⟩, hroom⟩
        exact hleft (hiff.mpr ⟨hwishes, (demand_le_concat hlt).trans hroom⟩)

theorem demand_eq_ncard (hl : l.Nodup) :
    demand wish free m l = {a | a ∈ l ∧ ¬ Returns wish free m l a}.ncard := by
  classical
  have hset : {a | a ∈ l ∧ ¬ Returns wish free m l a} =
      ((l.filter fun a => ¬ Returns wish free m l a).toFinset : Set ι) := by
    ext a
    simp
  rw [hset, Set.ncard_coe_finset, List.toFinset_card_of_nodup (hl.filter _), demand,
    List.countP_eq_length_filter]

end Run

end MaglevLb.FirstFit
