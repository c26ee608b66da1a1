import MaglevLb.Maglev

/-!
# What a generated table holds

Every turn of the fill writes one slot that was empty, so with at least one
candidate and no id that reads as -1 the fill leaves no slot empty, and every
slot holds the id of a candidate.
-/
namespace MaglevLb.Maglev
open PacketFormat

variable {m : TableSize}

theorem toInt32_injective : Function.Injective UInt32.toInt32 :=
  Function.LeftInverse.injective UInt32.toUInt32_toInt32

/-- An id that is not negative as a signed number does not read as an empty slot. -/
theorem toInt32_ne_neg_one {id : UInt32} (h : id.toNat < 2 ^ 31) : id.toInt32 ≠ -1 := by
  intro hneg
  have hmax : (0xFFFFFFFF : UInt32).toInt32 = -1 := by decide
  rw [← hmax] at hneg
  rw [toInt32_injective hneg] at h
  exact absurd h (by decide)

theorem probe_empty {lookup : Fin m.len → Int32} {c : Candidate m} {fuel : ℕ} {j k : UInt32}
    (h : probe lookup c fuel j = some k) : lookup (slot c k) = -1 := by
  induction fuel generalizing j with
  | zero => cases h
  | succ fuel ih =>
      unfold probe at h
      split at h
      · next hj =>
          cases h
          exact hj
      · exact ih h

/-- A turn writes one empty slot and moves one cursor. -/
theorem claim_spec {cands : List (Candidate m)} {b : Fin cands.length}
    {t t' : Fill m cands.length} (h : claim cands b t = some t') :
    ∃ j, t.lookup (slot (cands.get b) j) = -1 ∧
      t'.lookup = Function.update t.lookup (slot (cands.get b) j) (cands.get b).id.toInt32 ∧
      t'.next = Function.update t.next b (j + 1) := by
  obtain ⟨j, hj, rfl⟩ := Option.map_eq_some_iff.mp h
  exact ⟨j, probe_empty hj, rfl, rfl⟩

/-- A property that every turn keeps holds after the fill. -/
theorem populate_invariant {cands : List (Candidate m)} {hn : 0 < cands.length}
    {P : ℕ → Fill m cands.length → Prop} {turns roundRobin : ℕ}
    (hturn : ∀ k < roundRobin + turns, ∀ t t',
      claim cands ⟨k % cands.length, Nat.mod_lt _ hn⟩ t = some t' → P k t → P (k + 1) t')
    {t t' : Fill m cands.length} (h : populate cands hn turns roundRobin t = some t')
    (ht : P roundRobin t) : P (roundRobin + turns) t' := by
  induction turns generalizing roundRobin t with
  | zero =>
      cases h
      exact ht
  | succ turns ih =>
      unfold populate at h
      split at h
      · cases h
      · next hc =>
          have hnext := hturn roundRobin (by omega) _ _ hc ht
          rw [← Nat.succ_add_eq_add_succ] at hturn ⊢
          exact ih hturn h hnext

/-- A slot is empty or holds the id of one of the first `k` candidates. -/
def Fill.Claimed (cands : List (Candidate m)) (k : ℕ) (lookup : Fin m.len → Int32) : Prop :=
  ∀ s, lookup s = -1 ∨ ∃ b : Fin cands.length, b.val < k ∧ lookup s = (cands.get b).id.toInt32

theorem claim_claimed {cands : List (Candidate m)} {b : Fin cands.length} {k : ℕ} (hb : b.val ≤ k)
    {t t' : Fill m cands.length} (h : claim cands b t = some t')
    (ht : Fill.Claimed cands k t.lookup) : Fill.Claimed cands (k + 1) t'.lookup := by
  obtain ⟨j, -, hl, -⟩ := claim_spec h
  intro s
  rw [hl]
  rcases eq_or_ne s (slot (cands.get b) j) with rfl | hs
  · exact Or.inr ⟨b, Nat.lt_succ_of_le hb, Function.update_self ..⟩
  · rw [Function.update_of_ne hs]
    cases ht s with
    | inl hempty => exact Or.inl hempty
    | inr hclaimed =>
        obtain ⟨c, hc, he⟩ := hclaimed
        exact Or.inr ⟨c, Nat.lt_succ_of_lt hc, he⟩

theorem claim_filled_eq {cands : List (Candidate m)} {b : Fin cands.length}
    {t t' : Fill m cands.length} (h : claim cands b t = some t')
    (hid : (cands.get b).id.toInt32 ≠ -1) : t'.filled = t.filled + 1 := by
  obtain ⟨j, hj, hl, -⟩ := claim_spec h
  generalize cands.get b = c at hid hj hl
  have hset : (Finset.univ.filter fun s => t'.lookup s ≠ -1) =
      insert (slot c j) (Finset.univ.filter fun s => t.lookup s ≠ -1) := by
    ext s
    rw [hl]
    rcases eq_or_ne s (slot c j) with rfl | hs
    · simp [hid]
    · simp [hs]
  rw [Fill.filled, hset, Finset.card_insert_of_notMem (by simp [hj]), Fill.filled]

theorem populate_fillTable (cands : List (Candidate m)) (hn : 0 < cands.length) :
    ∃ t, populate cands hn m.len 0 (Fill.empty m cands.length) = some t ∧
      fillTable cands hn = t.lookup :=
  ⟨_, (Option.some_get _).symm, rfl⟩

/-- Candidate `k` has its first turn in round `k`, so a fill of `m` turns reaches
only the first `m` of them. -/
theorem fillTable_claimed (cands : List (Candidate m)) (hn : 0 < cands.length) :
    Fill.Claimed cands m.len (fillTable cands hn) := by
  obtain ⟨t, ht, hl⟩ := populate_fillTable cands hn
  rw [hl]
  have h := populate_invariant (P := fun k t => Fill.Claimed cands k t.lookup)
    (fun k _ _ _ hc => claim_claimed (Nat.mod_le k _) hc) ht (fun _ => Or.inl rfl)
  rwa [Nat.zero_add] at h

/-- The fill leaves no slot empty. -/
theorem fillTable_ne (cands : List (Candidate m)) (hn : 0 < cands.length)
    (hid : ∀ c ∈ cands, c.id.toInt32 ≠ -1) (s : Fin m.len) : fillTable cands hn s ≠ -1 := by
  obtain ⟨t, ht, hl⟩ := populate_fillTable cands hn
  have hf := populate_invariant (P := fun k t => t.filled = k)
    (fun k _ t t' hc he => by rw [claim_filled_eq hc (hid _ (List.get_mem ..)), he]) ht
    (Fill.filled_empty m _)
  rw [Nat.zero_add, Fill.filled] at hf
  have huniv := Finset.eq_univ_of_card _ (hf.trans (Fintype.card_fin m.len).symm)
  have hs := Finset.mem_univ s
  rw [← huniv, Finset.mem_filter] at hs
  rw [hl]
  exact hs.2

/-- The generator from the sorted array on. -/
def tableOfCandidates (cands : List (Candidate m)) : MaglevTable where
  m := m.size
  m_pos := m.len_pos
  lookup := if h : cands.length = 0 then fun _ => -1 else fillTable cands (Nat.pos_of_ne_zero h)

theorem maglevTableGenerate_eq (H : Hashes) (m : TableSize) (vs : List BackendView) :
    maglevTableGenerate H m vs = tableOfCandidates (candidates H m vs) := rfl

theorem mem_candidates {H : Hashes} {backends : List BackendView} {c : Candidate m}
    (hc : c ∈ candidates H m backends) : ∃ v ∈ backends, c = candidate H m v.id v.addr v.port := by
  obtain ⟨v, hv, rfl⟩ := List.mem_map.mp hc
  exact ⟨v, (List.mem_insertionSort _).mp hv, rfl⟩

/-- Without candidates all slots are empty. -/
theorem maglevTableGenerate_nil (H : Hashes) (m : TableSize)
    (i : Fin (maglevTableGenerate H m []).m.toNat) :
    (maglevTableGenerate H m []).lookup i = -1 := rfl

/-- With candidates the slots are those of the fill. -/
theorem maglevTableGenerate_lookup (H : Hashes) (m : TableSize) {backends : List BackendView}
    (hne : backends ≠ []) :
    ∃ hn, (maglevTableGenerate H m backends).lookup = fillTable (candidates H m backends) hn := by
  have hlen : (candidates H m backends).length ≠ 0 := by
    rw [candidates_length]
    exact fun h => hne (List.length_eq_zero_iff.mp h)
  exact ⟨Nat.pos_of_ne_zero hlen, dif_neg hlen⟩

/-- A slot of a generated table is empty or holds the id of a candidate. -/
theorem maglevTableGenerate_fromIds (H : Hashes) (m : TableSize) (backends : List BackendView)
    (i : Fin (maglevTableGenerate H m backends).m.toNat) :
    (maglevTableGenerate H m backends).lookup i = -1 ∨
      ∃ v ∈ backends, (maglevTableGenerate H m backends).lookup i = v.id.toInt32 := by
  rcases eq_or_ne backends [] with rfl | hne
  · exact Or.inl (maglevTableGenerate_nil H m i)
  · obtain ⟨hn, hl⟩ := maglevTableGenerate_lookup H m hne
    rw [congrFun hl i]
    rcases fillTable_claimed (candidates H m backends) hn i with h | ⟨b, -, h⟩
    · exact Or.inl h
    · obtain ⟨v, hv, hc⟩ := mem_candidates (List.get_mem _ b)
      rw [hc] at h
      exact Or.inr ⟨v, hv, h⟩

/-- With a candidate, and no id that reads as -1, every slot holds an id. -/
theorem maglevTableGenerate_ne (H : Hashes) (m : TableSize) {backends : List BackendView}
    (hne : backends ≠ []) (hid : ∀ v ∈ backends, v.id.toInt32 ≠ -1)
    (i : Fin (maglevTableGenerate H m backends).m.toNat) :
    (maglevTableGenerate H m backends).lookup i ≠ -1 := by
  obtain ⟨hn, hl⟩ := maglevTableGenerate_lookup H m hne
  rw [congrFun hl i]
  apply fillTable_ne
  intro c hc
  obtain ⟨v, hv, rfl⟩ := mem_candidates hc
  exact hid v hv

end MaglevLb.Maglev
