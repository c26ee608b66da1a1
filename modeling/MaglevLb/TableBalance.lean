import MaglevLb.PlainFill
import Mathlib.Data.Int.CardIntervalMod

/-!
# The shares of the backends

Every turn of the fill gives one empty slot to one candidate and no turn takes a
slot away, so a candidate ends with as many slots as it had turns. Turn `k`
belongs to the candidate of rank `k mod n` in id order.
-/
namespace MaglevLb.TableBalance

open Maglev FillCursor PlainFill

/-- The number of slots that hold an id. -/
def share (t : MaglevTable) (id : UInt32) : ℕ :=
  (Finset.univ.filter fun s => t.lookup s = id.toInt32).card

/-- The number of backends with a smaller id. -/
def rank (backends : List BackendView) (v : BackendView) : ℕ :=
  backends.countP fun w => w.id < v.id

/-! ### Rank and position -/

theorem countP_lt_getElem {l : List BackendView} (h : l.Pairwise fun a b => a.id < b.id) {i : ℕ}
    {v : BackendView} (hv : l[i]? = some v) : l.countP (fun w => w.id < v.id) = i := by
  induction l generalizing i with
  | nil => cases hv
  | cons w l ih =>
      obtain ⟨hw, hl⟩ := List.pairwise_cons.mp h
      cases i with
      | zero =>
          cases hv
          rw [List.countP_eq_zero]
          intro x hx
          rcases List.mem_cons.mp hx with rfl | hx
          · simp
          · simpa using UInt32.le_of_lt (hw x hx)
      | succ i =>
          rw [List.getElem?_cons_succ] at hv
          have hlt : w.id < v.id := hw v (List.mem_of_getElem? hv)
          rw [List.countP_cons_of_pos (by simpa using hlt), ih hl hv]

variable {H : Hashes} {m : TableSize} {backends : List BackendView}

theorem sorted_pairwise (hnd : (backends.map BackendView.id).Nodup) :
    (backends.insertionSort fun a b => a.id ≤ b.id).Pairwise fun a b => a.id < b.id := by
  have hle := List.pairwise_insertionSort (fun a b : BackendView => a.id ≤ b.id) backends
  have hne : (backends.insertionSort fun a b => a.id ≤ b.id).Pairwise fun a b => a.id ≠ b.id := by
    have hperm := (List.perm_insertionSort (fun a b : BackendView => a.id ≤ b.id) backends).map
      BackendView.id
    exact List.pairwise_map.mp (hperm.nodup_iff.mpr hnd)
  exact (hle.and hne).imp fun hab => UInt32.lt_of_le_of_ne hab.1 hab.2

theorem rank_eq (hnd : (backends.map BackendView.id).Nodup) {i : ℕ} {v : BackendView}
    (hv : (backends.insertionSort fun a b => a.id ≤ b.id)[i]? = some v) :
    rank backends v = i := by
  rw [rank, ← (List.perm_insertionSort (fun a b : BackendView => a.id ≤ b.id) backends).countP_eq]
  exact countP_lt_getElem (sorted_pairwise hnd) hv

/-! ### One turn, and all turns -/

/-- Writing over a value other than `y` adds one place to the fibre of `y`, if it writes `y`. -/
theorem card_fibre_update {ι α : Type*} [Fintype ι] [DecidableEq ι] [DecidableEq α] (f : ι → α)
    (i : ι) (x y : α) (h : f i ≠ y) :
    (Finset.univ.filter fun s => Function.update f i x s = y).card =
      (Finset.univ.filter fun s => f s = y).card + if y = x then 1 else 0 := by
  by_cases hx : y = x
  · have hset : (Finset.univ.filter fun s => Function.update f i x s = y) =
        insert i (Finset.univ.filter fun s => f s = y) := by
      ext s
      rcases eq_or_ne s i with rfl | hs
      · simp [hx]
      · simp [hs]
    rw [hset, Finset.card_insert_of_notMem (by simpa using h), if_pos hx]
  · have hset : (Finset.univ.filter fun s => Function.update f i x s = y) =
        Finset.univ.filter fun s => f s = y := by
      ext s
      rcases eq_or_ne s i with rfl | hs
      · simp [h, Ne.symm hx]
      · simp [hs]
    rw [hset, if_neg hx, Nat.add_zero]

section Turns

variable {cands : List (Candidate m)}

/-- The number of slots that hold the id of candidate `b`. -/
def holding (t : Fill m cands.length) (b : Fin cands.length) : ℕ :=
  (Finset.univ.filter fun s => t.lookup s = (cands.get b).id.toInt32).card

theorem claim_holding {t t' : Fill m cands.length} {b : Fin cands.length}
    (hinj : Function.Injective fun b => (cands.get b).id) (hid : ∀ c ∈ cands, c.id.toInt32 ≠ -1)
    (h : claim cands b t = some t') (b' : Fin cands.length) :
    holding t' b' = holding t b' + if b' = b then 1 else 0 := by
  obtain ⟨j, hj, hl, -⟩ := claim_spec h
  have hb' : t.lookup (slot (cands.get b) j) ≠ (cands.get b').id.toInt32 := by
    rw [hj]
    exact (hid _ (List.get_mem ..)).symm
  have hsame : (cands.get b').id.toInt32 = (cands.get b).id.toInt32 ↔ b' = b :=
    ⟨fun he => hinj (toInt32_injective he), fun he => by rw [he]⟩
  unfold holding
  rw [hl, card_fibre_update _ _ _ _ hb']
  simp only [hsame]

/-- After `k` turns a candidate holds a slot for each of its turns. -/
theorem populate_holding {hn : 0 < cands.length}
    (hinj : Function.Injective fun b => (cands.get b).id) (hid : ∀ c ∈ cands, c.id.toInt32 ≠ -1)
    {k : ℕ} {t : Fill m cands.length}
    (h : populate cands hn k 0 (Fill.empty m cands.length) = some t) (b : Fin cands.length) :
    holding t b = k.count (· ≡ b.val [MOD cands.length]) := by
  have hempty : ∀ b, holding (Fill.empty m cands.length) b = 0 := by
    intro b
    have hb : (-1 : Int32) ≠ (cands.get b).id.toInt32 := (hid _ (List.get_mem ..)).symm
    exact Finset.card_eq_zero.mpr (Finset.filter_eq_empty_iff.mpr fun _ _ => hb)
  have hinv := populate_invariant
    (P := fun k t => ∀ b, holding t b = k.count (· ≡ b.val [MOD cands.length]))
    (fun k _ t t' hclaim ht b => ?_) h (fun b => by rw [hempty b, Nat.count_zero])
  · rw [Nat.zero_add] at hinv
    exact hinv b
  · have hturn : (b = ⟨k % cands.length, Nat.mod_lt _ hn⟩) ↔ k ≡ b.val [MOD cands.length] := by
      rw [Fin.ext_iff, Nat.ModEq, Nat.mod_eq_of_lt b.isLt]
      exact eq_comm
    rw [claim_holding hinj hid hclaim b, ht b, Nat.count_succ]
    simp only [hturn]

end Turns

theorem candidates_injective (hnd : (backends.map BackendView.id).Nodup) :
    Function.Injective fun b => ((candidates H m backends).get b).id := by
  intro b b' h
  obtain ⟨v, -, hv, hget⟩ := candidates_get (H := H) (m := m) backends b
  obtain ⟨w, -, hw, hget'⟩ := candidates_get (H := H) (m := m) backends b'
  dsimp only at h
  rw [hget, hget'] at h
  have hid : v.id = w.id := h
  have hrank : rank backends v = rank backends w := by
    rw [rank, rank, hid]
  rw [rank_eq hnd hv, rank_eq hnd hw] at hrank
  exact Fin.ext hrank

/-- A backend owns its even part of the slots, and one more if its rank is below the remainder;
so no two shares differ by more than one slot. -/
theorem exact_balance (H : Hashes) (m : TableSize) (backends : List BackendView)
    (hnd : (backends.map BackendView.id).Nodup) (hid : ∀ v ∈ backends, v.id.toNat < 2 ^ 31) :
    (∀ v ∈ backends, share (maglevTableGenerate H m backends) v.id =
      m.len / backends.length + if rank backends v < m.len % backends.length then 1 else 0) ∧
    ∀ v ∈ backends, ∀ w ∈ backends, share (maglevTableGenerate H m backends) v.id ≤
      share (maglevTableGenerate H m backends) w.id + 1 := by
  have hshare : ∀ v ∈ backends, share (maglevTableGenerate H m backends) v.id =
      m.len / backends.length + if rank backends v < m.len % backends.length then 1 else 0 := by
    intro v hv
    obtain ⟨hn, hlookup⟩ := maglevTableGenerate_lookup H m (List.ne_nil_of_mem hv)
    obtain ⟨t, ht, hfill⟩ := populate_fillTable (candidates H m backends) hn
    have hids : ∀ c ∈ candidates H m backends, c.id.toInt32 ≠ -1 := by
      intro c hc
      obtain ⟨w, hw, rfl⟩ := mem_candidates hc
      exact toInt32_ne_neg_one (hid w hw)
    obtain ⟨i, hi⟩ := List.mem_iff_getElem?.mp
      ((List.mem_insertionSort fun a b : BackendView => a.id ≤ b.id).mpr hv)
    have hlen := candidates_length H m backends
    have hlt : i < (candidates H m backends).length := by
      rw [candidates_sorted_length]
      exact (List.getElem?_eq_some_iff.mp hi).choose
    obtain ⟨w, -, hw, hget⟩ := candidates_get (H := H) (m := m) backends ⟨i, hlt⟩
    cases hi.symm.trans hw
    have hcount := populate_holding (candidates_injective hnd) hids ht ⟨i, hlt⟩
    have hholding : share (maglevTableGenerate H m backends) v.id = holding t ⟨i, hlt⟩ := by
      have hidv : ((candidates H m backends).get ⟨i, hlt⟩).id = v.id := by
        rw [hget]
        rfl
      rw [share, hlookup, hfill, holding, hidv]
      rfl
    rw [hholding, hcount, Nat.count_modEq_card _ hn, rank_eq hnd hi, Nat.mod_eq_of_lt hlt, hlen]
  refine ⟨hshare, fun v hv w hw => ?_⟩
  rw [hshare v hv, hshare w hw]
  split <;> split <;> omega

/-- Five slots for two backends: the smaller id has the odd slot. -/
theorem exact_balance_rivals :
    ((rivals.map BackendView.id).Nodup ∧ ∀ v ∈ rivals, v.id.toNat < 2 ^ 31) ∧
      share (maglevTableGenerate rivalHashes rivalSize rivals) 2 = 3 ∧
      share (maglevTableGenerate rivalHashes rivalSize rivals) 7 = 2 := by
  have hnd : (rivals.map BackendView.id).Nodup := by decide
  have hid : ∀ v ∈ rivals, v.id.toNat < 2 ^ 31 := by decide
  have hshare := (exact_balance rivalHashes rivalSize rivals hnd hid).1
  exact ⟨⟨hnd, hid⟩, hshare ⟨2, 0x0b00000a, 80, Vector.replicate 6 0⟩ (by decide),
    hshare ⟨7, 0x0b00000a, 80, Vector.replicate 6 0⟩ (by decide)⟩

end MaglevLb.TableBalance
