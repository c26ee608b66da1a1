import MaglevLb.TableFill

/-!
# The cursors of the fill

Every position of a candidate's permutation in front of its cursor is filled, and
a filled slot stays filled. So the probe loop stops at the first position of the
whole permutation whose slot is still empty, and while there is an empty slot this
position lies in the first turn of the cycle.
-/
namespace MaglevLb.FillCursor

open Maglev

variable {m : TableSize}

/-- The permutation as numbers: `(offset + j * skip) mod m`. -/
def position (c : Candidate m) (j : ℕ) : Fin m.len :=
  ⟨(c.offset.toNat + j * c.skip.toNat) % m.len, Nat.mod_lt _ m.len_pos⟩

theorem slot_eq_position (c : Candidate m) (j : UInt32) : slot c j = position c j.toNat :=
  Fin.ext (slot_val c j)

theorem position_surjective (c : Candidate m) (s : Fin m.len) : ∃ j < m.len, position c j = s := by
  obtain ⟨j, hj, hs⟩ := slot_surjective c s
  exact ⟨j.toNat, hj, (slot_eq_position c j).symm.trans hs⟩

/-- The cursors at which one run of the inner loop evaluates the slot formula. -/
def probed (lookup : Fin m.len → Int32) (c : Candidate m) : ℕ → UInt32 → List UInt32
  | 0, _ => []
  | fuel + 1, j => j :: if lookup (slot c j) = -1 then [] else probed lookup c fuel (j + 1)

/-- `j` is the first position of the permutation with an empty slot. -/
structure FirstEmpty (lookup : Fin m.len → Int32) (c : Candidate m) (j : ℕ) : Prop where
  empty : lookup (position c j) = -1
  filled : ∀ i < j, lookup (position c i) ≠ -1

theorem exists_firstEmpty {lookup : Fin m.len → Int32} (c : Candidate m) {s : Fin m.len}
    (hs : lookup s = -1) : ∃ j < m.len, FirstEmpty lookup c j := by
  obtain ⟨i, hi, hpos⟩ := position_surjective c s
  have hex : ∃ j, lookup (position c j) = -1 := ⟨i, hpos ▸ hs⟩
  refine ⟨Nat.find hex, ?_, Nat.find_spec hex, fun k hk => Nat.find_min hex hk⟩
  exact (Nat.find_min' hex (hpos ▸ hs)).trans_lt hi

section Probe

variable {lookup : Fin m.len → Int32} {c : Candidate m} {j : ℕ}

theorem toNat_succ {k : UInt32} (h : k.toNat < j) (hj : j < 2 ^ 32) :
    (k + 1).toNat = k.toNat + 1 := by
  rw [UInt32.toNat_add, UInt32.toNat_one]
  omega

/-- From a cursor that is not behind it, the loop stops at the first empty position. -/
theorem probe_firstEmpty (h : FirstEmpty lookup c j) (hj : j < 2 ^ 32) {fuel : ℕ} {k : UInt32}
    (hk : k.toNat ≤ j) (hfuel : j - k.toNat < fuel) :
    ∃ k', probe lookup c fuel k = some k' ∧ k'.toNat = j := by
  induction fuel generalizing k with
  | zero => omega
  | succ fuel ih =>
      unfold probe
      rw [slot_eq_position]
      rcases hk.eq_or_lt with heq | hlt
      · rw [heq, if_pos h.empty]
        exact ⟨k, rfl, heq⟩
      · have hnext := toNat_succ hlt hj
        rw [if_neg (h.filled _ hlt)]
        exact ih (by omega) (by omega)

/-- On the way it evaluates the formula once at every cursor up to that position. -/
theorem probed_firstEmpty (h : FirstEmpty lookup c j) (hj : j < 2 ^ 32) {fuel : ℕ} {k : UInt32}
    (hk : k.toNat ≤ j) (hfuel : j - k.toNat < fuel) :
    (probed lookup c fuel k).map UInt32.toNat = List.range' k.toNat (j + 1 - k.toNat) := by
  induction fuel generalizing k with
  | zero => omega
  | succ fuel ih =>
      unfold probed
      rw [slot_eq_position]
      rcases hk.eq_or_lt with heq | hlt
      · rw [heq, if_pos h.empty, Nat.add_sub_cancel_left]
        simp [heq]
      · have hnext := toNat_succ hlt hj
        have hlen : j + 1 - k.toNat = (j + 1 - (k + 1).toNat) + 1 := by omega
        rw [if_neg (h.filled _ hlt), List.map_cons, ih (by omega) (by omega), hlen, hnext,
          List.range'_succ]

end Probe

/-! ### One turn, and the turns of a fill -/

section Turns

variable {cands : List (Candidate m)}

/-- What is in front of a cursor is filled. -/
structure Kept (cands : List (Candidate m)) (t : Fill m cands.length) : Prop where
  le : ∀ b, (t.next b).toNat ≤ m.len
  filled : ∀ b, ∀ i < (t.next b).toNat, t.lookup (position (cands.get b) i) ≠ -1

theorem empty_kept : Kept cands (Fill.empty m cands.length) :=
  ⟨fun _ => Nat.zero_le _, fun _ i hi => absurd hi (Nat.not_lt_zero i)⟩

theorem Kept.cursor_le {t : Fill m cands.length} (h : Kept cands t) {b : Fin cands.length} {j : ℕ}
    (hj : FirstEmpty t.lookup (cands.get b) j) : (t.next b).toNat ≤ j := by
  by_contra hlt
  exact h.filled b j (Nat.lt_of_not_le hlt) hj.empty

/-- A turn writes the first empty position of the candidate's permutation. -/
theorem claim_firstEmpty {t : Fill m cands.length} (h : Kept cands t) {b : Fin cands.length}
    {j : ℕ} (hlt : j < m.len) (hj : FirstEmpty t.lookup (cands.get b) j) :
    ∃ k : UInt32, k.toNat = j + 1 ∧ claim cands b t = some
      { lookup := Function.update t.lookup (position (cands.get b) j) (cands.get b).id.toInt32
        next := Function.update t.next b k } := by
  have hlen := m.len_lt
  have hcursor := h.cursor_le hj
  have hfuel : j - (t.next b).toNat < 2 ^ 32 := by omega
  obtain ⟨k, hk, hkj⟩ := probe_firstEmpty hj (by omega) hcursor hfuel
  have hnext := toNat_succ (k := k) (j := j + 1) (by omega) (by omega)
  refine ⟨k + 1, by omega, ?_⟩
  rw [claim, hk, Option.map_some, slot_eq_position, hkj]

theorem claim_kept {t t' : Fill m cands.length} {b : Fin cands.length} (h : Kept cands t)
    (hid : (cands.get b).id.toInt32 ≠ -1) (hclaim : claim cands b t = some t') :
    Kept cands t' := by
  obtain ⟨s, hs, -⟩ := claim_spec hclaim
  obtain ⟨j, hlt, hj⟩ := exists_firstEmpty (cands.get b) hs
  obtain ⟨k, hk, hwrite⟩ := claim_firstEmpty h hlt hj
  cases hclaim.symm.trans hwrite
  have hkeep : ∀ s, t.lookup s ≠ -1 ∨ s = position (cands.get b) j →
      Function.update t.lookup (position (cands.get b) j) (cands.get b).id.toInt32 s ≠ -1 := by
    intro s hs
    rcases eq_or_ne s (position (cands.get b) j) with rfl | hne
    · rw [Function.update_self]
      exact hid
    · rw [Function.update_of_ne hne]
      exact hs.resolve_right hne
  constructor
  · intro b'
    dsimp only
    rcases eq_or_ne b' b with rfl | hne
    · rw [Function.update_self]
      omega
    · rw [Function.update_of_ne hne]
      exact h.le b'
  · intro b' i hi
    dsimp only at hi ⊢
    rcases eq_or_ne b' b with rfl | hne
    · rw [Function.update_self] at hi
      rcases Nat.lt_or_eq_of_le (Nat.le_of_lt_succ (hk ▸ hi)) with hij | rfl
      · exact hkeep _ (.inl (hj.filled i hij))
      · exact hkeep _ (.inr rfl)
    · rw [Function.update_of_ne hne] at hi
      exact hkeep _ (.inl (h.filled b' i hi))

/-- After any number of turns up to `m`, the fill has returned a table with that many slots
filled. -/
theorem populate_kept (hn : 0 < cands.length) (hid : ∀ c ∈ cands, c.id.toInt32 ≠ -1) {k : ℕ}
    (hk : k ≤ m.len) :
    ∃ t, populate cands hn k 0 (Fill.empty m cands.length) = some t ∧ Kept cands t ∧
      t.filled = k := by
  have hfits : (Fill.empty m cands.length).filled + k ≤ m.len := by
    rw [Fill.filled_empty]
    omega
  have hsome : (populate cands hn k 0 (Fill.empty m cands.length)).isSome :=
    populate_isSome cands hn hfits
  obtain ⟨t, ht⟩ := Option.isSome_iff_exists.mp hsome
  have hinv := populate_invariant (P := fun k t => Kept cands t ∧ t.filled = k)
    (fun k _ t t' hclaim h => by
      have hget := hid _ (List.get_mem cands ⟨k % cands.length, Nat.mod_lt _ hn⟩)
      exact ⟨claim_kept h.1 hget hclaim, by rw [claim_filled_eq hclaim hget, h.2]⟩)
    ht ⟨empty_kept, Fill.filled_empty m _⟩
  rw [Nat.zero_add] at hinv
  exact ⟨t, ht, hinv⟩

/-- One run of the inner loop: at most `m` probes, each at a position of the first turn of the
cycle and without wrap-around, and the last finds an empty slot. -/
structure Bounded (lookup : Fin m.len → Int32) (c : Candidate m) (cursor : UInt32) : Prop where
  probes : (probed lookup c (2 ^ 32) cursor).length ≤ m.len
  cursors : ∀ j ∈ probed lookup c (2 ^ 32) cursor, j.toNat ≤ m.len - 1
  noWrap : ∀ j ∈ probed lookup c (2 ^ 32) cursor,
    c.offset.toNat + j.toNat * c.skip.toNat ≤ 2 ^ 64 - 1
  stops : ∃ j, (probed lookup c (2 ^ 32) cursor).getLast? = some j ∧ lookup (slot c j) = -1

theorem Kept.bounded {t : Fill m cands.length} (h : Kept cands t) (hfilled : t.filled < m.len)
    (b : Fin cands.length) : Bounded t.lookup (cands.get b) (t.next b) := by
  obtain ⟨s, hs⟩ := Fill.exists_empty hfilled
  obtain ⟨j, hlt, hj⟩ := exists_firstEmpty (cands.get b) hs
  have hlen := m.len_lt
  have hcursor := h.cursor_le hj
  have hfuel : j - (t.next b).toNat < 2 ^ 32 := by omega
  have hprobed := probed_firstEmpty hj (by omega) hcursor hfuel
  have hbound : ∀ k ∈ probed t.lookup (cands.get b) (2 ^ 32) (t.next b), k.toNat ≤ j := by
    intro k hk
    have hmem := List.mem_map_of_mem (f := UInt32.toNat) hk
    rw [hprobed, List.mem_range'_1] at hmem
    omega
  refine ⟨?_, fun k hk => ?_, fun k hk => ?_, ?_⟩
  · have hcount := congrArg List.length hprobed
    rw [List.length_map, List.length_range'] at hcount
    omega
  · have := hbound k hk
    omega
  · have hkj := hbound k hk
    have hoff := (cands.get b).offset_lt
    have hskip := (cands.get b).skip_lt
    have hmul : k.toNat * (cands.get b).skip.toNat ≤ (2 ^ 32 - 1) * (2 ^ 32 - 1) :=
      Nat.mul_le_mul (by omega) (by omega)
    omega
  · have hlast := congrArg List.getLast? hprobed
    have hpos : j + 1 - (t.next b).toNat = (j - (t.next b).toNat) + 1 := by omega
    rw [List.getLast?_map, hpos, List.range'_concat, List.getLast?_concat] at hlast
    obtain ⟨k, hk, hkj⟩ := Option.map_eq_some_iff.mp hlast
    refine ⟨k, hk, ?_⟩
    have hkj' : k.toNat = j := by omega
    rw [slot_eq_position, hkj']
    exact hj.empty

end Turns

/-! ### The generator -/

/-- The fill takes its `m` turns and leaves no slot empty. At each turn the cursors are at most
`m` and the inner loop is bounded. -/
theorem fill_terminates (H : Hashes) (m : TableSize) (backends : List BackendView)
    (hne : backends ≠ []) (hid : ∀ v ∈ backends, v.id.toNat < 2 ^ 31) :
    ∃ hn : 0 < (candidates H m backends).length,
      (∀ k ≤ m.len, ∃ t, populate (candidates H m backends) hn k 0 (Fill.empty m _) = some t ∧
        (∀ b, (t.next b).toNat ≤ m.len) ∧
        (k < m.len → Bounded t.lookup
          ((candidates H m backends).get ⟨k % (candidates H m backends).length, Nat.mod_lt _ hn⟩)
          (t.next ⟨k % (candidates H m backends).length, Nat.mod_lt _ hn⟩)) ∧
        (k = m.len → (maglevTableGenerate H m backends).lookup = t.lookup)) ∧
      ∀ i, (maglevTableGenerate H m backends).lookup i ≠ -1 := by
  obtain ⟨hn, hlookup⟩ := maglevTableGenerate_lookup H m hne
  have hids : ∀ c ∈ candidates H m backends, c.id.toInt32 ≠ -1 := by
    intro c hc
    obtain ⟨v, hv, rfl⟩ := mem_candidates hc
    exact toInt32_ne_neg_one (hid v hv)
  refine ⟨hn, fun k hk => ?_,
    maglevTableGenerate_ne H m hne fun v hv => toInt32_ne_neg_one (hid v hv)⟩
  obtain ⟨t, ht, hkept, hfilled⟩ := populate_kept hn hids hk
  refine ⟨t, ht, hkept.le, fun hlt => hkept.bounded (by omega) _, ?_⟩
  rintro rfl
  obtain ⟨t', ht', hfill⟩ := populate_fillTable (candidates H m backends) hn
  rw [ht] at ht'
  cases ht'
  exact hlookup.trans hfill

/-- Two backends that want the same slots in the same order. -/
def rivals : List BackendView :=
  [⟨7, 0x0b00000a, 80, Vector.replicate 6 0⟩, ⟨2, 0x0b00000a, 80, Vector.replicate 6 0⟩]

def rivalHashes : Hashes := ⟨fun _ => 8, fun _ => 6, fun _ => 0⟩

def rivalSize : TableSize := ⟨5, Nat.prime_five⟩

theorem fill_terminates_rivals :
    (∀ v ∈ rivals, v.id.toNat < 2 ^ 31) ∧
      ∀ i, (maglevTableGenerate rivalHashes rivalSize rivals).lookup i ≠ -1 := by
  have hid : ∀ v ∈ rivals, v.id.toNat < 2 ^ 31 := by decide
  obtain ⟨-, -, hfull⟩ := fill_terminates rivalHashes rivalSize rivals (by decide) hid
  exact ⟨hid, hfull⟩

end MaglevLb.FillCursor
