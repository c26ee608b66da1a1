import MaglevLb.FillCursor

/-!
# The fill without cursors

The plain algorithm on numbers: on each turn, round robin in id order, a backend
gets the first slot that is still empty in its whole preference list. The
generator's table is the table of the plain algorithm.
-/
namespace MaglevLb.PlainFill

open Maglev FillCursor

variable (H : Hashes) (m : TableSize)

/-- Place `j` of a backend's preference list. -/
def preferred (v : BackendView) (j : ℕ) : Fin m.len :=
  let name := backendName v.addr v.port
  let offset := (H.maglevHashOffset name).toNat % m.len
  let skip := (H.maglevHashSkip name).toNat % (m.len - 1) + 1
  ⟨(offset + j * skip) % m.len, Nat.mod_lt _ m.len_pos⟩

def preferenceList (v : BackendView) : List (Fin m.len) := (List.range m.len).map (preferred H m v)

def plainTurn (lookup : Fin m.len → Int32) (v : BackendView) : Fin m.len → Int32 :=
  match (preferenceList H m v).find? fun s => lookup s = -1 with
  | none => lookup
  | some s => Function.update lookup s v.id.toInt32

/-- The table after a number of turns. -/
def plainFill (sorted : List BackendView) : ℕ → Fin m.len → Int32
  | 0 => fun _ => -1
  | k + 1 =>
      match sorted[k % sorted.length]? with
      | none => plainFill sorted k
      | some v => plainTurn H m (plainFill sorted k) v

def plainTable (backends : List BackendView) : Fin m.len → Int32 :=
  plainFill H m (backends.insertionSort fun a b => a.id ≤ b.id) m.len

variable {H m}

theorem plainFill_succ {sorted : List BackendView} {k : ℕ} {v : BackendView}
    (h : sorted[k % sorted.length]? = some v) :
    plainFill H m sorted (k + 1) = plainTurn H m (plainFill H m sorted k) v := by
  rw [plainFill, h]

theorem position_candidate (v : BackendView) (j : ℕ) :
    position (candidate H m v.id v.addr v.port) j = preferred H m v j := by
  have hoffset : (candidate H m v.id v.addr v.port).offset.toNat =
      (H.maglevHashOffset (backendName v.addr v.port)).toNat % m.len := by
    rw [candidate, UInt64.toNat_mod, m.toUInt64_toNat]
  have hskip : (candidate H m v.id v.addr v.port).skip.toNat =
      (H.maglevHashSkip (backendName v.addr v.port)).toNat % (m.len - 1) + 1 := hash_mod_pred m _
  rw [position, preferred, Fin.mk.injEq, hoffset, hskip]

theorem plainTurn_firstEmpty {lookup : Fin m.len → Int32} {v : BackendView} {j : ℕ}
    (hlt : j < m.len) (hj : FirstEmpty lookup (candidate H m v.id v.addr v.port) j) :
    plainTurn H m lookup v = Function.update lookup (preferred H m v j) v.id.toInt32 := by
  have hfind : (List.range m.len).find? (fun i => decide (lookup (preferred H m v i) = -1)) =
      some j := by
    rw [List.find?_range_eq_some]
    refine ⟨?_, List.mem_range.mpr hlt, fun i hi => ?_⟩
    · rw [← position_candidate]
      exact decide_eq_true hj.empty
    · rw [← position_candidate, decide_eq_false (hj.filled i hi)]
      rfl
  have hlist : (preferenceList H m v).find? (fun s => lookup s = -1) =
      some (preferred H m v j) := by
    rw [preferenceList, List.find?_map]
    exact congrArg (Option.map _) hfind
  rw [plainTurn, hlist]

theorem candidates_sorted_length (backends : List BackendView) :
    (candidates H m backends).length =
      (backends.insertionSort fun a b => a.id ≤ b.id).length := List.length_map _

theorem candidates_get (backends : List BackendView) (b : Fin (candidates H m backends).length) :
    ∃ v ∈ backends, (backends.insertionSort fun a b => a.id ≤ b.id)[b.val]? = some v ∧
      (candidates H m backends).get b = candidate H m v.id v.addr v.port := by
  have hb : b.val < (backends.insertionSort fun a b => a.id ≤ b.id).length :=
    (candidates_sorted_length backends) ▸ b.isLt
  refine ⟨_, (List.mem_insertionSort _).mp (List.getElem_mem hb), List.getElem?_eq_getElem hb, ?_⟩
  exact List.getElem_map _

/-- The two fills agree after every turn. -/
theorem populate_plainFill {backends : List BackendView}
    (hid : ∀ v ∈ backends, v.id.toNat < 2 ^ 31) {hn : 0 < (candidates H m backends).length} {k : ℕ}
    {t : Fill m (candidates H m backends).length}
    (h : populate (candidates H m backends) hn k 0 (Fill.empty m _) = some t) :
    Kept (candidates H m backends) t ∧
      t.lookup = plainFill H m (backends.insertionSort fun a b => a.id ≤ b.id) k := by
  have hinv := populate_invariant (P := fun k t => Kept (candidates H m backends) t ∧
      t.lookup = plainFill H m (backends.insertionSort fun a b => a.id ≤ b.id) k)
    (fun k _ t t' hclaim ht => ?_) h ⟨empty_kept, rfl⟩
  · rwa [Nat.zero_add] at hinv
  · obtain ⟨v, hv, hsorted, hget⟩ :=
      candidates_get backends ⟨k % (candidates H m backends).length, Nat.mod_lt _ hn⟩
    have hids : ((candidates H m backends).get
        ⟨k % (candidates H m backends).length, Nat.mod_lt _ hn⟩).id.toInt32 ≠ -1 := by
      rw [hget]
      exact toInt32_ne_neg_one (hid v hv)
    refine ⟨claim_kept ht.1 hids hclaim, ?_⟩
    obtain ⟨s, hs, -⟩ := claim_spec hclaim
    obtain ⟨j, hlt, hj⟩ := exists_firstEmpty _ hs
    obtain ⟨next, -, hwrite⟩ := claim_firstEmpty ht.1 hlt hj
    rw [hclaim] at hwrite
    cases hwrite
    rw [hget] at hj
    dsimp only at hsorted
    rw [candidates_sorted_length] at hsorted
    rw [plainFill_succ hsorted, ← ht.2, plainTurn_firstEmpty hlt hj, ← position_candidate, hget]
    rfl

/-- The generator computes the table of the plain algorithm. -/
theorem generate_plainTable (H : Hashes) (m : TableSize) (backends : List BackendView)
    (hid : ∀ v ∈ backends, v.id.toNat < 2 ^ 31) :
    (maglevTableGenerate H m backends).lookup = plainTable H m backends := by
  rcases eq_or_ne backends [] with rfl | hne
  · have hnone : ∀ k, plainFill H m [] k = fun _ => -1 := by
      intro k
      induction k with
      | zero => rfl
      | succ k ih =>
          rw [plainFill, List.getElem?_nil]
          exact ih
    exact (hnone m.len).symm
  · obtain ⟨hn, hlookup⟩ := maglevTableGenerate_lookup H m hne
    obtain ⟨t, ht, hfill⟩ := populate_fillTable (candidates H m backends) hn
    rw [hlookup, hfill]
    exact (populate_plainFill hid ht).2

theorem generate_plainTable_rivals :
    (∀ v ∈ rivals, v.id.toNat < 2 ^ 31) ∧
      (maglevTableGenerate rivalHashes rivalSize rivals).lookup =
        plainTable rivalHashes rivalSize rivals :=
  ⟨by decide, generate_plainTable rivalHashes rivalSize rivals (by decide)⟩

end MaglevLb.PlainFill
