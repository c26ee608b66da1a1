import MaglevLb.FullCycle
import MaglevLb.PacketFormat
import Mathlib.Data.List.Sort
import Mathlib.Algebra.BigOperators.Fin

/-!
# The Maglev lookup table and the routing snapshot

The table is filled in rounds: every candidate in turn claims the next slot of
its own permutation that is still empty, with a cursor that survives between
rounds. The probe loop has no bound of its own. Its cursor is a 32-bit counter,
so 2^32 probes without an empty slot mean that it never stops; that is the
fuel, and running out of it stands for a fill that does not return. A prime
table size excludes this, and `main` refuses every other size.

The three keyed hashes are the only code outside the repository.
-/
namespace MaglevLb.Maglev
open PacketFormat

/-- One hash function under its three seeds. -/
structure Hashes where
  maglevHashOffset : List Char → UInt64
  maglevHashSkip : List Char → UInt64
  flowHash : FlowKey → UInt64

structure BackendView where
  id : UInt32
  addr : UInt32
  port : UInt16
  mac : Mac
deriving DecidableEq, Repr

/-- A table size that passed the start-up check. -/
structure TableSize where
  size : UInt32
  prime : size.toNat.Prime

namespace TableSize
variable (m : TableSize)

/-- The number of slots. -/
def len : ℕ := m.size.toNat

theorem len_pos : 0 < m.len := m.prime.pos

theorem two_le_len : 2 ≤ m.len := m.prime.two_le

theorem len_lt : m.len < 2 ^ 32 := m.size.toNat_lt

@[simp] theorem toUInt64_toNat : m.size.toUInt64.toNat = m.len := m.size.toNat_toUInt64

theorem pred_toNat : (m.size - 1).toUInt64.toNat = m.len - 1 := by
  have h := m.two_le_len
  have hle : (1 : UInt32) ≤ m.size := by
    rw [UInt32.le_iff_toNat_le]
    exact Nat.le_of_succ_le h
  rw [UInt32.toNat_toUInt64, UInt32.toNat_sub_of_le _ _ hle]
  rfl

end TableSize

/-- `"%u.%u.%u.%u:%u"` over the address bytes in memory order and the port. -/
def backendName (addr : UInt32) (port : UInt16) : List Char :=
  let quad := (Bytes.le32Bytes addr).map fun b => Nat.toDigits 10 b.toNat
  ['.'].intercalate quad ++ ':' :: Nat.toDigits 10 port.toNat

/-- One entry of the sorted candidate array with its permutation parameters. -/
structure Candidate (m : TableSize) where
  id : UInt32
  offset : UInt64
  skip : UInt64
  offset_lt : offset.toNat < m.len
  skip_pos : 0 < skip.toNat
  skip_lt : skip.toNat < m.len

theorem hash_mod_lt (m : TableSize) (h : UInt64) : (h % m.size.toUInt64).toNat < m.len := by
  rw [UInt64.toNat_mod, m.toUInt64_toNat]
  exact Nat.mod_lt _ m.len_pos

theorem hash_mod_pred (m : TableSize) (h : UInt64) :
    (h % (m.size - 1).toUInt64 + 1).toNat = h.toNat % (m.len - 1) + 1 := by
  have hlen := m.len_lt
  have htwo := m.two_le_len
  have hmod : h.toNat % (m.len - 1) < m.len - 1 := Nat.mod_lt _ (by omega)
  rw [UInt64.toNat_add, UInt64.toNat_mod, m.pred_toNat, UInt64.toNat_one]
  omega

def candidate (H : Hashes) (m : TableSize) (id addr : UInt32) (port : UInt16) : Candidate m where
  id := id
  offset := H.maglevHashOffset (backendName addr port) % m.size.toUInt64
  skip := H.maglevHashSkip (backendName addr port) % (m.size - 1).toUInt64 + 1
  offset_lt := hash_mod_lt m _
  skip_pos := by rw [hash_mod_pred]; omega
  skip_lt := by
    have htwo := m.two_le_len
    have hmod := Nat.mod_lt (H.maglevHashSkip (backendName addr port)).toNat
      (show 0 < m.len - 1 by omega)
    rw [hash_mod_pred]
    omega

section Fill
variable {m : TableSize}

/-- `(uint32_t)((offset + (uint64_t)j * skip) % m)`, in 64-bit arithmetic. -/
def slot (c : Candidate m) (j : UInt32) : Fin m.len :=
  ⟨((c.offset + j.toUInt64 * c.skip) % m.size.toUInt64).toUInt32.toNat, by
    have h := hash_mod_lt m (c.offset + j.toUInt64 * c.skip)
    have hlen := m.len_lt
    rw [UInt64.toNat_toUInt32]
    omega⟩

/-- The 64-bit product and sum do not wrap. -/
theorem slot_val (c : Candidate m) (j : UInt32) :
    (slot c j).val = (c.offset.toNat + j.toNat * c.skip.toNat) % m.len := by
  have hlen := m.len_lt
  have hoff := c.offset_lt
  have hskip := c.skip_lt
  have hj := j.toNat_lt
  have hmul : j.toNat * c.skip.toNat ≤ (2 ^ 32 - 1) * (2 ^ 32 - 1) :=
    Nat.mul_le_mul (by omega) (by omega)
  have hsum : c.offset.toNat + j.toNat * c.skip.toNat < 2 ^ 64 := by omega
  have hval : (c.offset + j.toUInt64 * c.skip).toNat =
      c.offset.toNat + j.toNat * c.skip.toNat := by
    rw [UInt64.toNat_add, UInt64.toNat_mul, UInt32.toNat_toUInt64]
    omega
  have hmod := Nat.mod_lt (c.offset.toNat + j.toNat * c.skip.toNat) m.len_pos
  simp only [slot, UInt64.toNat_toUInt32, UInt64.toNat_mod, m.toUInt64_toNat, hval]
  omega

/-- The first turn of a candidate's cycle meets every slot. -/
theorem slot_surjective (c : Candidate m) (s : Fin m.len) :
    ∃ j : UInt32, j.toNat < m.len ∧ slot c j = s := by
  obtain ⟨j, hj, hs⟩ := FullCycle.stride_surjective m.prime c.skip_pos c.skip_lt
    c.offset.toNat s.isLt
  have hlen := m.len_lt
  have hofNat : (UInt32.ofNat j).toNat = j := by
    rw [UInt32.toNat_ofNat']
    exact Nat.mod_eq_of_lt (hj.trans hlen)
  refine ⟨UInt32.ofNat j, by rwa [hofNat], Fin.ext ?_⟩
  rw [slot_val, hofNat]
  exact hs

/-- The inner loop: advance the cursor until its slot is empty. -/
def probe (lookup : Fin m.len → Int32) (c : Candidate m) : ℕ → UInt32 → Option UInt32
  | 0, _ => none
  | fuel + 1, j => if lookup (slot c j) = -1 then some j else probe lookup c fuel (j + 1)

structure Fill (m : TableSize) (n : ℕ) where
  lookup : Fin m.len → Int32
  next : Fin n → UInt32

/-- One turn of the outer loop for candidate `b`. -/
def claim (cands : List (Candidate m)) (b : Fin cands.length) (t : Fill m cands.length) :
    Option (Fill m cands.length) :=
  (probe t.lookup (cands.get b) (2 ^ 32) (t.next b)).map fun j =>
    { lookup := Function.update t.lookup (slot (cands.get b) j) (cands.get b).id.toInt32
      next := Function.update t.next b (j + 1) }

/-- The outer loop with the number of turns still to take. -/
def populate (cands : List (Candidate m)) (hn : 0 < cands.length) :
    ℕ → ℕ → Fill m cands.length → Option (Fill m cands.length)
  | 0, _, t => some t
  | turns + 1, roundRobin, t =>
      match claim cands ⟨roundRobin % cands.length, Nat.mod_lt _ hn⟩ t with
      | none => none
      | some t' => populate cands hn turns (roundRobin + 1) t'

def Fill.empty (m : TableSize) (n : ℕ) : Fill m n := ⟨fun _ => -1, fun _ => 0⟩

theorem probe_isSome {lookup : Fin m.len → Int32} (c : Candidate m) {fuel k : ℕ} {j : UInt32}
    (hk : k < fuel) (h : lookup (slot c (j + UInt32.ofNat k)) = -1) :
    (probe lookup c fuel j).isSome := by
  induction fuel generalizing j k with
  | zero => omega
  | succ fuel ih =>
      unfold probe
      split
      · rfl
      · cases k with
        | zero => simp_all
        | succ k =>
            apply ih (Nat.lt_of_succ_lt_succ hk)
            rwa [UInt32.add_assoc, UInt32.add_comm 1, ← UInt32.ofNat_one, ← UInt32.ofNat_add]

/-- The 32-bit cursor comes round to the position of any empty slot. -/
theorem claim_isSome (cands : List (Candidate m)) (b : Fin cands.length)
    (t : Fill m cands.length) {s : Fin m.len} (hs : t.lookup s = -1) :
    (claim cands b t).isSome := by
  obtain ⟨j, -, hj⟩ := slot_surjective (cands.get b) s
  have hcur : t.next b + UInt32.ofNat (j - t.next b).toNat = j := by
    rw [UInt32.ofNat_toNat, UInt32.add_comm, UInt32.sub_add_cancel]
  rw [claim, Option.isSome_map]
  apply probe_isSome _ (j - t.next b).toNat_lt
  rw [hcur, hj, hs]

/-- The number of slots that hold a backend id. -/
def Fill.filled {n : ℕ} (t : Fill m n) : ℕ :=
  (Finset.univ.filter fun s => t.lookup s ≠ -1).card

theorem Fill.exists_empty {n : ℕ} {t : Fill m n} (h : t.filled < m.len) :
    ∃ s, t.lookup s = -1 := by
  by_contra hne
  push Not at hne
  apply Nat.ne_of_lt h
  rw [Fill.filled, Finset.filter_true_of_mem (fun s _ => hne s), Finset.card_univ, Fintype.card_fin]

theorem claim_filled {cands : List (Candidate m)} {b : Fin cands.length}
    {t t' : Fill m cands.length} (h : claim cands b t = some t') :
    t'.filled ≤ t.filled + 1 := by
  obtain ⟨j, -, rfl⟩ := Option.map_eq_some_iff.mp h
  refine (Finset.card_le_card ?_).trans (Finset.card_insert_le (slot (cands.get b) j) _)
  intro s hs
  simp only [Finset.mem_filter, Finset.mem_univ, true_and, Finset.mem_insert] at hs ⊢
  rcases eq_or_ne s (slot (cands.get b) j) with he | he
  · exact Or.inl he
  · exact Or.inr (by rwa [Function.update_of_ne he] at hs)

/-- The fill returns: every turn still finds an empty slot. -/
theorem populate_isSome (cands : List (Candidate m)) (hn : 0 < cands.length)
    {turns roundRobin : ℕ} {t : Fill m cands.length} (h : t.filled + turns ≤ m.len) :
    (populate cands hn turns roundRobin t).isSome := by
  induction turns generalizing roundRobin t with
  | zero => rfl
  | succ turns ih =>
      obtain ⟨s, hs⟩ := Fill.exists_empty (t := t) (by omega)
      obtain ⟨t', ht'⟩ := Option.isSome_iff_exists.mp (claim_isSome cands
        ⟨roundRobin % cands.length, Nat.mod_lt _ hn⟩ t hs)
      have hle := claim_filled ht'
      unfold populate
      rw [ht']
      exact ih (by omega)

theorem Fill.filled_empty (m : TableSize) (n : ℕ) : (Fill.empty m n).filled = 0 := by
  simp [Fill.filled, Fill.empty]

/-- The finished slot array for a sorted candidate array. -/
def fillTable (cands : List (Candidate m)) (hn : 0 < cands.length) : Fin m.len → Int32 :=
  ((populate cands hn m.len 0 (Fill.empty m cands.length)).get
    (populate_isSome cands hn (by rw [Fill.filled_empty]; omega))).lookup

end Fill

/-- `lookup` has `m` slots; each holds a backend id or -1. -/
structure MaglevTable where
  m : UInt32
  m_pos : 0 < m.toNat
  lookup : Fin m.toNat → Int32

/-- The candidate array: sorted by id, with the permutation of each backend. -/
def candidates (H : Hashes) (m : TableSize) (backends : List BackendView) :
    List (Candidate m) :=
  (backends.insertionSort fun a b => a.id ≤ b.id).map fun v => candidate H m v.id v.addr v.port

theorem candidates_length (H : Hashes) (m : TableSize) (backends : List BackendView) :
    (candidates H m backends).length = backends.length := by
  rw [candidates, List.length_map, List.length_insertionSort]

def maglevTableGenerate (H : Hashes) (m : TableSize) (backends : List BackendView) :
    MaglevTable where
  m := m.size
  m_pos := m.prime.pos
  lookup :=
    if h : (candidates H m backends).length = 0 then fun _ => -1
    else fillTable (candidates H m backends) (Nat.pos_of_ne_zero h)

def maglevTableLookup (H : Hashes) (t : MaglevTable) (key : FlowKey) : Int32 :=
  t.lookup ⟨(H.flowHash key).toNat % t.m.toNat, Nat.mod_lt _ t.m_pos⟩

structure RoutingSnapshot where
  table : MaglevTable
  backends : List BackendView
  generation : UInt64

/-- The table is built from `candidates`, the resolvable array is a copy of
`routable`. `none` when one of the allocations fails. -/
def routingSnapshotCreate (H : Hashes) (allocOk : Bool) (routable cands : List BackendView)
    (m : TableSize) (generation : UInt64) : Option RoutingSnapshot :=
  if allocOk then some ⟨maglevTableGenerate H m cands, routable, generation⟩ else none

def routingSnapshotFindBackend (snap : RoutingSnapshot) (backendId : Int32) :
    Option BackendView :=
  snap.backends.find? fun v => v.id.toInt32 == backendId

end MaglevLb.Maglev
