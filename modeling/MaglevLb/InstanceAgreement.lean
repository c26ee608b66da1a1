import MaglevLb.StartUp

/-!
# When two instances route alike

Two instances are given the same endpoints in two orders. A backend's id is its
position in the list and the fill visits candidates by id, so the order of the
options decides who wins a contested slot: the two tables name the same
endpoints whatever the hash only if the candidates that get a turn are listed in
the same order.
-/
namespace MaglevLb.InstanceAgreement
open PacketFormat Maglev BackendManager TableGenerator StartUp

def entryAt (t : MaglevTable) (i : ℕ) : Option Int32 :=
  if h : i < t.m.toNat then some (t.lookup ⟨i, h⟩) else none

/-- The endpoint a slot routes to. -/
def slotEndpoint (snap : RoutingSnapshot) (i : ℕ) : Option Endpoint :=
  (entryAt snap.table i).bind fun backendId =>
    (routingSnapshotFindBackend snap backendId).map fun v => ⟨v.addr, v.port⟩

/-- Both instances start and every slot routes to the same endpoint in both. -/
def Agree (H : Hashes) (m : TableSize) (arp arp' : UInt32 → Mac)
    (backends backends' : List Endpoint) : Prop :=
  ∃ snap snap', startInstance H m arp backends = some snap ∧
    startInstance H m arp' backends' = some snap' ∧
    ∀ i, slotEndpoint snap i = slotEndpoint snap' i

/-! ## The table of one instance -/

section Instance
variable {H : Hashes} {m : TableSize}

theorem listed_length (H : Hashes) (m : TableSize) (backends : List Endpoint) :
    (listed H m backends).length = backends.length := List.length_mapIdx

theorem entryAt_tableOfCandidates {cands : List (Candidate m)} (hn : 0 < cands.length) {i : ℕ}
    (hi : i < m.len) : entryAt (tableOfCandidates cands) i = some (fillTable cands hn ⟨i, hi⟩) := by
  have hlookup : (tableOfCandidates cands).lookup = fillTable cands hn :=
    dif_neg (Nat.ne_of_gt hn)
  unfold entryAt
  rw [dif_pos (show i < (tableOfCandidates cands).m.toNat from hi)]
  exact congrArg some (congrFun hlookup ⟨i, hi⟩)

theorem toInt32_ofNat_ne {i : ℕ} (hi : i < backendMax) : (UInt32.ofNat i).toInt32 ≠ -1 := by
  intro h
  rw [← noId_toInt32] at h
  have hnat := congrArg UInt32.toNat (toInt32_injective h)
  rw [UInt32.toNat_ofNat_of_lt' (hi.trans (by decide))] at hnat
  rw [hnat] at hi
  exact absurd hi (by decide)

variable {arp : UInt32 → Mac} {backends : List Endpoint} {bm : Manager}

theorem listed_get (b : Fin (listed H m backends).length) :
    (listed H m backends).get b = candidate H m (UInt32.ofNat b.val)
      (backends.get ⟨b.val, listed_length H m backends ▸ b.isLt⟩).addr
      (backends.get ⟨b.val, listed_length H m backends ▸ b.isLt⟩).port := by
  rw [List.get_eq_getElem]
  unfold listed
  rw [List.getElem_mapIdx]
  rfl

theorem listed_id_ne (hlen : backends.length ≤ backendMax) {c : Candidate m}
    (hc : c ∈ listed H m backends) : c.id.toInt32 ≠ -1 := by
  obtain ⟨i, hi, rfl⟩ := List.mem_mapIdx.mp hc
  exact toInt32_ofNat_ne (hi.trans_le hlen)

/-- The snapshot resolves a position of the list to the endpoint there. -/
theorem find_listed (h : Loaded arp backends bm) (hlen : backends.length ≤ backendMax)
    {j : ℕ} (hj : j < backends.length) :
    routingSnapshotFindBackend (currentSnapshot H m bm 1) (UInt32.ofNat j).toInt32 =
      some (copyView (entry arp j backends[j])) := by
  have hmem : entry arp j backends[j] ∈ bm.live := by
    rw [h.live]
    exact List.mem_mapIdx.mpr ⟨j, hj, rfl⟩
  exact find_currentSnapshot H m 1 (h.idsOk hlen) hmem rfl

theorem slotEndpoint_eq (h : Loaded arp backends bm) (hlen : backends.length ≤ backendMax)
    (hn : 0 < (listed H m backends).length) {i j : ℕ} (hi : i < m.len) (hj : j < backends.length)
    (hslot : fillTable (listed H m backends) hn ⟨i, hi⟩ = (UInt32.ofNat j).toInt32) :
    slotEndpoint (currentSnapshot H m bm 1) i = some backends[j] := by
  have htable : (currentSnapshot H m bm 1).table = tableOfCandidates (listed H m backends) := by
    rw [← h.candidates_eq hlen H m]
    rfl
  rw [slotEndpoint, htable, entryAt_tableOfCandidates hn hi, Option.bind_some, hslot,
    find_listed h hlen hj]
  rfl

theorem slotEndpoint_nil (h : Loaded arp [] bm) (i : ℕ) :
    slotEndpoint (currentSnapshot H m bm 1) i = none := by
  have hnone : ∀ backendId,
      routingSnapshotFindBackend (currentSnapshot H m bm 1) backendId = none := by
    intro backendId
    rw [routingSnapshotFindBackend, currentSnapshot, h.live]
    rfl
  simp [slotEndpoint, hnone]

theorem slotEndpoint_of_le (bm : Manager) {i : ℕ} (hi : m.len ≤ i) :
    slotEndpoint (currentSnapshot H m bm 1) i = none := by
  have hpast : ¬ i < (currentSnapshot H m bm 1).table.m.toNat := Nat.not_lt.mpr hi
  rw [slotEndpoint, entryAt, dif_neg hpast]
  rfl

/-- A slot holds the position of one of the first `m` options. -/
theorem fillTable_listed (hlen : backends.length ≤ backendMax)
    (hn : 0 < (listed H m backends).length) (s : Fin m.len) :
    ∃ j, j < m.len ∧ j < backends.length ∧
      fillTable (listed H m backends) hn s = (UInt32.ofNat j).toInt32 := by
  cases fillTable_claimed (listed H m backends) hn s with
  | inl hempty => exact absurd hempty (fillTable_ne _ hn (fun c hc => listed_id_ne hlen hc) s)
  | inr hclaimed =>
      obtain ⟨b, hbm, hs⟩ := hclaimed
      rw [listed_get] at hs
      exact ⟨b.val, hbm, listed_length H m backends ▸ b.isLt, hs⟩

end Instance

/-! ## Candidates without a turn -/

section Early
variable {m : TableSize} {cands cands' : List (Candidate m)}

/-- Two fills at the same point of their loops. -/
def Alike {n n' : ℕ} (t : Fill m n) (t' : Fill m n') : Prop :=
  t.lookup = t'.lookup ∧ ∀ i h h', t.next ⟨i, h⟩ = t'.next ⟨i, h'⟩

theorem claim_alike {i : ℕ} {hi : i < cands.length} {hi' : i < cands'.length}
    (hc : cands.get ⟨i, hi⟩ = cands'.get ⟨i, hi'⟩) {t u : Fill m cands.length}
    {t' : Fill m cands'.length} (h : Alike t t') (hu : claim cands ⟨i, hi⟩ t = some u) :
    ∃ u', claim cands' ⟨i, hi'⟩ t' = some u' ∧ Alike u u' := by
  obtain ⟨j, hj, rfl⟩ := Option.map_eq_some_iff.mp hu
  obtain ⟨hlookup, hnext⟩ := h
  rw [hlookup, hnext i hi hi', hc] at hj
  refine ⟨_, by rw [claim, hj, Option.map_some], ?_, ?_⟩
  · rw [hlookup, hc]
  · intro k hk hk'
    by_cases hki : k = i
    · subst hki
      simp
    · have hne : (⟨k, hk⟩ : Fin cands.length) ≠ ⟨i, hi⟩ := fun he => hki (Fin.mk.inj he)
      have hne' : (⟨k, hk'⟩ : Fin cands'.length) ≠ ⟨i, hi'⟩ := fun he => hki (Fin.mk.inj he)
      dsimp only
      rw [Function.update_of_ne hne, Function.update_of_ne hne']
      exact hnext k hk hk'

theorem populate_alike (hlen : cands.length = cands'.length) (hn : 0 < cands.length)
    (hn' : 0 < cands'.length)
    (hc : ∀ i < m.len, ∀ hi hi', cands.get ⟨i, hi⟩ = cands'.get ⟨i, hi'⟩)
    {turns roundRobin : ℕ} (hturns : roundRobin + turns ≤ m.len) {t u : Fill m cands.length}
    {t' : Fill m cands'.length} (h : Alike t t')
    (hu : populate cands hn turns roundRobin t = some u) :
    ∃ u', populate cands' hn' turns roundRobin t' = some u' ∧ Alike u u' := by
  induction turns generalizing roundRobin t t' with
  | zero =>
      cases hu
      exact ⟨t', rfl, h⟩
  | succ turns ih =>
      unfold populate at hu ⊢
      split at hu
      · cases hu
      · next t₁ hclaim =>
          have hearly : roundRobin % cands.length < m.len :=
            (Nat.mod_le ..).trans_lt (by omega)
          have hmod : roundRobin % cands.length < cands'.length := hlen ▸ Nat.mod_lt _ hn
          obtain ⟨t₁', hclaim', h₁⟩ := claim_alike (hc _ hearly _ hmod) h hclaim
          simp only [← hlen, hclaim']
          exact ih (by omega) h₁ hu

/-- The fill does not see candidates after the first `m`. -/
theorem fillTable_congr (hlen : cands.length = cands'.length) (hn : 0 < cands.length)
    (hn' : 0 < cands'.length)
    (hc : ∀ i < m.len, ∀ hi hi', cands.get ⟨i, hi⟩ = cands'.get ⟨i, hi'⟩) :
    fillTable cands hn = fillTable cands' hn' := by
  obtain ⟨t, ht, hl⟩ := populate_fillTable cands hn
  obtain ⟨t', ht', hl'⟩ := populate_fillTable cands' hn'
  have hstart : Alike (Fill.empty m cands.length) (Fill.empty m cands'.length) :=
    ⟨rfl, fun _ _ _ => rfl⟩
  obtain ⟨u, hu, hlookup, -⟩ := populate_alike hlen hn hn' hc (by omega) hstart ht
  rw [ht'] at hu
  cases hu
  rw [hl, hl', hlookup]

end Early

/-! ## A hash that separates all orders -/

section March
variable {m : TableSize} {cands : List (Candidate m)}

/-- The permutation that counts up from slot 0. -/
def CountsUp (c : Candidate m) : Prop :=
  ∀ j : UInt32, j.toNat < m.len → (slot c j).val = j.toNat

theorem probe_countsUp {lookup : Fin m.len → Int32} {c : Candidate m} (hc : CountsUp c) {k : ℕ}
    (hk : k < m.len) (hfilled : ∀ s : Fin m.len, s.val < k → lookup s ≠ -1)
    (hempty : lookup ⟨k, hk⟩ = -1) {fuel : ℕ} {j : UInt32} (hj : j.toNat ≤ k)
    (hfuel : k < j.toNat + fuel) : probe lookup c fuel j = some (UInt32.ofNat k) := by
  have hlen := m.len_lt
  induction fuel generalizing j with
  | zero => omega
  | succ fuel ih =>
      have hslot := hc j (by omega)
      unfold probe
      split
      · next he =>
          have hjk : j.toNat = k := by
            by_contra hne
            exact hfilled (slot c j) (by omega) he
          rw [← hjk, UInt32.ofNat_toNat]
      · next hne =>
          have hjk : j.toNat ≠ k := by
            intro hjk
            apply hne
            rw [← hempty]
            exact congrArg lookup (Fin.ext (hslot.trans hjk))
          have hsucc : (j + 1).toNat = j.toNat + 1 := by
            rw [UInt32.toNat_add, UInt32.toNat_one]
            omega
          exact ih (by omega) (by omega)

/-- After `k` turns the first `k` slots hold the ids in turn. -/
structure Marching (cands : List (Candidate m)) (hn : 0 < cands.length) (k : ℕ)
    (t : Fill m cands.length) : Prop where
  filled : ∀ s : Fin m.len, s.val < k →
    t.lookup s = (cands.get ⟨s.val % cands.length, Nat.mod_lt _ hn⟩).id.toInt32
  empty : ∀ s : Fin m.len, k ≤ s.val → t.lookup s = -1
  next : ∀ b, (t.next b).toNat ≤ k

theorem claim_marching {hn : 0 < cands.length} (hup : ∀ c ∈ cands, CountsUp c)
    (hid : ∀ c ∈ cands, c.id.toInt32 ≠ -1) {k : ℕ} (hk : k < m.len) {t t' : Fill m cands.length}
    (hclaim : claim cands ⟨k % cands.length, Nat.mod_lt _ hn⟩ t = some t')
    (h : Marching cands hn k t) : Marching cands hn (k + 1) t' := by
  have hlen := m.len_lt
  have hofNat : (UInt32.ofNat k).toNat = k := UInt32.toNat_ofNat_of_lt' (hk.trans hlen)
  have hprobe := probe_countsUp (hup _ (List.get_mem _ ⟨k % cands.length, Nat.mod_lt _ hn⟩)) hk
    (fun s hs => by rw [h.filled s hs]; exact hid _ (List.get_mem ..)) (h.empty _ (Nat.le_refl k))
    (h.next ⟨k % cands.length, Nat.mod_lt _ hn⟩) (show k < _ + 2 ^ 32 by omega)
  have hslot : slot (cands.get ⟨k % cands.length, Nat.mod_lt _ hn⟩) (UInt32.ofNat k) = ⟨k, hk⟩ :=
    Fin.ext ((hup _ (List.get_mem ..) _ (by omega)).trans hofNat)
  rw [claim, hprobe, Option.map_some, hslot] at hclaim
  cases hclaim
  constructor
  · intro s hs
    by_cases hsk : s.val = k
    · obtain rfl : s = ⟨k, hk⟩ := Fin.ext hsk
      exact Function.update_self ..
    · dsimp only
      rw [Function.update_of_ne (fun he => hsk (congrArg Fin.val he))]
      exact h.filled s (by omega)
  · intro s hs
    dsimp only
    rw [Function.update_of_ne (fun he => by rw [he] at hs; exact Nat.lt_irrefl _ hs)]
    exact h.empty s (by omega)
  · intro b
    dsimp only
    by_cases hb : b = ⟨k % cands.length, Nat.mod_lt _ hn⟩
    · rw [hb, Function.update_self, UInt32.toNat_add, UInt32.toNat_one, hofNat]
      omega
    · rw [Function.update_of_ne hb]
      exact (h.next b).trans (Nat.le_succ k)

theorem fillTable_marching (hn : 0 < cands.length) (hup : ∀ c ∈ cands, CountsUp c)
    (hid : ∀ c ∈ cands, c.id.toInt32 ≠ -1) (s : Fin m.len) :
    fillTable cands hn s = (cands.get ⟨s.val % cands.length, Nat.mod_lt _ hn⟩).id.toInt32 := by
  obtain ⟨t, ht, hl⟩ := populate_fillTable cands hn
  have hstart : Marching cands hn 0 (Fill.empty m cands.length) :=
    ⟨fun s hs => absurd hs (Nat.not_lt_zero _), fun _ _ => rfl, fun _ => Nat.le_refl 0⟩
  have h := populate_invariant (P := Marching cands hn)
    (fun k hk _ _ hc hm => claim_marching hup hid (by omega) hc hm) ht hstart
  rw [Nat.zero_add] at h
  rw [hl]
  exact h.filled s s.isLt

/-- Every name hashes to 0. -/
def zeroHashes : Hashes := ⟨fun _ => 0, fun _ => 0, fun _ => 0⟩

theorem zeroHashes_countsUp {backends : List Endpoint} {c : Candidate m}
    (hc : c ∈ listed zeroHashes m backends) : CountsUp c := by
  intro j hj
  obtain ⟨i, hi, rfl⟩ := List.mem_mapIdx.mp hc
  have hoffset : (candidate zeroHashes m (UInt32.ofNat i) backends[i].addr
      backends[i].port).offset.toNat = 0 := by
    simp [candidate, zeroHashes]
  have hskip : (candidate zeroHashes m (UInt32.ofNat i) backends[i].addr
      backends[i].port).skip.toNat = 1 := by
    simp [candidate, zeroHashes]
  rw [slot_val, hoffset, hskip, Nat.zero_add, Nat.mul_one, Nat.mod_eq_of_lt hj]

end March

/-! ## Agreement -/

variable {m : TableSize} {backends backends' : List Endpoint}

theorem get_of_take {k : ℕ} (h : backends.take k = backends'.take k) {i : ℕ} (hk : i < k)
    (hi : i < backends.length) (hi' : i < backends'.length) :
    backends.get ⟨i, hi⟩ = backends'.get ⟨i, hi'⟩ := by
  have hget := congrArg (fun l => l[i]?) h
  rwa [List.getElem?_take_of_lt hk, List.getElem?_take_of_lt hk, List.getElem?_eq_getElem hi,
    List.getElem?_eq_getElem hi', Option.some.injEq] at hget

theorem agree_of_take (hlen : backends.length ≤ backendMax)
    (hsame : backends.length = backends'.length)
    (htake : backends.take m.len = backends'.take m.len) (H : Hashes) (arp arp' : UInt32 → Mac) :
    Agree H m arp arp' backends backends' := by
  obtain ⟨bm, hbm, hstart⟩ := startInstance_eq H m arp hlen
  obtain ⟨bm', hbm', hstart'⟩ := startInstance_eq H m arp' (hsame ▸ hlen)
  refine ⟨_, _, hstart, hstart', ?_⟩
  intro i
  by_cases hi : i < m.len
  · by_cases hnil : backends = []
    · have hnil' : backends' = [] := by
        rw [hnil] at hsame
        exact List.length_eq_zero_iff.mp hsame.symm
      rw [hnil] at hbm
      rw [hnil'] at hbm'
      rw [slotEndpoint_nil hbm, slotEndpoint_nil hbm']
    · have hpos : 0 < backends.length := List.length_pos_iff.mpr hnil
      have hn : 0 < (listed H m backends).length := by rwa [listed_length]
      have hn' : 0 < (listed H m backends').length := by rwa [listed_length, ← hsame]
      have htables : fillTable (listed H m backends) hn = fillTable (listed H m backends') hn' := by
        apply fillTable_congr
        · rw [listed_length, listed_length, hsame]
        · intro k hk hk₁ hk₂
          rw [listed_get, listed_get, get_of_take htake hk]
      obtain ⟨j, hjm, hj, hslot⟩ := fillTable_listed hlen hn ⟨i, hi⟩
      have hslot' := hslot
      rw [htables] at hslot'
      rw [slotEndpoint_eq hbm hlen hn hi hj hslot,
        slotEndpoint_eq hbm' (hsame ▸ hlen) hn' hi (hsame ▸ hj) hslot']
      exact congrArg some (get_of_take htake hjm hj (hsame ▸ hj))
  · rw [slotEndpoint_of_le bm (Nat.not_lt.mp hi), slotEndpoint_of_le bm' (Nat.not_lt.mp hi)]

/-- When all names hash alike, slot `i` goes to option `i`. -/
theorem slotEndpoint_zeroHashes {arp : UInt32 → Mac} {bm : Manager}
    (h : Loaded arp backends bm) (hlen : backends.length ≤ backendMax) {i : ℕ} (hm : i < m.len)
    (hi : i < backends.length) :
    slotEndpoint (currentSnapshot zeroHashes m bm 1) i = some backends[i] := by
  have hn : 0 < (listed zeroHashes m backends).length := by
    rw [listed_length]
    omega
  apply slotEndpoint_eq h hlen hn hm hi
  rw [fillTable_marching hn (fun c hc => zeroHashes_countsUp hc)
    (fun c hc => listed_id_ne hlen hc), listed_get]
  simp only [listed_length, Nat.mod_eq_of_lt hi]
  rfl

theorem take_of_agree (hlen : backends.length ≤ backendMax)
    (hsame : backends.length = backends'.length) {arp arp' : UInt32 → Mac}
    (h : Agree zeroHashes m arp arp' backends backends') :
    backends.take m.len = backends'.take m.len := by
  obtain ⟨bm, hbm, hstart⟩ := startInstance_eq zeroHashes m arp hlen
  obtain ⟨bm', hbm', hstart'⟩ := startInstance_eq zeroHashes m arp' (hsame ▸ hlen)
  obtain ⟨snap, snap', hsnap, hsnap', hagree⟩ := h
  rw [hstart] at hsnap
  rw [hstart'] at hsnap'
  cases hsnap
  cases hsnap'
  apply List.ext_getElem
  · rw [List.length_take, List.length_take, hsame]
  · intro i hi hi'
    rw [List.length_take] at hi hi'
    have hslot := hagree i
    rw [slotEndpoint_zeroHashes hbm hlen (by omega) (by omega),
      slotEndpoint_zeroHashes hbm' (hsame ▸ hlen) (by omega) (by omega)] at hslot
    rw [List.getElem_take, List.getElem_take]
    exact Option.some.inj hslot

/-- Two instances that list the same endpoints route alike under every hash exactly
when the options that get a turn stand in the same order: with no more backends
than slots, exactly when the two lists are the same. -/
theorem instances_agree (m : TableSize) (arp arp' : UInt32 → Mac)
    (backends backends' : List Endpoint) (hperm : backends.Perm backends')
    (hlen : backends.length ≤ backendMax) :
    (∀ H, Agree H m arp arp' backends backends') ↔
      backends.take m.len = backends'.take m.len := by
  constructor
  · intro h
    exact take_of_agree hlen hperm.length_eq (h zeroHashes)
  · intro htake H
    exact agree_of_take hlen hperm.length_eq htake H arp arp'

/-- Three slots, five backends, the last two swapped. -/
theorem instances_agree_sample :
    let arp : UInt32 → Mac := fun _ => Vector.replicate 6 2
    let e (host : UInt32) : Endpoint := ⟨host * 0x1000000 + 10, 80⟩
    let backends := [e 11, e 12, e 13, e 14, e 15]
    let backends' := [e 11, e 12, e 13, e 15, e 14]
    backends ≠ backends' ∧ ∀ H, Agree H Datapath.sampleSize arp arp backends backends' := by
  intro arp e backends backends'
  refine ⟨by decide, ?_⟩
  exact (instances_agree Datapath.sampleSize arp arp backends backends' (by decide) (by decide)).mpr
    (by decide)

/-- 10.0.0.11:80 and 10.0.0.12:80, listed in the two orders, in a table of three
slots: the first slot goes to whichever is listed first. -/
theorem swapped_options_disagree :
    let arp : UInt32 → Mac := fun _ => Vector.replicate 6 2
    let a : Endpoint := ⟨0x0b00000a, 80⟩
    let b : Endpoint := ⟨0x0c00000a, 80⟩
    (startInstance Datapath.sampleHashes Datapath.sampleSize arp [a, b]).map
        (fun snap => slotEndpoint snap 0) = some (some a) ∧
      (startInstance Datapath.sampleHashes Datapath.sampleSize arp [b, a]).map
        (fun snap => slotEndpoint snap 0) = some (some b) ∧
      ¬ Agree Datapath.sampleHashes Datapath.sampleSize arp arp [a, b] [b, a] := by
  intro arp a b
  have hab : (startInstance Datapath.sampleHashes Datapath.sampleSize arp [a, b]).map
      (fun snap => slotEndpoint snap 0) = some (some a) := by decide +kernel
  have hba : (startInstance Datapath.sampleHashes Datapath.sampleSize arp [b, a]).map
      (fun snap => slotEndpoint snap 0) = some (some b) := by decide +kernel
  refine ⟨hab, hba, ?_⟩
  intro h
  obtain ⟨snap, snap', hs, hs', hagree⟩ := h
  rw [hs, Option.map_some] at hab
  rw [hs', Option.map_some, ← hagree 0] at hba
  exact absurd (hab.symm.trans hba) (by decide)

end MaglevLb.InstanceAgreement
