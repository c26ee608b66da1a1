import MaglevLb.SnapshotFreshness

/-!
# The first table of an instance

`main` adds the `--backend` options in the order they are listed and resolves the
hardware address of each, then builds the first table. The ids are therefore the
positions in the list, and the slots, the candidates and the resolvable array are
all in that order.
-/
namespace MaglevLb.StartUp
open PacketFormat Maglev SlotScan BackendManager TableGenerator

structure Endpoint where
  addr : UInt32
  port : UInt16
deriving DecidableEq, Repr

/-- One turn of the loop over the options. `arp` answers for every address; `none`
when the table is full. -/
def addBackend (arp : UInt32 → Mac) (bm : Manager) (e : Endpoint) : Option Manager :=
  let added := backendManagerAdd bm e.addr e.port
  if added.2 = noId then none
  else some (backendManagerSetMac added.1 added.2 (arp e.addr)).1

def addBackends (arp : UInt32 → Mac) (bm : Manager) (backends : List Endpoint) : Option Manager :=
  backends.foldlM (addBackend arp) bm

/-- The snapshot an instance serves from when its threads start. -/
def startInstance (H : Hashes) (m : TableSize) (arp : UInt32 → Mac) (backends : List Endpoint) :
    Option RoutingSnapshot :=
  (addBackends arp backendManagerCreate backends).bind fun bm =>
    (startControlPlane H m bm).tg.active

/-! ## The manager after the loop -/

variable (arp : UInt32 → Mac)

/-- The backend at a position of the list, resolved and healthy. -/
def entry (i : ℕ) (e : Endpoint) : Backend :=
  ⟨UInt32.ofNat i, e.addr, e.port, arp e.addr, true, true, .enabled⟩

/-- The slots are taken in list order and the next id is the next position. -/
structure Loaded (backends : List Endpoint) (bm : Manager) : Prop where
  slots : bm.slots = (backends.mapIdx (entry arp)).map (Slot.mk true) ++
    List.replicate (backendMax - backends.length) Slot.zero
  nextId : bm.nextId = UInt32.ofNat backends.length

theorem backendManagerCreate_loaded : Loaded arp [] backendManagerCreate := ⟨rfl, rfl⟩

theorem ofNat_injOn {i j : ℕ} (hi : i < backendMax) (hj : j < backendMax)
    (h : UInt32.ofNat i = UInt32.ofNat j) : i = j := by
  have hsize : backendMax < UInt32.size := by decide
  have hnat := congrArg UInt32.toNat h
  rwa [UInt32.toNat_ofNat_of_lt' (hi.trans hsize), UInt32.toNat_ofNat_of_lt' (hj.trans hsize)]
    at hnat

variable {arp} {backends : List Endpoint} {bm : Manager}

theorem entry_id_ne {s : Slot} (hlen : backends.length < backendMax)
    (hs : s ∈ (backends.mapIdx (entry arp)).map (Slot.mk true)) :
    s.used = true ∧ s.backend.id ≠ UInt32.ofNat backends.length := by
  obtain ⟨b, hb, rfl⟩ := List.mem_map.mp hs
  obtain ⟨i, hi, rfl⟩ := List.mem_mapIdx.mp hb
  refine ⟨rfl, ?_⟩
  intro hid
  exact Nat.ne_of_lt hi (ofNat_injOn (hi.trans hlen) hlen hid)

theorem addBackend_loaded (h : Loaded arp backends bm) (hroom : backends.length < backendMax)
    (e : Endpoint) :
    ∃ bm', addBackend arp bm e = some bm' ∧ Loaded arp (backends ++ [e]) bm' := by
  have hk : backendMax - backends.length = (backendMax - (backends ++ [e]).length) + 1 := by
    rw [List.length_append, List.length_singleton]
    omega
  have hslots := h.slots
  rw [hk, List.replicate_succ] at hslots
  have hused : ∀ s ∈ (backends.mapIdx (entry arp)).map (Slot.mk true), s.used = true ∧
      s.backend.id ≠ UInt32.ofNat backends.length := fun s hs => entry_id_ne hroom hs
  obtain ⟨bm₁, hadd, hslots₁, -⟩ := Manager.rewrite_append (p := fun s => !s.used)
    (f := fun _ => ⟨true, freshBackend bm.nextId e.addr e.port⟩) hslots
    (fun s hs => by rw [(hused s hs).1]; rfl) rfl
  have hadd' : backendManagerAdd bm e.addr e.port =
      ({ bm₁ with nextId := bm.nextId + 1 }, bm.nextId) := by
    unfold backendManagerAdd
    rw [hadd]
  have hfirst : ∀ s ∈ (backends.mapIdx (entry arp)).map (Slot.mk true),
      holdsId bm.nextId s = false := by
    intro s hs
    simp [holdsId, h.nextId, (hused s hs).2]
  have hnew : holdsId bm.nextId ⟨true, freshBackend bm.nextId e.addr e.port⟩ = true :=
    holdsId_iff.mpr ⟨rfl, rfl⟩
  obtain ⟨bm₂, hmac, hslots₂, hnext₂⟩ := updateBackend_append
    { bm₁ with nextId := bm.nextId + 1 } (fun _ => true)
    (fun b => { b with mac := arp e.addr, macResolved := true }) hslots₁ hfirst hnew rfl
  have hid : bm.nextId ≠ noId := by
    intro hno
    rw [h.nextId] at hno
    have hnat := congrArg UInt32.toNat hno
    rw [UInt32.toNat_ofNat_of_lt' (hroom.trans (by decide))] at hnat
    rw [hnat] at hroom
    exact absurd hroom (by decide)
  refine ⟨bm₂, ?_, ?_, ?_⟩
  · unfold addBackend
    rw [hadd']
    dsimp only
    rw [if_neg hid, backendManagerSetMac, hmac]
  · rw [hslots₂, List.mapIdx_concat, List.map_append, List.append_assoc, h.nextId]
    rfl
  · rw [hnext₂, h.nextId, List.length_append, List.length_singleton, UInt32.ofNat_add]
    rfl

theorem addBackends_loaded {rest : List Endpoint} (h : Loaded arp backends bm)
    (hroom : backends.length + rest.length ≤ backendMax) :
    ∃ bm', addBackends arp bm rest = some bm' ∧ Loaded arp (backends ++ rest) bm' := by
  induction rest generalizing backends bm with
  | nil =>
      rw [List.append_nil]
      exact ⟨bm, rfl, h⟩
  | cons e rest ih =>
      rw [List.length_cons] at hroom
      obtain ⟨bm₁, hadd, h₁⟩ := addBackend_loaded h (by omega) e
      rw [List.append_cons, addBackends, List.foldlM_cons, hadd]
      apply ih h₁
      rw [List.length_append, List.length_singleton]
      omega

/-- A full table takes no further backend. -/
theorem addBackend_full (h : Loaded arp backends bm) (hfull : backends.length = backendMax)
    (e : Endpoint) : addBackend arp bm e = none := by
  have hnone : bm.rewrite (fun s => !s.used)
      (fun _ => ⟨true, freshBackend bm.nextId e.addr e.port⟩) = none := by
    rw [Manager.rewrite_eq_none, h.slots, hfull, Nat.sub_self, List.replicate_zero, List.append_nil]
    intro s hs
    obtain ⟨x, -, rfl⟩ := List.mem_map.mp hs
    rfl
  unfold addBackend backendManagerAdd
  rw [hnone]
  rfl

theorem addBackends_full {backends : List Endpoint} (hlen : backendMax < backends.length) :
    addBackends arp backendManagerCreate backends = none := by
  have htake : (backends.take backendMax).length = backendMax := by
    rw [List.length_take]
    omega
  have hfits : ([] : List Endpoint).length + (backends.take backendMax).length ≤ backendMax := by
    rw [htake]
    exact le_rfl
  obtain ⟨bm, hadd, hloaded⟩ := addBackends_loaded (backendManagerCreate_loaded arp) hfits
  cases hdrop : backends.drop backendMax with
  | nil =>
      rw [List.drop_eq_nil_iff] at hdrop
      omega
  | cons e rest =>
      rw [addBackends] at hadd ⊢
      rw [← List.take_append_drop backendMax backends, List.foldlM_append, hadd, hdrop,
        Option.bind_eq_bind, Option.bind_some, List.foldlM_cons, addBackend_full hloaded htake]
      rfl

theorem Loaded.live (h : Loaded arp backends bm) : bm.live = backends.mapIdx (entry arp) := by
  have hused : ((backends.mapIdx (entry arp)).map (Slot.mk true)).filter Slot.used =
      (backends.mapIdx (entry arp)).map (Slot.mk true) := by
    rw [List.filter_eq_self]
    intro s hs
    obtain ⟨b, -, rfl⟩ := List.mem_map.mp hs
    rfl
  rw [Manager.live, h.slots, List.filter_append, hused, List.filter_replicate, if_neg (by decide),
    List.append_nil, List.map_map]
  exact List.map_id _

theorem Loaded.idsOk (h : Loaded arp backends bm) (hlen : backends.length ≤ backendMax) :
    bm.IdsOk := by
  constructor
  · rw [h.live, List.Nodup, List.pairwise_map, List.pairwise_iff_getElem]
    intro i j hi hj hij
    rw [List.length_mapIdx] at hi hj
    rw [List.getElem_mapIdx, List.getElem_mapIdx]
    intro hid
    exact Nat.ne_of_lt hij (ofNat_injOn (by omega) (by omega) hid)
  · rw [h.live, h.nextId]
    intro x hx
    obtain ⟨i, hi, rfl⟩ := List.mem_mapIdx.mp hx
    have hsize : backendMax < UInt32.size := by decide
    rw [entry, UInt32.toNat_ofNat_of_lt' (by omega), UInt32.toNat_ofNat_of_lt' (by omega)]
    exact hi

/-- Every option is found under its position. -/
theorem Loaded.findSlot_ofNat (h : Loaded arp backends bm) (hlen : backends.length ≤ backendMax)
    {i : ℕ} (hi : i < backends.length) :
    findSlot bm (UInt32.ofNat i) = some (entry arp i backends[i]) := by
  have hx : entry arp i backends[i] ∈ bm.live := by
    rw [h.live]
    exact List.mem_mapIdx.mpr ⟨i, hi, rfl⟩
  obtain ⟨s, hs, hid⟩ := exists_slot_of_live hx
  rw [findSlot]
  cases hf : bm.slots.find? (holdsId (UInt32.ofNat i)) with
  | none => exact absurd hid (List.find?_eq_none.mp hf s hs)
  | some s' =>
      obtain ⟨hu, hid'⟩ := holdsId_iff.mp (List.find?_some hf)
      have hlive : s'.backend ∈ bm.live :=
        List.mem_map_of_mem (List.mem_filter.mpr ⟨List.mem_of_find?_eq_some hf, hu⟩)
      exact congrArg some (live_eq_of_id (h.idsOk hlen) hlive hx hid')

/-- An instance with at most 64 options starts, on the snapshot of the loaded manager. -/
theorem startInstance_eq (H : Hashes) (m : TableSize) (arp : UInt32 → Mac)
    (hlen : backends.length ≤ backendMax) :
    ∃ bm, Loaded arp backends bm ∧
      startInstance H m arp backends = some (currentSnapshot H m bm 1) := by
  have hroom : ([] : List Endpoint).length + backends.length ≤ backendMax := by
    rwa [List.length_nil, Nat.zero_add]
  obtain ⟨bm, hadd, hloaded⟩ := addBackends_loaded (backendManagerCreate_loaded arp) hroom
  rw [List.nil_append] at hloaded
  obtain ⟨hfresh, hbm, hm, hgen⟩ := startControlPlane_fresh H m bm
  refine ⟨bm, hloaded, ?_⟩
  rw [startInstance, hadd, Option.bind_some, hfresh.active, hbm, hm, hgen]
  rfl

/-! ## Its candidates and its table -/

/-- The candidates, in list order. -/
def listed (H : Hashes) (m : TableSize) (backends : List Endpoint) : List (Candidate m) :=
  backends.mapIdx fun i e => candidate H m (UInt32.ofNat i) e.addr e.port

theorem filter_entries {keep : Backend → Bool} (h : ∀ i e, keep (entry arp i e) = true) :
    (backends.mapIdx (entry arp)).filter keep = backends.mapIdx (entry arp) := by
  rw [List.filter_eq_self]
  intro b hb
  obtain ⟨i, hi, rfl⟩ := List.mem_mapIdx.mp hb
  exact h i _

/-- Ids already increase along the list, so the sort leaves it. -/
theorem Loaded.candidates_eq (h : Loaded arp backends bm) (hlen : backends.length ≤ backendMax)
    (H : Hashes) (m : TableSize) :
    candidates H m (copyViews (bm.live.filter eligible)) = listed H m backends := by
  rw [h.live, filter_entries fun _ _ => rfl, candidates, List.Pairwise.insertionSort_eq]
  · apply List.ext_getElem
    · simp [listed, copyViews]
    · intro i hi hi'
      simp [listed, copyViews, copyView, entry]
  · rw [copyViews, List.pairwise_map, List.pairwise_iff_getElem]
    intro i j hi hj hij
    rw [List.length_mapIdx] at hi hj
    have hsize : backendMax < UInt32.size := by decide
    simp only [List.getElem_mapIdx, copyView, entry]
    rw [UInt32.le_iff_toNat_le, UInt32.toNat_ofNat_of_lt' (by omega),
      UInt32.toNat_ofNat_of_lt' (by omega)]
    omega

end MaglevLb.StartUp
