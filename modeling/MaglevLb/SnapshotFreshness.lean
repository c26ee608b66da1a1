import MaglevLb.Datapath
import MaglevLb.TableFill
import MaglevLb.TableGenerator

/-!
# The active snapshot follows the manager

After the start-up every call of the manager's interface leaves the generator
with the snapshot its current state determines. In such a snapshot the slots
name eligible backends, and eligible backends can be resolved, so a flow without
a connection tracking record never runs into an unresolvable id.
-/
namespace MaglevLb.TableGenerator
open PacketFormat Maglev BackendManager Conntrack Datapath

theorem noId_toInt32 : noId.toInt32 = -1 := by decide

theorem routable_of_eligible {x : Backend} (h : eligible x = true) : routable x = true := by
  simp only [eligible, routable, Bool.and_eq_true, beq_iff_eq, bne_iff_ne] at h ⊢
  refine ⟨⟨?_, h.1.2⟩, h.2⟩
  rw [h.1.1]
  decide

/-- Live backends with one id are one. -/
theorem live_eq_of_id {bm : Manager} (hok : bm.IdsOk) {x y : Backend} (hx : x ∈ bm.live)
    (hy : y ∈ bm.live) (h : x.id = y.id) : x = y :=
  List.inj_on_of_nodup_map hok.nodup hx hy h

/-- The id of a live backend does not read as -1. -/
theorem live_id_ne {bm : Manager} (hok : bm.IdsOk) {x : Backend} (hx : x ∈ bm.live) :
    x.id.toInt32 ≠ -1 := by
  intro hneg
  rw [← noId_toInt32] at hneg
  have hlt := hok.below x hx
  rw [toInt32_injective hneg] at hlt
  have hmax := bm.nextId.toNat_lt
  change 4294967295 < bm.nextId.toNat at hlt
  omega

section
variable (H : Hashes) (m : TableSize) {bm : Manager} (generation : UInt64)

/-- Whatever a snapshot resolves is a live routable backend. -/
theorem find_currentSnapshot_some {backendId : Int32} {v : BackendView}
    (h : routingSnapshotFindBackend (currentSnapshot H m bm generation) backendId = some v) :
    ∃ x ∈ bm.live, routable x = true ∧ v = copyView x ∧ x.id.toInt32 = backendId := by
  have hmem := List.mem_of_find?_eq_some h
  have hid := List.find?_some h
  obtain ⟨x, hx, rfl⟩ := List.mem_map.mp hmem
  obtain ⟨hlive, hr⟩ := List.mem_filter.mp hx
  exact ⟨x, hlive, hr, rfl, by simpa [copyView] using hid⟩

/-- A live routable backend is resolved by its id. -/
theorem find_currentSnapshot (hok : bm.IdsOk) {x : Backend} (hx : x ∈ bm.live)
    (hr : routable x = true) :
    routingSnapshotFindBackend (currentSnapshot H m bm generation) x.id.toInt32 =
      some (copyView x) := by
  cases hf : routingSnapshotFindBackend (currentSnapshot H m bm generation) x.id.toInt32 with
  | none =>
      have hv : copyView x ∈ copyViews (bm.live.filter routable) :=
        List.mem_map_of_mem (List.mem_filter.mpr ⟨hx, hr⟩)
      have hne := List.find?_eq_none.mp hf (copyView x) hv
      simp [copyView] at hne
  | some v =>
      obtain ⟨y, hy, -, rfl, hid⟩ := find_currentSnapshot_some H m generation hf
      rw [live_eq_of_id hok hy hx (toInt32_injective hid)]

/-- A slot is empty and no backend is eligible, or it names an eligible one. -/
theorem currentSnapshot_slot (hok : bm.IdsOk)
    (i : Fin (currentSnapshot H m bm generation).table.m.toNat) :
    ((currentSnapshot H m bm generation).table.lookup i = -1 ∧ bm.live.filter eligible = []) ∨
    ∃ x ∈ bm.live, eligible x = true ∧
      (currentSnapshot H m bm generation).table.lookup i = x.id.toInt32 := by
  let views := copyViews (bm.live.filter eligible)
  have hviews : ∀ v ∈ views, ∃ x ∈ bm.live, eligible x = true ∧ v.id = x.id := by
    intro v hv
    obtain ⟨x, hx, rfl⟩ := List.mem_map.mp hv
    obtain ⟨hlive, he⟩ := List.mem_filter.mp hx
    exact ⟨x, hlive, he, rfl⟩
  rcases maglevTableGenerate_fromIds H m views i with h | ⟨v, hv, h⟩
  · refine Or.inl ⟨h, ?_⟩
    by_contra hne
    have hviews_ne : views ≠ [] := by simpa [views, copyViews] using hne
    refine maglevTableGenerate_ne H m hviews_ne ?_ i h
    intro v hv
    obtain ⟨x, hx, -, hid⟩ := hviews v hv
    rw [hid]
    exact live_id_ne hok hx
  · obtain ⟨x, hx, he, hid⟩ := hviews v hv
    exact Or.inr ⟨x, hx, he, by rw [← hid]; exact h⟩

/-- A live backend that is not eligible owns no slot. -/
theorem currentSnapshot_slot_ne (hok : bm.IdsOk) {x : Backend} (hx : x ∈ bm.live)
    (hd : eligible x = false) (i : Fin (currentSnapshot H m bm generation).table.m.toNat) :
    (currentSnapshot H m bm generation).table.lookup i ≠ x.id.toInt32 := by
  intro heq
  rcases currentSnapshot_slot H m generation hok i with ⟨h, -⟩ | ⟨y, hy, he, h⟩
  · exact live_id_ne hok hx (heq.symm.trans h)
  · have hxy := live_eq_of_id hok hx hy (toInt32_injective (heq.symm.trans h))
    rw [hxy, he] at hd
    cases hd

/-- A table entry that is used can be resolved. -/
theorem find_table_entry (hok : bm.IdsOk) (key : FlowKey)
    (hpos : ¬ maglevTableLookup H (currentSnapshot H m bm generation).table key < 0) :
    ∃ x ∈ bm.live, eligible x = true ∧
      maglevTableLookup H (currentSnapshot H m bm generation).table key = x.id.toInt32 ∧
      routingSnapshotFindBackend (currentSnapshot H m bm generation) x.id.toInt32 =
        some (copyView x) := by
  unfold maglevTableLookup at hpos ⊢
  rcases currentSnapshot_slot H m generation hok
      ⟨(H.flowHash key).toNat % _, Nat.mod_lt _ (currentSnapshot H m bm generation).table.m_pos⟩
    with ⟨h, -⟩ | ⟨x, hx, he, h⟩
  · rw [h] at hpos
    exact absurd (by decide) hpos
  · exact ⟨x, hx, he, h, find_currentSnapshot H m generation hok hx (routable_of_eligible he)⟩

end

/-- A resolvable id is not reported as unhealthy. -/
theorem forward_resolved {snap : RoutingSnapshot} {backendId : Int32} {v : BackendView}
    (hfind : routingSnapshotFindBackend snap backendId = some v) (cfg : DatapathConfig)
    (rx : List UInt8) (fx : FlowExtractResult) (sent : ℤ) (stats : StatsRegistry.LbStats) :
    (forward cfg snap rx fx backendId sent stats).2 ≠ .dropped .backendUnhealthy := by
  obtain ⟨r, he, hr⟩ := forward_forwarded cfg snap rx fx backendId sent stats
  rw [he]
  cases hr with
  | unresolved hf =>
      rw [hfind] at hf
      cases hf
  | oversize v hf he => simp
  | refused v f hf he hs => simp
  | accepted v f hf he hs => simp

/-- Under a fresh snapshot only a connection tracking hit can meet an
unresolvable backend. -/
theorem miss_resolves {n b : ℕ} {H : Hashes} {cfg : DatapathConfig} {cp : ControlPlane}
    (hfresh : cp.Fresh H) (hok : cp.bm.IdsOk) (s : State n b) (hs : s.active = cp.tg.active)
    {frame : List UInt8} {fx : FlowExtractResult} (hv : vipFlow cfg frame = some fx)
    {now : UInt64} (hmiss : (conntrackLookup H.flowHash s.ct fx.key now).2 = none) (sent : ℤ) :
    (handlePacket H cfg s frame now sent).verdict ≠ .dropped .backendUnhealthy := by
  obtain ⟨r, he, hr⟩ := handlePacket_routed (H := H) s hv now sent
  rw [he]
  cases hr with
  | unrouted hit r hr => rcases hr with rfl | rfl <;> simp
  | pinned snap backendId ha hl =>
      rw [hmiss] at hl
      cases hl
  | opened snap backendId ct' ha hl hid hpos hi =>
      rw [hs, hfresh.active] at ha
      cases ha
      subst hid
      obtain ⟨x, -, -, hx, hfind⟩ := find_table_entry H cp.tg.m cp.tg.generation hok fx.key hpos
      rw [← hx] at hfind
      exact forward_resolved hfind _ _ _ _ _

theorem rebuilds_cons (H : Hashes) (cp : ControlPlane) (op : Op) (ops : List Op) :
    rebuilds H cp (op :: ops) = (if (call H true true cp op).2 then 1 else 0) +
      rebuilds H (call H true true cp op).1 ops := rfl

/-- A run of calls keeps the snapshot fresh and counts its rebuilds. -/
theorem runCalls_fresh (H : Hashes) (ops : List Op) {cp : ControlPlane} (h : cp.Fresh H)
    (hadds : cp.bm.nextId.toNat + adds ops < 2 ^ 31) :
    (runCalls H cp ops).Fresh H ∧ (runCalls H cp ops).bm = runOps cp.bm ops ∧
    (runCalls H cp ops).tg.m = cp.tg.m ∧
    (runCalls H cp ops).tg.generation = cp.tg.generation + UInt64.ofNat (rebuilds H cp ops) := by
  induction ops generalizing cp with
  | nil => exact ⟨h, rfl, rfl, (UInt64.add_zero _).symm⟩
  | cons op ops ih =>
      rw [adds_cons] at hadds
      have hid : cp.bm.nextId ≠ noId := by
        intro he
        rw [he] at hadds
        change 4294967295 + _ < _ at hadds
        omega
      obtain ⟨cp', rebuilt, hcall, hfresh, hbm, hm, hgen⟩ := call_fresh H true h hid op
      have hnext := apply_nextId cp.bm op (by omega)
      have hrun : runCalls H cp (op :: ops) = runCalls H cp' ops := by
        rw [runCalls, EventRun.run_cons, hcall]
      obtain ⟨hfresh', hbm', hm', hgen'⟩ := ih hfresh (by rw [hbm]; omega)
      rw [hrun, rebuilds_cons, hcall]
      refine ⟨hfresh', ?_, hm'.trans hm, ?_⟩
      · rw [hbm', hbm]
        rfl
      · rw [hgen', hgen, UInt64.ofNat_add, UInt64.add_assoc]
        cases rebuilt <;> rfl

/-- The manager that a history leaves when the generator subscribes. -/
theorem subscribed_idsOk (pre : List Op) (hadds : adds pre < 2 ^ 31) :
    (backendManagerSubscribe (runOps backendManagerCreate pre)).IdsOk ∧
    (backendManagerSubscribe (runOps backendManagerCreate pre)).nextId.toNat ≤ adds pre := by
  have hzero : backendManagerCreate.nextId.toNat = 0 := rfl
  have hok := runOps_idsOk backendManagerCreate_idsOk pre (by rw [hzero]; omega)
  have hnext := (runOps_nextId backendManagerCreate pre (by rw [hzero]; omega)).2
  rw [hzero, Nat.zero_add] at hnext
  exact ⟨⟨hok.nodup, hok.below⟩, hnext⟩

/-- After the start-up and any calls, the active snapshot is the one of the
manager's state: its array holds the routable backends, its table is the one of
the eligible backends, and its generation counts the rebuilds. So slots name
resolvable eligible backends, draining backends are resolvable but own no slot,
and a packet without a record never meets an unresolvable backend. -/
theorem snapshot_freshness (H : Hashes) (m : TableSize) (pre ops : List Op)
    (hadds : adds (pre ++ ops) < 2 ^ 31) :
    let cp₀ := startControlPlane H m (runOps backendManagerCreate pre)
    let cp := runCalls H cp₀ ops
    cp.bm = runOps (backendManagerSubscribe (runOps backendManagerCreate pre)) ops ∧
    ∃ snap, cp.tg.active = some snap ∧
      snap.backends = copyViews (cp.bm.live.filter fun x =>
        x.adminState != .disabled && x.healthy && x.macResolved) ∧
      snap.table = maglevTableGenerate H m (copyViews (cp.bm.live.filter fun x =>
        x.adminState == .enabled && x.healthy && x.macResolved)) ∧
      snap.generation = cp.tg.generation ∧
      cp.tg.generation = UInt64.ofNat (1 + rebuilds H cp₀ ops) ∧
      (∀ i, (snap.table.lookup i = -1 ∧ ∀ x ∈ cp.bm.live, eligible x = false) ∨
        ∃ x ∈ cp.bm.live, eligible x = true ∧ snap.table.lookup i = x.id.toInt32 ∧
          routingSnapshotFindBackend snap (snap.table.lookup i) = some (copyView x)) ∧
      (∀ x ∈ cp.bm.live, x.adminState = .draining →
        (∀ i, snap.table.lookup i ≠ x.id.toInt32) ∧
        (x.healthy = true → x.macResolved = true →
          routingSnapshotFindBackend snap x.id.toInt32 = some (copyView x))) ∧
      (∀ (n b : ℕ) (s : State n b) (cfg : DatapathConfig) (frame : List UInt8)
        (fx : FlowExtractResult) (now : UInt64) (sent : ℤ), s.active = some snap →
        vipFlow cfg frame = some fx →
        (conntrackLookup H.flowHash s.ct fx.key now).2 = none →
        (handlePacket H cfg s frame now sent).verdict ≠ .dropped .backendUnhealthy) := by
  intro cp₀ cp
  rw [adds_append] at hadds
  obtain ⟨hok₀, hnext₀⟩ := subscribed_idsOk pre (by omega)
  obtain ⟨hfresh₀, hbm₀, hm₀, hgen₀⟩ :=
    startControlPlane_fresh H m (runOps backendManagerCreate pre)
  obtain ⟨hfresh, hbm, hm, hgen⟩ := runCalls_fresh H ops hfresh₀
    (by rw [hbm₀]; omega)
  rw [hbm₀] at hbm
  have hok : cp.bm.IdsOk := by
    rw [hbm]
    exact runOps_idsOk hok₀ ops (by omega)
  refine ⟨hbm, _, hfresh.active, rfl, ?_, rfl, ?_, ?_, ?_, ?_⟩
  · rw [currentSnapshot, hm, hm₀]
    rfl
  · rw [hgen, hgen₀, UInt64.ofNat_add]
    rfl
  · intro i
    rcases currentSnapshot_slot H _ _ hok i with ⟨h, hnil⟩ | ⟨x, hx, he, h⟩
    · refine Or.inl ⟨h, ?_⟩
      simpa [List.filter_eq_nil_iff] using hnil
    · refine Or.inr ⟨x, hx, he, h, ?_⟩
      rw [h]
      exact find_currentSnapshot H _ _ hok hx (routable_of_eligible he)
  · intro x hx hd
    constructor
    · exact currentSnapshot_slot_ne H _ _ hok hx (by simp [eligible, hd])
    · intro hh hmac
      exact find_currentSnapshot H _ _ hok hx (by simp [routable, hd, hh, hmac])
  · intro n b s cfg frame fx now sent hs hv hmiss
    exact miss_resolves hfresh hok s (hs.trans hfresh.active.symm) hv hmiss sent

/-- Two backends, the first draining: the generation counts the start-up and
three calls, and the draining backend 0 owns no slot. -/
theorem snapshot_freshness_sample :
    let pre : List Op := [.add 0x0b00000a 80, .setMac 0 (Vector.replicate 6 1)]
    let ops : List Op := [.add 0x0c00000a 80, .setMac 1 (Vector.replicate 6 1),
      .setAdminState 0 .draining, .setAdminState 0 .draining]
    ∃ snap, (runCalls sampleHashes (startControlPlane sampleHashes sampleSize
        (runOps backendManagerCreate pre)) ops).tg.active = some snap ∧
      snap.generation = 4 ∧ ∀ i, snap.table.lookup i ≠ 0 := by
  intro pre ops
  obtain ⟨hbm, snap, hactive, -, -, hgen, hcount, -, hdrain, -⟩ :=
    snapshot_freshness sampleHashes sampleSize pre ops (by decide +kernel)
  have hrebuilds : rebuilds sampleHashes (startControlPlane sampleHashes sampleSize
      (runOps backendManagerCreate pre)) ops = 3 := by decide +kernel
  refine ⟨snap, hactive, ?_, ?_⟩
  · rw [hgen, hcount, hrebuilds]
    rfl
  · rw [hbm] at hdrain
    exact (hdrain ⟨0, 0x0b00000a, 80, Vector.replicate 6 1, true, true, .draining⟩
      (by decide +kernel) rfl).1

end MaglevLb.TableGenerator
