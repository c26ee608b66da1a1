import MaglevLb.SnapshotFreshness

/-!
# A pin never retargets

A connection tracking record names a backend by its id, and outlives the table
that chose it. The id was live when the record was made; ids are not handed out
twice, so a later snapshot resolves it to the endpoint it had then or not at all.
-/
namespace MaglevLb.PinStability
open PacketFormat Maglev BackendManager TableGenerator Datapath

theorem backendManagerRemove_live {bm : Manager} (hok : bm.IdsOk) {x : Backend}
    (hx : x ∈ bm.live) : ∀ y ∈ (backendManagerRemove bm x.id).1.live, y.id ≠ x.id := by
  unfold backendManagerRemove
  split
  · next hnone =>
      rw [Manager.rewrite_eq_none] at hnone
      obtain ⟨s, hmem, hs⟩ := exists_slot_of_live hx
      rw [hnone s hmem] at hs
      cases hs
  · next bm' hrewrite =>
      obtain ⟨l₁, s, l₂, hl, hl', hs, -⟩ := Manager.rewrite_split hrewrite
      obtain ⟨hused, hid⟩ := holdsId_iff.mp hs
      have hlive := live_of_slots hl
      have hlive' := live_of_slots hl'
      have hnodup := hok.nodup
      rw [if_pos hused] at hlive
      rw [hlive, List.singleton_append] at hnodup
      rw [hlive', ← hid]
      exact (ids_nodup_middle.mp hnodup).1

/-- A snapshot is the one of the state it was built from. -/
theorem buildSnapshot_eq {H : Hashes} {bm : Manager} {m : TableSize} {createOk : Bool}
    {generation : UInt64} {snap : RoutingSnapshot}
    (h : buildSnapshot H bm m createOk generation = some snap) :
    snap = currentSnapshot H m bm generation := by
  cases createOk with
  | false => cases h
  | true =>
      rw [buildSnapshot_true] at h
      exact (Option.some.inj h).symm

/-- A packet pins its flow to a live backend that its snapshot resolves. -/
theorem pinned_live {n b : ℕ} {H : Hashes} {cfg : DatapathConfig} {s : State n b} {bm : Manager}
    (hok : bm.IdsOk) {m : TableSize} {generation : UInt64}
    (hactive : s.active = some (currentSnapshot H m bm generation)) {frame : List UInt8}
    {now : UInt64} {sent : ℤ} {backendId : Int32}
    (hpin : (handlePacket H cfg s frame now sent).pinned = some backendId) :
    ∃ x ∈ bm.live, x.id.toInt32 = backendId ∧
      routingSnapshotFindBackend (currentSnapshot H m bm generation) backendId =
        some (copyView x) := by
  cases hv : vipFlow cfg frame with
  | none =>
      rw [(handlePacket_skipped s hv now sent).2.1] at hpin
      cases hpin
  | some fx =>
      obtain ⟨r, he, hr⟩ := handlePacket_routed (H := H) s hv now sent
      rw [he] at hpin
      cases hr with
      | unrouted hit r hr => cases hpin
      | pinned snap id ha hl => cases hpin
      | opened snap id ct' ha hl hid hpos hi =>
          rw [hactive] at ha
          cases ha
          cases hpin
          rw [← hid] at hpos ⊢
          obtain ⟨x, hx, -, hlookup, hfind⟩ := find_table_entry H m generation hok fx.key hpos
          rw [hlookup]
          exact ⟨x, hx, rfl, hfind⟩

theorem toInt32_nonneg {id : UInt32} (h : id.toNat < 2 ^ 31) : ¬ id.toInt32 < 0 := by
  have hint : id.toInt32.toInt = (id.toNat : ℤ) := by
    apply BitVec.toInt_eq_toNat_of_lt
    change 2 * id.toNat < 2 ^ 32
    omega
  rw [Int32.lt_iff_toInt_lt, hint, Int32.toInt_zero]
  omega

/-- Over every history the ids of the used slots are distinct, were handed out and
stay non-negative as signed numbers; a removed id is never used again; and an id
that named an endpoint, such as one a packet has pinned its flow to, is resolved
by every later snapshot to that endpoint or not at all. -/
theorem pin_stability (pre post : List Op) (hadds : adds (pre ++ post) < 2 ^ 31) :
    let before := runOps backendManagerCreate pre
    let after := runOps backendManagerCreate (pre ++ post)
    ((after.live.map Backend.id).Nodup ∧
      ∀ x ∈ after.live, x.id.toNat < after.nextId.toNat ∧ ¬ x.id.toInt32 < 0) ∧
    (∀ x ∈ before.live, ∀ rest, post = .remove x.id :: rest → ∀ y ∈ after.live, y.id ≠ x.id) ∧
    (∀ x ∈ before.live, ∀ H m createOk generation snap v,
      buildSnapshot H after m createOk generation = some snap →
      routingSnapshotFindBackend snap x.id.toInt32 = some v →
      v.addr = x.addr ∧ v.port = x.port) ∧
    (∀ (n b : ℕ) (s : State n b) H m createOk generation snap cfg frame now sent backendId,
      buildSnapshot H before m createOk generation = some snap → s.active = some snap →
      (handlePacket H cfg s frame now sent).pinned = some backendId →
      ∃ x ∈ before.live, x.id.toInt32 = backendId ∧
        routingSnapshotFindBackend snap backendId = some (copyView x)) := by
  intro before after
  have hsplit : after = runOps before post := EventRun.run_append ..
  have hzero : backendManagerCreate.nextId.toNat = 0 := rfl
  rw [adds_append] at hadds
  have hnext : before.nextId.toNat ≤ backendManagerCreate.nextId.toNat + adds pre :=
    (runOps_nextId backendManagerCreate pre (by omega)).2
  have hbefore : before.IdsOk := runOps_idsOk backendManagerCreate_idsOk pre (by omega)
  have hwrap : before.nextId.toNat + adds post < 2 ^ 31 := by omega
  have hafter : after.IdsOk := by
    rw [hsplit]
    exact runOps_idsOk hbefore post (by omega)
  refine ⟨⟨hafter.nodup, ?_⟩, ?_, ?_, ?_⟩
  · intro x hx
    have hlast := (runOps_nextId before post (by omega)).2
    rw [← hsplit] at hlast
    have hbelow := hafter.below x hx
    exact ⟨hbelow, toInt32_nonneg (by omega)⟩
  · intro x hx rest hpost y hy hid
    rw [hpost, adds_cons] at hwrap
    rw [hsplit, hpost, runOps_cons] at hy
    have hstep := apply_nextId before (.remove x.id) (by omega)
    have hold := hbefore.below x hx
    rw [← hid] at hold
    obtain ⟨z, hz, hsame⟩ := runOps_live_old (by omega) hy (hold.trans_le hstep.1)
    exact backendManagerRemove_live hbefore hx z hz (hsame.1.symm.trans hid)
  · intro x hx H m createOk generation snap v hbuild hfind
    rw [buildSnapshot_eq hbuild] at hfind
    obtain ⟨y, hy, -, hv, hid⟩ := find_currentSnapshot_some H m generation hfind
    have hyx : y.id = x.id := toInt32_injective hid
    rw [hsplit] at hy
    obtain ⟨z, hz, hzid, hza, hzp⟩ := runOps_live_old (by omega) hy
      (by rw [hyx]; exact hbefore.below x hx)
    have hzx : z = x := live_eq_of_id hbefore hz hx (hzid.symm.trans hyx)
    rw [hzx] at hza hzp
    rw [hv]
    exact ⟨hza, hzp⟩
  · intro n b s H m createOk generation snap cfg frame now sent backendId hbuild hactive hpin
    rw [buildSnapshot_eq hbuild] at hactive ⊢
    exact pinned_live hbefore hactive hpin

/-- Backend 0 fails and recovers while backend 1 is removed and its endpoint is
added again: id 0 still means 10.0.0.11:80 and id 1 nothing. -/
theorem pin_stability_sample :
    let mac : Mac := Vector.replicate 6 2
    let pre : List Op := [.add 0x0b00000a 80, .setMac 0 mac, .add 0x0c00000a 80, .setMac 1 mac]
    let post : List Op := [.remove 1, .setHealth 0 false, .add 0x0c00000a 80, .setMac 2 mac,
      .setHealth 0 true]
    let after := runOps backendManagerCreate (pre ++ post)
    (∀ y ∈ after.live, y.id ≠ 1) ∧
      ∃ snap v, buildSnapshot sampleHashes after sampleSize true 5 = some snap ∧
        routingSnapshotFindBackend snap 0 = some v ∧ v.addr = 0x0b00000a ∧ v.port = 80 := by
  intro mac pre post after
  have h := pin_stability pre post (by decide)
  have hlive : (runOps backendManagerCreate pre).live =
      [⟨0, 0x0b00000a, 80, mac, true, true, .enabled⟩,
        ⟨1, 0x0c00000a, 80, mac, true, true, .enabled⟩] := by decide +kernel
  have hfind : ((buildSnapshot sampleHashes after sampleSize true 5).bind fun snap =>
      routingSnapshotFindBackend snap 0).isSome = true := by decide +kernel
  obtain ⟨v, hv⟩ := Option.isSome_iff_exists.mp hfind
  obtain ⟨snap, hsnap, hv⟩ := Option.bind_eq_some_iff.mp hv
  constructor
  · exact h.2.1 ⟨1, 0x0c00000a, 80, mac, true, true, .enabled⟩ (by rw [hlive]; simp) _ rfl
  · exact ⟨snap, v, hsnap, hv, h.2.2.1 ⟨0, 0x0b00000a, 80, mac, true, true, .enabled⟩
      (by rw [hlive]; simp) _ _ _ _ _ _ hsnap hv⟩

end MaglevLb.PinStability
