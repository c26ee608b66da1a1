import MaglevLb.LoadBalancer

/-!
# Draining

A draining backend leaves the lookup table at once and stays in the array that
resolves pinned flows, for as long as it is healthy and has a hardware address.
-/
namespace MaglevLb.LoadBalancer
open PacketFormat Maglev BackendManager TableGenerator HealthChecker Conntrack StatsRegistry
open Datapath (DatapathConfig State vipFlow handlePacket rxBufLen Drop outcomeCounter sampleHashes
  sampleConfig sampleFrame sampleKey sampleSize)

variable {n b : ℕ} {H : Hashes} {cfg : DatapathConfig}

/-- Healthy, with a hardware address and not disabled. -/
def InService (bm : Manager) (backendId : UInt32) : Prop :=
  ∃ x ∈ bm.live, x.id = backendId ∧ x.healthy = true ∧ x.macResolved = true ∧
    x.adminState ≠ .disabled

def IsDraining (bm : Manager) (backendId : UInt32) : Prop :=
  ∃ x ∈ bm.live, x.id = backendId ∧ x.adminState = .draining

theorem InService.resolves {bm : Manager} {backendId : UInt32} (h : InService bm backendId)
    (hok : bm.IdsOk) (m : TableSize) (generation : UInt64) :
    ∃ v, routingSnapshotFindBackend (currentSnapshot H m bm generation) backendId.toInt32 =
      some v := by
  obtain ⟨x, hx, rfl, hh, hm, ha⟩ := h
  exact ⟨copyView x, find_currentSnapshot H m generation hok hx (by simp [routable, hh, hm, ha])⟩

/-- A packet of a flow pinned to a backend in service is not dropped as
unhealthy. -/
theorem pinned_packet_verdict {s : System n b} (h : Steady H s.cp) {backendId : UInt32}
    (hin : InService s.cp.bm backendId) {frame : List UInt8} {fx : FlowExtractResult}
    (hv : vipFlow cfg frame = some fx) {now : UInt64}
    (hhit : (conntrackLookup H.flowHash s.ct fx.key now).2 = some backendId.toInt32) (sent : ℤ) :
    (handlePacket H cfg s.datapath frame now sent).verdict ≠ .dropped .backendUnhealthy := by
  obtain ⟨r, hr, hcase⟩ := Datapath.handlePacket_routed (H := H) s.datapath hv now sent
  rw [hr]
  cases hcase with
  | unrouted hit d hd => rcases hd with rfl | rfl <;> simp
  | pinned snap id ha hl =>
      rw [System.datapath, hhit] at hl
      cases hl
      rw [System.datapath, h.fresh.active] at ha
      cases ha
      obtain ⟨v, hf⟩ := hin.resolves (H := H) h.idsOk s.cp.tg.m s.cp.tg.generation
      exact forward_resolved hf _ _ _ _ _
  | opened snap id ct' ha hl hid hpos hi =>
      rw [System.datapath, hhit] at hl
      cases hl

/-- The unhealthy counter of a packet that is not dropped as unhealthy stands still. -/
theorem packet_unhealthy_counter {s : System n b} {frame : List UInt8} {fx : FlowExtractResult}
    (hv : vipFlow cfg frame = some fx) {now : UInt64} {sent : ℤ}
    (hne : (handlePacket H cfg s.datapath frame now sent).verdict ≠
      .dropped .backendUnhealthy) :
    (step H cfg s (.packet frame now sent)).stats.dropsBackendUnhealthy =
      s.stats.dropsBackendUnhealthy := by
  have hl := (Datapath.handlePacket_ledger_vip (H := H) s.datapath hv now sent).1
  have hc := congrFun (congrArg Datapath.Ledger.outcome hl) (.dropped .backendUnhealthy)
  rw [Datapath.Ledger.settle_dropped, if_neg hne, UInt64.add_zero] at hc
  exact hc

/-- No packet pins a flow to a draining backend. -/
theorem draining_not_pinned {s : System n b} (h : Steady H s.cp) {backendId : UInt32}
    (hd : IsDraining s.cp.bm backendId) (frame : List UInt8) (now : UInt64) (sent : ℤ) :
    (handlePacket H cfg s.datapath frame now sent).pinned ≠ some backendId.toInt32 := by
  obtain ⟨x, hx, rfl, hst⟩ := hd
  cases hv : vipFlow cfg frame with
  | none =>
      rw [(Datapath.handlePacket_skipped s.datapath hv now sent).2.1]
      simp
  | some fx =>
      obtain ⟨r, hr, hcase⟩ := Datapath.handlePacket_routed (H := H) s.datapath hv now sent
      rw [hr]
      cases hcase with
      | unrouted hit r hr => simp
      | pinned snap id ha hl => simp
      | opened snap id ct' ha hl hid hpos hi =>
          rw [System.datapath, h.fresh.active] at ha
          cases ha
          have hslot := currentSnapshot_slot_ne H s.cp.tg.m s.cp.tg.generation h.idsOk hx
            (by simp [eligible, hst])
          rw [← hid]
          exact fun heq => hslot _ (Option.some.inj heq)

/-- Whatever is drained and undrained and however other backends fare: while a
backend is in service no packet of a flow pinned to it is counted as dropped for
an unhealthy backend, and while it drains no flow is pinned to it. -/
theorem draining_preserves_pins (H : Hashes) (cfg : DatapathConfig) (m : TableSize)
    (history : List Op) (hcCfg : HealthCheckCfg) (pow2 : b.isPowerOfTwo)
    (garbage : Fin n → Flow) (maxBackends : ℕ) (hadds : adds history < 2 ^ 31)
    (backendId : UInt32) :
    let s₀ : System n b := start H m history hcCfg pow2 garbage maxBackends
    (∀ before interval : List Event,
      (∀ done rest, interval = done ++ rest →
        InService (run H cfg s₀ (before ++ done)).cp.bm backendId) →
      ∀ done frame now sent rest fx, interval = done ++ .packet frame now sent :: rest →
        vipFlow cfg frame = some fx →
        (conntrackLookup H.flowHash (run H cfg s₀ (before ++ done)).ct fx.key now).2 =
          some backendId.toInt32 →
        (run H cfg s₀ (before ++ done ++ [.packet frame now sent])).stats.dropsBackendUnhealthy =
          (run H cfg s₀ (before ++ done)).stats.dropsBackendUnhealthy) ∧
    ∀ (es : List Event) (frame : List UInt8) (now : UInt64) (sent : ℤ),
      IsDraining (run H cfg s₀ es).cp.bm backendId →
      (handlePacket H cfg (run H cfg s₀ es).datapath frame now sent).pinned ≠
        some backendId.toInt32 := by
  intro s₀
  have hsteady : ∀ es, Steady H (run H cfg s₀ es).cp := run_steady (start_steady H m hadds)
  constructor
  · intro before interval hin done frame now sent rest fx hsplit hv hhit
    have hserve := hin done _ hsplit
    have hver := pinned_packet_verdict (hsteady (before ++ done)) hserve hv hhit sent
    rw [run, EventRun.run_append _ s₀ (before ++ done), EventRun.run_cons, EventRun.run_nil]
    exact packet_unhealthy_counter hv hver
  · intro es frame now sent hd
    exact draining_not_pinned (hsteady es) hd frame now sent

/-- Two backends; a flow is pinned to backend 0, which is then drained. The next
packet of the flow is not counted as unhealthy. -/
theorem draining_preserves_pins_sample :
    let s₀ : System 2 4 := start sampleHashes sampleSize
      [.add 0x0b00000a 80, .setMac 0 (Vector.replicate 6 1), .add 0x0c00000a 80,
        .setMac 1 (Vector.replicate 6 1)] ⟨2, 2⟩ ⟨2, rfl⟩ (fun _ => ⟨sampleKey, 0, 0⟩) 2
    let pin : Event := .packet sampleFrame 100 66
    let drain : Event := .admin (drainVerb ++ [32, 48]) true
    (run sampleHashes sampleConfig s₀
        ([pin] ++ [drain] ++ [.packet sampleFrame 110 66])).stats.dropsBackendUnhealthy =
      (run sampleHashes sampleConfig s₀ ([pin] ++ [drain])).stats.dropsBackendUnhealthy := by
  intro s₀ pin drain
  have hall := draining_preserves_pins sampleHashes sampleConfig sampleSize
    [.add 0x0b00000a 80, .setMac 0 (Vector.replicate 6 1), .add 0x0c00000a 80,
      .setMac 1 (Vector.replicate 6 1)] ⟨2, 2⟩ ⟨2, rfl⟩ (fun _ : Fin 2 => ⟨sampleKey, 0, 0⟩) 2
    (b := 4) (by decide) 0
  have hserve : ∀ done rest, [drain, .packet sampleFrame 110 66] = done ++ rest →
      InService (run sampleHashes sampleConfig s₀ ([pin] ++ done)).cp.bm 0 := by
    intro done rest hsplit
    have hmem : done ∈ [drain, .packet sampleFrame 110 66].inits :=
      (List.mem_inits _ _).mpr ⟨rest, hsplit.symm⟩
    simp only [List.inits, List.map_cons, List.map_nil, List.mem_cons, List.not_mem_nil,
      or_false] at hmem
    rcases hmem with rfl | rfl | rfl
    · exact ⟨⟨0, 0x0b00000a, 80, Vector.replicate 6 1, true, true, .enabled⟩, by decide +kernel⟩
    · exact ⟨⟨0, 0x0b00000a, 80, Vector.replicate 6 1, true, true, .draining⟩, by decide +kernel⟩
    · exact ⟨⟨0, 0x0b00000a, 80, Vector.replicate 6 1, true, true, .draining⟩, by decide +kernel⟩
  exact hall.1 [pin] [drain, .packet sampleFrame 110 66] hserve [drain] sampleFrame 110 66 []
    ⟨sampleKey, 14, 28⟩ rfl (by decide +kernel) (by decide +kernel)

end MaglevLb.LoadBalancer
