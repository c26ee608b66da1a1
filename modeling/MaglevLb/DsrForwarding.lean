import MaglevLb.Datapath
import MaglevLb.HeaderRoundTrip

/-!
# Forwarding loses nothing

The frame a packet is sent in decodes, with the repository's own parsers, to the
addresses of the director and of the chosen backend around the very bytes of the
client's IP packet. A packet too long for the transmit buffer is not sent.
-/
namespace MaglevLb.DsrForwarding
open PacketFormat Maglev Datapath

variable {n b : ℕ} {H : Hashes} {cfg : DatapathConfig}

/-- The frame that a packet hands to the send call. -/
def handed : Verdict → Option (Int32 × List UInt8)
  | .sent backendId out => some (backendId, out)
  | .sendFailed backendId out => some (backendId, out)
  | _ => none

theorem forward_handed {snap : RoutingSnapshot} {rx : List UInt8} {fx : FlowExtractResult}
    {id : Int32} {sent : ℤ} {stats : StatsRegistry.LbStats} {backendId : Int32} {out : List UInt8}
    (h : handed (forward cfg snap rx fx id sent stats).2 = some (backendId, out)) :
    backendId = id ∧ ∃ v, routingSnapshotFindBackend snap backendId = some v ∧
      encapsulate cfg rx fx v = some out := by
  obtain ⟨r, hr, hcase⟩ := forward_forwarded cfg snap rx fx id sent stats
  rw [hr] at h
  cases hcase with
  | unresolved hf => cases h
  | oversize v hf he => cases h
  | refused v f hf he hs =>
      cases h
      exact ⟨rfl, v, hf, he⟩
  | accepted v f hf he hs =>
      cases h
      exact ⟨rfl, v, hf, he⟩

/-- Once its backend is resolved, a packet fails to reach the send call only by
its length. -/
theorem forward_handed_eq_none {snap : RoutingSnapshot} {rx : List UInt8} {fx : FlowExtractResult}
    {backendId : Int32} {v : BackendView} (hf : routingSnapshotFindBackend snap backendId = some v)
    (sent : ℤ) (stats : StatsRegistry.LbStats) :
    handed (forward cfg snap rx fx backendId sent stats).2 = none ↔
      encapsulate cfg rx fx v = none := by
  unfold forward
  rw [hf]
  dsimp only
  split
  · next hnone => exact ⟨fun _ => hnone, fun _ => rfl⟩
  · next f hsome =>
      rw [hsome]
      split
      · exact ⟨fun h => absurd h (Option.some_ne_none _), fun h => absurd h (Option.some_ne_none _)⟩
      · exact ⟨fun h => absurd h (Option.some_ne_none _), fun h => absurd h (Option.some_ne_none _)⟩

/-- What is handed to the send call was built for a backend of the active snapshot
around a packet for the virtual address. -/
theorem handlePacket_handed {s : State n b} {frame : List UInt8} {now : UInt64} {sent : ℤ}
    {backendId : Int32} {out : List UInt8}
    (h : handed (handlePacket H cfg s frame now sent).verdict = some (backendId, out)) :
    ∃ fx snap v, vipFlow cfg frame = some fx ∧ s.active = some snap ∧
      routingSnapshotFindBackend snap backendId = some v ∧
      encapsulate cfg (frame.take rxBufLen) fx v = some out := by
  cases hv : vipFlow cfg frame with
  | none =>
      rcases (handlePacket_skipped s hv now sent).2.2 with he | he | he <;>
        rw [he] at h <;> cases h
  | some fx =>
      obtain ⟨r, he, hr⟩ := handlePacket_routed (H := H) s hv now sent
      rw [he] at h
      cases hr with
      | unrouted hit r hr => cases h
      | pinned snap id ha hl =>
          obtain ⟨-, v, hf, he⟩ := forward_handed h
          exact ⟨fx, snap, v, rfl, ha, hf, he⟩
      | opened snap id ct' ha hl hid hpos hi =>
          obtain ⟨-, v, hf, he⟩ := forward_handed h
          exact ⟨fx, snap, v, rfl, ha, hf, he⟩

theorem vipFlow_fits {frame : List UInt8} {fx : FlowExtractResult}
    (h : vipFlow cfg frame = some fx) :
    fx.ipOffset = 14 ∧ 14 + fx.ipTotalLen ≤ (frame.take rxBufLen).length :=
  packetExtractFlow_fits (vipFlow_ok h).1

/-- The inner packet has the length its header states. -/
theorem inner_length {frame : List UInt8} {fx : FlowExtractResult}
    (h : vipFlow cfg frame = some fx) :
    (((frame.take rxBufLen).drop fx.ipOffset).take fx.ipTotalLen).length = fx.ipTotalLen := by
  obtain ⟨hoff, hfits⟩ := vipFlow_fits h
  rw [hoff, List.length_take, List.length_drop]
  omega

theorem encapsulate_eq_none {frame : List UInt8} {fx : FlowExtractResult}
    (h : vipFlow cfg frame = some fx) (v : BackendView) :
    encapsulate cfg (frame.take rxBufLen) fx v = none ↔ 38 + fx.ipTotalLen > 2048 := by
  rw [encapsulate, greEncapBuild_eq_none, inner_length h, txBufLen]

/-- A frame of at most 2048 bytes that is forwarded leaves in an outer frame that
decodes to the backend's and the director's addresses and the client's packet.
The builder gives up exactly when that frame would not fit in 2048 bytes; then
nothing is sent, and otherwise a resolved backend is sent to. -/
theorem dsr_forwarding (H : Hashes) (cfg : DatapathConfig) (s : State n b) (frame : List UInt8)
    (now : UInt64) (sent : ℤ) (hrx : frame.length ≤ 2048) :
    (∀ backendId out, (handlePacket H cfg s frame now sent).verdict = .sent backendId out →
      ∃ fx snap v ip, vipFlow cfg frame = some fx ∧ s.active = some snap ∧
        routingSnapshotFindBackend snap backendId = some v ∧
        out.length = 38 + fx.ipTotalLen ∧
        ethParse out = some ⟨v.mac.toList, cfg.ownMac.toList, ethTypeIp⟩ ∧
        ipv4Parse (out.drop 14) = some ip ∧ ip.srcIp = cfg.directorIp ∧ ip.dstIp = v.addr ∧
        ip.protocol = 47 ∧ ip.totalLength.toNat = 24 + fx.ipTotalLen ∧
        greParse (out.drop (14 + ip.headerLenBytes)) = some ⟨0, ethTypeIp⟩ ∧
        ipv4Checksum ((out.drop 14).take 20) = 0 ∧
        out.drop 38 = (frame.drop 14).take fx.ipTotalLen) ∧
    ∀ fx, vipFlow cfg frame = some fx →
      (∀ v, encapsulate cfg frame fx v = none ↔ 38 + fx.ipTotalLen > 2048) ∧
      (38 + fx.ipTotalLen > 2048 → handed (handlePacket H cfg s frame now sent).verdict = none) ∧
      ∀ snap backendId v stats, routingSnapshotFindBackend snap backendId = some v →
        (handed (forward cfg snap frame fx backendId sent stats).2 = none ↔
          38 + fx.ipTotalLen > 2048) := by
  have htake : frame.take rxBufLen = frame := List.take_of_length_le hrx
  constructor
  · intro backendId out hsent
    have hhanded :
        handed (handlePacket H cfg s frame now sent).verdict = some (backendId, out) := by
      rw [hsent]
      rfl
    obtain ⟨fx, snap, v, hv, ha, hf, he⟩ := handlePacket_handed hhanded
    have hinner := inner_length hv
    obtain ⟨hoff, hfits⟩ := vipFlow_fits hv
    rw [htake, hoff] at hinner
    rw [htake] at hfits he
    rw [encapsulate, hoff] at he
    obtain ⟨hlen, heth, hip, hgre, hsum, hrest⟩ := greEncapBuild_decodes (by omega) he
    rw [hinner] at hlen hip
    exact ⟨fx, snap, v, _, hv, ha, hf, hlen, heth, hip, rfl, rfl, rfl,
      outerLength_toNat (by omega), hgre, hsum, hrest⟩
  · intro fx hv
    have hnone := fun v => encapsulate_eq_none hv v
    rw [htake] at hnone
    refine ⟨hnone, ?_, ?_⟩
    · intro hlong
      cases hhanded : handed (handlePacket H cfg s frame now sent).verdict with
      | none => rfl
      | some p =>
          obtain ⟨fx', snap, v, hv', -, -, he⟩ := handlePacket_handed hhanded
          rw [hv] at hv'
          cases hv'
          rw [htake, (hnone v).mpr hlong] at he
          cases he
    · intro snap backendId v stats hf
      rw [forward_handed_eq_none hf, hnone v]

/-- The sample packet of 28 bytes leaves in a frame of 66. -/
theorem dsr_forwarding_sample :
    let s : State 2 4 := ⟨Conntrack.conntrackInit 2 4 ⟨2, rfl⟩ fun _ => ⟨sampleKey, 0, 0⟩,
      StatsRegistry.statsRegistryInit 10, some (sampleSnapshot 5)⟩
    ∃ out, (handlePacket sampleHashes sampleConfig s sampleFrame 100 66).verdict = .sent 5 out ∧
      ∃ fx, vipFlow sampleConfig sampleFrame = some fx ∧ fx.ipTotalLen = 28 ∧
        out.length = 38 + fx.ipTotalLen ∧ ipv4Checksum ((out.drop 14).take 20) = 0 ∧
        out.drop 38 = (sampleFrame.drop 14).take fx.ipTotalLen := by
  intro s
  have hflow : vipFlow sampleConfig sampleFrame = some ⟨sampleKey, 14, 28⟩ := by decide +kernel
  have hsent : (match (handlePacket sampleHashes sampleConfig s sampleFrame 100 66).verdict with
      | .sent backendId _ => backendId == 5
      | _ => false) = true := by decide +kernel
  obtain ⟨out, hout⟩ : ∃ out,
      (handlePacket sampleHashes sampleConfig s sampleFrame 100 66).verdict = .sent 5 out := by
    split at hsent
    · next backendId out hout =>
        rw [beq_iff_eq.mp hsent] at hout
        exact ⟨out, hout⟩
    · cases hsent
  obtain ⟨fx, snap, v, ip, hv, -, -, hlen, -, -, -, -, -, -, -, hsum, hrest⟩ :=
    (dsr_forwarding sampleHashes sampleConfig s sampleFrame 100 66 (by decide)).1 5 out hout
  rw [hflow] at hv
  cases hv
  exact ⟨out, hout, _, hflow, rfl, hlen, hsum, hrest⟩

end MaglevLb.DsrForwarding
