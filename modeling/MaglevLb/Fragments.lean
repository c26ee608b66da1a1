import MaglevLb.DsrForwarding
import MaglevLb.PacketReads

/-!
# Fragments of one datagram

Only the first fragment carries the transport header. The parser does not look at
the fragment offset and reads the ports of every fragment from the bytes behind
its IPv4 header, if there are enough of them. So payload is taken for ports unless
every later fragment is too short.
-/
namespace MaglevLb.Fragments
open Bytes PacketFormat PacketReads Conntrack Maglev Datapath DsrForwarding

structure Datagram where
  srcIp : UInt32
  dstIp : UInt32
  protocol : UInt8
  identification : UInt16
  payload : List UInt8

/-- What a receiver that reassembles reads off a frame. -/
structure Fragment where
  srcIp : UInt32
  dstIp : UInt32
  protocol : UInt8
  identification : UInt16
  moreFragments : Bool
  offset : ℕ
  payload : List UInt8
deriving DecidableEq

def fragmentOf (frame : List UInt8) : Option Fragment :=
  let byte := byteOf frame
  let flags := be16 (byte 20) (byte 21)
  if be16 (byte 12) (byte 13) = ethTypeIp ∧ Ipv4Ok frame.length byte then
    some
      { srcIp := le32 (byte 26) (byte 27) (byte 28) (byte 29)
        dstIp := le32 (byte 30) (byte 31) (byte 32) (byte 33)
        protocol := byte 23
        identification := be16 (byte 18) (byte 19)
        moreFragments := flags &&& 0x2000 ≠ 0
        offset := (flags &&& 0x1FFF).toNat * 8
        payload := (frame.drop (14 + headerLen byte)).take (totalLen byte - headerLen byte) }
  else none

/-- The fragments carry the payload from `pos` on, without gap or overlap. All but the last are
marked so and carry a positive multiple of eight bytes. -/
def Covers (payload : List UInt8) : ℕ → List Fragment → Prop
  | _, [] => False
  | pos, [f] => f.offset = pos ∧ f.moreFragments = false ∧ f.payload = payload.drop pos
  | pos, f :: g :: fs =>
      f.offset = pos ∧ f.moreFragments = true ∧ f.payload ≠ [] ∧ 8 ∣ f.payload.length ∧
        f.payload = (payload.drop pos).take f.payload.length ∧
        Covers payload (pos + f.payload.length) (g :: fs)

/-- The frames are the fragments of a TCP or UDP datagram, in the order of their offsets. -/
structure Splits (d : Datagram) (frames : List (List UInt8)) (fragments : List Fragment) :
    Prop where
  transport : d.protocol = ipprotoTcp ∨ d.protocol = ipprotoUdp
  parsed : frames.map fragmentOf = fragments.map some
  same : ∀ f ∈ fragments, f.srcIp = d.srcIp ∧ f.dstIp = d.dstIp ∧ f.protocol = d.protocol ∧
    f.identification = d.identification
  covers : Covers d.payload 0 fragments

variable {H : Hashes} {cfg : DatapathConfig} {d : Datagram} {frames : List (List UInt8)}
  {fragments : List Fragment} {frame : List UInt8}

/-! ### Payload as ports -/

/-- Two different fragments of a datagram that are forwarded in one run, in whatever state of the
table and with whatever events between them, go to one backend. -/
def Together (H : Hashes) (cfg : DatapathConfig) (frames : List (List UInt8)) : Prop :=
  ∀ (n b : ℕ) (pow2 : b.isPowerOfTwo) (garbage : Fin n → Flow) (stats : StatsRegistry.LbStats)
    (active : Option RoutingSnapshot) (pre mid : List Event) (i j : ℕ) (frame frame' : List UInt8)
    (now now' : UInt64) (sent sent' : ℤ) (id id' : Int32) (out out' : List UInt8),
    i ≠ j → frames[i]? = some frame → frames[j]? = some frame' →
    handed (handlePacket H cfg (run H cfg ⟨conntrackInit n b pow2 garbage, stats, active⟩ pre)
      frame now sent).verdict = some (id, out) →
    handed (handlePacket H cfg (run H cfg ⟨conntrackInit n b pow2 garbage, stats, active⟩
      (pre ++ .packet frame now sent :: mid)) frame' now' sent').verdict = some (id', out') →
    id' = id

/-- No fragment but the one at offset 0 is accepted, with its payload for ports. -/
def PortsFromHeader (frames : List (List UInt8)) : Prop :=
  ∀ frame ∈ frames, ∀ f, fragmentOf frame = some f → f.offset ≠ 0 →
    ∀ fx, packetExtractFlow (frame.take rxBufLen) ≠ .ok fx

/-- Behind its IPv4 header every later fragment has fewer bytes than the fixed transport header, or
its datagram is longer than the receive buffer. -/
def LaterRefused (frames : List (List UInt8)) : Prop :=
  ∀ frame ∈ frames, ∀ f, fragmentOf frame = some f → f.offset ≠ 0 →
    frame.length < 14 + headerLen (byteOf frame) + transportLen f.protocol ∨
      rxBufLen < 14 + totalLen (byteOf frame)

theorem fragmentOf_some {f : Fragment} (h : fragmentOf frame = some f) :
    be16 (byteOf frame 12) (byteOf frame 13) = ethTypeIp ∧
      Ipv4Ok frame.length (byteOf frame) ∧ f.protocol = byteOf frame 23 := by
  unfold fragmentOf at h
  dsimp only at h
  split at h
  · next hok =>
      cases h
      exact ⟨hok.1, hok.2, rfl⟩
  · cases h

/-- A fragment is accepted exactly if it fits the buffer and has as many bytes behind its header
as a transport header. -/
theorem accepted_iff {f : Fragment} (hf : fragmentOf frame = some f)
    (hproto : f.protocol = ipprotoTcp ∨ f.protocol = ipprotoUdp) :
    (∃ fx, packetExtractFlow (frame.take rxBufLen) = .ok fx) ↔
      14 + totalLen (byteOf frame) ≤ rxBufLen ∧
        14 + headerLen (byteOf frame) + transportLen f.protocol ≤ frame.length := by
  obtain ⟨htype, hok, hprotocol⟩ := fragmentOf_some hf
  rw [hprotocol] at hproto ⊢
  have hbyte : ∀ i < 34, byteOf (frame.take rxBufLen) i = byteOf frame i :=
    fun i hi => byteOf_take frame (hi.trans (by decide))
  have hheader : headerLen (byteOf (frame.take rxBufLen)) = headerLen (byteOf frame) := by
    rw [headerLen, hbyte 14 (by decide), headerLen]
  have htotal : totalLen (byteOf (frame.take rxBufLen)) = totalLen (byteOf frame) := by
    rw [totalLen, hbyte 16 (by decide), hbyte 17 (by decide), totalLen]
  have hlength : (frame.take rxBufLen).length = min rxBufLen frame.length := List.length_take
  have hrx : rxBufLen = 2048 := rfl
  rw [packetExtractFlow_eq]
  constructor
  · rintro ⟨fx, hfx⟩
    obtain ⟨-, hfits, -, hlong, -⟩ := extractFrom_ok hfx
    rw [hheader, hbyte 23 (by decide)] at hlong
    have hbound := hfits.2.2.2.2
    rw [htotal] at hbound
    omega
  · rintro ⟨hfits, hlong⟩
    have hsmall : headerLen (byteOf frame) ≤ 60 := headerLen_le _
    have htransport : transportLen (byteOf frame 23) ≤ 20 := by
      unfold transportLen
      split <;> omega
    have hok' : Ipv4Ok (frame.take rxBufLen).length (byteOf (frame.take rxBufLen)) := by
      obtain ⟨h34, hversion, hmin, hle, hin⟩ := hok
      refine ⟨by omega, by rwa [hbyte 14 (by decide)], by rwa [hheader], by rwa [hheader, htotal],
        by rw [htotal]; omega⟩
    refine ⟨_, extractFrom_of_ok ?_ hok' ?_ ?_⟩
    · rw [hbyte 12 (by decide), hbyte 13 (by decide), htype]
    · rwa [hbyte 23 (by decide)]
    · rw [hheader, hbyte 23 (by decide)]
      omega

/-- Only the first fragment is at offset 0. -/
theorem Covers.offsets {payload : List UInt8} {pos : ℕ} {f : Fragment} {fs : List Fragment}
    (h : Covers payload pos (f :: fs)) : f.offset = pos ∧ ∀ g ∈ fs, pos < g.offset := by
  induction fs generalizing pos f with
  | nil => exact ⟨h.1, fun _ hg => absurd hg List.not_mem_nil⟩
  | cons g fs ih =>
      obtain ⟨hpos, -, hne, -, -, hrest⟩ := h
      have hlt : 0 < f.payload.length := List.length_pos_iff.mpr hne
      obtain ⟨hg, hfs⟩ := ih hrest
      refine ⟨hpos, List.forall_mem_cons.mpr ⟨by omega, fun e he => ?_⟩⟩
      have := hfs e he
      omega

theorem Splits.fragment (h : Splits d frames fragments) {i : ℕ} (hi : frames[i]? = some frame) :
    ∃ f, fragments[i]? = some f ∧ fragmentOf frame = some f := by
  have hparsed : (fragments.map some)[i]? = some (fragmentOf frame) := by
    rw [← h.parsed, List.getElem?_map, hi]
    rfl
  rw [List.getElem?_map] at hparsed
  obtain ⟨f, hf, heq⟩ := Option.map_eq_some_iff.mp hparsed
  exact ⟨f, hf, heq.symm⟩

/-- A fragment at offset 0 is the first one. -/
theorem Splits.first (h : Splits d frames fragments) {i : ℕ} {f : Fragment}
    (hi : fragments[i]? = some f) (hf : f.offset = 0) : i = 0 := by
  have hcovers := h.covers
  cases fragments with
  | nil => cases hcovers
  | cons g fs =>
      cases i with
      | zero => rfl
      | succ i =>
          have hpos := hcovers.offsets.2 f (List.mem_of_getElem? hi)
          omega

theorem portsFromHeader_iff (hd : Splits d frames fragments) :
    PortsFromHeader frames ↔ LaterRefused frames := by
  refine forall₂_congr fun frame hframe => forall₃_congr fun f hf _ => ?_
  obtain ⟨i, hi⟩ := List.mem_iff_getElem?.mp hframe
  obtain ⟨f', hf', heq⟩ := hd.fragment hi
  obtain rfl : f' = f := Option.some.inj (heq.symm.trans hf)
  have hproto : f'.protocol = ipprotoTcp ∨ f'.protocol = ipprotoUdp := by
    rw [(hd.same f' (List.mem_of_getElem? hf')).2.2.1]
    exact hd.transport
  rw [← not_exists, accepted_iff hf hproto]
  omega

/-- Where only the first fragment is accepted, no two are forwarded. -/
theorem together_of_portsFromHeader (hd : Splits d frames fragments)
    (h : PortsFromHeader frames) :
    Together H cfg frames := by
  intro n b pow2 garbage stats active pre mid i j frame frame' now now' sent sent' id id' out out'
    hij hi hj hout hout'
  have hfirst {i : ℕ} {frame : List UInt8} (hi : frames[i]? = some frame) {fx : FlowExtractResult}
      (hv : vipFlow cfg frame = some fx) : i = 0 := by
    obtain ⟨f, hf, hfrag⟩ := hd.fragment hi
    refine hd.first hf (not_not.mp fun hoffset => ?_)
    exact h frame (List.mem_of_getElem? hi) f hfrag hoffset fx (vipFlow_ok hv).1
  obtain ⟨fx, -, -, hv, -⟩ := handlePacket_handed hout
  obtain ⟨fx', -, -, hv', -⟩ := handlePacket_handed hout'
  exact absurd ((hfirst hi hv).trans (hfirst hj hv').symm) hij

/-- The fragments of a datagram go to one backend and no payload of a later one is taken for
ports, in every run, exactly if every later fragment is refused for its length. -/
theorem fragments_together {d : Datagram} {frames : List (List UInt8)} {fragments : List Fragment}
    (H : Hashes) (cfg : DatapathConfig) (hd : Splits d frames fragments) :
    Together H cfg frames ∧ PortsFromHeader frames ↔ LaterRefused frames := by
  rw [← portsFromHeader_iff hd]
  exact and_iff_right_of_imp (together_of_portsFromHeader hd)

/-! ### A datagram in two fragments -/

/-- The UDP header of a packet from port 4000 to port 80, and the first eight bytes of data. -/
def udpStart (rest : List UInt8) : List UInt8 :=
  [0x0f, 0xa0, 0, 80, 0, UInt8.ofNat (16 + rest.length), 0, 0] ++ List.replicate 8 5

def udpDatagram (rest : List UInt8) : Datagram :=
  ⟨0x0700000a, 0x6400000a, 17, 1, udpStart rest ++ rest⟩

def fragmentFrame (totalLength flags offset : UInt8) (payload : List UInt8) : List UInt8 :=
  List.replicate 12 0 ++ [0x08, 0x00] ++
    [0x45, 0, 0, totalLength, 0, 1, flags, offset, 64, 17, 0, 0, 10, 0, 0, 7, 10, 0, 0, 100] ++
    payload

def firstFrame (rest : List UInt8) : List UInt8 := fragmentFrame 36 0x20 0 (udpStart rest)

def lastFrame (rest : List UInt8) : List UInt8 :=
  fragmentFrame (UInt8.ofNat (20 + rest.length)) 0 2 rest

def udpFragments (rest : List UInt8) : List Fragment :=
  [⟨0x0700000a, 0x6400000a, 17, 1, true, 0, udpStart rest⟩,
    ⟨0x0700000a, 0x6400000a, 17, 1, false, 16, rest⟩]

theorem udpDatagram_splits (rest : List UInt8)
    (h : rest ∈ [List.replicate 4 5, List.replicate 8 5]) :
    Splits (udpDatagram rest) [firstFrame rest, lastFrame rest] (udpFragments rest) := by
  simp only [List.mem_cons, List.not_mem_nil, or_false] at h
  rcases h with rfl | rfl
  all_goals
    exact ⟨by decide, by decide +kernel, by decide +kernel,
      ⟨rfl, rfl, by decide, by decide, rfl, rfl, rfl, rfl⟩⟩

/-- The hashes of the two endpoints and of the two keys. -/
def fragmentHashes : Hashes :=
  { sampleHashes with
    flowHash := fun key => if key = sampleKey then 0x54d07ea12882f688 else 0xddb95d2b3ccad0b7 }

/-- 10.0.0.11:80 and 10.0.0.12:80, and their table. -/
def twoBackends : RoutingSnapshot :=
  let views : List BackendView :=
    [⟨0, 0x0b00000a, 80, Vector.replicate 6 1⟩, ⟨1, 0x0c00000a, 80, Vector.replicate 6 1⟩]
  ⟨maglevTableGenerate fragmentHashes sampleSize views, views, 1⟩

/-- A new table, one snapshot, and the two fragments one right after the other: the last one is
sent to another backend, by ports that are payload. -/
theorem fragments_apart :
    Splits (udpDatagram (List.replicate 8 5))
        [firstFrame (List.replicate 8 5), lastFrame (List.replicate 8 5)]
        (udpFragments (List.replicate 8 5)) ∧
      let s : State 2 4 := ⟨conntrackInit 2 4 ⟨2, rfl⟩ fun _ => ⟨sampleKey, 0, 0⟩,
        StatsRegistry.statsRegistryInit 2, some twoBackends⟩
      let first := handlePacket fragmentHashes sampleConfig s (firstFrame (List.replicate 8 5))
        100 74
      let last := handlePacket fragmentHashes sampleConfig
        (run fragmentHashes sampleConfig s [.packet (firstFrame (List.replicate 8 5)) 100 74])
        (lastFrame (List.replicate 8 5)) 101 66
      (handed first.verdict).map Prod.fst = some 0 ∧ (handed last.verdict).map Prod.fst = some 1 ∧
        (vipFlow sampleConfig (lastFrame (List.replicate 8 5))).map (·.key) =
          some ⟨0x0700000a, 0x6400000a, 0x0505, 0x0505, 17⟩ :=
  ⟨udpDatagram_splits _ (by simp), by decide +kernel, by decide +kernel, by decide +kernel⟩

/-- A last fragment too short to be accepted. -/
theorem fragments_together_short :
    Splits (udpDatagram (List.replicate 4 5))
        [firstFrame (List.replicate 4 5), lastFrame (List.replicate 4 5)]
        (udpFragments (List.replicate 4 5)) ∧
      Together sampleHashes sampleConfig
        [firstFrame (List.replicate 4 5), lastFrame (List.replicate 4 5)] ∧
      PortsFromHeader [firstFrame (List.replicate 4 5), lastFrame (List.replicate 4 5)] := by
  have hd := udpDatagram_splits (List.replicate 4 5) (by simp)
  refine ⟨hd, (fragments_together sampleHashes sampleConfig hd).mpr ?_⟩
  have hshort : ∀ frame ∈ [firstFrame (List.replicate 4 5), lastFrame (List.replicate 4 5)],
      (fragmentOf frame).all (fun f => f.offset = 0 ∨
        frame.length < 14 + headerLen (byteOf frame) + transportLen f.protocol) = true := by
    decide +kernel
  intro frame hframe f hf hoffset
  have hall := hshort frame hframe
  rw [hf, Option.all_some, decide_eq_true_iff] at hall
  exact .inl (hall.resolve_left hoffset)

end MaglevLb.Fragments
