import MaglevLb.ConntrackRefinement
import MaglevLb.EventRun
import MaglevLb.Maglev
import MaglevLb.StatsRegistry

/-!
# The datapath

One packet runs from the receive call to the send call through nine exits. The
frame, the clock reading and the kernel's answer to the send are inputs of the
step. Besides the new table and counters a packet reports where it ended and
whether it pinned a flow. Events of a run are packets, the installation of a
snapshot by another thread, and reaper ticks.
-/
namespace MaglevLb.Datapath
open PacketFormat Maglev Conntrack StatsRegistry

structure DatapathConfig where
  vip : UInt32
  directorIp : UInt32
  ttl : UInt8
  ownMac : Mac
  timeouts : Timeouts

def rxBufLen : ℕ := 2048
def txBufLen : ℕ := 2048

inductive Drop where
  | parseError
  | noBackend
  | conntrackFull
  | backendUnhealthy
deriving DecidableEq, Repr

/-- Where a packet ended. -/
inductive Verdict where
  | noFrame
  | ignored
  | dropped (reason : Drop)
  | sendFailed (backendId : Int32) (frame : List UInt8)
  | sent (backendId : Int32) (frame : List UInt8)
deriving DecidableEq, Repr

structure State (n b : ℕ) where
  ct : ConntrackTable n b
  stats : LbStats
  active : Option RoutingSnapshot

/-- `pinned` is the backend id of a successful insert. -/
structure PacketResult (n b : ℕ) where
  ct : ConntrackTable n b
  stats : LbStats
  pinned : Option Int32
  verdict : Verdict

variable {n b : ℕ}

def countRx (stats : LbStats) (n : ℕ) : LbStats :=
  { stats with rxPackets := stats.rxPackets + 1
               rxBytes := stats.rxBytes + UInt64.ofNat n }

/-- One hit or one miss. -/
def countLookup (stats : LbStats) (hit : Bool) : LbStats :=
  if hit then { stats with conntrackHits := stats.conntrackHits + 1 }
  else { stats with conntrackMisses := stats.conntrackMisses + 1 }

/-- One more in the counter of the reason. -/
def countDrop (stats : LbStats) : Drop → LbStats
  | .parseError => { stats with dropsParseError := stats.dropsParseError + 1 }
  | .noBackend => { stats with dropsNoBackend := stats.dropsNoBackend + 1 }
  | .conntrackFull => { stats with dropsConntrackFull := stats.dropsConntrackFull + 1 }
  | .backendUnhealthy => { stats with dropsBackendUnhealthy := stats.dropsBackendUnhealthy + 1 }

/-- The frame the kernel took, globally and for its backend. -/
def countTx (stats : LbStats) (backendId : Int32) (sent : ℤ) : LbStats :=
  statsRecordBackendPacket
    { stats with txPackets := stats.txPackets + 1
                 txBytes := stats.txBytes + UInt64.ofNat sent.toNat }
    backendId.toUInt32 (UInt64.ofNat sent.toNat)

/-- The outer frame around the IP packet of the received one. -/
def encapsulate (cfg : DatapathConfig) (rx : List UInt8) (fx : FlowExtractResult)
    (backend : BackendView) : Option (List UInt8) :=
  greEncapBuild txBufLen backend.mac cfg.ownMac cfg.directorIp backend.addr cfg.ttl
    ((rx.drop fx.ipOffset).take fx.ipTotalLen)

/-- From the resolved backend id to the send call. -/
def forward (cfg : DatapathConfig) (snap : RoutingSnapshot) (rx : List UInt8)
    (fx : FlowExtractResult) (backendId : Int32) (sent : ℤ) (stats : LbStats) :
    LbStats × Verdict :=
  match routingSnapshotFindBackend snap backendId with
  | none => (countDrop stats .backendUnhealthy, .dropped .backendUnhealthy)
  | some backend =>
      match encapsulate cfg rx fx backend with
      | none => (countDrop stats .parseError, .dropped .parseError)
      | some frame =>
          if sent > 0 then (countTx stats backendId sent, .sent backendId frame)
          else (stats, .sendFailed backendId frame)

/-- A packet for the virtual address: conntrack first, then the table. -/
def routeFlow (H : Hashes) (cfg : DatapathConfig) (ct : ConntrackTable n b)
    (active : Option RoutingSnapshot) (rx : List UInt8) (fx : FlowExtractResult) (now : UInt64)
    (sent : ℤ) (stats : LbStats) : PacketResult n b :=
  let look := conntrackLookup H.flowHash ct fx.key now
  let stats := countLookup stats look.2.isSome
  match active with
  | none => ⟨look.1, countDrop stats .noBackend, none, .dropped .noBackend⟩
  | some snap =>
      match look.2 with
      | some backendId =>
          let r := forward cfg snap rx fx backendId sent stats
          ⟨look.1, r.1, none, r.2⟩
      | none =>
          let backendId := maglevTableLookup H snap.table fx.key
          if backendId < 0 then ⟨look.1, countDrop stats .noBackend, none, .dropped .noBackend⟩
          else
            match conntrackInsert H.flowHash look.1 fx.key backendId now with
            | none => ⟨look.1, countDrop stats .conntrackFull, none, .dropped .conntrackFull⟩
            | some ct' =>
                let r := forward cfg snap rx fx backendId sent
                  (statsBackendFlowOpened stats backendId.toUInt32)
                ⟨ct', r.1, some backendId, r.2⟩

/-- The receive call copies at most the buffer; nothing received ends the call. -/
def handlePacket (H : Hashes) (cfg : DatapathConfig) (s : State n b) (frame : List UInt8)
    (now : UInt64) (sent : ℤ) : PacketResult n b :=
  let rx := frame.take rxBufLen
  if rx.length = 0 then ⟨s.ct, s.stats, none, .noFrame⟩
  else
    let stats := countRx s.stats rx.length
    match packetExtractFlow rx with
    | .error .truncated => ⟨s.ct, countDrop stats .parseError, none, .dropped .parseError⟩
    | .error .unsupported => ⟨s.ct, stats, none, .ignored⟩
    | .ok fx =>
        if fx.key.dstIp ≠ cfg.vip then ⟨s.ct, stats, none, .ignored⟩
        else routeFlow H cfg s.ct s.active rx fx now sent stats

def onFlowEvicted (stats : LbStats) (backendId : Int32) : LbStats :=
  if backendId ≥ 0 then statsBackendFlowClosed stats backendId.toUInt32 else stats

/-- The timer branch of the event loop. -/
def reaperTick (cfg : DatapathConfig) (s : State n b) (now : UInt64) : State n b :=
  let r := conntrackReapSlice s.ct now cfg.timeouts (b / 60 + 1)
  let stats := r.2.foldl onFlowEvicted s.stats
  { s with
    ct := r.1
    stats := { stats with
      conntrackEvictions := stats.conntrackEvictions + UInt64.ofNat r.2.length } }

inductive Event where
  | packet (frame : List UInt8) (now : UInt64) (sent : ℤ)
  | install (snap : RoutingSnapshot)
  | tick (now : UInt64)

def step (H : Hashes) (cfg : DatapathConfig) (s : State n b) : Event → State n b
  | .packet frame now sent =>
      let r := handlePacket H cfg s frame now sent
      { s with ct := r.ct, stats := r.stats }
  | .install snap => { s with active := some snap }
  | .tick now => reaperTick cfg s now

abbrev run (H : Hashes) (cfg : DatapathConfig) : State n b → List Event → State n b :=
  EventRun.run (step H cfg)

/-- The flow of a frame that parses and is addressed to the virtual address. -/
def vipFlow (cfg : DatapathConfig) (frame : List UInt8) : Option FlowExtractResult :=
  match packetExtractFlow (frame.take rxBufLen) with
  | .error _ => none
  | .ok fx => if fx.key.dstIp = cfg.vip then some fx else none

/-- A received frame that the datapath skips: unsupported, or for another address. -/
def ignoredFrame (cfg : DatapathConfig) (frame : List UInt8) : Bool :=
  match packetExtractFlow (frame.take rxBufLen) with
  | .error .truncated => false
  | .error .unsupported => true
  | .ok fx => fx.key.dstIp != cfg.vip

theorem packetExtractFlow_nil : packetExtractFlow [] = .error .truncated := rfl

/-- A frame that is not a flow to the virtual address leaves the table alone and
goes nowhere. -/
theorem handlePacket_of_vipFlow_none {H : Hashes} {cfg : DatapathConfig} (s : State n b)
    {frame : List UInt8} (h : vipFlow cfg frame = none) (now : UInt64) (sent : ℤ) :
    (ignoredFrame cfg frame = false ∧
      handlePacket H cfg s frame now sent = ⟨s.ct, s.stats, none, .noFrame⟩) ∨
    (ignoredFrame cfg frame = true ∧ handlePacket H cfg s frame now sent =
      ⟨s.ct, countRx s.stats (frame.take rxBufLen).length, none, .ignored⟩) ∨
    (ignoredFrame cfg frame = false ∧ handlePacket H cfg s frame now sent =
      ⟨s.ct, countDrop (countRx s.stats (frame.take rxBufLen).length) .parseError, none,
        .dropped .parseError⟩) := by
  unfold handlePacket ignoredFrame
  unfold vipFlow at h
  dsimp only
  by_cases hz : (frame.take rxBufLen).length = 0
  · rw [if_pos hz, List.length_eq_zero_iff.mp hz, packetExtractFlow_nil]
    exact Or.inl ⟨rfl, rfl⟩
  · rw [if_neg hz]
    split
    · exact Or.inr (Or.inr ⟨rfl, rfl⟩)
    · exact Or.inr (Or.inl ⟨rfl, rfl⟩)
    · next fx he =>
        rw [he] at h
        split
        · next hd => exact Or.inr (Or.inl ⟨bne_iff_ne.mpr hd, rfl⟩)
        · next hd => simp [not_not.mp hd] at h

/-- It is not routed: no record, no pin, nothing for the send call. -/
theorem handlePacket_skipped {H : Hashes} {cfg : DatapathConfig} (s : State n b)
    {frame : List UInt8} (h : vipFlow cfg frame = none) (now : UInt64) (sent : ℤ) :
    (handlePacket H cfg s frame now sent).ct = s.ct ∧
    (handlePacket H cfg s frame now sent).pinned = none ∧
    ((handlePacket H cfg s frame now sent).verdict = .noFrame ∨
      (handlePacket H cfg s frame now sent).verdict = .ignored ∨
      (handlePacket H cfg s frame now sent).verdict = .dropped .parseError) := by
  rcases handlePacket_of_vipFlow_none (H := H) s h now sent with ⟨-, he⟩ | ⟨-, he⟩ | ⟨-, he⟩
  · rw [he]
    exact ⟨rfl, rfl, Or.inl rfl⟩
  · rw [he]
    exact ⟨rfl, rfl, Or.inr (Or.inl rfl)⟩
  · rw [he]
    exact ⟨rfl, rfl, Or.inr (Or.inr rfl)⟩

theorem vipFlow_ok {cfg : DatapathConfig} {frame : List UInt8} {fx : FlowExtractResult}
    (h : vipFlow cfg frame = some fx) :
    packetExtractFlow (frame.take rxBufLen) = .ok fx ∧ fx.key.dstIp = cfg.vip := by
  unfold vipFlow at h
  split at h
  · cases h
  · next he =>
      split at h
      · next hd =>
          cases h
          exact ⟨he, hd⟩
      · cases h

theorem ignoredFrame_of_vipFlow {cfg : DatapathConfig} {frame : List UInt8}
    {fx : FlowExtractResult} (h : vipFlow cfg frame = some fx) :
    ignoredFrame cfg frame = false := by
  obtain ⟨he, hd⟩ := vipFlow_ok h
  simp [ignoredFrame, he, hd]

theorem handlePacket_of_vipFlow {H : Hashes} {cfg : DatapathConfig} (s : State n b)
    {frame : List UInt8} {fx : FlowExtractResult} (h : vipFlow cfg frame = some fx)
    (now : UInt64) (sent : ℤ) :
    handlePacket H cfg s frame now sent =
      routeFlow H cfg s.ct s.active (frame.take rxBufLen) fx now sent
        (countRx s.stats (frame.take rxBufLen).length) := by
  obtain ⟨he, hd⟩ := vipFlow_ok h
  have hne : (frame.take rxBufLen).length ≠ 0 := by
    intro hz
    rw [List.length_eq_zero_iff.mp hz, packetExtractFlow_nil] at he
    cases he
  simp only [handlePacket, hne, he, hd, ne_eq, not_true_eq_false, if_false]

/-- The ways from the resolved backend id on. -/
inductive Forwarded (cfg : DatapathConfig) (snap : RoutingSnapshot) (rx : List UInt8)
    (fx : FlowExtractResult) (backendId : Int32) (sent : ℤ) (stats : LbStats) :
    LbStats × Verdict → Prop
  | unresolved (hf : routingSnapshotFindBackend snap backendId = none) :
      Forwarded cfg snap rx fx backendId sent stats
        (countDrop stats .backendUnhealthy, .dropped .backendUnhealthy)
  | oversize (v : BackendView) (hf : routingSnapshotFindBackend snap backendId = some v)
      (he : encapsulate cfg rx fx v = none) :
      Forwarded cfg snap rx fx backendId sent stats
        (countDrop stats .parseError, .dropped .parseError)
  | refused (v : BackendView) (f : List UInt8)
      (hf : routingSnapshotFindBackend snap backendId = some v)
      (he : encapsulate cfg rx fx v = some f) (hs : ¬ sent > 0) :
      Forwarded cfg snap rx fx backendId sent stats (stats, .sendFailed backendId f)
  | accepted (v : BackendView) (f : List UInt8)
      (hf : routingSnapshotFindBackend snap backendId = some v)
      (he : encapsulate cfg rx fx v = some f) (hs : sent > 0) :
      Forwarded cfg snap rx fx backendId sent stats
        (countTx stats backendId sent, .sent backendId f)

theorem forward_forwarded (cfg : DatapathConfig) (snap : RoutingSnapshot) (rx : List UInt8)
    (fx : FlowExtractResult) (backendId : Int32) (sent : ℤ) (stats : LbStats) :
    ∃ r, forward cfg snap rx fx backendId sent stats = r ∧
      Forwarded cfg snap rx fx backendId sent stats r := by
  refine ⟨_, rfl, ?_⟩
  unfold forward
  split
  · next hf => exact .unresolved hf
  · next v hf =>
      split
      · next he => exact .oversize v hf he
      · next f he =>
          split
          · next hs => exact .accepted v f hf he hs
          · next hs => exact .refused v f hf he hs

/-- The ways of a packet for the virtual address. -/
inductive Routed (H : Hashes) (cfg : DatapathConfig) (ct : ConntrackTable n b)
    (active : Option RoutingSnapshot) (rx : List UInt8) (fx : FlowExtractResult) (now : UInt64)
    (sent : ℤ) (stats : LbStats) : PacketResult n b → Prop
  | unrouted (hit : Bool) (r : Drop) (hr : r = .noBackend ∨ r = .conntrackFull) :
      Routed H cfg ct active rx fx now sent stats
        ⟨(conntrackLookup H.flowHash ct fx.key now).1, countDrop (countLookup stats hit) r,
          none, .dropped r⟩
  | pinned (snap : RoutingSnapshot) (backendId : Int32) (ha : active = some snap)
      (hl : (conntrackLookup H.flowHash ct fx.key now).2 = some backendId) :
      Routed H cfg ct active rx fx now sent stats
        ⟨(conntrackLookup H.flowHash ct fx.key now).1,
          (forward cfg snap rx fx backendId sent (countLookup stats true)).1, none,
          (forward cfg snap rx fx backendId sent (countLookup stats true)).2⟩
  | opened (snap : RoutingSnapshot) (backendId : Int32) (ct' : ConntrackTable n b)
      (ha : active = some snap) (hl : (conntrackLookup H.flowHash ct fx.key now).2 = none)
      (hid : maglevTableLookup H snap.table fx.key = backendId) (hpos : ¬ backendId < 0)
      (hi : conntrackInsert H.flowHash (conntrackLookup H.flowHash ct fx.key now).1 fx.key
        backendId now = some ct') :
      Routed H cfg ct active rx fx now sent stats
        ⟨ct', (forward cfg snap rx fx backendId sent
            (statsBackendFlowOpened (countLookup stats false) backendId.toUInt32)).1,
          some backendId, (forward cfg snap rx fx backendId sent
            (statsBackendFlowOpened (countLookup stats false) backendId.toUInt32)).2⟩

theorem routeFlow_routed (H : Hashes) (cfg : DatapathConfig) (ct : ConntrackTable n b)
    (active : Option RoutingSnapshot) (rx : List UInt8) (fx : FlowExtractResult) (now : UInt64)
    (sent : ℤ) (stats : LbStats) :
    Routed H cfg ct active rx fx now sent stats
      (routeFlow H cfg ct active rx fx now sent stats) := by
  unfold routeFlow
  dsimp only
  split
  · exact .unrouted _ .noBackend (Or.inl rfl)
  · next snap =>
      split
      · next backendId hl =>
          rw [hl]
          exact .pinned snap backendId rfl hl
      · next hl =>
          rw [hl]
          split
          · exact .unrouted _ .noBackend (Or.inl rfl)
          · next hpos =>
              split
              · exact .unrouted _ .conntrackFull (Or.inr rfl)
              · next ct' hi => exact .opened snap _ ct' rfl hl rfl hpos hi

theorem handlePacket_routed {H : Hashes} {cfg : DatapathConfig} (s : State n b)
    {frame : List UInt8} {fx : FlowExtractResult} (h : vipFlow cfg frame = some fx)
    (now : UInt64) (sent : ℤ) :
    ∃ r, handlePacket H cfg s frame now sent = r ∧
      Routed H cfg s.ct s.active (frame.take rxBufLen) fx now sent
        (countRx s.stats (frame.take rxBufLen).length) r :=
  ⟨_, handlePacket_of_vipFlow s h now sent, routeFlow_routed ..⟩

/-- An empty UDP datagram from 10.0.0.7:4000 to 10.0.0.100:80. -/
def sampleFrame : List UInt8 :=
  List.replicate 12 0 ++ [0x08, 0x00] ++
    [0x45, 0, 0, 28, 0, 0, 0x40, 0, 64, 17, 0, 0, 10, 0, 0, 7, 10, 0, 0, 100] ++
    [0x0f, 0xa0, 0, 80, 0, 8, 0, 0]

def sampleKey : FlowKey := ⟨0x0700000a, 0x6400000a, 0xa00f, 0x5000, 17⟩

def sampleConfig : DatapathConfig where
  vip := 0x6400000a
  directorIp := 0x0100000a
  ttl := 64
  ownMac := Vector.replicate 6 2
  timeouts := ⟨300, 30⟩

/-- All slots of the table name one backend. -/
def sampleSnapshot (id : UInt32) : RoutingSnapshot where
  table := ⟨3, by decide, fun _ => id.toInt32⟩
  backends := [⟨id, 0x0b00000a, 80, Vector.replicate 6 1⟩]
  generation := 1

def sampleSize : TableSize := ⟨3, Nat.prime_three⟩

/-- The hash values of the endpoints 10.0.0.11:80 and 10.0.0.12:80 and of the
sample flow. -/
def sampleHashes : Hashes where
  maglevHashOffset name :=
    if name = backendName 0x0b00000a 80 then 0x3c7ecb7fa13fa306 else 0xaffe2cfc39b66959
  maglevHashSkip name :=
    if name = backendName 0x0b00000a 80 then 0x751f4bb8f87259be else 0xf0434553981c3838
  flowHash _ := 0x54d07ea12882f688

example : vipFlow sampleConfig sampleFrame = some ⟨sampleKey, 14, 28⟩ := by decide +kernel

end MaglevLb.Datapath
