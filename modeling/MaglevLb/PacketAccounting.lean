import MaglevLb.Datapath

/-!
# Packet accounting

The ledger of a counter registry keeps what a received packet is booked under:
one reception, one lookup if it is a flow to the virtual address, and one
outcome. Every exit of the datapath books an outcome except one: a frame the
kernel refuses at the send call is booked under none.
-/
namespace MaglevLb.Datapath
open PacketFormat Maglev Conntrack StatsRegistry

/-- The counters a packet can end in. -/
inductive Outcome where
  | transmitted
  | dropped (reason : Drop)
deriving DecidableEq, Repr

structure Ledger where
  received : UInt64
  lookups : UInt64
  outcome : Outcome → UInt64
  backendPackets : UInt64

def outcomeCounter (s : LbStats) : Outcome → UInt64
  | .transmitted => s.txPackets
  | .dropped .parseError => s.dropsParseError
  | .dropped .noBackend => s.dropsNoBackend
  | .dropped .conntrackFull => s.dropsConntrackFull
  | .dropped .backendUnhealthy => s.dropsBackendUnhealthy

def ledger (s : LbStats) : Ledger where
  received := s.rxPackets
  lookups := s.conntrackHits + s.conntrackMisses
  outcome := outcomeCounter s
  backendPackets := s.backendPackets

def Ledger.receive (l : Ledger) : Ledger := { l with received := l.received + 1 }

def Ledger.look (l : Ledger) : Ledger := { l with lookups := l.lookups + 1 }

def Ledger.book (l : Ledger) (o : Outcome) : Ledger :=
  { l with outcome := Function.update l.outcome o (l.outcome o + 1) }

/-- Book a verdict; `max` is the number of per-backend records. -/
def Ledger.settle (l : Ledger) (max : ℕ) : Verdict → Ledger
  | .noFrame => l
  | .ignored => l
  | .dropped r => l.book (.dropped r)
  | .sendFailed _ _ => l
  | .sent backendId _ =>
      { l.book .transmitted with
        backendPackets :=
          l.backendPackets + if backendId.toUInt32.toNat < max then 1 else 0 }

theorem Ledger.settle_dropped (l : Ledger) (max : ℕ) (v : Verdict) (r : Drop) :
    (l.settle max v).outcome (.dropped r) =
      l.outcome (.dropped r) + if v = .dropped r then 1 else 0 := by
  cases v with
  | dropped r' => by_cases h : r = r' <;> simp [Ledger.settle, Ledger.book, h, eq_comm]
  | sent backendId f => simp [Ledger.settle, Ledger.book]
  | noFrame => simp [Ledger.settle]
  | ignored => simp [Ledger.settle]
  | sendFailed backendId f => simp [Ledger.settle]

theorem ledger_eq_of_globals {s t : LbStats} (h : s.globals = t.globals)
    (hp : s.backendPackets = t.backendPackets) : ledger s = ledger t := by
  have hc : ∀ s : LbStats, ledger s = { ledger s.globals with
      backendPackets := s.backendPackets } := fun _ => rfl
  rw [hc s, hc t, h, hp]

theorem countRx_ledger (s : LbStats) (n : ℕ) : ledger (countRx s n) = (ledger s).receive := rfl

theorem countLookup_ledger (s : LbStats) (hit : Bool) :
    ledger (countLookup s hit) = (ledger s).look := by
  cases hit with
  | true =>
      have hsum : s.conntrackHits + 1 + s.conntrackMisses =
          s.conntrackHits + s.conntrackMisses + 1 := by ac_rfl
      exact congrArg (fun l => { ledger s with lookups := l }) hsum
  | false =>
      exact congrArg (fun l => { ledger s with lookups := l }) (UInt64.add_assoc ..).symm

theorem countDrop_ledger (s : LbStats) (r : Drop) :
    ledger (countDrop s r) = (ledger s).book (.dropped r) := by
  have ho : outcomeCounter (countDrop s r) = Function.update (outcomeCounter s) (.dropped r)
      (outcomeCounter s (.dropped r) + 1) := by
    funext o
    cases r <;> rcases o with _ | _ | _ | _ | _ <;> rfl
  unfold ledger Ledger.book
  rw [ho]
  cases r <;> rfl

theorem statsBackendFlowOpened_ledger (s : LbStats) (id : UInt32) :
    ledger (statsBackendFlowOpened s id) = ledger s :=
  ledger_eq_of_globals (s.updateBackend_globals id _)
    (s.updateBackend_backendPackets id fun _ => rfl)

theorem statsBackendFlowClosed_ledger (s : LbStats) (id : UInt32) :
    ledger (statsBackendFlowClosed s id) = ledger s :=
  ledger_eq_of_globals (s.updateBackend_globals id _)
    (s.updateBackend_backendPackets id fun _ => rfl)

theorem countTx_ledger (s : LbStats) (backendId : Int32) (sent : ℤ) (frame : List UInt8) :
    ledger (countTx s backendId sent) =
      (ledger s).settle s.backends.length (.sent backendId frame) := by
  let t : LbStats := { s with txPackets := s.txPackets + 1
                              txBytes := s.txBytes + UInt64.ofNat sent.toNat }
  have ht : ledger t = (ledger s).book .transmitted := by
    have ho : outcomeCounter t =
        Function.update (outcomeCounter s) .transmitted (outcomeCounter s .transmitted + 1) := by
      funext o
      rcases o with _ | _ | _ | _ | _ <;> rfl
    exact congrArg (fun o => { ledger s with outcome := o }) ho
  have hg : (countTx s backendId sent).globals = t.globals := t.updateBackend_globals ..
  have hp : (countTx s backendId sent).backendPackets =
      s.backendPackets + if backendId.toUInt32.toNat < s.backends.length then 1 else 0 := by
    split
    · next hlt => exact statsRecordBackendPacket_backendPackets t _ hlt
    · next hge =>
        have hsame : countTx s backendId sent = t := if_pos (Nat.not_lt.mp hge)
        rw [hsame, UInt64.add_zero]
        rfl
  have hl : ledger (countTx s backendId sent) =
      { ledger t with backendPackets := (countTx s backendId sent).backendPackets } :=
    congrArg (fun g => { ledger g with
      backendPackets := (countTx s backendId sent).backendPackets }) hg
  rw [hl, ht, hp]
  rfl

theorem countDrop_length (s : LbStats) (r : Drop) :
    (countDrop s r).backends.length = s.backends.length := by
  cases r <;> rfl

theorem countLookup_length (s : LbStats) (hit : Bool) :
    (countLookup s hit).backends.length = s.backends.length := by
  cases hit <;> rfl

/-- The last part of a packet's way books exactly its verdict. -/
theorem forward_ledger (cfg : DatapathConfig) (snap : RoutingSnapshot) (rx : List UInt8)
    (fx : FlowExtractResult) (backendId : Int32) (sent : ℤ) (stats : LbStats) :
    ledger (forward cfg snap rx fx backendId sent stats).1 =
      (ledger stats).settle stats.backends.length
        (forward cfg snap rx fx backendId sent stats).2 ∧
    (forward cfg snap rx fx backendId sent stats).1.backends.length =
      stats.backends.length := by
  obtain ⟨r, he, hr⟩ := forward_forwarded cfg snap rx fx backendId sent stats
  rw [he]
  cases hr with
  | unresolved hf => exact ⟨countDrop_ledger stats _, rfl⟩
  | oversize v hf he => exact ⟨countDrop_ledger stats _, rfl⟩
  | refused v f hf he hs => exact ⟨rfl, rfl⟩
  | accepted v f hf he hs =>
      exact ⟨countTx_ledger stats backendId sent f, LbStats.updateBackend_length ..⟩

/-- A packet for the virtual address books one reception, one lookup and its
verdict. -/
theorem handlePacket_ledger_vip {n b : ℕ} {H : Hashes} {cfg : DatapathConfig} (s : State n b)
    {frame : List UInt8} {fx : FlowExtractResult} (hv : vipFlow cfg frame = some fx)
    (now : UInt64) (sent : ℤ) :
    ledger (handlePacket H cfg s frame now sent).stats =
      (ledger s.stats).receive.look.settle s.stats.backends.length
        (handlePacket H cfg s frame now sent).verdict ∧
    (handlePacket H cfg s frame now sent).stats.backends.length = s.stats.backends.length := by
  obtain ⟨r, he, hr⟩ := handlePacket_routed (H := H) s hv now sent
  have hlook : ∀ hit, ledger (countLookup (countRx s.stats (frame.take rxBufLen).length) hit) =
      (ledger s.stats).receive.look := fun hit => by rw [countLookup_ledger, countRx_ledger]
  have hlen : ∀ hit, (countLookup (countRx s.stats (frame.take rxBufLen).length)
      hit).backends.length = s.stats.backends.length := fun hit => countLookup_length _ hit
  rw [he]
  cases hr with
  | unrouted hit r hr =>
      refine ⟨?_, (countDrop_length _ r).trans (hlen hit)⟩
      rw [countDrop_ledger, hlook]
      rfl
  | pinned snap backendId ha hl =>
      obtain ⟨hf, hfl⟩ := forward_ledger cfg snap (frame.take rxBufLen) fx backendId sent
        (countLookup (countRx s.stats (frame.take rxBufLen).length) true)
      rw [hlook, hlen] at hf
      exact ⟨hf, hfl.trans (hlen true)⟩
  | opened snap backendId ct' ha hl hid hpos hi =>
      obtain ⟨hf, hfl⟩ := forward_ledger cfg snap (frame.take rxBufLen) fx backendId sent
        (statsBackendFlowOpened (countLookup (countRx s.stats (frame.take rxBufLen).length) false)
          backendId.toUInt32)
      have hopen : (statsBackendFlowOpened (countLookup (countRx s.stats
          (frame.take rxBufLen).length) false) backendId.toUInt32).backends.length =
          s.stats.backends.length := (LbStats.updateBackend_length ..).trans (hlen false)
      rw [statsBackendFlowOpened_ledger, hlook] at hf
      exact ⟨hf.trans (congrArg (Ledger.settle _ · _) hopen), hfl.trans hopen⟩

/-- A sweep books nothing. -/
theorem onFlowEvicted_ledger (s : LbStats) (backendId : Int32) :
    ledger (onFlowEvicted s backendId) = ledger s ∧
    (onFlowEvicted s backendId).backends.length = s.backends.length := by
  unfold onFlowEvicted
  split
  · exact ⟨statsBackendFlowClosed_ledger s _, LbStats.updateBackend_length ..⟩
  · exact ⟨rfl, rfl⟩

theorem foldl_onFlowEvicted_ledger (s : LbStats) (evicted : List Int32) :
    ledger (evicted.foldl onFlowEvicted s) = ledger s ∧
    (evicted.foldl onFlowEvicted s).backends.length = s.backends.length := by
  induction evicted generalizing s with
  | nil => exact ⟨rfl, rfl⟩
  | cons backendId evicted ih =>
      obtain ⟨hone, hlen⟩ := onFlowEvicted_ledger s backendId
      obtain ⟨hrest, hlen'⟩ := ih (onFlowEvicted s backendId)
      exact ⟨hrest.trans hone, hlen'.trans hlen⟩

/-- The backend whose frame a packet would hand to the send call, read off the
state before the packet. -/
def sendTarget {n b : ℕ} (H : Hashes) (cfg : DatapathConfig) (s : State n b)
    (frame : List UInt8) (now : UInt64) : Option Int32 := do
  let fx ← vipFlow cfg frame
  let snap ← s.active
  let look := conntrackLookup H.flowHash s.ct fx.key now
  let backendId ← match look.2 with
    | some backendId => some backendId
    | none =>
        let backendId := maglevTableLookup H snap.table fx.key
        if backendId < 0 then none
        else (conntrackInsert H.flowHash look.1 fx.key backendId now).map fun _ => backendId
  let backend ← routingSnapshotFindBackend snap backendId
  (encapsulate cfg (frame.take rxBufLen) fx backend).map fun _ => backendId

theorem forward_verdict (cfg : DatapathConfig) (snap : RoutingSnapshot) (rx : List UInt8)
    (fx : FlowExtractResult) (backendId : Int32) (sent : ℤ) (stats : LbStats) :
    (∃ r, (forward cfg snap rx fx backendId sent stats).2 = .dropped r) ∨
    ∃ v f, routingSnapshotFindBackend snap backendId = some v ∧
      encapsulate cfg rx fx v = some f ∧
      (forward cfg snap rx fx backendId sent stats).2 =
        if sent > 0 then .sent backendId f else .sendFailed backendId f := by
  obtain ⟨r, hr, hcase⟩ := forward_forwarded cfg snap rx fx backendId sent stats
  rw [hr]
  cases hcase with
  | unresolved hf => exact Or.inl ⟨_, rfl⟩
  | oversize v hf he => exact Or.inl ⟨_, rfl⟩
  | refused v f hf he hs => exact Or.inr ⟨v, f, hf, he, (if_neg hs).symm⟩
  | accepted v f hf he hs => exact Or.inr ⟨v, f, hf, he, (if_pos hs).symm⟩

/-- A packet for the virtual address is dropped, or it has a send target and the
kernel's answer decides. -/
theorem handlePacket_vip_verdict {n b : ℕ} {H : Hashes} {cfg : DatapathConfig} (s : State n b)
    {frame : List UInt8} {fx : FlowExtractResult} (hv : vipFlow cfg frame = some fx)
    (now : UInt64) (sent : ℤ) :
    (∃ r, (handlePacket H cfg s frame now sent).verdict = .dropped r) ∨
    ∃ target f, sendTarget H cfg s frame now = some target ∧
      (handlePacket H cfg s frame now sent).verdict =
        if sent > 0 then .sent target f else .sendFailed target f := by
  obtain ⟨r, hr, hcase⟩ := handlePacket_routed (H := H) s hv now sent
  rw [hr]
  cases hcase with
  | unrouted hit r hr => exact Or.inl ⟨r, rfl⟩
  | pinned snap backendId ha hl =>
      rcases forward_verdict cfg snap (frame.take rxBufLen) fx backendId sent
          (countLookup (countRx s.stats (frame.take rxBufLen).length) true) with
        hd | ⟨v, f, hf, he, hver⟩
      · exact Or.inl hd
      · exact Or.inr ⟨backendId, f, by simp [sendTarget, hv, ha, hl, hf, he], hver⟩
  | opened snap backendId ct' ha hl hid hpos hi =>
      rcases forward_verdict cfg snap (frame.take rxBufLen) fx backendId sent
          (statsBackendFlowOpened (countLookup (countRx s.stats (frame.take rxBufLen).length)
            false) backendId.toUInt32) with
        hd | ⟨v, f, hf, he, hver⟩
      · exact Or.inl hd
      · exact Or.inr ⟨backendId, f, by simp [sendTarget, hv, ha, hl, hid, hpos, hi, hf, he], hver⟩

/-- Every reception ends as an ignored frame or under one outcome, and the
backends account for all transmissions. -/
structure Ledger.Balanced (l : Ledger) (ignored : ℕ) : Prop where
  received : l.received = UInt64.ofNat ignored + l.outcome .transmitted +
    (l.outcome (.dropped .parseError) + l.outcome (.dropped .noBackend) +
      l.outcome (.dropped .conntrackFull) + l.outcome (.dropped .backendUnhealthy))
  backends : l.backendPackets = l.outcome .transmitted

theorem Ledger.Balanced.book_dropped {l : Ledger} {ignored : ℕ} (h : l.Balanced ignored)
    (r : Drop) : (l.receive.book (.dropped r)).Balanced ignored := by
  obtain ⟨hr, hb⟩ := h
  constructor
  · cases r <;> simp only [Ledger.receive, Ledger.book, hr, Function.update, eq_rec_constant,
      dite_eq_ite, reduceCtorEq, Outcome.dropped.injEq, if_true, if_false] <;> ac_rfl
  · exact hb

theorem Ledger.Balanced.book_transmitted {l : Ledger} {ignored : ℕ} (h : l.Balanced ignored)
    {max : ℕ} {backendId : Int32} (hid : backendId.toUInt32.toNat < max) (f : List UInt8) :
    (l.receive.settle max (.sent backendId f)).Balanced ignored := by
  obtain ⟨hr, hb⟩ := h
  constructor
  · simp only [Ledger.settle, Ledger.receive, Ledger.book, hr, Function.update, eq_rec_constant,
      dite_eq_ite, reduceCtorEq, if_true, if_false]
    ac_rfl
  · simp only [Ledger.settle, if_pos hid]
    exact congrArg (· + 1) hb

theorem Ledger.Balanced.ignore {l : Ledger} {ignored : ℕ} (h : l.Balanced ignored) :
    l.receive.Balanced (ignored + 1) := by
  obtain ⟨hr, hb⟩ := h
  constructor
  · simp only [Ledger.receive, hr, UInt64.ofNat_add, UInt64.ofNat_one]
    ac_rfl
  · exact hb

section
variable {n b : ℕ} (H : Hashes) (cfg : DatapathConfig)

/-- The kernel takes what the packet hands to the send call, and the backend has
a record of its own. -/
def Accepted (s : State n b) : Event → Prop
  | .packet frame now sent => ∀ target, sendTarget H cfg s frame now = some target →
      sent > 0 ∧ target.toUInt32.toNat < s.stats.backends.length
  | .install _ => True
  | .tick _ => True

def ignoredEvent : Event → Bool
  | .packet frame _ _ => ignoredFrame cfg frame
  | .install _ => false
  | .tick _ => false

/-- An accepted packet for the virtual address is booked under one outcome. -/
theorem handlePacket_accepted {s : State n b} {frame : List UInt8} {fx : FlowExtractResult}
    (hv : vipFlow cfg frame = some fx) {now : UInt64} {sent : ℤ}
    (ha : Accepted H cfg s (.packet frame now sent)) :
    (∃ r, (handlePacket H cfg s frame now sent).verdict = .dropped r) ∨
    ∃ target f, (handlePacket H cfg s frame now sent).verdict = .sent target f ∧
      target.toUInt32.toNat < s.stats.backends.length := by
  rcases handlePacket_vip_verdict (H := H) s hv now sent with hd | ⟨target, f, ht, hver⟩
  · exact Or.inl hd
  · obtain ⟨hsent, hlt⟩ := ha target ht
    rw [if_pos hsent] at hver
    exact Or.inr ⟨target, f, hver, hlt⟩

theorem packet_booked_once {s : State n b} {frame : List UInt8} {fx : FlowExtractResult}
    (hv : vipFlow cfg frame = some fx) {now : UInt64} {sent : ℤ}
    (ha : Accepted H cfg s (.packet frame now sent)) :
    ∃ o, ∀ o', outcomeCounter (handlePacket H cfg s frame now sent).stats o' =
      outcomeCounter s.stats o' + if o' = o then 1 else 0 := by
  have hupd : ∀ (c : Outcome → UInt64) (o o' : Outcome),
      Function.update c o (c o + 1) o' = c o' + if o' = o then 1 else 0 := by
    intro c o o'
    by_cases h : o' = o
    · rw [h, Function.update_self, if_pos rfl]
    · rw [Function.update_of_ne h, if_neg h, UInt64.add_zero]
  have hl := congrArg Ledger.outcome (handlePacket_ledger_vip (H := H) s hv now sent).1
  rcases handlePacket_accepted H cfg hv ha with ⟨r, hr⟩ | ⟨target, f, hr, -⟩
  · rw [hr] at hl
    exact ⟨.dropped r, fun o' => (congrFun hl o').trans (hupd ..)⟩
  · rw [hr] at hl
    exact ⟨.transmitted, fun o' => (congrFun hl o').trans (hupd ..)⟩

/-- An accepted event keeps the books balanced. -/
theorem step_balanced {s : State n b} {e : Event} (ha : Accepted H cfg s e) {ignored : ℕ}
    (hb : (ledger s.stats).Balanced ignored) :
    (ledger (step H cfg s e).stats).Balanced (ignored + if ignoredEvent cfg e then 1 else 0) ∧
    (step H cfg s e).stats.backends.length = s.stats.backends.length := by
  cases e with
  | install snap => exact ⟨hb, rfl⟩
  | tick now =>
      obtain ⟨hl, hlen⟩ := foldl_onFlowEvicted_ledger s.stats
        (conntrackReapSlice s.ct now cfg.timeouts (b / 60 + 1)).2
      refine ⟨?_, hlen⟩
      rw [← hl] at hb
      exact ⟨hb.received, hb.backends⟩
  | packet frame now sent =>
      change (ledger (handlePacket H cfg s frame now sent).stats).Balanced
        (ignored + if ignoredFrame cfg frame then 1 else 0) ∧ _
      cases hv : vipFlow cfg frame with
      | none =>
          rcases handlePacket_of_vipFlow_none (H := H) s hv now sent with
            ⟨hi, he⟩ | ⟨hi, he⟩ | ⟨hi, he⟩
          · rw [hi, he]
            exact ⟨hb, congrArg (fun r => r.stats.backends.length) he⟩
          · rw [hi, he]
            exact ⟨hb.ignore, congrArg (fun r => r.stats.backends.length) he⟩
          · rw [hi, he, countDrop_ledger]
            exact ⟨hb.book_dropped .parseError, congrArg (fun r => r.stats.backends.length) he⟩
      | some fx =>
          obtain ⟨hl, hlen⟩ := handlePacket_ledger_vip (H := H) s hv now sent
          refine ⟨?_, hlen⟩
          have hlook : (ledger s.stats).look.Balanced ignored := ⟨hb.received, hb.backends⟩
          rw [hl, ignoredFrame_of_vipFlow hv]
          rcases handlePacket_accepted H cfg hv ha with ⟨r, hr⟩ | ⟨target, f, hr, hlt⟩
          · rw [hr]
            exact hlook.book_dropped r
          · rw [hr]
            exact hlook.book_transmitted hlt f

/-- Every event of the run is accepted in the state it meets. -/
def AllAccepted (s : State n b) (es : List Event) : Prop :=
  ∀ done e rest, es = done ++ e :: rest → Accepted H cfg (run H cfg s done) e

theorem run_balanced {s : State n b} {es : List Event} (ha : AllAccepted H cfg s es)
    {ignored : ℕ} (hb : (ledger s.stats).Balanced ignored) :
    (ledger (run H cfg s es).stats).Balanced (ignored + es.countP (ignoredEvent cfg)) := by
  induction es generalizing s ignored with
  | nil => exact hb
  | cons e es ih =>
      obtain ⟨hstep, -⟩ := step_balanced H cfg (ha [] e es rfl) hb
      have hrest : AllAccepted H cfg (step H cfg s e) es := fun done e' rest hes =>
        ha (e :: done) e' rest (by rw [hes]; rfl)
      have hrun := ih hrest hstep
      rw [List.countP_cons, Nat.add_comm (es.countP _), ← Nat.add_assoc]
      exact hrun

/-- When the kernel takes every frame and every backend has its record, each
packet for the virtual address is looked up once and ends in one counter, all
receptions are accounted for, and so are all transmissions. -/
theorem packet_accounting (pow2 : b.isPowerOfTwo) (garbage : Fin n → Flow) (maxBackends : ℕ)
    (active : Option RoutingSnapshot) (es : List Event)
    (ha : AllAccepted H cfg
      ⟨conntrackInit n b pow2 garbage, statsRegistryInit maxBackends, active⟩ es) :
    let start : State n b :=
      ⟨conntrackInit n b pow2 garbage, statsRegistryInit maxBackends, active⟩
    (∀ done frame now sent rest fx, es = done ++ .packet frame now sent :: rest →
      vipFlow cfg frame = some fx →
      let s := (run H cfg start done).stats
      let s' := (run H cfg start (done ++ [.packet frame now sent])).stats
      s'.conntrackHits + s'.conntrackMisses = s.conntrackHits + s.conntrackMisses + 1 ∧
      ∃ o, ∀ o', outcomeCounter s' o' = outcomeCounter s o' + if o' = o then 1 else 0) ∧
    let s := (run H cfg start es).stats
    s.rxPackets = UInt64.ofNat (es.countP (ignoredEvent cfg)) + s.txPackets +
      (s.dropsParseError + s.dropsNoBackend + s.dropsConntrackFull + s.dropsBackendUnhealthy) ∧
    s.txPackets = (s.backends.map (·.packets)).sum := by
  intro start
  constructor
  · intro done frame now sent rest fx hes hv
    rw [run, EventRun.run_append, EventRun.run_cons, EventRun.run_nil]
    have hl := (handlePacket_ledger_vip (H := H) (run H cfg start done) hv now sent).1
    constructor
    · refine (congrArg Ledger.lookups hl).trans ?_
      cases (handlePacket H cfg (run H cfg start done) frame now sent).verdict <;> rfl
    · exact packet_booked_once H cfg hv (ha done _ rest hes)
  · have hzero : (ledger start.stats).Balanced 0 :=
      ⟨rfl, statsRegistryInit_backendPackets maxBackends⟩
    have hrun := run_balanced H cfg ha hzero
    rw [Nat.zero_add] at hrun
    exact ⟨hrun.received, hrun.backends.symm⟩

end

/-- One new flow, sent to backend 5. -/
theorem packet_accounting_sample :
    let s := (run sampleHashes sampleConfig
      (⟨conntrackInit 2 4 ⟨2, rfl⟩ fun _ => ⟨sampleKey, 0, 0⟩, statsRegistryInit 10,
        some (sampleSnapshot 5)⟩ : State 2 4) [.packet sampleFrame 100 66]).stats
    s.txPackets = (s.backends.map (·.packets)).sum := by
  refine (packet_accounting sampleHashes sampleConfig ⟨2, rfl⟩ (fun _ => ⟨sampleKey, 0, 0⟩) 10
    (some (sampleSnapshot 5)) [.packet sampleFrame 100 66] ?_).2.2
  intro done e rest hes
  obtain ⟨rfl, he⟩ : done = [] ∧ [Event.packet sampleFrame 100 66] = e :: rest := by
    cases done with
    | nil => exact ⟨rfl, hes⟩
    | cons d done => simp at hes
  cases he
  intro target ht
  have h5 : target = 5 := by
    have hs : sendTarget sampleHashes sampleConfig
        (⟨conntrackInit 2 4 ⟨2, rfl⟩ fun _ => ⟨sampleKey, 0, 0⟩, statsRegistryInit 10,
          some (sampleSnapshot 5)⟩ : State 2 4) sampleFrame 100 = some 5 := by decide +kernel
    exact Option.some.inj (ht.symm.trans hs)
  rw [h5]
  decide +kernel

/-- The same packet when the kernel refuses the frame: it is received and looked
up, and no counter says what became of it. -/
theorem refused_frame_unaccounted :
    let start : State 2 4 := ⟨conntrackInit 2 4 ⟨2, rfl⟩ fun _ => ⟨sampleKey, 0, 0⟩,
      statsRegistryInit 10, some (sampleSnapshot 5)⟩
    let es : List Event := [.packet sampleFrame 100 (-1)]
    let s := (run sampleHashes sampleConfig start es).stats
    (vipFlow sampleConfig sampleFrame).isSome = true ∧
    (∀ o, outcomeCounter s o = outcomeCounter start.stats o) ∧
    s.rxPackets ≠ UInt64.ofNat (es.countP (ignoredEvent sampleConfig)) + s.txPackets +
      (s.dropsParseError + s.dropsNoBackend + s.dropsConntrackFull +
        s.dropsBackendUnhealthy) := by
  refine ⟨by decide +kernel, ?_, by decide +kernel⟩
  intro o
  rcases o with _ | _ | _ | _ | _ <;> decide +kernel

end MaglevLb.Datapath
