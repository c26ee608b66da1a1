import MaglevLb.Datapath

/-!
# Flow affinity

Once a packet has pinned a flow, later packets of the flow go to the same backend
or nowhere, as long as they follow each other within the timeout. The invariant
is that the key has exactly one record, stamped with the time of the last packet
of the flow; a sweep at any moment up to the next packet finds it alive.
-/
namespace MaglevLb.FlowAffinity
open PacketFormat Maglev Conntrack StatsRegistry Datapath

variable {n b : ℕ} {H : Hashes} {cfg : DatapathConfig}

/-- The clock is read by a packet for the virtual address and by a reaper tick. -/
def clockReading (cfg : DatapathConfig) : Event → Option UInt64
  | .packet frame now _ => (vipFlow cfg frame).map fun _ => now
  | .install _ => none
  | .tick now => some now

/-- The time of a packet of the flow `key`. -/
def flowTime (cfg : DatapathConfig) (key : FlowKey) : Event → Option UInt64
  | .packet frame now _ => if (vipFlow cfg frame).map (·.key) = some key then some now else none
  | .install _ => none
  | .tick _ => none

/-- The clock never runs backwards. -/
def ClockMonotone (cfg : DatapathConfig) (es : List Event) : Prop :=
  (es.filterMap (clockReading cfg)).Pairwise (· ≤ ·)

/-- Consecutive packets of the flow are at most its timeout apart. -/
def Lively (cfg : DatapathConfig) (key : FlowKey) (es : List Event) : Prop :=
  (es.filterMap (flowTime cfg key)).IsChain fun t u =>
    u.toNat - t.toNat ≤ (cfg.timeouts.of key).toNat

/-- The flow has one record, naming the backend and the last packet. -/
def Pinned (H : Hashes) (ct : ConntrackTable n b) (key : FlowKey) (backendId : Int32)
    (t : UInt64) : Prop :=
  ct.records H.flowHash key = [⟨key, backendId, t⟩]

/-- Every event keeps the representation invariant of the table. -/
theorem step_wf (s : State n b) (e : Event) (h : s.ct.Wf H.flowHash) :
    (step H cfg s e).ct.Wf H.flowHash := by
  cases e with
  | install snap => exact h
  | tick now => exact reapLoop_wf cfg.timeouts now _ h
  | packet frame now sent =>
      change (handlePacket H cfg s frame now sent).ct.Wf H.flowHash
      cases hv : vipFlow cfg frame with
      | none =>
          rw [(handlePacket_skipped s hv now sent).1]
          exact h
      | some fx =>
          obtain ⟨r, he, hr⟩ := handlePacket_routed (H := H) s hv now sent
          rw [he]
          have hlook := conntrackLookup_wf h fx.key now
          cases hr with
          | unrouted hit r hr => exact hlook
          | pinned snap backendId ha hl => exact hlook
          | opened snap backendId ct' ha hl hid hpos hi => exact conntrackInsert_wf hlook hi

theorem run_wf (s : State n b) (es : List Event) (h : s.ct.Wf H.flowHash) :
    (run H cfg s es).ct.Wf H.flowHash :=
  EventRun.run_invariant (P := fun s : State n b => s.ct.Wf H.flowHash) step_wf h es

/-- A record is alive at every moment up to a packet within the timeout. -/
theorem not_expired {t : Timeouts} {f : Flow} {now : UInt64} (hle : f.lastSeenNs ≤ now)
    (hgap : now.toNat - f.lastSeenNs.toNat ≤ (t.of f.key).toNat) : expired t now f = false := by
  rw [expired, decide_eq_false_iff_not, UInt64.lt_iff_toNat_lt, UInt64.toNat_sub_of_le _ _ hle]
  omega

theorem tick_pinned {s : State n b} (hwf : s.ct.Wf H.flowHash) {key : FlowKey}
    {backendId : Int32} {t now : UInt64} (hp : Pinned H s.ct key backendId t) (hle : t ≤ now)
    (hgap : now.toNat - t.toNat ≤ (cfg.timeouts.of key).toNat) :
    Pinned H (step H cfg s (.tick now)).ct key backendId t := by
  have hlive : ∀ f ∈ s.ct.records H.flowHash key, expired cfg.timeouts now f = false := by
    intro f hf
    rw [hp, List.mem_singleton] at hf
    subst hf
    exact not_expired hle hgap
  exact (reapLoop_records cfg.timeouts now _ hwf hlive).trans hp

/-- A packet of another flow, or of none, does not touch the flow. -/
theorem packet_pinned_of_ne {s : State n b} (hwf : s.ct.Wf H.flowHash) {key : FlowKey}
    {backendId : Int32} {t : UInt64} (hp : Pinned H s.ct key backendId t) {frame : List UInt8}
    (hne : (vipFlow cfg frame).map (·.key) ≠ some key) (now : UInt64) (sent : ℤ) :
    Pinned H (handlePacket H cfg s frame now sent).ct key backendId t := by
  cases hv : vipFlow cfg frame with
  | none =>
      rw [(handlePacket_skipped s hv now sent).1]
      exact hp
  | some fx =>
      obtain ⟨r, he, hr⟩ := handlePacket_routed (H := H) s hv now sent
      rw [he]
      have hk : fx.key ≠ key := by simpa [hv] using hne
      have hlook := conntrackLookup_records_of_ne hwf hk now
      cases hr with
      | unrouted hit r hr => exact hlook.trans hp
      | pinned snap backendId ha hl => exact hlook.trans hp
      | opened snap id ct' ha hl hid hpos hi =>
          have hins := conntrackInsert_records (conntrackLookup_wf hwf fx.key now) hi key
          rw [if_neg hk, hlook, List.nil_append] at hins
          exact hins.trans hp

/-- A packet of a pinned flow refreshes the record, is not inserted, and is sent
to the backend of the record or dropped. -/
theorem packet_pinned {s : State n b} (hwf : s.ct.Wf H.flowHash) {key : FlowKey}
    {backendId : Int32} {t : UInt64} (hp : Pinned H s.ct key backendId t) {frame : List UInt8}
    (hk : (vipFlow cfg frame).map (·.key) = some key) (now : UInt64) (sent : ℤ) :
    Pinned H (handlePacket H cfg s frame now sent).ct key backendId now ∧
    (handlePacket H cfg s frame now sent).pinned = none ∧
    ((∃ f, (handlePacket H cfg s frame now sent).verdict = .sent backendId f) ∨
      (∃ f, (handlePacket H cfg s frame now sent).verdict = .sendFailed backendId f) ∨
      ∃ r, (handlePacket H cfg s frame now sent).verdict = .dropped r) := by
  obtain ⟨fx, hv, rfl⟩ := Option.map_eq_some_iff.mp hk
  obtain ⟨hhit, hrec⟩ := conntrackLookup_records hwf hp now
  obtain ⟨r, he, hr⟩ := handlePacket_routed (H := H) s hv now sent
  rw [he]
  cases hr with
  | unrouted hit r hr => exact ⟨hrec, rfl, Or.inr (Or.inr ⟨r, rfl⟩)⟩
  | pinned snap id ha hl =>
      rw [hhit] at hl
      cases hl
      refine ⟨hrec, rfl, ?_⟩
      obtain ⟨r, he, hr⟩ := forward_forwarded cfg snap (frame.take rxBufLen) fx backendId sent
        (countLookup (countRx s.stats (frame.take rxBufLen).length) true)
      rw [he]
      cases hr with
      | unresolved hf => exact Or.inr (Or.inr ⟨.backendUnhealthy, rfl⟩)
      | oversize v hf he => exact Or.inr (Or.inr ⟨.parseError, rfl⟩)
      | refused v f hf he hs => exact Or.inr (Or.inl ⟨f, rfl⟩)
      | accepted v f hf he hs => exact Or.inl ⟨f, rfl⟩
  | opened snap id ct' ha hl hid hpos hi =>
      rw [hhit] at hl
      cases hl

/-- An insert after a missed lookup leaves the flow with one record. -/
theorem insert_pinned {ct ct' : ConntrackTable n b} (hwf : ct.Wf H.flowHash) {key : FlowKey}
    {backendId : Int32} {now : UInt64} (hl : (conntrackLookup H.flowHash ct key now).2 = none)
    (hi : conntrackInsert H.flowHash (conntrackLookup H.flowHash ct key now).1 key backendId now =
      some ct') :
    Pinned H ct' key backendId now := by
  obtain ⟨hct, hnil⟩ := conntrackLookup_miss hwf hl
  rw [hct] at hi
  have hins := conntrackInsert_records hwf hi key
  rw [if_pos rfl, hnil] at hins
  exact hins

/-- The insert of a packet leaves its flow with one record. -/
theorem packet_pins {s : State n b} (hwf : s.ct.Wf H.flowHash) {key : FlowKey}
    {backendId : Int32} {frame : List UInt8} (hk : (vipFlow cfg frame).map (·.key) = some key)
    {now : UInt64} {sent : ℤ}
    (hpin : (handlePacket H cfg s frame now sent).pinned = some backendId) :
    Pinned H (handlePacket H cfg s frame now sent).ct key backendId now := by
  obtain ⟨fx, hv, rfl⟩ := Option.map_eq_some_iff.mp hk
  obtain ⟨r, he, hr⟩ := handlePacket_routed (H := H) s hv now sent
  rw [he] at hpin ⊢
  cases hr with
  | unrouted hit r hr => cases hpin
  | pinned snap id ha hl => cases hpin
  | opened snap id ct' ha hl hid hpos hi =>
      cases hpin
      exact insert_pinned hwf hl hi

/-- The packets of a flow read the clock. -/
theorem flowTime_reading {key : FlowKey} {es : List Event} {u : UInt64}
    (hu : u ∈ es.filterMap (flowTime cfg key)) : u ∈ es.filterMap (clockReading cfg) := by
  obtain ⟨e, he, ht⟩ := List.mem_filterMap.mp hu
  refine List.mem_filterMap.mpr ⟨e, he, ?_⟩
  cases e with
  | install snap => cases ht
  | tick now => cases ht
  | packet frame now sent =>
      simp only [flowTime, Option.ite_none_right_eq_some, Option.map_eq_some_iff] at ht
      obtain ⟨⟨fx, hv, -⟩, hnow⟩ := ht
      rw [clockReading, hv]
      exact hnow

/-- The flow stays pinned over every stretch of events between a packet of the
flow at `t` and one at `u`. -/
theorem run_pinned {key : FlowKey} {backendId : Int32} {u : UInt64} (es : List Event)
    {s : State n b} {t : UInt64} (hwf : s.ct.Wf H.flowHash)
    (hp : Pinned H s.ct key backendId t)
    (hclock : (t :: (es.filterMap (clockReading cfg) ++ [u])).Pairwise (· ≤ ·))
    (hgap : (t :: (es.filterMap (flowTime cfg key) ++ [u])).IsChain fun t u =>
      u.toNat - t.toNat ≤ (cfg.timeouts.of key).toNat) :
    ∃ t', Pinned H (run H cfg s es).ct key backendId t' := by
  induction es generalizing s t with
  | nil => exact ⟨t, hp⟩
  | cons e es ih =>
      have hwf' : (step H cfg s e).ct.Wf H.flowHash := step_wf s e hwf
      cases e with
      | install snap => exact ih hwf' hp hclock hgap
      | tick now =>
          simp only [List.filterMap_cons, clockReading, List.cons_append] at hclock
          obtain ⟨hnow, hrest⟩ := List.pairwise_cons.mp hclock
          have hle : t ≤ now := hnow now (by simp)
          refine ih hwf' (tick_pinned hwf hp hle ?_) (hclock.sublist (by simp)) hgap
          obtain ⟨w, ws, hw⟩ : ∃ w ws, es.filterMap (flowTime cfg key) ++ [u] = w :: ws :=
            List.exists_cons_of_ne_nil (by simp)
          have hmem : w ∈ es.filterMap (clockReading cfg) ++ [u] := by
            have hw' : w ∈ es.filterMap (flowTime cfg key) ++ [u] := by rw [hw]; simp
            rcases List.mem_append.mp hw' with h | h
            · exact List.mem_append_left _ (flowTime_reading h)
            · exact List.mem_append_right _ h
          have hnw : now ≤ w := (List.pairwise_cons.mp hrest).1 w hmem
          change (t :: (es.filterMap (flowTime cfg key) ++ [u])).IsChain _ at hgap
          rw [hw, List.isChain_cons_cons] at hgap
          have := UInt64.le_iff_toNat_le.mp hnw
          omega
      | packet frame now sent =>
          by_cases hk : (vipFlow cfg frame).map (·.key) = some key
          · obtain ⟨fx, hv, -⟩ := Option.map_eq_some_iff.mp hk
            simp only [List.filterMap_cons, clockReading, hv, Option.map_some,
              List.cons_append] at hclock
            simp only [List.filterMap_cons, flowTime, if_pos hk, List.cons_append] at hgap
            exact ih hwf' (packet_pinned hwf hp hk now sent).1 (List.pairwise_cons.mp hclock).2
              (List.isChain_cons_cons.mp hgap).2
          · simp only [List.filterMap_cons, flowTime, if_neg hk] at hgap
            refine ih hwf' (packet_pinned_of_ne hwf hp hk now sent) (hclock.sublist ?_) hgap
            rw [List.filterMap_cons]
            cases clockReading cfg (.packet frame now sent) <;> simp

/-- After a packet has pinned its flow to `backendId`, the next packets of the
flow are never inserted again and never sent to another backend, whatever
happens in between. -/
theorem flow_affinity (H : Hashes) (cfg : DatapathConfig) (pow2 : b.isPowerOfTwo)
    (garbage : Fin n → Flow) (stats : LbStats) (active : Option RoutingSnapshot)
    (pre mid : List Event) (key : FlowKey) (backendId : Int32)
    (frame₀ frame : List UInt8) (now₀ now : UInt64) (sent₀ sent : ℤ)
    (hkey₀ : (vipFlow cfg frame₀).map (·.key) = some key)
    (hkey : (vipFlow cfg frame).map (·.key) = some key)
    (hpin : (handlePacket H cfg (run H cfg ⟨conntrackInit n b pow2 garbage, stats, active⟩ pre)
      frame₀ now₀ sent₀).pinned = some backendId)
    (hclock : ClockMonotone cfg (.packet frame₀ now₀ sent₀ :: mid ++ [.packet frame now sent]))
    (hgap : Lively cfg key (.packet frame₀ now₀ sent₀ :: mid ++ [.packet frame now sent])) :
    let r := handlePacket H cfg (run H cfg ⟨conntrackInit n b pow2 garbage, stats, active⟩
      (pre ++ .packet frame₀ now₀ sent₀ :: mid)) frame now sent
    r.pinned = none ∧
      ((∃ f, r.verdict = .sent backendId f) ∨ (∃ f, r.verdict = .sendFailed backendId f) ∨
        ∃ d, r.verdict = .dropped d) := by
  let s := run H cfg ⟨conntrackInit n b pow2 garbage, stats, active⟩ pre
  let s₁ := step H cfg s (.packet frame₀ now₀ sent₀)
  have hwf : s.ct.Wf H.flowHash := run_wf _ pre (conntrackInit_wf pow2 garbage)
  have hwf₁ : s₁.ct.Wf H.flowHash := step_wf s _ hwf
  have hread : ∀ {f : List UInt8} (t : UInt64) (k : ℤ), (vipFlow cfg f).map (·.key) = some key →
      clockReading cfg (.packet f t k) = some t := by
    intro f t k hf
    obtain ⟨fx, hv, -⟩ := Option.map_eq_some_iff.mp hf
    rw [clockReading, hv]
    rfl
  have hlast : ∀ {f : List UInt8} (t : UInt64) (k : ℤ), (vipFlow cfg f).map (·.key) = some key →
      flowTime cfg key (.packet f t k) = some t := fun t k hf => if_pos hf
  simp only [ClockMonotone, List.filterMap_append, List.filterMap_cons, List.cons_append,
    hread now₀ sent₀ hkey₀, hread now sent hkey, List.filterMap_nil] at hclock
  simp only [Lively, List.filterMap_append, List.filterMap_cons, List.cons_append,
    hlast now₀ sent₀ hkey₀, hlast now sent hkey, List.filterMap_nil] at hgap
  obtain ⟨t, hp⟩ := run_pinned mid hwf₁ (packet_pins hwf hkey₀ hpin) hclock hgap
  rw [run, EventRun.run_append, EventRun.run_cons]
  exact (packet_pinned (run_wf s₁ mid hwf₁) hp hkey now sent).2

/-- A flow pinned to backend 5 under one table, with a table for backend 9 and a
sweep between its two packets. -/
theorem flow_affinity_sample :
    let s : State 2 4 := ⟨conntrackInit 2 4 ⟨2, rfl⟩ fun _ => ⟨sampleKey, 0, 0⟩,
      statsRegistryInit 10, some (sampleSnapshot 5)⟩
    let first : Event := .packet sampleFrame 100 66
    let mid : List Event := [.install (sampleSnapshot 9), .tick 120]
    let r := handlePacket sampleHashes sampleConfig (run sampleHashes sampleConfig s
      ([] ++ first :: mid)) sampleFrame 130 66
    r.pinned = none ∧
      ((∃ f, r.verdict = .sent 5 f) ∨ (∃ f, r.verdict = .sendFailed 5 f) ∨
        ∃ d, r.verdict = .dropped d) :=
  flow_affinity sampleHashes sampleConfig ⟨2, rfl⟩ _ _ _ []
    [.install (sampleSnapshot 9), .tick 120] sampleKey 5 sampleFrame sampleFrame 100 130 66 66
    (by decide +kernel) (by decide +kernel) (by decide +kernel)
    (by unfold ClockMonotone; decide +kernel) (by unfold Lively; decide +kernel)

end MaglevLb.FlowAffinity
