import MaglevLb.ConntrackFlows
import MaglevLb.FlowAffinity
import MaglevLb.PinStability
import MaglevLb.StartUp

/-!
# Flow gauges

Each backend has a gauge of its open flows and a counter of all flows it was
given. An insert moves both, an eviction moves the gauge back, and nothing else
touches them. The honest numbers are the records of the table that name the
backend and the inserts of the run; the gauges are these numbers as 64-bit words.
-/
namespace MaglevLb.FlowGauges
open PacketFormat Maglev Conntrack StatsRegistry Datapath BackendManager TableGenerator StartUp

variable {n b : ℕ} {H : Hashes} {cfg : DatapathConfig}

/-! ## Counting records -/

/-- The number of records whose backend id passes a test. -/
def pinnedWhere (ct : ConntrackTable n b) (q : Int32 → Bool) : ℕ :=
  ∑ i, (ct.contents i).countP fun f => q f.backendId

theorem pinnedWhere_of_contents {ct ct' : ConntrackTable n b} {i : Fin b} {l : List Flow}
    (hc : ct'.contents = Function.update ct.contents i l) (q : Int32 → Bool) :
    pinnedWhere ct' q + (ct.contents i).countP (fun f => q f.backendId) =
      pinnedWhere ct q + l.countP fun f => q f.backendId := by
  have hu := sum_update ct.contents (List.countP fun f => q f.backendId) i l
  rw [← hc] at hu
  exact hu

theorem pinnedWhere_true (ct : ConntrackTable n b) : pinnedWhere ct (fun _ => true) = ct.size := by
  simp only [pinnedWhere, List.countP_true, ConntrackTable.size]

theorem conntrackInit_pinnedWhere (pow2 : b.isPowerOfTwo) (garbage : Fin n → Flow)
    (q : Int32 → Bool) : pinnedWhere (conntrackInit n b pow2 garbage) q = 0 := by
  apply Finset.sum_eq_zero
  intro i hi
  rw [conntrackInit_contents]
  rfl

/-- A lookup repins nothing. -/
theorem conntrackLookup_pinnedWhere {ct : ConntrackTable n b} (h : ct.Wf H.flowHash)
    (key : FlowKey) (now : UInt64) (q : Int32 → Bool) :
    pinnedWhere (conntrackLookup H.flowHash ct key now).1 q = pinnedWhere ct q := by
  rcases conntrackLookup_cases h key now with ⟨he, -⟩ | ⟨ct', l₁, f, l₂, he, hl, -, -, -, -, hc⟩
  · rw [he]
  · have hcount := pinnedWhere_of_contents hc q
    rw [hl, List.countP_append, List.countP_append, List.countP_cons, List.countP_cons] at hcount
    rw [he]
    dsimp only at hcount ⊢
    omega

theorem conntrackInsert_pinnedWhere {ct ct' : ConntrackTable n b} (h : ct.Wf H.flowHash)
    {key : FlowKey} {backendId : Int32} {now : UInt64}
    (hi : conntrackInsert H.flowHash ct key backendId now = some ct') (q : Int32 → Bool) :
    pinnedWhere ct' q = pinnedWhere ct q + if q backendId then 1 else 0 := by
  rcases conntrackInsert_cases h key backendId now with ⟨he, -⟩ | ⟨ct'', he, -, -, -, hc⟩
  · rw [he] at hi
    cases hi
  · rw [he] at hi
    cases hi
    have hcount := pinnedWhere_of_contents hc q
    rw [List.countP_cons] at hcount
    dsimp only at hcount
    omega

theorem reapBucket_pinnedWhere {ct : ConntrackTable n b} (h : ct.Wf H.flowHash) (t : Timeouts)
    (now : UInt64) (q : Int32 → Bool) :
    pinnedWhere ct q =
      pinnedWhere (reapBucket t now ct).1 q + (reapBucket t now ct).2.countP q := by
  obtain ⟨-, hc, -, hev⟩ := reapBucket_spec h t now
  have hcount := pinnedWhere_of_contents hc q
  have hsplit : (ct.contents ct.sweepCursor).countP (fun f => q f.backendId) =
      ((ct.contents ct.sweepCursor).filter (expired t now)).countP (fun f => q f.backendId) +
      ((ct.contents ct.sweepCursor).filter fun f => !expired t now f).countP
        (fun f => q f.backendId) :=
    List.countP_eq_countP_filter_add ..
  have hids : (reapBucket t now ct).2.countP q =
      ((ct.contents ct.sweepCursor).filter (expired t now)).countP (fun f => q f.backendId) := by
    rw [hev, List.countP_map]
    rfl
  omega

/-- What a sweep takes from the table it reports. -/
theorem reapLoop_pinnedWhere (t : Timeouts) (now : UInt64) (k : ℕ) {ct : ConntrackTable n b}
    (h : ct.Wf H.flowHash) (q : Int32 → Bool) :
    pinnedWhere ct q =
      pinnedWhere (reapLoop t now k ct).1 q + (reapLoop t now k ct).2.countP q := by
  induction k generalizing ct with
  | zero => rfl
  | succ k ih =>
      have hone := reapBucket_pinnedWhere h t now q
      have hrest := ih (reapBucket_spec h t now).1
      rw [reapLoop]
      dsimp only
      rw [List.countP_append]
      omega

/-- The position of a backend's record in the registry. -/
def position (backendId : Int32) : ℕ := backendId.toUInt32.toNat

/-- The number of records that name backend `k`. -/
def pinnedTo (ct : ConntrackTable n b) (k : ℕ) : ℕ :=
  pinnedWhere ct fun id => position id == k

theorem countP_position {N : ℕ} (l : List Int32) :
    ∑ k ∈ Finset.range N, l.countP (fun id => position id == k) =
      l.countP fun id => decide (position id < N) := by
  induction l with
  | nil => simp
  | cons id l ih =>
      simp only [List.countP_cons, Finset.sum_add_distrib, ih, beq_iff_eq]
      congr 1
      rw [Finset.sum_ite_eq]
      simp

/-- The records of the first `N` backends, added up. -/
theorem sum_pinnedTo (ct : ConntrackTable n b) (N : ℕ) :
    ∑ k ∈ Finset.range N, pinnedTo ct k =
      pinnedWhere ct fun id => decide (position id < N) := by
  unfold pinnedTo pinnedWhere
  rw [Finset.sum_comm]
  apply Finset.sum_congr rfl
  intro i hi
  have h := countP_position (N := N) ((ct.contents i).map Flow.backendId)
  simpa only [List.countP_map, Function.comp_def] using h

theorem pinnedWhere_add_not (ct : ConntrackTable n b) (q : Int32 → Bool) :
    pinnedWhere ct q + pinnedWhere ct (fun id => !q id) = ct.size := by
  rw [← pinnedWhere_true, pinnedWhere, pinnedWhere, ← Finset.sum_add_distrib]
  apply Finset.sum_congr rfl
  intro i hi
  have h := List.length_eq_countP_add_countP (fun f : Flow => q f.backendId) (l := ct.contents i)
  simp only [List.countP_true, h, Bool.not_eq_true, Bool.decide_eq_false]

/-! ## Gauges -/

/-- What the registry says about flows: for each backend its gauge and its counter
of flows, and the evictions. -/
structure FlowView where
  gauges : List (UInt64 × UInt64)
  evictions : UInt64

def flowView (s : LbStats) : FlowView where
  gauges := s.backends.map fun p => (p.activeFlows, p.flowsAssigned)
  evictions := s.conntrackEvictions

theorem map_modify_of_comm {α β : Type*} {g : α → β} {f : α → α} {f' : β → β}
    (h : ∀ a, g (f a) = f' (g a)) (l : List α) (i : ℕ) :
    (l.modify i f).map g = (l.map g).modify i f' := by
  induction l generalizing i with
  | nil => simp
  | cons a l ih =>
      cases i with
      | zero => simp [h]
      | succ i => simp [ih]

/-- A bounds-checked update of one record is an update of its gauges. -/
theorem updateBackend_flowView {f : PerBackendStats → PerBackendStats}
    {f' : UInt64 × UInt64 → UInt64 × UInt64}
    (h : ∀ p : PerBackendStats, ((f p).activeFlows, (f p).flowsAssigned) =
      f' (p.activeFlows, p.flowsAssigned)) (s : LbStats) (id : UInt32) :
    flowView (s.updateBackend id f) =
      { flowView s with gauges := (flowView s).gauges.modify id.toNat f' } := by
  unfold LbStats.updateBackend
  split
  · next hle =>
      have hout : (s.backends.map fun p => (p.activeFlows, p.flowsAssigned)).length ≤ id.toNat := by
        rwa [List.length_map]
      rw [flowView, List.modify_eq_self hout]
  · exact congrArg (FlowView.mk · s.conntrackEvictions) (map_modify_of_comm h s.backends id.toNat)

theorem statsBackendFlowOpened_flowView (s : LbStats) (id : UInt32) :
    flowView (statsBackendFlowOpened s id) = { flowView s with
      gauges := (flowView s).gauges.modify id.toNat fun g => (g.1 + 1, g.2 + 1) } :=
  updateBackend_flowView (fun _ => rfl) s id

theorem statsBackendFlowClosed_flowView (s : LbStats) (id : UInt32) :
    flowView (statsBackendFlowClosed s id) = { flowView s with
      gauges := (flowView s).gauges.modify id.toNat fun g => (g.1 - 1, g.2) } :=
  updateBackend_flowView (fun _ => rfl) s id

theorem countTx_flowView (s : LbStats) (backendId : Int32) (sent : ℤ) :
    flowView (countTx s backendId sent) = flowView s := by
  have hkeep := updateBackend_flowView (f := fun p : PerBackendStats =>
      { p with packets := p.packets + 1, bytes := p.bytes + UInt64.ofNat sent.toNat })
    (fun _ => (id_eq _).symm)
    { s with txPackets := s.txPackets + 1, txBytes := s.txBytes + UInt64.ofNat sent.toNat }
    backendId.toUInt32
  rw [List.modify_id] at hkeep
  exact hkeep

theorem countDrop_flowView (s : LbStats) (r : Drop) : flowView (countDrop s r) = flowView s := by
  cases r <;> rfl

theorem countLookup_flowView (s : LbStats) (hit : Bool) :
    flowView (countLookup s hit) = flowView s := by
  cases hit <;> rfl

theorem forward_flowView (snap : RoutingSnapshot) (rx : List UInt8)
    (fx : FlowExtractResult) (backendId : Int32) (sent : ℤ) (stats : LbStats) :
    flowView (forward cfg snap rx fx backendId sent stats).1 = flowView stats := by
  obtain ⟨r, he, hr⟩ := forward_forwarded cfg snap rx fx backendId sent stats
  rw [he]
  cases hr with
  | unresolved hf => exact countDrop_flowView stats _
  | oversize v hf he => exact countDrop_flowView stats _
  | refused v f hf he hs => rfl
  | accepted v f hf he hs => exact countTx_flowView stats backendId sent

/-- The backend that an event opens a flow for. -/
def opensFor (H : Hashes) (cfg : DatapathConfig) (s : State n b) : Event → Option ℕ
  | .packet frame now sent => (handlePacket H cfg s frame now sent).pinned.map position
  | .install _ => none
  | .tick _ => none

/-- The successful inserts for backend `k` over a run. -/
def inserts (H : Hashes) (cfg : DatapathConfig) (k : ℕ) : State n b → List Event → ℕ
  | _, [] => 0
  | s, e :: es =>
      (if opensFor H cfg s e = some k then 1 else 0) + inserts H cfg k (step H cfg s e) es

/-- The gauges of `N` backends with `opened k` open flows out of `given k`. -/
def gaugesOf (N : ℕ) (opened given : ℕ → ℕ) : List (UInt64 × UInt64) :=
  (List.range N).map fun k => (UInt64.ofNat (opened k), UInt64.ofNat (given k))

/-- Moving the numbers of one backend is moving its gauges. -/
theorem gaugesOf_modify {N i : ℕ} {opened given opened' given' : ℕ → ℕ}
    {f : UInt64 × UInt64 → UInt64 × UInt64}
    (hi : f (UInt64.ofNat (opened i), UInt64.ofNat (given i)) =
      (UInt64.ofNat (opened' i), UInt64.ofNat (given' i)))
    (hne : ∀ k, k ≠ i → opened' k = opened k ∧ given' k = given k) :
    (gaugesOf N opened given).modify i f = gaugesOf N opened' given' := by
  apply List.ext_getElem
  · simp [gaugesOf]
  · intro k hk hk'
    simp only [gaugesOf, List.getElem_modify, List.getElem_map, List.getElem_range]
    by_cases h : i = k
    · subst h
      rw [if_pos rfl, hi]
    · obtain ⟨ho, hg⟩ := hne k (Ne.symm h)
      rw [if_neg h, ho, hg]

/-- The gauges are the honest numbers: `given k` flows for backend `k`, of which
`evicted` altogether have left the table. -/
structure Conserved (H : Hashes) (N : ℕ) (given : ℕ → ℕ) (evicted : ℕ) (s : State n b) :
    Prop where
  wf : s.ct.Wf H.flowHash
  known : pinnedWhere s.ct (fun id => !decide (position id < N)) = 0
  gauges : (flowView s.stats).gauges =
    gaugesOf N (pinnedTo s.ct) given
  evictions : (flowView s.stats).evictions = UInt64.ofNat evicted
  balance : ∑ k ∈ Finset.range N, given k = s.ct.size + evicted

/-- A snapshot that names only the first `N` backends. -/
def Names (H : Hashes) (N : ℕ) (snap : RoutingSnapshot) : Prop :=
  ∀ key, ¬ maglevTableLookup H snap.table key < 0 →
    position (maglevTableLookup H snap.table key) < N

section
variable {N : ℕ} {given : ℕ → ℕ} {evicted : ℕ} {s : State n b}

/-- One more flow for the backend it was opened for. -/
def give (given : ℕ → ℕ) (backend : Option ℕ) (k : ℕ) : ℕ :=
  given k + if backend = some k then 1 else 0

theorem give_none (given : ℕ → ℕ) : give given none = given := by
  funext k
  simp [give]

/-- A packet that opens no flow moves no gauge. -/
theorem Conserved.of_lookup (h : Conserved H N given evicted s) {ct : ConntrackTable n b}
    {stats : LbStats} (hwf : ct.Wf H.flowHash)
    (hct : ∀ q, pinnedWhere ct q = pinnedWhere s.ct q)
    (hstats : flowView stats = flowView s.stats) :
    Conserved H N (give given none) evicted { s with ct := ct, stats := stats } := by
  rw [give_none]
  refine ⟨hwf, ?_, ?_, ?_, ?_⟩
  · rw [hct]
    exact h.known
  · have hto : pinnedTo ct = pinnedTo s.ct := funext fun k => hct _
    rw [hstats, hto]
    exact h.gauges
  · rw [hstats]
    exact h.evictions
  · rw [← pinnedWhere_true, hct, pinnedWhere_true]
    exact h.balance

/-- A packet that opens a flow moves the gauges of its backend. -/
theorem Conserved.of_insert (h : Conserved H N given evicted s) {ct : ConntrackTable n b}
    {stats : LbStats} (hwf : ct.Wf H.flowHash) {backendId : Int32}
    (hct : ∀ q, pinnedWhere ct q = pinnedWhere s.ct q + if q backendId then 1 else 0)
    (hid : position backendId < N)
    (hstats : flowView stats = { flowView s.stats with
      gauges := (flowView s.stats).gauges.modify (position backendId)
        fun g => (g.1 + 1, g.2 + 1) }) :
    Conserved H N (give given (some (position backendId))) evicted
      { s with ct := ct, stats := stats } := by
  refine ⟨hwf, ?_, ?_, ?_, ?_⟩
  · simp [hct, h.known, hid]
  · rw [hstats, h.gauges]
    apply gaugesOf_modify
    · simp [pinnedTo, hct, give, UInt64.ofNat_add]
    · intro k hk
      simp [pinnedTo, hct, give, Ne.symm hk]
  · rw [hstats]
    exact h.evictions
  · rw [← pinnedWhere_true, hct, pinnedWhere_true]
    simp only [give, Option.some.injEq, Finset.sum_add_distrib, h.balance,
      Finset.sum_ite_eq, Finset.mem_range, hid, if_true]
    omega

theorem packet_conserved (h : Conserved H N given evicted s)
    (hnames : ∀ snap, s.active = some snap → Names H N snap) (frame : List UInt8) (now : UInt64)
    (sent : ℤ) :
    Conserved H N (give given (opensFor H cfg s (.packet frame now sent))) evicted
      (step H cfg s (.packet frame now sent)) := by
  unfold step opensFor
  dsimp only
  cases hv : vipFlow cfg frame with
  | none =>
      rcases handlePacket_of_vipFlow_none (H := H) s hv now sent with ⟨-, he⟩ | ⟨-, he⟩ | ⟨-, he⟩
      · rw [he]
        exact h.of_lookup h.wf (fun _ => rfl) rfl
      · rw [he]
        exact h.of_lookup h.wf (fun _ => rfl) rfl
      · rw [he]
        exact h.of_lookup h.wf (fun _ => rfl) rfl
  | some fx =>
      obtain ⟨r, he, hr⟩ := handlePacket_routed (H := H) s hv now sent
      have hwf := conntrackLookup_wf h.wf fx.key now
      have hct := conntrackLookup_pinnedWhere h.wf fx.key now
      rw [he]
      cases hr with
      | unrouted hit r hr =>
          apply h.of_lookup hwf hct
          rw [countDrop_flowView, countLookup_flowView]
          rfl
      | pinned snap backendId ha hl =>
          apply h.of_lookup hwf hct
          rw [forward_flowView, countLookup_flowView]
          rfl
      | opened snap backendId ct' ha hl hid hpos hi =>
          apply h.of_insert (conntrackInsert_wf hwf hi)
          · intro q
            rw [conntrackInsert_pinnedWhere hwf hi, hct]
          · rw [← hid] at hpos ⊢
            exact hnames snap ha fx.key hpos
          · rw [forward_flowView, statsBackendFlowOpened_flowView, countLookup_flowView]
            rfl

theorem position_nonneg {backendId : Int32} (h : position backendId < 2 ^ 31) :
    backendId ≥ 0 := by
  have hpos := PinStability.toInt32_nonneg h
  rw [Int32.toInt32_toUInt32] at hpos
  exact Int32.not_lt.mp hpos

/-- Closing flows one by one takes each from a gauge that still counts it. -/
theorem foldl_onFlowEvicted_flowView (hN : N ≤ 2 ^ 31) {evs : List Int32}
    (hknown : ∀ id ∈ evs, position id < N) {stats : LbStats} {opened opened' : ℕ → ℕ}
    (hgauges : (flowView stats).gauges = gaugesOf N opened given)
    (hopen : ∀ k, opened k = opened' k + evs.countP fun id => position id == k) :
    flowView (evs.foldl onFlowEvicted stats) =
      ⟨gaugesOf N opened' given, (flowView stats).evictions⟩ := by
  induction evs generalizing stats opened with
  | nil =>
      have ho : opened = opened' := funext hopen
      rw [List.foldl_nil, ← ho, ← hgauges]
  | cons id evs ih =>
      have hid := hknown id List.mem_cons_self
      have hclose : flowView (onFlowEvicted stats id) = { flowView stats with
          gauges := gaugesOf N (fun k => opened' k + evs.countP fun id => position id == k)
            given } := by
        rw [onFlowEvicted, if_pos (position_nonneg (hid.trans_le hN)),
          statsBackendFlowClosed_flowView, hgauges]
        refine congrArg (FlowView.mk · _) (gaugesOf_modify (i := position id) ?_ ?_)
        · have hone := hopen (position id)
          rw [List.countP_cons, beq_self_eq_true, if_pos rfl, ← Nat.add_assoc] at hone
          rw [hone, UInt64.ofNat_add, UInt64.ofNat_one, UInt64.add_sub_cancel]
        · intro k hk
          rw [hopen k, List.countP_cons, if_neg (by simpa using Ne.symm hk)]
          exact ⟨rfl, rfl⟩
      have hgauges' := congrArg FlowView.gauges hclose
      have hrest := ih (fun id' h => hknown id' (List.mem_cons_of_mem _ h)) hgauges' fun _ => rfl
      rw [List.foldl_cons, hrest, hclose]

theorem tick_conserved (h : Conserved H N given evicted s) (hN : N ≤ 2 ^ 31) (now : UInt64) :
    ∃ evicted', Conserved H N given evicted' (step H cfg s (.tick now)) := by
  have hreap := reapLoop_pinnedWhere cfg.timeouts now (min (b / 60 + 1) b) h.wf
  have hwf := reapLoop_wf cfg.timeouts now (min (b / 60 + 1) b) h.wf
  change ∃ evicted', Conserved H N given evicted' (reaperTick cfg s now)
  unfold reaperTick conntrackReapSlice
  generalize reapLoop cfg.timeouts now (min (b / 60 + 1) b) s.ct = r at hreap hwf
  have hzero := hreap fun id => !decide (position id < N)
  rw [h.known] at hzero
  have hknown : ∀ id ∈ r.2, position id < N := by
    have hnone : r.2.countP (fun id => !decide (position id < N)) = 0 := by omega
    simpa [List.countP_eq_zero] using hnone
  have hfold := foldl_onFlowEvicted_flowView hN hknown h.gauges
    fun k => hreap fun id => position id == k
  refine ⟨evicted + r.2.length, hwf, ?_, ?_, ?_, ?_⟩
  · change pinnedWhere r.1 _ = 0
    omega
  · exact congrArg FlowView.gauges hfold
  · have hev := congrArg FlowView.evictions hfold
    rw [h.evictions] at hev
    rw [UInt64.ofNat_add, ← hev]
    rfl
  · have hsize := hreap fun _ => true
    rw [pinnedWhere_true, pinnedWhere_true, List.countP_true] at hsize
    rw [h.balance, hsize]
    change _ = r.1.size + _
    omega

end

/-- Over a run of packets, sweeps and installations of snapshots that name only the
first `N` backends. -/
theorem run_conserved {N : ℕ} (hN : N ≤ 2 ^ 31) (es : List Event) {given : ℕ → ℕ} {evicted : ℕ}
    {s : State n b} (h : Conserved H N given evicted s)
    (hactive : ∀ snap, s.active = some snap → Names H N snap)
    (hinstall : ∀ snap, Event.install snap ∈ es → Names H N snap) :
    ∃ evicted', Conserved H N (fun k => given k + inserts H cfg k s es) evicted'
      (run H cfg s es) := by
  induction es generalizing given evicted s with
  | nil => exact ⟨evicted, h⟩
  | cons e es ih =>
      have hrest : ∀ snap, Event.install snap ∈ es → Names H N snap := fun snap hs =>
        hinstall snap (List.mem_cons_of_mem e hs)
      have hstep : ∃ evicted', Conserved H N (give given (opensFor H cfg s e)) evicted'
          (step H cfg s e) := by
        cases e with
        | packet frame now sent => exact ⟨evicted, packet_conserved h hactive frame now sent⟩
        | install snap =>
            refine ⟨evicted, ?_⟩
            rw [opensFor, give_none]
            exact ⟨h.wf, h.known, h.gauges, h.evictions, h.balance⟩
        | tick now =>
            rw [opensFor, give_none]
            exact tick_conserved h hN now
      have hactive' : ∀ snap, (step H cfg s e).active = some snap → Names H N snap := by
        cases e with
        | packet frame now sent => exact hactive
        | install snap =>
            intro snap' hs
            cases hs
            exact hinstall snap List.mem_cons_self
        | tick now => exact hactive
      obtain ⟨evicted', hstep⟩ := hstep
      obtain ⟨evicted'', hrun⟩ := ih hstep hactive' hrest
      refine ⟨evicted'', ?_⟩
      simp only [give, Nat.add_assoc] at hrun
      exact hrun

/-! ## The backends of `main` -/

/-- A snapshot of the start-up backends, after any calls that add none. -/
def StartUpSnapshot (H : Hashes) (bm : Manager) (snap : RoutingSnapshot) : Prop :=
  ∃ ops m createOk generation, adds ops = 0 ∧
    buildSnapshot H (runOps bm ops) m createOk generation = some snap

/-- The table of such a snapshot names only start-up backends. -/
theorem StartUpSnapshot.names {arp : UInt32 → Mac} {backends : List Endpoint} {bm : Manager}
    (hloaded : Loaded arp backends bm) (hlen : backends.length ≤ backendMax)
    {snap : RoutingSnapshot} (h : StartUpSnapshot H bm snap) : Names H backends.length snap := by
  obtain ⟨ops, m, createOk, generation, hadds, hbuild⟩ := h
  have hsize : backendMax < 2 ^ 32 := by decide
  have hnext : bm.nextId.toNat = backends.length := by
    rw [hloaded.nextId, UInt32.toNat_ofNat_of_lt' (hlen.trans_lt hsize)]
  have hroom : bm.nextId.toNat + adds ops < 2 ^ 32 := by omega
  have hids := runOps_idsOk (hloaded.idsOk hlen) ops hroom
  have hle := (runOps_nextId bm ops hroom).2
  intro key hpos
  rw [PinStability.buildSnapshot_eq hbuild] at hpos ⊢
  obtain ⟨x, hx, -, hlookup, -⟩ := find_table_entry H m generation hids key hpos
  have hbelow := hids.below x hx
  rw [hlookup, position, UInt32.toUInt32_toInt32]
  omega

theorem sum_map_ofNat (f : ℕ → ℕ) (l : List ℕ) :
    (l.map fun k => UInt64.ofNat (f k)).sum = UInt64.ofNat (l.map f).sum := by
  induction l with
  | nil => rfl
  | cons k l ih => rw [List.map_cons, List.sum_cons, ih, List.map_cons, List.sum_cons,
      UInt64.ofNat_add]

section
variable {N : ℕ} {given : ℕ → ℕ} {evicted : ℕ} {s : State n b}

theorem Conserved.size_eq (h : Conserved H N given evicted s) :
    ((List.range N).map (pinnedTo s.ct)).sum = s.ct.size := by
  have hsum : ((List.range N).map (pinnedTo s.ct)).sum = ∑ k ∈ Finset.range N, pinnedTo s.ct k :=
    rfl
  have hall := pinnedWhere_add_not s.ct fun id => decide (position id < N)
  rw [h.known] at hall
  rw [hsum, sum_pinnedTo]
  omega

theorem Conserved.activeFlows (h : Conserved H N given evicted s) :
    s.stats.backends.map (·.activeFlows) =
      (List.range N).map fun k => UInt64.ofNat (pinnedTo s.ct k) := by
  have hfst := congrArg (List.map Prod.fst) h.gauges
  rwa [gaugesOf, flowView, List.map_map, List.map_map] at hfst

theorem Conserved.flowsAssigned (h : Conserved H N given evicted s) :
    s.stats.backends.map (·.flowsAssigned) =
      (List.range N).map fun k => UInt64.ofNat (given k) := by
  have hsnd := congrArg (List.map Prod.snd) h.gauges
  rwa [gaugesOf, flowView, List.map_map, List.map_map] at hsnd

/-- The records fit the slab, so no gauge wraps. -/
theorem Conserved.pinnedTo_lt (h : Conserved H N given evicted s) (hn : n < 2 ^ 64) {k : ℕ} :
    pinnedTo s.ct k < 2 ^ 64 := by
  have hall := pinnedWhere_add_not s.ct fun id => position id == k
  have hslab := h.wf.size_add
  unfold pinnedTo
  omega

end

/-- After every event, each gauge is the number of records that name its backend,
each counter of assigned flows the number of inserts, and the totals agree with
the table's own count and with the evictions. -/
theorem flow_gauges (H : Hashes) (cfg : DatapathConfig) (arp : UInt32 → Mac)
    (backends : List Endpoint) (hlen : backends.length ≤ backendMax) {bm : Manager}
    (hbm : addBackends arp backendManagerCreate backends = some bm) (hn : n < 2 ^ 64)
    (pow2 : b.isPowerOfTwo) (garbage : Fin n → Flow) (active : Option RoutingSnapshot)
    (hactive : ∀ snap, active = some snap → StartUpSnapshot H bm snap) (es : List Event)
    (hes : ∀ snap, Event.install snap ∈ es → StartUpSnapshot H bm snap) :
    let start : State n b :=
      ⟨conntrackInit n b pow2 garbage, statsRegistryInit backends.length, active⟩
    let s := run H cfg start es
    s.stats.backends.length = backends.length ∧
    (∀ k p, s.stats.backends[k]? = some p → p.activeFlows.toNat = pinnedTo s.ct k ∧
      p.flowsAssigned = UInt64.ofNat (inserts H cfg k start es)) ∧
    (s.stats.backends.map fun p => p.activeFlows.toNat).sum = s.ct.active.toNat ∧
    (s.stats.backends.map (·.flowsAssigned)).sum =
      (s.stats.backends.map (·.activeFlows)).sum + s.stats.conntrackEvictions := by
  intro start s
  have hsize : backendMax < 2 ^ 31 := by decide
  have hroom : ([] : List Endpoint).length + backends.length ≤ backendMax := by
    rwa [List.length_nil, Nat.zero_add]
  obtain ⟨bm', hadd, hloaded⟩ := addBackends_loaded (backendManagerCreate_loaded arp) hroom
  rw [hbm, Option.some.injEq] at hadd
  rw [← hadd, List.nil_append] at hloaded
  have hempty : ∀ q, pinnedWhere start.ct q = 0 := conntrackInit_pinnedWhere pow2 garbage
  have hstart : Conserved H backends.length (fun _ => 0) 0 start := by
    refine ⟨conntrackInit_wf pow2 garbage, hempty _, ?_, rfl, ?_⟩
    · have hzero : pinnedTo start.ct = fun _ => 0 := funext fun k => hempty _
      rw [hzero, gaugesOf, List.map_const', List.length_range]
      exact List.map_replicate
    · rw [← pinnedWhere_true, hempty, Finset.sum_const_zero, Nat.add_zero]
  obtain ⟨evicted, h⟩ := run_conserved (hlen.trans hsize.le) es hstart
    (fun snap hs => (hactive snap hs).names hloaded hlen)
    (fun snap hs => (hes snap hs).names hloaded hlen)
  simp only [Nat.zero_add] at h
  change Conserved H _ _ _ s at h
  have hact := h.activeFlows
  have hasg := h.flowsAssigned
  have hlength : s.stats.backends.length = backends.length := by
    simpa using congrArg List.length hact
  refine ⟨hlength, ?_, ?_, ?_⟩
  · intro k p hp
    have hk : k < backends.length := hlength ▸ (List.getElem?_eq_some_iff.mp hp).1
    have ha := congrArg (·[k]?) hact
    have hg := congrArg (·[k]?) hasg
    simp only [List.getElem?_map, hp, List.getElem?_range hk, Option.map_some,
      Option.some.injEq] at ha hg
    refine ⟨?_, hg⟩
    rw [ha, UInt64.toNat_ofNat_of_lt' (h.pinnedTo_lt hn)]
  · have hnat := congrArg (List.map UInt64.toNat) hact
    rw [List.map_map, List.map_map] at hnat
    have hexact : (UInt64.toNat ∘ fun k => UInt64.ofNat (pinnedTo s.ct k)) = pinnedTo s.ct :=
      funext fun k => UInt64.toNat_ofNat_of_lt' (h.pinnedTo_lt hn)
    have hslab := h.wf.size_add
    rw [h.wf.active_eq, UInt64.toNat_ofNat_of_lt' (by change _ < 2 ^ 64; omega), ← h.size_eq,
      ← hexact, ← hnat]
    rfl
  · have hev : s.stats.conntrackEvictions = UInt64.ofNat evicted := h.evictions
    rw [hact, hasg, sum_map_ofNat, sum_map_ofNat, h.size_eq, hev, ← UInt64.ofNat_add, ← h.balance]
    rfl

def sampleEndpoints : List Endpoint := [⟨0x0b00000a, 80⟩]

def sampleManager : Manager :=
  (addBackends (fun _ => Vector.replicate 6 1) backendManagerCreate sampleEndpoints).get
    (by decide +kernel)

def sampleStart : State 2 1 where
  ct := conntrackInit 2 1 ⟨0, rfl⟩ fun _ => ⟨sampleKey, 0, 0⟩
  stats := statsRegistryInit sampleEndpoints.length
  active := some (currentSnapshot sampleHashes sampleSize sampleManager 1)

/-- One flow for the only backend: its gauge counts it after the packet. -/
theorem flow_gauges_sample :
    let s := run sampleHashes sampleConfig sampleStart [.packet sampleFrame 100 66]
    s.ct.active.toNat = 1 ∧ (s.stats.backends.map fun p => p.activeFlows.toNat).sum = 1 := by
  have hsnap : ∀ snap, some (currentSnapshot sampleHashes sampleSize sampleManager 1) = some snap →
      StartUpSnapshot sampleHashes sampleManager snap := by
    intro snap hs
    cases hs
    exact ⟨[], sampleSize, true, 1, rfl, buildSnapshot_true ..⟩
  have hone : (run sampleHashes sampleConfig sampleStart
      [.packet sampleFrame 100 66]).ct.active.toNat = 1 := by decide +kernel
  refine ⟨hone, Eq.trans ?_ hone⟩
  exact (flow_gauges sampleHashes sampleConfig (fun _ => Vector.replicate 6 1) sampleEndpoints
    (by decide) (Option.some_get _).symm (by decide) ⟨0, rfl⟩ (fun _ => ⟨sampleKey, 0, 0⟩) _ hsnap
    [.packet sampleFrame 100 66] (by simp)).2.2.1

end MaglevLb.FlowGauges
