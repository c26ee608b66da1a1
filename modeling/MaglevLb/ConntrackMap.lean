import MaglevLb.BoundedMap
import MaglevLb.ConntrackFlows
import MaglevLb.EventRun

/-!
# The connection tracking table is a bounded map

The calls on a table, and the same calls on a map from flow keys to backend id
and time of last use with at most `n` entries. A caller who inserts a key only
right after a miss on it, and whose clock does not run backwards, cannot tell the
two apart.
-/
namespace MaglevLb.ConntrackMap
open PacketFormat Conntrack EventRun

inductive Call where
  | lookup (key : FlowKey) (now : UInt64)
  | insert (key : FlowKey) (backendId : Int32) (now : UInt64)
  | reapSlice (now : UInt64) (t : Timeouts) (maxBucketsThisTick : ℕ)
deriving DecidableEq

/-- What the caller sees: the result, and the calls of `on_evict` in their order. -/
inductive Reply where
  | hit (backendId : Int32)
  | miss
  | inserted
  | full
  | reaped (count : ℕ) (evicted : List Int32)
deriving DecidableEq

def Call.now : Call → UInt64
  | .lookup _ now => now
  | .insert _ _ now => now
  | .reapSlice now _ _ => now

variable {n b : ℕ} (flowHash : FlowKey → UInt64)

def perform (ct : ConntrackTable n b) : Call → ConntrackTable n b × Reply
  | .lookup key now =>
      match conntrackLookup flowHash ct key now with
      | (ct', some backendId) => (ct', .hit backendId)
      | (ct', none) => (ct', .miss)
  | .insert key backendId now =>
      match conntrackInsert flowHash ct key backendId now with
      | some ct' => (ct', .inserted)
      | none => (ct, .full)
  | .reapSlice now t maxBucketsThisTick =>
      let r := conntrackReapSlice ct now t maxBucketsThisTick
      (r.1, .reaped r.2.length r.2)

/-! ### The caller -/

/-- The table with the caller's clock and the key on which the last call missed. -/
structure Session (n b : ℕ) where
  table : ConntrackTable n b
  clock : UInt64
  missed : Option FlowKey

/-- The clock has not run backwards, and an insert follows a miss on its key. -/
def Session.Admits (s : Session n b) (c : Call) : Prop :=
  s.clock ≤ c.now ∧
    match c with
    | .insert key _ _ => s.missed = some key
    | _ => True

instance (s : Session n b) : (c : Call) → Decidable (s.Admits c)
  | .lookup _ now => inferInstanceAs (Decidable (s.clock ≤ now ∧ True))
  | .insert key _ now => inferInstanceAs (Decidable (s.clock ≤ now ∧ s.missed = some key))
  | .reapSlice now _ _ => inferInstanceAs (Decidable (s.clock ≤ now ∧ True))

def missedKey : Call → Reply → Option FlowKey
  | .lookup key _, .miss => some key
  | _, _ => none

def Session.Calls (s : Session n b) (a : Call × Reply) (s' : Session n b) : Prop :=
  s.Admits a.1 ∧ (perform flowHash s.table a.1).2 = a.2 ∧
    s' = ⟨(perform flowHash s.table a.1).1, a.1.now, missedKey a.1 a.2⟩

/-- Making a list of calls, as long as the rules admit them. -/
def Session.replay :
    Session n b → List Call → Option (List (Call × Reply) × Session n b)
  | s, [] => some ([], s)
  | s, c :: cs =>
      if s.Admits c then
        let r := perform flowHash s.table c
        (Session.replay ⟨r.1, c.now, missedKey c r.2⟩ cs).map fun p => ((c, r.2) :: p.1, p.2)
      else none

theorem replay_trace {s s' : Session n b} {cs : List Call} {log : List (Call × Reply)}
    (h : s.replay flowHash cs = some (log, s')) : Trace (Session.Calls flowHash) s log s' := by
  induction cs generalizing s log with
  | nil =>
      cases h
      exact .nil _
  | cons c cs ih =>
      rw [Session.replay] at h
      split at h
      next hadmits =>
        obtain ⟨⟨log', s₁⟩, hrest, hlog⟩ := Option.map_eq_some_iff.mp h
        cases hlog
        exact .cons ⟨hadmits, rfl, rfl⟩ (ih hrest)
      next => cases h

/-! ### The map -/

structure FlowMap (n b : ℕ) where
  map : BoundedMap FlowKey (Int32 × UInt64) n
  cursor : Fin b

/-- The entry is in a scanned bucket and has been idle for longer than the timeout of its
protocol; the difference is one of natural numbers. -/
def Stale (bucket : FlowKey → Fin b) (cursor : Fin b) (k : ℕ) (now : UInt64) (t : Timeouts)
    (e : FlowKey × Int32 × UInt64) : Prop :=
  Scans cursor k (bucket e.1) ∧ (t.of e.1).toNat < now.toNat - e.2.2.toNat

instance (bucket : FlowKey → Fin b) (cursor : Fin b) (k : ℕ) (now : UInt64) (t : Timeouts) :
    DecidablePred (Stale bucket cursor k now t) := fun e =>
  inferInstanceAs (Decidable (Scans cursor k (bucket e.1) ∧
    (t.of e.1).toNat < now.toNat - e.2.2.toNat))

/-- The calls and replies of the map. -/
inductive FlowMap.Calls (bucket : FlowKey → Fin b) :
    FlowMap n b → Call × Reply → FlowMap n b → Prop
  | hit {m : FlowMap n b} {key : FlowKey} {now : UInt64} {backendId : Int32} {seen : UInt64}
      (present : (key, backendId, seen) ∈ m.map.graph) :
      FlowMap.Calls bucket m (.lookup key now, .hit backendId)
        { m with map := m.map.assign present (backendId, now) }
  | miss {m : FlowMap n b} {key : FlowKey} {now : UInt64} (absent : m.map.Absent key) :
      FlowMap.Calls bucket m (.lookup key now, .miss) m
  | inserted {m : FlowMap n b} {key : FlowKey} {backendId : Int32} {now : UInt64}
      (absent : m.map.Absent key) (room : m.map.graph.card < n) :
      FlowMap.Calls bucket m (.insert key backendId now, .inserted)
        { m with map := m.map.add absent room (backendId, now) }
  | full {m : FlowMap n b} {key : FlowKey} {backendId : Int32} {now : UInt64}
      (full : m.map.graph.card = n) :
      FlowMap.Calls bucket m (.insert key backendId now, .full) m
  | reaped {m : FlowMap n b} {now : UInt64} {t : Timeouts} {k : ℕ} {cursor : Fin b}
      {evicted : List Int32} (noWrap : ∀ e ∈ m.map.graph, e.2.2 ≤ now)
      (advanced : cursor.val = (m.cursor.val + min k b) % b)
      (ids : (evicted : Multiset Int32) =
        (m.map.graph.filter (Stale bucket m.cursor (min k b) now t)).val.map fun e => e.2.1) :
      FlowMap.Calls bucket m
        (.reapSlice now t k,
          .reaped (m.map.graph.filter (Stale bucket m.cursor (min k b) now t)).card evicted)
        ⟨m.map.discard (Stale bucket m.cursor (min k b) now t), cursor⟩

/-! ### The simulation -/

/-- A record as an entry of the map. -/
def entry (f : Flow) : FlowKey × Int32 × UInt64 := (f.key, f.backendId, f.lastSeenNs)

/-- The records are the entries of the map, each once. -/
structure Represents (s : Session n b) (m : FlowMap n b) : Prop where
  wf : s.table.Wf flowHash
  entries : s.table.flows.map entry = m.map.graph.val
  cursor : s.table.sweepCursor = m.cursor
  timely : ∀ f ∈ s.table.flows, f.lastSeenNs ≤ s.clock
  missed : ∀ key ∈ s.missed, m.map.Absent key

variable {flowHash}

theorem Represents.mem {s : Session n b} {m : FlowMap n b} (h : Represents flowHash s m)
    {f : Flow} (hf : f ∈ s.table.flows) : entry f ∈ m.map.graph := by
  rw [← Finset.mem_val, ← h.entries]
  exact Multiset.mem_map_of_mem entry hf

theorem Represents.of_mem {s : Session n b} {m : FlowMap n b} (h : Represents flowHash s m)
    {e : FlowKey × Int32 × UInt64} (he : e ∈ m.map.graph) : ∃ f ∈ s.table.flows, entry f = e := by
  rw [← Finset.mem_val, ← h.entries] at he
  exact Multiset.mem_map.mp he

theorem Represents.card {s : Session n b} {m : FlowMap n b} (h : Represents flowHash s m) :
    m.map.graph.card = s.table.flows.card := by
  rw [Finset.card_def, ← h.entries, Multiset.card_map]

theorem Represents.noWrap {s : Session n b} {m : FlowMap n b} (h : Represents flowHash s m)
    {now : UInt64} (hnow : s.clock ≤ now) : ∀ e ∈ m.map.graph, e.2.2 ≤ now := by
  intro e he
  obtain ⟨f, hf, rfl⟩ := h.of_mem he
  exact UInt64.le_trans (h.timely f hf) hnow

theorem lookup_simulates {s s' : Session n b} {m : FlowMap n b} {key : FlowKey} {now : UInt64}
    {r : Reply} (h : Represents flowHash s m) (hs : s.Calls flowHash (.lookup key now, r) s')
    (bucket : FlowKey → Fin b) :
    ∃ m', FlowMap.Calls bucket m (.lookup key now, r) m' ∧ Represents flowHash s' m' := by
  obtain ⟨⟨hclock, -⟩, hr, rfl⟩ := hs
  have hlater : ∀ f ∈ s.table.flows, f.lastSeenNs ≤ now :=
    fun f hf => UInt64.le_trans (h.timely f hf) hclock
  rcases conntrackLookup_flows h.wf key now with
    ⟨he, hmiss⟩ | ⟨ct', f, rest, he, rfl, hwf, hcursor, hflows, hflows'⟩
  · have habsent : m.map.Absent key := by
      intro v hv
      obtain ⟨f, hf, hentry⟩ := h.of_mem hv
      exact hmiss f hf (congrArg Prod.fst hentry)
    rw [perform, he] at hr ⊢
    subst hr
    refine ⟨m, .miss habsent, h.wf, h.entries, h.cursor, hlater, ?_⟩
    intro k hk
    cases hk
    exact habsent
  · have hpresent : (f.key, f.backendId, f.lastSeenNs) ∈ m.map.graph :=
      h.mem (hflows ▸ Multiset.mem_cons_self f rest)
    rw [perform, he] at hr ⊢
    subst hr
    refine ⟨_, .hit hpresent, hwf, ?_, hcursor.trans h.cursor, ?_, ?_⟩
    · rw [BoundedMap.assign_val, ← h.entries, hflows, hflows', Multiset.map_cons,
        Multiset.map_cons]
      exact congrArg _ (Multiset.erase_cons_head _ _).symm
    · intro g hg
      rw [hflows', Multiset.mem_cons] at hg
      rcases hg with rfl | hg
      · exact UInt64.le_refl now
      · exact hlater g (hflows ▸ Multiset.mem_cons_of_mem hg)
    · intro k hk
      cases hk

theorem insert_simulates {s s' : Session n b} {m : FlowMap n b} {key : FlowKey}
    {backendId : Int32} {now : UInt64} {r : Reply} (h : Represents flowHash s m)
    (hs : s.Calls flowHash (.insert key backendId now, r) s') (bucket : FlowKey → Fin b) :
    ∃ m', FlowMap.Calls bucket m (.insert key backendId now, r) m' ∧
      Represents flowHash s' m' := by
  obtain ⟨⟨hclock, hmissed⟩, hr, rfl⟩ := hs
  have habsent := h.missed key hmissed
  have hlater : ∀ f ∈ s.table.flows, f.lastSeenNs ≤ now :=
    fun f hf => UInt64.le_trans (h.timely f hf) hclock
  rcases conntrackInsert_flows h.wf key backendId now with
    ⟨he, hfull⟩ | ⟨ct', he, hroom, hwf, hcursor, hflows⟩
  · rw [perform, he] at hr ⊢
    subst hr
    refine ⟨m, .full (h.card.trans hfull), h.wf, h.entries, h.cursor, hlater, ?_⟩
    intro k hk
    cases hk
  · rw [perform, he] at hr ⊢
    subst hr
    have hroom' : m.map.graph.card < n := h.card.trans_lt hroom
    refine ⟨_, .inserted habsent hroom', hwf, ?_, hcursor.trans h.cursor, ?_, ?_⟩
    · rw [BoundedMap.add_val, ← h.entries, hflows, Multiset.map_cons]
      rfl
    · intro g hg
      rw [hflows, Multiset.mem_cons] at hg
      rcases hg with rfl | hg
      · exact UInt64.le_refl now
      · exact hlater g hg
    · intro k hk
      cases hk

theorem reapSlice_simulates {s s' : Session n b} {m : FlowMap n b} {now : UInt64} {t : Timeouts}
    {k : ℕ} {r : Reply} (h : Represents flowHash s m)
    (hs : s.Calls flowHash (.reapSlice now t k, r) s') :
    ∃ m', FlowMap.Calls (s.table.bucketIndex flowHash) m (.reapSlice now t k, r) m' ∧
      Represents flowHash s' m' := by
  obtain ⟨⟨hclock, -⟩, hr, rfl⟩ := hs
  obtain ⟨hswept, hcursor⟩ := reapLoop_swept t now (min k b) h.wf
  have hlater : ∀ f ∈ s.table.flows, f.lastSeenNs ≤ now :=
    fun f hf => UInt64.le_trans (h.timely f hf) hclock
  let stale := Stale (s.table.bucketIndex flowHash) m.cursor (min k b) now t
  -- the code's test on a record is the map's condition on its entry
  have hstale : ∀ f ∈ s.table.flows,
      (Scans s.table.sweepCursor (min k b) (s.table.bucketIndex flowHash f.key) ∧
        expired t now f = true) ↔ stale (entry f) := by
    intro f hf
    rw [expired_iff (hlater f hf), h.cursor]
    rfl
  have hremoved : (m.map.graph.filter stale).val =
      (s.table.flows.filter fun f => Scans s.table.sweepCursor (min k b)
        (s.table.bucketIndex flowHash f.key) ∧ expired t now f = true).map entry := by
    rw [Finset.filter_val, ← h.entries, Multiset.filter_map]
    exact congrArg _ (Multiset.filter_congr fun f hf => (hstale f hf).symm)
  have hids : ((conntrackReapSlice s.table now t k).2 : Multiset Int32) =
      (m.map.graph.filter stale).val.map fun e => e.2.1 := by
    rw [hremoved, Multiset.map_map]
    exact hswept.evicted
  have hcount : (conntrackReapSlice s.table now t k).2.length =
      (m.map.graph.filter stale).card := by
    rw [Finset.card_def, ← Multiset.card_map (fun e => e.2.1), ← hids, Multiset.coe_card]
  have hadvanced : (conntrackReapSlice s.table now t k).1.sweepCursor.val =
      (m.cursor.val + min k b) % b := by
    rw [← h.cursor]
    exact hcursor
  rw [perform, hcount] at hr
  subst hr
  refine ⟨_, .reaped (h.noWrap hclock) hadvanced hids, hswept.wf, ?_, rfl, ?_, ?_⟩
  · change (conntrackReapSlice s.table now t k).1.flows.map entry =
      (m.map.graph.filter fun e => ¬ stale e).val
    rw [Finset.filter_val, ← h.entries, Multiset.filter_map]
    refine congrArg _ (hswept.flows.trans (Multiset.filter_congr fun f hf => ?_))
    exact not_congr (hstale f hf)
  · intro g hg
    have hmem : g ∈ s.table.flows := by
      change g ∈ (reapLoop t now (min k b) s.table).1.flows at hg
      rw [hswept.flows] at hg
      exact Multiset.mem_of_mem_filter hg
    exact hlater g hmem
  · intro key hkey
    cases hkey

/-- The bucket of a key does not depend on the contents of the table. -/
def bucketOf (flowHash : FlowKey → UInt64) (pow2 : b.isPowerOfTwo) (key : FlowKey) : Fin b :=
  (conntrackInit 0 b pow2 Fin.elim0).bucketIndex flowHash key

theorem calls_simulates {s s' : Session n b} {m : FlowMap n b} {a : Call × Reply}
    (h : Represents flowHash s m) (hs : s.Calls flowHash a s') :
    ∃ m', FlowMap.Calls (bucketOf flowHash s.table.pow2) m a m' ∧ Represents flowHash s' m' := by
  obtain ⟨c, r⟩ := a
  cases c with
  | lookup key now => exact lookup_simulates h hs _
  | insert key backendId now => exact insert_simulates h hs _
  | reapSlice now t k => exact reapSlice_simulates h hs

/-- A new table and a caller who has not called yet. -/
def Session.start (pow2 : b.isPowerOfTwo) (garbage : Fin n → Flow) : Session n b :=
  ⟨conntrackInit n b pow2 garbage, 0, none⟩

def FlowMap.start (pow2 : b.isPowerOfTwo) : FlowMap n b :=
  ⟨.empty, (conntrackInit 0 b pow2 Fin.elim0).sweepCursor⟩

theorem start_represents (flowHash : FlowKey → UInt64) (pow2 : b.isPowerOfTwo)
    (garbage : Fin n → Flow) :
    Represents flowHash (Session.start pow2 garbage) (FlowMap.start pow2) := by
  have hnone := conntrackInit_flows pow2 garbage
  constructor
  case wf => exact conntrackInit_wf pow2 garbage
  case entries => exact (congrArg (Multiset.map entry) hnone).trans (Multiset.map_zero entry)
  case cursor => rfl
  case timely =>
    intro f hf
    change f ∈ (conntrackInit n b pow2 garbage).flows at hf
    rw [hnone] at hf
    exact absurd hf (Multiset.notMem_zero f)
  case missed =>
    intro key hkey
    cases hkey

/-- Whatever a caller does with a new table, a map with at most `n` entries gives the same
replies, and in the end its entries are the records of the table. -/
theorem refines_bounded_map (flowHash : FlowKey → UInt64) (pow2 : b.isPowerOfTwo)
    (garbage : Fin n → Flow) {log : List (Call × Reply)} {s : Session n b}
    (h : Trace (Session.Calls flowHash) (Session.start pow2 garbage) log s) :
    ∃ m : FlowMap n b,
      Trace (FlowMap.Calls (bucketOf flowHash pow2)) (FlowMap.start pow2) log m ∧
      s.table.flows.map entry = m.map.graph.val := by
  have hstep : ∀ {s a s'} {m : FlowMap n b}, Represents flowHash s m → s.Calls flowHash a s' →
      ∃ m', FlowMap.Calls (bucketOf flowHash pow2) m a m' ∧ Represents flowHash s' m' :=
    fun hR hs => calls_simulates hR hs
  obtain ⟨m, htrace, hrep⟩ := h.simulate hstep (start_represents flowHash pow2 garbage)
  exact ⟨m, htrace, hrep.entries⟩

def slowFlow : FlowKey := ⟨0x0700000a, 0x6400000a, 0xa00f, 0x5000, 17⟩
def lateFlow : FlowKey := ⟨0x0700000a, 0x6400000a, 0xa10f, 0x5000, 6⟩

/-- One slab entry: the second flow finds the table full, and the first one expires. -/
def fullLog : List (Call × Reply) :=
  [(.lookup slowFlow 1, .miss), (.insert slowFlow 4 2, .inserted), (.lookup slowFlow 3, .hit 4),
    (.lookup lateFlow 3, .miss), (.insert lateFlow 5 3, .full),
    (.reapSlice 13 ⟨20, 10⟩ 2, .reaped 0 []), (.reapSlice 14 ⟨20, 10⟩ 2, .reaped 1 [4])]

theorem refines_bounded_map_full :
    ∃ (s : Session 1 2) (m : FlowMap 1 2),
      Trace (Session.Calls fun _ => 0) (Session.start ⟨1, rfl⟩ fun _ => ⟨lateFlow, 0, 0⟩)
        fullLog s ∧
      Trace (FlowMap.Calls (bucketOf (fun _ => 0) ⟨1, rfl⟩)) (FlowMap.start ⟨1, rfl⟩) fullLog m ∧
      s.table.flows.map entry = m.map.graph.val := by
  have hrun : ((Session.start (n := 1) (b := 2) ⟨1, rfl⟩ fun _ => ⟨lateFlow, 0, 0⟩).replay
      (fun _ => 0) (fullLog.map Prod.fst)).any (fun p => p.1 = fullLog) = true := by
    decide +kernel
  obtain ⟨⟨log, s⟩, hs, hlog⟩ := (Option.any_eq_true _ _).mp hrun
  obtain rfl : log = fullLog := of_decide_eq_true hlog
  have htrace := replay_trace _ hs
  obtain ⟨m, hm, hentries⟩ := refines_bounded_map _ _ _ htrace
  exact ⟨s, m, htrace, hm, hentries⟩

end MaglevLb.ConntrackMap
