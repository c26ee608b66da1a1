import MaglevLb.ConntrackMap

/-!
# Sixty reaper ticks sweep the whole table

Each tick scans a sixtieth of the buckets and one more, from a cursor that it
leaves behind the last one. Lookups and inserts do not move the cursor, so sixty
ticks pass every bucket, whatever happens in between.
-/
namespace MaglevLb.ReaperCoverage
open PacketFormat Conntrack ConntrackMap EventRun

inductive Event where
  | lookup (key : FlowKey) (now : UInt64)
  | insert (key : FlowKey) (backendId : Int32) (now : UInt64)
  | tick (now : UInt64)
deriving DecidableEq

def Event.now : Event → UInt64
  | .lookup _ now => now
  | .insert _ _ now => now
  | .tick now => now

def Event.isTick : Event → Bool
  | .tick _ => true
  | _ => false

/-- `conntrack_bucket_count(ct) / 60 + 1`. -/
def reaperBucketsPerTick (b : ℕ) : ℕ := b / 60 + 1

variable {n b : ℕ} (flowHash : FlowKey → UInt64) (t : Timeouts)

def Event.call (b : ℕ) : Event → Call
  | .lookup key now => .lookup key now
  | .insert key backendId now => .insert key backendId now
  | .tick now => .reapSlice now t (reaperBucketsPerTick b)

def step (ct : ConntrackTable n b) (e : Event) : ConntrackTable n b :=
  (perform flowHash ct (e.call t b)).1

/-- The backend ids that a tick reports. -/
def evictions (ct : ConntrackTable n b) (now : UInt64) : List Int32 :=
  (conntrackReapSlice ct now t (reaperBucketsPerTick b)).2

/-- Idle for longer than the timeout of the protocol. -/
def Idle (now : UInt64) (f : Flow) : Prop :=
  (t.of f.key).toNat < now.toNat - f.lastSeenNs.toNat

/-- The event is a lookup of the key that finds it, or an insert of the key that succeeds. -/
def Uses (ct : ConntrackTable n b) (key : FlowKey) (now : UInt64) (e : Event) : Prop :=
  (e = .lookup key now ∧ (conntrackLookup flowHash ct key now).2.isSome) ∨
    ∃ backendId, e = .insert key backendId now ∧
      (conntrackInsert flowHash ct key backendId now).isSome

/-! ### The scanned buckets -/

theorem scans_add {cursor next j : Fin b} {k l : ℕ} (hnext : next.val = (cursor.val + k) % b) :
    Scans cursor (k + l) j ↔ Scans cursor k j ∨ Scans next l j := by
  have hshift : ∀ i, (cursor.val + (k + i)) % b = (next.val + i) % b := by
    intro i
    rw [hnext, Nat.mod_add_mod, Nat.add_assoc]
  constructor
  · rintro ⟨i, hi, heq⟩
    rcases Nat.lt_or_ge i k with hik | hik
    · exact Or.inl ⟨i, hik, heq⟩
    · obtain ⟨d, rfl⟩ := Nat.exists_eq_add_of_le hik
      rw [hshift] at heq
      exact Or.inr ⟨d, by omega, heq⟩
  · rintro (⟨i, hi, heq⟩ | ⟨i, hi, heq⟩)
    · exact ⟨i, by omega, heq⟩
    · exact ⟨k + i, by omega, by rw [hshift, heq]⟩

theorem scans_all (cursor j : Fin b) {k : ℕ} (hk : b ≤ k) : Scans cursor k j := by
  have hcursor := cursor.isLt
  refine ⟨(j.val + (b - cursor.val)) % b, (Nat.mod_lt _ (by omega)).trans_le hk, ?_⟩
  have hsum : cursor.val + (j.val + (b - cursor.val)) = j.val + b := by omega
  rw [Nat.add_mod_mod, hsum, Nat.add_mod_right, Nat.mod_eq_of_lt j.isLt]

theorem min_reaperBucketsPerTick (hb : 0 < b) :
    min (reaperBucketsPerTick b) b = reaperBucketsPerTick b := by
  unfold reaperBucketsPerTick
  omega

/-! ### What one event does -/

variable {flowHash t}

/-- The change of the flows and the cursor by one event. -/
inductive Moves (flowHash : FlowKey → UInt64) (t : Timeouts) (ct ct' : ConntrackTable n b) :
    Event → Prop
  | same {e : Event} (htick : e.isTick = false) (cursor : ct'.sweepCursor = ct.sweepCursor)
      (after : ct'.flows = ct.flows) : Moves flowHash t ct ct' e
  | touched {now : UInt64} {f : Flow} {rest : Multiset Flow}
      (cursor : ct'.sweepCursor = ct.sweepCursor) (before : ct.flows = f ::ₘ rest)
      (after : ct'.flows = { f with lastSeenNs := now } ::ₘ rest) :
      Moves flowHash t ct ct' (.lookup f.key now)
  | added {key : FlowKey} {backendId : Int32} {now : UInt64}
      (cursor : ct'.sweepCursor = ct.sweepCursor)
      (after : ct'.flows = ⟨key, backendId, now⟩ ::ₘ ct.flows) :
      Moves flowHash t ct ct' (.insert key backendId now)
  | swept {now : UInt64}
      (cursor : ct'.sweepCursor.val = (ct.sweepCursor.val + reaperBucketsPerTick b) % b)
      (swept : Swept flowHash (fun f => Scans ct.sweepCursor (reaperBucketsPerTick b)
        (ct.bucketIndex flowHash f.key) ∧ expired t now f = true) ct ct' (evictions t ct now)) :
      Moves flowHash t ct ct' (.tick now)

theorem step_moves {ct : ConntrackTable n b} (h : ct.Wf flowHash) (e : Event) :
    (step flowHash t ct e).Wf flowHash ∧ Moves flowHash t ct (step flowHash t ct e) e := by
  cases e with
  | lookup key now =>
      rw [step, Event.call, perform]
      rcases conntrackLookup_flows h key now with
        ⟨he, -⟩ | ⟨ct', f, rest, he, rfl, hwf, hcursor, hbefore, hafter⟩
      · rw [he]
        exact ⟨h, .same rfl rfl rfl⟩
      · rw [he]
        exact ⟨hwf, .touched hcursor hbefore hafter⟩
  | insert key backendId now =>
      rw [step, Event.call, perform]
      rcases conntrackInsert_flows h key backendId now with
        ⟨he, -⟩ | ⟨ct', he, -, hwf, hcursor, hafter⟩
      · rw [he]
        exact ⟨h, .same rfl rfl rfl⟩
      · rw [he]
        exact ⟨hwf, .added hcursor hafter⟩
  | tick now =>
      obtain ⟨hswept, hcursor⟩ := reapLoop_swept t now (min (reaperBucketsPerTick b) b) h
      have hmin := min_reaperBucketsPerTick ct.bucket_pos
      refine ⟨hswept.wf, .swept ?_ ?_⟩
      · simp only [hmin] at hcursor
        rw [← hcursor, step, Event.call, perform, conntrackReapSlice, hmin]
      · have := conntrackReapSlice_swept h now t (reaperBucketsPerTick b)
        simp only [hmin] at this
        exact this

/-- The table is well formed and its records are not newer than the clock. -/
structure Timely (flowHash : FlowKey → UInt64) (ct : ConntrackTable n b) (clock : UInt64) :
    Prop where
  wf : ct.Wf flowHash
  seen : ∀ f ∈ ct.flows, f.lastSeenNs ≤ clock

theorem step_timely {ct : ConntrackTable n b} {clock : UInt64} (h : Timely flowHash ct clock)
    {e : Event} (hnow : clock ≤ e.now) :
    Timely flowHash (step flowHash t ct e) e.now := by
  obtain ⟨hwf, hmoves⟩ := step_moves (t := t) h.wf e
  have hlater : ∀ f ∈ ct.flows, f.lastSeenNs ≤ e.now :=
    fun f hf => UInt64.le_trans (h.seen f hf) hnow
  refine ⟨hwf, fun g hg => ?_⟩
  cases hmoves with
  | same _ _ hafter => exact hlater g (hafter ▸ hg)
  | touched _ hbefore hafter =>
      rw [hafter, Multiset.mem_cons] at hg
      rcases hg with rfl | hg
      · exact UInt64.le_refl _
      · exact hlater g (hbefore ▸ Multiset.mem_cons_of_mem hg)
  | added _ hafter =>
      rw [hafter, Multiset.mem_cons] at hg
      rcases hg with rfl | hg
      · exact UInt64.le_refl _
      · exact hlater g hg
  | swept _ hswept =>
      rw [hswept.flows] at hg
      exact hlater g (Multiset.mem_of_mem_filter hg)

/-- A tick keeps the records that are not idle. -/
theorem tick_count {ct : ConntrackTable n b} {clock now : UInt64} (h : Timely flowHash ct clock)
    (hnow : clock ≤ now) {f : Flow} (hf : f ∈ ct.flows) (hidle : ¬ Idle t now f) :
    (step flowHash t ct (.tick now)).flows.count f = ct.flows.count f := by
  cases (step_moves (t := t) h.wf (.tick now)).2 with
  | same htick _ _ => cases htick
  | swept _ hswept =>
      have hexp : ¬ expired t now f = true := fun he =>
        hidle ((expired_iff (UInt64.le_trans (h.seen f hf) hnow)).mp he)
      rw [hswept.flows]
      exact Multiset.count_filter_of_pos fun hp => hexp hp.2

/-! ### Idle records go -/

/-- No record of the key has been idle since before `start`. -/
def Clean (t : Timeouts) (start : UInt64) (key : FlowKey) (ct : ConntrackTable n b) : Prop :=
  ∀ f ∈ ct.flows, f.key = key → ¬ Idle t start f

theorem not_idle_of_le {start : UInt64} {f : Flow} (h : start ≤ f.lastSeenNs) :
    ¬ Idle t start f := by
  have hle := UInt64.le_iff_toNat_le.mp h
  unfold Idle
  omega

theorem step_clean {ct : ConntrackTable n b} {start : UInt64} {key : FlowKey}
    (hclean : Clean t start key ct) (h : ct.Wf flowHash) {e : Event} (hnow : start ≤ e.now) :
    Clean t start key (step flowHash t ct e) := by
  intro g hg hkey
  cases (step_moves (t := t) h e).2 with
  | same _ _ hafter => exact hclean g (hafter ▸ hg) hkey
  | touched _ hbefore hafter =>
      rw [hafter, Multiset.mem_cons] at hg
      rcases hg with rfl | hg
      · exact not_idle_of_le hnow
      · exact hclean g (hbefore ▸ Multiset.mem_cons_of_mem hg) hkey
  | added _ hafter =>
      rw [hafter, Multiset.mem_cons] at hg
      rcases hg with rfl | hg
      · exact not_idle_of_le hnow
      · exact hclean g hg hkey
  | swept _ hswept =>
      rw [hswept.flows] at hg
      exact hclean g (Multiset.mem_of_mem_filter hg) hkey

/-- A tick that scans the bucket of the key cleans it. -/
theorem tick_clean {ct : ConntrackTable n b} {clock start now : UInt64}
    (h : Timely flowHash ct clock) (hclock : clock ≤ now) (hnow : start ≤ now) {key : FlowKey}
    (hscan : Scans ct.sweepCursor (reaperBucketsPerTick b) (ct.bucketIndex flowHash key)) :
    Clean t start key (step flowHash t ct (.tick now)) := by
  intro g hg hkey hidle
  cases (step_moves (t := t) h.wf (.tick now)).2 with
  | same htick _ _ => cases htick
  | swept _ hswept =>
      rw [hswept.flows, Multiset.mem_filter] at hg
      have hle : g.lastSeenNs ≤ now := UInt64.le_trans (h.seen g hg.1) hclock
      have hexp : expired t now g = true := by
        have := UInt64.le_iff_toNat_le.mp hnow
        unfold Idle at hidle
        rw [expired_iff hle]
        omega
      exact hg.2 ⟨hkey ▸ hscan, hexp⟩

/-! ### Runs -/

/-- The clock reads at least `clock` at every event and never less than before. -/
def Clocked (clock : UInt64) (es : List Event) : Prop :=
  (clock :: es.map Event.now).IsChain (· ≤ ·)

theorem clocked_cons {clock : UInt64} {e : Event} {es : List Event} :
    Clocked clock (e :: es) ↔ clock ≤ e.now ∧ Clocked e.now es := List.isChain_cons_cons

theorem Clocked.le {clock : UInt64} {es : List Event} (h : Clocked clock es) {e : Event}
    (he : e ∈ es) : clock ≤ e.now := by
  induction es generalizing clock with
  | nil => cases he
  | cons a es ih =>
      obtain ⟨ha, hes⟩ := clocked_cons.mp h
      rcases List.mem_cons.mp he with rfl | he
      · exact ha
      · exact UInt64.le_trans ha (ih hes he)

theorem Clocked.split {clock : UInt64} {pre post : List Event} (h : Clocked clock (pre ++ post)) :
    Clocked clock pre ∧ ∀ e ∈ pre, ∀ e' ∈ post, e.now ≤ e'.now := by
  induction pre generalizing clock with
  | nil => exact ⟨List.isChain_singleton clock, fun e he => absurd he List.not_mem_nil⟩
  | cons a pre ih =>
      obtain ⟨ha, hrest⟩ := clocked_cons.mp h
      obtain ⟨hpre, hle⟩ := ih hrest
      refine ⟨clocked_cons.mpr ⟨ha, hpre⟩, fun e he e' he' => ?_⟩
      rcases List.mem_cons.mp he with rfl | he
      · exact hrest.le (List.mem_append_right pre he')
      · exact hle e he e' he'

abbrev run (flowHash : FlowKey → UInt64) (t : Timeouts) :
    ConntrackTable n b → List Event → ConntrackTable n b :=
  EventRun.run (step flowHash t)

/-- A state of the run, with the time of the last event before it. -/
theorem run_timely {ct : ConntrackTable n b} {clock : UInt64} {pre post : List Event}
    (h : Timely flowHash ct clock) (hc : Clocked clock (pre ++ post)) :
    ∃ clock', clock ≤ clock' ∧ Timely flowHash (run flowHash t ct pre) clock' ∧
      Clocked clock' post := by
  induction pre generalizing ct clock with
  | nil => exact ⟨clock, UInt64.le_refl clock, h, hc⟩
  | cons e pre ih =>
      obtain ⟨he, hpre⟩ := clocked_cons.mp hc
      obtain ⟨clock', hle, htimely, hpost⟩ := ih (step_timely h he) hpre
      exact ⟨clock', UInt64.le_trans he hle, htimely, hpost⟩

theorem run_clean_of_clean {ct : ConntrackTable n b} {clock start : UInt64} {key : FlowKey}
    {es : List Event} (h : Timely flowHash ct clock) (hc : Clocked clock es)
    (hstart : start ≤ clock) (hclean : Clean t start key ct) :
    Clean t start key (run flowHash t ct es) := by
  induction es generalizing ct clock with
  | nil => exact hclean
  | cons e es ih =>
      obtain ⟨he, hes⟩ := clocked_cons.mp hc
      have hnow := UInt64.le_trans hstart he
      exact ih (step_timely h he) hes hnow (step_clean hclean h.wf hnow)

/-- The induction is on the events; what is left to scan shrinks with every tick. -/
theorem run_clean {ct : ConntrackTable n b} {clock start : UInt64} {key : FlowKey}
    {es : List Event} (h : Timely flowHash ct clock) (hc : Clocked clock es)
    (hstart : start ≤ clock)
    (hscan : Scans ct.sweepCursor (es.countP Event.isTick * reaperBucketsPerTick b)
      (ct.bucketIndex flowHash key)) :
    Clean t start key (run flowHash t ct es) := by
  induction es generalizing ct clock with
  | nil =>
      rw [List.countP_nil, Nat.zero_mul] at hscan
      exact absurd hscan (not_scans_zero _ _)
  | cons e es ih =>
      obtain ⟨he, hes⟩ := clocked_cons.mp hc
      have hnow := UInt64.le_trans hstart he
      have hnext := step_timely (t := t) h he
      have hstill : e.isTick = false → (step flowHash t ct e).sweepCursor = ct.sweepCursor →
          Clean t start key (run flowHash t ct (e :: es)) := by
        intro htick hcursor
        rw [List.countP_cons_of_neg (by rw [htick]; decide)] at hscan
        refine ih hnext hes hnow ?_
        rw [hcursor]
        exact hscan
      cases (step_moves (t := t) h.wf e).2 with
      | same htick hcursor _ => exact hstill htick hcursor
      | touched hcursor _ _ => exact hstill rfl hcursor
      | added hcursor _ => exact hstill rfl hcursor
      | @swept now hcursor _ =>
          rw [List.countP_cons_of_pos rfl, Nat.succ_mul, Nat.add_comm, scans_add hcursor] at hscan
          rcases hscan with hscan | hscan
          · have hrest : Clean t start key (run flowHash t (step flowHash t ct (.tick now)) es) :=
              run_clean_of_clean hnext hes hnow (tick_clean h he hnow hscan)
            exact hrest
          · exact ih hnext hes hnow hscan

/-- A record that leaves the table without a lookup of its key leaves it at a tick, which
reports its backend. -/
theorem run_evicted {ct : ConntrackTable n b} {es : List Event} {f : Flow} (h : ct.Wf flowHash)
    (hf : f ∈ ct.flows) (hlookup : ∀ now, .lookup f.key now ∉ es)
    (hgone : f ∉ (run flowHash t ct es).flows) :
    ∃ pre now post, es = pre ++ .tick now :: post ∧ f ∈ (run flowHash t ct pre).flows ∧
      f ∉ (run flowHash t ct (pre ++ [.tick now])).flows ∧
      f.backendId ∈ evictions t (run flowHash t ct pre) now := by
  induction es generalizing ct with
  | nil => exact absurd hf hgone
  | cons e es ih =>
      obtain ⟨hwf, hmoves⟩ := step_moves (t := t) h e
      by_cases hstay : f ∈ (step flowHash t ct e).flows
      · obtain ⟨pre, now, post, rfl, hpre, hpost, hev⟩ :=
          ih hwf hstay (fun now hmem => hlookup now (List.mem_cons_of_mem e hmem)) hgone
        exact ⟨e :: pre, now, post, rfl, hpre, hpost, hev⟩
      · cases hmoves with
        | same _ _ hafter => exact absurd (hafter ▸ hf) hstay
        | @touched now g rest _ hbefore hafter =>
            rw [hbefore, Multiset.mem_cons] at hf
            rcases hf with rfl | hf
            · exact absurd List.mem_cons_self (hlookup now)
            · exact absurd (hafter ▸ Multiset.mem_cons_of_mem hf) hstay
        | added _ hafter => exact absurd (hafter ▸ Multiset.mem_cons_of_mem hf) hstay
        | @swept now _ hswept =>
            refine ⟨[], now, es, rfl, hf, hstay, ?_⟩
            rw [hswept.flows, Multiset.mem_filter, not_and, not_not] at hstay
            have hmem : f.backendId ∈ (evictions t ct now : Multiset Int32) := by
              rw [hswept.evicted]
              exact Multiset.mem_map_of_mem _ (Multiset.mem_filter.mpr ⟨hf, hstay hf⟩)
            exact hmem

/-! ### Used keys stay -/

/-- Some record of the key is as new as `used`. -/
def Recent (used : UInt64) (key : FlowKey) (ct : ConntrackTable n b) : Prop :=
  ∃ f ∈ ct.flows, f.key = key ∧ used ≤ f.lastSeenNs

theorem Uses.recent {ct : ConntrackTable n b} (h : ct.Wf flowHash) {key : FlowKey} {now : UInt64}
    {e : Event} (he : Uses flowHash ct key now e) : Recent now key (step flowHash t ct e) := by
  rcases he with ⟨rfl, hhit⟩ | ⟨backendId, rfl, hok⟩
  · rcases conntrackLookup_flows h key now with ⟨he, -⟩ | ⟨ct', f, rest, he, hkey, -, -, -, hafter⟩
    · rw [he] at hhit
      cases hhit
    · rw [step, Event.call, perform, he]
      exact ⟨{ f with lastSeenNs := now }, hafter ▸ Multiset.mem_cons_self _ rest, hkey,
        UInt64.le_refl now⟩
  · rcases conntrackInsert_flows h key backendId now with ⟨he, -⟩ | ⟨ct', he, -, -, -, hafter⟩
    · rw [he] at hok
      cases hok
    · rw [step, Event.call, perform, he]
      exact ⟨⟨key, backendId, now⟩, hafter ▸ Multiset.mem_cons_self _ ct.flows, rfl,
        UInt64.le_refl now⟩

theorem step_recent {ct : ConntrackTable n b} {clock used : UInt64} {key : FlowKey} {e : Event}
    (hr : Recent used key ct) (h : Timely flowHash ct clock) (hnow : clock ≤ e.now)
    (hused : used ≤ e.now) (hwithin : e.now.toNat - used.toNat ≤ (t.of key).toNat) :
    Recent used key (step flowHash t ct e) := by
  obtain ⟨f, hf, rfl, hle⟩ := hr
  cases (step_moves (t := t) h.wf e).2 with
  | same _ _ hafter => exact ⟨f, hafter ▸ hf, rfl, hle⟩
  | @touched now g rest _ hbefore hafter =>
      rw [hbefore, Multiset.mem_cons] at hf
      rcases hf with rfl | hf
      · exact ⟨{ f with lastSeenNs := now }, hafter ▸ Multiset.mem_cons_self _ rest, rfl, hused⟩
      · exact ⟨f, hafter ▸ Multiset.mem_cons_of_mem hf, rfl, hle⟩
  | added _ hafter => exact ⟨f, hafter ▸ Multiset.mem_cons_of_mem hf, rfl, hle⟩
  | @swept now _ _ =>
      have hidle : ¬ Idle t now f := by
        have hle' := UInt64.le_iff_toNat_le.mp hle
        change now.toNat - used.toNat ≤ _ at hwithin
        unfold Idle
        omega
      have hcount := tick_count h hnow hf hidle
      rw [← Multiset.count_pos, ← hcount, Multiset.count_pos] at hf
      exact ⟨f, hf, rfl, hle⟩

theorem run_recent {ct : ConntrackTable n b} {clock used : UInt64} {key : FlowKey}
    {es : List Event} (hr : Recent used key ct) (h : Timely flowHash ct clock)
    (hc : Clocked clock es) (hused : used ≤ clock)
    (hwithin : ∀ e ∈ es, e.now.toNat - used.toNat ≤ (t.of key).toNat) :
    Recent used key (run flowHash t ct es) := by
  induction es generalizing ct clock with
  | nil => exact hr
  | cons e es ih =>
      obtain ⟨he, hes⟩ := clocked_cons.mp hc
      have hnow := UInt64.le_trans hused he
      have hstep := step_recent hr h he hnow (hwithin e List.mem_cons_self)
      exact ih hstep (step_timely h he) hes hnow
        fun e' he' => hwithin e' (List.mem_cons_of_mem e he')

/-! ### Sixty ticks -/

theorem conntrackInit_timely (pow2 : b.isPowerOfTwo) (garbage : Fin n → Flow) (clock : UInt64) :
    Timely flowHash (conntrackInit n b pow2 garbage) clock := by
  refine ⟨conntrackInit_wf pow2 garbage, fun f hf => ?_⟩
  rw [conntrackInit_flows] at hf
  exact absurd hf (Multiset.notMem_zero f)

/-- A run with sixty ticks. A record that was idle when it began and whose key is not looked up
is evicted at one of the ticks. A tick evicts no record that is within its timeout, so a key
that was used within its timeout still has a record. -/
theorem sixty_ticks_cover (flowHash : FlowKey → UInt64) (t : Timeouts) {ct : ConntrackTable n b}
    {start : UInt64} (h : Timely flowHash ct start) {es : List Event} (hc : Clocked start es)
    (hticks : es.countP Event.isTick = 60) :
    (∀ f ∈ ct.flows, Idle t start f → (∀ now, .lookup f.key now ∉ es) →
      f ∉ (run flowHash t ct es).flows ∧
      ∃ pre now post, es = pre ++ .tick now :: post ∧ f ∈ (run flowHash t ct pre).flows ∧
        f ∉ (run flowHash t ct (pre ++ [.tick now])).flows ∧
        f.backendId ∈ evictions t (run flowHash t ct pre) now) ∧
    (∀ pre now post, es = pre ++ .tick now :: post → ∀ f ∈ (run flowHash t ct pre).flows,
      ¬ Idle t now f → (run flowHash t ct (pre ++ [.tick now])).flows.count f =
        (run flowHash t ct pre).flows.count f) ∧
    (∀ pre use mid now post key used, es = pre ++ use :: (mid ++ .tick now :: post) →
      Uses flowHash (run flowHash t ct pre) key used use →
      now.toNat - used.toNat ≤ (t.of key).toNat →
      Recent used key (run flowHash t ct (pre ++ use :: (mid ++ [.tick now])))) := by
  refine ⟨fun f hf hidle hlookup => ?_, ?_, ?_⟩
  · have hscan : Scans ct.sweepCursor (es.countP Event.isTick * reaperBucketsPerTick b)
        (ct.bucketIndex flowHash f.key) := by
      apply scans_all
      rw [hticks, reaperBucketsPerTick]
      omega
    have hgone : f ∉ (run flowHash t ct es).flows := fun hmem =>
      run_clean h hc (UInt64.le_refl start) hscan f hmem rfl hidle
    exact ⟨hgone, run_evicted h.wf hf hlookup hgone⟩
  · rintro pre now post rfl f hf hidle
    obtain ⟨clock, -, htimely, hpost⟩ := run_timely (t := t) h hc
    rw [run, run_append]
    exact tick_count htimely (clocked_cons.mp hpost).1 hf hidle
  · rintro pre use mid now post key used rfl huse hwithin
    obtain ⟨clock, -, htimely, hpost⟩ := run_timely (t := t) h hc
    obtain ⟨huse', hmid⟩ := clocked_cons.mp hpost
    have hnow : use.now = used := by
      rcases huse with ⟨rfl, -⟩ | ⟨backendId, rfl, -⟩ <;> rfl
    have hrecent := huse.recent (t := t) htimely.wf
    have hafter := step_timely (t := t) htimely huse'
    rw [hnow] at hafter hmid
    have hsplit : mid ++ .tick now :: post = (mid ++ [.tick now]) ++ post := by simp
    rw [hsplit] at hmid
    have hwithin' : ∀ e ∈ mid ++ [.tick now], e.now.toNat - used.toNat ≤ (t.of key).toNat := by
      intro e he
      have hle : e.now ≤ now := by
        rcases List.mem_append.mp he with he | he
        · exact hmid.split.1.split.2 e he (.tick now) List.mem_cons_self
        · rw [List.mem_singleton.mp he]
          exact UInt64.le_refl now
      have := UInt64.le_iff_toNat_le.mp hle
      omega
    rw [run, run_append, run_cons]
    exact run_recent hrecent hafter hmid.split.1 (UInt64.le_refl used) hwithin'

/-- A flow last seen at 0, and a miss on another one at 100. -/
def slowTable : ConntrackTable 1 2 :=
  run (fun _ => 0) ⟨20, 10⟩ (conntrackInit 1 2 ⟨1, rfl⟩ fun _ => ⟨lateFlow, 0, 0⟩)
    [.insert slowFlow 4 0, .lookup lateFlow 100]

theorem sixty_ticks_cover_slow :
    ⟨slowFlow, 4, 0⟩ ∈ slowTable.flows ∧
      ⟨slowFlow, 4, 0⟩ ∉
        (run (fun _ => 0) ⟨20, 10⟩ slowTable (.replicate 60 (.tick 100))).flows := by
  have htimely : Timely (fun _ => 0) slowTable 100 :=
    step_timely (step_timely (conntrackInit_timely _ _ 0) (by decide)) (by decide)
  have hmem : ⟨slowFlow, 4, 0⟩ ∈ slowTable.flows := mem_flows.mpr ⟨0, by decide +kernel⟩
  have hidle : Idle ⟨20, 10⟩ 100 ⟨slowFlow, 4, 0⟩ := by
    unfold Idle
    decide
  have hclock : Clocked 100 (.replicate 60 (.tick 100)) := by
    unfold Clocked
    decide
  have hcover := sixty_ticks_cover (fun _ => 0) ⟨20, 10⟩ htimely hclock (by decide)
  refine ⟨hmem, (hcover.1 _ hmem hidle fun now hnow => ?_).1⟩
  cases List.eq_of_mem_replicate hnow

end MaglevLb.ReaperCoverage
