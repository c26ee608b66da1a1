import MaglevLb.BackendManager
import MaglevLb.Bytes
import MaglevLb.LineText
import MaglevLb.StatsRegistry
import Mathlib.Data.String.Basic

/-!
# The text of the metrics endpoint

The body is a HELP line, a TYPE line and the samples of one metric after the
other, each line one `mb_appendf` into a buffer of fixed capacity. The counters,
the backends and the other values are read by the exporter; here they are given.
-/
namespace MaglevLb.MetricsText

open Bytes BackendManager StatsRegistry LineText

def metricsBodyCap : ℕ := 128 * 1024

/-- What is written so far, and the size of the allocation. -/
structure MetricsBuf where
  data : Text
  cap : ℕ

/-- `mb_appendf`, given the text its format makes. Where the text does not fit,
`vsnprintf` cuts it off and ends it with a NUL, and the buffer counts as full. -/
def mbAppendf (b : MetricsBuf) (text : Text) : MetricsBuf :=
  if b.data.length ≥ b.cap then b
  else
    let room := b.cap - b.data.length
    if text.length < room then { b with data := b.data ++ text }
    else { b with data := b.data ++ text.take (room - 1) ++ [Char.ofNat 0] }

/-! ### The metrics -/

inductive Metric where
  | startTimeSeconds
  | tableSize
  | rxPacketsTotal
  | rxBytesTotal
  | txPacketsTotal
  | txBytesTotal
  | dropsTotal
  | conntrackLookupsTotal
  | conntrackEvictionsTotal
  | conntrackActiveFlows
  | tableGeneration
  | tableRegenLastMicroseconds
  | backendsConfigured
  | backendsEligible
  | backendUp
  | backendAdminEnabled
  | backendDraining
  | backendPacketsTotal
  | backendBytesTotal
  | backendActiveFlows
  | backendFlowsAssignedTotal
  | backendHealthCheckFailuresTotal
  deriving DecidableEq

/-- In the order of the body. -/
def Metric.all : List Metric :=
  [.startTimeSeconds, .tableSize, .rxPacketsTotal, .rxBytesTotal, .txPacketsTotal, .txBytesTotal,
    .dropsTotal, .conntrackLookupsTotal, .conntrackEvictionsTotal, .conntrackActiveFlows,
    .tableGeneration, .tableRegenLastMicroseconds, .backendsConfigured, .backendsEligible,
    .backendUp, .backendAdminEnabled, .backendDraining, .backendPacketsTotal, .backendBytesTotal,
    .backendActiveFlows, .backendFlowsAssignedTotal, .backendHealthCheckFailuresTotal]

def Metric.name : Metric → String
  | .startTimeSeconds => "maglev_lb_start_time_seconds"
  | .tableSize => "maglev_lb_table_size"
  | .rxPacketsTotal => "maglev_lb_rx_packets_total"
  | .rxBytesTotal => "maglev_lb_rx_bytes_total"
  | .txPacketsTotal => "maglev_lb_tx_packets_total"
  | .txBytesTotal => "maglev_lb_tx_bytes_total"
  | .dropsTotal => "maglev_lb_drops_total"
  | .conntrackLookupsTotal => "maglev_lb_conntrack_lookups_total"
  | .conntrackEvictionsTotal => "maglev_lb_conntrack_evictions_total"
  | .conntrackActiveFlows => "maglev_lb_conntrack_active_flows"
  | .tableGeneration => "maglev_lb_table_generation"
  | .tableRegenLastMicroseconds => "maglev_lb_table_regen_last_microseconds"
  | .backendsConfigured => "maglev_lb_backends_configured"
  | .backendsEligible => "maglev_lb_backends_eligible"
  | .backendUp => "maglev_lb_backend_up"
  | .backendAdminEnabled => "maglev_lb_backend_admin_enabled"
  | .backendDraining => "maglev_lb_backend_draining"
  | .backendPacketsTotal => "maglev_lb_backend_packets_total"
  | .backendBytesTotal => "maglev_lb_backend_bytes_total"
  | .backendActiveFlows => "maglev_lb_backend_active_flows"
  | .backendFlowsAssignedTotal => "maglev_lb_backend_flows_assigned_total"
  | .backendHealthCheckFailuresTotal => "maglev_lb_backend_health_check_failures_total"

def Metric.doc : Metric → String
  | .startTimeSeconds => "Unix time the process started."
  | .tableSize => "Configured Maglev lookup table size (M)."
  | .rxPacketsTotal => "Packets received on the ingestion raw socket (clients -> LB)."
  | .rxBytesTotal => "Bytes received on the ingestion raw socket."
  | .txPacketsTotal => "GRE-encapsulated packets forwarded to backends (LB -> backends)."
  | .txBytesTotal => "Bytes forwarded to backends, including the GRE+IP+Ethernet wrapper."
  | .dropsTotal => "Packets the datapath dropped, by reason."
  | .conntrackLookupsTotal => "Conntrack lookups, by result."
  | .conntrackEvictionsTotal => "Conntrack entries reaped for being idle past their timeout."
  | .conntrackActiveFlows => "Flows currently pinned in the conntrack table."
  | .tableGeneration =>
      "Number of times the Maglev lookup table has been (re)generated, including the initial build."
  | .tableRegenLastMicroseconds =>
      "Wall-clock duration of the most recent table regeneration."
  | .backendsConfigured => "Backends configured at startup via --backend."
  | .backendsEligible =>
      "Backends currently eligible for new flows (healthy, admin-enabled, MAC resolved)."
  | .backendUp =>
      "Whether the backend is currently healthy (1) or not (0), as last determined by the " ++
        "health checker."
  | .backendAdminEnabled =>
      "Whether the backend's admin state is ENABLED (1) rather than DRAINING/DISABLED (0)."
  | .backendDraining =>
      "Whether the backend is currently DRAINING (1): no new flows, but flows already pinned " ++
        "to it via conntrack keep being forwarded until they finish naturally."
  | .backendPacketsTotal => "GRE-encapsulated packets forwarded to this specific backend."
  | .backendBytesTotal =>
      "Bytes forwarded to this specific backend (GRE-encapsulated, including the wrapper)."
  | .backendActiveFlows => "Flows in the conntrack table currently pinned to this backend."
  | .backendFlowsAssignedTotal =>
      "New flows the datapath has pinned to this backend (conntrack inserts). A packet reusing " ++
        "an already-pinned 5-tuple is not counted."
  | .backendHealthCheckFailuresTotal =>
      "Failed health-check probes against this backend (every failure, not just " ++
        "threshold-crossing ones)."

/-- What the TYPE line says. -/
def Metric.kind : Metric → String
  | .startTimeSeconds | .tableSize | .conntrackActiveFlows | .tableRegenLastMicroseconds
  | .backendsConfigured | .backendsEligible | .backendUp | .backendAdminEnabled
  | .backendDraining | .backendActiveFlows => "gauge"
  | .rxPacketsTotal | .rxBytesTotal | .txPacketsTotal | .txBytesTotal | .dropsTotal
  | .conntrackLookupsTotal | .conntrackEvictionsTotal | .tableGeneration | .backendPacketsTotal
  | .backendBytesTotal | .backendFlowsAssignedTotal | .backendHealthCheckFailuresTotal => "counter"

/-! ### The samples -/

/-- `struct metrics_http`, with what is read through its pointers. -/
structure MetricsHttp where
  startTime : Int64
  tableSize : UInt32
  configuredBackends : UInt64
  stats : LbStats
  conntrackActiveFlows : UInt64
  generation : UInt64
  lastRegenUs : UInt64
  bm : Manager

def ipv4Format (addr : UInt32) (outCap : ℕ) : Text :=
  let byte (i : ℕ) : Text := natText ((le32Bytes addr).getD i 0).toNat
  (byte 0 ++ '.' :: byte 1 ++ '.' :: byte 2 ++ '.' :: byte 3).take (outCap - 1)

def label (name : String) (value : Text) : Label := (name.toList, value)

def backendLabels (x : Backend) : List Label :=
  [label "backend_id" (natText x.id.toNat),
    label "backend_addr" (ipv4Format x.addr 16 ++ ':' :: natText x.port.toNat)]

/-- A sample is its labels and its value. -/
abbrev Sample := List Label × ℤ

variable (m : MetricsHttp)

def MetricsHttp.backends : List Backend := backendManagerSnapshotAll m.bm backendMax

def perBackend (value : Backend → ℤ) : List Sample :=
  m.backends.map fun x => (backendLabels x, value x)

def MetricsHttp.backendStats (x : Backend) : PerBackendStats :=
  statsRegistrySnapshotBackend m.stats x.id

def samples : Metric → List Sample
  | .startTimeSeconds => [([], m.startTime.toInt)]
  | .tableSize => [([], m.tableSize.toNat)]
  | .rxPacketsTotal => [([], m.stats.rxPackets.toNat)]
  | .rxBytesTotal => [([], m.stats.rxBytes.toNat)]
  | .txPacketsTotal => [([], m.stats.txPackets.toNat)]
  | .txBytesTotal => [([], m.stats.txBytes.toNat)]
  | .dropsTotal =>
      [([label "reason" "parse_error".toList], m.stats.dropsParseError.toNat),
        ([label "reason" "no_backend".toList], m.stats.dropsNoBackend.toNat),
        ([label "reason" "backend_unhealthy".toList], m.stats.dropsBackendUnhealthy.toNat),
        ([label "reason" "conntrack_full".toList], m.stats.dropsConntrackFull.toNat)]
  | .conntrackLookupsTotal =>
      [([label "result" "hit".toList], m.stats.conntrackHits.toNat),
        ([label "result" "miss".toList], m.stats.conntrackMisses.toNat)]
  | .conntrackEvictionsTotal => [([], m.stats.conntrackEvictions.toNat)]
  | .conntrackActiveFlows => [([], m.conntrackActiveFlows.toNat)]
  | .tableGeneration => [([], m.generation.toNat)]
  | .tableRegenLastMicroseconds => [([], m.lastRegenUs.toNat)]
  | .backendsConfigured => [([], m.configuredBackends.toNat)]
  | .backendsEligible => [([], m.backends.countP eligible)]
  | .backendUp => perBackend m fun x => if x.healthy then 1 else 0
  | .backendAdminEnabled => perBackend m fun x => if x.adminState = .enabled then 1 else 0
  | .backendDraining => perBackend m fun x => if x.adminState = .draining then 1 else 0
  | .backendPacketsTotal => perBackend m fun x => (m.backendStats x).packets.toNat
  | .backendBytesTotal => perBackend m fun x => (m.backendStats x).bytes.toNat
  | .backendActiveFlows => perBackend m fun x => (m.backendStats x).activeFlows.toNat
  | .backendFlowsAssignedTotal => perBackend m fun x => (m.backendStats x).flowsAssigned.toNat
  | .backendHealthCheckFailuresTotal =>
      perBackend m fun x => (m.backendStats x).healthCheckFailures.toNat

/-! ### The body -/

inductive Line where
  | help (x : Metric)
  | type (x : Metric)
  | sample (x : Metric) (s : Sample)

/-- Labels stand in braces. -/
def bracedLabels (ls : List Label) : Text := if ls = [] then [] else '{' :: (labelsText ls ++ ['}'])

/-- The line without its end. -/
def Line.text : Line → Text
  | .help x => ("# HELP " ++ x.name ++ " " ++ x.doc).toList
  | .type x => ("# TYPE " ++ x.name ++ " " ++ x.kind).toList
  | .sample x s => x.name.toList ++ bracedLabels s.1 ++ ' ' :: intText s.2

def metricLines (x : Metric) : List Line := .help x :: .type x :: (samples m x).map (.sample x)

def metricsLines : List Line := Metric.all.flatMap (metricLines m)

def buildMetricsBody (b : MetricsBuf) : MetricsBuf :=
  (metricsLines m).foldl (fun b l => mbAppendf b (l.text ++ ['\n'])) b

/-! ### Every line is whole -/

theorem Metric.mem_all (x : Metric) : x ∈ Metric.all := by cases x <;> decide

theorem Metric.all_nodup : Metric.all.Nodup := by decide

theorem Metric.name_injective : Function.Injective Metric.name := by
  have h : ∀ x ∈ Metric.all, ∀ y ∈ Metric.all, x.name = y.name → x = y := by decide +kernel
  exact fun x y => h x x.mem_all y y.mem_all

theorem Metric.name_toList (x : Metric) :
    (∀ c ∈ x.name.toList, isWord c = true) ∧ x.name.toList.length ≤ 45 := by
  cases x <;> exact literal_toList rfl (by decide) (by decide)

theorem Metric.name_ne_nil (x : Metric) : x.name.toList ≠ [] := by
  have hname : x.name ≠ "" := by cases x <;> decide
  simpa using hname

/-- A printable character. -/
def isPrint (c : Char) : Bool := 32 ≤ c.toNat && c.toNat ≤ 126

theorem Metric.doc_toList (x : Metric) :
    (∀ c ∈ x.doc.toList, isPrint c = true) ∧ x.doc.toList.length ≤ 160 := by
  cases x with
  | backendUp | backendDraining | backendFlowsAssignedTotal | backendHealthCheckFailuresTotal =>
      exact append_toList (j := 90) (k := 70)
        (literal_toList rfl (by decide +kernel) (by decide +kernel))
        (literal_toList rfl (by decide +kernel) (by decide +kernel))
  | _ => exact literal_toList rfl (by decide +kernel) (by decide +kernel)

theorem Metric.kind_toList (x : Metric) :
    (∀ c ∈ x.kind.toList, isPrint c = true) ∧ x.kind.toList.length ≤ 7 := by
  cases x <;> exact literal_toList rfl (by decide) (by decide)

theorem isLineBreak_of_isPrint {c : Char} (h : isPrint c = true) : isLineBreak c = false := by
  simp only [isPrint, Bool.and_eq_true, decide_eq_true_eq] at h
  simp only [isLineBreak, Bool.or_eq_false_iff, Bool.and_eq_false_iff, decide_eq_false_iff_not]
  omega

theorem isPrint_of_isDigit {c : Char} (h : c.isDigit = true) : isPrint c = true := by
  have hc := digit_toNat h
  simp only [isPrint, Bool.and_eq_true, decide_eq_true_eq]
  omega

theorem isPrint_of_val {c : Char} {lo hi : UInt32} (hlo : lo ≤ c.val) (hhi : c.val ≤ hi)
    (hmin : 32 ≤ lo.toNat) (hmax : hi.toNat ≤ 126) : isPrint c = true := by
  rw [UInt32.le_iff_toNat_le] at hlo hhi
  simp only [isPrint, Bool.and_eq_true, decide_eq_true_eq]
  exact ⟨hmin.trans hlo, hhi.trans hmax⟩

theorem isPrint_of_isWord {c : Char} (h : isWord c = true) : isPrint c = true := by
  rcases (Bool.or_eq_true _ _).mp h with halnum | hline
  · rcases (Bool.or_eq_true _ _).mp halnum with halpha | hdigit
    · rcases (Bool.or_eq_true _ _).mp halpha with hupper | hlower
      · have hrange : 'A'.val ≤ c.val ∧ c.val ≤ 'Z'.val := of_decide_eq_true hupper
        exact isPrint_of_val hrange.1 hrange.2 (by decide) (by decide)
      · have hrange := (Bool.and_eq_true _ _).mp hlower
        exact isPrint_of_val (of_decide_eq_true hrange.1) (of_decide_eq_true hrange.2) (by decide)
          (by decide)
    · exact isPrint_of_isDigit hdigit
  · rw [of_decide_eq_true hline]
    decide

/-! ### Every sample is read back in one piece -/

structure Sample.Ok (s : Sample) : Prop where
  labels : ∀ l ∈ s.1, l.Ok
  values : ∀ l ∈ s.1, ∀ c ∈ l.2, isPrint c = true
  room : (labelsText s.1).length ≤ 60
  low : -10 ^ 19 < s.2
  high : s.2 < 10 ^ 20

variable {m} {x : Metric} {s : Sample}

theorem sample_print (h : s.Ok) : ∀ c ∈ (Line.sample x s).text, isPrint c = true := by
  intro c hc
  have hlabels : ∀ c ∈ labelsText s.1, isPrint c = true := by
    intro c hc
    rcases mem_labelsText hc with rfl | rfl | rfl | ⟨l, hl, hname | hvalue⟩
    · decide
    · decide
    · decide
    · exact isPrint_of_isWord ((h.labels l hl).name_word c hname)
    · exact h.values l hl c hvalue
  rw [Line.text, List.mem_append, List.mem_append, List.mem_cons] at hc
  rcases hc with (hname | hbraced) | rfl | hvalue
  · exact isPrint_of_isWord (x.name_toList.1 c hname)
  · unfold bracedLabels at hbraced
    split at hbraced
    · cases hbraced
    · rw [List.mem_cons, List.mem_append, List.mem_singleton] at hbraced
      rcases hbraced with rfl | hl | rfl
      · decide
      · exact hlabels c hl
      · decide
  · decide
  · rcases mem_intText hvalue with rfl | hdigit
    · decide
    · exact isPrint_of_isDigit hdigit

theorem sample_length (h : s.Ok) : (Line.sample x s).text.length ≤ 128 := by
  have hname := x.name_toList.2
  have hroom := h.room
  have hbraced : (bracedLabels s.1).length ≤ 62 := by
    unfold bracedLabels
    split
    · exact Nat.zero_le _
    · rw [List.length_cons, List.length_append, List.length_singleton]
      omega
  have hvalue : (intText s.2).length ≤ 20 := length_intText_le (by decide) h.low h.high
  rw [Line.text, List.length_append, List.length_append, List.length_cons]
  omega

theorem plain_ok {z : ℤ} (h : 0 ≤ z ∧ z < 2 ^ 64) : Sample.Ok ([], z) := by
  refine ⟨by simp, by simp, by simp [labelsText], ?_, ?_⟩
  · dsimp only
    omega
  · dsimp only
    omega

/-- A sample with one label that is a literal word. -/
theorem word_ok {name value : String} {l l' : Text} {z : ℤ} (hname : name = String.ofList l)
    (hne : l ≠ []) (hl : l.all isWord = true) (hvalue : value = String.ofList l')
    (hl' : l'.all isWord = true) (hlen : l.length + l'.length ≤ 57)
    (h : 0 ≤ z ∧ z < 2 ^ 64) : Sample.Ok ([label name value.toList], z) := by
  have hword : ∀ c ∈ value.toList, isWord c = true := (literal_toList hvalue hl' le_rfl).1
  refine ⟨?_, ?_, ?_, (plain_ok h).low, (plain_ok h).high⟩
  · intro x hx
    rw [List.mem_singleton] at hx
    rw [hx]
    refine label_ok hname hne hl fun hquote => ?_
    cases hword _ hquote
  · intro x hx
    rw [List.mem_singleton] at hx
    rw [hx]
    exact fun c hc => isPrint_of_isWord (hword c hc)
  · rw [hname, hvalue]
    simp only [labelsText, label, String.toList_ofList, List.length_append, List.length_cons,
      List.length_nil]
    omega

theorem mem_ipv4Format {addr : UInt32} {k : ℕ} {c : Char} (h : c ∈ ipv4Format addr k) :
    c = '.' ∨ c.isDigit = true := by
  have hdigit : ∀ {n : ℕ}, c ∈ natText n → c.isDigit = true := isDigit_of_mem_natText
  have hc := List.mem_of_mem_take h
  simp only [List.mem_append, List.mem_cons] at hc
  grind

theorem backendLabels_ok (x : Backend) {z : ℤ} (h : 0 ≤ z ∧ z < 2 ^ 64) :
    Sample.Ok (backendLabels x, z) := by
  have hid : ∀ c ∈ natText x.id.toNat, c.isDigit = true := fun c => isDigit_of_mem_natText
  have haddr : ∀ c ∈ ipv4Format x.addr 16 ++ ':' :: natText x.port.toNat,
      c = '.' ∨ c = ':' ∨ c.isDigit = true := by
    intro c hc
    rw [List.mem_append, List.mem_cons] at hc
    rcases hc with hc | rfl | hc
    · exact (mem_ipv4Format hc).imp_right .inr
    · exact .inr (.inl rfl)
    · exact .inr (.inr (isDigit_of_mem_natText hc))
  refine ⟨?_, ?_, ?_, (plain_ok h).low, (plain_ok h).high⟩
  · intro l hl
    rcases List.mem_pair.mp hl with rfl | rfl
    · refine label_ok rfl (by decide) (by decide) fun hquote => ?_
      cases hid _ hquote
    · refine label_ok rfl (by decide) (by decide) fun hquote => ?_
      rcases haddr _ hquote with he | he | he
      · cases he
      · cases he
      · cases he
  · intro l hl c hc
    rcases List.mem_pair.mp hl with rfl | rfl
    · exact isPrint_of_isDigit (hid c hc)
    · rcases haddr c hc with rfl | rfl | hdigit
      · decide
      · decide
      · exact isPrint_of_isDigit hdigit
  · have hlen := length_natText_le (k := 10) (by decide) (x.id.toNat_lt.trans (by decide))
    have hport := length_natText_le (k := 5) (by decide) (x.port.toNat_lt.trans (by decide))
    have hformat : (ipv4Format x.addr 16).length ≤ 15 := List.length_take_le ..
    have hname : "backend_id".toList.length ≤ 10 :=
      (literal_toList (p := fun _ => true) rfl (by decide) (by decide)).2
    have hname' : "backend_addr".toList.length ≤ 12 :=
      (literal_toList (p := fun _ => true) rfl (by decide) (by decide)).2
    simp only [backendLabels, labelsText, label, List.length_append, List.length_cons,
      List.length_nil]
    omega

theorem perBackend_ok {value : Backend → ℤ} (h : ∀ x, 0 ≤ value x ∧ value x < 2 ^ 64) :
    ∀ s ∈ perBackend m value, s.Ok := by
  intro s hs
  obtain ⟨x, -, rfl⟩ := List.mem_map.mp hs
  exact backendLabels_ok x (h x)

theorem length_backends_le (m : MetricsHttp) : m.backends.length ≤ backendMax :=
  List.length_take_le ..

theorem counter_range (v : UInt64) : 0 ≤ (v.toNat : ℤ) ∧ (v.toNat : ℤ) < 2 ^ 64 :=
  ⟨Int.natCast_nonneg _, by exact_mod_cast v.toNat_lt⟩

theorem samples_ok (m : MetricsHttp) (x : Metric) : ∀ s ∈ samples m x, s.Ok := by
  have hone : ∀ {s₀ : Sample}, s₀.Ok → ∀ s ∈ [s₀], s.Ok := by
    intro s₀ h₀ s hs
    rw [List.mem_singleton.mp hs]
    exact h₀
  cases x with
  | startTimeSeconds =>
      refine hone ⟨by simp, by simp, by simp [labelsText], ?_, ?_⟩
      · have hlow := m.startTime.le_toInt
        dsimp only
        omega
      · have hhigh := m.startTime.toInt_lt
        dsimp only
        omega
  | tableSize =>
      have hsize := m.tableSize.toNat_lt
      exact hone (plain_ok ⟨by omega, by omega⟩)
  | rxPacketsTotal | rxBytesTotal | txPacketsTotal | txBytesTotal | conntrackEvictionsTotal
  | conntrackActiveFlows | tableGeneration | tableRegenLastMicroseconds | backendsConfigured =>
      exact hone (plain_ok (counter_range _))
  | backendsEligible =>
      have hcount : m.backends.countP eligible ≤ 64 :=
        List.countP_le_length.trans (length_backends_le m)
      exact hone (plain_ok ⟨by omega, by omega⟩)
  | dropsTotal =>
      intro s hs
      simp only [samples, List.mem_cons, List.not_mem_nil, or_false] at hs
      rcases hs with rfl | rfl | rfl | rfl
      all_goals
        exact word_ok rfl (by decide) (by decide) rfl (by decide) (by decide) (counter_range _)
  | conntrackLookupsTotal =>
      intro s hs
      simp only [samples, List.mem_cons, List.not_mem_nil, or_false] at hs
      rcases hs with rfl | rfl
      all_goals
        exact word_ok rfl (by decide) (by decide) rfl (by decide) (by decide) (counter_range _)
  | backendUp | backendAdminEnabled | backendDraining =>
      refine perBackend_ok fun x => ?_
      split <;> decide
  | backendPacketsTotal | backendBytesTotal | backendActiveFlows | backendFlowsAssignedTotal
  | backendHealthCheckFailuresTotal => exact perBackend_ok fun _ => counter_range _

/-! ### The body fits -/

/-- How many samples a metric may have. -/
def Metric.most : Metric → ℕ
  | .backendUp | .backendAdminEnabled | .backendDraining | .backendPacketsTotal
  | .backendBytesTotal | .backendActiveFlows | .backendFlowsAssignedTotal
  | .backendHealthCheckFailuresTotal => backendMax
  | _ => 4

theorem length_samples_le (m : MetricsHttp) (x : Metric) : (samples m x).length ≤ x.most := by
  have hbackends : ∀ value, (perBackend m value).length ≤ backendMax := by
    intro value
    rw [perBackend, List.length_map]
    exact length_backends_le m
  cases x with
  | backendUp | backendAdminEnabled | backendDraining | backendPacketsTotal | backendBytesTotal
  | backendActiveFlows | backendFlowsAssignedTotal | backendHealthCheckFailuresTotal =>
      exact hbackends _
  | startTimeSeconds | tableSize | rxPacketsTotal | rxBytesTotal | txPacketsTotal | txBytesTotal
  | dropsTotal | conntrackLookupsTotal | conntrackEvictionsTotal | conntrackActiveFlows
  | tableGeneration | tableRegenLastMicroseconds | backendsConfigured | backendsEligible =>
      simp [samples, Metric.most]

theorem length_metricLines_le (m : MetricsHttp) (x : Metric) :
    (joinLines ((metricLines m x).map Line.text)).length ≤ 275 + x.most * 129 := by
  have hname := x.name_toList.2
  have hdoc := x.doc_toList.2
  have hkind := x.kind_toList.2
  have hhelp : (Line.help x).text.length ≤ 213 := by
    simp only [Line.text, String.toList_append, List.length_append]
    have hmark : "# HELP ".toList.length + " ".toList.length = 8 := by decide
    omega
  have htype : (Line.type x).text.length ≤ 60 := by
    simp only [Line.text, String.toList_append, List.length_append]
    have hmark : "# TYPE ".toList.length + " ".toList.length = 8 := by decide
    omega
  have hsamples : (joinLines ((samples m x).map fun s => (Line.sample x s).text)).length ≤
      x.most * 129 := by
    have hline : ∀ l ∈ (samples m x).map fun s => (Line.sample x s).text, l.length ≤ 128 := by
      intro l hl
      obtain ⟨s, hs, rfl⟩ := List.mem_map.mp hl
      exact sample_length (samples_ok m x s hs)
    have hjoin := length_joinLines_le hline
    rw [List.length_map] at hjoin
    exact hjoin.trans (Nat.mul_le_mul_right _ (length_samples_le m x))
  rw [metricLines, List.map_cons, List.map_cons, List.map_map, joinLines, List.flatMap_cons,
    List.flatMap_cons, ← joinLines, List.length_append, List.length_append, List.length_append,
    List.length_append, List.length_singleton]
  have hcomp : Line.text ∘ Line.sample x = fun s => (Line.sample x s).text := rfl
  rw [hcomp]
  omega

theorem length_metricsLines_lt (m : MetricsHttp) :
    (joinLines ((metricsLines m).map Line.text)).length < metricsBodyCap := by
  have hsum : ∀ l : List Metric, (joinLines ((l.flatMap (metricLines m)).map Line.text)).length ≤
      (l.map fun x => 275 + x.most * 129).sum := by
    intro l
    induction l with
    | nil => exact Nat.zero_le _
    | cons x l ih =>
        have hx := length_metricLines_le m x
        rw [List.flatMap_cons, List.map_append, joinLines_append, List.length_append,
          List.map_cons, List.sum_cons]
        omega
  exact (hsum Metric.all).trans_lt (by decide)

/-- As long as there is room, nothing is cut off. -/
theorem foldl_mbAppendf {ls : List Line} {b : MetricsBuf}
    (h : b.data.length + (joinLines (ls.map Line.text)).length < b.cap) :
    ls.foldl (fun b l => mbAppendf b (l.text ++ ['\n'])) b =
      { b with data := b.data ++ joinLines (ls.map Line.text) } := by
  induction ls generalizing b with
  | nil => simp [joinLines]
  | cons l ls ih =>
      rw [List.map_cons, joinLines, List.flatMap_cons, ← joinLines] at h ⊢
      rw [List.length_append] at h
      have happend : mbAppendf b (l.text ++ ['\n']) =
          { b with data := b.data ++ (l.text ++ ['\n']) } := by
        unfold mbAppendf
        rw [if_neg (by omega)]
        exact if_pos (by omega)
      rw [List.foldl_cons, happend, ih]
      · simp
      · dsimp only
        rw [List.length_append]
        omega

/-- The body is all of its lines, and there is room to spare. -/
theorem buildMetricsBody_data (m : MetricsHttp) :
    (buildMetricsBody m ⟨[], metricsBodyCap⟩).data =
      joinLines ((metricsLines m).map Line.text) := by
  have hfits : ([] : Text).length + (joinLines ((metricsLines m).map Line.text)).length <
      metricsBodyCap := by
    rw [List.length_nil, Nat.zero_add]
    exact length_metricsLines_lt m
  rw [buildMetricsBody, foldl_mbAppendf hfits, List.nil_append]

end MaglevLb.MetricsText
