import MaglevLb.MetricsReader
import MaglevLb.MetricsText

/-!
# What the bridge reads is what the exporter wrote

Every line of the body comes back from `str.splitlines`, and reading it has one
effect (`record`), which depends only on the metric, the labels and the value
the line was made of. The rest is about the dictionaries that many such effects
leave. A value survives `float` as long as it is below `2 ^ 53`.
-/
namespace MaglevLb.MetricsRoundTrip

open BackendManager OrderedDict LineText MetricsText MetricsReader

/-! ### One line -/

/-- A sample as it is kept among the labeled ones. -/
def readSample (s : Sample) : Labels × ℤ := (.ofList s.1, toDouble s.2)

/-- What reading a line does. -/
def record (p : Parsed) : Line → Parsed
  | .help _ | .type _ => p
  | .sample x s =>
      if s.1 = [] then { p with plain := p.plain.set x.name.toList (toDouble s.2) }
      else { p with labeled := p.labeled.set x.name.toList (p.series x.name ++ [readSample s]) }

section Lines

variable {m : MetricsHttp} {p : Parsed} {x : Metric} {s : Sample} {l : Line}

theorem record_plain (h : s.1 = []) :
    record p (.sample x s) = { p with plain := p.plain.set x.name.toList (toDouble s.2) } :=
  if_pos h

theorem record_labeled (h : s.1 ≠ []) :
    record p (.sample x s) =
      { p with labeled := p.labeled.set x.name.toList (p.series x.name ++ [readSample s]) } :=
  if_neg h

theorem name_notMem (x : Metric) {c : Char} (hc : isWord c = false) : c ∉ x.name.toList := by
  intro h
  rw [x.name_toList.1 c h] at hc
  cases hc

theorem line_comment {text : Text} : p.line ('#' :: text) = p := if_pos (.inr rfl)

theorem line_sample (h : s.Ok) : p.line (Line.sample x s).text = record p (.sample x s) := by
  obtain ⟨c, name, hname⟩ := List.exists_cons_of_ne_nil x.name_ne_nil
  have hread : ¬((Line.sample x s).text = [] ∨ (Line.sample x s).text.head? = some '#') := by
    have hc : c ≠ '#' := by
      rintro rfl
      exact name_notMem x (by decide : isWord '#' = false) (hname ▸ List.mem_cons_self)
    rw [Line.text, hname]
    simp [hc]
  have hspace : ' ' ∉ intText s.2 := by
    intro hmem
    rcases mem_intText hmem with h | h
    · cases h
    · cases h
  have hbrace : '{' ∉ x.name.toList := name_notMem x (by decide)
  unfold Parsed.line
  rw [if_neg hread, Line.text, splitLast_append hspace]
  dsimp only
  rw [floatLiteral_intText]
  dsimp only
  by_cases hs : s.1 = []
  · rw [record_plain hs, bracedLabels, if_pos hs, List.append_nil, splitFirst_of_notMem hbrace]
  · rw [record_labeled hs, bracedLabels, if_neg hs, splitFirst_append hbrace]
    dsimp only
    rw [labels_labelsText h.labels (by decide)]
    rfl

/-- The lines of the body. -/
theorem mem_metricsLines (h : l ∈ metricsLines m) :
    (∃ x, l = .help x) ∨ (∃ x, l = .type x) ∨ ∃ x, ∃ s ∈ samples m x, l = .sample x s := by
  obtain ⟨x, -, hl⟩ := List.mem_flatMap.mp h
  rcases List.mem_cons.mp hl with rfl | hl
  · exact .inl ⟨x, rfl⟩
  rcases List.mem_cons.mp hl with rfl | hl
  · exact .inr (.inl ⟨x, rfl⟩)
  · obtain ⟨s, hs, rfl⟩ := List.mem_map.mp hl
    exact .inr (.inr ⟨x, s, hs, rfl⟩)

theorem sample_mem_metricsLines : .sample x s ∈ metricsLines m ↔ s ∈ samples m x := by
  constructor
  · intro h
    rcases mem_metricsLines h with ⟨y, h⟩ | ⟨y, h⟩ | ⟨y, t, ht, h⟩
    · cases h
    · cases h
    · cases h
      exact ht
  · intro h
    refine List.mem_flatMap.mpr ⟨x, x.mem_all, ?_⟩
    exact List.mem_cons_of_mem _ (List.mem_cons_of_mem _ (List.mem_map_of_mem h))

theorem comment_print {mark name doc : String} (hmark : mark.toList.all isPrint = true)
    (hname : ∀ c ∈ name.toList, isWord c = true) (hdoc : ∀ c ∈ doc.toList, isPrint c = true) :
    ∀ c ∈ (mark ++ name ++ " " ++ doc).toList, isPrint c = true := by
  intro c hc
  simp only [String.toList_append, List.mem_append] at hc
  rcases hc with ((hc | hc) | hc) | hc
  · exact List.all_eq_true.mp hmark c hc
  · exact isPrint_of_isWord (hname c hc)
  · have hspace : " ".toList.all isPrint = true := by decide
    exact List.all_eq_true.mp hspace c hc
  · exact hdoc c hc

theorem line_print (h : l ∈ metricsLines m) : ∀ c ∈ l.text, isPrint c = true := by
  rcases mem_metricsLines h with ⟨x, rfl⟩ | ⟨x, rfl⟩ | ⟨x, s, hs, rfl⟩
  · exact comment_print (by decide) x.name_toList.1 x.doc_toList.1
  · exact comment_print (by decide) x.name_toList.1 x.kind_toList.1
  · exact sample_print (samples_ok m x s hs)

theorem line_text (h : l ∈ metricsLines m) : p.line l.text = record p l := by
  rcases mem_metricsLines h with ⟨x, rfl⟩ | ⟨x, rfl⟩ | ⟨x, s, hs, rfl⟩
  · have hmark : "# HELP ".toList = '#' :: " HELP ".toList := by decide
    simp only [Line.text, String.toList_append, hmark, List.cons_append]
    exact line_comment
  · have hmark : "# TYPE ".toList = '#' :: " TYPE ".toList := by decide
    simp only [Line.text, String.toList_append, hmark, List.cons_append]
    exact line_comment
  · exact line_sample (samples_ok m x s hs)

/-- Reading the body runs through its lines. -/
theorem parsePrometheus_metricsLines (m : MetricsHttp) :
    parsePrometheus (joinLines ((metricsLines m).map Line.text)) =
      (metricsLines m).foldl record ⟨.empty, .empty⟩ := by
  have hlines : ∀ text ∈ (metricsLines m).map Line.text, ∀ c ∈ text, isLineBreak c = false := by
    intro text htext c hc
    obtain ⟨l, hl, rfl⟩ := List.mem_map.mp htext
    exact isLineBreak_of_isPrint (line_print hl c hc)
  rw [parsePrometheus, splitLines_joinLines hlines, List.foldl_map]
  exact List.foldl_ext _ _ _ fun p l hl => line_text hl

end Lines

/-! ### The series of one metric -/

section Series

variable {m : MetricsHttp} {p : Parsed} {x : Metric} {v : ℤ}

theorem name_toList_injective {x y : Metric} (h : x.name.toList = y.name.toList) : x = y :=
  Metric.name_injective (String.toList_inj.mp h)

def sampleOf (x : Metric) : Line → Option Sample
  | .sample y s => if y = x then some s else none
  | _ => none

theorem record_value {l : Line} (h : ∀ s, l = .sample x s → s.1 = []) :
    (record p l).plain.get? x.name.toList =
      ((sampleOf x l).map fun s => toDouble s.2).or (p.plain.get? x.name.toList) := by
  cases l with
  | help | type => rfl
  | sample y s =>
      rw [sampleOf]
      by_cases hy : y = x
      · subst hy
        rw [record_plain (h s rfl), Dict.get?_set, if_pos rfl, if_pos rfl]
        rfl
      · rw [if_neg hy]
        have hname : x.name.toList ≠ y.name.toList := fun he => hy (name_toList_injective he).symm
        by_cases hs : s.1 = []
        · rw [record_plain hs, Dict.get?_set, if_neg hname]
          rfl
        · rw [record_labeled hs]
          rfl

theorem record_series {l : Line} (h : ∀ s, l = .sample x s → s.1 ≠ []) :
    (record p l).series x.name = p.series x.name ++ (sampleOf x l).toList.map readSample := by
  cases l with
  | help | type => exact (List.append_nil _).symm
  | sample y s =>
      rw [sampleOf]
      by_cases hy : y = x
      · subst hy
        rw [record_labeled (h s rfl), Parsed.series, Dict.get?_set, if_pos rfl, if_pos rfl]
        rfl
      · rw [if_neg hy, Option.toList_none, List.map_nil, List.append_nil]
        have hname : x.name.toList ≠ y.name.toList := fun he => hy (name_toList_injective he).symm
        by_cases hs : s.1 = []
        · rw [record_plain hs]
          rfl
        · rw [record_labeled hs, Parsed.series, Dict.get?_set, if_neg hname]
          rfl

theorem foldl_record_value {ls : List Line} (h : ∀ s, .sample x s ∈ ls → s.1 = []) :
    (ls.foldl record p).plain.get? x.name.toList =
      ((ls.filterMap (sampleOf x)).getLast?.map fun s => toDouble s.2).or
        (p.plain.get? x.name.toList) := by
  induction ls using List.reverseRecOn with
  | nil => rfl
  | append_singleton ls l ih =>
      have hl : ∀ s, l = .sample x s → s.1 = [] := fun s hs => h s (by simp [hs])
      have hls := ih fun s hs => h s (List.mem_append_left _ hs)
      rw [List.foldl_append, List.foldl_cons, List.foldl_nil, record_value hl, hls,
        List.filterMap_append, List.getLast?_append]
      cases hx : sampleOf x l with
      | none => simp [hx]
      | some s => simp [hx]

theorem foldl_record_series {ls : List Line} (h : ∀ s, .sample x s ∈ ls → s.1 ≠ []) :
    (ls.foldl record p).series x.name =
      p.series x.name ++ (ls.filterMap (sampleOf x)).map readSample := by
  induction ls using List.reverseRecOn with
  | nil => exact (List.append_nil _).symm
  | append_singleton ls l ih =>
      have hl : ∀ s, l = .sample x s → s.1 ≠ [] := fun s hs => h s (by simp [hs])
      have hls := ih fun s hs => h s (List.mem_append_left _ hs)
      rw [List.foldl_append, List.foldl_cons, List.foldl_nil, record_series hl, hls,
        List.filterMap_append, List.map_append, List.append_assoc]
      cases hx : sampleOf x l with
      | none => simp [hx]
      | some s => simp [hx]

/-- The samples of a metric stand together, in the part of the body that is about it. -/
theorem filterMap_sampleOf (m : MetricsHttp) (x : Metric) :
    (metricsLines m).filterMap (sampleOf x) = samples m x := by
  have hpart : ∀ y,
      (metricLines m y).filterMap (sampleOf x) = if y = x then samples m x else [] := by
    intro y
    have hsamples : ∀ ss : List Sample,
        (ss.map (Line.sample y)).filterMap (sampleOf x) = if y = x then ss else [] := by
      intro ss
      rw [List.filterMap_map]
      split
      · next hy =>
          have hsome : sampleOf x ∘ Line.sample y = some := funext fun s => if_pos hy
          rw [hsome, List.filterMap_some]
      · next hy =>
          refine List.filterMap_eq_nil_iff.mpr fun s _ => ?_
          exact if_neg hy
    rw [metricLines, List.filterMap_cons_none rfl, List.filterMap_cons_none rfl, hsamples]
    split
    · next hy => rw [hy]
    · rfl
  have hall : ∀ l : List Metric, l.Nodup → (l.flatMap (metricLines m)).filterMap (sampleOf x) =
      if x ∈ l then samples m x else [] := by
    intro l hl
    induction l with
    | nil => rfl
    | cons y l ih =>
        rw [List.nodup_cons] at hl
        rw [List.flatMap_cons, List.filterMap_append, hpart, ih hl.2]
        by_cases hy : y = x
        · rw [if_pos hy, if_neg (hy ▸ hl.1), if_pos (hy ▸ List.mem_cons_self), List.append_nil]
        · simp [hy, Ne.symm hy]
  rw [metricsLines, hall _ Metric.all_nodup, if_pos x.mem_all]

/-- The series hold the samples of every metric. -/
structure Keeps (m : MetricsHttp) (p : Parsed) : Prop where
  value : ∀ {x : Metric} {n : ℕ}, samples m x = [([], (n : ℤ))] → n < 2 ^ 53 →
    p.value x.name = n
  series : ∀ {x : Metric}, (∀ s ∈ samples m x, s.1 ≠ []) →
    p.series x.name = (samples m x).map readSample

theorem parsePrometheus_keeps (m : MetricsHttp) :
    Keeps m (parsePrometheus (joinLines ((metricsLines m).map Line.text))) := by
  rw [parsePrometheus_metricsLines]
  constructor
  · intro x n h hn
    have hplain : ∀ s, .sample x s ∈ metricsLines m → s.1 = [] := by
      intro s hs
      rw [sample_mem_metricsLines, h, List.mem_singleton] at hs
      rw [hs]
    rw [Parsed.value, foldl_record_value hplain, filterMap_sampleOf, h]
    exact toDouble_ofNat hn
  · intro x h
    have hlabeled : ∀ s, .sample x s ∈ metricsLines m → s.1 ≠ [] :=
      fun s hs => h s (sample_mem_metricsLines.mp hs)
    rw [foldl_record_series hlabeled, filterMap_sampleOf]
    rfl

end Series

/-! ### Drops and lookups -/

def globalCounters (m : MetricsHttp) : List UInt64 :=
  [m.stats.rxPackets, m.stats.rxBytes, m.stats.txPackets, m.stats.txBytes,
    m.stats.dropsParseError, m.stats.dropsNoBackend, m.stats.dropsBackendUnhealthy,
    m.stats.dropsConntrackFull, m.stats.conntrackHits, m.stats.conntrackMisses,
    m.stats.conntrackEvictions, m.conntrackActiveFlows, m.generation, m.lastRegenUs]

/-- The samples of a metric with one label. -/
def wordSamples (key : String) (l : List (String × UInt64)) : List Sample :=
  l.map fun e => ([label key e.1.toList], (e.2.toNat : ℤ))

theorem readSample_label (key : String) (value : Text) (z : ℤ) :
    (readSample ([label key value], z)).1.get? key.toList = some value := by
  have hkeys : ([label key value].map Prod.fst).Nodup := List.nodup_singleton _
  exact Dict.get?_ofList hkeys List.mem_cons_self

theorem Keeps.byLabel_entries {m : MetricsHttp} {p : Parsed} (h : Keeps m p) {x : Metric}
    {key : String} {l : List (String × UInt64)} (hx : samples m x = wordSamples key l)
    (hl : (l.map Prod.fst).Nodup) (hglobal : ∀ c ∈ globalCounters m, c.toNat < 2 ^ 53)
    (hsub : l.map Prod.snd ⊆ globalCounters m) :
    (byLabel key (p.series x.name)).entries = l.map fun e => (e.1.toList, (e.2.toNat : ℤ)) := by
  have hlabeled : ∀ s ∈ samples m x, s.1 ≠ [] := by
    intro s hs
    rw [hx] at hs
    obtain ⟨e, -, rfl⟩ := List.mem_map.mp hs
    exact List.cons_ne_nil _ _
  have hpairs : (p.series x.name).map (fun e => ((e.1.get? key.toList).getD "?".toList, e.2)) =
      l.map fun e => (e.1.toList, (e.2.toNat : ℤ)) := by
    rw [h.series hlabeled, hx, wordSamples, List.map_map, List.map_map]
    refine List.map_congr_left fun e he => ?_
    dsimp only [Function.comp_apply]
    rw [readSample_label]
    exact congrArg (Prod.mk _) (toDouble_ofNat (hglobal _ (hsub (List.mem_map_of_mem he))))
  have hkeys := hl.map (fun a b => String.toList_inj.mp : Function.Injective String.toList)
  rw [List.map_map] at hkeys
  rw [byLabel, hpairs, Dict.ofList_entries]
  rwa [List.map_map]

/-! ### The backends -/

section Backends

variable (m : MetricsHttp)

def fields : List Field :=
  [.up, .adminEnabled, .draining, .packets, .activeFlows, .flowsAssigned, .hcFailures]

theorem mem_fields (key : Field) : key ∈ fields := by cases key <;> decide

/-- The metric a field is read from. -/
def metricOf : Field → Metric
  | .up => .backendUp
  | .adminEnabled => .backendAdminEnabled
  | .draining => .backendDraining
  | .packets => .backendPacketsTotal
  | .activeFlows => .backendActiveFlows
  | .flowsAssigned => .backendFlowsAssignedTotal
  | .hcFailures => .backendHealthCheckFailuresTotal

/-- What a field is for a backend. -/
def fieldValue (x : Backend) : Field → ℕ
  | .up => if x.healthy then 1 else 0
  | .adminEnabled => if x.adminState = .enabled then 1 else 0
  | .draining => if x.adminState = .draining then 1 else 0
  | .packets => (m.backendStats x).packets.toNat
  | .activeFlows => (m.backendStats x).activeFlows.toNat
  | .flowsAssigned => (m.backendStats x).flowsAssigned.toNat
  | .hcFailures => (m.backendStats x).healthCheckFailures.toNat

theorem samples_metricOf (key : Field) :
    samples m (metricOf key) = MetricsText.perBackend m fun x => (fieldValue m x key : ℤ) := by
  cases key with
  | up | adminEnabled | draining =>
      simp only [metricOf, samples, fieldValue, Nat.cast_ite, Nat.cast_one, Nat.cast_zero]
  | packets | activeFlows | flowsAssigned | hcFailures => rfl

theorem readBackend_backendLabels (key : Field) (d : Dict ℤ (Dict Field ℤ)) (x : Backend) (z : ℤ) :
    readBackend key d (readSample (backendLabels x, z)) =
      putField key d x.id.toNat (toDouble z) := by
  have hkeys : ((backendLabels x).map Prod.fst).Nodup := by
    simp [backendLabels, label]
  have hid : (readSample (backendLabels x, z)).1.get? "backend_id".toList =
      some (natText x.id.toNat) := Dict.get?_ofList hkeys List.mem_cons_self
  rw [readBackend, hid, Option.bind_some, intLiteral_natText]
  rfl

/-- What the last loop of `summarize` writes, in its order. -/
def writes : List Write :=
  fields.flatMap fun key => m.backends.map fun x => ⟨key, x.id.toNat, toDouble (fieldValue m x key)⟩

theorem Keeps.summary_backends {m : MetricsHttp} {p : Parsed} (h : Keeps m p) :
    p.summary.backends = (writes m).foldl Write.put .empty := by
  have hlist : MetricsReader.perBackend = fields.map fun key => ((metricOf key).name, key) := rfl
  have hkey : ∀ (d : Dict ℤ (Dict Field ℤ)) (key : Field),
      (p.series (metricOf key).name).foldl (readBackend key) d =
        (m.backends.map fun x => ⟨key, x.id.toNat, toDouble (fieldValue m x key)⟩ :
          List Write).foldl Write.put d := by
    intro d key
    have hlabeled : ∀ s ∈ samples m (metricOf key), s.1 ≠ [] := by
      intro s hs
      rw [samples_metricOf] at hs
      obtain ⟨x, -, rfl⟩ := List.mem_map.mp hs
      exact List.cons_ne_nil _ _
    rw [h.series hlabeled, samples_metricOf, MetricsText.perBackend, List.map_map,
      List.foldl_map, List.foldl_map]
    exact List.foldl_ext _ _ _ fun d x _ => readBackend_backendLabels key d x _
  rw [Parsed.summary, hlist, List.foldl_map, writes, List.foldl_flatMap]
  exact List.foldl_ext _ _ _ fun d key _ => hkey d key

variable {m}

theorem cell_writes (hids : (m.backends.map Backend.id).Nodup) {x : Backend} (hx : x ∈ m.backends)
    (key : Field) :
    cell ((writes m).foldl Write.put .empty) x.id.toNat key =
      some (toDouble (fieldValue m x key)) := by
  refine cell_foldl_put ?_ (.inl ?_)
  · intro w hw hbid hkey
    obtain ⟨k, -, hw⟩ := List.mem_flatMap.mp hw
    obtain ⟨y, hy, rfl⟩ := List.mem_map.mp hw
    have hid : y.id = x.id := UInt32.toNat_inj.mp (Int.ofNat_inj.mp hbid)
    rw [← hkey, List.inj_on_of_nodup_map hids hy hx hid]
  · refine ⟨⟨key, x.id.toNat, toDouble (fieldValue m x key)⟩, ?_, rfl, rfl⟩
    exact List.mem_flatMap.mpr ⟨key, mem_fields key, List.mem_map_of_mem hx⟩

theorem get?_writes {bid : ℤ} (h : ((writes m).foldl Write.put .empty).get? bid ≠ none) :
    ∃ x ∈ m.backends, bid = x.id.toNat := by
  rcases get?_foldl_put h with ⟨w, hw, rfl⟩ | h
  · obtain ⟨k, -, hw⟩ := List.mem_flatMap.mp hw
    obtain ⟨y, hy, rfl⟩ := List.mem_map.mp hw
    exact ⟨y, hy, rfl⟩
  · exact absurd rfl h

end Backends

/-! ### The summary -/

def backendCounters (m : MetricsHttp) (x : Backend) : List UInt64 :=
  [(m.backendStats x).packets, (m.backendStats x).bytes, (m.backendStats x).activeFlows,
    (m.backendStats x).flowsAssigned, (m.backendStats x).healthCheckFailures]

/-- The counters behind the metrics. -/
def counters (m : MetricsHttp) : List UInt64 :=
  globalCounters m ++ m.backends.flatMap (backendCounters m)

/-- The summary says what the exporter had, and nothing about any other backend. -/
structure Tells (m : MetricsHttp) (s : Summary) : Prop where
  rxPackets : s.rxPackets = m.stats.rxPackets.toNat
  txPackets : s.txPackets = m.stats.txPackets.toNat
  rxBytes : s.rxBytes = m.stats.rxBytes.toNat
  txBytes : s.txBytes = m.stats.txBytes.toNat
  ctEvictions : s.ctEvictions = m.stats.conntrackEvictions.toNat
  activeFlows : s.activeFlows = m.conntrackActiveFlows.toNat
  tableGeneration : s.tableGeneration = m.generation.toNat
  regenLastUs : s.regenLastUs = m.lastRegenUs.toNat
  backendsEligible : s.backendsEligible = m.backends.countP eligible
  drops : s.drops.entries =
    [("parse_error".toList, (m.stats.dropsParseError.toNat : ℤ)),
      ("no_backend".toList, (m.stats.dropsNoBackend.toNat : ℤ)),
      ("backend_unhealthy".toList, (m.stats.dropsBackendUnhealthy.toNat : ℤ)),
      ("conntrack_full".toList, (m.stats.dropsConntrackFull.toNat : ℤ))]
  lookups : s.lookups.entries =
    [("hit".toList, (m.stats.conntrackHits.toNat : ℤ)),
      ("miss".toList, (m.stats.conntrackMisses.toNat : ℤ))]
  backends : ∀ x ∈ m.backends, ∃ d, s.backends.get? x.id.toNat = some d ∧
    ∀ key, d.get? key = some (fieldValue m x key : ℤ)
  only : ∀ bid, s.backends.get? bid ≠ none → ∃ x ∈ m.backends, bid = x.id.toNat

theorem fieldValue_lt {m : MetricsHttp} (h : ∀ c ∈ counters m, c.toNat < 2 ^ 53) {x : Backend}
    (hx : x ∈ m.backends) (key : Field) : fieldValue m x key < 2 ^ 53 := by
  have hflag : ∀ c : Prop, [Decidable c] → (if c then 1 else 0 : ℕ) < 2 ^ 53 := by
    intro c _
    split <;> decide
  have hstats : ∀ c ∈ backendCounters m x, c.toNat < 2 ^ 53 :=
    fun c hc => h c (List.mem_append_right _ (List.mem_flatMap.mpr ⟨x, hx, hc⟩))
  cases key with
  | up | adminEnabled | draining => exact hflag _
  | packets | activeFlows | flowsAssigned | hcFailures => exact hstats _ (by simp [backendCounters])

theorem Keeps.tells {m : MetricsHttp} {p : Parsed} (h : Keeps m p)
    (hcounters : ∀ c ∈ counters m, c.toNat < 2 ^ 53) (hids : (m.backends.map Backend.id).Nodup) :
    Tells m p.summary := by
  have hglobal : ∀ c ∈ globalCounters m, c.toNat < 2 ^ 53 :=
    fun c hc => hcounters c (List.mem_append_left _ hc)
  have heligible : m.backends.countP eligible < 2 ^ 53 :=
    (List.countP_le_length.trans (length_backends_le m)).trans_lt (by decide)
  constructor
  · exact h.value (x := .rxPacketsTotal) rfl (hglobal _ (by simp [globalCounters]))
  · exact h.value (x := .txPacketsTotal) rfl (hglobal _ (by simp [globalCounters]))
  · exact h.value (x := .rxBytesTotal) rfl (hglobal _ (by simp [globalCounters]))
  · exact h.value (x := .txBytesTotal) rfl (hglobal _ (by simp [globalCounters]))
  · exact h.value (x := .conntrackEvictionsTotal) rfl (hglobal _ (by simp [globalCounters]))
  · exact h.value (x := .conntrackActiveFlows) rfl (hglobal _ (by simp [globalCounters]))
  · exact h.value (x := .tableGeneration) rfl (hglobal _ (by simp [globalCounters]))
  · exact h.value (x := .tableRegenLastMicroseconds) rfl (hglobal _ (by simp [globalCounters]))
  · exact h.value (x := .backendsEligible) rfl heligible
  · exact h.byLabel_entries (x := .dropsTotal) (l := [("parse_error", m.stats.dropsParseError),
      ("no_backend", m.stats.dropsNoBackend), ("backend_unhealthy", m.stats.dropsBackendUnhealthy),
      ("conntrack_full", m.stats.dropsConntrackFull)]) rfl (by simp) hglobal
        (by simp [globalCounters])
  · exact h.byLabel_entries (x := .conntrackLookupsTotal) (l := [("hit", m.stats.conntrackHits),
      ("miss", m.stats.conntrackMisses)]) rfl (by simp) hglobal (by simp [globalCounters])
  · intro x hx
    rw [h.summary_backends]
    have hcell : ∀ key, cell ((writes m).foldl Write.put .empty) x.id.toNat key =
        some (fieldValue m x key : ℤ) := by
      intro key
      rw [cell_writes hids hx, toDouble_ofNat (fieldValue_lt hcounters hx key)]
    obtain ⟨d, hd, -⟩ := Option.bind_eq_some_iff.mp (hcell .up)
    refine ⟨d, hd, fun key => ?_⟩
    rw [← hcell key, cell, hd]
    rfl
  · intro bid hbid
    rw [h.summary_backends] at hbid
    exact get?_writes hbid

/-- No line of the body is cut off, and `summarize` recovers from it what was written. -/
theorem metrics_round_trip (m : MetricsHttp) (hcounters : ∀ c ∈ counters m, c.toNat < 2 ^ 53)
    (hids : (m.backends.map Backend.id).Nodup) :
    (buildMetricsBody m ⟨[], metricsBodyCap⟩).data = joinLines ((metricsLines m).map Line.text) ∧
      (buildMetricsBody m ⟨[], metricsBodyCap⟩).data.length < metricsBodyCap ∧
      Tells m (summarize (buildMetricsBody m ⟨[], metricsBodyCap⟩).data) := by
  rw [buildMetricsBody_data]
  exact ⟨rfl, length_metricsLines_lt m, (parsePrometheus_keeps m).tells hcounters hids⟩

/-- Two backends, the second one draining, and traffic on the first. -/
def sampleExporter : MetricsHttp where
  startTime := 1700000000
  tableSize := 65537
  configuredBackends := 2
  stats :=
    { rxPackets := 12, rxBytes := 840, txPackets := 9, txBytes := 970, dropsNoBackend := 3,
      conntrackHits := 8, conntrackMisses := 4, backends := [⟨9, 970, 1, 4, 0⟩, {}] }
  conntrackActiveFlows := 1
  generation := 3
  lastRegenUs := 4100
  bm :=
    let bm := (backendManagerAdd backendManagerCreate 0x0200000A 80).1
    (backendManagerSetAdminState (backendManagerAdd bm 0x0300000A 80).1 1 .draining).1

theorem metrics_round_trip_sample :
    sampleExporter.backends.length = 2 ∧
      Tells sampleExporter
        (summarize (buildMetricsBody sampleExporter ⟨[], metricsBodyCap⟩).data) := by
  have hcounters : (counters sampleExporter).all (fun c => c.toNat < 2 ^ 53) = true := by
    decide +kernel
  have hids : (sampleExporter.backends.map Backend.id).Nodup := by decide +kernel
  refine ⟨by decide +kernel, (metrics_round_trip sampleExporter (fun c hc => ?_) hids).2.2⟩
  exact of_decide_eq_true (List.all_eq_true.mp hcounters c hc)

end MaglevLb.MetricsRoundTrip
