import MaglevLb.OrderStatistic
import MaglevLb.Windows
import Mathlib.Algebra.Order.Floor.Ring
import Mathlib.Algebra.Order.Ring.Pow
import Mathlib.Analysis.SpecialFunctions.Log.Base
import Mathlib.Analysis.SpecialFunctions.Pow.Real
import Mathlib.Data.List.Sort

/-!
# The percentiles that are shown

A latency that is shown is the middle of a bucket. It is that of the sample of the right rank
among all that were reported within the window, for one process or for all load generators
together. The logarithm, the powers and the products round: the value is off by half a bucket
and what they are off by.
-/
namespace MaglevLb.Percentiles

open Windows SlidingWindow OrderStatistic

/-- What the floating-point operations give. -/
structure Floats where
  /-- the double for a product -/
  double : ℚ → ℚ
  pow : ℚ → ℕ → ℚ
  sqrt : ℚ → ℚ

/-- `HIST_BASE_MS * HIST_GROWTH**i * math.sqrt(HIST_GROWTH)` -/
def bucketMidMs (fl : Floats) (i : Fin histBuckets) : ℚ :=
  let lo := fl.double (histBaseMs * fl.pow histGrowth i)
  fl.double (lo * fl.sqrt histGrowth)

/-- `for i, c in enumerate(counts)`, with what was seen before. -/
def scan (target : ℚ) (counts : Counts) : ℤ → List (Fin histBuckets) → Option (Fin histBuckets)
  | _, [] => none
  | seen, i :: is =>
      if target ≤ (seen + counts i : ℤ) ∧ 0 < counts i then some i
      else scan target counts (seen + counts i) is

def lastBucket : Fin histBuckets := ⟨histBuckets - 1, by decide⟩

/-- `none` for an empty histogram. -/
def percentile (fl : Floats) (counts : Counts) (q : ℚ) : Option ℚ :=
  let total := ∑ i, counts i
  if total = 0 then none
  else
    let target := fl.double (q * total)
    some (bucketMidMs fl ((scan target counts 0 (List.finRange histBuckets)).getD lastBucket))

/-- The windows of some processes, added up. -/
def merged (windows : List LatencyWindow) : Counts := fun i => (windows.map fun w => w.counts i).sum

structure Summary where
  p50 : ℚ
  p95 : ℚ
  p99 : ℚ
  n : ℤ

/-- `round` is `round(v, 3)`. -/
def summary (fl : Floats) (round : ℚ → ℚ) (counts : Counts) : Summary where
  p50 := ((percentile fl counts (50 / 100)).map round).getD 0
  p95 := ((percentile fl counts (95 / 100)).map round).getD 0
  p99 := ((percentile fl counts (99 / 100)).map round).getD 0
  n := ∑ i, counts i

/-! ### The scan -/

theorem mem_before {pre is : List (Fin histBuckets)} {i : Fin histBuckets}
    (h : pre ++ i :: is = List.finRange histBuckets) (j : Fin histBuckets) :
    j ∈ pre ++ [i] ↔ j ≤ i := by
  have hsorted : (pre ++ i :: is).Pairwise (· < ·) := h ▸ List.pairwise_lt_finRange _
  have hall : j ∈ pre ++ i :: is := h ▸ List.mem_finRange j
  obtain ⟨-, hafter, hbefore⟩ := List.pairwise_append.mp hsorted
  constructor
  · intro hj
    rcases List.mem_append.mp hj with hj | hj
    · exact (hbefore j hj i List.mem_cons_self).le
    · exact (List.mem_singleton.mp hj).le
  · intro hle
    rcases List.mem_append.mp hall with hj | hj
    · exact List.mem_append_left _ hj
    · rcases List.mem_cons.mp hj with rfl | hj
      · exact List.mem_append_right _ List.mem_cons_self
      · exact absurd ((List.pairwise_cons.mp hafter).1 j hj) (not_lt.mpr hle)

/-- The buckets before those left have been added up. -/
theorem scan_eq_find? (target : ℚ) (counts : Counts) {pre is : List (Fin histBuckets)}
    (h : pre ++ is = List.finRange histBuckets) :
    scan target counts (pre.map counts).sum is =
      is.find? fun i => target ≤ (∑ j ∈ Finset.Iic i, counts j : ℤ) ∧ 0 < counts i := by
  induction is generalizing pre with
  | nil => rfl
  | cons i is ih =>
      have hsum : (pre.map counts).sum + counts i = ∑ j ∈ Finset.Iic i, counts j := by
        have hnodup : (pre ++ [i]).Nodup := by
          have hall : (pre ++ i :: is).Nodup := h ▸ List.nodup_finRange _
          rw [List.append_cons] at hall
          exact hall.of_append_left
        have hfinset : (pre ++ [i]).toFinset = Finset.Iic i := by
          ext j
          rw [List.mem_toFinset, mem_before h, Finset.mem_Iic]
        rw [← hfinset, List.sum_toFinset _ hnodup, List.map_append, List.sum_append,
          List.map_singleton, List.sum_singleton]
      have hsplit : (pre ++ [i]) ++ is = List.finRange histBuckets := by
        rw [← h, List.append_assoc, List.singleton_append]
      have hrest := ih hsplit
      rw [List.map_append, List.sum_append, List.map_singleton, List.sum_singleton, hsum] at hrest
      rw [scan, hsum]
      split
      · next hfound => rw [List.find?_cons, decide_eq_true hfound]
      · next hgo => rw [hrest, List.find?_cons, decide_eq_false hgo]

/-- Among samples that were counted by bucket, the scan finds the bucket of the one of the rank
that `q` asks for. -/
theorem scan_samples {log : ℚ → ℚ} (hlog : Monotone (bucketOf log)) {counts : Counts}
    {samples sorted : List ℚ} (hcounts : ∀ i, counts i = samplesIn log samples i)
    (hsorted : sorted.Pairwise (· ≤ ·)) (hperm : sorted.Perm samples) {k : ℕ}
    (hk : k < sorted.length) (target : ℚ) (htarget : ∀ m : ℕ, target ≤ m ↔ k < m) :
    scan target counts 0 (List.finRange histBuckets) = some (bucketOf log sorted[k]) := by
  have hreached (i : Fin histBuckets) :
      target ≤ (∑ j ∈ Finset.Iic i, counts j : ℤ) ↔ bucketOf log sorted[k] ≤ i := by
    rw [rank_le_iff hlog hsorted hperm hk, ← htarget]
    simp only [hcounts]
    norm_cast
  have hsome : 0 < counts (bucketOf log sorted[k]) := by
    rw [hcounts, Int.natCast_pos, samplesIn, List.countP_pos_iff]
    exact ⟨sorted[k], hperm.mem_iff.mp (List.getElem_mem hk), by simp⟩
  rw [← List.sum_nil, ← List.map_nil (f := counts), scan_eq_find? target counts (List.nil_append _),
    List.find?_eq_some_iff_getElem]
  refine ⟨decide_eq_true ⟨(hreached _).mpr le_rfl, hsome⟩, (bucketOf log sorted[k]).val, ?_, ?_, ?_⟩
  · rw [List.length_finRange]
    exact Fin.isLt _
  · rw [List.getElem_finRange]
    rfl
  · intro j hj
    rw [List.getElem_finRange]
    have hbelow : ¬ bucketOf log sorted[k] ≤ (⟨j, hj.trans (Fin.isLt _)⟩ : Fin histBuckets) :=
      not_le.mpr (Fin.lt_def.mpr hj)
    rw [Bool.not_eq_true']
    exact decide_eq_false fun h => hbelow ((hreached _).mp h.1)

theorem sum_of_samples {log : ℚ → ℚ} {counts : Counts} {samples : List ℚ}
    (hcounts : ∀ i, counts i = samplesIn log samples i) : ∑ i, counts i = samples.length := by
  have hsum : ∑ i, samplesIn log samples i = samples.length := sum_samplesIn samples
  simp only [hcounts]
  exact_mod_cast hsum

/-- The percentile of samples that were counted by bucket, by its rank. -/
theorem percentile_of_samples {log : ℚ → ℚ} (hlog : Monotone (bucketOf log)) (fl : Floats)
    {counts : Counts} {samples : List ℚ} (hcounts : ∀ i, counts i = samplesIn log samples i)
    {q : ℚ} (hpos : 0 < fl.double (q * samples.length))
    (hle : fl.double (q * samples.length) ≤ samples.length) :
    ∃ ms, (samples.mergeSort fun a b => a ≤ b)[⌈fl.double (q * samples.length)⌉₊ - 1]? = some ms ∧
      percentile fl counts q = some (bucketMidMs fl (bucketOf log ms)) := by
  let sorted := samples.mergeSort fun a b => a ≤ b
  have hperm : sorted.Perm samples := List.mergeSort_perm ..
  have hsorted : sorted.Pairwise (· ≤ ·) := List.pairwise_mergeSort' ..
  have hfirst := Nat.ceil_pos.mpr hpos
  have hlast := Nat.ceil_le.mpr hle
  have hk : ⌈fl.double (q * samples.length)⌉₊ - 1 < sorted.length := by
    rw [hperm.length_eq]
    omega
  have hscan := scan_samples hlog hcounts hsorted hperm hk (fl.double (q * samples.length))
    fun m => by
      rw [← Nat.ceil_le]
      omega
  have hn : (samples.length : ℤ) ≠ 0 := by omega
  refine ⟨_, List.getElem?_eq_getElem hk, ?_⟩
  rw [percentile, sum_of_samples hcounts, if_neg hn, Int.cast_natCast]
  exact congrArg (fun i => some (bucketMidMs fl (i.getD lastBucket))) hscan

/-! ### Rounding -/

/-- The quotient of the logarithms is off by `ε` at most, over the range of the buckets. -/
def LogWithin (ε : ℝ) (log : ℚ → ℚ) : Prop :=
  ∀ x : ℚ, 1 < x → x < histGrowth ^ histBuckets →
    |((log x / log histGrowth : ℚ) : ℝ) - Real.logb histGrowth x| ≤ ε

/-- The middle of bucket `i`, on the scale of the logarithm. -/
noncomputable def middle (i : Fin histBuckets) : ℝ :=
  histBaseMs * (histGrowth : ℝ) ^ (i + 1 / 2 : ℝ)

/-- The middle of a bucket is computed up to the fraction `η` of it. -/
def MiddleWithin (η : ℝ) (fl : Floats) : Prop :=
  ∀ i, |(bucketMidMs fl i : ℝ) - middle i| ≤ η * middle i

theorem one_lt_histGrowth : (1 : ℝ) < histGrowth := by norm_num [histGrowth]

theorem histGrowth_pos : (0 : ℝ) < histGrowth := one_pos.trans one_lt_histGrowth

theorem histBaseMs_pos : (0 : ℝ) < histBaseMs := by norm_num [histBaseMs]

theorem middle_pos (i : Fin histBuckets) : 0 < middle i :=
  mul_pos histBaseMs_pos (Real.rpow_pos_of_pos histGrowth_pos _)

theorem LogWithin.nonneg {ε : ℝ} {log : ℚ → ℚ} (h : LogWithin ε log) : 0 ≤ ε :=
  (abs_nonneg _).trans (h histGrowth (by decide +kernel) (by decide +kernel))

/-- The bucket of a quotient that is off by `ε`: its middle is off by a half and `ε`. -/
theorem min_floor_near {quotient : ℚ} {whole ε : ℝ} (hoff : |quotient - whole| ≤ ε)
    (hpos : 0 < whole) (hlast : whole < histBuckets) :
    |whole - ((min ⌊quotient⌋₊ (histBuckets - 1) : ℕ) + 1 / 2)| ≤ 1 / 2 + ε := by
  have hε : 0 ≤ ε := (abs_nonneg _).trans hoff
  obtain ⟨hbelow, habove⟩ := abs_le.mp hoff
  have hto : ((min ⌊quotient⌋₊ (histBuckets - 1) : ℕ) : ℝ) ≤ whole + ε := by
    refine (Nat.cast_le.mpr (min_le_left _ _)).trans ?_
    rcases le_or_gt 0 quotient with hquotient | hquotient
    · have hfloor : ((⌊quotient⌋₊ : ℚ) : ℝ) ≤ quotient := Rat.cast_le.mpr (Nat.floor_le hquotient)
      rw [Rat.cast_natCast] at hfloor
      linarith
    · rw [Nat.floor_of_nonpos hquotient.le, Nat.cast_zero]
      linarith
  have hfrom : whole ≤ ((min ⌊quotient⌋₊ (histBuckets - 1) : ℕ) : ℝ) + 1 + ε := by
    rcases min_choice ⌊quotient⌋₊ (histBuckets - 1) with hmin | hmin
    · have hfloor : (quotient : ℝ) < ((⌊quotient⌋₊ + 1 : ℚ) : ℝ) :=
        Rat.cast_lt.mpr (Nat.lt_floor_add_one quotient)
      push_cast at hfloor
      rw [hmin]
      linarith
    · have hbuckets : ((histBuckets - 1 : ℕ) : ℝ) + 1 = histBuckets := by norm_num [histBuckets]
      rw [hmin]
      linarith
  rw [abs_le]
  constructor <;> linarith

/-- On the scale of the logarithm, a value is off the middle of its bucket by a half and `ε`. -/
theorem bucketOf_near {ε : ℝ} {log : ℚ → ℚ} (hlog : LogWithin ε log) {ms : ℚ}
    (hlow : histBaseMs ≤ ms) (hhigh : ms < histBaseMs * histGrowth ^ histBuckets) :
    |Real.logb histGrowth ((ms / histBaseMs : ℚ) : ℝ) - ((bucketOf log ms).val + 1 / 2)| ≤
      1 / 2 + ε := by
  have hbase : 0 < histBaseMs := by decide +kernel
  rcases hlow.eq_or_lt with rfl | hlow
  · have hzero : (bucketOf log histBaseMs).val = 0 := by rw [bucketOf, if_pos le_rfl]
    rw [hzero, div_self hbase.ne', Rat.cast_one, Real.logb_one, Nat.cast_zero, zero_add, zero_sub,
      abs_neg, abs_of_pos one_half_pos]
    exact le_add_of_nonneg_right hlog.nonneg
  · have hx : 1 < ms / histBaseMs := (one_lt_div hbase).mpr hlow
    have hx' : ms / histBaseMs < histGrowth ^ histBuckets := (div_lt_iff₀' hbase).mpr hhigh
    rw [bucketOf, if_neg (not_le.mpr hlow)]
    refine min_floor_near (hlog _ hx hx') (Real.logb_pos one_lt_histGrowth ?_) ?_
    · exact_mod_cast hx
    · rw [Real.logb_lt_iff_lt_rpow one_lt_histGrowth (by exact_mod_cast one_pos.trans hx),
        Real.rpow_natCast]
      exact_mod_cast hx'

/-- A value and the middle of its bucket are apart by the factor of half a bucket and `ε`. -/
theorem middle_near {ε : ℝ} {log : ℚ → ℚ} (hlog : LogWithin ε log) {ms : ℚ}
    (hlow : histBaseMs ≤ ms) (hhigh : ms < histBaseMs * histGrowth ^ histBuckets) :
    middle (bucketOf log ms) ≤ (histGrowth : ℝ) ^ (1 / 2 + ε) * ms ∧
      ms ≤ (histGrowth : ℝ) ^ (1 / 2 + ε) * middle (bucketOf log ms) := by
  obtain ⟨hbelow, habove⟩ := abs_le.mp (bucketOf_near hlog hlow hhigh)
  have hx : (0 : ℝ) < (ms / histBaseMs : ℚ) := by
    rw [Rat.cast_div]
    exact div_pos (histBaseMs_pos.trans_le (Rat.cast_le.mpr hlow)) histBaseMs_pos
  have hms : (ms : ℝ) =
      histBaseMs * (histGrowth : ℝ) ^ Real.logb histGrowth ((ms / histBaseMs : ℚ) : ℝ) := by
    rw [Real.rpow_logb histGrowth_pos one_lt_histGrowth.ne' hx, Rat.cast_div,
      mul_div_cancel₀ _ histBaseMs_pos.ne']
  rw [hms, middle, mul_left_comm, mul_left_comm _ _ (_ ^ (_ + _)), ← Real.rpow_add histGrowth_pos,
    ← Real.rpow_add histGrowth_pos]
  constructor
  · refine mul_le_mul_of_nonneg_left (Real.rpow_le_rpow_of_exponent_le ?_ ?_) histBaseMs_pos.le
    · exact one_lt_histGrowth.le
    · linarith
  · refine mul_le_mul_of_nonneg_left (Real.rpow_le_rpow_of_exponent_le ?_ ?_) histBaseMs_pos.le
    · exact one_lt_histGrowth.le
    · linarith

/-- The value shown for a bucket and the values in it. -/
theorem bucketMidMs_near {ε η : ℝ} {log : ℚ → ℚ} {fl : Floats} (hlog : LogWithin ε log)
    (hη : η ≤ 1) (hmid : MiddleWithin η fl) {ms : ℚ} (hlow : histBaseMs ≤ ms)
    (hhigh : ms < histBaseMs * histGrowth ^ histBuckets) :
    (bucketMidMs fl (bucketOf log ms) : ℝ) ≤ (1 + η) * (histGrowth : ℝ) ^ (1 / 2 + ε) * ms ∧
      (1 - η) * ms ≤ (histGrowth : ℝ) ^ (1 / 2 + ε) * bucketMidMs fl (bucketOf log ms) := by
  obtain ⟨hmiddle, hvalue⟩ := middle_near hlog hlow hhigh
  generalize bucketOf log ms = i at *
  obtain ⟨hfrom, hto⟩ := abs_le.mp (hmid i)
  have hfactor : 0 < (histGrowth : ℝ) ^ (1 / 2 + ε) := Real.rpow_pos_of_pos histGrowth_pos _
  have hnonneg : 0 ≤ η := nonneg_of_mul_nonneg_left ((abs_nonneg _).trans (hmid i)) (middle_pos i)
  constructor
  · calc (bucketMidMs fl i : ℝ) ≤ (1 + η) * middle i := by linarith
      _ ≤ (1 + η) * ((histGrowth : ℝ) ^ (1 / 2 + ε) * ms) :=
          mul_le_mul_of_nonneg_left hmiddle (by linarith)
      _ = _ := (mul_assoc _ _ _).symm
  · calc (1 - η) * ms ≤ (1 - η) * ((histGrowth : ℝ) ^ (1 / 2 + ε) * middle i) :=
          mul_le_mul_of_nonneg_left hvalue (sub_nonneg.mpr hη)
      _ = (histGrowth : ℝ) ^ (1 / 2 + ε) * ((1 - η) * middle i) := mul_left_comm _ _ _
      _ ≤ (histGrowth : ℝ) ^ (1 / 2 + ε) * bucketMidMs fl i :=
          mul_le_mul_of_nonneg_left (by linarith) hfactor.le

/-! ### What is shown -/

/-- The samples of the reports that came in within the window. -/
def inWindow (windowMs : ℚ) (s : Live) : List ℚ :=
  match s.pushed.getLast? with
  | none => []
  | some last => (since (last.1 - windowMs) s.pushed).flatMap fun p => p.2.samples

theorem counts_inWindow {log : ℚ → ℚ} {windowMs : ℚ} {samples : List ℚ} {s : Live}
    (h : Sound log windowMs samples s) (i : Fin histBuckets) :
    s.window.counts i = samplesIn log (inWindow windowMs s) i := by
  unfold inWindow
  split
  · next hnone =>
      have hparts := h.slid.parts 0 fun p hp => by
        rw [hnone] at hp
        cases hp
      rw [h.slid.counts, hparts, List.getLast?_eq_none_iff.mp hnone]
      rfl
  · next last hlast =>
      have hparts := h.slid.parts (last.1 - windowMs) fun p hp => by
        rw [h.width, Option.mem_unique hp hlast]
      rw [h.slid.counts, hparts, since_filed, total_filed, samplesIn, List.countP_flatMap, total,
        Nat.cast_list_sum, List.map_map]
      refine congrArg List.sum (List.map_congr_left fun p hp => ?_)
      rw [h.counted.bucket p.2 (h.slid.taken p (List.mem_of_mem_filter hp))]
      rfl

theorem counts_merged {log : ℚ → ℚ} {windowMs : ℚ} {ss : List Live}
    (h : ∀ s ∈ ss, ∃ samples, Sound log windowMs samples s) (i : Fin histBuckets) :
    merged (ss.map Live.window) i = samplesIn log (ss.flatMap (inWindow windowMs)) i := by
  rw [merged, samplesIn, List.countP_flatMap, Nat.cast_list_sum, List.map_map, List.map_map]
  refine congrArg List.sum (List.map_congr_left fun s hs => ?_)
  obtain ⟨samples, hs⟩ := h s hs
  exact counts_inWindow hs i

theorem runs_sound (log : ℚ → ℚ) (windowMs : ℚ) (runs : List (List Event))
    (hruns : ∀ es ∈ runs, (es.filterMap Event.time).Pairwise (· ≤ ·)) :
    ∃ ss, List.Forall₂ (fun es s => run log (start windowMs) es = some s) runs ss ∧
      ∀ s ∈ ss, ∃ samples, Sound log windowMs samples s := by
  induction runs with
  | nil => exact ⟨[], .nil, List.forall_mem_nil _⟩
  | cons es runs ih =>
      obtain ⟨hes, hruns⟩ := List.forall_mem_cons.mp hruns
      obtain ⟨s, hs, hsound⟩ := run_sound (start_sound windowMs) hes fun p hp => nomatch hp
      obtain ⟨ss, hss, hall⟩ := ih hruns
      exact ⟨s :: ss, .cons hs hss, List.forall_mem_cons.mpr ⟨⟨_, hsound⟩, hall⟩⟩

/-- For load generators that record, report and are read in any interleaving, each one's reports
in the order of their times: the number shown over their windows together is that of the samples
reported within them; a percentile is there exactly if there is one; and it is the middle of the
bucket of the sample of rank `⌈q * n⌉` among all these, where `q * n` is rounded too. If that one
is in the range of the buckets, the two are apart by the factor of half a bucket and what the
operations round. -/
theorem percentile_exact {log : ℚ → ℚ} (hlog : Monotone (bucketOf log)) (fl : Floats)
    (windowMs : ℚ) (runs : List (List Event))
    (hruns : ∀ es ∈ runs, (es.filterMap Event.time).Pairwise (· ≤ ·)) :
    ∃ ss, List.Forall₂ (fun es s => run log (start windowMs) es = some s) runs ss ∧
      let counts := merged (ss.map Live.window)
      let samples := ss.flatMap (inWindow windowMs)
      (∀ round, (summary fl round counts).n = samples.length) ∧
      ∀ q, let target := fl.double (q * samples.length)
        (samples = [] → percentile fl counts q = none) ∧
        (0 < target → target ≤ samples.length → ∃ ms v,
          (samples.mergeSort fun a b => a ≤ b)[⌈target⌉₊ - 1]? = some ms ∧
          percentile fl counts q = some v ∧ v = bucketMidMs fl (bucketOf log ms) ∧
          ∀ ε η, LogWithin ε log → η ≤ 1 → MiddleWithin η fl →
            histBaseMs ≤ ms → ms < histBaseMs * histGrowth ^ histBuckets →
            v ≤ (1 + η) * (histGrowth : ℝ) ^ (1 / 2 + ε) * ms ∧
              (1 - η) * ms ≤ (histGrowth : ℝ) ^ (1 / 2 + ε) * v) := by
  obtain ⟨ss, hss, hsound⟩ := runs_sound log windowMs runs hruns
  refine ⟨ss, hss, ?_⟩
  intro counts samples
  have hcounts : ∀ i, counts i = samplesIn log samples i := counts_merged hsound
  have htotal := sum_of_samples hcounts
  refine ⟨fun _ => htotal, fun q => ?_⟩
  intro target
  refine ⟨fun hnone => ?_, fun hpos hle => ?_⟩
  · rw [percentile, htotal, hnone]
    rfl
  · obtain ⟨ms, hms, hshown⟩ := percentile_of_samples hlog fl hcounts hpos hle
    exact ⟨ms, _, hms, hshown, rfl,
      fun ε η hε hη hmid hlow hhigh => bucketMidMs_near hε hη hmid hlow hhigh⟩

/-! ### A logarithm on the rationals -/

theorem le_growthLog_iff {x : ℚ} (hx : 1 < x) (i : ℕ) :
    (i : ℚ) ≤ growthLog x ↔ histGrowth ^ i ≤ x := by
  have hgrowth : 1 < histGrowth := by decide +kernel
  rw [growthLog, Nat.cast_le]
  constructor
  · intro hi
    have hgreatest := Nat.findGreatest_spec (P := fun i => histGrowth ^ i ≤ x)
      (Nat.zero_le ⌈(x - 1) / (histGrowth - 1)⌉₊) (by rw [pow_zero]; exact hx.le)
    exact (pow_le_pow_right₀ hgrowth.le hi).trans hgreatest
  · intro hpow
    refine Nat.le_findGreatest ?_ hpow
    -- Bernoulli's inequality bounds the exponent
    have hbernoulli : 1 + i * (histGrowth - 1) ≤ histGrowth ^ i :=
      one_add_mul_sub_le_pow (by decide +kernel) i
    rw [← Nat.cast_le (α := ℚ)]
    refine le_trans ?_ (Nat.le_ceil _)
    rw [le_div_iff₀ (sub_pos.mpr hgrowth)]
    linarith

theorem growthLog_histGrowth : growthLog histGrowth = 1 := by decide +kernel

theorem bucketOf_growthLog_monotone : Monotone (bucketOf growthLog) := by
  have hbase : 0 < histBaseMs := by decide +kernel
  intro a b hab
  by_cases ha : a ≤ histBaseMs
  · rw [bucketOf, if_pos ha]
    exact Fin.mk_le_of_le_val (Nat.zero_le _)
  · have hb : ¬ b ≤ histBaseMs := fun hb => ha (hab.trans hb)
    have hx := (one_lt_div hbase).mpr (not_le.mp ha)
    have hle : growthLog (a / histBaseMs) ≤ growthLog (b / histBaseMs) := by
      have hxy := div_le_div_of_nonneg_right hab hbase.le
      refine (le_growthLog_iff (hx.trans_le hxy) _).mpr ?_
      exact ((le_growthLog_iff hx _).mp le_rfl).trans hxy
    rw [Fin.le_def, bucketOf, if_neg ha, bucketOf, if_neg hb]
    refine min_le_min_right _ (Nat.floor_mono (div_le_div_of_nonneg_right hle ?_))
    exact growthLog_histGrowth.symm ▸ zero_le_one

/-- It leaves out what is behind the point. -/
theorem growthLog_within : LogWithin 1 growthLog := by
  intro x hx _
  obtain ⟨n, hn⟩ : ∃ n : ℕ, growthLog x = n := ⟨_, by rw [growthLog]⟩
  have hpos : (0 : ℝ) < x := by exact_mod_cast one_pos.trans hx
  have hbelow : (n : ℝ) ≤ Real.logb histGrowth x := by
    rw [Real.le_logb_iff_rpow_le one_lt_histGrowth hpos, Real.rpow_natCast]
    exact_mod_cast (le_growthLog_iff hx n).mp hn.ge
  have habove : Real.logb histGrowth x < (n : ℝ) + 1 := by
    rw [Real.logb_lt_iff_lt_rpow one_lt_histGrowth hpos]
    have hnext : ¬ ((n + 1 : ℕ) : ℚ) ≤ growthLog x := by
      rw [hn, Nat.cast_le]
      exact Nat.not_succ_le_self n
    rw [le_growthLog_iff hx, not_le] at hnext
    exact_mod_cast hnext
  rw [growthLog_histGrowth, div_one, hn, Rat.cast_natCast, abs_le]
  constructor <;> linarith

/-- All but the root is exact. -/
def sampleFloats : Floats where
  double := id
  pow := fun x i => x ^ i
  sqrt := fun _ => 104 / 100

theorem sampleFloats_within : MiddleWithin (1 / 1000) sampleFloats := by
  intro i
  have hroot : (bucketMidMs sampleFloats i : ℝ) - middle i =
      histBaseMs * (histGrowth : ℝ) ^ i.val * (104 / 100 - Real.sqrt histGrowth) := by
    rw [middle, Real.rpow_add histGrowth_pos, Real.rpow_natCast, ← Real.sqrt_eq_rpow, bucketMidMs]
    simp only [sampleFloats, id_eq]
    push_cast
    ring
  have hmiddle : middle i = histBaseMs * (histGrowth : ℝ) ^ i.val * Real.sqrt histGrowth := by
    rw [middle, Real.rpow_add histGrowth_pos, Real.rpow_natCast, ← Real.sqrt_eq_rpow, mul_assoc]
  have hfactor : 0 < histBaseMs * (histGrowth : ℝ) ^ i.val :=
    mul_pos histBaseMs_pos (pow_pos histGrowth_pos _)
  have hlow : (1039 / 1000 : ℝ) ≤ Real.sqrt histGrowth :=
    Real.le_sqrt_of_sq_le (by norm_num [histGrowth])
  have hhigh : Real.sqrt histGrowth ≤ 104 / 100 :=
    Real.sqrt_le_iff.mpr ⟨by norm_num, by norm_num [histGrowth]⟩
  rw [hroot, hmiddle, abs_mul, abs_of_pos hfactor, abs_of_nonneg (by linarith), mul_left_comm]
  refine mul_le_mul_of_nonneg_left ?_ hfactor.le
  linarith

/-- Two load generators, of which one has reported 1/10 ms and 1/5 ms and the other 1/2 ms. -/
def sampleRuns : List (List Event) :=
  [[.record (1 / 10), .record (1 / 5), .takeDelta, .push 0 0],
    [.record (1 / 2), .takeDelta, .push 3 0]]

/-- The median of the three is shown, up to half a bucket and the rounding. -/
theorem percentile_exact_median :
    ∃ ss, List.Forall₂ (fun es s => run growthLog (start 5000) es = some s) sampleRuns ss ∧
      ∃ v, percentile sampleFloats (merged (ss.map Live.window)) (1 / 2) = some v ∧
        v ≤ (1 + 1 / 1000) * (histGrowth : ℝ) ^ (1 / 2 + 1 : ℝ) * (1 / 5 : ℚ) ∧
          (1 - 1 / 1000) * ((1 / 5 : ℚ) : ℝ) ≤ (histGrowth : ℝ) ^ (1 / 2 + 1 : ℝ) * v := by
  obtain ⟨ss, hss, -, hshown⟩ := percentile_exact bucketOf_growthLog_monotone sampleFloats 5000
    sampleRuns (by decide +kernel)
  have hends : sampleRuns.map (run growthLog (start 5000)) = ss.map some := by
    rw [← List.forall₂_eq_eq_eq, List.forall₂_map_left_iff, List.forall₂_map_right_iff]
    exact hss
  have hsamples : ss.flatMap (inWindow 5000) = [1 / 10, 1 / 5, 1 / 2] := by
    calc ss.flatMap (inWindow 5000)
        = (ss.map some).flatMap fun s => (s.map (inWindow 5000)).getD [] := by
          rw [List.flatMap_map]
          rfl
      _ = [1 / 10, 1 / 5, 1 / 2] := by
          rw [← hends]
          decide +kernel
  obtain ⟨-, hsome⟩ := hshown (1 / 2)
  rw [hsamples] at hsome
  obtain ⟨ms, v, hms, hv, -, hbounds⟩ := hsome (by decide +kernel) (by decide +kernel)
  obtain rfl : ms = 1 / 5 := by
    rw [List.mergeSort_of_pairwise (by decide +kernel)] at hms
    exact (Option.some.inj (hms.symm.trans (by decide +kernel)))
  exact ⟨ss, hss, v, hv, hbounds 1 (1 / 1000) growthLog_within (by norm_num) sampleFloats_within
    (by decide +kernel) (by decide +kernel)⟩

end MaglevLb.Percentiles
