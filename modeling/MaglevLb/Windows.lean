import MaglevLb.EventRun
import MaglevLb.LineText
import MaglevLb.OrderedDict
import MaglevLb.SlidingWindow
import Mathlib.Algebra.BigOperators.Fin
import Mathlib.Algebra.Order.BigOperators.Group.List
import Mathlib.Data.Nat.Find
import Mathlib.Data.Rat.Floor

/-!
# Latency histograms and their windows

A child process counts its samples in a histogram and reports the buckets touched since
its last report, under their numbers as text. The bridge adds a report to its window,
and subtracts it again when it has grown too old. Numbers are exact; the logarithm that
chooses a bucket is a parameter.
-/
namespace MaglevLb.Windows

open LineText OrderedDict SlidingWindow

/-! ### The histogram -/

def histBaseMs : ℚ := 5 / 100

def histGrowth : ℚ := 108 / 100

def histBuckets : ℕ := 200

/-- `min(int(log(ms / base) / log(growth)), 199)`; a logarithm is not negative here. -/
def bucketOf (log : ℚ → ℚ) (ms : ℚ) : Fin histBuckets :=
  if ms ≤ histBaseMs then ⟨0, by decide⟩
  else
    ⟨min ⌊log (ms / histBaseMs) / log histGrowth⌋₊ (histBuckets - 1),
      lt_of_le_of_lt (Nat.min_le_right _ _) (by decide)⟩

/-- A report: bucket numbers as text, and how often each was touched. -/
abbrev Delta := Dict Text ℕ

structure LogHistogram where
  counts : Fin histBuckets → ℕ
  delta : Dict (Fin histBuckets) ℕ

def LogHistogram.new : LogHistogram := ⟨fun _ => 0, .empty⟩

def LogHistogram.pending (h : LogHistogram) (i : Fin histBuckets) : ℕ := (h.delta.get? i).getD 0

def LogHistogram.record (log : ℚ → ℚ) (h : LogHistogram) (ms : ℚ) : LogHistogram :=
  let i := bucketOf log ms
  ⟨Function.update h.counts i (h.counts i + 1), h.delta.set i (h.pending i + 1)⟩

def LogHistogram.takeDelta (h : LogHistogram) : Delta × LogHistogram :=
  (.ofList (h.delta.entries.map fun e => (natText e.1, e.2)), ⟨h.counts, .empty⟩)

/-! ### The window -/

abbrev Counts := Fin histBuckets → ℤ

/-- `none` when a key is no number. -/
def mergeEntry (counts : Counts) (e : Text × ℕ) : Option Counts :=
  (intLiteral e.1).map fun i =>
    if h : i.toNat < histBuckets ∧ 0 ≤ i then
      Function.update counts ⟨i.toNat, h.1⟩ (counts ⟨i.toNat, h.1⟩ + e.2)
    else counts

def mergeInto (counts : Counts) (delta : Delta) : Option Counts :=
  delta.entries.foldlM mergeEntry counts

/-- An index into a list of Python; a negative one counts from the end. -/
def listIndex (i : ℤ) : Option (Fin histBuckets) :=
  let j := if i < 0 then i + histBuckets else i
  if h : j.toNat < histBuckets ∧ 0 ≤ j then some ⟨j.toNat, h.1⟩ else none

/-- `none` when a key is no number or out of range. -/
def subtractEntry (counts : Counts) (e : Text × ℕ) : Option Counts :=
  ((intLiteral e.1).bind listIndex).map fun i => Function.update counts i (counts i - e.2)

structure LatencyWindow where
  windowMs : ℚ
  parts : List (ℚ × Delta)
  counts : Counts

/-- `while self.parts and self.parts[0][0] < cutoff` -/
def dropOld (cutoff : ℚ) : List (ℚ × Delta) → Counts → Option (List (ℚ × Delta) × Counts)
  | [], counts => some ([], counts)
  | (t, old) :: parts, counts =>
      if t < cutoff then (old.entries.foldlM subtractEntry counts).bind (dropOld cutoff parts)
      else some ((t, old) :: parts, counts)

/-- `if delta:` -/
def LatencyWindow.add (w : LatencyWindow) (t : ℚ) (delta : Delta) : Option LatencyWindow :=
  if delta.entries = [] then some w
  else (mergeInto w.counts delta).map fun counts =>
    { w with parts := w.parts ++ [(t, delta)], counts := counts }

/-- `none` when it raises. -/
def LatencyWindow.push (w : LatencyWindow) (t : ℚ) (delta : Delta) : Option LatencyWindow :=
  (w.add t delta).bind fun w => (dropOld (t - w.windowMs) w.parts w.counts).map fun r =>
    { w with parts := r.1, counts := r.2 }

/-- `n` of the summary. -/
def LatencyWindow.n (w : LatencyWindow) : ℤ := ∑ i, w.counts i

/-! ### A child and the bridge -/

/-- A report with the samples it is about. -/
structure Report where
  delta : Delta
  samples : List ℚ

/-- The reports taken so far and the samples since the last; the reports pushed so far with
their times. -/
structure Live where
  hist : LogHistogram
  window : LatencyWindow
  taken : List Report
  samples : List ℚ
  pushed : List (ℚ × Report)

def start (windowMs : ℚ) : Live := ⟨.new, ⟨windowMs, [], fun _ => 0⟩, [], [], []⟩

inductive Event where
  | record (ms : ℚ)
  | takeDelta
  /-- Report number `k` comes in. -/
  | push (t : ℚ) (k : ℕ)

def Event.time : Event → Option ℚ
  | .push t _ => some t
  | _ => none

def Event.sample : Event → Option ℚ
  | .record ms => some ms
  | _ => none

def step (log : ℚ → ℚ) (s : Live) : Event → Option Live
  | .record ms => some { s with hist := s.hist.record log ms, samples := s.samples ++ [ms] }
  | .takeDelta =>
      let (delta, hist) := s.hist.takeDelta
      some { s with hist := hist, taken := s.taken ++ [⟨delta, s.samples⟩], samples := [] }
  | .push t k =>
      match s.taken[k]? with
      | none => some s
      | some r =>
          (s.window.push t r.delta).map fun w =>
            { s with window := w, pushed := s.pushed ++ [(t, r)] }

def run (log : ℚ → ℚ) (s : Live) (es : List Event) : Option Live := es.foldlM (step log) s

/-! ### Reports -/

/-- What a report says about a bucket. -/
def Delta.bucket (d : Delta) (i : Fin histBuckets) : ℕ := (d.get? (natText i)).getD 0

/-- Every key is the number of a bucket. -/
def Delta.Valid (d : Delta) : Prop := ∀ e ∈ d.entries, ∃ j : Fin histBuckets, e.1 = natText j

theorem natText_injective {m n : ℕ} (h : natText m = natText n) : m = n := by
  have hread := congrArg natLiteral h
  rw [natLiteral_natText, natLiteral_natText] at hread
  exact Option.some.inj hread

theorem mergeEntry_natText (counts : Counts) (j : Fin histBuckets) (v : ℕ) :
    mergeEntry counts (natText j, v) = some (Function.update counts j (counts j + 1 * v)) := by
  rw [mergeEntry, intLiteral_natText, Option.map_some, dif_pos ⟨j.isLt, Int.natCast_nonneg _⟩,
    Int.one_mul]
  rfl

theorem subtractEntry_natText (counts : Counts) (j : Fin histBuckets) (v : ℕ) :
    subtractEntry counts (natText j, v) = some (Function.update counts j (counts j + -1 * v)) := by
  have hindex : listIndex j.val = some j := by
    have hnonneg : ¬ (j.val : ℤ) < 0 := by omega
    simp [listIndex, hnonneg]
  rw [subtractEntry, intLiteral_natText, Option.bind_some, hindex, Option.map_some, Int.neg_mul,
    Int.one_mul]
  rfl

/-- Entry by entry, a report is added to each bucket, or subtracted from it. -/
theorem foldlM_entries {change : Counts → Text × ℕ → Option Counts} {sign : ℤ}
    (hchange : ∀ counts (j : Fin histBuckets) v,
      change counts (natText j, v) = some (Function.update counts j (counts j + sign * v)))
    {entries : List (Text × ℕ)} (hnd : (entries.map Prod.fst).Nodup)
    (hvalid : ∀ e ∈ entries, ∃ j : Fin histBuckets, e.1 = natText j) (counts : Counts) :
    entries.foldlM change counts = some fun i => counts i +
      sign * (((entries.find? fun e => e.1 = natText i).map Prod.snd).getD 0 : ℕ) := by
  induction entries generalizing counts with
  | nil => simp
  | cons e entries ih =>
      obtain ⟨j, hj⟩ := hvalid e List.mem_cons_self
      obtain ⟨k, v⟩ := e
      obtain rfl : k = natText j := hj
      obtain ⟨hnew, hrest⟩ := List.nodup_cons.mp hnd
      rw [List.foldlM_cons, hchange, Option.bind_eq_bind, Option.bind_some,
        ih hrest fun e he => hvalid e (List.mem_cons_of_mem _ he)]
      congr 1
      funext i
      rw [List.find?_cons]
      by_cases hi : i = j
      · subst hi
        have hnone : entries.find? (fun e => e.1 = natText i) = none := by
          refine List.find?_eq_none.mpr fun e he => ?_
          simpa using fun heq : e.1 = natText i => hnew (List.mem_map.mpr ⟨e, he, heq⟩)
        simp [hnone]
      · have hne : natText j ≠ natText i := fun h => hi (Fin.ext (natText_injective h)).symm
        simp [hi, hne]

theorem mergeInto_eq {d : Delta} (h : d.Valid) (counts : Counts) :
    mergeInto counts d = some fun i => counts i + d.bucket i := by
  rw [mergeInto, foldlM_entries mergeEntry_natText d.nodup h]
  simp only [Int.one_mul]
  rfl

theorem subtract_eq {d : Delta} (h : d.Valid) (counts : Counts) :
    d.entries.foldlM subtractEntry counts = some fun i => counts i - d.bucket i := by
  rw [foldlM_entries subtractEntry_natText d.nodup h]
  simp only [Int.neg_mul, Int.one_mul, ← Int.sub_eq_add_neg]
  rfl

/-! ### The histogram over a run -/

variable {log : ℚ → ℚ}

/-- How many of some samples belong in a bucket. -/
def samplesIn (log : ℚ → ℚ) (samples : List ℚ) (i : Fin histBuckets) : ℕ :=
  samples.countP fun ms => bucketOf log ms = i

theorem samplesIn_concat (samples : List ℚ) (ms : ℚ) (i : Fin histBuckets) :
    samplesIn log (samples ++ [ms]) i =
      samplesIn log samples i + if i = bucketOf log ms then 1 else 0 := by
  rw [samplesIn, List.countP_append, List.countP_singleton, samplesIn]
  by_cases hi : i = bucketOf log ms
  · simp [hi]
  · simp [hi, Ne.symm hi]

theorem sum_samplesIn (samples : List ℚ) : ∑ i, samplesIn log samples i = samples.length := by
  induction samples using List.reverseRecOn with
  | nil => simp [samplesIn]
  | append_singleton samples ms ih =>
      simp only [samplesIn_concat, Finset.sum_add_distrib, ih, Finset.sum_ite_eq',
        Finset.mem_univ, if_true, List.length_append, List.length_singleton]

theorem record_pending (h : LogHistogram) (ms : ℚ) (i : Fin histBuckets) :
    (h.record log ms).pending i = h.pending i + if i = bucketOf log ms then 1 else 0 := by
  unfold LogHistogram.record LogHistogram.pending
  dsimp only
  rw [Dict.get?_set]
  split
  · next hi => simp [hi]
  · simp

theorem record_counts (h : LogHistogram) (ms : ℚ) (i : Fin histBuckets) :
    (h.record log ms).counts i = h.counts i + if i = bucketOf log ms then 1 else 0 := by
  unfold LogHistogram.record
  dsimp only
  rw [Function.update_apply]
  split
  · next hi => rw [hi]
  · rfl

theorem takeDelta_entries (h : LogHistogram) :
    h.takeDelta.1.entries = h.delta.entries.map fun e => (natText e.1, e.2) := by
  refine Dict.ofList_entries ?_
  rw [List.map_map]
  have hkeys : (h.delta.entries.map Prod.fst).Nodup := h.delta.nodup
  have hinj : Function.Injective fun i : Fin histBuckets => natText i :=
    fun i j hij => Fin.ext (natText_injective hij)
  have hmap := hkeys.map hinj
  rwa [List.map_map] at hmap

theorem takeDelta_bucket (h : LogHistogram) (i : Fin histBuckets) :
    h.takeDelta.1.bucket i = h.pending i := by
  unfold Delta.bucket LogHistogram.pending
  rw [Dict.get?, takeDelta_entries, List.find?_map, Dict.get?, Option.map_map]
  have hsame : ((fun e : Text × ℕ => decide (e.1 = natText i)) ∘
      fun e : Fin histBuckets × ℕ => (natText e.1, e.2)) = fun e => decide (e.1 = i) := by
    funext e
    rw [Function.comp_apply, decide_eq_decide]
    exact ⟨fun heq => Fin.ext (natText_injective heq), fun heq => by rw [heq]⟩
  rw [hsame]
  rfl

theorem takeDelta_valid (h : LogHistogram) : h.takeDelta.1.Valid := by
  intro e he
  rw [takeDelta_entries] at he
  obtain ⟨e', -, rfl⟩ := List.mem_map.mp he
  exact ⟨e'.1, rfl⟩

/-- The pending report is about the samples since the last one, and with the reports taken it
makes up the counts. -/
structure Counted (log : ℚ → ℚ) (s : Live) : Prop where
  pending : ∀ i, s.hist.pending i = samplesIn log s.samples i
  valid : ∀ r ∈ s.taken, r.delta.Valid
  bucket : ∀ r ∈ s.taken, ∀ i, r.delta.bucket i = samplesIn log r.samples i
  counts : ∀ i, (s.taken.map fun r => r.delta.bucket i).sum + s.hist.pending i = s.hist.counts i

theorem Counted.record {s : Live} (h : Counted log s) (ms : ℚ) :
    Counted log { s with hist := s.hist.record log ms, samples := s.samples ++ [ms] } := by
  refine ⟨fun i => ?_, h.valid, h.bucket, fun i => ?_⟩
  · rw [record_pending, samplesIn_concat, h.pending]
  · rw [record_pending, record_counts, ← h.counts, Nat.add_assoc]

theorem Counted.takeDelta {s : Live} (h : Counted log s) :
    Counted log { s with
      hist := s.hist.takeDelta.2, taken := s.taken ++ [⟨s.hist.takeDelta.1, s.samples⟩],
      samples := [] } := by
  refine ⟨fun i => rfl, fun r hr => ?_, fun r hr i => ?_, fun i => ?_⟩
  · rcases List.mem_append.mp hr with hr | hr
    · exact h.valid r hr
    · rw [List.mem_singleton.mp hr]
      exact takeDelta_valid s.hist
  · rcases List.mem_append.mp hr with hr | hr
    · exact h.bucket r hr i
    · rw [List.mem_singleton.mp hr]
      exact (takeDelta_bucket s.hist i).trans (h.pending i)
  · have hcounts := h.counts i
    rw [← takeDelta_bucket] at hcounts
    simpa [LogHistogram.takeDelta, LogHistogram.pending, Dict.get?, Dict.empty] using hcounts

/-! ### The window over a run -/

/-- What a list of reports says about a bucket. -/
def bucketTotal (i : Fin histBuckets) (parts : List (ℚ × Delta)) : ℤ :=
  total (fun d => (d.bucket i : ℤ)) parts

theorem dropOld_eq {cutoff : ℚ} {parts : List (ℚ × Delta)} (h : ∀ p ∈ parts, p.2.Valid)
    (counts : Counts) :
    dropOld cutoff parts counts = some ((expire cutoff parts).2,
      fun i => counts i - bucketTotal i (expire cutoff parts).1) := by
  induction parts generalizing counts with
  | nil => simp [dropOld, expire, bucketTotal, total, List.span_eq_takeWhile_dropWhile]
  | cons p parts ih =>
      obtain ⟨t, old⟩ := p
      unfold dropOld
      simp only [expire, List.span_eq_takeWhile_dropWhile] at ih ⊢
      split
      · next hold =>
          rw [subtract_eq (h _ List.mem_cons_self), Option.bind_some,
            ih fun p hp => h p (List.mem_cons_of_mem _ hp),
            List.takeWhile_cons_of_pos (by simpa using hold),
            List.dropWhile_cons_of_pos (by simpa using hold)]
          simp only [bucketTotal, total, List.map_cons, List.sum_cons, Int.sub_sub]
      · next hnew =>
          rw [List.takeWhile_cons_of_neg (by simpa using hnew),
            List.dropWhile_cons_of_neg (by simpa using hnew)]
          simp [bucketTotal, total]

/-- The pushes that are put into the window: a report that is empty is not. -/
def filed (pushed : List (ℚ × Report)) : List (ℚ × Delta) :=
  (pushed.filter fun p => p.2.delta.entries ≠ []).map (Prod.map id Report.delta)

theorem filed_append (pushed pushed' : List (ℚ × Report)) :
    filed (pushed ++ pushed') = filed pushed ++ filed pushed' := by
  rw [filed, List.filter_append, List.map_append]
  rfl

theorem mem_filed {pushed : List (ℚ × Report)} {p : ℚ × Delta} (h : p ∈ filed pushed) :
    ∃ r, (p.1, r) ∈ pushed ∧ r.delta = p.2 := by
  obtain ⟨⟨t, r⟩, hq, rfl⟩ := List.mem_map.mp h
  exact ⟨r, List.mem_of_mem_filter hq, rfl⟩

theorem filed_ordered {pushed : List (ℚ × Report)} (h : Ordered pushed) : Ordered (filed pushed) :=
  List.Pairwise.map _ (fun _ _ hle => hle) (List.Pairwise.filter _ h)

/-- One push: the report is added, and what has grown too old is subtracted. -/
theorem push_eq {w : LatencyWindow} {t : ℚ} {r : Report} (hparts : ∀ p ∈ w.parts, p.2.Valid)
    (hr : r.delta.Valid) (hcounts : ∀ i, w.counts i = bucketTotal i w.parts) :
    ∃ w', w.push t r.delta = some w' ∧ w'.windowMs = w.windowMs ∧
      w'.parts = (expire (t - w.windowMs) (w.parts ++ filed [(t, r)])).2 ∧
      ∀ i, w'.counts i = bucketTotal i w'.parts := by
  have hadded : w.add t r.delta = some ⟨w.windowMs, w.parts ++ filed [(t, r)],
      fun i => bucketTotal i (w.parts ++ filed [(t, r)])⟩ := by
    unfold LatencyWindow.add
    split
    · next hempty =>
        have hnone : filed [(t, r)] = [] := by simp [filed, hempty]
        rw [hnone, List.append_nil, ← funext hcounts]
    · next hsome =>
        have hone : filed [(t, r)] = [(t, r.delta)] := by simp [filed, hsome]
        have hsum : (fun i => w.counts i + (r.delta.bucket i : ℤ)) =
            fun i => bucketTotal i (w.parts ++ [(t, r.delta)]) := by
          funext i
          rw [hcounts, bucketTotal, bucketTotal, total_append]
          simp [total]
        rw [mergeInto_eq hr, hone, Option.map_some, hsum]
  have hvalid : ∀ p ∈ w.parts ++ filed [(t, r)], p.2.Valid := by
    intro p hp
    rcases List.mem_append.mp hp with hp | hp
    · exact hparts p hp
    · obtain ⟨r', hr', hdelta⟩ := mem_filed hp
      cases List.mem_singleton.mp hr'
      exact hdelta ▸ hr
  let expired := expire (t - w.windowMs) (w.parts ++ filed [(t, r)])
  refine ⟨⟨w.windowMs, expired.2, fun i => bucketTotal i (w.parts ++ filed [(t, r)]) -
    bucketTotal i expired.1⟩, ?_, rfl, rfl, fun i => total_expire ..⟩
  rw [LatencyWindow.push, hadded, Option.bind_some, dropOld_eq hvalid]
  rfl

/-- The reports pushed so far were taken, and the window holds those that are not empty and
not older than the last time less its width. -/
structure Slid (s : Live) : Prop where
  taken : ∀ p ∈ s.pushed, p.2 ∈ s.taken
  ordered : Ordered s.pushed
  parts : ∀ cutoff, (∀ p ∈ s.pushed.getLast?, p.1 - s.window.windowMs = cutoff) →
    s.window.parts = since cutoff (filed s.pushed)
  counts : ∀ i, s.window.counts i = bucketTotal i s.window.parts

theorem Slid.push {s : Live} (h : Slid s) (hc : Counted log s) {t : ℚ} {r : Report}
    (hr : r ∈ s.taken) (ht : ∀ p ∈ s.pushed.getLast?, p.1 ≤ t) :
    ∃ w, s.window.push t r.delta = some w ∧ w.windowMs = s.window.windowMs ∧
      Slid { s with window := w, pushed := s.pushed ++ [(t, r)] } := by
  have hlast : ∃ cutoff ≤ t - s.window.windowMs,
      s.window.parts = since cutoff (filed s.pushed) := by
    cases hp : s.pushed.getLast? with
    | none => exact ⟨_, le_rfl, h.parts _ fun p hp' => by rw [hp] at hp'; cases hp'⟩
    | some p =>
        refine ⟨p.1 - s.window.windowMs, sub_le_sub_right (ht p hp) _, h.parts _ fun q hq => ?_⟩
        cases Option.some.inj (hp.symm.trans hq)
        rfl
  obtain ⟨cutoff, hle, hparts⟩ := hlast
  have hvalid : ∀ p ∈ s.window.parts, p.2.Valid := by
    intro p hp
    rw [hparts] at hp
    obtain ⟨r', hr', hdelta⟩ := mem_filed (List.mem_of_mem_filter hp)
    exact hdelta ▸ hc.valid r' (h.taken _ hr')
  have hordered : Ordered (s.pushed ++ [(t, r)]) := h.ordered.concat ht r
  obtain ⟨w, hpush, hwidth, hheld, hcounts⟩ := push_eq (t := t) hvalid (hc.valid r hr) h.counts
  refine ⟨w, hpush, hwidth, fun p hp => ?_, hordered, fun cutoff' hcutoff => ?_, hcounts⟩
  · rcases List.mem_append.mp hp with hp | hp
    · exact h.taken p hp
    · rw [List.mem_singleton.mp hp]
      exact hr
  · have hnow : t - s.window.windowMs = cutoff' := by
      rw [← hwidth]
      exact hcutoff _ List.getLast?_concat
    rw [hheld, hparts, hnow, expire_append (hnow ▸ hle), filed_append]
    rw [← filed_append]
    exact filed_ordered hordered

/-! ### Whole runs -/

/-- All samples so far. -/
def Live.recorded (s : Live) : List ℚ := s.taken.flatMap Report.samples ++ s.samples

/-- The state after some events, of which the samples are known. -/
structure Sound (log : ℚ → ℚ) (windowMs : ℚ) (samples : List ℚ) (s : Live) : Prop where
  counted : Counted log s
  slid : Slid s
  width : s.window.windowMs = windowMs
  recorded : s.recorded = samples

theorem start_sound (windowMs : ℚ) : Sound log windowMs [] (start windowMs) where
  counted := ⟨fun _ => rfl, by simp [start], by simp [start], fun _ => rfl⟩
  slid := ⟨by simp [start], List.Pairwise.nil, fun _ _ => rfl, fun _ => rfl⟩
  width := rfl
  recorded := rfl

/-- An event that does not come before the last push keeps this and raises nothing. -/
theorem step_sound {windowMs : ℚ} {samples : List ℚ} {s : Live} {e : Event}
    (h : Sound log windowMs samples s)
    (ht : ∀ p ∈ s.pushed.getLast?, ∀ t ∈ e.time, p.1 ≤ t) :
    ∃ s', step log s e = some s' ∧ Sound log windowMs (samples ++ e.sample.toList) s' ∧
      ∀ p ∈ s'.pushed.getLast?, p ∈ s.pushed.getLast? ∨ p.1 ∈ e.time := by
  obtain ⟨hc, hs, hwidth, hrecorded⟩ := h
  cases e with
  | record ms =>
      refine ⟨_, rfl, ⟨hc.record ms, ⟨hs.taken, hs.ordered, hs.parts, hs.counts⟩, hwidth, ?_⟩,
        fun p hp => .inl hp⟩
      rw [← hrecorded, Live.recorded, Live.recorded, List.append_assoc]
      rfl
  | takeDelta =>
      refine ⟨_, rfl, ⟨hc.takeDelta, ⟨fun p hp => List.mem_append_left _ (hs.taken p hp),
        hs.ordered, hs.parts, hs.counts⟩, hwidth, ?_⟩, fun p hp => .inl hp⟩
      rw [← hrecorded]
      simp [Live.recorded, Event.sample]
  | push t k =>
      cases hk : s.taken[k]? with
      | none =>
          refine ⟨s, by simp only [step, hk], ⟨hc, hs, hwidth, ?_⟩, fun p hp => .inl hp⟩
          rw [hrecorded]
          exact (List.append_nil _).symm
      | some r =>
          obtain ⟨w, hpush, hw, hslid⟩ := hs.push hc (List.mem_of_getElem? hk)
            fun p hp => ht p hp t rfl
          refine ⟨{ s with window := w, pushed := s.pushed ++ [(t, r)] },
            by simp only [step, hk, hpush, Option.map_some],
            ⟨⟨hc.pending, hc.valid, hc.bucket, hc.counts⟩, hslid, hw.trans hwidth, ?_⟩,
            fun p hp => ?_⟩
          · rw [← hrecorded]
            exact (List.append_nil _).symm
          · rw [List.getLast?_concat] at hp
            cases hp
            exact .inr rfl

theorem run_sound {windowMs : ℚ} {samples : List ℚ} {s : Live} {es : List Event}
    (h : Sound log windowMs samples s) (hes : (es.filterMap Event.time).Pairwise (· ≤ ·))
    (ht : ∀ p ∈ s.pushed.getLast?, ∀ t ∈ es.filterMap Event.time, p.1 ≤ t) :
    ∃ s', run log s es = some s' ∧
      Sound log windowMs (samples ++ es.filterMap Event.sample) s' := by
  induction es generalizing s samples with
  | nil => exact ⟨s, rfl, by simpa using h⟩
  | cons e es ih =>
      have htimes : (e :: es).filterMap Event.time = e.time.toList ++ es.filterMap Event.time := by
        simp only [List.filterMap_eq_flatMap_toList, List.flatMap_cons]
      have hsamples : (e :: es).filterMap Event.sample =
          e.sample.toList ++ es.filterMap Event.sample := by
        simp only [List.filterMap_eq_flatMap_toList, List.flatMap_cons]
      rw [htimes] at hes ht
      obtain ⟨-, hrest, hfirst⟩ := List.pairwise_append.mp hes
      obtain ⟨s₁, hstep, hsound, hlast⟩ := step_sound h fun p hp t hte =>
        ht p hp t (List.mem_append_left _ (Option.mem_toList.mpr hte))
      obtain ⟨s', hrun, hs'⟩ := ih hsound hrest fun p hp t hte => by
        rcases hlast p hp with hp | hp
        · exact ht p hp t (List.mem_append_right _ hte)
        · exact hfirst p.1 (Option.mem_toList.mpr hp) t hte
      rw [hsamples, ← List.append_assoc]
      refine ⟨s', ?_, hs'⟩
      rw [run, List.foldlM_cons, hstep]
      exact hrun

/-- Empty reports say nothing. -/
theorem total_filed (i : Fin histBuckets) (items : List (ℚ × Report)) :
    bucketTotal i (filed items) = total (fun r => (r.delta.bucket i : ℤ)) items := by
  induction items with
  | nil => rfl
  | cons p items ih =>
      have hsplit : filed (p :: items) = filed [p] ++ filed items := filed_append [p] items
      have hone : bucketTotal i (filed [p]) = p.2.delta.bucket i := by
        by_cases hempty : p.2.delta.entries = []
        · simp [filed, hempty, bucketTotal, total, Delta.bucket, Dict.get?]
        · simp [filed, hempty, bucketTotal, total]
      rw [hsplit, bucketTotal, total_append, ← bucketTotal, ← bucketTotal, hone, ih]
      simp [total]

theorem since_filed (cutoff : ℚ) (pushed : List (ℚ × Report)) :
    since cutoff (filed pushed) = filed (since cutoff pushed) := by
  rw [filed, since_map, since, since, List.filter_comm]
  rfl

theorem sum_total {items : List (ℚ × Report)}
    (h : ∀ p ∈ items, ∀ i, p.2.delta.bucket i = samplesIn log p.2.samples i) :
    ∑ i, total (fun r => (r.delta.bucket i : ℤ)) items =
      total (fun r => (r.samples.length : ℤ)) items := by
  induction items with
  | nil => simp [total]
  | cons p items ih =>
      have hrest := ih fun q hq => h q (List.mem_cons_of_mem _ hq)
      simp only [total, List.map_cons, List.sum_cons, Finset.sum_add_distrib] at hrest ⊢
      have hone : ∑ i, (p.2.delta.bucket i : ℤ) = p.2.samples.length := by
        simp only [h p List.mem_cons_self]
        exact_mod_cast sum_samplesIn p.2.samples
      rw [hone, hrest]

theorem Counted.counts_eq {s : Live} (h : Counted log s) (i : Fin histBuckets) :
    s.hist.counts i = samplesIn log s.recorded i := by
  have htaken : (s.taken.map fun r => r.delta.bucket i) =
      s.taken.map fun r => samplesIn log r.samples i :=
    List.map_congr_left fun r hr => h.bucket r hr i
  rw [← h.counts, h.pending, htaken, Live.recorded, samplesIn, samplesIn, List.countP_append,
    List.countP_flatMap]
  rfl

/-- For every interleaving of a child's records and reports with pushes of its reports in the
order of their times: nothing raises; the reports taken and the pending one add up to the
counts, which count the samples; and the window holds exactly what the reports pushed since
the last time less its width say, so its size is the number of their samples. -/
theorem samples_conserved (log : ℚ → ℚ) (windowMs : ℚ) (es : List Event)
    (hes : (es.filterMap Event.time).Pairwise (· ≤ ·)) :
    ∃ s, run log (start windowMs) es = some s ∧
      (∀ i, (s.taken.map fun r => r.delta.bucket i).sum + s.hist.pending i = s.hist.counts i ∧
        s.hist.counts i = samplesIn log (es.filterMap Event.sample) i) ∧
      ∀ last ∈ s.pushed.getLast?,
        let retained := since (last.1 - windowMs) s.pushed
        (∀ i, s.window.counts i = total (fun r => (r.delta.bucket i : ℤ)) retained ∧
          0 ≤ s.window.counts i) ∧
        s.window.n = total (fun r => (r.samples.length : ℤ)) retained := by
  obtain ⟨s, hrun, hs⟩ := run_sound (start_sound windowMs) hes fun p hp => nomatch hp
  refine ⟨s, hrun, fun i => ⟨hs.counted.counts i, ?_⟩, fun last hlast => ?_⟩
  · rw [hs.counted.counts_eq, hs.recorded]
    rfl
  · have hcutoff : ∀ p ∈ s.pushed.getLast?, p.1 - s.window.windowMs = last.1 - windowMs := by
      intro p hp
      rw [hs.width, Option.mem_unique hp hlast]
    have hcounts (i : Fin histBuckets) : s.window.counts i =
        total (fun r => (r.delta.bucket i : ℤ)) (since (last.1 - windowMs) s.pushed) := by
      rw [hs.slid.counts, hs.slid.parts _ hcutoff, since_filed, total_filed]
    refine ⟨fun i => ⟨hcounts i, ?_⟩, ?_⟩
    · rw [hcounts]
      refine List.sum_nonneg fun x hx => ?_
      obtain ⟨p, -, rfl⟩ := List.mem_map.mp hx
      exact Int.natCast_nonneg _
    · have hbucket : ∀ p ∈ since (last.1 - windowMs) s.pushed, ∀ i,
          p.2.delta.bucket i = samplesIn log p.2.samples i := fun p hp =>
        hs.counted.bucket p.2 (hs.slid.taken p (List.mem_of_mem_filter hp))
      rw [LatencyWindow.n, ← sum_total hbucket]
      exact Finset.sum_congr rfl fun i _ => hcounts i

/-- How often the growth fits into a value: a logarithm that can be computed. -/
def growthLog (x : ℚ) : ℚ :=
  Nat.findGreatest (fun i => histGrowth ^ i ≤ x) ⌈(x - 1) / (histGrowth - 1)⌉₊

/-- Two reports, of which the first is too old when the second comes in. -/
def sampleEvents : List Event :=
  [.record 1, .takeDelta, .push 0 0, .record (1 / 2), .record (1 / 5), .takeDelta, .push 6000 1]

theorem samples_conserved_expired :
    ∃ s last, run growthLog (start 5000) sampleEvents = some s ∧ last ∈ s.pushed.getLast? ∧
      s.window.n = total (fun r => (r.samples.length : ℤ)) (since (last.1 - 5000) s.pushed) ∧
      (since (last.1 - 5000) s.pushed).map (fun p => p.2.samples) = [[1 / 2, 1 / 5]] := by
  have hrun : (run growthLog (start 5000) sampleEvents).any (fun s =>
      s.pushed.getLast?.any fun last =>
        (since (last.1 - 5000) s.pushed).map (fun p => p.2.samples) = [[1 / 2, 1 / 5]]) = true := by
    decide +kernel
  obtain ⟨s, hs, hany⟩ := (Option.any_eq_true _ _).mp hrun
  obtain ⟨last, hlast, hretained⟩ := (Option.any_eq_true _ _).mp hany
  obtain ⟨s', hs', -, hwindow⟩ :=
    samples_conserved growthLog 5000 sampleEvents (by decide +kernel)
  cases Option.some.inj (hs.symm.trans hs')
  exact ⟨s, last, hs, hlast, (hwindow last hlast).2, of_decide_eq_true hretained⟩

end MaglevLb.Windows
