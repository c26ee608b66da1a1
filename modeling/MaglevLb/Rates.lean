import MaglevLb.ClientAccounts
import MaglevLb.LineText
import MaglevLb.OrderedDict
import MaglevLb.SlidingWindow
import Mathlib.Algebra.BigOperators.Field
import Mathlib.Algebra.Order.Field.Rat

/-!
# Rates from counters

A child reports counters that only grow, and the bridge turns them into rates: it keeps the
reports of the last second and one that is older, and divides the difference of the newest and
the oldest by the time between them. A counter that goes back starts the window over.
Numbers are exact.
-/
namespace MaglevLb.Rates

open LineText OrderedDict SlidingWindow

/-! ### The window -/

/-- Counters by name. -/
abbrev Flat := Dict Text ℚ

/-- `counters.get(k, 0)` -/
def value (counters : Flat) (k : Text) : ℚ := (counters.get? k).getD 0

structure RateWindow where
  windowMs : ℚ
  samples : List (ℚ × Flat)

def RateWindow.new (windowMs : ℚ) : RateWindow := ⟨windowMs, []⟩

/-- `any(counters.get(k, 0) < v for k, v in last.items())` -/
def backwards (last counters : Flat) : Bool := last.entries.any fun e => value counters e.1 < e.2

/-- The samples that are kept when new counters come in. -/
def restart (counters : Flat) (samples : List (ℚ × Flat)) : List (ℚ × Flat) :=
  match samples.getLast? with
  | none => samples
  | some last => if backwards last.2 counters then [] else samples

/-- `while len(self.samples) > 2 and self.samples[1][0] <= t_ms - self.window_ms` -/
def dropOlder (cutoff : ℚ) : List (ℚ × Flat) → List (ℚ × Flat)
  | a :: b :: c :: samples =>
      if b.1 ≤ cutoff then dropOlder cutoff (b :: c :: samples) else a :: b :: c :: samples
  | samples => samples

def RateWindow.push (w : RateWindow) (t : ℚ) (counters : Flat) : RateWindow :=
  { w with samples := dropOlder (t - w.windowMs) (restart counters w.samples ++ [(t, counters)]) }

def RateWindow.clear (w : RateWindow) : RateWindow := { w with samples := [] }

/-- Per second. -/
def RateWindow.rate (w : RateWindow) (key : Text) : ℚ :=
  if w.samples.length < 2 then 0
  else
    match w.samples.head?, w.samples.getLast? with
    | some (t₀, c₀), some (t₁, c₁) =>
        let dt := t₁ - t₀
        if dt ≤ 0 then 0 else max 0 ((value c₁ key - value c₀ key) * 1000 / dt)
    | _, _ => 0

/-- `{"counters": {...}, name: {...}, ...}` as one dictionary. -/
def flatten {ν : Type*} (counters : Dict Text ν) (nested : List (Text × Dict Text ν)) :
    Dict Text ν :=
  (nested.flatMap fun n => n.2.entries.map fun e => (n.1 ++ ':' :: e.1, e.2)).foldl
    (fun flat e => flat.set e.1 e.2) counters

/-! ### One push -/

/-- Every counter is at least what it was. -/
def Grown (c c' : Flat) : Prop := ∀ k, value c k ≤ value c' k

/-- No counter is negative. -/
def Nonneg (c : Flat) : Prop := ∀ e ∈ c.entries, 0 ≤ e.2

theorem value_eq {c : Flat} {k : Text} {v : ℚ} (h : (k, v) ∈ c.entries) : value c k = v := by
  rw [value, Dict.get?_eq_some.mpr h, Option.getD_some]

theorem value_eq_zero {c : Flat} {k : Text} (h : k ∉ c.entries.map Prod.fst) : value c k = 0 := by
  rw [value, Dict.get?_eq_none.mpr h, Option.getD_none]

theorem Nonneg.value {c : Flat} (h : Nonneg c) (k : Text) : 0 ≤ value c k := by
  by_cases hk : k ∈ c.entries.map Prod.fst
  · obtain ⟨⟨k, v⟩, hmem, rfl⟩ := List.mem_map.mp hk
    rw [value_eq hmem]
    exact h _ hmem
  · rw [value_eq_zero hk]

theorem grown_of_not_backwards {c c' : Flat} (hc' : Nonneg c') (h : backwards c c' = false) :
    Grown c c' := by
  intro k
  by_cases hk : k ∈ c.entries.map Prod.fst
  · obtain ⟨⟨k, v⟩, hmem, rfl⟩ := List.mem_map.mp hk
    have hle := List.any_eq_false.mp h _ hmem
    rw [value_eq hmem]
    simpa using hle
  · rw [value_eq_zero hk]
    exact hc'.value k

/-- Along the samples every counter grows. -/
def Rising (samples : List (ℚ × Flat)) : Prop := samples.Pairwise fun p q => Grown p.2 q.2

theorem Rising.head_last {samples : List (ℚ × Flat)} (h : Rising samples) {base last : ℚ × Flat}
    (hbase : base ∈ samples.head?) (hlast : last ∈ samples.getLast?) : Grown base.2 last.2 := by
  obtain ⟨tail, rfl⟩ := List.head?_eq_some_iff.mp hbase
  rcases List.mem_cons.mp (List.mem_of_getLast? hlast) with rfl | hmem
  · exact fun k => le_rfl
  · exact (List.pairwise_cons.mp h).1 last hmem

theorem Rising.restart_concat {samples : List (ℚ × Flat)} (h : Rising samples) {c : Flat}
    (hc : Nonneg c) (t : ℚ) : Rising (restart c samples ++ [(t, c)]) := by
  unfold restart
  split
  · next hnone =>
      rw [List.getLast?_eq_none_iff.mp hnone]
      exact List.pairwise_singleton ..
  · next last hlast =>
      split
      · exact List.pairwise_singleton ..
      · next hgrown =>
          rw [Bool.not_eq_true] at hgrown
          obtain ⟨init, rfl⟩ := List.getLast?_eq_some_iff.mp hlast
          have hnew := grown_of_not_backwards hc hgrown
          refine List.pairwise_append.mpr ⟨h, List.pairwise_singleton .., fun p hp q hq k => ?_⟩
          rw [List.mem_singleton.mp hq]
          rcases List.mem_append.mp hp with hp | hp
          · exact ((List.pairwise_append.mp h).2.2 p hp last List.mem_cons_self k).trans (hnew k)
          · rw [List.mem_singleton.mp hp]
            exact hnew k

theorem dropOlder_sublist (cutoff : ℚ) (samples : List (ℚ × Flat)) :
    (dropOlder cutoff samples).Sublist samples := by
  fun_induction dropOlder cutoff samples with
  | case1 a b c samples h ih => exact ih.cons a
  | case2 => exact List.Sublist.refl _
  | case3 => exact List.Sublist.refl _

theorem Rising.push {w : RateWindow} (h : Rising w.samples) {c : Flat} (hc : Nonneg c) (t : ℚ) :
    Rising (w.push t c).samples :=
  (h.restart_concat hc t).sublist (dropOlder_sublist ..)

/-- As long as the newest sample is after the cutoff, the loop leaves the newest of the others
that is not, and all that came later. -/
theorem dropOlder_eq {cutoff : ℚ} {samples : List (ℚ × Flat)} (h : Ordered samples)
    (hlast : ∀ p ∈ samples.getLast?, cutoff < p.1) :
    dropOlder cutoff samples = sinceBase cutoff samples := by
  fun_induction dropOlder cutoff samples with
  | case1 a b c samples hb ih =>
      obtain ⟨hfirst, hrest⟩ := List.pairwise_cons.mp h
      rw [sinceBase_cons_cons ((hfirst b List.mem_cons_self).trans hb) hb,
        ih hrest fun p hp => hlast p (by rwa [List.getLast?_cons_cons])]
  | case2 a b c samples hb =>
      refine (sinceBase_cons_eq_self (fun p hp => ?_) a).symm
      rcases List.mem_cons.mp hp with rfl | hp
      · exact not_le.mp hb
      · exact (not_le.mp hb).trans_le ((List.pairwise_cons.mp (List.pairwise_cons.mp h).2).1 p hp)
  | case3 samples hshort =>
      match samples with
      | [] => rfl
      | [a] => exact (sinceBase_cons_eq_self (List.forall_mem_nil _) a).symm
      | [a, b] =>
          refine (sinceBase_cons_eq_self (fun p hp => ?_) a).symm
          rw [List.mem_singleton.mp hp]
          exact hlast b rfl
      | a :: b :: c :: samples => exact (hshort a b c samples rfl).elim

/-! ### Whole runs of a window -/

inductive Event where
  | push (t : ℚ) (counters : Flat)
  | clear

def Event.time : Event → Option ℚ
  | .push t _ => some t
  | .clear => none

def step (w : RateWindow) : Event → RateWindow
  | .push t counters => w.push t counters
  | .clear => w.clear

def run (w : RateWindow) (es : List Event) : RateWindow := EventRun.run step w es

/-- What has come since a counter went back or the window was cleared, with the next event. -/
def nextSince (items : List (ℚ × Flat)) : Event → List (ℚ × Flat)
  | .push t counters => restart counters items ++ [(t, counters)]
  | .clear => []

def sinceRestart (es : List Event) : List (ℚ × Flat) := EventRun.run nextSince [] es

/-- The window against all that has come since the restart. -/
structure Held (windowMs : ℚ) (items : List (ℚ × Flat)) (w : RateWindow) : Prop where
  width : w.windowMs = windowMs
  ordered : Ordered items
  rising : Rising items
  samples : ∀ cutoff, (∀ p ∈ items.getLast?, p.1 - windowMs = cutoff) →
    w.samples = sinceBase cutoff items

theorem restart_eq (c : Flat) (samples : List (ℚ × Flat)) :
    restart c samples = samples ∨ restart c samples = [] := by
  unfold restart
  split
  · exact .inl rfl
  · split
    · exact .inr rfl
    · exact .inl rfl

theorem restart_sinceBase {cutoff : ℚ} {items : List (ℚ × Flat)}
    (hlast : ∀ p ∈ items.getLast?, cutoff < p.1) (c : Flat) :
    restart c (sinceBase cutoff items) = sinceBase cutoff (restart c items) := by
  unfold restart
  rw [getLast?_sinceBase hlast]
  split
  · rfl
  · split
    · rfl
    · rfl

theorem restart_ordered {items : List (ℚ × Flat)} (h : Ordered items) {t : ℚ}
    (ht : ∀ p ∈ items.getLast?, p.1 ≤ t) (c : Flat) : Ordered (restart c items ++ [(t, c)]) := by
  rcases restart_eq c items with hr | hr
  · rw [hr]
    exact h.concat ht c
  · rw [hr]
    exact List.pairwise_singleton ..

theorem Held.push {windowMs : ℚ} (hwidth : 0 < windowMs) {items : List (ℚ × Flat)} {w : RateWindow}
    (h : Held windowMs items w) {t : ℚ} (ht : ∀ p ∈ items.getLast?, p.1 ≤ t) {c : Flat}
    (hc : Nonneg c) : Held windowMs (restart c items ++ [(t, c)]) (w.push t c) := by
  have hordered := restart_ordered h.ordered ht c
  refine ⟨h.width, hordered, h.rising.restart_concat hc t, fun cutoff hcutoff => ?_⟩
  obtain rfl : t - windowMs = cutoff := hcutoff _ List.getLast?_concat
  -- the window was cut before, at a time that is not later
  obtain ⟨cutoff, hle, hlast, hsamples⟩ : ∃ cutoff ≤ t - windowMs,
      (∀ p ∈ items.getLast?, cutoff < p.1) ∧ w.samples = sinceBase cutoff items := by
    cases hp : items.getLast? with
    | none =>
        refine ⟨_, le_rfl, fun p hp' => (nomatch hp'), h.samples _ fun p hp' => ?_⟩
        rw [hp] at hp'
        cases hp'
    | some p =>
        refine ⟨p.1 - windowMs, sub_le_sub_right (ht p hp) _, fun q hq => ?_,
          h.samples _ fun q hq => ?_⟩
        · cases hq
          exact sub_lt_self _ hwidth
        · rw [hp] at hq
          cases hq
          rfl
  have hrest : Ordered (restart c items) := (List.pairwise_append.mp hordered).1
  have hcut : Ordered (sinceBase cutoff (restart c items) ++ [(t, c)]) :=
    List.Pairwise.sublist ((sinceBase_sublist hrest cutoff).append_right _) hordered
  rw [RateWindow.push, h.width, hsamples, restart_sinceBase hlast, dropOlder_eq hcut,
    sinceBase_append hle hrest]
  intro p hp
  rw [List.getLast?_concat] at hp
  cases hp
  exact sub_lt_self _ hwidth

theorem Held.run {windowMs : ℚ} (hwidth : 0 < windowMs) {items : List (ℚ × Flat)} {w : RateWindow}
    (h : Held windowMs items w) {es : List Event} (hes : (es.filterMap Event.time).Pairwise (· ≤ ·))
    (ht : ∀ p ∈ items.getLast?, ∀ t ∈ es.filterMap Event.time, p.1 ≤ t)
    (hnonneg : ∀ t c, .push t c ∈ es → Nonneg c) :
    Held windowMs (EventRun.run nextSince items es) (run w es) := by
  induction es generalizing items w with
  | nil => exact h
  | cons e es ih =>
      have hrest := fun t c hmem => hnonneg t c (List.mem_cons_of_mem _ hmem)
      cases e with
      | push t c =>
          rw [List.filterMap_cons_some (f := Event.time) (b := t) rfl] at hes ht
          obtain ⟨hfirst, hes⟩ := List.pairwise_cons.mp hes
          refine ih (h.push hwidth (fun p hp => ht p hp t List.mem_cons_self)
            (hnonneg t c List.mem_cons_self)) hes (fun p hp t' ht' => ?_) hrest
          rw [nextSince, List.getLast?_concat] at hp
          cases hp
          exact hfirst t' ht'
      | clear =>
          exact ih ⟨h.width, List.Pairwise.nil, List.Pairwise.nil, fun _ _ => rfl⟩ hes
            (fun p hp => nomatch hp) hrest

/-- Two samples that are apart in time, with counters that have grown: no rate is clamped. -/
theorem rate_eq {w : RateWindow} {base last : ℚ × Flat} (hbase : base ∈ w.samples.head?)
    (hlast : last ∈ w.samples.getLast?) (ht : base.1 < last.1) (hgrown : Grown base.2 last.2)
    (key : Text) :
    w.rate key = (value last.2 key - value base.2 key) * 1000 / (last.1 - base.1) := by
  have hlong : ¬ w.samples.length < 2 := by
    intro hshort
    match hw : w.samples with
    | [] =>
        rw [hw] at hbase
        cases hbase
    | [p] =>
        rw [hw] at hbase hlast
        cases hbase
        cases hlast
        exact lt_irrefl _ ht
    | p :: q :: samples =>
        rw [hw, List.length_cons, List.length_cons] at hshort
        omega
  have hdt : 0 < last.1 - base.1 := sub_pos.mpr ht
  rw [RateWindow.rate, if_neg hlong, hbase, hlast]
  dsimp only
  rw [if_neg (not_le.mpr hdt), max_eq_right]
  exact div_nonneg (mul_nonneg (sub_nonneg.mpr (hgrown key)) (Nat.ofNat_nonneg _)) hdt.le

/-- For reports in the order of their times, cleared at any time: the window holds the reports
after the last time less its width, and the newest one before those, or as many as have come
since a counter went back; along them no counter goes back; and the rate of a counter is its
growth from the first to the last, per second, with nothing clamped. -/
theorem rates_exact (windowMs : ℚ) (hwidth : 0 < windowMs) (es : List Event)
    (hes : (es.filterMap Event.time).Pairwise (· ≤ ·))
    (hnonneg : ∀ t c, .push t c ∈ es → Nonneg c) :
    let w := run (.new windowMs) es
    ∀ last ∈ (sinceRestart es).getLast?,
      w.samples = sinceBase (last.1 - windowMs) (sinceRestart es) ∧
      (sinceRestart es).Pairwise (fun p q => p.1 ≤ q.1 ∧ ∀ k, value p.2 k ≤ value q.2 k) ∧
      ∀ base ∈ w.samples.head?, base.1 < last.1 → ∀ key,
        w.rate key = (value last.2 key - value base.2 key) * 1000 / (last.1 - base.1) := by
  intro w last hlast
  have hheld : Held windowMs (sinceRestart es) w :=
    Held.run hwidth ⟨rfl, List.Pairwise.nil, List.Pairwise.nil, fun _ _ => rfl⟩ hes
      (fun p hp => nomatch hp) hnonneg
  have hsamples := hheld.samples (last.1 - windowMs) fun p hp => by
    rw [Option.mem_unique hp hlast]
  have hend : last ∈ w.samples.getLast? := by
    rw [hsamples, getLast?_sinceBase]
    · exact hlast
    · intro p hp
      rw [Option.mem_unique hp hlast]
      exact sub_lt_self _ hwidth
  refine ⟨hsamples, hheld.ordered.and hheld.rising, fun base hbase ht key => ?_⟩
  have hrising : Rising w.samples := by
    rw [hsamples]
    exact hheld.rising.sublist (sinceBase_sublist hheld.ordered _)
  exact rate_eq hbase hend ht (hrising.head_last hbase hend) key

/-- Reports at 0, 1/2, 1 and 3/2 seconds and a counter that is one higher each time: the first is
dropped with the last, the second is the base. -/
def steadyReports : List Event :=
  [(0, 5), (500, 6), (1000, 7), (1500, 8)].map fun p =>
    .push p.1 (.ofList [("ok".toList, p.2)])

theorem rates_exact_steady :
    let w := run (.new 1000) steadyReports
    w.samples.map Prod.fst = [500, 1000, 1500] ∧
      w.rate "ok".toList = (8 - 6) * 1000 / (1500 - 500) := by
  have hnonneg : ∀ t c, .push t c ∈ steadyReports → Nonneg c := by
    have hall : ∀ p ∈ ([(0, 5), (500, 6), (1000, 7), (1500, 8)] : List (ℚ × ℚ)),
        ∀ e ∈ (Dict.ofList [("ok".toList, p.2)]).entries, 0 ≤ e.2 := by
      decide +kernel
    intro t c hmem
    obtain ⟨p, hp, heq⟩ := List.mem_map.mp hmem
    cases heq
    exact hall p hp
  have hends : (sinceRestart steadyReports).getLast?.map (fun p => (p.1, value p.2 "ok".toList)) =
        some (1500, 8) ∧
      (run (.new 1000) steadyReports).samples.head?.map (fun p => (p.1, value p.2 "ok".toList)) =
        some (500, 6) := by
    decide +kernel
  obtain ⟨last, hlast, hlast8⟩ := Option.map_eq_some_iff.mp hends.1
  obtain ⟨base, hbase, hbase6⟩ := Option.map_eq_some_iff.mp hends.2
  obtain ⟨ht₁, hv₁⟩ := Prod.mk.inj hlast8
  obtain ⟨ht₀, hv₀⟩ := Prod.mk.inj hbase6
  obtain ⟨-, -, hrate⟩ :=
    rates_exact 1000 (by decide) steadyReports (by decide +kernel) hnonneg last hlast
  refine ⟨by decide +kernel, ?_⟩
  rw [hrate base hbase (by rw [ht₀, ht₁]; decide), ht₀, ht₁, hv₀, hv₁]

/-! ### The load generator's reports -/

open LoadClient (Client Reason Counters)

/-- `json.dumps` writes the key `None` as `null`. -/
def reasonText : Option Reason → Text
  | none => "null".toList
  | some .timeout => "timeout".toList
  | some .noRoute => "no-route".toList
  | some .crashed => "crashed".toList
  | some .shed => "shed".toList
  | some .error => "error".toList
  | some .clientOverload => "client-overload".toList

def reasons : List (Option Reason) :=
  [none, some .timeout, some .noRoute, some .crashed, some .shed, some .error, some .clientOverload]

/-- `dict(self.c)` -/
def counterDict (c : Counters) : Dict Text ℕ :=
  .ofList [("scheduled".toList, c.scheduled), ("attempts".toList, c.attempts),
    ("ok".toList, c.ok), ("failed".toList, c.failed), ("retries".toList, c.retries),
    ("localDrops".toList, c.localDrops)]

/-- `dict(self.failed_by_reason)`: a reason that has not been counted is no key. Nothing that
reads it depends on the order. -/
def reasonDict (failedByReason : Option Reason → ℕ) : Dict Text ℕ :=
  .ofList ((reasons.filter fun r => failedByReason r ≠ 0).map fun r =>
    (reasonText r, failedByReason r))

/-- What `Proc.on_line` makes of a report; `respBySlot` is whatever the report says. -/
def report (c : Client) (respBySlot : Dict Text ℕ) : Dict Text ℕ :=
  flatten (counterDict c.c) [("failedByReason".toList, reasonDict c.failedByReason),
    ("respBySlot".toList, respBySlot)]

def ofCounts (d : Dict Text ℕ) : Flat where
  entries := d.entries.map fun e => (e.1, (e.2 : ℚ))
  nodup := by
    rw [List.map_map]
    exact d.nodup

theorem ofCounts_nonneg (d : Dict Text ℕ) : Nonneg (ofCounts d) := by
  intro e he
  obtain ⟨e', -, rfl⟩ := List.mem_map.mp he
  exact Nat.cast_nonneg _

/-- The load generator, its reports on the way, and the window of the bridge. -/
structure Link where
  client : Client
  pipe : List (ℚ × Dict Text ℕ)
  window : RateWindow

inductive LinkEvent where
  | client (e : LoadClient.Event)
  /-- `emit(self.stats())` -/
  | report (tMs : ℚ) (respBySlot : Dict Text ℕ)
  /-- The next report is read. -/
  | pump
  /-- `reset_windows` -/
  | clear

def linkStep (s : Link) : LinkEvent → Link
  | .client e => { s with client := LoadClient.step s.client e }
  | .report tMs respBySlot =>
      { s with
        client := LoadClient.step s.client .stats
        pipe := s.pipe ++ [(tMs, report s.client respBySlot)] }
  | .pump =>
      match s.pipe with
      | [] => s
      | (t, counts) :: pipe => { s with pipe := pipe, window := s.window.push t (ofCounts counts) }
  | .clear => { s with window := s.window.clear }

/-- A report of some state of a load generator whose failures have their reasons. -/
def Genuine (counts : Dict Text ℕ) : Prop :=
  ∃ c respBySlot, ∑ r, c.failedByReason r = c.c.failed ∧ counts = report c respBySlot

structure Told (s : Link) : Prop where
  reasons : ∑ r, s.client.failedByReason r = s.client.c.failed
  pipe : ∀ p ∈ s.pipe, Genuine p.2
  samples : ∀ p ∈ s.window.samples, ∃ counts, Genuine counts ∧ p.2 = ofCounts counts
  rising : Rising s.window.samples

theorem mem_push {w : RateWindow} {t : ℚ} {c : Flat} {p : ℚ × Flat}
    (h : p ∈ (w.push t c).samples) : p ∈ w.samples ∨ p = (t, c) := by
  rcases List.mem_append.mp ((dropOlder_sublist _ _).mem h) with hp | hp
  · rcases restart_eq c w.samples with hr | hr
    · exact .inl (hr ▸ hp)
    · rw [hr] at hp
      cases hp
  · exact .inr (List.mem_singleton.mp hp)

theorem Told.step {s : Link} (h : Told s) (e : LinkEvent) : Told (linkStep s e) := by
  cases e with
  | client e => exact ⟨ClientAccounts.reasons_step h.reasons e, h.pipe, h.samples, h.rising⟩
  | report tMs respBySlot =>
      refine ⟨h.reasons, fun p hp => ?_, h.samples, h.rising⟩
      rcases List.mem_append.mp hp with hp | hp
      · exact h.pipe p hp
      · rw [List.mem_singleton.mp hp]
        exact ⟨s.client, respBySlot, h.reasons, rfl⟩
  | pump =>
      rw [linkStep]
      split
      · exact h
      · next t counts pipe hpipe =>
          refine ⟨h.reasons, fun p hp => h.pipe p (hpipe ▸ List.mem_cons_of_mem _ hp),
            fun p hp => ?_, h.rising.push (ofCounts_nonneg counts) t⟩
          rcases mem_push hp with hp | rfl
          · exact h.samples p hp
          · exact ⟨counts, h.pipe (t, counts) (hpipe ▸ List.mem_cons_self), rfl⟩
  | clear => exact ⟨h.reasons, h.pipe, List.forall_mem_nil _, List.Pairwise.nil⟩

end MaglevLb.Rates
