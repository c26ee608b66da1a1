import MaglevLb.IndexedLists
import MaglevLb.ServiceServer
import Mathlib.Algebra.Order.Ring.Rat
import Mathlib.Data.List.Range
import Mathlib.Data.Rat.Floor

/-!
# The load generator

`scheduler` spawns a task for every arrival that is due and not over the cap; to serve a
request is `_request`, which counts itself in `in_flight` when it first runs. Between a
spawn and that moment the request is not counted, and nothing runs while the scheduler
catches up: a burst is admitted as a whole or refused as a whole, whatever its length.
-/
namespace MaglevLb.LoadClient

open IndexedLists
open ServiceServer (truncate num numInt)
open Schema (Json get?)

/-! ### Requests -/

inductive Reason where
  | timeout | noRoute | crashed | shed | error | clientOverload
  deriving DecidableEq, Repr

/-- What an attempt returns: the verb of a reply, or what went wrong. -/
inductive Attempt where
  | ok | err | shed | timeout | noRoute | crashed
  deriving DecidableEq, Repr

/-- `none` for a request that is served. -/
def Attempt.reason : Attempt → Option Reason
  | .ok => none
  | .err => some .error
  | .shed => some .shed
  | .timeout => some .timeout
  | .noRoute => some .noRoute
  | .crashed => some .crashed

/-- A request at an await: in its attempt, or asleep before the next one. The number of
attempts is read once, when the request begins. -/
structure Task where
  sched : ℚ
  total : ℤ
  attempt : ℕ
  reason : Option Reason
  asleep : Bool
  deriving DecidableEq, Repr

structure Counters where
  scheduled : ℕ := 0
  attempts : ℕ := 0
  ok : ℕ := 0
  failed : ℕ := 0
  retries : ℕ := 0
  localDrops : ℕ := 0
  deriving DecidableEq, Repr

/-- How many requests had been admitted and were not finished when one more was admitted, and
`max_in_flight()` at that moment. -/
structure Admission where
  unfinished : ℕ
  cap : ℤ
  deriving DecidableEq, Repr

/-- The client with its tasks: `spawned` have not run yet, given by the time each was due.
`paused` says where the scheduler sleeps. `admissions` is for statements only. -/
structure Client where
  rps : ℚ
  timeoutMs : ℚ
  retries : ℤ
  loadEnabled : Bool
  inFlight : ℤ
  c : Counters
  failedByReason : Option Reason → ℕ
  lagMaxMs : ℚ
  nextT : ℚ
  paused : Bool
  spawned : List ℚ
  running : List Task
  admissions : List Admission

structure Args where
  rps : ℚ
  timeoutMs : ℚ
  retries : ℤ
  paused : Bool

def launch (args : Args) (startT : ℚ) : Client where
  rps := args.rps
  timeoutMs := args.timeoutMs
  retries := args.retries
  loadEnabled := !args.paused
  inFlight := 0
  c := {}
  failedByReason _ := 0
  lagMaxMs := 0
  nextT := startT
  paused := false
  spawned := []
  running := []
  admissions := []

/-- The double nearest to a number, ties to even, with no bound on the exponent. -/
def roundDouble (v : ℚ) : ℚ :=
  if v = 0 then 0
  else
    let k : ℤ := v.num.natAbs.log2 - v.den.log2
    let k := if 2 ^ k ≤ |v| then k else k - 1
    let ulp : ℚ := 2 ^ (k - 52)
    let q := ⌊v / ulp⌋
    let r := v / ulp - q
    (if 2 * r < 1 ∨ 2 * r = 1 ∧ q % 2 = 0 then q else q + 1) * ulp

/-- The products are rounded one by one. -/
def maxInFlight (c : Client) : ℤ :=
  let timeoutS := roundDouble (c.timeoutMs / 1000)
  let answers := roundDouble (roundDouble (c.rps * timeoutS) * 2)
  truncate (max 64 (min 20000 (roundDouble (answers * roundDouble (c.retries + 1)))))

/-- Requests admitted and not finished. -/
def unfinished (c : Client) : ℕ := c.spawned.length + c.running.length

def fail (reason : Option Reason) (c : Client) : Client :=
  { c with
    c := { c.c with failed := c.c.failed + 1 }
    failedByReason := Function.update c.failedByReason reason (c.failedByReason reason + 1) }

/-- `finally` -/
def finish (c : Client) : Client := { c with inFlight := c.inFlight - 1 }

/-- The head of the loop over the attempts, for a task that is not in `running`. -/
def nextAttempt (t : Task) (c : Client) : Client :=
  if (t.attempt : ℤ) < t.total then
    { c with
      c := { c.c with
        attempts := c.c.attempts + 1
        retries := if 0 < t.attempt then c.c.retries + 1 else c.c.retries }
      running := c.running ++ [{ t with asleep := false }] }
  else finish (fail t.reason c)

/-- Spawned task `k` runs to its first await. -/
def requestBegin (k : ℕ) (c : Client) : Client :=
  match c.spawned[k]? with
  | none => c
  | some sched =>
      nextAttempt ⟨sched, c.retries + 1, 0, none, false⟩
        { c with spawned := c.spawned.eraseIdx k, inFlight := c.inFlight + 1 }

/-- The attempt of running task `k` returns. -/
def attemptEnd (k : ℕ) (result : Attempt) (c : Client) : Client :=
  match c.running[k]? with
  | none => c
  | some t =>
      if t.asleep then c
      else
        let c := { c with running := c.running.eraseIdx k }
        match result.reason with
        | none => finish { c with c := { c.c with ok := c.c.ok + 1 } }
        | some reason =>
            if (t.attempt : ℤ) < c.retries then
              { c with running := c.running ++ [{ t with reason := some reason, asleep := true }] }
            else nextAttempt { t with reason := some reason, attempt := t.attempt + 1 } c

/-- Running task `k` has slept for its backoff. -/
def backoffEnd (k : ℕ) (c : Client) : Client :=
  match c.running[k]? with
  | none => c
  | some t =>
      if t.asleep then
        nextAttempt { t with attempt := t.attempt + 1 } { c with running := c.running.eraseIdx k }
      else c

/-- Running task `k` ends by an exception. -/
def requestRaise (k : ℕ) (c : Client) : Client :=
  if k < c.running.length then finish { c with running := c.running.eraseIdx k } else c

/-! ### The scheduler -/

/-- An arrival is counted, and how late it is. -/
def schedule (now : ℚ) (c : Client) : Client :=
  let lagMs := (now - c.nextT) * 1000
  { c with
    lagMaxMs := if c.lagMaxMs < lagMs then lagMs else c.lagMaxMs
    c := { c.c with scheduled := c.c.scheduled + 1 } }

/-- It is refused over the cap, and else a task is spawned for it. -/
def acceptArrival (c : Client) : Client :=
  if maxInFlight c ≤ c.inFlight then
    fail (some .clientOverload) { c with c := { c.c with localDrops := c.c.localDrops + 1 } }
  else
    { c with
      spawned := c.spawned ++ [c.nextT]
      admissions := c.admissions ++ [⟨unfinished c, maxInFlight c⟩] }

def arrive (now gap : ℚ) (c : Client) : Client :=
  let c := acceptArrival (schedule now c)
  { c with nextT := c.nextT + gap }

/-- `while next_t <= now`, with the gaps as they are drawn; `none` if that takes more of them. -/
def burst (now : ℚ) : List ℚ → Client → Option Client
  | [], c => if c.nextT ≤ now then none else some c
  | gap :: gaps, c => if c.nextT ≤ now then burst now gaps (arrive now gap c) else some c

/-- The scheduler wakes; the clock is read after a pause. -/
def wake (wokeT : ℚ) (c : Client) : Client :=
  if c.paused then { c with nextT := wokeT, paused := false } else c

def generating (c : Client) : Bool := c.loadEnabled && 0 < c.rps

/-- The scheduler from one sleep to the next. -/
def turn (wokeT now : ℚ) (gaps : List ℚ) (c : Client) : Option Client :=
  let c := wake wokeT c
  if generating c then burst now gaps c else some { c with paused := true }

/-- `cmd` is an object, and its `op` a string. -/
def onCommand (cmd : List (String × Json)) (c : Client) : Client :=
  match get? cmd "op" with
  | some (.str "config") =>
      { c with
        rps := num cmd "rps" 0 2000 c.rps
        timeoutMs := num cmd "timeoutMs" 50 10000 c.timeoutMs
        retries := numInt cmd "retries" 0 5 c.retries }
  | some (.str "load") =>
      match get? cmd "enabled" with
      | some (.bool enabled) => { c with loadEnabled := enabled }
      | _ => c
  | some (.str "reset_stats") => { c with c := {}, failedByReason := fun _ => 0, lagMaxMs := 0 }
  | _ => c

theorem numInt_nonneg {cmd : List (String × Json)} {key : String} {hi default : ℤ}
    (h : 0 ≤ default) : 0 ≤ numInt cmd key 0 hi default := by
  have hbounded : ∀ {v w : ℚ}, ServiceServer.bounded 0 hi v = some w → 0 ≤ truncate w := by
    intro v w hv
    unfold ServiceServer.bounded at hv
    split at hv
    · cases hv
    · next hin =>
        cases hv
        have hpos : 0 ≤ v := by exact_mod_cast not_lt.mp (not_or.mp hin).1
        exact Int.tdiv_nonneg (Rat.num_nonneg.mpr hpos) (Int.natCast_nonneg _)
  unfold numInt
  cases hv : ServiceServer.numeric cmd key 0 hi with
  | none => exact h
  | some v =>
      unfold ServiceServer.numeric at hv
      split at hv
      · exact hbounded hv
      · exact hbounded hv
      · cases hv

inductive Event where
  | turn (wokeT now : ℚ) (gaps : List ℚ)
  | requestBegin (k : ℕ)
  | attemptEnd (k : ℕ) (result : Attempt)
  | backoffEnd (k : ℕ)
  | requestRaise (k : ℕ)
  | stats
  | command (cmd : List (String × Json))

def step (c : Client) : Event → Client
  | .turn wokeT now gaps => (turn wokeT now gaps c).getD c
  | .requestBegin k => requestBegin k c
  | .attemptEnd k result => attemptEnd k result c
  | .backoffEnd k => backoffEnd k c
  | .requestRaise k => requestRaise k c
  | .stats => { c with lagMaxMs := 0 }
  | .command cmd => onCommand cmd c

def run (c : Client) (es : List Event) : Client := EventRun.run step c es

/-! ### Bursts -/

/-- The arrivals that are due by `now`, the first at `t`. -/
def due (now : ℚ) : ℚ → List ℚ → ℕ
  | _, [] => 0
  | t, gap :: gaps => if t ≤ now then due now (t + gap) gaps + 1 else 0

/-- `k` arrivals were refused: each is counted as scheduled, dropped here, failed, and failed
for overload. -/
structure Refused (k : ℕ) (c c' : Client) : Prop where
  inFlight : c'.inFlight = c.inFlight
  running : c'.running = c.running
  cap : maxInFlight c' = maxInFlight c
  spawned : c'.spawned = c.spawned
  admissions : c'.admissions = c.admissions
  counters : c'.c =
    { c.c with
      scheduled := c.c.scheduled + k, failed := c.c.failed + k, localDrops := c.c.localDrops + k }
  reasons : c'.failedByReason = Function.update c.failedByReason (some .clientOverload)
    (c.failedByReason (some .clientOverload) + k)

/-- `k` arrivals were admitted, one after the other. -/
structure Admitted (k : ℕ) (c c' : Client) : Prop where
  inFlight : c'.inFlight = c.inFlight
  running : c'.running = c.running
  cap : maxInFlight c' = maxInFlight c
  spawned : c'.spawned.length = c.spawned.length + k
  admissions : c'.admissions =
    c.admissions ++ (List.range k).map fun i => ⟨unfinished c + i, maxInFlight c⟩
  counters : c'.c = { c.c with scheduled := c.c.scheduled + k }
  reasons : c'.failedByReason = c.failedByReason

section Bursts

variable {c c₁ c' : Client} {j k : ℕ} {now : ℚ} {gaps : List ℚ}

theorem nothing_due (c : Client) :
    (maxInFlight c ≤ c.inFlight ∧ Refused 0 c c) ∨
      (c.inFlight < maxInFlight c ∧ Admitted 0 c c) := by
  rcases le_or_gt (maxInFlight c) c.inFlight with hfull | hroom
  · exact .inl ⟨hfull, rfl, rfl, rfl, rfl, rfl, rfl, (Function.update_eq_self _ _).symm⟩
  · exact .inr ⟨hroom, rfl, rfl, rfl, rfl, (List.append_nil _).symm, rfl, rfl⟩

theorem Refused.trans (h : Refused j c c₁) (h' : Refused k c₁ c') : Refused (j + k) c c' where
  inFlight := h'.inFlight.trans h.inFlight
  running := h'.running.trans h.running
  cap := h'.cap.trans h.cap
  spawned := h'.spawned.trans h.spawned
  admissions := h'.admissions.trans h.admissions
  counters := by
    rw [h'.counters, h.counters]
    simp only [Nat.add_assoc]
  reasons := by
    rw [h'.reasons, h.reasons, Function.update_self, Function.update_idem, Nat.add_assoc]

theorem Admitted.trans (h : Admitted j c c₁) (h' : Admitted k c₁ c') : Admitted (j + k) c c' where
  inFlight := h'.inFlight.trans h.inFlight
  running := h'.running.trans h.running
  cap := h'.cap.trans h.cap
  spawned := by rw [h'.spawned, h.spawned, Nat.add_assoc]
  admissions := by
    have hlater : unfinished c₁ = unfinished c + j := by
      rw [unfinished, unfinished, h.spawned, h.running]
      omega
    rw [h'.admissions, h.admissions, h.cap, hlater, List.append_assoc, List.range_add,
      List.map_append, List.map_map]
    simp only [Function.comp_def, Nat.add_assoc]
  counters := by
    rw [h'.counters, h.counters]
    simp only [Nat.add_assoc]
  reasons := h'.reasons.trans h.reasons

theorem arrive_refused (h : maxInFlight c ≤ c.inFlight) (now gap : ℚ) :
    Refused 1 c (arrive now gap c) := by
  have hfull : maxInFlight (schedule now c) ≤ (schedule now c).inFlight := h
  rw [arrive, acceptArrival, if_pos hfull]
  exact ⟨rfl, rfl, rfl, rfl, rfl, rfl, rfl⟩

theorem arrive_admitted (h : c.inFlight < maxInFlight c) (now gap : ℚ) :
    Admitted 1 c (arrive now gap c) := by
  have hroom : ¬maxInFlight (schedule now c) ≤ (schedule now c).inFlight := not_le.mpr h
  rw [arrive, acceptArrival, if_neg hroom]
  exact ⟨rfl, rfl, rfl, List.length_append, rfl, rfl, rfl⟩

theorem nextT_arrive (now gap : ℚ) (c : Client) : (arrive now gap c).nextT = c.nextT + gap := by
  unfold arrive acceptArrival
  dsimp only
  split <;> rfl

/-- A burst is refused as a whole or admitted as a whole. -/
theorem burst_spec (h : burst now gaps c = some c') :
    (maxInFlight c ≤ c.inFlight ∧ Refused (due now c.nextT gaps) c c') ∨
      (c.inFlight < maxInFlight c ∧ Admitted (due now c.nextT gaps) c c') := by
  induction gaps generalizing c with
  | nil =>
      unfold burst at h
      split at h
      · cases h
      · cases h
        exact nothing_due _
  | cons gap gaps ih =>
      unfold burst at h
      unfold due
      split at h
      · next hdue =>
          have hrest := ih h
          rw [nextT_arrive] at hrest
          rw [if_pos hdue, Nat.add_comm]
          rcases le_or_gt (maxInFlight c) c.inFlight with hfull | hroom
          · have hfirst := arrive_refused hfull now gap
            rw [hfirst.cap, hfirst.inFlight] at hrest
            rcases hrest with ⟨-, hrest⟩ | ⟨hroom, -⟩
            · exact .inl ⟨hfull, hfirst.trans hrest⟩
            · exact absurd hfull (not_le.mpr hroom)
          · have hfirst := arrive_admitted hroom now gap
            rw [hfirst.cap, hfirst.inFlight] at hrest
            rcases hrest with ⟨hfull, -⟩ | ⟨-, hrest⟩
            · exact absurd hfull (not_le.mpr hroom)
            · exact .inr ⟨hroom, hfirst.trans hrest⟩
      · next hlater =>
          cases h
          rw [if_neg hlater]
          exact nothing_due _

end Bursts

/-! ### Requests in flight -/

section InFlight

variable {c : Client}

/-- A request is counted while it runs. -/
def Counted (c : Client) : Prop := c.inFlight = c.running.length

theorem counted_nextAttempt {t : Task} (h : c.inFlight = c.running.length + 1) :
    Counted (nextAttempt t c) := by
  unfold nextAttempt Counted
  split
  · simp [h]
  · simp [finish, fail, h]

theorem counted_requestBegin (h : Counted c) (k : ℕ) : Counted (requestBegin k c) := by
  unfold requestBegin
  split
  · exact h
  · exact counted_nextAttempt (by rw [show c.inFlight = c.running.length from h])

theorem counted_attemptEnd (h : Counted c) (k : ℕ) (result : Attempt) :
    Counted (attemptEnd k result c) := by
  unfold Counted at h
  unfold attemptEnd
  split
  · exact h
  · next t hk =>
      have hlength := length_eraseIdx_of_getElem? hk
      split
      · exact h
      · dsimp only
        split
        · simp only [Counted, finish]
          omega
        · split
          · simp only [Counted, List.length_append, List.length_singleton]
            omega
          · refine counted_nextAttempt ?_
            dsimp only
            omega

theorem counted_backoffEnd (h : Counted c) (k : ℕ) : Counted (backoffEnd k c) := by
  unfold Counted at h
  unfold backoffEnd
  split
  · exact h
  · next t hk =>
      have hlength := length_eraseIdx_of_getElem? hk
      split
      · refine counted_nextAttempt ?_
        dsimp only
        omega
      · exact h

theorem counted_requestRaise (h : Counted c) (k : ℕ) : Counted (requestRaise k c) := by
  unfold Counted at h
  unfold requestRaise
  split
  · next hlt =>
      simp only [Counted, finish, List.length_eraseIdx_of_lt hlt]
      omega
  · exact h

theorem counted_turn {wokeT now : ℚ} {gaps : List ℚ} {c' : Client} (h : Counted c)
    (hturn : turn wokeT now gaps c = some c') : Counted c' := by
  have hwake : Counted (wake wokeT c) := by
    unfold wake
    split <;> exact h
  unfold turn at hturn
  dsimp only at hturn
  split at hturn
  · rcases burst_spec hturn with ⟨-, hspec⟩ | ⟨-, hspec⟩
    · rw [Counted, hspec.inFlight, hspec.running]
      exact hwake
    · rw [Counted, hspec.inFlight, hspec.running]
      exact hwake
  · cases hturn
    exact hwake

theorem counted_step (h : Counted c) (e : Event) : Counted (step c e) := by
  cases e with
  | turn wokeT now gaps =>
      rw [step]
      cases hturn : turn wokeT now gaps c with
      | none => exact h
      | some c' => exact counted_turn h hturn
  | requestBegin k => exact counted_requestBegin h k
  | attemptEnd k result => exact counted_attemptEnd h k result
  | backoffEnd k => exact counted_backoffEnd h k
  | requestRaise k => exact counted_requestRaise h k
  | stats => exact h
  | command cmd =>
      rw [step, onCommand]
      split
      · exact h
      · split <;> exact h
      · exact h
      · exact h

end InFlight

/-! ### The cap -/

section Cap

variable {c c' : Client} {wokeT now : ℚ} {gaps : List ℚ}

/-- At every admission fewer requests were unfinished than the cap allowed. -/
def Capped (c : Client) : Prop := ∀ a ∈ c.admissions, (a.unfinished : ℤ) < a.cap

/-- A scheduler turn with arrivals due and fewer requests begun than the cap, but not room for
all that are unfinished and due. -/
def Overshoots (c : Client) : Event → Prop
  | .turn wokeT now gaps =>
      (turn wokeT now gaps c).isSome = true ∧ generating (wake wokeT c) = true ∧
        0 < due now (wake wokeT c).nextT gaps ∧ c.inFlight < maxInFlight c ∧
        maxInFlight c < unfinished c + due now (wake wokeT c).nextT gaps
  | _ => False

theorem admissions_nextAttempt (t : Task) (c : Client) :
    (nextAttempt t c).admissions = c.admissions := by
  unfold nextAttempt
  split <;> rfl

/-- Only the scheduler admits. -/
theorem admissions_step {e : Event} (he : ∀ wokeT now gaps, e ≠ .turn wokeT now gaps) :
    (step c e).admissions = c.admissions := by
  cases e with
  | turn wokeT now gaps => exact absurd rfl (he wokeT now gaps)
  | requestBegin k =>
      rw [step, requestBegin]
      split
      · rfl
      · rw [admissions_nextAttempt]
  | attemptEnd k result =>
      rw [step, attemptEnd]
      split
      · rfl
      · split
        · rfl
        · dsimp only
          split
          · rfl
          · split
            · rfl
            · rw [admissions_nextAttempt]
  | backoffEnd k =>
      rw [step, backoffEnd]
      split
      · rfl
      · split
        · rw [admissions_nextAttempt]
        · rfl
  | requestRaise k =>
      rw [step, requestRaise]
      split <;> rfl
  | stats => rfl
  | command cmd =>
      rw [step, onCommand]
      split
      · rfl
      · split <;> rfl
      · rfl
      · rfl

theorem wake_frame (wokeT : ℚ) (c : Client) :
    ∃ nextT paused, wake wokeT c = { c with nextT := nextT, paused := paused } := by
  unfold wake
  split
  · exact ⟨wokeT, false, rfl⟩
  · exact ⟨c.nextT, c.paused, rfl⟩

/-- What a turn that generates load does. -/
theorem turn_spec (hturn : turn wokeT now gaps c = some c')
    (hload : generating (wake wokeT c) = true) :
    (maxInFlight c ≤ c.inFlight ∧ Refused (due now (wake wokeT c).nextT gaps) c c') ∨
      (c.inFlight < maxInFlight c ∧ Admitted (due now (wake wokeT c).nextT gaps) c c') := by
  unfold turn at hturn
  dsimp only at hturn
  rw [if_pos hload] at hturn
  have hspec := burst_spec hturn
  obtain ⟨nextT, paused, hwake⟩ := wake_frame wokeT c
  rw [hwake] at hspec ⊢
  rcases hspec with ⟨hfull, hspec⟩ | ⟨hroom, hspec⟩
  · exact .inl ⟨hfull, hspec.inFlight, hspec.running, hspec.cap, hspec.spawned, hspec.admissions,
      hspec.counters, hspec.reasons⟩
  · exact .inr ⟨hroom, hspec.inFlight, hspec.running, hspec.cap, hspec.spawned, hspec.admissions,
      hspec.counters, hspec.reasons⟩

theorem Admitted.capped_iff {k : ℕ} (h : Admitted k c c') :
    Capped c' ↔ Capped c ∧ ¬(0 < k ∧ maxInFlight c < unfinished c + k) := by
  unfold Capped
  rw [h.admissions, List.forall_mem_append, List.forall_mem_map]
  refine and_congr_right fun _ => ⟨fun hall hover => ?_, fun hroom i hi => ?_⟩
  · have hlast := hall (k - 1) (List.mem_range.mpr (by omega))
    dsimp only at hlast
    omega
  · rw [List.mem_range] at hi
    dsimp only
    omega

theorem capped_congr (h : c'.admissions = c.admissions) : Capped c' ↔ Capped c := by
  rw [Capped, h, Capped]

theorem capped_turn (hturn : turn wokeT now gaps c = some c') :
    Capped c' ↔ Capped c ∧ ¬Overshoots c (.turn wokeT now gaps) := by
  by_cases hload : generating (wake wokeT c) = true
  · rcases turn_spec hturn hload with ⟨hfull, hspec⟩ | ⟨hroom, hspec⟩
    · have hnot : ¬Overshoots c (.turn wokeT now gaps) :=
        fun h => absurd h.2.2.2.1 (not_lt.mpr hfull)
      rw [and_iff_left hnot, capped_congr hspec.admissions]
    · rw [hspec.capped_iff, Overshoots, hturn]
      simp only [Option.isSome_some, hload, hroom, true_and]
  · have hsame : c'.admissions = c.admissions := by
      obtain ⟨nextT, paused, hwake⟩ := wake_frame wokeT c
      unfold turn at hturn
      dsimp only at hturn
      rw [if_neg hload, hwake] at hturn
      cases hturn
      rfl
    have hnot : ¬Overshoots c (.turn wokeT now gaps) := fun h => hload h.2.1
    rw [and_iff_left hnot, capped_congr hsame]

/-- Exactly the turns that overshoot admit a request over the cap. -/
theorem capped_step (c : Client) (e : Event) :
    Capped (step c e) ↔ Capped c ∧ ¬Overshoots c e := by
  by_cases hother : ∀ wokeT now gaps, e ≠ .turn wokeT now gaps
  · have hnot : ¬Overshoots c e := by
      cases e with
      | turn wokeT now gaps => exact absurd rfl (hother wokeT now gaps)
      | _ => exact not_false
    rw [and_iff_left hnot, capped_congr (admissions_step hother)]
  · simp only [not_forall, not_not] at hother
    obtain ⟨wokeT, now, gaps, rfl⟩ := hother
    rw [step]
    cases hturn : turn wokeT now gaps c with
    | none =>
        have hnot : ¬Overshoots c (.turn wokeT now gaps) :=
          fun h => by simp [hturn, Overshoots] at h
        rw [and_iff_left hnot, Option.getD_none]
    | some c' => exact capped_turn hturn

end Cap

/-- After every run, with any settings:
every request was admitted below the cap of that moment exactly if no turn of the scheduler had
more due than there was room for, at a moment when fewer had begun than the cap;
`in_flight` is the number of requests that have begun and not finished;
and the arrivals of a turn are all refused, and counted so, if as many have begun as the cap
allows, and else all admitted. -/
theorem in_flight_cap_iff (args : Args) (startT : ℚ) (es : List Event) :
    let c₀ := launch args startT
    let c := run c₀ es
    ((∀ a ∈ c.admissions, (a.unfinished : ℤ) < a.cap) ↔
      ∀ es₁ e es₂, es = es₁ ++ e :: es₂ → ¬Overshoots (run c₀ es₁) e) ∧
    c.inFlight = c.running.length ∧
    ∀ wokeT now gaps c', turn wokeT now gaps c = some c' → generating (wake wokeT c) = true →
      (maxInFlight c ≤ c.running.length ∧ Refused (due now (wake wokeT c).nextT gaps) c c') ∨
        (c.running.length < maxInFlight c ∧ Admitted (due now (wake wokeT c).nextT gaps) c c') := by
  intro c₀ c
  have hcounted : c.inFlight = c.running.length :=
    EventRun.run_invariant (P := Counted) (fun _ e h => counted_step h e) (rfl : Counted c₀) es
  refine ⟨?_, hcounted, fun wokeT now gaps c' hturn hload => ?_⟩
  · have hstart : Capped c₀ := List.forall_mem_nil _
    exact (EventRun.run_iff_unbroken capped_step c₀ es).trans (and_iff_right hstart)
  · rw [← hcounted]
    exact turn_spec hturn hload

/-- The exact product would be 116. -/
example : maxInFlight (launch ⟨100, 290, 1, false⟩ 0) = 115 := by decide +kernel

/-- The settings the command line has by default. -/
def defaultArgs : Args := ⟨50, 1000, 1, false⟩

/-- Three arrivals, of which the last is due when the first two have begun. -/
def calm : List Event :=
  [.turn 0 0 [1 / 64], .requestBegin 0, .turn (1 / 64) (1 / 64) [1 / 64], .requestBegin 0,
    .turn (1 / 32) (1 / 32) [1 / 64]]

theorem in_flight_cap_calm :
    (run (launch defaultArgs 0) calm).inFlight = 2 ∧
      ∀ es₁ e es₂, calm = es₁ ++ e :: es₂ → ¬Overshoots (run (launch defaultArgs 0) es₁) e :=
  ⟨by decide +kernel, (in_flight_cap_iff defaultArgs 0 calm).1.mp (by decide +kernel)⟩

/-- The process was stopped for a little over three seconds: 201 arrivals are due, and the cap
is 200. -/
theorem burst_over_cap :
    let c := run (launch defaultArgs 0) [.turn 0 (25 / 8) (List.replicate 201 (1 / 64))]
    maxInFlight c = 200 ∧ c.admissions.length = 201 ∧ c.admissions.getLast? = some ⟨200, 200⟩ ∧
      c.c.localDrops = 0 := by
  decide +kernel

end MaglevLb.LoadClient
