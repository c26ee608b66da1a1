import MaglevLb.LoadClient
import Mathlib.Algebra.BigOperators.Group.Finset.Piecewise
import Mathlib.Data.Fintype.Option

/-!
# The load generator's counters

Every arrival ends in one of the counters: it is served, it has failed for a reason, or it is
still under way. Settings may change while requests run, and the counters may be set to zero;
from then on they account for what was under way and what arrives.
-/
namespace MaglevLb.ClientAccounts

open IndexedLists LoadClient
open ServiceServer (isReset isReset_iff)
open Schema (Json)

instance : Fintype Reason where
  elems := {.timeout, .noRoute, .crashed, .shed, .error, .clientOverload}
  complete r := by cases r <;> decide

/-! ### The books -/

/-- A request at an await has an attempt to its name, and a reason once one has failed. -/
structure Task.Valid (t : Task) : Prop where
  attempt : (t.attempt : ℤ) < t.total
  reason : t.reason ≠ some .clientOverload
  slept : t.asleep = true → t.reason ≠ none

/-- `owed` requests were under way when the counters were set to zero, of which `waiting` had
not begun. -/
structure Balanced (owed waiting : ℕ) (c : Client) : Prop where
  served : c.c.scheduled + owed = c.c.ok + c.c.failed + unfinished c
  attempts : c.c.attempts + c.c.localDrops + c.spawned.length =
    c.c.retries + c.c.scheduled + waiting
  reasons : ∑ r, c.failedByReason r = c.c.failed
  drops : c.failedByReason (some .clientOverload) = c.c.localDrops
  known : c.failedByReason none = 0

/-- What holds whatever the counters are. -/
structure Valid (c : Client) : Prop where
  retries : 0 ≤ c.retries
  running : ∀ t ∈ c.running, Task.Valid t

section Books

variable {owed waiting k : ℕ} {c c' : Client} {t : Task}

theorem sum_update (f : Option Reason → ℕ) (r : Option Reason) (n : ℕ) :
    ∑ r', Function.update f r (f r + n) r' = ∑ r', f r' + n := by
  rw [Finset.sum_update_of_mem (Finset.mem_univ r),
    ← Finset.add_sum_erase Finset.univ f (Finset.mem_univ r), Finset.sdiff_singleton_eq_erase]
  omega

theorem Balanced.refused (h : Balanced owed waiting c) (hspec : Refused k c c') :
    Balanced owed waiting c' where
  served := by
    have hserved := h.served
    rw [unfinished] at hserved ⊢
    rw [hspec.counters, hspec.spawned, hspec.running]
    dsimp only
    omega
  attempts := by
    have hattempts := h.attempts
    rw [hspec.counters, hspec.spawned]
    dsimp only
    omega
  reasons := by
    rw [hspec.reasons, sum_update, h.reasons, hspec.counters]
  drops := by
    rw [hspec.reasons, Function.update_self, h.drops, hspec.counters]
  known := by
    rw [hspec.reasons, Function.update_of_ne (by rintro ⟨⟩), h.known]

theorem Balanced.admitted (h : Balanced owed waiting c) (hspec : Admitted k c c') :
    Balanced owed waiting c' where
  served := by
    have hserved := h.served
    rw [unfinished] at hserved ⊢
    rw [hspec.counters, hspec.spawned, hspec.running]
    dsimp only
    omega
  attempts := by
    have hattempts := h.attempts
    rw [hspec.counters, hspec.spawned]
    dsimp only
    omega
  reasons := by rw [hspec.reasons, h.reasons, hspec.counters]
  drops := by rw [hspec.reasons, h.drops, hspec.counters]
  known := by rw [hspec.reasons, h.known]

/-- The head of the loop over the attempts, for a request that is not in the list. -/
theorem Balanced.nextAttempt
    (hserved : c.c.scheduled + owed = c.c.ok + c.c.failed + (unfinished c + 1))
    (hattempts : c.c.attempts + c.c.localDrops +
      (c.spawned.length + if t.attempt = 0 then 1 else 0) = c.c.retries + c.c.scheduled + waiting)
    (hreasons : ∑ r, c.failedByReason r = c.c.failed)
    (hdrops : c.failedByReason (some .clientOverload) = c.c.localDrops)
    (hknown : c.failedByReason none = 0) (hfirst : t.attempt = 0 → 0 < t.total)
    (hlater : t.attempt ≠ 0 → t.reason ≠ none) (hoverload : t.reason ≠ some .clientOverload) :
    Balanced owed waiting (nextAttempt t c) := by
  unfold LoadClient.nextAttempt
  split
  · refine ⟨?_, ?_, hreasons, hdrops, hknown⟩
    · rw [unfinished] at hserved ⊢
      simp only [List.length_append, List.length_singleton]
      omega
    · dsimp only
      split_ifs at hattempts ⊢ <;> omega
  · next hdone =>
      have hagain : t.attempt ≠ 0 := by
        intro hzero
        rw [hzero] at hdone
        exact hdone (hfirst hzero)
      rw [if_neg hagain] at hattempts
      have hunfinished : unfinished (finish (fail t.reason c)) = unfinished c := rfl
      refine ⟨?_, ?_, ?_, ?_, ?_⟩
      · rw [hunfinished]
        simp only [finish, fail]
        omega
      · simp only [finish, fail]
        omega
      · simp only [finish, fail]
        rw [sum_update, hreasons]
      · simp only [finish, fail]
        rw [Function.update_of_ne hoverload.symm, hdrops]
      · simp only [finish, fail]
        rw [Function.update_of_ne (hlater hagain).symm, hknown]

theorem Balanced.requestBegin (h : Balanced owed waiting c) (hc : Valid c) (k : ℕ) :
    Balanced owed waiting (requestBegin k c) := by
  unfold LoadClient.requestBegin
  split
  · exact h
  · next sched hk =>
      have hlength := length_eraseIdx_of_getElem? hk
      have hserved := h.served
      have hattempts := h.attempts
      refine Balanced.nextAttempt ?_ ?_ h.reasons h.drops h.known (fun _ => ?_)
        (fun hne => absurd rfl hne) (by rintro ⟨⟩)
      · rw [unfinished] at hserved ⊢
        dsimp only
        omega
      · rw [if_pos rfl]
        dsimp only
        omega
      · have := hc.retries
        dsimp only
        omega

theorem reason_ne_overload {result : Attempt} {reason : Reason} (h : result.reason = some reason) :
    reason ≠ .clientOverload := by
  rintro rfl
  cases result <;> cases h

theorem Balanced.attemptEnd (h : Balanced owed waiting c) (k : ℕ) (result : Attempt) :
    Balanced owed waiting (attemptEnd k result c) := by
  unfold LoadClient.attemptEnd
  split
  · exact h
  · next t hk =>
      have hlength := length_eraseIdx_of_getElem? hk
      have hserved := h.served
      have hattempts := h.attempts
      split
      · exact h
      · dsimp only
        split
        · refine ⟨?_, hattempts, h.reasons, h.drops, h.known⟩
          rw [unfinished] at hserved ⊢
          simp only [finish]
          omega
        · next reason hreason =>
            split
            · refine ⟨?_, hattempts, h.reasons, h.drops, h.known⟩
              rw [unfinished] at hserved ⊢
              simp only [List.length_append, List.length_singleton]
              omega
            · refine Balanced.nextAttempt ?_ ?_ h.reasons h.drops h.known
                (fun hzero => absurd hzero (Nat.succ_ne_zero _)) (fun _ => by rintro ⟨⟩) ?_
              · rw [unfinished] at hserved ⊢
                dsimp only
                omega
              · rw [if_neg (Nat.succ_ne_zero _)]
                exact hattempts
              · exact fun heq => reason_ne_overload hreason (Option.some.inj heq)

theorem Balanced.backoffEnd (h : Balanced owed waiting c) (hc : Valid c) (k : ℕ) :
    Balanced owed waiting (backoffEnd k c) := by
  unfold LoadClient.backoffEnd
  split
  · exact h
  · next t hk =>
      have hlength := length_eraseIdx_of_getElem? hk
      have hserved := h.served
      have ht := hc.running t (List.mem_of_getElem? hk)
      split
      · next hasleep =>
          refine Balanced.nextAttempt ?_ ?_ h.reasons h.drops h.known
            (fun hzero => absurd hzero (Nat.succ_ne_zero _)) (fun _ => ht.slept hasleep) ht.reason
          · rw [unfinished] at hserved ⊢
            dsimp only
            omega
          · rw [if_neg (Nat.succ_ne_zero _)]
            exact h.attempts
      · exact h

/-! ### Requests under way -/

theorem Valid.of_running (h : Valid c) (hretries : c'.retries = c.retries)
    (hrunning : ∀ t ∈ c'.running, t ∈ c.running ∨ Task.Valid t) : Valid c' :=
  ⟨hretries ▸ h.retries, fun t ht => (hrunning t ht).elim (h.running t) id⟩

theorem Valid.nextAttempt (h : Valid c) (hoverload : t.reason ≠ some .clientOverload) :
    Valid (nextAttempt t c) := by
  unfold LoadClient.nextAttempt
  split
  · next hmore =>
      refine h.of_running rfl fun t' ht' => ?_
      rcases List.mem_append.mp ht' with hold | hlast
      · exact .inl hold
      · rw [List.mem_singleton.mp hlast]
        exact .inr ⟨hmore, hoverload, fun hfalse => nomatch hfalse⟩
  · exact h.of_running rfl fun t' ht' => .inl ht'

theorem Valid.eraseIdx (h : Valid c) (k : ℕ) : Valid { c with running := c.running.eraseIdx k } :=
  h.of_running rfl fun _ ht => .inl (List.mem_of_mem_eraseIdx ht)

theorem Valid.attemptEnd (h : Valid c) (k : ℕ) (result : Attempt) :
    Valid (attemptEnd k result c) := by
  unfold LoadClient.attemptEnd
  split
  · exact h
  · next t hk =>
      have ht := h.running t (List.mem_of_getElem? hk)
      split
      · exact h
      · dsimp only
        split
        · exact h.of_running rfl fun _ ht => .inl (List.mem_of_mem_eraseIdx ht)
        · next reason hreason =>
            have hoverload : some reason ≠ some Reason.clientOverload := fun heq =>
              reason_ne_overload hreason (Option.some.inj heq)
            split
            · refine h.of_running rfl fun t' ht' => ?_
              rcases List.mem_append.mp ht' with hold | hlast
              · exact .inl (List.mem_of_mem_eraseIdx hold)
              · rw [List.mem_singleton.mp hlast]
                exact .inr ⟨ht.attempt, hoverload, fun _ => by rintro ⟨⟩⟩
            · exact (h.eraseIdx k).nextAttempt hoverload

/-- The arrivals of a turn are refused or admitted together, or the scheduler is paused. -/
theorem turn_cases {wokeT now : ℚ} {gaps : List ℚ} (hturn : turn wokeT now gaps c = some c') :
    (∃ k, Refused k c c') ∨ (∃ k, Admitted k c c') ∨
      ∃ nextT paused, c' = { c with nextT := nextT, paused := paused } := by
  by_cases hload : generating (wake wokeT c) = true
  · rcases turn_spec hturn hload with ⟨-, hspec⟩ | ⟨-, hspec⟩
    · exact .inl ⟨_, hspec⟩
    · exact .inr (.inl ⟨_, hspec⟩)
  · obtain ⟨nextT, paused, hwake⟩ := wake_frame wokeT c
    unfold turn at hturn
    dsimp only at hturn
    rw [if_neg hload, hwake] at hturn
    cases hturn
    exact .inr (.inr ⟨nextT, true, rfl⟩)

theorem retries_arrive (now gap : ℚ) (c : Client) : (arrive now gap c).retries = c.retries := by
  unfold arrive acceptArrival
  dsimp only
  split <;> rfl

theorem retries_turn {wokeT now : ℚ} {gaps : List ℚ} (hturn : turn wokeT now gaps c = some c') :
    c'.retries = c.retries := by
  have hburst : ∀ (gaps : List ℚ) (c : Client), burst now gaps c = some c' →
      c'.retries = c.retries := by
    intro gaps
    induction gaps with
    | nil =>
        intro c h
        unfold burst at h
        split at h
        · cases h
        · cases h
          rfl
    | cons gap gaps ih =>
        intro c h
        unfold burst at h
        split at h
        · exact (ih _ h).trans (retries_arrive now gap c)
        · cases h
          rfl
  obtain ⟨nextT, paused, hwake⟩ := wake_frame wokeT c
  unfold turn at hturn
  dsimp only at hturn
  rw [hwake] at hturn
  split at hturn
  · exact (hburst gaps _ hturn).trans rfl
  · cases hturn
    rfl

theorem running_turn {wokeT now : ℚ} {gaps : List ℚ} (hturn : turn wokeT now gaps c = some c') :
    c'.running = c.running := by
  rcases turn_cases hturn with ⟨k, hspec⟩ | ⟨k, hspec⟩ | ⟨nextT, paused, rfl⟩
  · exact hspec.running
  · exact hspec.running
  · rfl

theorem Valid.step (h : Valid c) (e : Event) : Valid (step c e) := by
  cases e with
  | turn wokeT now gaps =>
      rw [LoadClient.step]
      cases hturn : turn wokeT now gaps c with
      | none => exact h
      | some c' =>
          exact h.of_running (retries_turn hturn) fun t ht => .inl (running_turn hturn ▸ ht)
  | requestBegin k =>
      rw [LoadClient.step, LoadClient.requestBegin]
      split
      · exact h
      · exact Valid.nextAttempt ⟨h.retries, h.running⟩ (by rintro ⟨⟩)
  | attemptEnd k result => exact h.attemptEnd k result
  | backoffEnd k =>
      rw [LoadClient.step, LoadClient.backoffEnd]
      split
      · exact h
      · next t hk =>
          split
          · exact (h.eraseIdx k).nextAttempt (h.running t (List.mem_of_getElem? hk)).reason
          · exact h
  | requestRaise k =>
      rw [LoadClient.step, requestRaise]
      split
      · exact h.of_running rfl fun _ ht => .inl (List.mem_of_mem_eraseIdx ht)
      · exact h
  | stats => exact ⟨h.retries, h.running⟩
  | command cmd =>
      rw [LoadClient.step, onCommand]
      split
      · exact ⟨numInt_nonneg h.retries, h.running⟩
      · split
        · exact ⟨h.retries, h.running⟩
        · exact h
      · exact ⟨h.retries, h.running⟩
      · exact h

/-! ### Runs -/

/-- The event sets no counter to zero, and no request ends by an exception. -/
def Counts : Event → Prop
  | .command cmd => isReset cmd = false
  | .requestRaise _ => False
  | _ => True

theorem Balanced.of_frame {rps timeoutMs lagMaxMs nextT : ℚ} {retries : ℤ} {load paused : Bool}
    (h : Balanced owed waiting c) :
    Balanced owed waiting
      { c with
        rps := rps, timeoutMs := timeoutMs, retries := retries, loadEnabled := load
        lagMaxMs := lagMaxMs, nextT := nextT, paused := paused } :=
  ⟨h.served, h.attempts, h.reasons, h.drops, h.known⟩

theorem Balanced.step (h : Balanced owed waiting c) (hc : Valid c) {e : Event} (he : Counts e) :
    Balanced owed waiting (step c e) := by
  cases e with
  | turn wokeT now gaps =>
      rw [LoadClient.step]
      cases hturn : turn wokeT now gaps c with
      | none => exact h
      | some c' =>
          rcases turn_cases hturn with ⟨k, hspec⟩ | ⟨k, hspec⟩ | ⟨nextT, paused, rfl⟩
          · exact h.refused hspec
          · exact h.admitted hspec
          · exact h.of_frame
  | requestBegin k => exact h.requestBegin hc k
  | attemptEnd k result => exact h.attemptEnd k result
  | backoffEnd k => exact h.backoffEnd hc k
  | requestRaise k => exact he.elim
  | stats => exact h.of_frame
  | command cmd =>
      rw [LoadClient.step, onCommand]
      split
      · exact h.of_frame
      · split
        · exact h.of_frame
        · exact h
      · next hop =>
          rw [Counts, isReset_iff.mpr hop] at he
          cases he
      · exact h

/-- The failures are those of the reasons, whatever happens. -/
theorem reasons_nextAttempt (t : Task) (c : Client) (h : ∑ r, c.failedByReason r = c.c.failed) :
    ∑ r, (nextAttempt t c).failedByReason r = (nextAttempt t c).c.failed := by
  unfold LoadClient.nextAttempt
  split
  · exact h
  · exact (sum_update ..).trans (congrArg (· + 1) h)

theorem reasons_step (h : ∑ r, c.failedByReason r = c.c.failed) (e : Event) :
    ∑ r, (step c e).failedByReason r = (step c e).c.failed := by
  cases e with
  | turn wokeT now gaps =>
      rw [LoadClient.step]
      cases hturn : turn wokeT now gaps c with
      | none => exact h
      | some c' =>
          rw [Option.getD_some]
          rcases turn_cases hturn with ⟨k, hspec⟩ | ⟨k, hspec⟩ | ⟨nextT, paused, rfl⟩
          · rw [hspec.reasons, sum_update, h, hspec.counters]
          · rw [hspec.reasons, h, hspec.counters]
          · exact h
  | requestBegin k =>
      rw [LoadClient.step, LoadClient.requestBegin]
      split
      · exact h
      · exact reasons_nextAttempt _ _ h
  | attemptEnd k result =>
      rw [LoadClient.step, LoadClient.attemptEnd]
      split
      · exact h
      · split
        · exact h
        · dsimp only
          split
          · exact h
          · split
            · exact h
            · exact reasons_nextAttempt _ _ h
  | backoffEnd k =>
      rw [LoadClient.step, LoadClient.backoffEnd]
      split
      · exact h
      · split
        · exact reasons_nextAttempt _ _ h
        · exact h
  | requestRaise k =>
      rw [LoadClient.step, requestRaise]
      split
      · exact h
      · exact h
  | stats => exact h
  | command cmd =>
      rw [LoadClient.step, onCommand]
      split
      · exact h
      · split
        · exact h
        · exact h
      · exact Finset.sum_const_zero
      · exact h

/-- Where the counters stand right after they were set to zero. -/
theorem balanced_reset (c : Client) {cmd : List (String × Json)} (h : isReset cmd = true) :
    Balanced (unfinished (step c (.command cmd))) (step c (.command cmd)).spawned.length
      (step c (.command cmd)) := by
  rw [LoadClient.step, onCommand, isReset_iff.mp h]
  exact ⟨by simp, by simp, by simp, rfl, rfl⟩

end Books

/-- From the start or from any time the counters were set to zero, with any settings that change
at any time, and as long as no request ends by an exception: every arrival and every request
that was under way is served, has failed, or is under way; the failures are those of the six
reasons, with overload for those that were dropped here, and none is without a reason; every
request that has begun has made one attempt that is not a retry; and `in_flight` is the number
of those that have begun and not ended. -/
theorem client_accounts (args : Args) (hretries : 0 ≤ args.retries) (startT : ℚ)
    (pre post : List Event)
    (hpre : pre = [] ∨ ∃ es cmd, pre = es ++ [.command cmd] ∧ isReset cmd = true)
    (hpost : ∀ e ∈ post, Counts e) :
    let c₁ := run (launch args startT) pre
    let c := run c₁ post
    c.c.scheduled + unfinished c₁ = c.c.ok + c.c.failed + unfinished c ∧
    ∑ r, c.failedByReason r = c.c.failed ∧
    c.failedByReason none = 0 ∧
    c.failedByReason (some .clientOverload) = c.c.localDrops ∧
    c.c.attempts + c.c.localDrops + c.spawned.length =
      c.c.retries + c.c.scheduled + c₁.spawned.length ∧
    c.inFlight = c.running.length := by
  intro c₁ c
  have hvalid : Valid c₁ := EventRun.run_invariant (P := Valid) (fun _ e h => h.step e)
    ⟨hretries, List.forall_mem_nil _⟩ pre
  have hstart : Balanced (unfinished c₁) c₁.spawned.length c₁ := by
    rcases hpre with hnil | ⟨es, cmd, hes, hcmd⟩
    · have hlaunch : c₁ = launch args startT := by
        change run _ pre = _
        rw [hnil]
        rfl
      rw [hlaunch]
      exact ⟨rfl, rfl, by simp [launch], rfl, rfl⟩
    · have hlast : c₁ = step (run (launch args startT) es) (.command cmd) := by
        change run _ pre = _
        rw [hes, run, EventRun.run_append]
        rfl
      rw [hlast]
      exact balanced_reset _ hcmd
  have hend := (EventRun.run_invariant_of
    (P := fun c => Valid c ∧ Balanced (unfinished c₁) c₁.spawned.length c)
    (fun _ e he h => ⟨h.1.step e, h.2.step h.1 he⟩) ⟨hvalid, hstart⟩ hpost).2
  have hcounted : Counted c := by
    have hlaunch : Counted (launch args startT) := rfl
    have hc₁ : Counted c₁ :=
      EventRun.run_invariant (P := Counted) (fun _ e h => counted_step h e) hlaunch pre
    exact EventRun.run_invariant (P := Counted) (fun _ e h => counted_step h e) hc₁ post
  exact ⟨hend.served, hend.reasons, hend.known, hend.drops, hend.attempts, hcounted⟩

def sampleBefore : List Event :=
  [.turn 0 0 [1], .requestBegin 0, .command [("op", .str "reset_stats")]]

def sampleAfter : List Event :=
  [.turn 1 1 [1 / 4, 1], .requestBegin 0, .attemptEnd 0 .ok, .attemptEnd 0 .shed,
    .turn 2 2 [1 / 4, 1], .backoffEnd 0, .attemptEnd 0 .timeout]

/-- A request is under way when the counters are set to zero, and is served; of the three that
arrive since, one has failed in both attempts and two have not begun. -/
theorem client_accounts_calm :
    let c₁ := run (launch defaultArgs 0) sampleBefore
    let c := run c₁ sampleAfter
    (c.c = ⟨3, 2, 1, 1, 1, 0⟩ ∧ unfinished c₁ = 1 ∧ unfinished c = 2) ∧
    c.c.scheduled + unfinished c₁ = c.c.ok + c.c.failed + unfinished c ∧
    ∑ r, c.failedByReason r = c.c.failed ∧
    c.failedByReason none = 0 ∧
    c.failedByReason (some .clientOverload) = c.c.localDrops ∧
    c.c.attempts + c.c.localDrops + c.spawned.length =
      c.c.retries + c.c.scheduled + c₁.spawned.length ∧
    c.inFlight = c.running.length := by
  refine ⟨by decide +kernel, client_accounts defaultArgs (by decide) 0 sampleBefore sampleAfter
    (.inr ⟨sampleBefore.dropLast, _, rfl, rfl⟩) ?_⟩
  simp [sampleAfter, Counts]

end MaglevLb.ClientAccounts
