import MaglevLb.EventRun
import MaglevLb.IndexedLists
import Mathlib.Data.List.Basic

/-!
# Restart requests

`request_lb_restart` and the tasks in `restart_lb`. A task lets the loop thread go on while it
waits for the old maglev-lb to end, for the new one to be ready and for the unowned slots to be
down; in between, requests come in and other tasks take their turns. A signal is sent at once, and
the process ends when it does. `SystemExit` in a task ends the bridge: such a step has no result.
-/
namespace MaglevLb.RestartTasks

inductive Phase where
  | converging | ready | degraded
  deriving DecidableEq

/-- Where a task is. `failed`: the wait of five seconds has raised `TimeoutExpired`. -/
inductive Stage where
  | created
  | ending (p : ℕ)
  | readying
  | converging
  | finished
  | failed
  deriving DecidableEq

/-- `lbs`: for each maglev-lb in the order of their starts, whether it runs. `terminated` is for
statements only: which of them were sent a signal. -/
structure Bridge where
  lbs : List Bool
  lbProc : ℕ
  phase : Phase
  lbRestartPending : Bool
  tasks : List Stage
  terminated : List ℕ

/-- `done`: what the task waits for has happened. `timedOut`: it has waited as long as it may. -/
inductive Event where
  | request
  | turn (k : ℕ) (done timedOut : Bool)
  | exited (p : ℕ)
  | tick
  deriving DecidableEq

namespace Bridge

/-- The bridge when its HTTP server starts. -/
def init : Bridge := ⟨[true], 0, .ready, false, [], []⟩

def running (b : Bridge) (p : ℕ) : Bool := b.lbs[p]?.getD false

def startLb (b : Bridge) : Bridge := { b with lbs := b.lbs ++ [true], lbProc := b.lbs.length }

def requestLbRestart (b : Bridge) : Bridge :=
  if b.lbRestartPending then b
  else { b with lbRestartPending := true, tasks := b.tasks ++ [.created] }

/-- `restart_lb` up to its next `await`. -/
def restartLb (done timedOut : Bool) (b : Bridge) : Stage → Option (Bridge × Stage)
  | .created =>
      let b := { b with lbRestartPending := false }
      if b.running b.lbProc then
        some ({ b with terminated := b.terminated ++ [b.lbProc] }, .ending b.lbProc)
      else some (b.startLb, .readying)
  | .ending p =>
      if timedOut then some (b, .failed)
      else if b.running p then some (b, .ending p)
      else some (b.startLb, .readying)
  | .readying =>
      if timedOut ∨ b.running b.lbProc = false then none
      else if done then some ({ b with phase := .converging }, .converging)
      else some (b, .readying)
  | .converging =>
      if done ∨ timedOut then some ({ b with phase := .ready }, .finished)
      else some (b, .converging)
  | .finished => some (b, .finished)
  | .failed => some (b, .failed)

def turn (k : ℕ) (done timedOut : Bool) (b : Bridge) : Option Bridge :=
  match b.tasks[k]? with
  | none => some b
  | some stage =>
      (restartLb done timedOut b stage).map fun (b', stage') =>
        { b' with tasks := b.tasks.set k stage' }

/-- What `tick` makes of a maglev-lb that has ended. -/
def tick (b : Bridge) : Bridge :=
  if b.running b.lbProc = false ∧ b.phase = .ready then { b with phase := .degraded } else b

end Bridge

def next (b : Bridge) : Event → Option Bridge
  | .request => some b.requestLbRestart
  | .turn k done timedOut => b.turn k done timedOut
  | .exited p => some { b with lbs := b.lbs.set p false }
  | .tick => some b.tick

def run (b : Bridge) (es : List Event) : Option Bridge := es.foldlM next b

/-! ### One turn -/

/-- The task has started a maglev-lb. -/
def Stage.renewed : Stage → Bool
  | .readying | .converging | .finished => true
  | _ => false

def Stage.isCreated (stage : Stage) : Bool := stage = .created

def Stage.isEnding : Stage → Bool
  | .ending _ => true
  | _ => false

/-- What a task does in a turn, the list of tasks apart: it sends a signal, starts a maglev-lb at
once or after its wait, or touches no process. -/
inductive Move (b : Bridge) : Stage → Stage → Bridge → Prop where
  | terminate : b.running b.lbProc = true →
      Move b .created (.ending b.lbProc)
        { b with lbRestartPending := false, terminated := b.terminated ++ [b.lbProc] }
  | revive : b.running b.lbProc = false →
      Move b .created .readying { b with lbRestartPending := false }.startLb
  | replace {p : ℕ} : b.running p = false → Move b (.ending p) .readying b.startLb
  | settle {stage stage' : Stage} (phase : Phase) : stage.isCreated = false →
      stage'.isCreated = false → stage'.renewed = stage.renewed →
      (stage'.isEnding = true → stage' = stage) → Move b stage stage' { b with phase := phase }

section Turn

variable {b b' : Bridge} {stage stage' : Stage} {done timedOut : Bool} {k p q : ℕ}

theorem restartLb_move (h : b.restartLb done timedOut stage = some (b', stage')) :
    Move b stage stage' b' := by
  cases stage with
  | created =>
      simp only [Bridge.restartLb] at h
      split at h
      · next hrunning =>
          cases h
          exact .terminate hrunning
      · next hrunning =>
          cases h
          exact .revive (Bool.eq_false_iff.mpr hrunning)
  | ending p =>
      simp only [Bridge.restartLb] at h
      split at h
      · cases h
        exact .settle b.phase rfl rfl rfl nofun
      · split at h
        · cases h
          exact .settle b.phase rfl rfl rfl fun _ => rfl
        · next hrunning =>
            cases h
            exact .replace (Bool.eq_false_iff.mpr hrunning)
  | readying =>
      simp only [Bridge.restartLb] at h
      split at h
      · cases h
      · split at h
        · cases h
          exact .settle .converging rfl rfl rfl nofun
        · cases h
          exact .settle b.phase rfl rfl rfl nofun
  | converging =>
      simp only [Bridge.restartLb] at h
      split at h
      · cases h
        exact .settle .ready rfl rfl rfl nofun
      · cases h
        exact .settle b.phase rfl rfl rfl nofun
  | finished | failed =>
      cases h
      exact .settle b.phase rfl rfl rfl nofun

/-- What an event does: a request that comes while none is pending creates a task, a process ends,
a task takes its turn, or at most the phase changes. -/
inductive Change (b : Bridge) : Event → Bridge → Prop where
  | idle {e : Event} (phase : Phase) : Change b e { b with phase := phase }
  | create : b.lbRestartPending = false →
      Change b .request { b with lbRestartPending := true, tasks := b.tasks ++ [.created] }
  | exit (p : ℕ) : Change b (.exited p) { b with lbs := b.lbs.set p false }
  | move {k : ℕ} {done timedOut : Bool} {stage stage' : Stage} {b₁ : Bridge} :
      b.tasks[k]? = some stage → Move b stage stage' b₁ →
      Change b (.turn k done timedOut) { b₁ with tasks := b.tasks.set k stage' }

theorem request_change (b : Bridge) : Change b .request b.requestLbRestart := by
  unfold Bridge.requestLbRestart
  split
  · exact .idle b.phase
  · next hpending => exact .create (Bool.eq_false_iff.mpr hpending)

theorem next_change {e : Event} (h : next b e = some b') : Change b e b' := by
  cases e with
  | request =>
      cases h
      exact request_change b
  | turn k done timedOut =>
      simp only [next, Bridge.turn] at h
      split at h
      · cases h
        exact .idle b.phase
      · next stage hk =>
          obtain ⟨⟨b₁, stage'⟩, hmove, rfl⟩ := Option.map_eq_some_iff.mp h
          exact .move hk (restartLb_move hmove)
  | exited p =>
      cases h
      exact .exit p
  | tick =>
      cases h
      unfold Bridge.tick
      split
      · exact .idle .degraded
      · exact .idle b.phase

theorem running_lt (h : b.running p = true) : p < b.lbs.length := by
  by_contra hp
  rw [Bridge.running, List.getElem?_eq_none (Nat.le_of_not_lt hp)] at h
  cases h

theorem running_exited (h : Bridge.running { b with lbs := b.lbs.set q false } p = true) :
    b.running p = true := by
  rw [Bridge.running, List.getElem?_set] at h
  split at h
  · split at h <;> cases h
  · exact h

theorem length_startLb (b : Bridge) : b.startLb.lbs.length = b.lbs.length + 1 :=
  List.length_append.trans rfl

theorem running_startLb : b.startLb.running p = true ↔ b.running p = true ∨ p = b.lbs.length := by
  unfold Bridge.running Bridge.startLb
  rcases Nat.lt_trichotomy p b.lbs.length with hp | rfl | hp
  · rw [List.getElem?_append_left hp]
    exact ⟨.inl, fun h => h.resolve_right hp.ne⟩
  · simp
  · rw [List.getElem?_eq_none (by simp; omega), List.getElem?_eq_none hp.le]
    simp [hp.ne']

end Turn

/-! ### Requests -/

section Requests

variable {b b' : Bridge} {k n : ℕ}

/-- The flag is set as long as there is a task that has not begun, and there is never another. -/
def Coalesced (b : Bridge) : Prop := b.tasks.countP Stage.isCreated = b.lbRestartPending.toNat

theorem Coalesced.change {e : Event} (h : Coalesced b) (hc : Change b e b') : Coalesced b' := by
  cases hc with
  | idle | exit => exact h
  | create hpending =>
      rw [Coalesced, hpending] at h
      rw [Coalesced, List.countP_append, h]
      rfl
  | @move k _ _ stage stage' b₁ hk hmove =>
      have hcount := IndexedLists.countP_set_add Stage.isCreated hk stage'
      rw [h] at hcount
      cases hmove with
      | terminate | revive =>
          -- The task that begins is the one the flag is set for.
          have hle := Bool.toNat_le b.lbRestartPending
          change _ + 1 = _ + 0 at hcount
          change (b.tasks.set k _).countP Stage.isCreated = 0
          omega
      | replace => exact hcount
      | settle phase hold hnew =>
          rw [hold, hnew] at hcount
          exact hcount

/-- Task `k` has started a maglev-lb only after there were `n` of them. -/
def Renews (k n : ℕ) (b : Bridge) : Prop :=
  n ≤ b.lbs.length ∧ ∃ stage, b.tasks[k]? = some stage ∧ (stage.renewed = true → n < b.lbs.length)

theorem Renews.change {e : Event} (h : Renews k n b) (hc : Change b e b') : Renews k n b' := by
  obtain ⟨hn, old, hold, hrenewed⟩ := h
  have hk : k < b.tasks.length := (List.getElem?_eq_some_iff.mp hold).1
  cases hc with
  | idle => exact ⟨hn, old, hold, hrenewed⟩
  | create => exact ⟨hn, old, (List.getElem?_append_left hk).trans hold, hrenewed⟩
  | exit =>
      unfold Renews
      rw [List.length_set]
      exact ⟨hn, old, hold, hrenewed⟩
  | @move j _ _ stage stage' b₁ hj hmove =>
      have hlength : b.lbs.length ≤ b₁.lbs.length := by
        cases hmove <;> simp [Bridge.startLb]
      refine ⟨hn.trans hlength, ?_⟩
      dsimp only
      by_cases hjk : j = k
      · subst hjk
        obtain rfl := Option.some.inj (hj.symm.trans hold)
        refine ⟨stage', List.getElem?_set_self hk, fun hr => ?_⟩
        cases hmove with
        | terminate => cases hr
        | revive | replace =>
            rw [length_startLb]
            exact Nat.lt_succ_of_le hn
        | settle phase _ _ hsame => exact hrenewed (hsame ▸ hr)
      · rw [List.getElem?_set_ne hjk]
        exact ⟨old, hold, fun hr => (hrenewed hr).trans_le hlength⟩

theorem request_pending (b : Bridge) : b.requestLbRestart.lbRestartPending = true := by
  unfold Bridge.requestLbRestart
  split
  · next hpending => exact hpending
  · rfl

theorem request_lbs (b : Bridge) : b.requestLbRestart.lbs = b.lbs := by
  unfold Bridge.requestLbRestart
  split <;> rfl

theorem init_coalesced : Coalesced .init := rfl

theorem run_coalesced {es : List Event} (h : run .init es = some b) : Coalesced b :=
  EventRun.foldlM_invariant (fun h hn => h.change (next_change hn)) init_coalesced h

/-- Requests are gathered: after a request exactly one task has not begun, and unless that one
fails, it comes to where a maglev-lb has been started after the request. -/
theorem requests_gathered (es es' : List Event) (hb : run .init es = some b)
    (hb' : run b.requestLbRestart es' = some b') :
    b.requestLbRestart.tasks.countP Stage.isCreated = 1 ∧
      ∃ (k : ℕ) (stage : Stage), b.requestLbRestart.tasks[k]? = some .created ∧
        b'.tasks[k]? = some stage ∧ (stage.renewed = true → b.lbs.length < b'.lbs.length) := by
  have hone : b.requestLbRestart.tasks.countP Stage.isCreated = 1 := by
    rw [(run_coalesced hb).change (request_change b), request_pending]
    rfl
  obtain ⟨task, htask, hcreated⟩ := List.countP_pos_iff.mp (hone ▸ Nat.one_pos)
  obtain rfl := of_decide_eq_true hcreated
  obtain ⟨k, hk⟩ := List.mem_iff_getElem?.mp htask
  have hstart : Renews k b.lbs.length b.requestLbRestart :=
    ⟨(request_lbs b ▸ le_rfl), .created, hk, nofun⟩
  obtain ⟨-, stage, hstage, hrenewed⟩ : Renews k b.lbs.length b' :=
    EventRun.foldlM_invariant (fun h hn => h.change (next_change hn)) hstart hb'
  exact ⟨hone, k, stage, hk, hstage, hrenewed⟩

/-- The maglev-lb ends as soon as it is asked to. -/
def restarted : List Event := [.turn 0 false false, .exited 0, .turn 0 false false]

/-- The one task has got past its wait, and there is a second maglev-lb. -/
theorem requests_gathered_once :
    ∃ b', run Bridge.init.requestLbRestart restarted = some b' ∧
      Bridge.init.requestLbRestart.tasks.countP Stage.isCreated = 1 ∧
      ∃ k : ℕ, Bridge.init.requestLbRestart.tasks[k]? = some .created ∧
        b'.tasks[k]? = some .readying ∧ 1 < b'.lbs.length := by
  have hrun : (run Bridge.init.requestLbRestart restarted).any
      (fun b' => b'.tasks = [.readying]) = true := by decide
  obtain ⟨b', hb', htasks⟩ := (Option.any_eq_true _ _).mp hrun
  have htasks : b'.tasks = [.readying] := of_decide_eq_true htasks
  obtain ⟨hone, k, stage, hk, hstage, hrenewed⟩ := requests_gathered [] restarted rfl hb'
  obtain rfl : stage = .readying := by
    rw [htasks] at hstage
    exact List.mem_singleton.mp (List.mem_of_getElem? hstage)
  exact ⟨b', hb', hone, k, hk, hstage, hrenewed rfl⟩

end Requests

/-! ### One maglev-lb at a time -/

section Sole

variable {b b' : Bridge} {k p : ℕ}

/-- No restart begins while another waits for a maglev-lb to end. -/
def Alone (b : Bridge) : Event → Prop
  | .turn k _ _ => b.tasks[k]? = some .created → b.tasks.countP Stage.isEnding = 0
  | _ => True

instance (b : Bridge) (e : Event) : Decidable (Alone b e) := by
  cases e <;> unfold Alone <;> infer_instance

/-- No maglev-lb runs but `lb_proc`, and at most one task waits for it to end. Then a maglev-lb is
started only where none runs. -/
structure Sole (b : Bridge) : Prop where
  current : ∀ p, b.running p = true → p = b.lbProc
  awaited : ∀ p, .ending p ∈ b.tasks → p = b.lbProc
  single : b.tasks.countP Stage.isEnding ≤ 1

theorem not_mem_of_countP {tasks : List Stage} (h : tasks.countP Stage.isEnding = 0) (p : ℕ) :
    .ending p ∉ tasks := fun hp => List.countP_eq_zero.mp h _ hp rfl

/-- Where nothing runs, a maglev-lb is started and no task waits. -/
theorem Sole.start {tasks : List Stage} (hdead : ∀ p, b.running p = false)
    (htasks : tasks.countP Stage.isEnding = 0) : Sole { b.startLb with tasks := tasks } where
  current := fun p hp =>
    (running_startLb.mp hp).resolve_left (Bool.eq_false_iff.mp (hdead p))
  awaited := fun p hp => absurd hp (not_mem_of_countP htasks p)
  single := htasks.le.trans (Nat.zero_le 1)

theorem Sole.dead (h : Sole b) (hp : b.running b.lbProc = false) (q : ℕ) :
    b.running q = false := by
  rw [Bool.eq_false_iff]
  intro hq
  rw [h.current q hq, hp] at hq
  cases hq

theorem Sole.move {stage stage' : Stage} {b₁ : Bridge} (h : Sole b)
    (hk : b.tasks[k]? = some stage) (hmove : Move b stage stage' b₁)
    (halone : stage = .created → b.tasks.countP Stage.isEnding = 0) :
    Sole { b₁ with tasks := b.tasks.set k stage' } := by
  have hcount := IndexedLists.countP_set_add Stage.isEnding hk stage'
  have hsingle := h.single
  cases hmove with
  | terminate =>
      rw [halone rfl] at hcount
      refine ⟨h.current, fun p hp => ?_, hcount.le⟩
      rcases List.mem_or_eq_of_mem_set hp with hold | hnew
      · exact h.awaited p hold
      · exact Stage.ending.inj hnew
  | revive hdead =>
      rw [halone rfl] at hcount
      exact Sole.start (b := { b with lbRestartPending := false }) (h.dead hdead) hcount
  | @replace p hdead =>
      obtain rfl := h.awaited p (List.mem_of_getElem? hk)
      change _ + 1 = _ + 0 at hcount
      exact Sole.start (h.dead hdead) (by omega)
  | settle phase _ _ _ hkept =>
      refine ⟨h.current, fun p hp => ?_, ?_⟩
      · rcases List.mem_or_eq_of_mem_set hp with hold | rfl
        · exact h.awaited p hold
        · exact h.awaited p (hkept rfl ▸ List.mem_of_getElem? hk)
      · dsimp only
        cases hnew : stage'.isEnding with
        | false =>
            rw [hnew] at hcount
            change _ + _ = _ + 0 at hcount
            omega
        | true =>
            obtain rfl := hkept hnew
            omega

theorem Sole.change {e : Event} (h : Sole b) (halone : Alone b e) (hc : Change b e b') :
    Sole b' := by
  cases hc with
  | idle => exact ⟨h.current, h.awaited, h.single⟩
  | create =>
      refine ⟨h.current, fun p hp => ?_, ?_⟩
      · rcases List.mem_append.mp hp with hold | hnew
        · exact h.awaited p hold
        · cases List.mem_singleton.mp hnew
      · rw [List.countP_append]
        exact h.single
  | exit => exact ⟨fun p hp => h.current p (running_exited hp), h.awaited, h.single⟩
  | move hk hmove => exact h.move hk hmove fun hcreated => halone (hcreated ▸ hk)

theorem init_sole : Sole .init where
  current := fun _ hp => Nat.lt_one_iff.mp (running_lt hp)
  awaited := fun _ hp => absurd hp List.not_mem_nil
  single := Nat.zero_le 1

theorem Sole.ended {e : Event} (h : Sole b) (hc : Change b e b')
    (hlength : b.lbs.length < b'.lbs.length) : ∀ p, b.running p = false := by
  cases hc with
  | idle | create => exact absurd hlength (lt_irrefl _)
  | exit =>
      rw [List.length_set] at hlength
      exact absurd hlength (lt_irrefl _)
  | move hk hmove =>
      cases hmove with
      | terminate | settle => exact absurd hlength (lt_irrefl _)
      | revive hdead => exact h.dead hdead
      | @replace p hdead =>
          obtain rfl := h.awaited p (List.mem_of_getElem? hk)
          exact h.dead hdead

/-- As long as no restart begins while another one waits for the old maglev-lb to end, there is
never more than one maglev-lb, it is the one that the bridge knows, and the next one is started
only when it has ended. -/
theorem one_lb_at_a_time (es : List Event) (halone : EventRun.Along next Alone .init es)
    (hb : run .init es = some b) :
    (∀ p, b.running p = true → p = b.lbProc) ∧
      ∀ e b', next b e = some b' → b.lbs.length < b'.lbs.length → ∀ p, b.running p = false :=
  have hsole : Sole b :=
    halone.invariant (fun h ha hn => h.change ha (next_change hn)) init_sole hb
  ⟨hsole.current, fun _ _ hn => hsole.ended (next_change hn)⟩

theorem one_lb_at_a_time_restarted :
    ∃ b, run .init (.request :: restarted) = some b ∧ b.running 1 = true ∧ b.running 0 = false ∧
      ∀ p, b.running p = true → p = b.lbProc := by
  have hrun : (run .init (.request :: restarted)).any
      (fun b => b.running 1 = true ∧ b.running 0 = false) = true := by decide
  obtain ⟨b, hb, h⟩ := (Option.any_eq_true _ _).mp hrun
  obtain ⟨hnew, hold⟩ := of_decide_eq_true h
  exact ⟨b, hb, hnew, hold, (one_lb_at_a_time _ (by decide) hb).1⟩

end Sole

/-! ### Restarts that overlap -/

section Overlap

variable {b b' : Bridge} {j k p q : ℕ}

/-- The processes that the bridge has to do with are among those it has started. -/
structure Numbered (b : Bridge) : Prop where
  current : b.lbProc < b.lbs.length
  awaited : ∀ p, .ending p ∈ b.tasks → p < b.lbs.length
  terminated : ∀ q ∈ b.terminated, q < b.lbs.length

theorem init_numbered : Numbered .init :=
  ⟨Nat.one_pos, fun _ hp => absurd hp List.not_mem_nil, fun _ hq => absurd hq List.not_mem_nil⟩

/-- Starting one more leaves the others their numbers. -/
theorem Numbered.start {tasks : List Stage} (h : Numbered b)
    (htasks : ∀ p, .ending p ∈ tasks → .ending p ∈ b.tasks) :
    Numbered { b.startLb with tasks := tasks } := by
  have hlength := length_startLb b
  refine ⟨?_, fun p hp => ?_, fun q hq => ?_⟩
  · rw [hlength]
    exact Nat.lt_succ_self _
  · rw [hlength]
    exact (h.awaited p (htasks p hp)).trans (Nat.lt_succ_self _)
  · rw [hlength]
    exact (h.terminated q hq).trans (Nat.lt_succ_self _)

theorem Numbered.move {stage stage' : Stage} {b₁ : Bridge} (h : Numbered b)
    (hk : b.tasks[k]? = some stage) (hmove : Move b stage stage' b₁) :
    Numbered { b₁ with tasks := b.tasks.set k stage' } := by
  cases hmove with
  | terminate =>
      refine ⟨h.current, fun p hp => ?_,
        List.forall_mem_append.mpr ⟨h.terminated, List.forall_mem_singleton.mpr h.current⟩⟩
      rcases List.mem_or_eq_of_mem_set hp with hold | hnew
      · exact h.awaited p hold
      · cases hnew
        exact h.current
  | revive =>
      refine Numbered.start (b := { b with lbRestartPending := false })
        ⟨h.current, h.awaited, h.terminated⟩ fun p hp => ?_
      exact (List.mem_or_eq_of_mem_set hp).resolve_right nofun
  | replace =>
      refine h.start fun p hp => ?_
      exact (List.mem_or_eq_of_mem_set hp).resolve_right nofun
  | settle phase _ _ _ hkept =>
      refine ⟨h.current, fun p hp => ?_, h.terminated⟩
      rcases List.mem_or_eq_of_mem_set hp with hold | rfl
      · exact h.awaited p hold
      · exact h.awaited p (hkept rfl ▸ List.mem_of_getElem? hk)

theorem Numbered.change {e : Event} (h : Numbered b) (hc : Change b e b') : Numbered b' := by
  cases hc with
  | idle => exact ⟨h.current, h.awaited, h.terminated⟩
  | create =>
      refine ⟨h.current, fun p hp => ?_, h.terminated⟩
      rcases List.mem_append.mp hp with hold | hnew
      · exact h.awaited p hold
      · cases List.mem_singleton.mp hnew
  | exit q =>
      have hlength : (b.lbs.set q false).length = b.lbs.length := List.length_set
      exact ⟨hlength.symm ▸ h.current, fun p hp => hlength.symm ▸ h.awaited p hp,
        fun p hp => hlength.symm ▸ h.terminated p hp⟩
  | move hk hmove => exact h.move hk hmove

/-- The bridge has started the process, has never sent it a signal and does not know it any
more. -/
structure Forgotten (q : ℕ) (b : Bridge) : Prop where
  started : q < b.lbs.length
  unknown : q ≠ b.lbProc
  spared : q ∉ b.terminated

theorem Forgotten.start {tasks : List Stage} (h : Forgotten q b) :
    Forgotten q { b.startLb with tasks := tasks } :=
  ⟨(length_startLb b).symm ▸ h.started.trans (Nat.lt_succ_self _), h.started.ne, h.spared⟩

/-- It stays forgotten: `lb_proc` only ever moves on to a process that is new. -/
theorem Forgotten.change {e : Event} (h : Forgotten q b) (hc : Change b e b') :
    Forgotten q b' := by
  cases hc with
  | idle | create => exact ⟨h.started, h.unknown, h.spared⟩
  | exit => exact ⟨List.length_set.symm ▸ h.started, h.unknown, h.spared⟩
  | move hk hmove =>
      cases hmove with
      | terminate =>
          refine ⟨h.started, h.unknown, fun hq => ?_⟩
          rcases List.mem_append.mp hq with hold | hnew
          · exact h.spared hold
          · exact h.unknown (List.mem_singleton.mp hnew)
      | revive =>
          exact Forgotten.start (b := { b with lbRestartPending := false })
            ⟨h.started, h.unknown, h.spared⟩
      | replace => exact h.start
      | settle => exact ⟨h.started, h.unknown, h.spared⟩

theorem running_change {e : Event} (h : b.running q = true) (he : e ≠ .exited q)
    (hc : Change b e b') : b'.running q = true := by
  cases hc with
  | idle | create => exact h
  | exit p =>
      have hne : p ≠ q := fun hpq => he (hpq ▸ rfl)
      rw [Bridge.running, List.getElem?_set_ne hne]
      exact h
  | move hk hmove =>
      cases hmove with
      | terminate | settle => exact h
      | revive | replace => exact running_startLb.mpr (.inl h)

/-- What task `k` leaves when the maglev-lb that it has waited for has ended. -/
def Bridge.replaced (k : ℕ) (b : Bridge) : Bridge :=
  { b.startLb with tasks := b.tasks.set k .readying }

theorem running_replaced :
    (b.replaced k).running p = true ↔ b.running p = true ∨ p = b.lbs.length := running_startLb

theorem length_replaced (k : ℕ) (b : Bridge) : (b.replaced k).lbs.length = b.lbs.length + 1 :=
  length_startLb b

theorem turn_replaced (hk : b.tasks[k]? = some (.ending p)) (hp : b.running p = false)
    (done : Bool) : b.turn k done false = some (b.replaced k) := by
  simp only [Bridge.turn, hk, Bridge.restartLb, hp, Bool.false_eq_true, if_false, Option.map_some]
  rfl

/-- The second task still finds that the maglev-lb it waits for has ended. -/
theorem turns_replaced (h : Numbered b) (hjk : j ≠ k) (hj : b.tasks[j]? = some (.ending p))
    (hk : b.tasks[k]? = some (.ending p)) (hp : b.running p = false) (done done' : Bool) :
    run b [.turn j done false, .turn k done' false] = some ((b.replaced j).replaced k) := by
  have hwaits : (b.replaced j).tasks[k]? = some (.ending p) :=
    (List.getElem?_set_ne hjk).trans hk
  have hended : (b.replaced j).running p = false := by
    rw [Bool.eq_false_iff]
    intro hrunning
    rcases running_replaced.mp hrunning with hold | rfl
    · rw [hp] at hold
      cases hold
    · exact lt_irrefl _ (h.awaited _ (List.mem_of_getElem? hj))
  simp only [run, List.foldlM_cons, List.foldlM_nil, next, turn_replaced hj hp,
    turn_replaced hwaits hended, Option.bind_eq_bind, Option.bind_some]
  rfl

theorem forgotten_replaced (h : Numbered b) :
    Forgotten b.lbs.length ((b.replaced j).replaced k) where
  started := by
    rw [length_replaced, length_replaced]
    omega
  unknown := by
    change b.lbs.length ≠ (b.replaced j).lbs.length
    rw [length_replaced]
    omega
  spared := fun hq => lt_irrefl _ (h.terminated _ hq)

/-- Two restarts that wait for the same maglev-lb to end start one each. The first of the two is
forgotten: it runs beside the other until it ends of its own, and whatever is requested later, no
restart sends it a signal. -/
theorem overlapping_restarts (es : List Event) (hb : run .init es = some b) (hjk : j ≠ k)
    (hj : b.tasks[j]? = some (.ending p)) (hk : b.tasks[k]? = some (.ending p))
    (hp : b.running p = false) (done done' : Bool) :
    ∃ b₁, run b [.turn j done false, .turn k done' false] = some b₁ ∧
      b₁.running b₁.lbProc = true ∧ ∀ es' b₂, run b₁ es' = some b₂ →
        b.lbs.length ≠ b₂.lbProc ∧ b.lbs.length ∉ b₂.terminated ∧
          (.exited b.lbs.length ∉ es' → b₂.running b.lbs.length = true) := by
  have hnumbered : Numbered b :=
    EventRun.foldlM_invariant (fun h hn => h.change (next_change hn)) init_numbered hb
  refine ⟨(b.replaced j).replaced k, turns_replaced hnumbered hjk hj hk hp done done',
    running_replaced.mpr (.inr rfl), fun es' b₂ hb₂ => ?_⟩
  have hforgotten : Forgotten b.lbs.length b₂ :=
    EventRun.foldlM_invariant (fun h hn => h.change (next_change hn))
      (forgotten_replaced hnumbered) hb₂
  refine ⟨hforgotten.unknown, hforgotten.spared, fun hes => ?_⟩
  have hothers : ∀ e ∈ es', e ≠ .exited b.lbs.length := by
    rintro e he rfl
    exact hes he
  have hfirst : ((b.replaced j).replaced k).running b.lbs.length = true :=
    running_replaced.mpr (.inl (running_replaced.mpr (.inr rfl)))
  exact (EventRun.along_of_forall hothers _).invariant
    (fun h he hn => running_change h he (next_change hn)) hfirst hb₂

/-- A second request comes while the first restart waits. -/
def overlapped : List Event :=
  [.request, .turn 0 false false, .request, .turn 1 false false, .exited 0]

theorem overlapping_restarts_twice :
    ∃ b b₁, run .init overlapped = some b ∧
      run b [.turn 0 false false, .turn 1 false false] = some b₁ ∧
      b₁.running b₁.lbProc = true ∧ b₁.running 1 = true ∧ 1 ≠ b₁.lbProc := by
  have hrun : (run .init overlapped).any (fun b => b.tasks[0]? = some (.ending 0) ∧
      b.tasks[1]? = some (.ending 0) ∧ b.running 0 = false ∧ b.lbs.length = 1) = true := by
    decide
  obtain ⟨b, hb, h⟩ := (Option.any_eq_true _ _).mp hrun
  obtain ⟨hfirst, hsecond, hended, hlength⟩ := of_decide_eq_true h
  obtain ⟨b₁, hb₁, hcurrent, hlater⟩ :=
    overlapping_restarts overlapped hb (by decide) hfirst hsecond hended false false
  obtain ⟨hunknown, -, hrunning⟩ := hlater [] b₁ rfl
  rw [hlength] at hunknown hrunning
  exact ⟨b, b₁, hb, hb₁, hcurrent, hrunning List.not_mem_nil, hunknown⟩

end Overlap

end MaglevLb.RestartTasks
