import Mathlib.Data.Prod.Lex
import Mathlib.Data.Rat.Defs

/-!
# Child processes of the bridge

The executor starts and signals the responders and load clients and writes
admin commands. A moment is the call into the bridge together with the number
of executor operations made in it so far, so a process can exit between any two
operations. When it exits is up to the environment.
-/
namespace MaglevLb.Children

/-- The call into the bridge, and the position in it. -/
abbrev Moment := ℕ ×ₗ ℕ

structure BackendConfig where
  capacity : ℤ
  serviceMs : ℚ
  serviceCv : ℚ
  queueLimit : ℤ
  errorRate : ℚ
  deriving DecidableEq, Repr

structure ClientConfig where
  rps : ℚ
  timeoutMs : ℚ
  retries : ℤ
  poolSize : ℤ
  maxConnAgeMs : ℤ
  deriving DecidableEq, Repr

/-- A child: what it was started for, and the seed it was started with. -/
inductive Proc where
  | backend (slot seed : ℕ)
  | client (index seed : ℕ)
  deriving DecidableEq, Repr

inductive Message where
  | clear
  | fault (slowFactor errorRate : ℚ)
  | resetStats
  | backendConfig (cfg : BackendConfig)
  | clientConfig (cfg : ClientConfig)
  | load (enabled : Bool)
  deriving DecidableEq, Repr

inductive Verb where
  | drain
  | undrain
  deriving DecidableEq, Repr

/-- The executor's commands. `alive` and `latest` only look, and are not among them. -/
inductive Call where
  | spawnBackend (slot : ℕ) (cfg : BackendConfig) (seed : ℕ)
  | spawnClient (index : ℕ) (cfg : ClientConfig) (enabled : Bool) (seed : ℕ)
  | send (proc : Option Proc) (obj : Message)
  | terminate (proc : Option Proc)
  | kill (proc : Option Proc)
  | admin (verb : Verb) (lbId : ℕ)
  | setGre (slot : ℕ) (up : Bool)
  deriving DecidableEq, Repr

structure Executor where
  now : Moment
  seed : ℕ
  log : List (Moment × Call)
  deriving DecidableEq

namespace Executor

def init : Executor := ⟨toLex (0, 0), 1, []⟩

/-- One operation later. -/
def tick (ex : Executor) : Executor :=
  { ex with now := toLex ((ofLex ex.now).1, (ofLex ex.now).2 + 1) }

def nextTurn (ex : Executor) : Executor := { ex with now := toLex ((ofLex ex.now).1 + 1, 0) }

def call (ex : Executor) (c : Call) : Executor := { ex.tick with log := ex.log ++ [(ex.now, c)] }

/-- The new responder is the one with the executor's seed afterwards. -/
def spawnBackend (ex : Executor) (slot : ℕ) (cfg : BackendConfig) : Executor :=
  let ex := { ex with seed := ex.seed + 1 }
  ex.call (.spawnBackend slot cfg ex.seed)

def spawnClient (ex : Executor) (index : ℕ) (cfg : ClientConfig) (enabled : Bool) : Executor :=
  let ex := { ex with seed := ex.seed + 1 }
  ex.call (.spawnClient index cfg enabled ex.seed)

def alive (exits : Proc → Moment) (ex : Executor) (proc : Option Proc) : Bool :=
  proc.any fun p => ex.now < exits p

theorem now_lt_tick (ex : Executor) : ex.now < ex.tick.now := by
  rw [Prod.Lex.lt_iff]
  exact .inr ⟨rfl, Nat.lt_succ_self _⟩

@[simp] theorem tick_seed (ex : Executor) : ex.tick.seed = ex.seed := rfl

@[simp] theorem tick_log (ex : Executor) : ex.tick.log = ex.log := rfl

@[simp] theorem call_now (ex : Executor) (c : Call) : (ex.call c).now = ex.tick.now := rfl

@[simp] theorem call_seed (ex : Executor) (c : Call) : (ex.call c).seed = ex.seed := rfl

@[simp] theorem call_log (ex : Executor) (c : Call) :
    (ex.call c).log = ex.log ++ [(ex.now, c)] := rfl

@[simp] theorem spawnBackend_seed (ex : Executor) (slot : ℕ) (cfg : BackendConfig) :
    (ex.spawnBackend slot cfg).seed = ex.seed + 1 := rfl

@[simp] theorem spawnBackend_log (ex : Executor) (slot : ℕ) (cfg : BackendConfig) :
    (ex.spawnBackend slot cfg).log =
      ex.log ++ [(ex.now, .spawnBackend slot cfg (ex.seed + 1))] := rfl

/-- A process that is dead stays dead. -/
theorem alive_antitone {exits : Proc → Moment} {ex ex' : Executor} (h : ex.now ≤ ex'.now)
    {proc : Option Proc} (ha : ex'.alive exits proc = true) : ex.alive exits proc = true := by
  cases proc with
  | none => cases ha
  | some p =>
      have hlt : ex'.now < exits p := by simpa [alive] using ha
      simpa [alive] using h.trans_lt hlt

theorem exited_of_not_alive {exits : Proc → Moment} {ex : Executor} {p : Proc}
    (h : ex.alive exits (some p) = false) : exits p ≤ ex.now := by
  simpa [alive] using h

theorem now_lt_nextTurn (ex : Executor) : ex.now < ex.nextTurn.now := by
  rw [Prod.Lex.lt_iff]
  exact .inl (Nat.lt_succ_self _)

@[simp] theorem nextTurn_log (ex : Executor) : ex.nextTurn.log = ex.log := rfl

/-- The process is alive during the whole of the current call into the bridge. -/
def outlives (exits : Proc → Moment) (ex : Executor) (proc : Option Proc) : Bool :=
  proc.any fun p => (ofLex ex.now).1 < (ofLex (exits p)).1

theorem lt_of_outlives {exits : Proc → Moment} {ex : Executor} {proc : Option Proc}
    (h : ex.outlives exits proc = true) {m : Moment} (hm : (ofLex m).1 = (ofLex ex.now).1) :
    ∃ p, proc = some p ∧ m < exits p := by
  obtain ⟨p, hp, hlt⟩ := (Option.any_eq_true _ _).mp h
  refine ⟨p, hp, ?_⟩
  rw [Prod.Lex.lt_iff]
  exact .inl (hm ▸ by simpa using hlt)

theorem alive_of_outlives {exits : Proc → Moment} {ex : Executor} {proc : Option Proc}
    (h : ex.outlives exits proc = true) : ex.alive exits proc = true := by
  obtain ⟨p, rfl, hlt⟩ := lt_of_outlives h rfl
  simpa [alive] using hlt

/-- `ex'` comes after `ex` in the same call into the bridge, with only commands in `P` between. -/
structure Advances (P : Moment × Call → Prop) (ex ex' : Executor) : Prop where
  now_le : ex.now ≤ ex'.now
  turn_eq : (ofLex ex'.now).1 = (ofLex ex.now).1
  seed_le : ex.seed ≤ ex'.seed
  log_eq : ∃ l, ex'.log = ex.log ++ l ∧ ∀ e ∈ l, ex.now ≤ e.1 ∧ e.1 < ex'.now ∧ P e

namespace Advances

variable {P Q : Moment × Call → Prop} {ex ex' ex'' : Executor}

theorem refl : Advances P ex ex := ⟨le_rfl, rfl, le_rfl, [], by simp⟩

theorem trans (h : Advances P ex ex') (h' : Advances P ex' ex'') : Advances P ex ex'' := by
  obtain ⟨l, hl, hP⟩ := h.log_eq
  obtain ⟨l', hl', hP'⟩ := h'.log_eq
  refine ⟨h.now_le.trans h'.now_le, h'.turn_eq.trans h.turn_eq, h.seed_le.trans h'.seed_le,
    l ++ l', by rw [hl', hl, List.append_assoc], ?_⟩
  intro e he
  rcases List.mem_append.mp he with he | he
  · exact ⟨(hP e he).1, (hP e he).2.1.trans_le h'.now_le, (hP e he).2.2⟩
  · exact ⟨h.now_le.trans (hP' e he).1, (hP' e he).2⟩

theorem mono (h : Advances P ex ex') (hPQ : ∀ e, P e → Q e) : Advances Q ex ex' := by
  obtain ⟨l, hl, hP⟩ := h.log_eq
  exact ⟨h.now_le, h.turn_eq, h.seed_le, l, hl,
    fun e he => ⟨(hP e he).1, (hP e he).2.1, hPQ _ (hP e he).2.2⟩⟩

theorem any (h : Advances P ex ex') : Advances (fun _ => True) ex ex' := h.mono fun _ _ => trivial

theorem tick (h : Advances P ex ex') : Advances P ex ex'.tick :=
  h.trans ⟨(now_lt_tick ex').le, rfl, le_rfl, [], by simp⟩

theorem call (h : Advances P ex ex') {c : Call} (hc : P (ex'.now, c)) :
    Advances P ex (ex'.call c) := by
  refine h.trans ⟨(now_lt_tick ex').le, rfl, le_rfl, [(ex'.now, c)], rfl, ?_⟩
  intro e he
  cases List.mem_singleton.mp he
  exact ⟨le_rfl, now_lt_tick ex', hc⟩

theorem raiseSeed (h : Advances P ex ex') : Advances P ex { ex' with seed := ex'.seed + 1 } :=
  h.trans ⟨le_rfl, rfl, Nat.le_succ _, [], by simp⟩

theorem spawnBackend (h : Advances P ex ex') {slot : ℕ} {cfg : BackendConfig}
    (hc : P (ex'.now, .spawnBackend slot cfg (ex'.seed + 1))) :
    Advances P ex (ex'.spawnBackend slot cfg) :=
  h.raiseSeed.call hc

theorem spawnClient (h : Advances P ex ex') {index : ℕ} {cfg : ClientConfig} {enabled : Bool}
    (hc : P (ex'.now, .spawnClient index cfg enabled (ex'.seed + 1))) :
    Advances P ex (ex'.spawnClient index cfg enabled) :=
  h.raiseSeed.call hc

theorem outlives_eq (h : Advances P ex ex') (exits : Proc → Moment) (proc : Option Proc) :
    ex'.outlives exits proc = ex.outlives exits proc := by
  rw [outlives, h.turn_eq, outlives]

/-- What is issued in between is the rest of the log. -/
theorem issued (h : Advances P ex ex') {l : List (Moment × Call)} (hl : ex'.log = ex.log ++ l) :
    ∀ e ∈ l, P e := by
  obtain ⟨l', hl', hP⟩ := h.log_eq
  rw [hl] at hl'
  rw [List.append_cancel_left hl']
  exact fun e he => (hP e he).2.2

theorem forall_of {ι : Type*} [Inhabited ι] {R : ι → Moment × Call → Prop}
    (h : ∀ i, Advances (R i) ex ex') : Advances (fun e => ∀ i, R i e) ex ex' := by
  have hone := h default
  obtain ⟨l, hl, hl'⟩ := hone.log_eq
  exact ⟨hone.now_le, hone.turn_eq, hone.seed_le, l, hl,
    fun e he => ⟨(hl' e he).1, (hl' e he).2.1, fun i => (h i).issued hl e he⟩⟩

theorem length_le (h : Advances P ex ex') : ex.log.length ≤ ex'.log.length := by
  obtain ⟨l, hl, -⟩ := h.log_eq
  rw [hl, List.length_append]
  exact Nat.le_add_right _ _

/-- A command issued on the way is in the rest of the log. -/
theorem issued_call {c : Call} (h : Advances P ex ex') (h' : Advances Q (ex'.call c) ex'') :
    ∃ l, ex''.log = ex.log ++ l ∧ (ex'.now, c) ∈ l := by
  obtain ⟨l, hl, -⟩ := h.log_eq
  obtain ⟨l', hl', -⟩ := h'.log_eq
  refine ⟨l ++ (ex'.now, c) :: l', ?_, by simp⟩
  rw [hl', call_log, hl]
  simp

end Advances

/-! ### The last command of a kind -/

section LastOf

variable {α : Type*} {f : Call → Option α}

/-- What the last command says that `f` reads. -/
def lastOf (f : Call → Option α) (ex : Executor) : Option α :=
  (ex.log.filterMap fun e => f e.2).getLast?

@[simp] theorem lastOf_tick (ex : Executor) : ex.tick.lastOf f = ex.lastOf f := rfl

@[simp] theorem lastOf_nextTurn (ex : Executor) : ex.nextTurn.lastOf f = ex.lastOf f := rfl

@[simp] theorem lastOf_call (ex : Executor) (c : Call) :
    (ex.call c).lastOf f = (f c).or (ex.lastOf f) := by
  rw [lastOf, call_log, List.filterMap_append, List.getLast?_append, lastOf]
  cases h : f c <;> simp [h]

@[simp] theorem lastOf_spawnBackend (ex : Executor) (slot : ℕ) (cfg : BackendConfig) :
    (ex.spawnBackend slot cfg).lastOf f =
      (f (.spawnBackend slot cfg (ex.seed + 1))).or (ex.lastOf f) :=
  lastOf_call { ex with seed := ex.seed + 1 } _

theorem Advances.lastOf_eq {P : Moment × Call → Prop} {ex ex' : Executor} (h : Advances P ex ex')
    (hP : ∀ e, P e → f e.2 = none) : ex'.lastOf f = ex.lastOf f := by
  obtain ⟨l, hl, hPl⟩ := h.log_eq
  have hnone : l.filterMap (fun e => f e.2) = [] :=
    List.filterMap_eq_nil_iff.mpr fun e he => hP e (hPl e he).2.2
  rw [lastOf, hl, List.filterMap_append, hnone, List.append_nil, lastOf]

end LastOf

end Executor

end MaglevLb.Children
