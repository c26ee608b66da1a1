import MaglevLb.EventRun
import MaglevLb.Schema
import MaglevLb.Station
import Mathlib.Logic.Function.Basic

/-!
# The backend's admission of requests

A request is served at once, queued or shed. To serve is an asyncio task. It is created
when the request is started; the event loop runs new tasks in the order of their creation,
each up to its sleep, and sleeping tasks wake in any order. A task that raises ends with
its place still taken: on a service time that cannot be drawn, and on a reply that cannot
be encoded because the request id was not ASCII.
-/
namespace MaglevLb.ServiceServer

open Children
open Schema (Json)

/-! ### Commands -/

/-- `int` of a number. -/
def truncate (v : ℚ) : ℤ := v.num.tdiv v.den

def bounded (lo hi : ℤ) (v : ℚ) : Option ℚ := if v < lo ∨ hi < v then none else some v

/-- The number under a key, if it is there, finite and in range. -/
def numeric (cmd : List (String × Json)) (key : String) (lo hi : ℤ) : Option ℚ :=
  match Schema.get? cmd key with
  | some (.num (.int z)) => bounded lo hi z
  | some (.num (.float q)) => bounded lo hi q
  | _ => none

def num (cmd : List (String × Json)) (key : String) (lo hi : ℤ) (default : ℚ) : ℚ :=
  (numeric cmd key lo hi).getD default

/-- `num` with `integer=True`. -/
def numInt (cmd : List (String × Json)) (key : String) (lo hi default : ℤ) : ℤ :=
  ((numeric cmd key lo hi).map truncate).getD default

/-- The command sets the counters to zero. -/
def isReset (cmd : List (String × Json)) : Bool :=
  match Schema.get? cmd "op" with
  | some (.str "reset_stats") => true
  | _ => false

theorem isReset_iff {cmd : List (String × Json)} :
    isReset cmd = true ↔ Schema.get? cmd "op" = some (.str "reset_stats") := by
  unfold isReset
  split
  · next hop => exact iff_of_true rfl hop
  · next hop => exact iff_of_false Bool.false_ne_true hop

/-! ### The server -/

structure Request (Conn : Type*) where
  conn : Conn
  reqId : String
  close : Bool
  enqMs : ℚ
  deriving DecidableEq

inductive Reply where
  | ok (reqId : String) (slot queuedUs serviceUs : ℤ)
  | err (reqId : String) (slot queuedUs serviceUs : ℤ)
  | shed (reqId : String) (slot : ℤ)
  deriving DecidableEq

def Reply.reqId : Reply → String
  | .ok i _ _ _ | .err i _ _ _ | .shed i _ => i

/-- Whether `encode("ascii")` of the reply succeeds: the rest of its text is ASCII. -/
def Reply.encodable (r : Reply) : Bool := r.reqId.toList.all fun ch => ch.val < 128

/-- A reply on the wire, and whether the connection is closed after it. -/
structure Sent (Conn : Type*) where
  conn : Conn
  reply : Reply
  close : Bool
  deriving DecidableEq

structure Counters where
  arrivals : ℕ := 0
  ok : ℕ := 0
  err : ℕ := 0
  shed : ℕ := 0
  abandoned : ℕ := 0
  deriving DecidableEq, Repr

/-- The requests accepted so far, those started and those whose task has run, each in
order; and those whose task has raised. -/
structure Past (Conn : Type*) where
  accepted : List (Request Conn) := []
  started : List (Request Conn) := []
  begun : List (Request Conn) := []
  stuck : List (Request Conn) := []

namespace Past

variable {Conn : Type*}

def accept (q : Request Conn) (p : Past Conn) : Past Conn :=
  { p with accepted := p.accepted ++ [q] }

def start (l : List (Request Conn)) (p : Past Conn) : Past Conn :=
  { p with started := p.started ++ l }

def begin (q : Request Conn) (p : Past Conn) : Past Conn := { p with begun := p.begun ++ [q] }

def raise (q : Request Conn) (p : Past Conn) : Past Conn := { p with stuck := p.stuck ++ [q] }

end Past

/-- The server with its tasks: `spawned` have not run yet, `serving` sleep since the time
given with them. `past` is for statements only. -/
structure Server (Conn : Type*) where
  slot : ℤ
  capacity : ℤ
  serviceMs : ℚ
  serviceCv : ℚ
  queueLimit : ℤ
  errorRate : ℚ
  slowFactor : ℚ
  faultErrorRate : ℚ
  busy : ℤ
  queue : List (Request Conn)
  c : Counters
  alive : Conn → Bool
  sent : List (Sent Conn)
  spawned : List (Request Conn)
  serving : List (Request Conn × ℚ)
  past : Past Conn

variable {Conn : Type*}

def init (Conn : Type*) (slot : ℤ) (args : BackendConfig) : Server Conn where
  slot := slot
  capacity := args.capacity
  serviceMs := args.serviceMs
  serviceCv := args.serviceCv
  queueLimit := args.queueLimit
  errorRate := args.errorRate
  slowFactor := 1
  faultErrorRate := 0
  busy := 0
  queue := []
  c := {}
  alive _ := false
  sent := []
  spawned := []
  serving := []
  past := {}

/-- The second component says whether it returned. -/
def reply (conn : Conn) (text : Reply) (close : Bool) (s : Server Conn) : Server Conn × Bool :=
  if s.alive conn then
    if text.encodable then ({ s with sent := s.sent ++ [⟨conn, text, close⟩] }, true)
    else (s, false)
  else (s, true)

def start (q : Request Conn) (s : Server Conn) : Server Conn :=
  { s with
    busy := s.busy + 1
    spawned := s.spawned ++ [q]
    past := s.past.start [q] }

def submit (q : Request Conn) (s : Server Conn) : Server Conn :=
  let s := { s with c := { s.c with arrivals := s.c.arrivals + 1 } }
  if s.busy < s.capacity then start q { s with past := s.past.accept q }
  else if (s.queue.length : ℤ) < s.queueLimit then
    { s with queue := s.queue ++ [q], past := s.past.accept q }
  else
    (reply q.conn (.shed q.reqId s.slot) q.close
      { s with c := { s.c with shed := s.c.shed + 1 } }).1

/-- `while self.queue and self.busy < self.capacity` -/
def admitFrom : List (Request Conn) → Server Conn → Server Conn
  | [], s => { s with queue := [] }
  | q :: rest, s =>
      if s.busy < s.capacity then admitFrom rest (start q s) else { s with queue := q :: rest }

def admitQueued (s : Server Conn) : Server Conn := admitFrom s.queue s

/-- `service_time_ms` raises when it draws from a gamma distribution without a scale. -/
def drawable (meanMs cv : ℚ) : Bool := cv ≤ 1 / 100 || 0 < meanMs * cv * cv

/-- The first task that has not run yet runs to its sleep. -/
def serveBegin (startMs : ℚ) (s : Server Conn) : Server Conn :=
  match s.spawned with
  | [] => s
  | q :: rest =>
      let s := { s with spawned := rest, past := s.past.begin q }
      if drawable s.serviceMs s.serviceCv then { s with serving := s.serving ++ [(q, startMs)] }
      else { s with past := s.past.raise q }

def micros (ms : ℚ) : ℤ := truncate (ms * 1000)

def failure (s : Server Conn) (roll : ℚ) : Bool :=
  roll < 1 - (1 - s.errorRate) * (1 - s.faultErrorRate)

/-- The outcome of a request is counted and sent; whether this returned. -/
def answer (q : Request Conn) (startMs endMs roll : ℚ) (s : Server Conn) : Server Conn × Bool :=
  let failed := failure s roll
  let queuedUs := micros (startMs - q.enqMs)
  let serviceUs := micros (endMs - startMs)
  let s := { s with
    c := if failed then { s.c with err := s.c.err + 1 } else { s.c with ok := s.c.ok + 1 } }
  if s.alive q.conn then
    reply q.conn (if failed then .err q.reqId s.slot queuedUs serviceUs
      else .ok q.reqId s.slot queuedUs serviceUs) q.close s
  else ({ s with c := { s.c with abandoned := s.c.abandoned + 1 } }, true)

/-- Sleeping task `k` wakes and runs to its end. -/
def serveEnd (k : ℕ) (roll endMs : ℚ) (s : Server Conn) : Server Conn :=
  match s.serving[k]? with
  | none => s
  | some (q, startMs) =>
      let (s, returned) := answer q startMs endMs roll { s with serving := s.serving.eraseIdx k }
      if returned then admitQueued { s with busy := s.busy - 1 }
      else { s with past := s.past.raise q }

/-- The settings of a `config` command, before the queue moves up. -/
def reconfigure (cmd : List (String × Json)) (s : Server Conn) : Server Conn :=
  { s with
    capacity := numInt cmd "capacity" 1 256 s.capacity
    serviceMs := num cmd "serviceMs" 1 2000 s.serviceMs
    serviceCv := num cmd "serviceCv" 0 3 s.serviceCv
    queueLimit := numInt cmd "queueLimit" 0 4096 s.queueLimit
    errorRate := num cmd "errorRate" 0 1 s.errorRate }

/-- `cmd` is an object, and its `op` a string. -/
def onCommand (cmd : List (String × Json)) (s : Server Conn) : Server Conn :=
  match Schema.get? cmd "op" with
  | some (.str "config") => admitQueued (reconfigure cmd s)
  | some (.str "fault") =>
      { s with
        slowFactor := num cmd "slowFactor" 1 50 1
        faultErrorRate := num cmd "errorRate" 0 1 0 }
  | some (.str "clear") => { s with slowFactor := 1, faultErrorRate := 0 }
  | some (.str "reset_stats") => { s with c := {} }
  | _ => s

inductive Event (Conn : Type*) where
  | submit (q : Request Conn)
  | serveBegin (startMs : ℚ)
  | serveEnd (k : ℕ) (roll endMs : ℚ)
  | connectionMade (conn : Conn)
  | connectionLost (conn : Conn)
  | command (cmd : List (String × Json))

def step [DecidableEq Conn] (s : Server Conn) : Event Conn → Server Conn
  | .submit q => submit q s
  | .serveBegin startMs => serveBegin startMs s
  | .serveEnd k roll endMs => serveEnd k roll endMs s
  | .connectionMade conn => { s with alive := Function.update s.alive conn true }
  | .connectionLost conn => { s with alive := Function.update s.alive conn false }
  | .command cmd => onCommand cmd s

def run [DecidableEq Conn] (s : Server Conn) (es : List (Event Conn)) : Server Conn :=
  EventRun.run step s es

/-! ### The server as a station -/

def station (s : Server Conn) : Station (Request Conn) where
  capacity := s.capacity
  limit := s.queueLimit
  busy := s.busy
  queue := s.queue
  accepted := s.past.accepted
  started := s.past.started

theorem station_admitFrom (l : List (Request Conn)) (s : Server Conn) :
    station (admitFrom l s) = Station.pullFrom l (station s) := by
  induction l generalizing s with
  | nil => rfl
  | cons q l ih =>
      unfold admitFrom Station.pullFrom
      by_cases hroom : s.busy < s.capacity
      · rw [if_pos hroom, if_pos (show (station s).busy < (station s).capacity from hroom)]
        exact ih (start q s)
      · rw [if_neg hroom, if_neg (show ¬ (station s).busy < (station s).capacity from hroom)]
        rfl

theorem station_admitQueued (s : Server Conn) : station (admitQueued s) = (station s).pull :=
  station_admitFrom s.queue s

/-- A reply changes what was sent and nothing else. -/
theorem reply_frame (conn : Conn) (text : Reply) (close : Bool) (s : Server Conn) :
    ∃ sent, (reply conn text close s).1 = { s with sent := sent } := by
  unfold reply
  split
  · split
    · exact ⟨_, rfl⟩
    · exact ⟨s.sent, rfl⟩
  · exact ⟨s.sent, rfl⟩

theorem answer_frame (q : Request Conn) (startMs endMs roll : ℚ) (s : Server Conn) :
    ∃ c sent, (answer q startMs endMs roll s).1 = { s with c := c, sent := sent } := by
  unfold answer
  dsimp only
  split
  · obtain ⟨sent, hsent⟩ := reply_frame q.conn _ q.close _
    rw [hsent]
    exact ⟨_, sent, rfl⟩
  · exact ⟨_, s.sent, rfl⟩

/-- A task that ends gives its place back, or raises. -/
theorem serveEnd_cases (k : ℕ) (roll endMs : ℚ) (s : Server Conn) :
    serveEnd k roll endMs s = s ∨ ∃ q startMs c sent, s.serving[k]? = some (q, startMs) ∧
      (serveEnd k roll endMs s = admitQueued
          { s with
            serving := s.serving.eraseIdx k, c := c, sent := sent, busy := s.busy - 1 } ∨
        serveEnd k roll endMs s =
          { s with
            serving := s.serving.eraseIdx k, c := c, sent := sent, past := s.past.raise q }) := by
  unfold serveEnd
  split
  · exact .inl rfl
  · next q startMs hk =>
      obtain ⟨c, sent, hframe⟩ :=
        answer_frame q startMs endMs roll { s with serving := s.serving.eraseIdx k }
      refine .inr ⟨q, startMs, c, sent, hk, ?_⟩
      dsimp only
      rw [hframe]
      split
      · exact .inl rfl
      · exact .inr rfl

/-- A request is started at once, waits in the queue, or is shed. -/
theorem submit_cases (q : Request Conn) (s : Server Conn) :
    (s.busy < s.capacity ∧ submit q s = start q
      { s with
        c := { s.c with arrivals := s.c.arrivals + 1 }
        past := s.past.accept q }) ∨
    (¬ s.busy < s.capacity ∧ (s.queue.length : ℤ) < s.queueLimit ∧ submit q s =
      { s with
        c := { s.c with arrivals := s.c.arrivals + 1 }
        queue := s.queue ++ [q]
        past := s.past.accept q }) ∨
    (¬ s.busy < s.capacity ∧ ¬ (s.queue.length : ℤ) < s.queueLimit ∧ ∃ sent, submit q s =
      { s with
        c := { s.c with arrivals := s.c.arrivals + 1, shed := s.c.shed + 1 }
        sent := sent }) := by
  unfold submit
  dsimp only
  split
  · next hroom => exact .inl ⟨hroom, rfl⟩
  · next hroom =>
      split
      · next hlimit => exact .inr (.inl ⟨hroom, hlimit, rfl⟩)
      · next hlimit => exact .inr (.inr ⟨hroom, hlimit, reply_frame q.conn _ q.close _⟩)

theorem station_submit (q : Request Conn) (s : Server Conn) :
    station (submit q s) = (station s).step (.arrive q) := by
  unfold Station.step
  dsimp only
  rcases submit_cases q s with ⟨hroom, heq⟩ | ⟨hroom, hlimit, heq⟩ | ⟨hroom, hlimit, sent, heq⟩
  · rw [heq, if_pos (show (station s).busy < (station s).capacity from hroom)]
    rfl
  · rw [heq, if_neg (show ¬ (station s).busy < (station s).capacity from hroom),
      if_pos (show ((station s).queue.length : ℤ) < (station s).limit from hlimit)]
    rfl
  · rw [heq, if_neg (show ¬ (station s).busy < (station s).capacity from hroom),
      if_neg (show ¬ ((station s).queue.length : ℤ) < (station s).limit from hlimit)]
    rfl

theorem station_serveBegin (startMs : ℚ) (s : Server Conn) :
    station (serveBegin startMs s) = station s := by
  unfold serveBegin
  split
  · rfl
  · dsimp only
    split <;> rfl

theorem station_serveEnd (k : ℕ) (roll endMs : ℚ) (s : Server Conn) :
    station (serveEnd k roll endMs s) = station s ∨
      station (serveEnd k roll endMs s) = (station s).step .release := by
  rcases serveEnd_cases k roll endMs s with h | ⟨q, startMs, c, sent, -, h | h⟩
  · exact .inl (congrArg station h)
  · rw [h, station_admitQueued]
    exact .inr rfl
  · rw [h]
    exact .inl rfl

theorem onCommand_cases (cmd : List (String × Json)) (s : Server Conn) :
    (∃ c slowFactor faultErrorRate, onCommand cmd s =
      { s with c := c, slowFactor := slowFactor, faultErrorRate := faultErrorRate }) ∨
    ∃ capacity serviceMs serviceCv queueLimit errorRate, onCommand cmd s = admitQueued
      { s with
        capacity := capacity, serviceMs := serviceMs, serviceCv := serviceCv
        queueLimit := queueLimit, errorRate := errorRate } := by
  unfold onCommand
  split
  · exact .inr ⟨_, _, _, _, _, rfl⟩
  · exact .inl ⟨s.c, _, _, rfl⟩
  · exact .inl ⟨s.c, _, _, rfl⟩
  · exact .inl ⟨_, s.slowFactor, s.faultErrorRate, rfl⟩
  · exact .inl ⟨s.c, s.slowFactor, s.faultErrorRate, rfl⟩

theorem station_onCommand (cmd : List (String × Json)) (s : Server Conn) :
    station (onCommand cmd s) = station s ∨
      ∃ capacity limit, station (onCommand cmd s) = (station s).step (.retune capacity limit) := by
  rcases onCommand_cases cmd s with ⟨c, slow, rate, h⟩ | ⟨capacity, ms, cv, limit, rate, h⟩
  · rw [h]
    exact .inl rfl
  · rw [h, station_admitQueued]
    exact .inr ⟨capacity, limit, rfl⟩

/-- Every event is a move of the station or none, and only commands change its bounds. -/
theorem station_step [DecidableEq Conn] (s : Server Conn) (e : Event Conn) :
    station (step s e) = station s ∨ ∃ m, station (step s e) = (station s).step m ∧
      ∀ capacity limit, m = .retune capacity limit → ∃ cmd, e = .command cmd := by
  cases e with
  | submit q => exact .inr ⟨_, station_submit q s, by simp⟩
  | serveBegin startMs => exact .inl (station_serveBegin startMs s)
  | serveEnd k roll endMs =>
      exact (station_serveEnd k roll endMs s).imp_right fun h => ⟨_, h, by simp⟩
  | connectionMade conn => exact .inl rfl
  | connectionLost conn => exact .inl rfl
  | command cmd =>
      exact (station_onCommand cmd s).imp_right fun ⟨capacity, limit, h⟩ =>
        ⟨_, h, fun _ _ _ => ⟨cmd, rfl⟩⟩

/-! ### The tasks -/

/-- Every place taken is a task that has not run, one that sleeps or one that has raised;
and tasks run in the order of their requests. -/
structure Tasks (s : Server Conn) : Prop where
  busy_eq : s.busy = s.spawned.length + s.serving.length + s.past.stuck.length
  order : s.past.begun ++ s.spawned = s.past.started
  begun : ∀ t ∈ s.serving, t.1 ∈ s.past.begun

theorem Tasks.of_eq {s s' : Server Conn} (h : Tasks s) (hbusy : s'.busy = s.busy)
    (hspawned : s'.spawned = s.spawned) (hserving : s'.serving = s.serving)
    (hstarted : s'.past.started = s.past.started) (hbegun : s'.past.begun = s.past.begun)
    (hstuck : s'.past.stuck = s.past.stuck) : Tasks s' where
  busy_eq := by rw [hbusy, hspawned, hserving, hstuck, h.busy_eq]
  order := by rw [hbegun, hspawned, hstarted, h.order]
  begun := by
    rw [hserving, hbegun]
    exact h.begun

theorem Tasks.start {s : Server Conn} (h : Tasks s) (q : Request Conn) : Tasks (start q s) := by
  have hbusy := h.busy_eq
  refine ⟨?_, ?_, h.begun⟩
  · simp only [ServiceServer.start, Past.start, List.length_append, List.length_singleton]
    omega
  · simp [ServiceServer.start, Past.start, ← h.order]

theorem Tasks.admitFrom {s : Server Conn} (h : Tasks s) (l : List (Request Conn)) :
    Tasks (admitFrom l s) := by
  induction l generalizing s with
  | nil => exact h.of_eq rfl rfl rfl rfl rfl rfl
  | cons q l ih =>
      unfold ServiceServer.admitFrom
      split
      · exact ih (h.start q)
      · exact h.of_eq rfl rfl rfl rfl rfl rfl

theorem Tasks.admitQueued {s : Server Conn} (h : Tasks s) : Tasks (admitQueued s) :=
  h.admitFrom s.queue

theorem Tasks.submit {s : Server Conn} (h : Tasks s) (q : Request Conn) : Tasks (submit q s) := by
  rcases submit_cases q s with ⟨-, heq⟩ | ⟨-, -, heq⟩ | ⟨-, -, sent, heq⟩
  · rw [heq]
    refine Tasks.start ?_ q
    exact h.of_eq rfl rfl rfl rfl rfl rfl
  · rw [heq]
    exact h.of_eq rfl rfl rfl rfl rfl rfl
  · rw [heq]
    exact h.of_eq rfl rfl rfl rfl rfl rfl

theorem Tasks.serveBegin {s : Server Conn} (h : Tasks s) (startMs : ℚ) :
    Tasks (serveBegin startMs s) := by
  have hbusy := h.busy_eq
  have horder := h.order
  unfold ServiceServer.serveBegin
  split
  · exact h
  · next q rest hq =>
      rw [hq, List.length_cons] at hbusy
      rw [hq] at horder
      have hkept (t : Request Conn × ℚ) (ht : t ∈ s.serving) : t.1 ∈ s.past.begun ++ [q] :=
        List.mem_append_left _ (h.begun t ht)
      dsimp only
      split
      · refine ⟨?_, by simpa [Past.begin] using horder, fun t ht => ?_⟩
        · simp only [Past.begin, List.length_append, List.length_singleton]
          omega
        · rcases List.mem_append.mp ht with ht | ht
          · exact hkept t ht
          · cases List.mem_singleton.mp ht
            exact List.mem_append_right _ (List.mem_singleton_self q)
      · refine ⟨?_, by simpa [Past.raise, Past.begin] using horder, hkept⟩
        simp only [Past.raise, Past.begin, List.length_append, List.length_singleton]
        omega

theorem Tasks.serveEnd {s : Server Conn} (h : Tasks s) (k : ℕ) (roll endMs : ℚ) :
    Tasks (serveEnd k roll endMs s) := by
  have hbusy := h.busy_eq
  rcases serveEnd_cases k roll endMs s with heq | ⟨q, startMs, c, sent, hk, heq⟩
  · rwa [heq]
  · obtain ⟨hlt, -⟩ := List.getElem?_eq_some_iff.mp hk
    have herase := List.length_eraseIdx_of_lt hlt
    have hkept (t : Request Conn × ℚ) (ht : t ∈ s.serving.eraseIdx k) : t.1 ∈ s.past.begun :=
      h.begun t (List.mem_of_mem_eraseIdx ht)
    rcases heq with heq | heq
    · rw [heq]
      refine Tasks.admitQueued ⟨?_, h.order, hkept⟩
      dsimp only
      omega
    · rw [heq]
      refine ⟨?_, h.order, hkept⟩
      simp only [Past.raise, List.length_append, List.length_singleton]
      omega

theorem Tasks.step [DecidableEq Conn] {s : Server Conn} (h : Tasks s) (e : Event Conn) :
    Tasks (step s e) := by
  cases e with
  | submit q => exact h.submit q
  | serveBegin startMs => exact h.serveBegin startMs
  | serveEnd k roll endMs => exact h.serveEnd k roll endMs
  | connectionMade conn => exact h.of_eq rfl rfl rfl rfl rfl rfl
  | connectionLost conn => exact h.of_eq rfl rfl rfl rfl rfl rfl
  | command cmd =>
      rcases onCommand_cases cmd s with ⟨c, slow, rate, heq⟩ | ⟨capacity, ms, cv, limit, rate, heq⟩
      · rw [ServiceServer.step, heq]
        exact h.of_eq rfl rfl rfl rfl rfl rfl
      · rw [ServiceServer.step, heq]
        refine Tasks.admitQueued ?_
        exact h.of_eq rfl rfl rfl rfl rfl rfl

/-! ### Runs -/

section Runs

variable [DecidableEq Conn] {s : Server Conn} {e : Event Conn}

theorem step_orderly (h : (station s).Orderly) : (station (step s e)).Orderly := by
  rcases station_step s e with heq | ⟨m, heq, -⟩
  · rwa [heq]
  · rw [heq]
    exact h.step m

/-- More requests in service than there is capacity for. -/
def OverCapacity (s : Server Conn) : Prop := s.capacity < s.busy ∧ 0 < s.busy

/-- More requests in the queue than its limit. -/
def OverLimit (s : Server Conn) : Prop := s.queueLimit < s.queue.length ∧ s.queue ≠ []

/-- Nothing is started by an event that ends over capacity. -/
theorem started_of_overCapacity (h : OverCapacity (step s e)) :
    (step s e).past.started = s.past.started ∧ (step s e).busy ≤ s.busy := by
  rcases station_step s e with heq | ⟨m, heq, -⟩
  · exact ⟨congrArg Station.started heq, (congrArg Station.busy heq).le⟩
  · have hcases := Station.step_started (station s) m
    rw [← heq] at hcases
    exact hcases.resolve_right (not_le.mpr h.1)

/-- Nothing is queued by an event that ends over the limit. -/
theorem queue_of_overLimit (h : OverLimit (step s e)) : (step s e).queue <:+ s.queue := by
  rcases station_step s e with heq | ⟨m, heq, -⟩
  · have hsame : (step s e).queue = s.queue := congrArg Station.queue heq
    exact hsame ▸ List.suffix_rfl
  · have hcases := Station.step_queue (station s) m
    rw [← heq] at hcases
    exact hcases.resolve_right (not_le.mpr h.1)

/-- An event that changes a bound is a command. -/
theorem command_of_bounds (h : (step s e).capacity ≠ s.capacity ∨
    (step s e).queueLimit ≠ s.queueLimit) : ∃ cmd, e = .command cmd := by
  rcases station_step s e with heq | ⟨m, heq, hcommand⟩
  · have hcapacity := congrArg Station.capacity heq
    have hlimit := congrArg Station.limit heq
    exact absurd h (by simp_all [station])
  · by_contra hother
    have hbounds := Station.step_bounds (s := station s) (m := m) fun c l hm =>
      hother (hcommand c l hm)
    rw [← heq] at hbounds
    exact h.elim (absurd hbounds.1) (absurd hbounds.2)

theorem lowered_of_overCapacity (hs : ¬ OverCapacity s) (h : OverCapacity (step s e)) :
    s.busy ≤ s.capacity ∧ (step s e).capacity < s.capacity ∧ ∃ cmd, e = .command cmd := by
  have hbusy := (started_of_overCapacity h).2
  have hin : s.busy ≤ s.capacity := by
    by_contra hover
    exact hs ⟨not_le.mp hover, h.2.trans_le hbusy⟩
  have hlow : (step s e).capacity < s.capacity := (h.1.trans_le hbusy).trans_le hin
  exact ⟨hin, hlow, command_of_bounds (.inl hlow.ne)⟩

theorem lowered_of_overLimit (hs : ¬ OverLimit s) (h : OverLimit (step s e)) :
    (s.queue.length : ℤ) ≤ s.queueLimit ∧ (step s e).queueLimit < s.queueLimit ∧
      ∃ cmd, e = .command cmd := by
  have hsuffix := queue_of_overLimit h
  have hlength : ((step s e).queue.length : ℤ) ≤ s.queue.length :=
    Int.ofNat_le.mpr hsuffix.length_le
  have hin : (s.queue.length : ℤ) ≤ s.queueLimit := by
    by_contra hover
    refine hs ⟨not_le.mp hover, fun hnil => h.2 ?_⟩
    rw [hnil] at hsuffix
    exact List.suffix_nil.mp hsuffix
  have hlow : (step s e).queueLimit < s.queueLimit := (h.1.trans_le hlength).trans_le hin
  exact ⟨hin, hlow, command_of_bounds (.inr hlow.ne)⟩

variable {es : List (Event Conn)}

/-- A run that ends over capacity has started nothing since the command that lowered it. -/
theorem run_overCapacity (hs : ¬ OverCapacity s) (h : OverCapacity (run s es)) :
    ∃ es₁ cmd es₂, es = es₁ ++ .command cmd :: es₂ ∧
      (run s es₁).busy ≤ (run s es₁).capacity ∧
      (run s (es₁ ++ [.command cmd])).capacity < (run s es₁).capacity ∧
      (run s es).past.started = (run s es₁).past.started := by
  obtain ⟨es₁, e, es₂, hsplit, hout, hin, hsame⟩ :=
    EventRun.run_entered (P := OverCapacity)
      (R := fun s₁ s₂ : Server Conn => s₂.past.started = s₁.past.started)
      (fun h₁ h₂ => h₂.trans h₁) (fun h => (started_of_overCapacity h).1) hs h
  obtain ⟨hbusy, hlow, cmd, rfl⟩ := lowered_of_overCapacity hout hin
  refine ⟨es₁, cmd, es₂, hsplit, hbusy, ?_, hsame⟩
  rw [run, EventRun.run_append]
  exact hlow

/-- A run that ends over the limit has let nobody join the queue since the command that
lowered it. -/
theorem run_overLimit (hs : ¬ OverLimit s) (h : OverLimit (run s es)) :
    ∃ es₁ cmd es₂, es = es₁ ++ .command cmd :: es₂ ∧
      (run s es₁).queue.length ≤ (run s es₁).queueLimit ∧
      (run s (es₁ ++ [.command cmd])).queueLimit < (run s es₁).queueLimit ∧
      (run s es).queue <:+ (run s es₁).queue := by
  obtain ⟨es₁, e, es₂, hsplit, hout, hin, hsuffix⟩ :=
    EventRun.run_entered (P := OverLimit)
      (R := fun s₁ s₂ : Server Conn => s₂.queue <:+ s₁.queue)
      (fun h₁ h₂ => h₂.trans h₁) queue_of_overLimit hs h
  obtain ⟨hlength, hlow, cmd, rfl⟩ := lowered_of_overLimit hout hin
  refine ⟨es₁, cmd, es₂, hsplit, hlength, ?_, hsuffix⟩
  rw [run, EventRun.run_append]
  exact hlow

end Runs

/-- The request is counted as shed, and says so to a client that is there; it takes no place
in service or in the queue. -/
structure IsShed (q : Request Conn) (s s' : Server Conn) : Prop where
  counted : s'.c.shed = s.c.shed + 1
  kept : station s' = station s
  told : s.alive q.conn = true → (Reply.shed q.reqId s.slot).encodable = true →
    s'.sent = s.sent ++ [⟨q.conn, .shed q.reqId s.slot, q.close⟩]

structure IsAccepted (q : Request Conn) (s s' : Server Conn) : Prop where
  counted : s'.c.shed = s.c.shed
  accepted : s'.past.accepted = s.past.accepted ++ [q]
  placed : s'.past.started = s.past.started ++ [q] ∨ s'.queue = s.queue ++ [q]

theorem submit_shed {q : Request Conn} {s : Server Conn}
    (h : s.capacity ≤ s.busy ∧ s.queueLimit ≤ s.queue.length) : IsShed q s (submit q s) := by
  have heq : submit q s = (reply q.conn (.shed q.reqId s.slot) q.close
      { s with c := { s.c with arrivals := s.c.arrivals + 1, shed := s.c.shed + 1 } }).1 := by
    unfold submit
    dsimp only
    rw [if_neg (not_lt.mpr h.1), if_neg (not_lt.mpr h.2)]
  obtain ⟨sent, hsent⟩ := reply_frame q.conn (.shed q.reqId s.slot) q.close
    { s with c := { s.c with arrivals := s.c.arrivals + 1, shed := s.c.shed + 1 } }
  refine ⟨?_, ?_, fun halive hencodable => ?_⟩
  · rw [heq, hsent]
  · rw [heq, hsent]
    rfl
  · rw [heq, reply, if_pos halive, if_pos hencodable]

theorem submit_accepted {q : Request Conn} {s : Server Conn}
    (h : ¬ (s.capacity ≤ s.busy ∧ s.queueLimit ≤ s.queue.length)) :
    IsAccepted q s (submit q s) := by
  rcases submit_cases q s with ⟨-, heq⟩ | ⟨-, -, heq⟩ | ⟨hroom, hlimit, -⟩
  · rw [heq]
    exact ⟨rfl, rfl, .inl rfl⟩
  · rw [heq]
    exact ⟨rfl, rfl, .inr rfl⟩
  · exact absurd ⟨not_lt.mp hroom, not_lt.mp hlimit⟩ h

theorem IsShed.not_isAccepted {q : Request Conn} {s s' : Server Conn} (h : IsShed q s s') :
    ¬ IsAccepted q s s' := by
  intro haccepted
  have hcount := h.counted.symm.trans haccepted.counted
  omega

theorem submit_shed_iff {q : Request Conn} {s : Server Conn} :
    IsShed q s (submit q s) ↔ s.capacity ≤ s.busy ∧ s.queueLimit ≤ s.queue.length := by
  refine ⟨fun hshed => ?_, submit_shed⟩
  by_contra hroom
  exact hshed.not_isAccepted (submit_accepted hroom)

theorem submit_accepted_iff {q : Request Conn} {s : Server Conn} :
    IsAccepted q s (submit q s) ↔ ¬ (s.capacity ≤ s.busy ∧ s.queueLimit ≤ s.queue.length) :=
  ⟨fun haccepted hfull => (submit_shed hfull).not_isAccepted haccepted, submit_accepted⟩

/-- With nothing in service the server is below capacity, so nobody waits. -/
theorem Tasks.begun_eq {s : Server Conn} (h : Tasks s) (horderly : (station s).Orderly)
    (hspawned : s.spawned = []) (hserving : s.serving = []) (hstuck : s.past.stuck = [])
    (hcap : 1 ≤ s.capacity) : s.past.begun = s.past.accepted := by
  have hidle : s.busy = 0 := by simp [h.busy_eq, hspawned, hserving, hstuck]
  have hnone : s.queue = [] := by
    by_contra hne
    have hcapacity : s.capacity ≤ s.busy := horderly.conserving hne
    omega
  have hstarted : s.past.begun = s.past.started := by
    rw [← h.order, hspawned, List.append_nil]
  have hall : s.past.started ++ s.queue = s.past.accepted := horderly.fifo
  rw [hstarted, ← hall, hnone, List.append_nil]

theorem init_orderly (slot : ℤ) (args : BackendConfig) : (station (init Conn slot args)).Orderly :=
  ⟨fun h => absurd rfl h, rfl⟩

theorem init_tasks (slot : ℤ) (args : BackendConfig) : Tasks (init Conn slot args) :=
  ⟨rfl, rfl, by simp [init]⟩

/-- After every run, from any start:
requests wait only while the server is at capacity;
an arrival is shed exactly when the server is at capacity and the queue at its limit, and
accepted otherwise;
over capacity, nothing has been started since a command lowered the capacity;
over the limit, nothing has joined the queue since a command lowered the limit;
and what was started and what waits, put together, is what was accepted, in order. Tasks
run in that order too, and once none is left and none has raised every accepted request
has been served. -/
theorem admission [DecidableEq Conn] (slot : ℤ) (args : BackendConfig) (es : List (Event Conn)) :
    let s₀ := init Conn slot args
    let s := run s₀ es
    (s.queue ≠ [] → s.capacity ≤ s.busy) ∧
    (∀ q, (IsShed q s (step s (.submit q)) ↔
        s.capacity ≤ s.busy ∧ s.queueLimit ≤ s.queue.length) ∧
      (IsAccepted q s (step s (.submit q)) ↔
        ¬ (s.capacity ≤ s.busy ∧ s.queueLimit ≤ s.queue.length))) ∧
    (OverCapacity s → ∃ es₁ cmd es₂, es = es₁ ++ .command cmd :: es₂ ∧
      (run s₀ es₁).busy ≤ (run s₀ es₁).capacity ∧
      (run s₀ (es₁ ++ [.command cmd])).capacity < (run s₀ es₁).capacity ∧
      s.past.started = (run s₀ es₁).past.started) ∧
    (OverLimit s → ∃ es₁ cmd es₂, es = es₁ ++ .command cmd :: es₂ ∧
      (run s₀ es₁).queue.length ≤ (run s₀ es₁).queueLimit ∧
      (run s₀ (es₁ ++ [.command cmd])).queueLimit < (run s₀ es₁).queueLimit ∧
      s.queue <:+ (run s₀ es₁).queue) ∧
    s.past.started ++ s.queue = s.past.accepted ∧ Tasks s ∧
    (s.spawned = [] → s.serving = [] → s.past.stuck = [] → 1 ≤ s.capacity →
      s.past.begun = s.past.accepted) := by
  intro s₀ s
  have horderly : (station s).Orderly :=
    EventRun.run_invariant (P := fun s => (station s).Orderly) (fun _ _ => step_orderly)
      (init_orderly slot args) es
  have htasks : Tasks s :=
    EventRun.run_invariant (P := Tasks) (fun _ e h => h.step e) (init_tasks slot args) es
  have hcapacity : ¬ OverCapacity s₀ := fun h => absurd h.2 (lt_irrefl _)
  have hlimit : ¬ OverLimit s₀ := fun h => absurd rfl h.2
  exact ⟨horderly.conserving, fun _ => ⟨submit_shed_iff, submit_accepted_iff⟩,
    run_overCapacity hcapacity, run_overLimit hlimit, horderly.fifo, htasks,
    htasks.begun_eq horderly⟩

example :
    let s := run (init Unit 3 ⟨2, 150, 0, 3, 0⟩) (List.replicate 10 (.submit ⟨(), "1", true, 0⟩))
    s.busy = 2 ∧ s.queue.length = 3 ∧ s.c.shed = 5 := by decide +kernel

end MaglevLb.ServiceServer
