import MaglevLb.Occupancy
import MaglevLb.RequestSlots
import MaglevLb.Windows
import Mathlib.Data.Set.Card

/-!
# What a backend reports

The server with all that `stats` reports: the meter of `busy`, the
open connections, the health probes and the histograms. Every change of `busy` looks at
the clock first, so that the integral is the time the requests have held their places.
-/
namespace MaglevLb.ServerStats

open Children LineReader WireProtocol ServiceServer RequestSlots OrderedDict Occupancy
open Schema (Json)
open Windows (LogHistogram Delta)

variable {Conn : Type*} [DecidableEq Conn]

/-! ### The server and its meter -/

/-- `stays` is for statements only: the requests that hold a place, and since when. -/
structure Desk (Conn : Type*) where
  server : Server Conn
  meter : Meter ℚ
  stays : Stays ℚ (Request Conn)

namespace Desk

/-- `_account_busy` -/
def accountBusy (now : ℚ) (d : Desk Conn) : Meter ℚ := d.meter.look now d.server.busy

/-- `_start`; `now` is the clock as `_account_busy` reads it. -/
def start (now : ℚ) (q : Request Conn) (d : Desk Conn) : Desk Conn where
  server := ServiceServer.start q d.server
  meter := d.accountBusy now
  stays := d.stays.enter q now

def submit (now : ℚ) (q : Request Conn) (d : Desk Conn) : Desk Conn :=
  if d.server.busy < d.server.capacity then
    start now q { d with server :=
      { d.server with
        c := { d.server.c with arrivals := d.server.c.arrivals + 1 }
        past := d.server.past.accept q } }
  else { d with server := ServiceServer.submit q d.server }

/-- The clock is read at every start. -/
def admitFrom (tick : ℕ → ℚ) : List (Request Conn) → Desk Conn → Desk Conn
  | [], d => { d with server := { d.server with queue := [] } }
  | q :: rest, d =>
      if d.server.busy < d.server.capacity then admitFrom tick rest (start (tick rest.length) q d)
      else { d with server := { d.server with queue := q :: rest } }

def admitQueued (tick : ℕ → ℚ) (d : Desk Conn) : Desk Conn := admitFrom tick d.server.queue d

/-- The end of `_serve`, before the queue moves up. -/
def release (now : ℚ) (q : Request Conn) (d : Desk Conn) : Desk Conn where
  server := { d.server with busy := d.server.busy - 1 }
  meter := d.accountBusy now
  stays := d.stays.leave q now

def serveEnd (k : ℕ) (roll endMs : ℚ) (tick : ℕ → ℚ) (d : Desk Conn) : Desk Conn :=
  match d.server.serving[k]? with
  | none => d
  | some (q, startMs) =>
      let (s, returned) :=
        answer q startMs endMs roll { d.server with serving := d.server.serving.eraseIdx k }
      if returned then admitQueued tick (release (tick s.queue.length) q { d with server := s })
      else { d with server := { s with past := s.past.raise q } }

def onCommand (cmd : List (String × Json)) (tick : ℕ → ℚ) (d : Desk Conn) : Desk Conn :=
  match Schema.get? cmd "op" with
  | some (.str "config") => admitQueued tick { d with server := reconfigure cmd d.server }
  | some (.str "reset_stats") =>
      { server := ServiceServer.onCommand cmd d.server
        meter := ⟨0, tick 0⟩
        stays := d.stays.restart (tick 0) }
  | _ => { d with server := ServiceServer.onCommand cmd d.server }

end Desk

/-! ### The process -/

structure Backend (Conn : Type*) where
  desk : Desk Conn
  links : Conn → Link
  lbIp : String
  peerIp : Conn → String
  gotBytes : Conn → Bool
  openConns : ℤ
  probes : ℕ
  accepts : ℕ
  respByPeer : Dict String ℕ
  histBackend : LogHistogram
  histService : LogHistogram

/-- The server and its connections, without what only `stats` reports. -/
def Backend.process (b : Backend Conn) : Process Conn := ⟨b.desk.server, b.links⟩

def launch (Conn : Type*) (slot : ℤ) (args : BackendConfig) (lbIp : String) (startMs : ℚ) :
    Backend Conn where
  desk := ⟨init Conn slot args, ⟨0, startMs⟩, ⟨[], 0⟩⟩
  links _ := ⟨[], false⟩
  lbIp := lbIp
  peerIp _ := "?"
  gotBytes _ := false
  openConns := 0
  probes := 0
  accepts := 0
  respByPeer := .empty
  histBackend := .new
  histService := .new

/-- The line `stats` prints. -/
structure Stats where
  tMs : ℚ
  slot : ℤ
  counters : Counters
  probes : ℕ
  accepts : ℕ
  busy : ℤ
  queued : ℕ
  openConns : ℤ
  capacity : ℤ
  busyIntegralMs : ℚ
  config : BackendConfig
  slowFactor : ℚ
  faultErrorRate : ℚ
  histBackend : Delta
  histService : Delta
  respByPeer : Dict String ℕ

namespace Backend

/-- Two readings of the clock per request: when it arrives, and when it is started. -/
def submitFrom (conn : Conn) (clock tick : ℕ → ℚ) (reqId : String) (close : Bool) (d : Desk Conn) :
    Desk Conn × Bool :=
  let q : Request Conn := ⟨conn, reqId, close, clock d.server.c.arrivals⟩
  (d.submit (tick d.server.c.arrivals) q, submitReturns q d.server)

def receive (conn : Conn) (data : List UInt8) (clock tick : ℕ → ℚ) (b : Backend Conn) :
    Backend Conn :=
  let link := b.links conn
  let r := dataReceived (submitFrom conn clock tick) ⟨link.buf, b.desk, link.isOpen⟩ data
  { b with
    desk := r.state
    links := closeReplied b.desk.server r.state.server
      (Function.update b.links conn ⟨r.buf, r.isOpen⟩)
    gotBytes := Function.update b.gotBytes conn true
    accepts := if b.gotBytes conn then b.accepts else b.accepts + 1 }

def made (conn : Conn) (peer : Option String) (b : Backend Conn) : Backend Conn :=
  { b with
    desk := { b.desk with server := ServiceServer.step b.desk.server (.connectionMade conn) }
    links := Function.update b.links conn ⟨[], true⟩
    peerIp := Function.update b.peerIp conn (peer.getD "?")
    gotBytes := Function.update b.gotBytes conn false
    openConns := b.openConns + 1 }

/-- A connection without a byte from the load balancer was a health probe. -/
def lost (conn : Conn) (b : Backend Conn) : Backend Conn :=
  { b with
    desk := { b.desk with server := ServiceServer.step b.desk.server (.connectionLost conn) }
    links := shut conn b.links
    openConns := b.openConns - 1
    probes := if !b.gotBytes conn && b.peerIp conn = b.lbIp then b.probes + 1 else b.probes }

/-- What `_serve` records of a request, before it replies. -/
def served (log : ℚ → ℚ) (q : Request Conn) (startMs endMs : ℚ) (b : Backend Conn) : Backend Conn :=
  { b with
    histBackend := b.histBackend.record log (endMs - q.enqMs)
    histService := b.histService.record log (endMs - startMs)
    respByPeer :=
      if b.desk.server.alive q.conn then b.respByPeer.count (b.peerIp q.conn) else b.respByPeer }

def serveEnd (log : ℚ → ℚ) (k : ℕ) (roll endMs : ℚ) (tick : ℕ → ℚ) (b : Backend Conn) :
    Backend Conn :=
  match b.desk.server.serving[k]? with
  | none => b
  | some (q, startMs) =>
      let desk := b.desk.serveEnd k roll endMs tick
      { served log q startMs endMs b with
        desk := desk
        links := closeReplied b.desk.server desk.server b.links }

def onCommand (cmd : List (String × Json)) (tick : ℕ → ℚ) (b : Backend Conn) : Backend Conn :=
  let b := { b with desk := b.desk.onCommand cmd tick }
  if isReset cmd then
    { b with
      probes := 0, accepts := 0, respByPeer := .empty
      histBackend := .new, histService := .new }
  else b

def stats (now tMs : ℚ) (b : Backend Conn) : Stats × Backend Conn :=
  let s := b.desk.server
  let meter := b.desk.accountBusy now
  let (backendDelta, histBackend) := b.histBackend.takeDelta
  let (serviceDelta, histService) := b.histService.takeDelta
  ({ tMs := tMs, slot := s.slot, counters := s.c, probes := b.probes, accepts := b.accepts
     busy := s.busy, queued := s.queue.length, openConns := b.openConns, capacity := s.capacity
     busyIntegralMs := meter.integral
     config := ⟨s.capacity, s.serviceMs, s.serviceCv, s.queueLimit, s.errorRate⟩
     slowFactor := s.slowFactor, faultErrorRate := s.faultErrorRate
     histBackend := backendDelta, histService := serviceDelta, respByPeer := b.respByPeer },
    { b with
      desk := { b.desk with meter := meter }
      histBackend := histBackend, histService := histService })

end Backend

inductive Event (Conn : Type*) where
  | connectionMade (conn : Conn) (peer : Option String)
  | dataReceived (conn : Conn) (data : List UInt8) (clock tick : ℕ → ℚ)
  | idle (conn : Conn)
  | connectionLost (conn : Conn)
  | serveBegin (startMs : ℚ)
  | serveEnd (k : ℕ) (roll endMs : ℚ) (tick : ℕ → ℚ)
  | command (cmd : List (String × Json)) (tick : ℕ → ℚ)
  | stats (now tMs : ℚ)

/-- A connection is made once and lost once; data comes only while its transport is open. -/
def step (log : ℚ → ℚ) (b : Backend Conn) : Event Conn → Backend Conn
  | .connectionMade conn peer => if b.desk.server.alive conn then b else b.made conn peer
  | .dataReceived conn data clock tick =>
      if (b.links conn).isOpen then b.receive conn data clock tick else b
  | .idle conn => if b.desk.server.alive conn then { b with links := shut conn b.links } else b
  | .connectionLost conn => if b.desk.server.alive conn then b.lost conn else b
  | .serveBegin startMs =>
      { b with desk := { b.desk with server := serveBegin startMs b.desk.server } }
  | .serveEnd k roll endMs tick => b.serveEnd log k roll endMs tick
  | .command cmd tick => b.onCommand cmd tick
  | .stats now tMs => (b.stats now tMs).2

def run (log : ℚ → ℚ) (b : Backend Conn) (es : List (Event Conn)) : Backend Conn :=
  EventRun.run (step log) b es

/-! ### The server without its meter -/

section Server

variable {d : Desk Conn} {q : Request Conn}

omit [DecidableEq Conn] in
theorem server_submit (now : ℚ) (q : Request Conn) (d : Desk Conn) :
    (d.submit now q).server = ServiceServer.submit q d.server := by
  unfold Desk.submit
  split
  · next hroom =>
      unfold ServiceServer.submit
      dsimp only
      rw [if_pos hroom]
      rfl
  · rfl

omit [DecidableEq Conn] in
theorem server_admitFrom (tick : ℕ → ℚ) (l : List (Request Conn)) (d : Desk Conn) :
    (d.admitFrom tick l).server = ServiceServer.admitFrom l d.server := by
  induction l generalizing d with
  | nil => rfl
  | cons q l ih =>
      unfold Desk.admitFrom ServiceServer.admitFrom
      split
      · exact ih _
      · rfl

omit [DecidableEq Conn] in
theorem server_admitQueued (tick : ℕ → ℚ) (d : Desk Conn) :
    (d.admitQueued tick).server = ServiceServer.admitQueued d.server :=
  server_admitFrom tick d.server.queue d

theorem server_serveEnd (k : ℕ) (roll endMs : ℚ) (tick : ℕ → ℚ) (d : Desk Conn) :
    (d.serveEnd k roll endMs tick).server = ServiceServer.serveEnd k roll endMs d.server := by
  unfold Desk.serveEnd ServiceServer.serveEnd
  cases d.server.serving[k]? with
  | none => rfl
  | some task =>
      obtain ⟨q, startMs⟩ := task
      dsimp only
      generalize answer q startMs endMs roll _ = r
      obtain ⟨s, returned⟩ := r
      cases returned with
      | true => exact server_admitQueued tick _
      | false => rfl

omit [DecidableEq Conn] in
theorem server_onCommand (cmd : List (String × Json)) (tick : ℕ → ℚ) (d : Desk Conn) :
    (d.onCommand cmd tick).server = ServiceServer.onCommand cmd d.server := by
  unfold Desk.onCommand
  split
  · next hop =>
      rw [server_admitQueued, ServiceServer.onCommand, hop]
      rfl
  · rfl
  · rfl

end Server

/-! ### The integral of `busy` -/

/-- The requests that hold a place: their task has not ended, or has raised. -/
def held (s : Server Conn) : List (Request Conn) :=
  s.spawned ++ (s.serving.map Prod.fst ++ s.past.stuck)

section Places

variable {α : Type*} (a : α) (l₁ l₂ l₃ : List α)

theorem cons_perm_first : (a :: (l₁ ++ l₂)).Perm ((l₁ ++ [a]) ++ l₂) := by
  rw [List.append_assoc, List.singleton_append]
  exact List.perm_middle.symm

theorem cons_perm_second : (a :: (l₁ ++ (l₂ ++ l₃))).Perm (l₁ ++ ((l₂ ++ [a]) ++ l₃)) :=
  List.perm_middle.symm.trans ((cons_perm_first a l₂ l₃).append_left l₁)

theorem cons_perm_last : (a :: (l₁ ++ (l₂ ++ l₃))).Perm (l₁ ++ (l₂ ++ (l₃ ++ [a]))) := by
  rw [← List.append_assoc, ← List.append_assoc, ← List.append_assoc, List.append_assoc l₁]
  exact (List.perm_append_singleton a _).symm

end Places

/-- The meter measures the stays of the requests that hold a place. -/
structure Metered (d : Desk Conn) : Prop where
  measures : d.meter.Measures d.server.busy d.stays
  present : (d.stays.present.map Prod.fst).Perm (held d.server)

namespace Metered

variable {d : Desk Conn} {s : Server Conn} {q : Request Conn}

omit [DecidableEq Conn] in
/-- A change at the server that leaves the places as they are. -/
theorem of_server (h : Metered d) (hbusy : s.busy = d.server.busy)
    (hheld : (held d.server).Perm (held s)) : Metered { d with server := s } :=
  ⟨hbusy ▸ h.measures, h.present.trans hheld⟩

omit [DecidableEq Conn] in
theorem start (h : Metered d) (now : ℚ) (q : Request Conn) : Metered (d.start now q) := by
  refine ⟨h.measures.enter q now, ?_⟩
  rw [Desk.start, Stays.enter, List.map_append]
  refine (h.present.append_right [q]).trans ?_
  exact (List.perm_append_singleton q _).trans (cons_perm_first q d.server.spawned _)

omit [DecidableEq Conn] in
theorem submit (h : Metered d) (now : ℚ) (q : Request Conn) : Metered (d.submit now q) := by
  unfold Desk.submit
  split
  · refine start ?_ now q
    exact ⟨h.measures, h.present⟩
  · next hroom =>
      rcases submit_cases q d.server with ⟨hlt, -⟩ | ⟨-, -, heq⟩ | ⟨-, -, sent, heq⟩
      · exact absurd hlt hroom
      · rw [heq]
        exact h.of_server rfl (.refl _)
      · rw [heq]
        exact h.of_server rfl (.refl _)

omit [DecidableEq Conn] in
theorem admitFrom (h : Metered d) (tick : ℕ → ℚ) (l : List (Request Conn)) :
    Metered (d.admitFrom tick l) := by
  induction l generalizing d with
  | nil => exact h.of_server rfl (.refl _)
  | cons q l ih =>
      unfold Desk.admitFrom
      split
      · exact ih (h.start _ q)
      · exact h.of_server rfl (.refl _)

/-- A request that has left the tasks gives its place back. -/
theorem release (hmeasures : d.meter.Measures d.server.busy d.stays)
    (hpresent : (d.stays.present.map Prod.fst).Perm (q :: held d.server)) (now : ℚ) :
    Metered (d.release now q) := by
  have hq : q ∈ d.stays.present.map Prod.fst := hpresent.mem_iff.mpr List.mem_cons_self
  refine ⟨hmeasures.leave hq now, ?_⟩
  rw [Desk.release, Stays.map_fst_leave now hq]
  have herase := hpresent.erase q
  rwa [List.erase_cons_head] at herase

omit [DecidableEq Conn] in
/-- Task `k` out of those that sleep. -/
theorem held_eraseIdx {k : ℕ} {startMs : ℚ} (hk : d.server.serving[k]? = some (q, startMs)) :
    (held d.server).Perm (q :: held { d.server with serving := d.server.serving.eraseIdx k }) := by
  obtain ⟨hlt, hget⟩ := List.getElem?_eq_some_iff.mp hk
  have hserving := (List.getElem_cons_eraseIdx_perm hlt).symm.map Prod.fst
  rw [hget, List.map_cons] at hserving
  refine ((hserving.append_right d.server.past.stuck).append_left d.server.spawned).trans ?_
  exact List.perm_middle

theorem serveEnd (h : Metered d) (k : ℕ) (roll endMs : ℚ) (tick : ℕ → ℚ) :
    Metered (d.serveEnd k roll endMs tick) := by
  unfold Desk.serveEnd
  cases hk : d.server.serving[k]? with
  | none => exact h
  | some task =>
      obtain ⟨q, startMs⟩ := task
      have hheld := h.present.trans (held_eraseIdx hk)
      obtain ⟨c, sent, hframe⟩ :=
        answer_frame q startMs endMs roll { d.server with serving := d.server.serving.eraseIdx k }
      dsimp only
      generalize answer q startMs endMs roll _ = r at hframe ⊢
      obtain ⟨s, returned⟩ := r
      obtain rfl : s = _ := hframe
      cases returned with
      | true =>
          refine admitFrom (release ?_ ?_ _) tick _
          · exact h.measures
          · exact hheld
      | false =>
          -- the task has raised, and its request is stuck
          exact ⟨h.measures, hheld.trans (cons_perm_last q _ _ _)⟩

omit [DecidableEq Conn] in
theorem serveBegin (h : Metered d) (startMs : ℚ) :
    Metered { d with server := ServiceServer.serveBegin startMs d.server } := by
  unfold ServiceServer.serveBegin
  cases hspawned : d.server.spawned with
  | nil => exact h
  | cons q rest =>
      dsimp only
      split
      · refine h.of_server rfl ?_
        rw [held, held, hspawned, List.map_append]
        exact cons_perm_second q rest _ _
      · refine h.of_server rfl ?_
        rw [held, held, hspawned]
        exact cons_perm_last q rest _ _

omit [DecidableEq Conn] in
theorem onCommand (h : Metered d) (cmd : List (String × Json)) (tick : ℕ → ℚ) :
    Metered (d.onCommand cmd tick) := by
  unfold Desk.onCommand
  split
  · exact (h.of_server (s := reconfigure cmd d.server) rfl (.refl _)).admitFrom tick _
  · next hop =>
      have hserver : ServiceServer.onCommand cmd d.server = { d.server with c := {} } := by
        rw [ServiceServer.onCommand, hop]
        rfl
      rw [hserver]
      refine ⟨h.measures.restart (tick 0), ?_⟩
      rw [Stays.map_fst_restart]
      exact h.present
  · next hconfig hreset =>
      unfold ServiceServer.onCommand
      split
      · next hop => exact absurd hop hconfig
      all_goals exact h.of_server rfl (.refl _)

end Metered

theorem metered_step (log : ℚ → ℚ) {b : Backend Conn} (h : Metered b.desk) (e : Event Conn) :
    Metered (step log b e).desk := by
  cases e with
  | connectionMade conn peer =>
      rw [step]
      split
      · exact h
      · exact h.of_server rfl (.refl _)
  | dataReceived conn data clock tick =>
      rw [step]
      split
      · refine (feed_invariant (Q := fun _ => True) (P := Metered) (fun line d _ hd => ?_)
          (fun _ _ => trivial) (fun _ _ => trivial) h).1
        unfold onLine
        split
        · exact hd.submit _ _
        · exact hd
      · exact h
  | idle conn =>
      rw [step]
      split <;> exact h
  | connectionLost conn =>
      rw [step]
      split
      · exact h.of_server rfl (.refl _)
      · exact h
  | serveBegin startMs => exact h.serveBegin startMs
  | serveEnd k roll endMs tick =>
      rw [step, Backend.serveEnd]
      split
      · exact h
      · exact h.serveEnd k roll endMs tick
  | command cmd tick =>
      rw [step, Backend.onCommand]
      dsimp only
      split <;> exact h.onCommand cmd tick
  | stats now tMs => exact ⟨h.measures.look now, h.present⟩

theorem run_metered (log : ℚ → ℚ) (slot : ℤ) (args : BackendConfig) (lbIp : String) (startMs : ℚ)
    (es : List (Event Conn)) : Metered (run log (launch Conn slot args lbIp startMs) es).desk := by
  have hstart : Metered (launch Conn slot args lbIp startMs).desk := by
    refine ⟨⟨rfl, ?_⟩, .refl _⟩
    simp [launch, Stays.upTo]
  exact EventRun.run_invariant (P := fun b : Backend Conn => Metered b.desk)
    (fun _ e h => metered_step log h e)
    hstart es

/-- In every report, `busyIntegralMs` is the time that the requests have held their places since
the counters were reset: those that have given theirs back, and those that hold one still,
which `busy` counts. -/
theorem busy_integral (log : ℚ → ℚ) (slot : ℤ) (args : BackendConfig) (lbIp : String)
    (startMs : ℚ) (es : List (Event Conn)) (now tMs : ℚ) :
    let b := run log (launch Conn slot args lbIp startMs) es
    let r := (b.stats now tMs).1
    r.busyIntegralMs =
      b.desk.stays.past + (b.desk.stays.present.map fun stay => now - stay.2).sum ∧
    (b.desk.stays.present.map Prod.fst).Perm (held b.desk.server) ∧
    r.busy = (held b.desk.server).length := by
  intro b r
  have hmetered : Metered b.desk := run_metered log slot args lbIp startMs es
  refine ⟨(hmetered.measures.look now).integral, hmetered.present, ?_⟩
  rw [← hmetered.present.length_eq, List.length_map]
  exact hmetered.measures.count

/-! ### Where the requests are -/

/-- Requests that were accepted and whose task has not ended. -/
def house (s : Server Conn) : ℕ := s.queue.length + (s.spawned.length + s.serving.length)

/-- Every arrival is refused, answered or in the house; `owed` were in the house when the counters
were reset. -/
def Balanced (owed : ℕ) (s : Server Conn) : Prop :=
  s.c.arrivals + owed = s.c.shed + (s.c.ok + s.c.err) + house s

section Balanced

omit [DecidableEq Conn]

variable {owed : ℕ} {s : Server Conn}

theorem Balanced.submit (h : Balanced owed s) (q : Request Conn) :
    Balanced owed (submit q s) ∧ (ServiceServer.submit q s).c.ok = s.c.ok ∧
      (ServiceServer.submit q s).c.err = s.c.err ∧
      (ServiceServer.submit q s).c.abandoned = s.c.abandoned := by
  unfold Balanced house at *
  rcases submit_cases q s with ⟨-, heq⟩ | ⟨-, -, heq⟩ | ⟨-, -, sent, heq⟩
  · rw [heq]
    refine ⟨?_, rfl, rfl, rfl⟩
    simp only [start, List.length_append, List.length_singleton]
    omega
  · rw [heq]
    refine ⟨?_, rfl, rfl, rfl⟩
    simp only [List.length_append, List.length_singleton]
    omega
  · rw [heq]
    refine ⟨?_, rfl, rfl, rfl⟩
    dsimp only
    omega

/-- Who is let in from the queue stays in the house. -/
theorem house_admitFrom (l : List (Request Conn)) (s : Server Conn) :
    house (admitFrom l s) = l.length + (s.spawned.length + s.serving.length) := by
  induction l generalizing s with
  | nil => rfl
  | cons q l ih =>
      unfold admitFrom
      split
      · rw [ih, start]
        simp only [List.length_append, List.length_cons, List.length_nil]
        omega
      · rfl

theorem c_admitQueued (s : Server Conn) : (admitQueued s).c = s.c := by
  obtain ⟨busy, queue, spawned, started, hframe⟩ := admitFrom_frame s.queue s
  rw [admitQueued, hframe]

theorem Balanced.admitQueued (h : Balanced owed s) : Balanced owed (admitQueued s) := by
  have hhouse : house (ServiceServer.admitQueued s) = house s := house_admitFrom s.queue s
  unfold Balanced
  rw [hhouse, c_admitQueued]
  exact h

theorem Balanced.serveBegin (h : Balanced owed s) (hdraw : drawable s.serviceMs s.serviceCv = true)
    (startMs : ℚ) : Balanced owed (serveBegin startMs s) := by
  unfold ServiceServer.serveBegin
  cases hspawned : s.spawned with
  | nil => exact h
  | cons q rest =>
      dsimp only
      rw [if_pos hdraw]
      unfold Balanced house at *
      rw [hspawned] at h
      simp only [List.length_append, List.length_cons, List.length_nil] at h ⊢
      omega

/-- What an answer counts: one request answered, and one that nobody waited for if its
connection is gone. -/
structure Answered (gone : Bool) (c c' : Counters) : Prop where
  arrivals : c'.arrivals = c.arrivals
  shed : c'.shed = c.shed
  answered : c'.ok + c'.err = c.ok + c.err + 1
  abandoned : c'.abandoned = c.abandoned + if gone then 1 else 0

/-- The outcome of a request is counted. -/
def tally (failed : Bool) (c : Counters) : Counters :=
  if failed then { c with err := c.err + 1 } else { c with ok := c.ok + 1 }

theorem answered_tally (failed : Bool) (c : Counters) : Answered false c (tally failed c) := by
  cases failed with
  | true => exact ⟨rfl, rfl, (Nat.add_assoc _ _ _).symm, rfl⟩
  | false => exact ⟨rfl, rfl, Nat.add_right_comm _ _ _, rfl⟩

theorem answered_abandoned {c c' : Counters} (h : Answered false c c') :
    Answered true c { c' with abandoned := c'.abandoned + 1 } :=
  ⟨h.arrivals, h.shed, h.answered, congrArg (· + 1) h.abandoned⟩

theorem answer_counts (q : Request Conn) (startMs endMs roll : ℚ) (s : Server Conn) :
    ∃ c sent, (answer q startMs endMs roll s).1 = { s with c := c, sent := sent } ∧
      Answered (!s.alive q.conn) s.c c := by
  have hc := answered_tally (failure s roll) s.c
  unfold answer
  dsimp only
  cases halive : s.alive q.conn with
  | true =>
      rw [if_pos rfl]
      obtain ⟨sent, hsent⟩ := reply_frame q.conn _ q.close
        { s with c := tally (failure s roll) s.c }
      exact ⟨_, sent, hsent, hc⟩
  | false => exact ⟨_, s.sent, rfl, answered_abandoned hc⟩

theorem Balanced.answered {c : Counters} {gone : Bool} {serving : List (Request Conn × ℚ)}
    (h : Balanced owed s) (hc : Answered gone s.c c)
    (hserving : serving.length + 1 = s.serving.length)
    {sent : List (Sent Conn)} {busy : ℤ} {past : Past Conn} :
    Balanced owed
      { s with serving := serving, c := c, sent := sent, busy := busy, past := past } := by
  have := hc.arrivals
  have := hc.shed
  have := hc.answered
  unfold Balanced house at *
  dsimp only
  omega

theorem Balanced.serveEnd (h : Balanced owed s) {k : ℕ} {q : Request Conn} {startMs : ℚ}
    (hk : s.serving[k]? = some (q, startMs)) (roll endMs : ℚ) :
    Balanced owed (serveEnd k roll endMs s) ∧
      Answered (!s.alive q.conn) s.c (ServiceServer.serveEnd k roll endMs s).c := by
  obtain ⟨hlt, -⟩ := List.getElem?_eq_some_iff.mp hk
  have herase := List.length_eraseIdx_of_lt hlt
  have hless : (s.serving.eraseIdx k).length + 1 = s.serving.length := by omega
  obtain ⟨c, sent, hanswer, hc⟩ :=
    answer_counts q startMs endMs roll { s with serving := s.serving.eraseIdx k }
  unfold ServiceServer.serveEnd
  rw [hk]
  dsimp only
  rw [hanswer]
  split
  · refine ⟨(h.answered hc hless).admitQueued, ?_⟩
    rw [c_admitQueued]
    exact hc
  · exact ⟨h.answered hc hless, hc⟩

theorem Balanced.onCommand {cmd : List (String × Json)} (h : Balanced owed s)
    (hcmd : isReset cmd = false) : Balanced owed (onCommand cmd s) ∧
      (ServiceServer.onCommand cmd s).c = s.c := by
  unfold ServiceServer.onCommand
  split
  · exact ⟨Balanced.admitQueued h, c_admitQueued _⟩
  · exact ⟨h, rfl⟩
  · exact ⟨h, rfl⟩
  · next hop =>
      rw [isReset_iff.mpr hop] at hcmd
      cases hcmd
  · exact ⟨h, rfl⟩

end Balanced

/-- The open connections. -/
structure Connected (b : Backend Conn) : Prop where
  finite : {conn | b.desk.server.alive conn = true}.Finite
  openConns : b.openConns = {conn | b.desk.server.alive conn = true}.ncard

def Event.isReset : Event Conn → Bool
  | .command cmd _ => ServiceServer.isReset cmd
  | _ => false

/-- Only the two events of a connection change who is there. -/
theorem alive_step (log : ℚ → ℚ) (b : Backend Conn) {e : Event Conn}
    (hmade : ∀ conn peer, e ≠ .connectionMade conn peer)
    (hlost : ∀ conn, e ≠ .connectionLost conn) :
    (step log b e).desk.server.alive = b.desk.server.alive ∧
      (step log b e).openConns = b.openConns := by
  cases e with
  | connectionMade conn peer => exact absurd rfl (hmade conn peer)
  | dataReceived conn data clock tick =>
      rw [step]
      split
      · refine ⟨(feed_invariant (Q := fun _ => True)
          (P := fun d : Desk Conn => d.server.alive = b.desk.server.alive) (fun line d _ hd => ?_)
          (fun _ _ => trivial) (fun _ _ => trivial) rfl).1, rfl⟩
        unfold onLine
        split
        · simp only [Backend.submitFrom, server_submit, alive_submit]
          exact hd
        · exact hd
      · exact ⟨rfl, rfl⟩
  | idle conn =>
      rw [step]
      split <;> exact ⟨rfl, rfl⟩
  | connectionLost conn => exact absurd rfl (hlost conn)
  | serveBegin startMs => exact ⟨alive_serveBegin startMs b.desk.server, rfl⟩
  | serveEnd k roll endMs tick =>
      rw [step, Backend.serveEnd]
      split
      · exact ⟨rfl, rfl⟩
      · refine ⟨?_, rfl⟩
        dsimp only
        rw [server_serveEnd, alive_serveEnd]
  | command cmd tick =>
      have hserver := alive_onCommand cmd b.desk.server
      rw [step, Backend.onCommand]
      dsimp only
      split
      · exact ⟨(congrArg Server.alive (server_onCommand cmd tick b.desk)).trans hserver, rfl⟩
      · exact ⟨(congrArg Server.alive (server_onCommand cmd tick b.desk)).trans hserver, rfl⟩
  | stats now tMs => exact ⟨rfl, rfl⟩

theorem alive_update (alive : Conn → Bool) (conn : Conn) :
    {c | Function.update alive conn true c = true} = insert conn {c | alive c = true} ∧
      {c | Function.update alive conn false c = true} = {c | alive c = true} \ {conn} := by
  constructor
  · ext c
    by_cases hc : c = conn
    · simp [hc]
    · simp [hc]
  · ext c
    by_cases hc : c = conn
    · simp [hc]
    · simp [hc]

theorem Connected.step (log : ℚ → ℚ) {b : Backend Conn} (h : Connected b) (e : Event Conn) :
    Connected (step log b e) := by
  by_cases hmade : ∃ conn peer, e = .connectionMade conn peer
  · obtain ⟨conn, peer, rfl⟩ := hmade
    rw [ServerStats.step]
    split
    · exact h
    · next hnew =>
        have hset := (alive_update b.desk.server.alive conn).1
        refine ⟨?_, ?_⟩
        · exact hset ▸ h.finite.insert conn
        · refine Eq.trans ?_ (congrArg (fun s : Set Conn => (s.ncard : ℤ)) hset).symm
          rw [Set.ncard_insert_of_notMem (by simpa using hnew) h.finite, Nat.cast_add,
            ← h.openConns]
          rfl
  · by_cases hlost : ∃ conn, e = .connectionLost conn
    · obtain ⟨conn, rfl⟩ := hlost
      rw [ServerStats.step]
      split
      · next halive =>
          have hset := (alive_update b.desk.server.alive conn).2
          refine ⟨?_, ?_⟩
          · exact hset ▸ h.finite.sdiff
          · refine Eq.trans ?_ (congrArg (fun s : Set Conn => (s.ncard : ℤ)) hset).symm
            have hless := Set.ncard_sdiff_singleton_add_one
              (s := {c | b.desk.server.alive c = true}) halive h.finite
            have hopen : (b.lost conn).openConns = b.openConns - 1 := rfl
            rw [hopen, h.openConns, ← hless]
            push_cast
            ring
      · exact h
    · push Not at hmade hlost
      obtain ⟨halive, hopen⟩ := alive_step log b hmade hlost
      refine ⟨?_, ?_⟩
      · rw [halive]
        exact h.finite
      · rw [halive, hopen]
        exact h.openConns

/-! ### Reports -/

omit [DecidableEq Conn] in
/-- The three figures from which a backend is taken to be idle. -/
theorem idle_iff {b : Backend Conn} (hconnected : Connected b) (hmetered : Metered b.desk)
    (now tMs : ℚ) :
    ((b.stats now tMs).1.busy = 0 ∧ (b.stats now tMs).1.queued = 0 ∧
      (b.stats now tMs).1.openConns = 0) ↔
    house b.desk.server = 0 ∧ b.desk.server.past.stuck = [] ∧
      ∀ conn, b.desk.server.alive conn = false := by
  have hbusy : (b.stats now tMs).1.busy = (held b.desk.server).length := by
    rw [← hmetered.present.length_eq, List.length_map]
    exact hmetered.measures.count
  have hopen : (b.stats now tMs).1.openConns = 0 ↔ ∀ conn, b.desk.server.alive conn = false := by
    rw [show (b.stats now tMs).1.openConns = b.openConns from rfl, hconnected.openConns,
      Int.natCast_eq_zero, Set.ncard_eq_zero hconnected.finite, Set.eq_empty_iff_forall_notMem]
    simp
  have hqueued : (b.stats now tMs).1.queued = b.desk.server.queue.length := rfl
  rw [hopen, hbusy, hqueued, held, house, ← List.length_eq_zero_iff]
  simp only [List.length_append, List.length_map]
  constructor
  · rintro ⟨hheld, hqueue, hconns⟩
    exact ⟨by omega, by omega, hconns⟩
  · rintro ⟨hhouse, hstuck, hconns⟩
    exact ⟨by omega, by omega, hconns⟩

/-- One place and one to wait in: a request is in service when the counters are set to zero. -/
def sampleBefore : List (Event Unit) :=
  [.connectionMade () (some "10.0.0.9"),
    .dataReceived () (asciiBytes "REQ 7 keep\n") (fun _ => 1) (fun _ => 1), .serveBegin 1,
    .command [("op", .str "reset_stats")] (fun _ => 2)]

/-- Of two more, one waits and one is refused; the first one is answered, the second begins. -/
def sampleAfter : List (Event Unit) :=
  [.dataReceived () (asciiBytes "REQ 8 keep\nREQ 9 keep\n") (fun _ => 3) (fun _ => 3),
    .serveEnd 0 1 21 (fun _ => 21), .serveBegin 21]

end MaglevLb.ServerStats
