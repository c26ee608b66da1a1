import MaglevLb.ServiceServer
import MaglevLb.WireProtocol
import Mathlib.Algebra.Order.Ring.Rat

/-!
# Requests and the places they take

The server with its connections: bytes come in, are made requests and submitted, and a
request that is started takes a place until its task ends. A task that raises keeps the
place for good. It raises on a reply to a client that is there if the id is not ASCII, as
it is when a byte of it was above 127, and on a service time that cannot be drawn.
-/
namespace MaglevLb.RequestSlots

open Children LineReader WireProtocol ServiceServer
open Schema (Json)

variable {Conn : Type*} [DecidableEq Conn]

/-! ### Connections and the server -/

/-- What a connection keeps of an unfinished line, and whether its transport takes data. -/
structure Link where
  buf : List UInt8
  isOpen : Bool

structure Process (Conn : Type*) where
  server : Server Conn
  links : Conn → Link

def launch (Conn : Type*) (slot : ℤ) (args : BackendConfig) : Process Conn :=
  ⟨init Conn slot args, fun _ => ⟨[], false⟩⟩

/-- Only a refusal writes to the connection, and can raise. -/
def submitReturns (q : Request Conn) (s : Server Conn) : Bool :=
  if s.busy < s.capacity then true
  else if (s.queue.length : ℤ) < s.queueLimit then true
  else (reply q.conn (.shed q.reqId s.slot) q.close s).2

/-- `clock` is read at each request. -/
def submitFrom (conn : Conn) (clock : ℕ → ℚ) (reqId : String) (close : Bool) (s : Server Conn) :
    Server Conn × Bool :=
  let q : Request Conn := ⟨conn, reqId, close, clock s.c.arrivals⟩
  (submit q s, submitReturns q s)

/-- The transport of a connection is closed by a reply that says so. -/
def closeReplied (before after : Server Conn) (links : Conn → Link) (conn : Conn) : Link :=
  if (after.sent.drop before.sent.length).any fun m => m.conn = conn ∧ m.close = true then
    { links conn with isOpen := false }
  else links conn

def receive (conn : Conn) (data : List UInt8) (clock : ℕ → ℚ) (p : Process Conn) : Process Conn :=
  let link := p.links conn
  let r := dataReceived (submitFrom conn clock) ⟨link.buf, p.server, link.isOpen⟩ data
  ⟨r.state, closeReplied p.server r.state (Function.update p.links conn ⟨r.buf, r.isOpen⟩)⟩

def shut (conn : Conn) (links : Conn → Link) : Conn → Link :=
  Function.update links conn { links conn with isOpen := false }

inductive Event (Conn : Type*) where
  | connectionMade (conn : Conn)
  | dataReceived (conn : Conn) (data : List UInt8) (clock : ℕ → ℚ)
  | idle (conn : Conn)
  | connectionLost (conn : Conn)
  | serveBegin (startMs : ℚ)
  | serveEnd (k : ℕ) (roll endMs : ℚ)
  | command (cmd : List (String × Json))

def step (p : Process Conn) : Event Conn → Process Conn
  | .connectionMade conn =>
      ⟨ServiceServer.step p.server (.connectionMade conn),
        Function.update p.links conn ⟨[], true⟩⟩
  | .dataReceived conn data clock => receive conn data clock p
  | .idle conn => if p.server.alive conn then { p with links := shut conn p.links } else p
  | .connectionLost conn =>
      ⟨ServiceServer.step p.server (.connectionLost conn), shut conn p.links⟩
  | .serveBegin startMs => { p with server := serveBegin startMs p.server }
  | .serveEnd k roll endMs =>
      let s := serveEnd k roll endMs p.server
      ⟨s, closeReplied p.server s p.links⟩
  | .command cmd => { p with server := onCommand cmd p.server }

def run (p : Process Conn) (es : List (Event Conn)) : Process Conn := EventRun.run step p es

/-- Requests whose task has begun or is about to, and has not ended. -/
def inService (s : Server Conn) : ℕ := s.spawned.length + s.serving.length

/-! ### Tasks that raise -/

def Ascii (id : String) : Prop := ∀ c ∈ id.toList, c.val < 128

/-- The event ends a task by an exception. -/
def Raises (p : Process Conn) : Event Conn → Prop
  | .serveBegin _ =>
      p.server.spawned ≠ [] ∧ drawable p.server.serviceMs p.server.serviceCv = false
  | .serveEnd k _ _ =>
      ∃ q startMs, p.server.serving[k]? = some (q, startMs) ∧ p.server.alive q.conn = true ∧
        ¬Ascii q.reqId
  | _ => False

theorem encodable_iff {r : Reply} : r.encodable = true ↔ Ascii r.reqId := by
  simp [Reply.encodable, Ascii]

section Server

omit [DecidableEq Conn]

variable {s : Server Conn} {q : Request Conn} {k : ℕ} {startMs : ℚ}

theorem reply_returned (conn : Conn) (r : Reply) (close : Bool) (s : Server Conn) :
    (reply conn r close s).2 = true ↔ (s.alive conn = true → Ascii r.reqId) := by
  rw [← encodable_iff]
  unfold reply
  split
  · next halive => split <;> simp_all
  · next hgone => simp [hgone]

theorem answer_returned (q : Request Conn) (startMs endMs roll : ℚ) (s : Server Conn) :
    (answer q startMs endMs roll s).2 = true ↔ (s.alive q.conn = true → Ascii q.reqId) := by
  unfold answer
  dsimp only
  split
  · rw [reply_returned]
    have hid : ∀ (failed : Bool) (slot queuedUs serviceUs : ℤ),
        (if failed then Reply.err q.reqId slot queuedUs serviceUs
          else .ok q.reqId slot queuedUs serviceUs).reqId = q.reqId := by
      intro failed slot queuedUs serviceUs
      cases failed <;> rfl
    rw [hid]
  · next hgone => exact iff_of_true rfl fun h => absurd h hgone

/-- A task that returns gives its place back and lets the queue move up. -/
theorem serveEnd_of_returned (hk : s.serving[k]? = some (q, startMs))
    (h : s.alive q.conn = true → Ascii q.reqId) (roll endMs : ℚ) :
    ∃ c sent, serveEnd k roll endMs s = admitQueued
      { s with serving := s.serving.eraseIdx k, c := c, sent := sent, busy := s.busy - 1 } := by
  obtain ⟨c, sent, hframe⟩ :=
    answer_frame q startMs endMs roll { s with serving := s.serving.eraseIdx k }
  have hreturned := (answer_returned q startMs endMs roll
    { s with serving := s.serving.eraseIdx k }).mpr h
  refine ⟨c, sent, ?_⟩
  unfold serveEnd
  rw [hk]
  dsimp only
  rw [hreturned, if_pos rfl, hframe]

/-- A task that raises keeps its place, and nothing moves up. -/
theorem serveEnd_of_raised (hk : s.serving[k]? = some (q, startMs))
    (halive : s.alive q.conn = true) (hid : ¬Ascii q.reqId) (roll endMs : ℚ) :
    ∃ c sent, serveEnd k roll endMs s =
      { s with
        serving := s.serving.eraseIdx k, c := c, sent := sent, past := s.past.raise q } := by
  obtain ⟨c, sent, hframe⟩ :=
    answer_frame q startMs endMs roll { s with serving := s.serving.eraseIdx k }
  have hraised :
      (answer q startMs endMs roll { s with serving := s.serving.eraseIdx k }).2 ≠ true :=
    fun hreturned => hid ((answer_returned _ _ _ _ _).mp hreturned halive)
  refine ⟨c, sent, ?_⟩
  unfold serveEnd
  rw [hk]
  dsimp only
  rw [if_neg hraised, hframe]

/-- To admit from the queue changes what is started, and nothing of what has raised. -/
theorem admitFrom_frame (l : List (Request Conn)) (s : Server Conn) :
    ∃ busy queue spawned started, admitFrom l s =
      { s with
        busy := busy, queue := queue, spawned := spawned
        past := { s.past with started := started } } := by
  induction l generalizing s with
  | nil => exact ⟨s.busy, [], s.spawned, s.past.started, rfl⟩
  | cons q l ih =>
      unfold admitFrom
      split
      · obtain ⟨busy, queue, spawned, started, heq⟩ := ih (start q s)
        exact ⟨busy, queue, spawned, started, heq⟩
      · exact ⟨s.busy, q :: l, s.spawned, s.past.started, rfl⟩

theorem submit_frame (q : Request Conn) (s : Server Conn) :
    ∃ c busy queue spawned sent accepted started, submit q s =
      { s with
        c := c, busy := busy, queue := queue, spawned := spawned, sent := sent
        past := { s.past with accepted := accepted, started := started } } := by
  rcases submit_cases q s with ⟨-, heq⟩ | ⟨-, -, heq⟩ | ⟨-, -, sent, heq⟩
  · exact ⟨_, _, s.queue, _, s.sent, _, _, heq⟩
  · exact ⟨_, s.busy, _, s.spawned, s.sent, _, s.past.started, heq⟩
  · exact ⟨_, s.busy, s.queue, s.spawned, sent, s.past.accepted, s.past.started, heq⟩

theorem stuck_admitQueued (s : Server Conn) : (admitQueued s).past.stuck = s.past.stuck := by
  obtain ⟨busy, queue, spawned, started, heq⟩ := admitFrom_frame s.queue s
  rw [admitQueued, heq]

theorem stuck_submit (q : Request Conn) (s : Server Conn) :
    (submit q s).past.stuck = s.past.stuck := by
  obtain ⟨c, busy, queue, spawned, sent, accepted, started, heq⟩ := submit_frame q s
  rw [heq]

theorem alive_submit (q : Request Conn) (s : Server Conn) : (submit q s).alive = s.alive := by
  obtain ⟨c, busy, queue, spawned, sent, accepted, started, heq⟩ := submit_frame q s
  rw [heq]

theorem alive_admitQueued (s : Server Conn) : (admitQueued s).alive = s.alive := by
  obtain ⟨busy, queue, spawned, started, heq⟩ := admitFrom_frame s.queue s
  rw [admitQueued, heq]

theorem alive_serveBegin (startMs : ℚ) (s : Server Conn) :
    (serveBegin startMs s).alive = s.alive := by
  unfold serveBegin
  split
  · rfl
  · dsimp only
    split <;> rfl

theorem alive_serveEnd (k : ℕ) (roll endMs : ℚ) (s : Server Conn) :
    (serveEnd k roll endMs s).alive = s.alive := by
  rcases serveEnd_cases k roll endMs s with heq | ⟨q, startMs, c, sent, -, heq | heq⟩
  · rw [heq]
  · rw [heq, alive_admitQueued]
  · rw [heq]

theorem alive_onCommand (cmd : List (String × Json)) (s : Server Conn) :
    (onCommand cmd s).alive = s.alive := by
  rcases onCommand_cases cmd s with ⟨c, slow, rate, heq⟩ | ⟨capacity, ms, cv, limit, rate, heq⟩
  · rw [heq]
  · rw [heq, alive_admitQueued]

theorem stuck_onCommand (cmd : List (String × Json)) (s : Server Conn) :
    (onCommand cmd s).past.stuck = s.past.stuck := by
  rcases onCommand_cases cmd s with ⟨c, slow, rate, heq⟩ | ⟨capacity, ms, cv, limit, rate, heq⟩
  · rw [heq]
  · rw [heq, stuck_admitQueued]

end Server

/-- What every request that is submitted preserves, given what the bytes are like. -/
theorem receive_invariant {P : Server Conn → Prop} {Q : UInt8 → Prop} {conn : Conn}
    {data : List UInt8} {p : Process Conn} (clock : ℕ → ℚ)
    (hsubmit : ∀ line reqId close, (∀ b ∈ line, Q b) → parseRequest line = some (reqId, close) →
      ∀ s enqMs, P s → P (submit ⟨conn, reqId, close, enqMs⟩ s))
    (hbuf : ∀ b ∈ (p.links conn).buf, Q b) (hdata : ∀ b ∈ data, Q b) (hp : P p.server) :
    P (receive conn data clock p).server ∧
      ∀ b ∈ (dataReceived (submitFrom conn clock) ⟨(p.links conn).buf, p.server,
        (p.links conn).isOpen⟩ data).buf, Q b := by
  refine feed_invariant (fun line s hline hs => ?_) hbuf hdata hp
  unfold onLine
  split
  · next reqId close hparse => exact hsubmit line reqId close hline hparse s _ hs
  · exact hs

@[simp] theorem step_idle_server (p : Process Conn) (conn : Conn) :
    (step p (.idle conn)).server = p.server := by
  simp only [step]
  split <;> rfl

/-- Whatever happens is a number of events at the server. -/
theorem step_invariant {P : Server Conn → Prop}
    (hserver : ∀ s e, P s → P (ServiceServer.step s e)) {p : Process Conn} (hp : P p.server)
    (e : Event Conn) : P (step p e).server := by
  cases e with
  | connectionMade conn => exact hserver _ (.connectionMade conn) hp
  | dataReceived conn data clock =>
      exact (receive_invariant (Q := fun _ => True) clock
        (fun _ _ _ _ _ s _ hs => hserver s (.submit _) hs) (fun _ _ => trivial)
        (fun _ _ => trivial) hp).1
  | idle conn => rwa [step_idle_server]
  | connectionLost conn => exact hserver _ (.connectionLost conn) hp
  | serveBegin startMs => exact hserver _ (.serveBegin startMs) hp
  | serveEnd k roll endMs => exact hserver _ (.serveEnd k roll endMs) hp
  | command cmd => exact hserver _ (.command cmd) hp

omit [DecidableEq Conn] in
theorem stuck_serveBegin (startMs : ℚ) (p : Process Conn) :
    (serveBegin startMs p.server).past.stuck = [] ↔
      p.server.past.stuck = [] ∧ ¬Raises p (.serveBegin startMs) := by
  unfold serveBegin Raises
  split
  · next hnone => simp [hnone]
  · next q rest hspawned =>
      dsimp only
      split
      · next hdrawable => simp [Past.begin, hspawned, hdrawable]
      · next hundrawable => simp [Past.raise, Past.begin, hspawned, hundrawable]

omit [DecidableEq Conn] in
theorem stuck_serveEnd (k : ℕ) (roll endMs : ℚ) (p : Process Conn) :
    (serveEnd k roll endMs p.server).past.stuck = [] ↔
      p.server.past.stuck = [] ∧ ¬Raises p (.serveEnd k roll endMs) := by
  cases hk : p.server.serving[k]? with
  | none => simp [serveEnd, Raises, hk]
  | some task =>
      obtain ⟨q, startMs⟩ := task
      by_cases hreturns : p.server.alive q.conn = true → Ascii q.reqId
      · obtain ⟨c, sent, heq⟩ := serveEnd_of_returned hk hreturns roll endMs
        have hnot : ¬Raises p (.serveEnd k roll endMs) := by
          rintro ⟨q', startMs', hk', halive, hid⟩
          cases hk.symm.trans hk'
          exact hid (hreturns halive)
        rw [heq, stuck_admitQueued]
        exact (and_iff_left hnot).symm
      · obtain ⟨halive, hid⟩ := Classical.not_imp.mp hreturns
        obtain ⟨c, sent, heq⟩ := serveEnd_of_raised hk halive hid roll endMs
        have hraises : Raises p (.serveEnd k roll endMs) := ⟨q, startMs, hk, halive, hid⟩
        rw [heq]
        simp [Past.raise, hraises]

/-- Exactly the events that raise leave a place taken. -/
theorem stuck_step (p : Process Conn) (e : Event Conn) :
    (step p e).server.past.stuck = [] ↔ p.server.past.stuck = [] ∧ ¬Raises p e := by
  cases e with
  | connectionMade conn => exact (and_iff_left not_false).symm
  | dataReceived conn data clock =>
      have hkept : (receive conn data clock p).server.past.stuck = p.server.past.stuck :=
        (receive_invariant (P := fun s => s.past.stuck = p.server.past.stuck) (Q := fun _ => True)
          clock (fun _ _ _ _ _ s _ hs => (stuck_submit _ s).trans hs) (fun _ _ => trivial)
          (fun _ _ => trivial) rfl).1
      rw [step, hkept]
      exact (and_iff_left not_false).symm
  | idle conn =>
      rw [step_idle_server]
      exact (and_iff_left not_false).symm
  | connectionLost conn => exact (and_iff_left not_false).symm
  | serveBegin startMs => exact stuck_serveBegin startMs p
  | serveEnd k roll endMs => exact stuck_serveEnd k roll endMs p
  | command cmd =>
      rw [step, stuck_onCommand]
      exact (and_iff_left not_false).symm

/-! ### ASCII on the wire -/

theorem mem_splitFrom {word w : List Char} {text : List Char} (hw : w ∈ splitFrom word text)
    {c : Char} (hc : c ∈ w) : c ∈ word ∨ c ∈ text := by
  induction text generalizing word with
  | nil =>
      unfold splitFrom at hw
      split at hw
      · cases hw
      · cases List.mem_singleton.mp hw
        exact .inl hc
  | cons d text ih =>
      unfold splitFrom at hw
      split at hw
      · rcases List.mem_append.mp hw with hw | hw
        · split at hw
          · cases hw
          · cases List.mem_singleton.mp hw
            exact .inl hc
        · exact .inr (List.mem_cons_of_mem _ ((ih hw).resolve_left List.not_mem_nil))
      · rcases ih hw with hword | htext
        · rcases List.mem_append.mp hword with hword | hd
          · exact .inl hword
          · exact .inr (List.mem_singleton.mp hd ▸ List.mem_cons_self)
        · exact .inr (List.mem_cons_of_mem _ htext)

theorem decodeByte_lt {b : UInt8} (h : b < 128) : (decodeByte b).val < 128 := by
  rw [decodeByte, if_pos h]
  have hlt : b.toNat < 128 := h
  have hvalid : b.toNat.isValidChar := .inl (by omega)
  rw [Char.ofNat, dif_pos hvalid]
  exact UInt32.lt_iff_toNat_lt.mpr hlt

theorem ascii_of_parseRequest {line : List UInt8} {reqId : String} {close : Bool}
    (hline : ∀ b ∈ line, b < 128) (h : parseRequest line = some (reqId, close)) : Ascii reqId := by
  unfold parseRequest at h
  split at h
  · next verb id mode hsplit =>
      split at h
      · cases h
        intro c hc
        rw [String.toList_ofList] at hc
        have hword : id ∈ split (line.map decodeByte) := by simp [hsplit]
        have htext := (mem_splitFrom hword hc).resolve_left List.not_mem_nil
        obtain ⟨b, hb, rfl⟩ := List.mem_map.mp htext
        exact decodeByte_lt (hline b hb)
      · cases h
  · cases h

/-- Every request the server still has to answer has an ASCII id. -/
structure AsciiIds (s : Server Conn) : Prop where
  queue : ∀ q ∈ s.queue, Ascii q.reqId
  spawned : ∀ q ∈ s.spawned, Ascii q.reqId
  serving : ∀ t ∈ s.serving, Ascii t.1.reqId

namespace AsciiIds

omit [DecidableEq Conn]

variable {s s' : Server Conn} {q : Request Conn}

theorem of_subset (h : AsciiIds s) (hqueue : s'.queue ⊆ s.queue) (hspawned : s'.spawned ⊆ s.spawned)
    (hserving : s'.serving ⊆ s.serving) : AsciiIds s' :=
  ⟨fun q hq => h.queue q (hqueue hq), fun q hq => h.spawned q (hspawned hq),
    fun t ht => h.serving t (hserving ht)⟩

theorem start (h : AsciiIds s) (hq : Ascii q.reqId) : AsciiIds (start q s) := by
  refine ⟨h.queue, fun q' hq' => ?_, h.serving⟩
  rcases List.mem_append.mp hq' with hq' | hq'
  · exact h.spawned q' hq'
  · exact List.mem_singleton.mp hq' ▸ hq

theorem admitFrom (h : AsciiIds s) {l : List (Request Conn)} (hl : ∀ q ∈ l, Ascii q.reqId) :
    AsciiIds (admitFrom l s) := by
  induction l generalizing s with
  | nil => exact ⟨List.forall_mem_nil _, h.spawned, h.serving⟩
  | cons q l ih =>
      obtain ⟨hq, hl⟩ := List.forall_mem_cons.mp hl
      unfold ServiceServer.admitFrom
      split
      · exact ih (h.start hq) hl
      · exact ⟨List.forall_mem_cons.mpr ⟨hq, hl⟩, h.spawned, h.serving⟩

theorem admitQueued (h : AsciiIds s) : AsciiIds (admitQueued s) := h.admitFrom h.queue

theorem submit (h : AsciiIds s) (hq : Ascii q.reqId) : AsciiIds (submit q s) := by
  rcases submit_cases q s with ⟨-, heq⟩ | ⟨-, -, heq⟩ | ⟨-, -, sent, heq⟩
  · rw [heq]
    exact start (h.of_subset (List.Subset.refl _) (List.Subset.refl _) (List.Subset.refl _)) hq
  · rw [heq]
    refine ⟨fun q' hq' => ?_, h.spawned, h.serving⟩
    rcases List.mem_append.mp hq' with hq' | hq'
    · exact h.queue q' hq'
    · exact List.mem_singleton.mp hq' ▸ hq
  · rw [heq]
    exact ⟨h.queue, h.spawned, h.serving⟩

theorem serveBegin (h : AsciiIds s) (startMs : ℚ) : AsciiIds (serveBegin startMs s) := by
  unfold ServiceServer.serveBegin
  split
  · exact h
  · next q rest hspawned =>
      obtain ⟨hq, hrest⟩ := List.forall_mem_cons.mp (hspawned ▸ h.spawned)
      dsimp only
      split
      · refine ⟨h.queue, hrest, fun t ht => ?_⟩
        rcases List.mem_append.mp ht with ht | ht
        · exact h.serving t ht
        · exact List.mem_singleton.mp ht ▸ hq
      · exact ⟨h.queue, hrest, h.serving⟩

theorem serveEnd (h : AsciiIds s) (k : ℕ) (roll endMs : ℚ) :
    AsciiIds (serveEnd k roll endMs s) := by
  have herase : s.serving.eraseIdx k ⊆ s.serving := fun t ht => List.mem_of_mem_eraseIdx ht
  rcases serveEnd_cases k roll endMs s with heq | ⟨q, startMs, c, sent, -, heq | heq⟩
  · rwa [heq]
  · rw [heq]
    exact admitQueued (h.of_subset (List.Subset.refl _) (List.Subset.refl _) herase)
  · rw [heq]
    exact h.of_subset (List.Subset.refl _) (List.Subset.refl _) herase

theorem onCommand (h : AsciiIds s) (cmd : List (String × Json)) : AsciiIds (onCommand cmd s) := by
  rcases onCommand_cases cmd s with ⟨c, slow, rate, heq⟩ | ⟨capacity, ms, cv, limit, rate, heq⟩
  · rw [heq]
    exact ⟨h.queue, h.spawned, h.serving⟩
  · rw [heq]
    exact admitQueued ⟨h.queue, h.spawned, h.serving⟩

end AsciiIds

/-- Nothing but ASCII has come in. -/
structure AsciiWire (p : Process Conn) : Prop where
  bufs : ∀ conn, ∀ b ∈ (p.links conn).buf, b < 128
  ids : AsciiIds p.server

/-- The bytes an event brings. -/
def Event.bytes : Event Conn → List UInt8
  | .dataReceived _ data _ => data
  | _ => []

theorem buf_closeReplied (before after : Server Conn) (links : Conn → Link) (conn : Conn) :
    (closeReplied before after links conn).buf = (links conn).buf := by
  unfold closeReplied
  split <;> rfl

theorem buf_shut (conn : Conn) (links : Conn → Link) (conn' : Conn) :
    (shut conn links conn').buf = (links conn').buf := by
  unfold shut
  by_cases h : conn' = conn
  · rw [h, Function.update_self]
  · rw [Function.update_of_ne h]

theorem AsciiWire.receive {p : Process Conn} (h : AsciiWire p) (conn : Conn) {data : List UInt8}
    (hdata : ∀ b ∈ data, b < 128) (clock : ℕ → ℚ) : AsciiWire (receive conn data clock p) := by
  obtain ⟨hids, hbuf⟩ := receive_invariant (P := AsciiIds) (Q := fun b => b < 128) clock
    (fun line reqId close hline hparse s enqMs hs =>
      hs.submit (ascii_of_parseRequest hline hparse)) (h.bufs conn) hdata h.ids
  refine ⟨fun conn' => ?_, hids⟩
  rw [RequestSlots.receive]
  dsimp only
  rw [buf_closeReplied]
  by_cases hconn : conn' = conn
  · rw [hconn, Function.update_self]
    exact hbuf
  · rw [Function.update_of_ne hconn]
    exact h.bufs conn'

theorem AsciiWire.step {p : Process Conn} (h : AsciiWire p) {e : Event Conn}
    (he : ∀ b ∈ e.bytes, b < 128) : AsciiWire (step p e) := by
  cases e with
  | connectionMade conn =>
      refine ⟨fun conn' => ?_, h.ids.queue, h.ids.spawned, h.ids.serving⟩
      rw [RequestSlots.step]
      dsimp only
      by_cases hconn : conn' = conn
      · rw [hconn, Function.update_self]
        exact List.forall_mem_nil _
      · rw [Function.update_of_ne hconn]
        exact h.bufs conn'
  | dataReceived conn data clock => exact h.receive conn he clock
  | idle conn =>
      rw [RequestSlots.step]
      split
      · refine ⟨fun conn' => ?_, h.ids⟩
        rw [buf_shut]
        exact h.bufs conn'
      · exact h
  | connectionLost conn =>
      refine ⟨fun conn' => ?_, h.ids.queue, h.ids.spawned, h.ids.serving⟩
      rw [RequestSlots.step]
      dsimp only
      rw [buf_shut]
      exact h.bufs conn'
  | serveBegin startMs => exact ⟨h.bufs, h.ids.serveBegin startMs⟩
  | serveEnd k roll endMs =>
      refine ⟨fun conn' => ?_, h.ids.serveEnd k roll endMs⟩
      rw [RequestSlots.step]
      dsimp only
      rw [buf_closeReplied]
      exact h.bufs conn'
  | command cmd => exact ⟨h.bufs, h.ids.onCommand cmd⟩

/-! ### Service times -/

section ServiceTimes

omit [DecidableEq Conn]

theorem drawable_of_pos {ms : ℚ} (h : 0 < ms) (cv : ℚ) : drawable ms cv = true := by
  rw [drawable, Bool.or_eq_true, decide_eq_true_eq, decide_eq_true_eq]
  by_cases hcv : cv ≤ 1 / 100
  · exact .inl hcv
  · have hpos : 0 < cv := lt_trans (by decide +kernel) (not_le.mp hcv)
    exact .inr (mul_pos (mul_pos h hpos) hpos)

theorem bounded_pos {hi : ℤ} {v w : ℚ} (h : bounded 1 hi v = some w) : 0 < w := by
  unfold bounded at h
  split at h
  · cases h
  · next hin =>
      cases h
      exact lt_of_lt_of_le (by decide) (not_lt.mp (not_or.mp hin).1)

theorem num_pos {cmd : List (String × Json)} {key : String} {hi : ℤ} {default : ℚ}
    (h : 0 < default) : 0 < num cmd key 1 hi default := by
  unfold num
  cases hv : numeric cmd key 1 hi with
  | none => exact h
  | some v =>
      unfold numeric at hv
      split at hv
      · exact bounded_pos hv
      · exact bounded_pos hv
      · cases hv

theorem serviceMs_admitQueued (s : Server Conn) : (admitQueued s).serviceMs = s.serviceMs := by
  obtain ⟨busy, queue, spawned, started, heq⟩ := admitFrom_frame s.queue s
  rw [admitQueued, heq]

theorem serviceMs_submit (q : Request Conn) (s : Server Conn) :
    (submit q s).serviceMs = s.serviceMs := by
  obtain ⟨c, busy, queue, spawned, sent, accepted, started, heq⟩ := submit_frame q s
  rw [heq]

theorem serviceMs_onCommand (cmd : List (String × Json)) {s : Server Conn} (h : 0 < s.serviceMs) :
    0 < (onCommand cmd s).serviceMs := by
  unfold onCommand
  split
  · rw [serviceMs_admitQueued]
    exact num_pos h
  · exact h
  · exact h
  · exact h
  · exact h

end ServiceTimes

theorem serviceMs_step {s : Server Conn} (h : 0 < s.serviceMs) (e : ServiceServer.Event Conn) :
    0 < (ServiceServer.step s e).serviceMs := by
  cases e with
  | submit q =>
      rw [ServiceServer.step, serviceMs_submit]
      exact h
  | serveBegin startMs =>
      rw [ServiceServer.step, serveBegin]
      split
      · exact h
      · dsimp only
        split <;> exact h
  | serveEnd k roll endMs =>
      rw [ServiceServer.step]
      rcases serveEnd_cases k roll endMs s with heq | ⟨q, startMs, c, sent, -, heq | heq⟩
      · rwa [heq]
      · rw [heq, serviceMs_admitQueued]
        exact h
      · rw [heq]
        exact h
  | connectionMade conn => exact h
  | connectionLost conn => exact h
  | command cmd => exact serviceMs_onCommand cmd h

/-! ### Runs -/

theorem run_tasks (slot : ℤ) (args : BackendConfig) (es : List (Event Conn)) :
    Tasks (run (launch Conn slot args) es).server :=
  EventRun.run_invariant (P := fun p : Process Conn => Tasks p.server)
    (fun _ e h => step_invariant (fun _ e h => h.step e) h e) (init_tasks slot args) es

theorem run_stuck (slot : ℤ) (args : BackendConfig) (es : List (Event Conn)) :
    (run (launch Conn slot args) es).server.past.stuck = [] ↔
      ∀ es₁ e es₂, es = es₁ ++ e :: es₂ → ¬Raises (run (launch Conn slot args) es₁) e :=
  (EventRun.run_iff_unbroken (P := fun p : Process Conn => p.server.past.stuck = []) stuck_step
    (launch Conn slot args) es).trans (and_iff_right rfl)

omit [DecidableEq Conn] in
/-- With ASCII on the wire no reply raises, and with a mean service time above zero no draw. -/
theorem not_raises {p : Process Conn} (hwire : AsciiWire p) (hms : 0 < p.server.serviceMs)
    (e : Event Conn) : ¬Raises p e := by
  cases e with
  | serveBegin startMs =>
      rintro ⟨-, hundrawable⟩
      rw [drawable_of_pos hms] at hundrawable
      cases hundrawable
  | serveEnd k roll endMs =>
      rintro ⟨q, startMs, hk, -, hid⟩
      exact hid (hwire.ids.serving _ (List.mem_of_getElem? hk))
  | _ => exact not_false

theorem run_ascii {slot : ℤ} {args : BackendConfig} (hms : 0 < args.serviceMs)
    {es : List (Event Conn)} (hes : ∀ e ∈ es, ∀ b ∈ e.bytes, b < 128) :
    (run (launch Conn slot args) es).server.past.stuck = [] ∧
      AsciiWire (run (launch Conn slot args) es) ∧
      0 < (run (launch Conn slot args) es).server.serviceMs := by
  induction es using List.reverseRecOn with
  | nil =>
      exact ⟨rfl, ⟨fun _ => List.forall_mem_nil _, List.forall_mem_nil _, List.forall_mem_nil _,
        List.forall_mem_nil _⟩, hms⟩
  | append_singleton es e ih =>
      obtain ⟨hstuck, hwire, hpos⟩ := ih fun e he => hes e (List.mem_append_left _ he)
      have he := hes e (List.mem_append_right _ (List.mem_singleton_self e))
      rw [run, EventRun.run_append]
      exact ⟨(stuck_step _ e).mpr ⟨hstuck, not_raises hwire hpos e⟩, hwire.step he,
        step_invariant (P := fun s => 0 < s.serviceMs) (fun _ e h => serviceMs_step h e) hpos e⟩

/-- What the end of a task does: its place is given back once, and the front of the queue
started as far as there is room. -/
structure Released (s s' : Server Conn) (moved : List (Request Conn)) : Prop where
  queue : s.queue = moved ++ s'.queue
  started : s'.past.started = s.past.started ++ moved
  busy : s'.busy = s.busy - 1 + moved.length
  full : s'.queue ≠ [] → s'.capacity ≤ s'.busy
  room : moved ≠ [] → s'.busy ≤ s'.capacity

omit [DecidableEq Conn] in
theorem released_admitQueued (s : Server Conn) (serving : List (Request Conn × ℚ)) (c : Counters)
    (sent : List (Sent Conn)) :
    ∃ moved, Released s (admitQueued
      { s with serving := serving, c := c, sent := sent, busy := s.busy - 1 }) moved := by
  obtain ⟨moved, rest, hqueue, hpull, hroom, hfull⟩ := Station.pullFrom_spec s.queue
    { station s with busy := s.busy - 1 }
  have hstation := (station_admitQueued
    { s with serving := serving, c := c, sent := sent, busy := s.busy - 1 }).trans hpull
  have hcapacity := congrArg Station.capacity hstation
  have hbusy := congrArg Station.busy hstation
  have hrest := congrArg Station.queue hstation
  have hstarted := congrArg Station.started hstation
  simp only [station] at hcapacity hbusy hrest hstarted hroom hfull
  refine ⟨moved, ?_, hstarted, hbusy, fun hne => ?_, fun hne => ?_⟩
  · rw [hrest]
    exact hqueue
  · rw [hcapacity, hbusy]
    exact hfull (hrest ▸ hne)
  · rw [hcapacity, hbusy]
    exact hroom hne

/-- After every run, from any start:
`busy` is the number of requests in service exactly if no task of the run has raised, by a
reply that is not ASCII to a client that is there or a service time that cannot be drawn;
a task that ends without raising gives its place back once, and the queue moves up as far as
there is room, while one that raises on its reply changes neither;
so with nothing but ASCII on the wire and a mean service time above zero no place is lost. -/
theorem no_slot_leaked_iff (slot : ℤ) (args : BackendConfig) (es : List (Event Conn)) :
    let p₀ := launch Conn slot args
    let p := run p₀ es
    (p.server.busy = inService p.server ↔
      ∀ es₁ e es₂, es = es₁ ++ e :: es₂ → ¬Raises (run p₀ es₁) e) ∧
    (∀ k roll endMs task, p.server.serving[k]? = some task →
      let s := (step p (.serveEnd k roll endMs)).server
      (¬Raises p (.serveEnd k roll endMs) ∧ ∃ moved, Released p.server s moved) ∨
        (Raises p (.serveEnd k roll endMs) ∧ s.busy = p.server.busy ∧ s.queue = p.server.queue)) ∧
    (0 < args.serviceMs → (∀ e ∈ es, ∀ b ∈ e.bytes, b < 128) →
      p.server.busy = inService p.server) := by
  intro p₀ p
  have hbusy : p.server.busy =
      p.server.spawned.length + p.server.serving.length + p.server.past.stuck.length :=
    (run_tasks slot args es).busy_eq
  have hiff : p.server.busy = inService p.server ↔ p.server.past.stuck = [] := by
    rw [← List.length_eq_zero_iff, inService]
    push_cast
    omega
  refine ⟨hiff.trans (run_stuck slot args es), fun k roll endMs task hk => ?_, fun hms hes => ?_⟩
  · obtain ⟨q, startMs⟩ := task
    by_cases hraises : Raises p (.serveEnd k roll endMs)
    · obtain ⟨q', startMs', hk', halive, hid⟩ := id hraises
      obtain ⟨c, sent, heq⟩ := serveEnd_of_raised hk' halive hid roll endMs
      refine .inr ⟨hraises, ?_⟩
      rw [step]
      dsimp only
      rw [heq]
      exact ⟨rfl, rfl⟩
    · have hreturns : p.server.alive q.conn = true → Ascii q.reqId := by
        intro halive
        by_contra hid
        exact hraises ⟨q, startMs, hk, halive, hid⟩
      obtain ⟨c, sent, heq⟩ := serveEnd_of_returned hk hreturns roll endMs
      refine .inl ⟨hraises, ?_⟩
      rw [step]
      dsimp only
      rw [heq]
      exact released_admitQueued p.server _ c sent
  · exact hiff.mpr (run_ascii hms hes).1

/-- A backend with one place and a queue. -/
def oneSlot : BackendConfig := ⟨1, 25, 0, 4, 0⟩

/-- Two requests, of which the second waits and is started when the first ends. -/
def twoRequests : List (Event ℕ) :=
  [.connectionMade 0, .dataReceived 0 (asciiBytes "REQ 1 keep\nREQ 2 keep\n") (fun _ => 0),
    .serveBegin 0, .serveEnd 0 1 25]

theorem no_slot_leaked_two_requests :
    let p := run (launch ℕ 1 oneSlot) twoRequests
    p.server.busy = inService p.server ∧ p.server.busy = 1 ∧ p.server.queue = [] := by
  refine
    ⟨(no_slot_leaked_iff 1 oneSlot twoRequests).2.2 (by decide +kernel) (by decide +kernel), ?_⟩
  decide +kernel

/-- A request with a byte above 127 in its id, and another one. -/
def lostSlot : List (Event ℕ) :=
  [.connectionMade 0,
    .dataReceived 0 (asciiBytes "REQ " ++ 255 :: asciiBytes " keep\n") (fun _ => 0),
    .serveBegin 0, .serveEnd 0 1 25, .dataReceived 0 (asciiBytes "REQ 2 keep\n") (fun _ => 0)]

/-- The place of the first is never given back, and the second waits with nothing in service. -/
theorem non_ascii_id_leaks :
    let p := run (launch ℕ 1 oneSlot) lostSlot
    p.server.busy = 1 ∧ inService p.server = 0 ∧ p.server.queue.length = 1 := by
  decide +kernel

end MaglevLb.RequestSlots
