import MaglevLb.ClientConn
import MaglevLb.RequestLedger

/-!
# Requests and replies on one connection

A connection of the load generator and the backend at its other end, which serves other
connections as well. Either side writes lines, and the network brings what was written in
pieces of any size, at any time or never. Requests are given up, connections close and are
lost on either side. Whatever happens, a future of the client is resolved with the one reply
that the backend sent to its request; and if nothing is left in the network, a future that
waits is one whose request is in the backend's queue or in service.
-/
namespace MaglevLb.RequestReply

open Children LineText LineReader WireProtocol ServiceServer RequestSlots WireText RequestLedger
open ClientConn (Ask Book)

variable {Conn : Type*} [DecidableEq Conn]

/-! ### The two ends and the network -/

/-- The backend's process and the connection of the client. `nextId` is the client's, over all
of its connections. `taken` is what the backend has read of the bytes that the client wrote,
and `got` what the client has read of the replies. -/
structure Session (Conn : Type*) where
  process : Process Conn
  accepted : Bool
  client : ClientConn.Conn
  nextId : ℕ
  taken : List UInt8
  got : List UInt8

def start (Conn : Type*) (slot : ℤ) (args : BackendConfig) (nowMs : ℚ) : Session Conn where
  process := RequestSlots.launch Conn slot args
  accepted := false
  client := .made nowMs
  nextId := 0
  taken := []
  got := []

def sentOn (conn : Conn) (s : Server Conn) : List (Sent Conn) := s.sent.filter (·.conn = conn)

/-- The bytes of the replies on a connection. -/
def wire (conn : Conn) (s : Server Conn) : List UInt8 :=
  join newline ((sentOn conn s).map fun m => replyLine m.reply)

inductive Event (Conn : Type*) where
  | server (e : RequestSlots.Event Conn)
  | accept
  | deliver (data : List UInt8) (clock : ℕ → ℚ)
  | send (skip : ℕ) (close : Bool)
  | timeOut (k : ℕ)
  | cancel (k : ℕ)
  | receive (data : List UInt8)
  | close
  | lost

/-- A connection is made once, and its bytes come from the client. -/
def touches (conn : Conn) : RequestSlots.Event Conn → Bool
  | .connectionMade conn' => conn' = conn
  | .dataReceived conn' _ _ => conn' = conn
  | _ => false

/-- `conn` is the backend's end. Between two requests on this connection the client may number
`skip` others. -/
def step (conn : Conn) (x : Session Conn) : Event Conn → Session Conn
  | .server e =>
      if touches conn e then x else { x with process := RequestSlots.step x.process e }
  | .accept =>
      if x.accepted then x
      else
        { x with
          process := RequestSlots.step x.process (.connectionMade conn), accepted := true }
  | .deliver data clock =>
      if x.taken ++ data <+: x.client.written ∧ (x.process.links conn).isOpen = true then
        { x with
          process := RequestSlots.step x.process (.dataReceived conn data clock)
          taken := x.taken ++ data }
      else x
  | .send skip close =>
      let n := x.nextId + skip + 1
      { x with nextId := n, client := x.client.send (String.ofList (natText n)) close }
  | .timeOut k => { x with client := { x.client with book := x.client.book.timeOut k } }
  | .cancel k =>
      { x with
        client := ClientConn.Conn.closeTransport
          { x.client with book := x.client.book.cancel k } }
  | .receive data =>
      if x.got ++ data <+: wire conn x.process.server ∧ x.client.isOpen = true then
        { x with client := x.client.dataReceived data, got := x.got ++ data }
      else x
  | .close => { x with client := x.client.closeTransport }
  | .lost => { x with client := x.client.connectionLost }

def run (conn : Conn) (x : Session Conn) (es : List (Event Conn)) : Session Conn :=
  EventRun.run (step conn) x es

/-! ### Requests at the backend -/

/-- The requests of a stream, as the backend reads them. -/
def heard (stream : List UInt8) : List (String × Bool) :=
  (lines newline stream).filterMap parseRequest

/-- A request the client can make. -/
structure Askable (request : String × Bool) : Prop where
  word : Word request.1.toList
  short : request.1.toList.length ≤ 32

/-- The stream of these requests. -/
def requestStream (requests : List (String × Bool)) : List UInt8 :=
  join newline (requests.map fun request => requestLine request.1 request.2)

section Heard

variable {requests : List (String × Bool)} {part : List UInt8}

theorem Askable.ascii {request : String × Bool} (h : Askable request) : Ascii request.1 :=
  h.word.ascii

theorem parse_requestLines {asked : List (String × Bool)} (h : ∀ request ∈ asked, Askable request) :
    (asked.map fun request => requestLine request.1 request.2).filterMap parseRequest = asked := by
  rw [List.filterMap_map]
  refine (List.filterMap_congr fun request hrequest => ?_).trans List.filterMap_some
  exact parseRequest_requestLine (h request hrequest).word _ (h request hrequest).short

theorem lines_requestStream (h : ∀ request ∈ requests, Askable request) :
    lines newline (requestStream requests) =
      requests.map fun request => requestLine request.1 request.2 := by
  refine lines_join fun line hline => ?_
  obtain ⟨request, hrequest, rfl⟩ := List.mem_map.mp hline
  exact newline_notMem_requestLine (h request hrequest).word _

/-- The backend reads the requests that were written, in order, as far as they have come. -/
theorem lines_part (h : ∀ request ∈ requests, Askable request)
    (hpart : part <+: requestStream requests) :
    ∃ asked, asked <+: requests ∧
      lines newline part = asked.map (fun request => requestLine request.1 request.2) ∧
      heard part = asked := by
  have hlines : lines newline part <+: lines newline (requestStream requests) :=
    lines_of_part hpart
  rw [lines_requestStream h, List.prefix_map_iff] at hlines
  obtain ⟨asked, hasked, heq⟩ := hlines
  refine ⟨asked, hasked, heq, ?_⟩
  rw [heard, heq, parse_requestLines fun request hrequest => h request (hasked.subset hrequest)]

end Heard

section Backend

variable {conn : Conn} {p : Process Conn}

/-- The lines of these requests, one after the other. -/
theorem submit_lines {asked : List (String × Bool)} (h : ∀ request ∈ asked, Askable request)
    (clock : ℕ → ℚ) {s : Server Conn} (halive : s.alive conn = true) :
    let s' := (asked.map fun request => requestLine request.1 request.2).foldl
      (fun s line => (onLine (submitFrom conn clock) line s).1) s
    s'.alive = s.alive ∧ s.sent <+: s'.sent ∧
      ∀ key, ledger conn key s' = ledger conn key s + asked.count key := by
  induction asked generalizing s with
  | nil => exact ⟨rfl, List.prefix_rfl, fun _ => rfl⟩
  | cons request asked ih =>
      obtain ⟨⟨hword, hshort⟩, hrest⟩ := List.forall_mem_cons.mp h
      let q : Request Conn := ⟨conn, request.1, request.2, clock s.c.arrivals⟩
      have hfirst : (onLine (submitFrom conn clock) (requestLine request.1 request.2) s).1 =
          submit q s := by
        rw [onLine, parseRequest_requestLine hword _ hshort]
        rfl
      have hthere : (submit q s).alive conn = true := by rwa [alive_submit]
      obtain ⟨hsame, hsent, hledger⟩ := ih hrest hthere
      rw [List.map_cons, List.foldl_cons, hfirst]
      refine ⟨hsame.trans (alive_submit q s), (sent_step s (.submit q)).trans hsent, fun key => ?_⟩
      have hq : asks conn key q = (request == key) := by simp [asks, q, beq_eq_decide]
      have hsubmit : ledger conn key (submit q s) =
          ledger conn key s + if asks conn key q then 1 else 0 :=
        ledger_submit conn key halive hword.ascii
      rw [hledger key, hsubmit, hq, List.count_cons]
      omega

omit [DecidableEq Conn] in
/-- No line of an askable request ends the loop. -/
theorem onLine_goesOn {request : String × Bool} (h : Askable request) (clock : ℕ → ℚ)
    (s : Server Conn) :
    (onLine (submitFrom conn clock) (requestLine request.1 request.2) s).2 = true := by
  rw [onLine, parseRequest_requestLine h.word _ h.short]
  dsimp only [submitFrom]
  unfold submitReturns
  split
  · rfl
  · split
    · rfl
    · exact (reply_returned _ _ _ _).mpr fun _ => h.ascii

/-- A piece of the client's requests: those it completes are entered in the ledger. -/
theorem deliver_requests {requests : List (String × Bool)}
    (h : ∀ request ∈ requests, Askable request) {taken data : List UInt8}
    (hpart : taken ++ data <+: requestStream requests)
    (hbuf : (p.links conn).buf = rest newline taken) (hopen : (p.links conn).isOpen = true)
    (halive : p.server.alive conn = true) (clock : ℕ → ℚ) :
    let p' := RequestSlots.step p (.dataReceived conn data clock)
    p'.server.alive = p.server.alive ∧ p.server.sent <+: p'.server.sent ∧
      (p'.links conn).buf = rest newline (taken ++ data) ∧
      ∀ key, ledger conn key p'.server + (heard taken).count key =
        ledger conn key p.server + (heard (taken ++ data)).count key := by
  obtain ⟨asked, hasked, hlines, -⟩ := lines_part h hpart
  -- the lines that were complete before, and those that are complete now
  have hsplit := hlines
  rw [lines_append, eq_comm, List.map_eq_append_iff] at hsplit
  obtain ⟨before, now, rfl, -, hnow⟩ := hsplit
  have hall : ∀ request ∈ now, Askable request := fun request hrequest =>
    h request (hasked.subset (List.mem_append_right _ hrequest))
  have hgo : ∀ line ∈ lines newline ((p.links conn).buf ++ data), ∀ s,
      (onLine (submitFrom conn clock) line s).2 = true := by
    intro line hline s
    rw [hbuf, ← hnow] at hline
    obtain ⟨request, hrequest, rfl⟩ := List.mem_map.mp hline
    exact onLine_goesOn (hall request hrequest) clock s
  obtain ⟨hsame, hsent, hledger⟩ := submit_lines hall clock halive
  rw [RequestSlots.step, RequestSlots.receive]
  dsimp only
  rw [dataReceived, feed_of_goesOn hopen hgo]
  dsimp only
  rw [hbuf, ← hnow]
  refine ⟨hsame, hsent, ?_, fun key => ?_⟩
  · rw [buf_closeReplied, Function.update_self]
    exact (rest_append taken data).symm
  · rw [hledger key, heard, heard, lines_append, ← hnow, List.filterMap_append,
      parse_requestLines hall, List.count_append]
    omega

end Backend

/-! ### What happens beside the connection -/

/-- What an event does to a connection that it brings no bytes of. -/
structure Beside (conn : Conn) (p p' : Process Conn) : Prop where
  sent : p.server.sent <+: p'.server.sent
  buf : (p'.links conn).buf = (p.links conn).buf
  isOpen : (p'.links conn).isOpen = true → (p.links conn).isOpen = true ∧
    p'.server.alive conn = p.server.alive conn
  alive : p'.server.alive conn = true → p.server.alive conn = true
  ledger_le : ∀ key, ledger conn key p'.server ≤ ledger conn key p.server
  ledger_eq : p.server.alive conn = true →
    ∀ key, ledger conn key p'.server = ledger conn key p.server

theorem isOpen_closeReplied {before after : Server Conn} {links : Conn → Link} {conn : Conn}
    (h : (closeReplied before after links conn).isOpen = true) : (links conn).isOpen = true := by
  unfold closeReplied at h
  split at h
  · cases h
  · exact h

/-- One event of the server, for which the connection does not change. -/
theorem Beside.of_step {conn : Conn} {p p' : Process Conn} {e : ServiceServer.Event Conn}
    (he : Apart conn e) (hserver : p'.server = ServiceServer.step p.server e)
    (halive : p'.server.alive conn = p.server.alive conn)
    (hbuf : (p'.links conn).buf = (p.links conn).buf)
    (hopen : (p'.links conn).isOpen = true → (p.links conn).isOpen = true) : Beside conn p p' where
  sent := hserver ▸ sent_step p.server e
  buf := hbuf
  isOpen h := ⟨hopen h, halive⟩
  alive h := halive ▸ h
  ledger_le key := hserver ▸ (ledger_step conn key p.server he).1
  ledger_eq h key := hserver ▸ (ledger_step conn key p.server he).2 h

theorem beside_receive {conn conn' : Conn} (hne : conn' ≠ conn) (data : List UInt8) (clock : ℕ → ℚ)
    (p : Process Conn) : Beside conn p (RequestSlots.receive conn' data clock p) := by
  let P : Server Conn → Prop := fun s => s.alive = p.server.alive ∧ p.server.sent <+: s.sent ∧
    ∀ key, ledger conn key s = ledger conn key p.server
  have hserver : P (RequestSlots.receive conn' data clock p).server := by
    refine (receive_invariant (Q := fun _ => True) clock (fun _ reqId close _ _ s enqMs hs => ?_)
      (fun _ _ => trivial) (fun _ _ => trivial) ⟨rfl, List.prefix_rfl, fun _ => rfl⟩).1
    exact ⟨(alive_submit _ s).trans hs.1, hs.2.1.trans (sent_step s (.submit _)),
      fun key => (ledger_submit_of_ne hne s).trans (hs.2.2 key)⟩
  obtain ⟨halive, hsent, hledger⟩ := hserver
  refine ⟨hsent, ?_, fun h => ⟨?_, congrFun halive conn⟩, fun h => congrFun halive conn ▸ h,
    fun key => (hledger key).le, fun _ => hledger⟩
  · rw [RequestSlots.receive]
    dsimp only
    rw [buf_closeReplied, Function.update_of_ne hne.symm]
  · have hopen := isOpen_closeReplied h
    rwa [Function.update_of_ne hne.symm] at hopen

theorem isOpen_shut {conn conn' : Conn} {links : Conn → Link}
    (h : (shut conn' links conn).isOpen = true) : conn ≠ conn' ∧ (links conn).isOpen = true := by
  unfold shut at h
  by_cases hne : conn = conn'
  · rw [hne, Function.update_self] at h
    cases h
  · rw [Function.update_of_ne hne] at h
    exact ⟨hne, h⟩

theorem beside_step {conn : Conn} {e : RequestSlots.Event Conn} (he : touches conn e = false)
    (p : Process Conn) : Beside conn p (RequestSlots.step p e) := by
  cases e with
  | connectionMade conn' =>
      have hne : conn ≠ conn' := fun h => by simp [touches, h] at he
      refine .of_step (e := .connectionMade conn') trivial rfl (Function.update_of_ne hne _ _) ?_ ?_
      · rw [RequestSlots.step]
        exact congrArg Link.buf (Function.update_of_ne hne _ _)
      · intro h
        rw [RequestSlots.step] at h
        dsimp only at h
        rwa [Function.update_of_ne hne] at h
  | dataReceived conn' data clock =>
      exact beside_receive (fun h => by simp [touches, h] at he) data clock p
  | idle conn' =>
      rw [RequestSlots.step]
      split
      · exact ⟨List.prefix_rfl, buf_shut _ _ _, fun h => ⟨(isOpen_shut h).2, rfl⟩, id,
          fun _ => le_rfl, fun _ _ => rfl⟩
      · exact ⟨List.prefix_rfl, rfl, fun h => ⟨h, rfl⟩, id, fun _ => le_rfl, fun _ _ => rfl⟩
  | connectionLost conn' =>
      refine ⟨List.prefix_rfl, buf_shut _ _ _, fun h => ?_, fun h => ?_, fun _ => le_rfl,
        fun _ _ => rfl⟩
      · obtain ⟨hne, hopen⟩ := isOpen_shut h
        exact ⟨hopen, Function.update_of_ne hne _ _⟩
      · by_cases hne : conn = conn'
        · simp [RequestSlots.step, ServiceServer.step, hne] at h
        · simpa [RequestSlots.step, ServiceServer.step, hne] using h
  | serveBegin startMs =>
      exact .of_step (e := .serveBegin startMs) trivial rfl
        (congrFun (alive_serveBegin startMs p.server) conn) rfl id
  | serveEnd k roll endMs =>
      refine .of_step (e := .serveEnd k roll endMs) trivial rfl
        (congrFun (alive_serveEnd k roll endMs p.server) conn) ?_ fun h => ?_
      · exact buf_closeReplied _ _ _ _
      · exact isOpen_closeReplied h
  | command cmd =>
      exact .of_step (e := .command cmd) trivial rfl
        (congrFun (alive_onCommand cmd p.server) conn) rfl id

/-! ### Replies at the client -/

/-- What the client has been told after `got`, and what it made of that. -/
structure Heard (conn : Conn) (x : Session Conn) (rs : List Reply) : Prop where
  replies : rs <+: (sentOn conn x.process.server).map Sent.reply
  lines : lines newline x.got = rs.map replyLine
  sound : x.client.book.Sound rs
  live : x.client.isOpen = true → x.client.book.Live rs

/-- The requests of the connection, in order. -/
def Session.requests (x : Session Conn) : List (String × Bool) := x.client.book.asks.map Ask.request

/-- What holds between the two ends at any time. -/
structure Agree (conn : Conn) (x : Session Conn) : Prop where
  ids : ∀ request ∈ x.requests, ∃ n ≤ x.nextId, request.1 = String.ofList (natText n)
  distinct : (x.requests.map Prod.fst).Nodup
  written : x.client.written = requestStream x.requests
  taken : x.taken <+: x.client.written
  isOpen : (x.process.links conn).isOpen = true → x.process.server.alive conn = true
  unmade : x.accepted = false → x.taken = [] ∧ (x.process.links conn).isOpen = false
  buf : x.accepted = true → (x.process.links conn).buf = rest newline x.taken
  ledger_le : ∀ key, ledger conn key x.process.server ≤ (heard x.taken).count key
  ledger_eq : x.process.server.alive conn = true →
    ∀ key, ledger conn key x.process.server = (heard x.taken).count key
  got : x.got <+: wire conn x.process.server
  clientBuf : x.client.buf = rest newline x.got
  told : ∃ rs, Heard conn x rs

section Agree

variable {conn : Conn} {x : Session Conn}

theorem natText_inj {m n : ℕ} (h : natText m = natText n) : m = n := by
  have hread := natLiteral_natText m
  rw [h, natLiteral_natText] at hread
  exact (Option.some.inj hread).symm

theorem sentOn_grows {s s' : Server Conn} (h : s.sent <+: s'.sent) :
    sentOn conn s <+: sentOn conn s' :=
  h.filter _

theorem wire_grows {s s' : Server Conn} (h : s.sent <+: s'.sent) : wire conn s <+: wire conn s' :=
  ((sentOn_grows h).map _).flatMap _

theorem Agree.askable (h : Agree conn x) (hids : x.nextId < 10 ^ 32) :
    ∀ request ∈ x.requests, Askable request := by
  intro request hrequest
  obtain ⟨n, hn, hid⟩ := h.ids request hrequest
  constructor
  · rw [hid, String.toList_ofList]
    exact word_natText n
  · rw [hid, String.toList_ofList]
    exact length_natText_le (by decide) (lt_of_le_of_lt hn hids)

theorem Agree.heard_part (h : Agree conn x) (hids : x.nextId < 10 ^ 32) :
    heard x.taken <+: x.requests := by
  obtain ⟨asked, hasked, -, heq⟩ := lines_part (h.askable hids) (h.written ▸ h.taken)
  exact heq ▸ hasked

/-- The backend answers nothing that it was not asked. -/
theorem Agree.asked (h : Agree conn x) (hids : x.nextId < 10 ^ 32) {m : Sent Conn}
    (hm : m ∈ sentOn conn x.process.server) : (m.reply.reqId, m.close) ∈ x.requests := by
  obtain ⟨hsent, hconn⟩ := List.mem_filter.mp hm
  have hcount : 0 < x.process.server.sent.countP (answers conn (m.reply.reqId, m.close)) := by
    refine List.countP_pos_iff.mpr ⟨m, hsent, ?_⟩
    simpa [answers] using hconn
  have hheard : 0 < (heard x.taken).count (m.reply.reqId, m.close) := by
    have hle := h.ledger_le (m.reply.reqId, m.close)
    rw [ledger] at hle
    omega
  exact (h.heard_part hids).subset (List.count_pos_iff.mp hheard)

theorem Agree.words (h : Agree conn x) (hids : x.nextId < 10 ^ 32) :
    ∀ r ∈ (sentOn conn x.process.server).map Sent.reply, Word r.reqId.toList := by
  intro r hr
  obtain ⟨m, hm, rfl⟩ := List.mem_map.mp hr
  exact (h.askable hids _ (h.asked hids hm)).word

theorem Agree.lines_wire (h : Agree conn x) (hids : x.nextId < 10 ^ 32) :
    lines newline (wire conn x.process.server) =
      ((sentOn conn x.process.server).map Sent.reply).map replyLine := by
  rw [wire, List.map_map]
  refine lines_join fun line hline => ?_
  obtain ⟨m, hm, rfl⟩ := List.mem_map.mp hline
  exact newline_notMem_replyLine (h.words hids _ (List.mem_map_of_mem hm))

/-- An event of the backend that brings no bytes of the connection. -/
theorem Agree.beside (h : Agree conn x) {p' : Process Conn} (hp : Beside conn x.process p') :
    Agree conn { x with process := p' } where
  ids := h.ids
  distinct := h.distinct
  written := h.written
  taken := h.taken
  isOpen hopen := by
    obtain ⟨hwas, halive⟩ := hp.isOpen hopen
    exact halive.trans (h.isOpen hwas)
  unmade hnot := by
    obtain ⟨htaken, hclosed⟩ := h.unmade hnot
    refine ⟨htaken, Bool.eq_false_iff.mpr fun hopen => ?_⟩
    exact absurd (hp.isOpen hopen).1 (Bool.eq_false_iff.mp hclosed)
  buf haccepted := hp.buf.trans (h.buf haccepted)
  ledger_le key := (hp.ledger_le key).trans (h.ledger_le key)
  ledger_eq halive key := by
    have hwas := hp.alive halive
    exact (hp.ledger_eq hwas key).trans (h.ledger_eq hwas key)
  got := h.got.trans (wire_grows hp.sent)
  clientBuf := h.clientBuf
  told := by
    obtain ⟨rs, hrs⟩ := h.told
    exact ⟨rs, hrs.replies.trans ((sentOn_grows hp.sent).map _), hrs.lines, hrs.sound, hrs.live⟩

theorem Agree.accept (h : Agree conn x) (hnot : x.accepted = false) :
    Agree conn { x with
      process := RequestSlots.step x.process (.connectionMade conn), accepted := true } := by
  obtain ⟨htaken, -⟩ := h.unmade hnot
  have hnone : ∀ key, (heard x.taken).count key = 0 := by
    intro key
    rw [htaken]
    rfl
  obtain ⟨rs, hrs⟩ := h.told
  exact {
    ids := h.ids
    distinct := h.distinct
    written := h.written
    taken := h.taken
    isOpen := fun _ => Function.update_self _ _ _
    unmade := fun hfalse => nomatch hfalse
    buf := fun _ => by
      rw [htaken, RequestSlots.step]
      dsimp only
      rw [Function.update_self]
      rfl
    ledger_le := h.ledger_le
    ledger_eq := fun _ key => by
      have hle := h.ledger_le key
      rw [hnone key] at hle ⊢
      exact Nat.le_zero.mp hle
    got := h.got
    clientBuf := h.clientBuf
    told := ⟨rs, hrs.replies, hrs.lines, hrs.sound, hrs.live⟩ }

theorem Agree.deliver (h : Agree conn x) (hids : x.nextId < 10 ^ 32) {data : List UInt8}
    (hpart : x.taken ++ data <+: x.client.written)
    (hopen : (x.process.links conn).isOpen = true) (clock : ℕ → ℚ) :
    Agree conn { x with
      process := RequestSlots.step x.process (.dataReceived conn data clock)
      taken := x.taken ++ data } := by
  have halive := h.isOpen hopen
  have haccepted : x.accepted = true := by
    rcases Bool.eq_false_or_eq_true x.accepted with htrue | hfalse
    · exact htrue
    · rw [(h.unmade hfalse).2] at hopen
      cases hopen
  obtain ⟨hsame, hsent, hbuf, hledger⟩ := deliver_requests (h.askable hids) (h.written ▸ hpart)
    (h.buf haccepted) hopen halive clock
  have hexact : ∀ key, ledger conn key
      (RequestSlots.step x.process (.dataReceived conn data clock)).server =
        (heard (x.taken ++ data)).count key := by
    intro key
    have hstep := hledger key
    rw [h.ledger_eq halive key] at hstep
    omega
  obtain ⟨rs, hrs⟩ := h.told
  exact {
    ids := h.ids
    distinct := h.distinct
    written := h.written
    taken := hpart
    isOpen := fun _ => (congrFun hsame conn).trans halive
    unmade := fun hfalse => absurd (haccepted.symm.trans hfalse) (by decide)
    buf := fun _ => hbuf
    ledger_le := fun key => (hexact key).le
    ledger_eq := fun _ => hexact
    got := h.got.trans (wire_grows hsent)
    clientBuf := h.clientBuf
    told := ⟨rs, hrs.replies.trans ((sentOn_grows hsent).map _), hrs.lines, hrs.sound, hrs.live⟩ }

/-! ### The client's moves -/

/-- A move of the client that writes nothing and reads nothing. -/
theorem Agree.of_client (h : Agree conn x) {c : ClientConn.Conn}
    (hrequests : c.book.asks.map Ask.request = x.requests) (hwritten : c.written = x.client.written)
    (hbuf : c.buf = x.client.buf)
    (hbook : ∀ rs, x.client.book.Sound rs → (x.client.isOpen = true → x.client.book.Live rs) →
      c.book.Sound rs ∧ (c.isOpen = true → c.book.Live rs)) :
    Agree conn { x with client := c } := by
  obtain ⟨rs, hrs⟩ := h.told
  obtain ⟨hsound, hlive⟩ := hbook rs hrs.sound hrs.live
  have hsame : ({ x with client := c } : Session Conn).requests = x.requests := hrequests
  exact {
    ids := hsame ▸ h.ids
    distinct := hsame ▸ h.distinct
    written := by
      rw [hsame]
      exact hwritten.trans h.written
    taken := hwritten ▸ h.taken
    isOpen := h.isOpen
    unmade := h.unmade
    buf := h.buf
    ledger_le := h.ledger_le
    ledger_eq := h.ledger_eq
    got := h.got
    clientBuf := hbuf.trans h.clientBuf
    told := ⟨rs, hrs.replies, hrs.lines, hsound, hlive⟩ }

theorem Agree.send (h : Agree conn x) (hids : x.nextId < 10 ^ 32) (skip : ℕ) (close : Bool) :
    Agree conn (step conn x (.send skip close)) := by
  let id : String := String.ofList (natText (x.nextId + skip + 1))
  have hfresh : ∀ request ∈ x.requests, request.1 ≠ id := by
    intro request hrequest heq
    obtain ⟨n, hn, hid⟩ := h.ids request hrequest
    have hsame := natText_inj (String.ofList_injective (hid.symm.trans heq))
    omega
  have hrequests : (step conn x (.send skip close)).requests = x.requests ++ [(id, close)] :=
    List.map_append
  obtain ⟨rs, hrs⟩ := h.told
  have hreplies : ∀ r ∈ rs, r.reqId ≠ id := by
    intro r hr
    obtain ⟨m, hm, rfl⟩ := List.mem_map.mp (hrs.replies.subset hr)
    exact hfresh _ (h.asked hids hm)
  have hnew : id ∉ x.client.book.asks.map Ask.reqId := by
    intro hmem
    obtain ⟨a, ha, heq⟩ := List.mem_map.mp hmem
    exact hfresh _ (List.mem_map_of_mem ha) heq
  exact {
    ids := by
      rw [hrequests]
      intro request hrequest
      rcases List.mem_append.mp hrequest with hold | hlast
      · obtain ⟨n, hn, hid⟩ := h.ids request hold
        exact ⟨n, by rw [step]; dsimp only; omega, hid⟩
      · rw [List.mem_singleton.mp hlast]
        exact ⟨x.nextId + skip + 1, le_rfl, rfl⟩
    distinct := by
      rw [hrequests, List.map_append, List.nodup_append]
      refine ⟨h.distinct, List.nodup_singleton _, fun a ha b hb => ?_⟩
      obtain ⟨request, hrequest, rfl⟩ := List.mem_map.mp ha
      rw [List.mem_singleton.mp hb]
      exact hfresh request hrequest
    written := by
      rw [hrequests, requestStream, List.map_append, join_append, ← requestStream, ← h.written,
        List.map_singleton, join, List.flatMap_singleton]
      rfl
    taken := h.taken.trans (List.prefix_append _ _)
    isOpen := h.isOpen
    unmade := h.unmade
    buf := h.buf
    ledger_le := h.ledger_le
    ledger_eq := h.ledger_eq
    got := h.got
    clientBuf := h.clientBuf
    told := ⟨rs, hrs.replies, hrs.lines, hrs.sound.send id close,
      fun hopen => (hrs.live hopen).send hnew hreplies close⟩ }

theorem Agree.receive (h : Agree conn x) (hids : x.nextId < 10 ^ 32) {data : List UInt8}
    (hpart : x.got ++ data <+: wire conn x.process.server) (hopen : x.client.isOpen = true) :
    Agree conn { x with client := x.client.dataReceived data, got := x.got ++ data } := by
  obtain ⟨rs, hrs⟩ := h.told
  -- the replies that are complete now, of which `rs` were complete before
  have hlines : lines newline (x.got ++ data) <+: lines newline (wire conn x.process.server) :=
    lines_of_part hpart
  rw [h.lines_wire hids, List.prefix_map_iff] at hlines
  obtain ⟨all, hall, heq⟩ := hlines
  have hsplit := heq
  rw [lines_append, hrs.lines] at hsplit
  have hlength : rs.length ≤ all.length := by
    have := congrArg List.length hsplit
    simp only [List.length_append, List.length_map] at this
    omega
  obtain ⟨more, rfl⟩ := List.prefix_of_prefix_length_le hrs.replies hall hlength
  rw [List.map_append, List.append_cancel_left_eq] at hsplit
  have hwords : ∀ r ∈ more, Word r.reqId.toList := fun r hr =>
    h.words hids r (hall.subset (List.mem_append_right _ hr))
  have hfeed : x.client.dataReceived data =
      { x.client with
        buf := rest newline (x.client.buf ++ data)
        book := more.foldl (fun b r => b.reply r) x.client.book
        isOpen := decide ((rest newline (x.client.buf ++ data)).length ≤ maxLine) } := by
    rw [ClientConn.Conn.dataReceived, feed_of_goesOn hopen fun _ _ _ => rfl]
    dsimp only
    rw [h.clientBuf, hsplit, Book.foldl_replyLine hwords]
  have hsame : ({ x with client := x.client.dataReceived data, got := x.got ++ data } :
      Session Conn).requests = x.requests := by
    rw [Session.requests, hfeed]
    exact Book.requests_replies more x.client.book
  exact {
    ids := hsame ▸ h.ids
    distinct := hsame ▸ h.distinct
    written := by
      rw [hsame, ← h.written]
      rfl
    taken := h.taken
    isOpen := h.isOpen
    unmade := h.unmade
    buf := h.buf
    ledger_le := h.ledger_le
    ledger_eq := h.ledger_eq
    got := hpart
    clientBuf := by
      rw [hfeed, h.clientBuf]
      exact (rest_append x.got data).symm
    told := by
      refine ⟨rs ++ more, hall, heq, ?_, fun _ => ?_⟩
      · rw [hfeed]
        exact hrs.sound.replies more
      · rw [hfeed]
        exact (hrs.live hopen).replies more }

/-! ### Runs -/

theorem nextId_step (conn : Conn) (x : Session Conn) (e : Event Conn) :
    x.nextId ≤ (step conn x e).nextId := by
  cases e with
  | send skip close =>
      rw [step]
      dsimp only
      omega
  | server e =>
      rw [step]
      split <;> exact le_rfl
  | accept =>
      rw [step]
      split <;> exact le_rfl
  | deliver data clock =>
      rw [step]
      split <;> exact le_rfl
  | receive data =>
      rw [step]
      split <;> exact le_rfl
  | _ => exact le_rfl

theorem agree_step (h : Agree conn x) (hids : x.nextId < 10 ^ 32) (e : Event Conn) :
    Agree conn (step conn x e) := by
  cases e with
  | server e =>
      rw [step]
      split
      · exact h
      · next hbeside => exact h.beside (beside_step (Bool.eq_false_iff.mpr hbeside) x.process)
  | accept =>
      rw [step]
      split
      · exact h
      · next hnot => exact h.accept (Bool.eq_false_iff.mpr hnot)
  | deliver data clock =>
      rw [step]
      split
      · next hguard => exact h.deliver hids hguard.1 hguard.2 clock
      · exact h
  | send skip close => exact h.send hids skip close
  | timeOut k =>
      exact h.of_client (Book.requests_timeOut k _) rfl rfl fun rs hsound hlive =>
        ⟨hsound.timeOut k, fun hopen => (hlive hopen).timeOut k⟩
  | cancel k =>
      exact h.of_client (ClientConn.requests_settle _ k _) rfl rfl fun rs hsound _ =>
        ⟨hsound.cancel k, fun hopen => nomatch hopen⟩
  | receive data =>
      rw [step]
      split
      · next hguard => exact h.receive hids hguard.1 hguard.2
      · exact h
  | close =>
      exact h.of_client rfl rfl rfl fun rs hsound _ => ⟨hsound, fun hopen => nomatch hopen⟩
  | lost =>
      exact h.of_client (Book.requests_crash _) rfl rfl fun rs hsound _ =>
        ⟨hsound.crash, fun hopen => nomatch hopen⟩

theorem agree_start (conn : Conn) (slot : ℤ) (args : BackendConfig) (nowMs : ℚ) :
    Agree conn (start Conn slot args nowMs) where
  ids := List.forall_mem_nil _
  distinct := List.nodup_nil
  written := rfl
  taken := List.prefix_rfl
  isOpen h := nomatch h
  unmade _ := ⟨rfl, rfl⟩
  buf h := nomatch h
  ledger_le _ := Nat.zero_le _
  ledger_eq h := nomatch h
  got := List.prefix_rfl
  clientBuf := rfl
  told := ⟨[], List.prefix_rfl, rfl, Book.sound_empty, fun _ => Book.live_empty⟩

theorem run_agree (slot : ℤ) (args : BackendConfig) (nowMs : ℚ) (es : List (Event Conn))
    (hids : (run conn (start Conn slot args nowMs) es).nextId < 10 ^ 32) :
    Agree conn (run conn (start Conn slot args nowMs) es) := by
  refine EventRun.run_invariant (P := fun x : Session Conn => x.nextId < 10 ^ 32 → Agree conn x)
    (fun x e hx hnext => ?_) (fun _ => agree_start conn slot args nowMs) es hids
  have hbefore := lt_of_le_of_lt (nextId_step conn x e) hnext
  exact agree_step (hx hbefore) hbefore e

/-- Whatever happens to the backend, a task of it raises only for an id that is not ASCII. -/
theorem run_unwritable (conn : Conn) (slot : ℤ) {args : BackendConfig} (hms : 0 < args.serviceMs)
    (nowMs : ℚ) (es : List (Event Conn)) :
    Unwritable (run conn (start Conn slot args nowMs) es).process.server := by
  let P : Server Conn → Prop := fun s => 0 < s.serviceMs ∧ Unwritable s
  have hserver : ∀ {p : Process Conn}, P p.server → ∀ e, P (RequestSlots.step p e).server :=
    fun hp e => step_invariant
      (fun s e hs => ⟨serviceMs_step hs.1 e, unwritable_step hs.1 hs.2 e⟩) hp e
  have hstart : P (start Conn slot args nowMs).process.server := ⟨hms, List.forall_mem_nil _⟩
  refine (EventRun.run_invariant (P := fun x : Session Conn => P x.process.server)
    (fun x e hx => ?_) hstart es).2
  cases e with
  | server e =>
      rw [step]
      split
      · exact hx
      · exact hserver hx e
  | accept =>
      rw [step]
      split
      · exact hx
      · exact hserver hx _
  | deliver data clock =>
      rw [step]
      split
      · exact hserver hx _
      · exact hx
  | receive data =>
      rw [step]
      split <;> exact hx
  | _ => exact hx

theorem count_sentOn (conn : Conn) (key : String × Bool) (s : Server Conn) :
    ((sentOn conn s).map fun m => (m.reply.reqId, m.close)).count key =
      s.sent.countP (answers conn key) := by
  rw [List.count, List.countP_map, sentOn, List.countP_filter]
  refine List.countP_congr fun m _ => ?_
  simp [answers, and_comm]

/-- No request is answered twice. -/
theorem Agree.once (h : Agree conn x) (hids : x.nextId < 10 ^ 32) :
    ((sentOn conn x.process.server).map fun m => m.reply.reqId).Nodup := by
  have hkeys : ((sentOn conn x.process.server).map fun m => (m.reply.reqId, m.close)).Nodup := by
    refine List.nodup_iff_count_le_one.mpr fun key => ?_
    have hledger := h.ledger_le key
    have hheard := (h.heard_part hids).sublist.count_le key
    have hone := List.nodup_iff_count_le_one.mp h.distinct.of_map key
    rw [count_sentOn]
    rw [ledger] at hledger
    omega
  have hasked : ∀ key ∈ (sentOn conn x.process.server).map fun m => (m.reply.reqId, m.close),
      key ∈ x.requests := by
    intro key hkey
    obtain ⟨m, hm, rfl⟩ := List.mem_map.mp hkey
    exact h.asked hids hm
  have hnodup := hkeys.map_on fun a ha b hb hid =>
    List.inj_on_of_nodup_map h.distinct (hasked a ha) (hasked b hb) hid
  rwa [List.map_map] at hnodup

/-- With nothing left in the network, whoever waits has their request in the house. -/
theorem Agree.waiting (h : Agree conn x) (hids : x.nextId < 10 ^ 32)
    (halive : x.process.server.alive conn = true) (hopen : x.client.isOpen = true)
    (htaken : x.taken = x.client.written) (hgot : x.got = wire conn x.process.server) {a : Ask}
    (ha : a ∈ x.client.book.asks) (hwait : a.future = .waiting) :
    ∃ q ∈ unanswered x.process.server, q.conn = conn ∧ (q.reqId, q.close) = a.request := by
  have hmem : a.request ∈ x.requests := List.mem_map_of_mem ha
  -- the request was heard, and is in the ledger
  have hheard : heard x.taken = x.requests := by
    rw [htaken, h.written, heard, lines_requestStream (h.askable hids),
      parse_requestLines (h.askable hids)]
  have hledger : 0 < ledger conn a.request x.process.server := by
    rw [h.ledger_eq halive, hheard]
    exact List.count_pos_iff.mpr hmem
  -- no reply to it has come, so none was sent
  obtain ⟨rs, hrs⟩ := h.told
  obtain ⟨j, hj⟩ := List.getElem?_of_mem ha
  have hnone := (hrs.live hopen hj hwait).2
  have hall : rs = (sentOn conn x.process.server).map Sent.reply := by
    refine hrs.replies.eq_of_length ?_
    have hlines := hrs.lines
    rw [hgot, h.lines_wire hids] at hlines
    simpa using (congrArg List.length hlines).symm
  have hunsent : x.process.server.sent.countP (answers conn a.request) = 0 := by
    rw [← count_sentOn]
    refine List.count_eq_zero_of_not_mem fun hsent => ?_
    obtain ⟨m, hm, heq⟩ := List.mem_map.mp hsent
    exact hnone m.reply (hall ▸ List.mem_map_of_mem hm) (congrArg Prod.fst heq)
  rw [ledger, hunsent] at hledger
  obtain ⟨q, hq, hasks⟩ := List.countP_pos_iff.mp hledger
  rw [asks, Bool.and_eq_true, decide_eq_true_eq, decide_eq_true_eq] at hasks
  exact ⟨q, hq, hasks⟩

end Agree

/-- After any run in which the client has numbered fewer than 10 ^ 32 requests:
a future that holds a result holds what the backend said in a reply to its request, which was
sent once, with the mode of the request; the backend has sent nothing else on the connection;
and if both ends have read all that the other one wrote, and both are there, then a future
that waits is one whose request is in the backend's queue or in a task. -/
theorem replies_exact (conn : Conn) (slot : ℤ) (args : BackendConfig) (hms : 0 < args.serviceMs)
    (nowMs : ℚ) (es : List (Event Conn))
    (hids : (run conn (start Conn slot args nowMs) es).nextId < 10 ^ 32) :
    let x := run conn (start Conn slot args nowMs) es
    let s := x.process.server
    (∀ a ∈ x.client.book.asks, ∀ v, a.future = .result v →
      ∃ m ∈ sentOn conn s, (m.reply.reqId, m.close) = a.request ∧ answer m.reply = v) ∧
    ((sentOn conn s).map fun m => m.reply.reqId).Nodup ∧
    (∀ m ∈ sentOn conn s, ∃ a ∈ x.client.book.asks, a.request = (m.reply.reqId, m.close)) ∧
    (s.alive conn = true → x.client.isOpen = true → x.taken = x.client.written →
      x.got = wire conn s → ∀ a ∈ x.client.book.asks, a.future = .waiting →
        ∃ q ∈ s.queue ++ (s.spawned ++ s.serving.map Prod.fst),
          q.conn = conn ∧ (q.reqId, q.close) = a.request) := by
  intro x s
  have h : Agree conn x := run_agree slot args nowMs es hids
  refine ⟨fun a ha v hv => ?_, h.once hids, fun m hm => ?_,
    fun halive hopen htaken hgot a ha hwait => ?_⟩
  · obtain ⟨rs, hrs⟩ := h.told
    obtain ⟨j, hj⟩ := List.getElem?_of_mem ha
    obtain ⟨r, hr, hid, hanswer⟩ := hrs.sound.told hj hv
    obtain ⟨m, hm, rfl⟩ := List.mem_map.mp (hrs.replies.subset hr)
    have hsame := List.inj_on_of_nodup_map h.distinct (h.asked hids hm)
      (List.mem_map_of_mem ha : a.request ∈ x.requests) hid
    exact ⟨m, hm, hsame, hanswer⟩
  · exact List.mem_map.mp (h.asked hids hm)
  · obtain ⟨q, hq, hconn, hrequest⟩ := h.waiting hids halive hopen htaken hgot ha hwait
    refine ⟨q, ?_, hconn, hrequest⟩
    have hascii : Ascii q.reqId := by
      have haskable := h.askable hids a.request (List.mem_map_of_mem ha)
      rw [← hrequest] at haskable
      exact haskable.ascii
    simp only [unanswered, List.mem_append] at hq ⊢
    rcases hq with hq | hq | hq | hq
    · exact .inl hq
    · exact .inr (.inl hq)
    · exact .inr (.inr hq)
    · exact absurd hascii (run_unwritable conn slot hms nowMs es q hq)

/-- One request, in two pieces, and its reply in two. -/
def served : List (Event Unit) :=
  [.accept, .send 0 true, .deliver (asciiBytes "REQ 1 clo") (fun _ => 5),
    .deliver (asciiBytes "se\n") (fun _ => 5), .server (.serveBegin 5), .server (.serveEnd 0 0 25),
    .receive (asciiBytes "OK 1 3 0 "), .receive (asciiBytes "20000\n")]

theorem replies_exact_served :
    let x := run () (start Unit 3 ⟨8, 20, 0, 4, 0⟩ 0) served
    x.client.book.asks = [⟨"1", true, .result ⟨.ok, 3, 0, 20000⟩⟩] ∧
      ∃ m ∈ sentOn () x.process.server,
        (m.reply.reqId, m.close) = ("1", true) ∧ answer m.reply = ⟨.ok, 3, 0, 20000⟩ := by
  have hasks : (run () (start Unit 3 ⟨8, 20, 0, 4, 0⟩ 0) served).client.book.asks =
      [⟨"1", true, .result ⟨.ok, 3, 0, 20000⟩⟩] := by
    decide +kernel
  have h := replies_exact () 3 ⟨8, 20, 0, 4, 0⟩ (by decide) 0 served (by decide +kernel)
  refine ⟨hasks, h.1 ⟨"1", true, .result ⟨.ok, 3, 0, 20000⟩⟩ ?_ _ rfl⟩
  rw [hasks]
  exact List.mem_cons_self

end MaglevLb.RequestReply
