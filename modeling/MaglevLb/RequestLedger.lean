import MaglevLb.RequestSlots
import Mathlib.Data.List.Infix

/-!
# Every request is answered at most once

A request that was submitted is in one place: in the queue, in a task, or answered. So for
each connection, id and mode the number of requests in the house and of replies that were
sent changes only when such a request is submitted, as long as the connection is there.
When it has gone, what would have been a reply is dropped, and the number can only fall.
-/
namespace MaglevLb.RequestLedger

open Children LineReader WireProtocol ServiceServer RequestSlots
open Schema (Json)

variable {Conn : Type*} [DecidableEq Conn]

/-! ### What is written, exactly -/

section Sent

omit [DecidableEq Conn]

/-- A client that is there is told what can be written. -/
def told (conn : Conn) (r : Reply) (close : Bool) (s : Server Conn) : List (Sent Conn) :=
  if s.alive conn && r.encodable then [⟨conn, r, close⟩] else []

theorem reply_eq (conn : Conn) (r : Reply) (close : Bool) (s : Server Conn) :
    reply conn r close s =
      ({ s with sent := s.sent ++ told conn r close s }, !s.alive conn || r.encodable) := by
  unfold reply told
  cases s.alive conn with
  | false => simp
  | true => cases r.encodable <;> simp

theorem submit_sent (q : Request Conn) (s : Server Conn) :
    (∃ c, submit q s = start q { s with c := c, past := s.past.accept q }) ∨
    (∃ c, submit q s = { s with c := c, queue := s.queue ++ [q], past := s.past.accept q }) ∨
    ∃ c r, r.reqId = q.reqId ∧
      submit q s = { s with c := c, sent := s.sent ++ told q.conn r q.close s } := by
  unfold submit
  dsimp only
  split
  · exact .inl ⟨_, rfl⟩
  · split
    · exact .inr (.inl ⟨_, rfl⟩)
    · rw [reply_eq]
      exact .inr (.inr ⟨_, .shed q.reqId s.slot, rfl, rfl⟩)

theorem answer_sent (q : Request Conn) (startMs endMs roll : ℚ) (s : Server Conn) :
    ∃ c r, r.reqId = q.reqId ∧ answer q startMs endMs roll s =
      ({ s with c := c, sent := s.sent ++ told q.conn r q.close s },
        !s.alive q.conn || r.encodable) := by
  unfold answer
  dsimp only
  split
  · rw [reply_eq]
    refine ⟨_, _, ?_, rfl⟩
    cases failure s roll <;> rfl
  · next hgone =>
      have hnone : ∀ (c : Counters) (r : Reply),
          (({ s with c := c, sent := s.sent ++ told q.conn r q.close s } : Server Conn),
            !s.alive q.conn || r.encodable) = ({ s with c := c }, true) := by
        intro c r
        simp [told, hgone]
      exact ⟨_, .shed q.reqId s.slot, rfl, (hnone _ _).symm⟩

/-- A task that ends has told its client, if that is there, or raises because it could not. -/
theorem serveEnd_sent (k : ℕ) (roll endMs : ℚ) (s : Server Conn) :
    serveEnd k roll endMs s = s ∨ ∃ q startMs c r, s.serving[k]? = some (q, startMs) ∧
      r.reqId = q.reqId ∧
      (((s.alive q.conn = true → Ascii q.reqId) ∧ serveEnd k roll endMs s = admitQueued
          { s with
            serving := s.serving.eraseIdx k, c := c
            sent := s.sent ++ told q.conn r q.close s, busy := s.busy - 1 }) ∨
        (¬Ascii q.reqId ∧ serveEnd k roll endMs s =
          { s with serving := s.serving.eraseIdx k, c := c, past := s.past.raise q })) := by
  unfold serveEnd
  split
  · exact .inl rfl
  · next q startMs hk =>
      obtain ⟨c, r, hid, hanswer⟩ :=
        answer_sent q startMs endMs roll { s with serving := s.serving.eraseIdx k }
      have hencodable : r.encodable = true ↔ Ascii q.reqId := by rw [encodable_iff, hid]
      refine .inr ⟨q, startMs, c, r, hk, hid, ?_⟩
      rw [hanswer]
      dsimp only
      split
      · next hreturned =>
          refine .inl ⟨fun halive => hencodable.mp ?_, rfl⟩
          simpa [halive] using hreturned
      · next hraised =>
          simp only [Bool.or_eq_true, not_or, Bool.not_eq_true] at hraised
          have hnone : told q.conn r q.close { s with serving := s.serving.eraseIdx k } = [] := by
            simp [told, hraised.2]
          refine .inr ⟨fun hascii => ?_, ?_⟩
          · rw [hencodable.mpr hascii] at hraised
            exact absurd hraised.2 (by decide)
          · rw [hnone, List.append_nil]

end Sent

/-! ### The ledger -/

/-- Requests for which no reply was sent, in every place they can be. -/
def unanswered (s : Server Conn) : List (Request Conn) :=
  s.queue ++ (s.spawned ++ (s.serving.map Prod.fst ++ s.past.stuck))

/-- A request of the connection, with this id and mode. -/
def asks (conn : Conn) (key : String × Bool) (q : Request Conn) : Bool :=
  q.conn = conn && (q.reqId, q.close) = key

/-- A reply to one. -/
def answers (conn : Conn) (key : String × Bool) (m : Sent Conn) : Bool :=
  m.conn = conn && (m.reply.reqId, m.close) = key

def ledger (conn : Conn) (key : String × Bool) (s : Server Conn) : ℕ :=
  (unanswered s).countP (asks conn key) + s.sent.countP (answers conn key)

section Ledger

variable {conn : Conn} {key : String × Bool} {s : Server Conn} {q : Request Conn}

theorem ledger_eq (conn : Conn) (key : String × Bool) (s : Server Conn) :
    ledger conn key s = s.queue.countP (asks conn key) + (s.spawned.countP (asks conn key) +
      ((s.serving.map Prod.fst).countP (asks conn key) + s.past.stuck.countP (asks conn key))) +
      s.sent.countP (answers conn key) := by
  simp only [ledger, unanswered, List.countP_append]

theorem asks_of_ne (h : q.conn ≠ conn) : asks conn key q = false := by simp [asks, h]

theorem countP_told_of_ne {r : Reply} (h : q.conn ≠ conn) :
    (told q.conn r q.close s).countP (answers conn key) = 0 := by
  unfold told
  split
  · simp [answers, h]
  · rfl

/-- A client that is there is told, and the reply is one to the request. -/
theorem countP_told {r : Reply} (hr : r.reqId = q.reqId) (halive : s.alive q.conn = true)
    (hascii : Ascii q.reqId) :
    (told q.conn r q.close s).countP (answers conn key) = if asks conn key q then 1 else 0 := by
  have henc : r.encodable = true := encodable_iff.mpr (hr ▸ hascii)
  rw [told, if_pos (by rw [halive, henc]; rfl)]
  simp [answers, asks, hr, List.countP_cons]

theorem countP_told_le (conn : Conn) (key : String × Bool) (s : Server Conn) {r : Reply}
    (hr : r.reqId = q.reqId) :
    (told q.conn r q.close s).countP (answers conn key) ≤ if asks conn key q then 1 else 0 := by
  unfold told
  split
  · simp [answers, asks, hr, List.countP_cons]
  · exact Nat.zero_le _

theorem ledger_start (conn : Conn) (key : String × Bool) (q : Request Conn) (s : Server Conn) :
    ledger conn key (start q s) = ledger conn key s + if asks conn key q then 1 else 0 := by
  simp only [ledger_eq, start, Past.start, List.countP_append, List.countP_singleton]
  omega

theorem ledger_admitFrom (conn : Conn) (key : String × Bool) (l : List (Request Conn))
    (s : Server Conn) :
    ledger conn key (admitFrom l s) = ledger conn key { s with queue := l } := by
  induction l generalizing s with
  | nil => rfl
  | cons q l ih =>
      unfold admitFrom
      split
      · have hstart := ledger_start conn key q { s with queue := l }
        refine (ih (start q s)).trans (hstart.trans ?_)
        simp only [ledger_eq, List.countP_cons]
        omega
      · rfl

theorem ledger_admitQueued (conn : Conn) (key : String × Bool) (s : Server Conn) :
    ledger conn key (admitQueued s) = ledger conn key s :=
  ledger_admitFrom conn key s.queue s

theorem ledger_submit_of_ne (h : q.conn ≠ conn) (s : Server Conn) :
    ledger conn key (submit q s) = ledger conn key s := by
  rcases submit_sent q s with ⟨c, heq⟩ | ⟨c, heq⟩ | ⟨c, r, hr, heq⟩
  · rw [heq, ledger_start, asks_of_ne h]
    rfl
  · rw [heq]
    simp only [ledger_eq, List.countP_append, List.countP_singleton, asks_of_ne h]
    rfl
  · rw [heq]
    simp only [ledger_eq, List.countP_append, countP_told_of_ne h, Nat.add_zero]

/-- A request is entered when it is submitted, whether it is started, queued or refused. -/
theorem ledger_submit (conn : Conn) (key : String × Bool) (halive : s.alive q.conn = true)
    (hascii : Ascii q.reqId) :
    ledger conn key (submit q s) = ledger conn key s + if asks conn key q then 1 else 0 := by
  rcases submit_sent q s with ⟨c, heq⟩ | ⟨c, heq⟩ | ⟨c, r, hr, heq⟩
  · rw [heq, ledger_start]
    rfl
  · rw [heq]
    simp only [ledger_eq, List.countP_append, List.countP_singleton, Past.accept]
    omega
  · rw [heq]
    simp only [ledger_eq, List.countP_append, countP_told hr halive hascii]
    omega

theorem ledger_serveBegin (conn : Conn) (key : String × Bool) (startMs : ℚ) (s : Server Conn) :
    ledger conn key (serveBegin startMs s) = ledger conn key s := by
  unfold serveBegin
  split
  · rfl
  · next q rest hspawned =>
      dsimp only
      split
      · simp only [ledger_eq, hspawned, List.countP_cons, List.map_append, List.map_cons,
          List.map_nil, List.countP_append, List.countP_nil, Past.begin]
        omega
      · simp only [ledger_eq, hspawned, List.countP_cons, List.countP_append, List.countP_nil,
          Past.begin, Past.raise]
        omega

theorem countP_eraseIdx (conn : Conn) (key : String × Bool) {k : ℕ} {startMs : ℚ}
    (hk : s.serving[k]? = some (q, startMs)) :
    (s.serving.map Prod.fst).countP (asks conn key) =
      ((s.serving.eraseIdx k).map Prod.fst).countP (asks conn key) +
        if asks conn key q then 1 else 0 := by
  obtain ⟨hlt, hget⟩ := List.getElem?_eq_some_iff.mp hk
  have hperm := (List.getElem_cons_eraseIdx_perm hlt).map Prod.fst
  rw [← hperm.countP_eq, hget, List.map_cons, List.countP_cons]

/-- The end of a task moves its request to the replies, or out of the ledger if the client has
gone. -/
theorem ledger_serveEnd (conn : Conn) (key : String × Bool) (k : ℕ) (roll endMs : ℚ)
    (s : Server Conn) :
    ledger conn key (serveEnd k roll endMs s) ≤ ledger conn key s ∧
      (s.alive conn = true → ledger conn key (serveEnd k roll endMs s) = ledger conn key s) := by
  rcases serveEnd_sent k roll endMs s with
    heq | ⟨q, startMs, c, r, hk, hr, ⟨hascii, heq⟩ | ⟨-, heq⟩⟩
  · rw [heq]
    exact ⟨le_rfl, fun _ => rfl⟩
  · have herase := countP_eraseIdx conn key hk
    rw [heq, ledger_admitQueued]
    simp only [ledger_eq, List.countP_append]
    refine ⟨?_, fun halive => ?_⟩
    · have htold := countP_told_le conn key s hr
      omega
    · have htold : (told q.conn r q.close s).countP (answers conn key) =
          if asks conn key q then 1 else 0 := by
        by_cases hconn : q.conn = conn
        · have hthere : s.alive q.conn = true := by rw [hconn, halive]
          exact countP_told hr hthere (hascii hthere)
        · rw [countP_told_of_ne hconn, asks_of_ne hconn]
          rfl
      omega
  · have herase := countP_eraseIdx conn key hk
    rw [heq]
    simp only [ledger_eq, Past.raise, List.countP_append, List.countP_singleton]
    exact ⟨by omega, fun _ => by omega⟩

theorem ledger_onCommand (conn : Conn) (key : String × Bool) (cmd : List (String × Json))
    (s : Server Conn) : ledger conn key (onCommand cmd s) = ledger conn key s := by
  rcases onCommand_cases cmd s with ⟨c, slow, rate, heq⟩ | ⟨capacity, ms, cv, limit, rate, heq⟩
  · rw [heq]
    rfl
  · rw [heq, ledger_admitQueued]
    rfl

/-- What happens at the server other than a request on this connection. -/
def Apart (conn : Conn) : ServiceServer.Event Conn → Prop
  | .submit q => q.conn ≠ conn
  | _ => True

theorem ledger_step (conn : Conn) (key : String × Bool) (s : Server Conn)
    {e : ServiceServer.Event Conn} (he : Apart conn e) :
    ledger conn key (ServiceServer.step s e) ≤ ledger conn key s ∧
      (s.alive conn = true → ledger conn key (ServiceServer.step s e) = ledger conn key s) := by
  have hsame : ledger conn key (ServiceServer.step s e) = ledger conn key s →
      ledger conn key (ServiceServer.step s e) ≤ ledger conn key s ∧
        (s.alive conn = true → ledger conn key (ServiceServer.step s e) = ledger conn key s) :=
    fun heq => ⟨heq.le, fun _ => heq⟩
  cases e with
  | submit q => exact hsame (ledger_submit_of_ne he s)
  | serveBegin startMs => exact hsame (ledger_serveBegin conn key startMs s)
  | serveEnd k roll endMs => exact ledger_serveEnd conn key k roll endMs s
  | connectionMade conn' => exact hsame rfl
  | connectionLost conn' => exact hsame rfl
  | command cmd => exact hsame (ledger_onCommand conn key cmd s)

end Ledger

/-! ### The replies of a connection -/

section Replies

omit [DecidableEq Conn] in
theorem sent_admitQueued (s : Server Conn) : (admitQueued s).sent = s.sent := by
  obtain ⟨busy, queue, spawned, started, heq⟩ := admitFrom_frame s.queue s
  rw [admitQueued, heq]

/-- Nothing that was sent is taken back. -/
theorem sent_step (s : Server Conn) (e : ServiceServer.Event Conn) :
    s.sent <+: (ServiceServer.step s e).sent := by
  cases e with
  | submit q =>
      rw [ServiceServer.step]
      rcases submit_sent q s with ⟨c, heq⟩ | ⟨c, heq⟩ | ⟨c, r, -, heq⟩
      · rw [heq]
        exact List.prefix_rfl
      · rw [heq]
      · rw [heq]
        exact List.prefix_append _ _
  | serveBegin startMs =>
      rw [ServiceServer.step, serveBegin]
      split
      · exact List.prefix_rfl
      · dsimp only
        split <;> exact List.prefix_rfl
  | serveEnd k roll endMs =>
      rw [ServiceServer.step]
      rcases serveEnd_sent k roll endMs s with
        heq | ⟨q, startMs, c, r, -, -, ⟨-, heq⟩ | ⟨-, heq⟩⟩
      · rw [heq]
      · rw [heq, sent_admitQueued]
        exact List.prefix_append _ _
      · rw [heq]
  | connectionMade conn => exact List.prefix_rfl
  | connectionLost conn => exact List.prefix_rfl
  | command cmd =>
      rw [ServiceServer.step]
      rcases onCommand_cases cmd s with ⟨c, slow, rate, heq⟩ | ⟨capacity, ms, cv, limit, rate, heq⟩
      · rw [heq]
      · rw [heq, sent_admitQueued]

/-- With a service time that can be drawn, only a request whose id cannot be written back
raises. -/
def Unwritable (s : Server Conn) : Prop := ∀ q ∈ s.past.stuck, ¬Ascii q.reqId

theorem unwritable_step {s : Server Conn} (hms : 0 < s.serviceMs) (h : Unwritable s)
    (e : ServiceServer.Event Conn) : Unwritable (ServiceServer.step s e) := by
  unfold Unwritable at h ⊢
  cases e with
  | submit q =>
      rw [ServiceServer.step, stuck_submit]
      exact h
  | serveBegin startMs =>
      rw [ServiceServer.step, serveBegin]
      split
      · exact h
      · rw [if_pos (drawable_of_pos hms _)]
        exact h
  | serveEnd k roll endMs =>
      rw [ServiceServer.step]
      rcases serveEnd_sent k roll endMs s with
        heq | ⟨q, startMs, c, r, -, -, ⟨-, heq⟩ | ⟨hid, heq⟩⟩
      · rw [heq]
        exact h
      · rw [heq, stuck_admitQueued]
        exact h
      · rw [heq]
        intro q' hq'
        rcases List.mem_append.mp hq' with hq' | hq'
        · exact h q' hq'
        · exact List.mem_singleton.mp hq' ▸ hid
  | connectionMade conn => exact h
  | connectionLost conn => exact h
  | command cmd =>
      rw [ServiceServer.step, stuck_onCommand]
      exact h

end Replies

end MaglevLb.RequestLedger
