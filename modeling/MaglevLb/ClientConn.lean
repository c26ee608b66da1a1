import MaglevLb.OrderedDict
import MaglevLb.WireText
import Mathlib.Data.List.Nodup

/-!
# A connection of the load generator

A connection holds a future for every request that was sent on it, under the request's id.
A reply takes the future out and resolves it, unless whoever waited has given up. When the
connection is lost, what is still held is resolved with an exception.
-/
namespace MaglevLb.ClientConn

open LineReader WireProtocol WireText
open ServiceServer (Reply)
open OrderedDict (Dict)

inductive Future where
  | waiting
  | result (a : Answer)
  | crashed
  | cancelled
  deriving DecidableEq, Repr

/-- A future, with the request that it was made for. -/
structure Ask where
  reqId : String
  close : Bool
  future : Future
  deriving DecidableEq, Repr

/-- Every future the connection has made, in order, and those it still holds, by their place
in that list. -/
structure Book where
  pending : Dict String ℕ
  asks : List Ask

/-- A future that is done stays as it is. -/
def settle (f : Future) (k : ℕ) (asks : List Ask) : List Ask :=
  asks.modify k fun a => if a.future = .waiting then { a with future := f } else a

namespace Book

def empty : Book := ⟨.empty, []⟩

def send (reqId : String) (close : Bool) (b : Book) : Book where
  pending := b.pending.set reqId b.asks.length
  asks := b.asks ++ [⟨reqId, close, .waiting⟩]

/-- One line of `data_received`. The future is taken out before the numbers are read. -/
def onLine (line : List UInt8) (b : Book) : Book :=
  match split (line.map decodeByte) with
  | verb :: reqId :: slot :: times =>
      match verbOf verb, b.pending.get? (String.ofList reqId) with
      | some verb, some k =>
          let pending := b.pending.erase (String.ofList reqId)
          match answerOf verb slot times with
          | some a => ⟨pending, settle (.result a) k b.asks⟩
          | none => ⟨pending, b.asks⟩
      | _, _ => b
  | _ => b

/-- `wait_for` gives up on future `k`, and the attempt on a pooled connection forgets it. -/
def timeOut (k : ℕ) (b : Book) : Book :=
  match b.asks[k]? with
  | some a =>
      if a.future = .waiting then ⟨b.pending.erase a.reqId, settle .cancelled k b.asks⟩ else b
  | none => b

/-- `wait_for` gives up on future `k`. -/
def cancel (k : ℕ) (b : Book) : Book := { b with asks := settle .cancelled k b.asks }

/-- The loop of `connection_lost`. -/
def crash (b : Book) : Book where
  pending := .empty
  asks := b.pending.entries.foldl (fun asks e => settle .crashed e.2 asks) b.asks

end Book

/-- `isOpen` says that the transport reads. `written` is what it was given to write; of that
the network takes a part from the front. -/
structure Conn where
  buf : List UInt8
  book : Book
  alive : Bool
  retiring : Bool
  openedMs : ℚ
  isOpen : Bool
  written : List UInt8

namespace Conn

def made (nowMs : ℚ) : Conn where
  buf := []
  book := .empty
  alive := true
  retiring := false
  openedMs := nowMs
  isOpen := true
  written := []

def send (reqId : String) (close : Bool) (c : Conn) : Conn :=
  { c with
    book := c.book.send reqId close
    written := c.written ++ (requestLine reqId close ++ [newline]) }

/-- A connection whose transport does not read gets no data. -/
def dataReceived (data : List UInt8) (c : Conn) : Conn :=
  let r := feed newline maxLine (fun line b => (Book.onLine line b, true)) ⟨c.buf, c.book, c.isOpen⟩
    data
  { c with buf := r.buf, book := r.state, isOpen := r.isOpen }

def connectionLost (c : Conn) : Conn :=
  { c with book := c.book.crash, alive := false, isOpen := false }

/-- `transport.close()`, `transport.abort()` -/
def closeTransport (c : Conn) : Conn := { c with isOpen := false }

end Conn

/-! ### Futures -/

section Futures

variable {f : Future} {k j : ℕ} {a : Ask} {asks : List Ask}

/-- A request, without the future. -/
def Ask.request (a : Ask) : String × Bool := (a.reqId, a.close)

theorem getElem?_settle (f : Future) (k j : ℕ) (asks : List Ask) :
    (settle f k asks)[j]? = asks[j]?.map fun a =>
      if j = k ∧ a.future = .waiting then { a with future := f } else a := by
  rw [settle, List.getElem?_modify]
  cases asks[j]? with
  | none => rfl
  | some a => by_cases hk : k = j <;> simp [hk, eq_comm]

theorem requests_settle (f : Future) (k : ℕ) (asks : List Ask) :
    (settle f k asks).map Ask.request = asks.map Ask.request := by
  refine List.ext_getElem? fun j => ?_
  rw [List.getElem?_map, getElem?_settle, List.getElem?_map, Option.map_map]
  congr 1
  funext a
  simp only [Function.comp_apply]
  split <;> rfl

/-- A future that `settle` leaves with a result had it before, or was waiting at `k`. -/
theorem of_getElem?_settle (h : (settle f k asks)[j]? = some a) :
    asks[j]? = some a ∨ (j = k ∧ a.future = f ∧ ∃ a₀, asks[k]? = some a₀ ∧
      a₀.future = .waiting ∧ a₀.request = a.request) := by
  rw [getElem?_settle] at h
  obtain ⟨a₀, h₀, rfl⟩ := Option.map_eq_some_iff.mp h
  split
  · next hwait => exact .inr ⟨hwait.1, rfl, a₀, hwait.1 ▸ h₀, hwait.2, rfl⟩
  · exact .inl h₀

end Futures

/-! ### Replies and futures -/

namespace Book

/-- What the line of a reply does. -/
def reply (r : Reply) (b : Book) : Book :=
  match b.pending.get? r.reqId with
  | some k => ⟨b.pending.erase r.reqId, settle (.result (answer r)) k b.asks⟩
  | none => b

theorem onLine_replyLine {r : Reply} (hid : Word r.reqId.toList) (b : Book) :
    b.onLine (replyLine r) = b.reply r := by
  obtain ⟨slot, times, hwords, hanswer⟩ := replyWords_read r
  rw [onLine, replyLine, decode_sentence (reply_words hid), hwords]
  dsimp only
  rw [verbOf_verbText, String.ofList_toList, reply]
  cases b.pending.get? r.reqId with
  | none => rfl
  | some k =>
      dsimp only
      rw [hanswer]

/-- A result is what one of the replies says of the request. -/
def Told (rs : List Reply) (asks : List Ask) : Prop :=
  ∀ ⦃j : ℕ⦄ ⦃a : Ask⦄ ⦃v : Answer⦄, asks[j]? = some a → a.future = .result v →
    ∃ r ∈ rs, r.reqId = a.reqId ∧ answer r = v

/-- A connection after the replies `rs`: it holds futures under their own ids, and has told
nothing but the replies. -/
structure Sound (b : Book) (rs : List Reply) : Prop where
  pending : ∀ {id k}, b.pending.get? id = some k → ∃ a, b.asks[k]? = some a ∧ a.reqId = id
  told : Told rs b.asks

/-- Whoever waits is held, and none of the replies was for them. -/
def Live (b : Book) (rs : List Reply) : Prop :=
  ∀ ⦃j : ℕ⦄ ⦃a : Ask⦄, b.asks[j]? = some a → a.future = .waiting →
    b.pending.get? a.reqId = some j ∧ ∀ r ∈ rs, r.reqId ≠ a.reqId

section

variable {b : Book} {rs : List Reply} {id : String} {k : ℕ}

theorem sound_empty : Sound .empty [] where
  pending h := nomatch h
  told _ _ _ h := nomatch h

theorem live_empty : Live .empty [] := fun _ _ h => nomatch h

theorem held_settle {f : Future} {asks : List Ask} (j : ℕ)
    (h : ∃ a, asks[k]? = some a ∧ a.reqId = id) :
    ∃ a, (settle f j asks)[k]? = some a ∧ a.reqId = id := by
  obtain ⟨a, ha, hid⟩ := h
  rw [getElem?_settle, ha]
  refine ⟨_, rfl, ?_⟩
  dsimp only
  split <;> exact hid

theorem Sound.send (h : Sound b rs) (reqId : String) (close : Bool) :
    Sound (b.send reqId close) rs := by
  refine ⟨fun {id k} hget => ?_, fun j a v ha hv => ?_⟩
  · rw [Book.send, OrderedDict.Dict.get?_set] at hget
    split at hget
    · next hid =>
        cases hget
        exact ⟨⟨reqId, close, .waiting⟩, List.getElem?_concat_length, hid.symm⟩
    · obtain ⟨a, ha, hid⟩ := h.pending hget
      obtain ⟨hlt, -⟩ := List.getElem?_eq_some_iff.mp ha
      exact ⟨a, (List.getElem?_append_left hlt).trans ha, hid⟩
  · rw [Book.send, List.getElem?_append] at ha
    split at ha
    · exact h.told ha hv
    · rw [List.getElem?_singleton] at ha
      split at ha
      · cases ha
        cases hv
      · cases ha

theorem Live.send (h : Live b rs) {reqId : String} (hfresh : reqId ∉ b.asks.map Ask.reqId)
    (hreplies : ∀ r ∈ rs, r.reqId ≠ reqId) (close : Bool) : Live (b.send reqId close) rs := by
  intro j a ha hwait
  rw [Book.send, List.getElem?_append] at ha
  rw [Book.send, OrderedDict.Dict.get?_set]
  split at ha
  · have hne : a.reqId ≠ reqId := by
      rintro rfl
      exact hfresh (List.mem_map_of_mem (List.mem_of_getElem? ha))
    rw [if_neg hne]
    exact h ha hwait
  · next hlast =>
      rw [List.getElem?_singleton] at ha
      split at ha
      · cases ha
        rw [if_pos rfl]
        exact ⟨congrArg some (by omega), hreplies⟩
      · cases ha

theorem Sound.reply (h : Sound b rs) (r : Reply) : Sound (b.reply r) (rs ++ [r]) := by
  unfold Book.reply
  split
  · next k hk =>
      obtain ⟨a₀, ha₀, hid₀⟩ := h.pending hk
      refine ⟨fun {id k'} hget => ?_, fun j a v ha hv => ?_⟩
      · rw [OrderedDict.Dict.get?_erase] at hget
        split at hget
        · cases hget
        · exact held_settle k (h.pending hget)
      · rcases of_getElem?_settle ha with hold | ⟨rfl, hnew, a₁, ha₁, -, hrequest⟩
        · obtain ⟨r', hr', hr'id⟩ := h.told hold hv
          exact ⟨r', List.mem_append_left _ hr', hr'id⟩
        · cases ha₀.symm.trans ha₁
          refine ⟨r, List.mem_append_right _ List.mem_cons_self, ?_, ?_⟩
          · exact hid₀.symm.trans (congrArg Prod.fst hrequest)
          · exact Future.result.inj (hnew.symm.trans hv)
  · refine ⟨h.pending, fun j a v ha hv => ?_⟩
    obtain ⟨r', hr', hr'id⟩ := h.told ha hv
    exact ⟨r', List.mem_append_left _ hr', hr'id⟩

theorem Live.reply (h : Live b rs) (r : Reply) : Live (b.reply r) (rs ++ [r]) := by
  intro j a ha hwait
  -- whoever still waits was not the one the reply is for
  have hother : b.asks[j]? = some a ∧ a.reqId ≠ r.reqId := by
    unfold Book.reply at ha
    split at ha
    · next k hk =>
        have hold : b.asks[j]? = some a := by
          rcases of_getElem?_settle ha with hold | ⟨-, hnew, -⟩
          · exact hold
          · cases hnew.symm.trans hwait
        refine ⟨hold, fun hid => ?_⟩
        have hheld := (h hold hwait).1
        rw [hid, hk] at hheld
        cases hheld
        rw [getElem?_settle, hold, Option.map_some, if_pos ⟨rfl, hwait⟩] at ha
        rw [← Option.some.inj ha] at hwait
        cases hwait
    · next hnone =>
        refine ⟨ha, fun hid => ?_⟩
        have hheld := (h ha hwait).1
        rw [hid, hnone] at hheld
        cases hheld
  obtain ⟨hold, hne⟩ := hother
  obtain ⟨hheld, hnone⟩ := h hold hwait
  refine ⟨?_, fun r' hr' => ?_⟩
  · unfold Book.reply
    split
    · rw [OrderedDict.Dict.get?_erase, if_neg hne]
      exact hheld
    · exact hheld
  · rcases List.mem_append.mp hr' with hr' | hr'
    · exact hnone r' hr'
    · exact List.mem_singleton.mp hr' ▸ hne.symm

theorem Told.settle {f : Future} {asks : List Ask} (h : Told rs asks) (hf : ∀ v, f ≠ .result v)
    (k : ℕ) : Told rs (ClientConn.settle f k asks) := by
  intro j a v ha hv
  rcases of_getElem?_settle ha with hold | ⟨-, hnew, -⟩
  · exact h hold hv
  · exact absurd (hnew.symm.trans hv) (hf v)

theorem Sound.cancel (h : Sound b rs) (k : ℕ) : Sound (b.cancel k) rs :=
  ⟨fun hget => held_settle k (h.pending hget), h.told.settle (fun _ => by rintro ⟨⟩) k⟩

theorem Sound.timeOut (h : Sound b rs) (k : ℕ) : Sound (b.timeOut k) rs := by
  unfold Book.timeOut
  split
  · split
    · refine ⟨fun hget => ?_, (h.cancel k).told⟩
      rw [OrderedDict.Dict.get?_erase] at hget
      split at hget
      · cases hget
      · exact held_settle k (h.pending hget)
    · exact h
  · exact h

theorem Live.timeOut (h : Live b rs) (k : ℕ) : Live (b.timeOut k) rs := by
  unfold Book.timeOut
  split
  · next a₀ ha₀ =>
      split
      · next hwait₀ =>
          intro j a ha hwait
          rcases of_getElem?_settle ha with hold | ⟨-, hnew, -⟩
          · obtain ⟨hheld, hnone⟩ := h hold hwait
            refine ⟨?_, hnone⟩
            rw [OrderedDict.Dict.get?_erase, if_neg, hheld]
            rintro hid
            rw [hid, (h ha₀ hwait₀).1] at hheld
            cases hheld
            rw [getElem?_settle, ha₀, Option.map_some, if_pos ⟨rfl, hwait₀⟩] at ha
            rw [← Option.some.inj ha] at hwait
            cases hwait
          · cases hnew.symm.trans hwait
      · exact h
  · exact h

theorem Sound.crash (h : Sound b rs) : Sound b.crash rs := by
  have hfold : ∀ (l : List (String × ℕ)) (asks : List Ask), Told rs asks →
      Told rs (l.foldl (fun asks e => ClientConn.settle .crashed e.2 asks) asks) := by
    intro l
    induction l with
    | nil => exact fun _ hasks => hasks
    | cons e l ih => exact fun asks hasks => ih _ (hasks.settle (fun _ => by rintro ⟨⟩) e.2)
  exact ⟨fun hget => (nomatch hget), hfold _ _ h.told⟩

/-! ### Several replies -/

/-- The lines of these replies, one after the other. -/
theorem foldl_replyLine {rs : List Reply} (h : ∀ r ∈ rs, Word r.reqId.toList) (b : Book) :
    (rs.map replyLine).foldl (fun b line => b.onLine line) b =
      rs.foldl (fun b r => b.reply r) b := by
  induction rs generalizing b with
  | nil => rfl
  | cons r rs ih =>
      obtain ⟨hr, hrs⟩ := List.forall_mem_cons.mp h
      rw [List.map_cons, List.foldl_cons, List.foldl_cons, onLine_replyLine hr, ih hrs]

theorem Sound.replies (h : Sound b rs) (more : List Reply) :
    Sound (more.foldl (fun b r => b.reply r) b) (rs ++ more) := by
  induction more generalizing b rs with
  | nil => rwa [List.append_nil]
  | cons r more ih =>
      have hnext := ih (h.reply r)
      rwa [List.append_assoc, List.singleton_append] at hnext

theorem Live.replies (h : Live b rs) (more : List Reply) :
    Live (more.foldl (fun b r => b.reply r) b) (rs ++ more) := by
  induction more generalizing b rs with
  | nil => rwa [List.append_nil]
  | cons r more ih =>
      have hnext := ih (h.reply r)
      rwa [List.append_assoc, List.singleton_append] at hnext

/-! ### Requests -/

theorem requests_reply (r : Reply) (b : Book) :
    (b.reply r).asks.map Ask.request = b.asks.map Ask.request := by
  unfold Book.reply
  split
  · exact requests_settle _ _ _
  · rfl

theorem requests_replies (more : List Reply) (b : Book) :
    (more.foldl (fun b r => b.reply r) b).asks.map Ask.request = b.asks.map Ask.request := by
  induction more generalizing b with
  | nil => rfl
  | cons r more ih => exact (ih (b.reply r)).trans (requests_reply r b)

theorem requests_timeOut (k : ℕ) (b : Book) :
    (b.timeOut k).asks.map Ask.request = b.asks.map Ask.request := by
  unfold Book.timeOut
  split
  · split
    · exact requests_settle _ _ _
    · rfl
  · rfl

theorem requests_crash (b : Book) : b.crash.asks.map Ask.request = b.asks.map Ask.request := by
  have hfold : ∀ (l : List (String × ℕ)) (asks : List Ask),
      (l.foldl (fun asks e => settle .crashed e.2 asks) asks).map Ask.request =
        asks.map Ask.request := by
    intro l
    induction l with
    | nil => exact fun _ => rfl
    | cons e l ih => exact fun asks => (ih _).trans (requests_settle _ _ _)
  exact hfold _ _

end

end Book

end MaglevLb.ClientConn
