import MaglevLb.LineReader
import Mathlib.Data.String.Basic

/-!
# The wire protocol of a backend

`data_received` of a connection: the bytes that came are put behind what was kept, and
every complete line is a request or closes the connection. The limit of 256 bytes is
looked at only where no line is complete, so a request that is longer closes the
connection or is served, as the network happens to cut it.
-/
namespace MaglevLb.WireProtocol

open LineReader

def maxLine : ℕ := 256

def newline : UInt8 := 10

/-! ### Requests -/

/-- A byte under `decode("ascii", "replace")`. -/
def decodeByte (b : UInt8) : Char := if b < 128 then Char.ofNat b.toNat else '\uFFFD'

/-- Whitespace of `str.split`, among the characters that a line can decode to. -/
def isSpace (c : Char) : Bool := c = ' ' || (9 ≤ c.val && c.val ≤ 13) || (28 ≤ c.val && c.val ≤ 31)

/-- The words of a text, with the letters of a word that has begun. -/
def splitFrom (word : List Char) : List Char → List (List Char)
  | [] => if word = [] then [] else [word]
  | c :: text =>
      if isSpace c then (if word = [] then [] else [word]) ++ splitFrom [] text
      else splitFrom (word ++ [c]) text

def split (text : List Char) : List (List Char) := splitFrom [] text

/-- The id of a request, and whether the server is to close after its reply. -/
def parseRequest (line : List UInt8) : Option (String × Bool) :=
  match split (line.map decodeByte) with
  | [verb, reqId, mode] =>
      if verb = ['R', 'E', 'Q'] ∧ (mode = ['c', 'l', 'o', 's', 'e'] ∨ mode = ['k', 'e', 'e', 'p']) ∧
          reqId.length ≤ 32 then
        some (String.ofList reqId, mode = ['c', 'l', 'o', 's', 'e'])
      else none
  | _ => none

/-! ### The connection -/

section Connection

variable {σ : Type*}

/-- One line; `submit` says whether it returned, and if not the event loop closes the
connection as it does for a malformed line. -/
def onLine (submit : String → Bool → σ → σ × Bool) (line : List UInt8) (s : σ) : σ × Bool :=
  match parseRequest line with
  | some (reqId, close) => submit reqId close s
  | none => (s, false)

/-- A connection that is not open has been closed, and gets no more data. -/
def dataReceived (submit : String → Bool → σ → σ × Bool) (c : Reader UInt8 σ)
    (data : List UInt8) : Reader UInt8 σ :=
  feed newline maxLine (onLine submit) c data

end Connection

/-- The requests submitted, in order. -/
def record (reqId : String) (close : Bool) (log : List (String × Bool)) :
    List (String × Bool) × Bool :=
  (log ++ [(reqId, close)], true)

/-- The requests submitted by a stream that comes in these chunks, and whether the connection
is open then. -/
def exchange (chunks : List (List UInt8)) : List (String × Bool) × Bool :=
  let c := chunks.foldl (dataReceived record) ⟨[], [], true⟩
  (c.state, c.isOpen)

/-- A line of the protocol. -/
def conforms (line : List UInt8) : Bool := line.length ≤ maxLine && (parseRequest line).isSome

/-- What the protocol says of a stream: the requests in front of the first line that does not
conform, which closes the connection, as does an unfinished line that is too long already. -/
def protocol (stream : List UInt8) : List (String × Bool) × Bool :=
  (((lines newline stream).takeWhile conforms).filterMap parseRequest,
    (lines newline stream).all conforms && (rest newline stream).length ≤ maxLine)

theorem onLine_record : onLine record = collect parseRequest := by
  funext line log
  unfold onLine collect
  cases parseRequest line with
  | none => rfl
  | some request => rfl

theorem exchange_eq (chunks : List (List UInt8)) :
    exchange chunks = outcome newline maxLine parseRequest chunks := by
  unfold exchange outcome
  have hfeed : dataReceived record = feed newline maxLine (collect parseRequest) := by
    funext c data
    rw [dataReceived, onLine_record]
  rw [hfeed]

theorem within_isSome (line : List UInt8) :
    (within maxLine parseRequest line).isSome = conforms line := by
  unfold within conforms
  split <;> simp_all

theorem protocol_eq (stream : List UInt8) :
    protocol stream = reading newline maxLine (within maxLine parseRequest) stream := by
  simp only [protocol, reading, messages, within_isSome]
  congr 1
  refine List.filterMap_congr fun line hline => ?_
  have hconforms := List.mem_takeWhile_imp hline
  rw [conforms, Bool.and_eq_true, decide_eq_true_eq] at hconforms
  rw [within, if_pos hconforms.1]

/-- Every way of cutting a stream gives the same requests and the same end exactly if no
line that is reached is a request of more than 256 bytes; and exactly then every way gives
what the protocol says, where any line of more than 256 bytes closes the connection. -/
theorem segmentation_iff (stream : List UInt8) :
    ((∀ chunks chunks', chunks.flatten = stream → chunks'.flatten = stream →
        exchange chunks = exchange chunks') ↔
      ∀ line ∈ (lines newline stream).takeWhile fun line => (parseRequest line).isSome,
        line.length ≤ 256) ∧
    ((∀ chunks, chunks.flatten = stream → exchange chunks = protocol stream) ↔
      ∀ line ∈ (lines newline stream).takeWhile fun line => (parseRequest line).isSome,
        line.length ≤ 256) := by
  have hagree := outcome_agree_iff newline maxLine parseRequest stream
  simp only [exchange_eq]
  refine ⟨hagree, fun hall => ?_, fun hshort chunks heq => ?_⟩
  · refine hagree.mp fun chunks chunks' h h' => ?_
    rw [hall chunks h, hall chunks' h']
  · rw [outcome_eq_reading (heq ▸ hshort), heq, protocol_eq]

def asciiBytes (s : String) : List UInt8 := s.toList.map fun c => c.val.toUInt8

/-- Two requests in three chunks, none of which ends with a line. -/
theorem segmentation_two_requests :
    exchange [asciiBytes "REQ 1 ke", asciiBytes "ep\nREQ 2", asciiBytes " close\n"] =
      exchange [asciiBytes "REQ 1 keep\nREQ 2 close\n"] :=
  (segmentation_iff (asciiBytes "REQ 1 keep\nREQ 2 close\n")).1.mpr (by decide +kernel) _ _
    (by decide +kernel) (by decide +kernel)

/-- A request of 270 bytes. -/
def longRequest : List UInt8 :=
  asciiBytes "REQ" ++ List.replicate 260 32 ++ asciiBytes "1 keep\n"

/-- In one chunk it is served, and in two it closes the connection. -/
theorem long_request_cut :
    exchange [longRequest] = ([("1", false)], true) ∧
      exchange [longRequest.take 260, longRequest.drop 260] = ([], false) ∧
      (longRequest.take 260 ++ longRequest.drop 260 = longRequest ∧
        (lines newline longRequest).map List.length = [269]) := by
  decide +kernel

end MaglevLb.WireProtocol
