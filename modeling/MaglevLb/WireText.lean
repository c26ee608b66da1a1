import MaglevLb.LineText
import MaglevLb.ServiceServer
import MaglevLb.WireProtocol

/-!
# Requests and replies as they are written

The client writes a request and the backend its reply as words with a blank between them,
and either side takes a line apart by `str.split`. The words are verbs, ids and integers.
What was written as a request is read as that request, and a reply as that reply, with
`int` as Python has it for a word.
-/
namespace MaglevLb.WireText

open LineText LineReader WireProtocol ServiceServer

/-! ### Words -/

/-- Words with a blank between them. -/
def sentence : List Text → Text
  | [] => []
  | [w] => w
  | w :: ws => w ++ ' ' :: sentence ws

/-- `encode("ascii")` of a text in which every character is ASCII. -/
def encode (text : Text) : List UInt8 := text.map fun c => c.val.toUInt8

structure Word (w : Text) : Prop where
  ne_nil : w ≠ []
  ascii : ∀ c ∈ w, c.val < 128
  unbroken : ∀ c ∈ w, isSpace c = false

section Words

variable {w acc text : Text} {ws : List Text}

theorem toNat_toUInt8 {c : Char} (h : c.val < 128) : c.val.toUInt8.toNat = c.val.toNat := by
  have hlt : c.val.toNat < 128 := h
  rw [UInt32.toNat_toUInt8]
  omega

theorem decodeByte_toUInt8 {c : Char} (h : c.val < 128) : decodeByte c.val.toUInt8 = c := by
  have hsmall : c.val.toUInt8 < 128 := UInt8.lt_iff_toNat_lt.mpr (by rw [toNat_toUInt8 h]; exact h)
  rw [decodeByte, if_pos hsmall, toNat_toUInt8 h]
  exact Char.ofNat_toNat c

theorem decode_encode (h : ∀ c ∈ text, c.val < 128) : (encode text).map decodeByte = text := by
  rw [encode, List.map_map]
  exact (List.map_congr_left fun c hc => decodeByte_toUInt8 (h c hc)).trans (List.map_id _)

theorem splitFrom_append (h : ∀ c ∈ w, isSpace c = false) (acc text : Text) :
    splitFrom acc (w ++ text) = splitFrom (acc ++ w) text := by
  induction w generalizing acc with
  | nil => rw [List.append_nil, List.nil_append]
  | cons c w ih =>
      obtain ⟨hc, hw⟩ := List.forall_mem_cons.mp h
      rw [List.cons_append, splitFrom, if_neg (by simp [hc]), ih hw, List.append_assoc,
        List.singleton_append]

theorem split_sentence (h : ∀ w ∈ ws, Word w) : split (sentence ws) = ws := by
  induction ws with
  | nil => rfl
  | cons w ws ih =>
      obtain ⟨hw, hws⟩ := List.forall_mem_cons.mp h
      cases ws with
      | nil =>
          have hall := splitFrom_append hw.unbroken [] []
          rw [List.append_nil, List.nil_append] at hall
          rw [sentence, split, hall, splitFrom, if_neg hw.ne_nil]
      | cons w' ws =>
          have hblank : isSpace ' ' = true := rfl
          rw [sentence, split, splitFrom_append hw.unbroken, List.nil_append, splitFrom,
            if_pos hblank, if_neg hw.ne_nil, ← split, ih hws]
          · rfl
          · rintro ⟨⟩

/-- A line of words has no end of line in it. -/
theorem mem_sentence {c : Char} (h : ∀ w ∈ ws, Word w) (hc : c ∈ sentence ws) :
    c.val < 128 ∧ c ≠ '\n' := by
  induction ws with
  | nil => cases hc
  | cons w ws ih =>
      obtain ⟨hw, hws⟩ := List.forall_mem_cons.mp h
      have hword : c ∈ w → c.val < 128 ∧ c ≠ '\n' := by
        intro hmem
        refine ⟨hw.ascii c hmem, fun hbreak => ?_⟩
        have hspace := hw.unbroken c hmem
        rw [hbreak] at hspace
        cases hspace
      cases ws with
      | nil => exact hword hc
      | cons w' ws =>
          rcases List.mem_append.mp hc with hmem | hmem
          · exact hword hmem
          · rcases List.mem_cons.mp hmem with rfl | hmem
            · decide
            · exact ih hws hmem

theorem newline_notMem_encode (h : ∀ w ∈ ws, Word w) : newline ∉ encode (sentence ws) := by
  intro hmem
  obtain ⟨c, hc, heq⟩ := List.mem_map.mp hmem
  obtain ⟨hascii, hbreak⟩ := mem_sentence h hc
  refine hbreak ?_
  rw [← decodeByte_toUInt8 hascii, heq]
  rfl

theorem decode_sentence (h : ∀ w ∈ ws, Word w) :
    split ((encode (sentence ws)).map decodeByte) = ws := by
  rw [decode_encode fun c hc => (mem_sentence h hc).1, split_sentence h]

end Words

/-! ### Numbers -/

theorem word_of_chars {w : Text} (hne : w ≠ []) (h : ∀ c ∈ w, c = '-' ∨ c.isDigit = true) :
    Word w := by
  have hchar : ∀ c ∈ w, c.val < 128 ∧ isSpace c = false := by
    intro c hc
    rcases h c hc with rfl | hdigit
    · decide
    · obtain ⟨hlow, hhigh⟩ := digit_toNat hdigit
      have hval : c.val.toNat = c.toNat := rfl
      refine ⟨UInt32.lt_iff_toNat_lt.mpr (by rw [hval]; exact Nat.lt_of_le_of_lt hhigh (by decide)),
        ?_⟩
      have hblank : c ≠ ' ' := by
        rintro rfl
        exact absurd hlow (by decide)
      simp only [isSpace, hblank, decide_false, Bool.false_or, Bool.or_eq_false_iff,
        Bool.and_eq_false_iff, decide_eq_false_iff_not, UInt32.le_iff_toNat_le, hval]
      exact ⟨.inr (by simp only [UInt32.reduceToNat]; omega),
        .inr (by simp only [UInt32.reduceToNat]; omega)⟩
  exact ⟨hne, fun c hc => (hchar c hc).1, fun c hc => (hchar c hc).2⟩

theorem word_natText (n : ℕ) : Word (natText n) :=
  word_of_chars (natText_ne_nil n) fun _ hc => .inr (isDigit_of_mem_natText hc)

theorem intText_ne_nil (z : ℤ) : intText z ≠ [] := by
  unfold intText
  split
  · exact List.cons_ne_nil _ _
  · exact natText_ne_nil _

theorem word_intText (z : ℤ) : Word (intText z) :=
  word_of_chars (intText_ne_nil z) fun _ hc => mem_intText hc

/-- The digits of a literal, in which single underscores may stand between digits. -/
def ungroup : Text → Option Text
  | [] => none
  | [c] => if c.isDigit then some [c] else none
  | c :: '_' :: s => if c.isDigit then (ungroup s).map (c :: ·) else none
  | c :: s => if c.isDigit then (ungroup s).map (c :: ·) else none

/-- `int` of a word. -/
def intWord : Text → Option ℤ
  | '-' :: s => ((ungroup s).bind natLiteral).map fun n : ℕ => -(n : ℤ)
  | '+' :: s => ((ungroup s).bind natLiteral).map Int.ofNat
  | s => ((ungroup s).bind natLiteral).map Int.ofNat

theorem ungroup_digits {s : Text} (hne : s ≠ []) (h : ∀ c ∈ s, c.isDigit = true) :
    ungroup s = some s := by
  induction s with
  | nil => exact absurd rfl hne
  | cons c s ih =>
      obtain ⟨hc, hs⟩ := List.forall_mem_cons.mp h
      cases s with
      | nil => rw [ungroup, if_pos hc]
      | cons d s =>
          have hd : d ≠ '_' := by
            rintro rfl
            exact absurd (hs '_' List.mem_cons_self) (by decide)
          rw [ungroup, if_pos hc, ih (List.cons_ne_nil _ _) hs]
          · rfl
          · rintro ⟨⟩
          · intro s' hcons
            exact hd (List.cons.inj hcons).1

theorem natWord_natText (n : ℕ) : (ungroup (natText n)).bind natLiteral = some n := by
  rw [ungroup_digits (natText_ne_nil n) fun c hc => isDigit_of_mem_natText hc, Option.bind_some,
    natLiteral_natText]

theorem intWord_natText (n : ℕ) : intWord (natText n) = some (n : ℤ) := by
  have hread := natWord_natText n
  have hdigit : ∀ c ∈ natText n, c.isDigit = true := fun c hc => isDigit_of_mem_natText hc
  unfold intWord
  split
  · next s heq => exact absurd (hdigit '-' (heq ▸ List.mem_cons_self)) (by decide)
  · next s heq => exact absurd (hdigit '+' (heq ▸ List.mem_cons_self)) (by decide)
  · rw [hread]
    rfl

theorem intWord_intText (z : ℤ) : intWord (intText z) = some z := by
  unfold intText
  split
  · next hneg =>
      rw [intWord, natWord_natText, Option.map_some]
      congr 1
      omega
  · next hpos =>
      rw [intWord_natText]
      congr 1
      omega

/-! ### Requests -/

def modeText (close : Bool) : Text :=
  if close then ['c', 'l', 'o', 's', 'e'] else ['k', 'e', 'e', 'p']

/-- The line of a request, without its end. -/
def requestLine (reqId : String) (close : Bool) : List UInt8 :=
  encode (sentence [['R', 'E', 'Q'], reqId.toList, modeText close])

theorem word_literal {w : Text} (hne : w ≠ [])
    (h : w.all (fun c => c.val < 128 && !isSpace c) = true) : Word w := by
  have hchar : ∀ c ∈ w, c.val < 128 ∧ isSpace c = false := by simpa using h
  exact ⟨hne, fun c hc => (hchar c hc).1, fun c hc => (hchar c hc).2⟩

section Requests

variable {reqId : String} (hid : Word reqId.toList) (close : Bool)

include hid

theorem request_words : ∀ w ∈ [['R', 'E', 'Q'], reqId.toList, modeText close], Word w := by
  have hmode : Word (modeText close) := by
    cases close with
    | true => exact word_literal (by decide) (by decide)
    | false => exact word_literal (by decide) (by decide)
  simp only [List.forall_mem_cons]
  exact ⟨word_literal (by decide) (by decide), hid, hmode, List.forall_mem_nil _⟩

theorem newline_notMem_requestLine : newline ∉ requestLine reqId close :=
  newline_notMem_encode (request_words hid close)

/-- What is written as a request is read as that request. -/
theorem parseRequest_requestLine (hlen : reqId.toList.length ≤ 32) :
    parseRequest (requestLine reqId close) = some (reqId, close) := by
  rw [parseRequest, requestLine, decode_sentence (request_words hid close)]
  cases close with
  | true => simp [modeText, hlen, String.ofList_toList]
  | false => simp [modeText, hlen, String.ofList_toList]

end Requests

/-! ### Replies -/

inductive Verb where
  | ok | err | shed
  deriving DecidableEq, Repr

/-- What a future of the client is resolved with. -/
structure Answer where
  verb : Verb
  slot : ℤ
  queuedUs : ℤ
  serviceUs : ℤ
  deriving DecidableEq, Repr

def verbText : Verb → Text
  | .ok => ['O', 'K']
  | .err => ['E', 'R', 'R']
  | .shed => ['S', 'H', 'E', 'D']

/-- The line of a reply, without its end; a refusal has no times. -/
def replyWords : Reply → List Text
  | .ok reqId slot queuedUs serviceUs =>
      [verbText .ok, reqId.toList, intText slot, intText queuedUs, intText serviceUs]
  | .err reqId slot queuedUs serviceUs =>
      [verbText .err, reqId.toList, intText slot, intText queuedUs, intText serviceUs]
  | .shed reqId slot => [verbText .shed, reqId.toList, intText slot]

def replyLine (r : Reply) : List UInt8 := encode (sentence (replyWords r))

/-- `parts[0] in ("OK", "ERR", "SHED")` -/
def verbOf (w : Text) : Option Verb :=
  if w = verbText .ok then some .ok
  else if w = verbText .err then some .err
  else if w = verbText .shed then some .shed
  else none

/-- The numbers of a reply, where a time that is missing is 0; `none` if `int` raises. -/
def answerOf (verb : Verb) (slot : Text) (times : List Text) : Option Answer := do
  let slot ← intWord slot
  let queuedUs ← (times[0]?.map intWord).getD (some 0)
  let serviceUs ← (times[1]?.map intWord).getD (some 0)
  pure ⟨verb, slot, queuedUs, serviceUs⟩

/-- What a reply says. -/
def answer : Reply → Answer
  | .ok _ slot queuedUs serviceUs => ⟨.ok, slot, queuedUs, serviceUs⟩
  | .err _ slot queuedUs serviceUs => ⟨.err, slot, queuedUs, serviceUs⟩
  | .shed _ slot => ⟨.shed, slot, 0, 0⟩

theorem verbOf_verbText (verb : Verb) : verbOf (verbText verb) = some verb := by
  cases verb <;> rfl

theorem word_verbText (verb : Verb) : Word (verbText verb) := by
  cases verb <;> exact word_literal (by decide) (by decide)

/-- What is written as a reply is read as that reply. -/
theorem replyWords_read (r : Reply) : ∃ slot times,
    replyWords r = verbText (answer r).verb :: r.reqId.toList :: slot :: times ∧
      answerOf (answer r).verb slot times = some (answer r) := by
  cases r with
  | ok reqId slot queuedUs serviceUs =>
      refine ⟨_, _, rfl, ?_⟩
      simp [answerOf, answer, intWord_intText]
  | err reqId slot queuedUs serviceUs =>
      refine ⟨_, _, rfl, ?_⟩
      simp [answerOf, answer, intWord_intText]
  | shed reqId slot =>
      refine ⟨_, _, rfl, ?_⟩
      simp [answerOf, answer, intWord_intText]

theorem reply_words {r : Reply} (hid : Word r.reqId.toList) : ∀ w ∈ replyWords r, Word w := by
  cases r with
  | ok reqId slot queuedUs serviceUs =>
      simp only [replyWords, List.forall_mem_cons]
      exact ⟨word_verbText _, hid, word_intText _, word_intText _, word_intText _,
        List.forall_mem_nil _⟩
  | err reqId slot queuedUs serviceUs =>
      simp only [replyWords, List.forall_mem_cons]
      exact ⟨word_verbText _, hid, word_intText _, word_intText _, word_intText _,
        List.forall_mem_nil _⟩
  | shed reqId slot =>
      simp only [replyWords, List.forall_mem_cons]
      exact ⟨word_verbText _, hid, word_intText _, List.forall_mem_nil _⟩

theorem newline_notMem_replyLine {r : Reply} (hid : Word r.reqId.toList) :
    newline ∉ replyLine r :=
  newline_notMem_encode (reply_words hid)

end MaglevLb.WireText
