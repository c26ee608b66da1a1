import Mathlib.Data.List.Induction
import Mathlib.Data.List.TakeWhile

/-!
# A reader of lines that arrive in pieces

A stream reaches a reader in chunks. The reader keeps what has come since the last
separator and handles every line that is complete; it closes when a line is refused,
or when what it keeps at the end of a chunk is longer than a limit. A line that comes
with its separator in the same chunk is not held against the limit, so how the stream
is cut matters exactly if a line over the limit would be accepted.
-/
namespace MaglevLb.LineReader

variable {α β σ : Type*} [DecidableEq α] {sep : α} {limit : ℕ}

/-! ### The lines of a stream -/

section Lines

variable {buf line tail : List α}

/-- The lines that a separator ends. -/
def lines (sep : α) (stream : List α) : List (List α) := (stream.splitOn sep).dropLast

/-- What comes after the last separator. -/
def rest (sep : α) (stream : List α) : List α :=
  (stream.splitOn sep).getLast (List.splitOn_ne_nil _ _)

theorem lines_of_notMem (h : sep ∉ buf) : lines sep buf = [] := by
  rw [lines, List.splitOn_eq_singleton h]
  rfl

theorem rest_of_notMem (h : sep ∉ buf) : rest sep buf = buf := by
  simp only [rest, List.splitOn_eq_singleton h, List.getLast_singleton]

theorem lines_append_cons (h : sep ∉ line) :
    lines sep (line ++ sep :: tail) = line :: lines sep tail := by
  rw [lines, List.splitOn_append_cons_self_of_not_mem h,
    List.dropLast_cons_of_ne_nil (List.splitOn_ne_nil _ _), lines]

theorem rest_append_cons (h : sep ∉ line) : rest sep (line ++ sep :: tail) = rest sep tail := by
  simp only [rest, List.splitOn_append_cons_self_of_not_mem h,
    List.getLast_cons (List.splitOn_ne_nil _ _)]

/-- A stream is a rest, or a line in front of a stream. -/
@[elab_as_elim]
theorem stream_induction (sep : α) {P : List α → Prop} (rest : ∀ buf, sep ∉ buf → P buf)
    (line : ∀ line tail, sep ∉ line → P tail → P (line ++ sep :: tail)) (stream : List α) :
    P stream := by
  induction hn : stream.length using Nat.strong_induction_on generalizing stream with
  | _ n ih =>
      by_cases hend : sep ∈ stream
      · obtain ⟨l, tail, rfl, hl⟩ := List.eq_append_cons_of_mem hend
        refine line l tail hl (ih tail.length ?_ tail rfl)
        simp at hn
        omega
      · exact rest stream hend

theorem notMem_rest (stream : List α) : sep ∉ rest sep stream := by
  induction stream using stream_induction sep with
  | rest buf hbuf => rwa [rest_of_notMem hbuf]
  | line line tail hline ih => rwa [rest_append_cons hline]

/-- More of a stream continues its rest. -/
theorem lines_append (stream chunk : List α) :
    lines sep (stream ++ chunk) = lines sep stream ++ lines sep (rest sep stream ++ chunk) := by
  induction stream using stream_induction sep with
  | rest buf hbuf => rw [lines_of_notMem hbuf, rest_of_notMem hbuf, List.nil_append]
  | line line tail hline ih =>
      rw [List.append_assoc, List.cons_append, lines_append_cons hline, ih, lines_append_cons hline,
        rest_append_cons hline, List.cons_append]

theorem rest_append (stream chunk : List α) :
    rest sep (stream ++ chunk) = rest sep (rest sep stream ++ chunk) := by
  induction stream using stream_induction sep with
  | rest buf hbuf => rw [rest_of_notMem hbuf]
  | line line tail hline ih =>
      rw [List.append_assoc, List.cons_append, rest_append_cons hline, ih, rest_append_cons hline]

theorem lines_of_part {part stream : List α} (h : part <+: stream) :
    lines sep part <+: lines sep stream := by
  obtain ⟨tail, rfl⟩ := h
  rw [lines_append]
  exact List.prefix_append _ _

/-- The stream of lines that are sent one after the other. -/
def join (sep : α) (ls : List (List α)) : List α := ls.flatMap (· ++ [sep])

omit [DecidableEq α] in
theorem join_append (ls ls' : List (List α)) : join sep (ls ++ ls') = join sep ls ++ join sep ls' :=
  List.flatMap_append

theorem lines_join {ls : List (List α)} (h : ∀ line ∈ ls, sep ∉ line) :
    lines sep (join sep ls) = ls := by
  induction ls with
  | nil => exact lines_of_notMem List.not_mem_nil
  | cons line ls ih =>
      obtain ⟨hline, hls⟩ := List.forall_mem_cons.mp h
      rw [join, List.flatMap_cons, List.append_assoc, List.singleton_append,
        lines_append_cons hline, ← join, ih hls]

end Lines

/-! ### The reader -/

/-- What has come since the last separator, and what was made of the lines before. -/
structure Reader (α σ : Type*) where
  buf : List α
  state : σ
  isOpen : Bool
  deriving DecidableEq

/-- The first line and what comes after its separator. -/
def cut (sep : α) : List α → Option (List α × List α)
  | [] => none
  | a :: l => if a = sep then some ([], l) else (cut sep l).map fun p => (a :: p.1, p.2)

/-- The loop over the lines of a buffer; `handle` says whether the loop goes on. -/
def drain (sep : α) (limit : ℕ) (handle : List α → σ → σ × Bool) :
    ℕ → List α → σ → Reader α σ
  | 0, buf, s => ⟨buf, s, true⟩
  | fuel + 1, buf, s =>
      match cut sep buf with
      | none => ⟨buf, s, buf.length ≤ limit⟩
      | some (line, tail) =>
          let (s, goesOn) := handle line s
          if goesOn then drain sep limit handle fuel tail s else ⟨tail, s, false⟩

/-- One more chunk; nothing arrives after the reader has closed. -/
def feed (sep : α) (limit : ℕ) (handle : List α → σ → σ × Bool) (r : Reader α σ)
    (chunk : List α) : Reader α σ :=
  if r.isOpen then
    drain sep limit handle ((r.buf ++ chunk).length + 1) (r.buf ++ chunk) r.state
  else r

theorem cut_of_notMem {buf : List α} (h : sep ∉ buf) : cut sep buf = none := by
  induction buf with
  | nil => rfl
  | cons a l ih =>
      rw [List.mem_cons, not_or] at h
      rw [cut, if_neg (Ne.symm h.1), ih h.2]
      rfl

theorem cut_append_cons {line tail : List α} (h : sep ∉ line) :
    cut sep (line ++ sep :: tail) = some (line, tail) := by
  induction line with
  | nil => rw [List.nil_append, cut, if_pos rfl]
  | cons a l ih =>
      rw [List.mem_cons, not_or] at h
      rw [List.cons_append, cut, if_neg (Ne.symm h.1), ih h.2]
      rfl

theorem eq_of_cut_eq_some {buf line tail : List α} (h : cut sep buf = some (line, tail)) :
    buf = line ++ sep :: tail := by
  induction buf generalizing line with
  | nil => cases h
  | cons a l ih =>
      unfold cut at h
      split at h
      · next ha =>
          cases h
          rw [ha, List.nil_append]
      · obtain ⟨⟨line', tail'⟩, hcut, heq⟩ := Option.map_eq_some_iff.mp h
        cases heq
        rw [ih hcut, List.cons_append]

/-- What every line preserves, given what the bytes of the stream are like, a chunk preserves. -/
theorem feed_invariant {handle : List α → σ → σ × Bool} {P : σ → Prop} {Q : α → Prop}
    (hstep : ∀ line s, (∀ a ∈ line, Q a) → P s → P (handle line s).1) {r : Reader α σ}
    {chunk : List α} (hbuf : ∀ a ∈ r.buf, Q a) (hchunk : ∀ a ∈ chunk, Q a) (hs : P r.state) :
    P (feed sep limit handle r chunk).state ∧
      ∀ a ∈ (feed sep limit handle r chunk).buf, Q a := by
  have hdrain : ∀ fuel buf s, (∀ a ∈ buf, Q a) → P s →
      P (drain sep limit handle fuel buf s).state ∧
        ∀ a ∈ (drain sep limit handle fuel buf s).buf, Q a := by
    intro fuel
    induction fuel with
    | zero => exact fun buf s hbuf hs => ⟨hs, hbuf⟩
    | succ fuel ih =>
        intro buf s hbuf hs
        unfold drain
        split
        · exact ⟨hs, hbuf⟩
        · next line tail hcut =>
            rw [eq_of_cut_eq_some hcut] at hbuf
            have hline : ∀ a ∈ line, Q a := fun a ha => hbuf a (List.mem_append_left _ ha)
            have htail : ∀ a ∈ tail, Q a := fun a ha =>
              hbuf a (List.mem_append_right _ (List.mem_cons_of_mem _ ha))
            dsimp only
            split
            · exact ih tail _ htail (hstep line s hline hs)
            · exact ⟨hstep line s hline hs, htail⟩
  unfold feed
  split
  · refine hdrain _ _ _ (fun a ha => ?_) hs
    exact (List.mem_append.mp ha).elim (hbuf a) (hchunk a)
  · exact ⟨hs, hbuf⟩

/-- Where no line ends the loop, a chunk is handled as the lines that it completes. -/
theorem feed_of_goesOn {handle : List α → σ → σ × Bool} {r : Reader α σ} {chunk : List α}
    (hopen : r.isOpen = true)
    (hgo : ∀ line ∈ lines sep (r.buf ++ chunk), ∀ s, (handle line s).2 = true) :
    feed sep limit handle r chunk =
      ⟨rest sep (r.buf ++ chunk),
        (lines sep (r.buf ++ chunk)).foldl (fun s line => (handle line s).1) r.state,
        decide ((rest sep (r.buf ++ chunk)).length ≤ limit)⟩ := by
  have hdrain : ∀ (stream : List α) (fuel : ℕ) (s : σ), stream.length < fuel →
      (∀ line ∈ lines sep stream, ∀ s, (handle line s).2 = true) →
      drain sep limit handle fuel stream s =
        ⟨rest sep stream, (lines sep stream).foldl (fun s line => (handle line s).1) s,
          decide ((rest sep stream).length ≤ limit)⟩ := by
    intro stream
    induction stream using stream_induction sep with
    | rest buf hbuf =>
        intro fuel s hfuel _
        obtain ⟨fuel, rfl⟩ := Nat.exists_eq_add_one_of_ne_zero (Nat.ne_zero_of_lt hfuel)
        rw [drain, cut_of_notMem hbuf, lines_of_notMem hbuf, rest_of_notMem hbuf]
        rfl
    | line line tail hline ih =>
        intro fuel s hfuel hgo
        obtain ⟨fuel, rfl⟩ := Nat.exists_eq_add_one_of_ne_zero (Nat.ne_zero_of_lt hfuel)
        have hless : tail.length < fuel := by
          simp only [List.length_append, List.length_cons] at hfuel
          omega
        rw [lines_append_cons hline] at hgo ⊢
        obtain ⟨hfirst, htail⟩ := List.forall_mem_cons.mp hgo
        rw [rest_append_cons hline, drain, cut_append_cons hline]
        dsimp only
        rw [if_pos (hfirst s), ih fuel _ hless htail, List.foldl_cons]
  rw [feed, if_pos hopen]
  exact hdrain _ _ _ (Nat.lt_succ_self _) hgo

/-! ### Collecting messages -/

section Collect

variable {parse : List α → Option β} {stream : List α}

/-- A line that is a message is kept, and any other closes. -/
def collect (parse : List α → Option β) (line : List α) (log : List β) : List β × Bool :=
  match parse line with
  | some m => (log ++ [m], true)
  | none => (log, false)

/-- The messages in front of the first line that is none. -/
def messages (parse : List α → Option β) (ls : List (List α)) : List β :=
  (ls.takeWhile fun line => (parse line).isSome).filterMap parse

omit [DecidableEq α] in
theorem messages_cons_some {line : List α} {m : β} (h : parse line = some m)
    (ls : List (List α)) : messages parse (line :: ls) = m :: messages parse ls := by
  simp [messages, h]

omit [DecidableEq α] in
theorem messages_cons_none {line : List α} (h : parse line = none) (ls : List (List α)) :
    messages parse (line :: ls) = [] := by
  simp [messages, h]

/-- The messages of a stream that is read as one chunk, and whether the reader is open after it. -/
def reading (sep : α) (limit : ℕ) (parse : List α → Option β) (stream : List α) :
    List β × Bool :=
  (messages parse (lines sep stream),
    (lines sep stream).all (fun line => (parse line).isSome) &&
      decide ((rest sep stream).length ≤ limit))

theorem drain_collect (sep : α) (limit : ℕ) (parse : List α → Option β) (log : List β) {fuel : ℕ}
    (hfuel : stream.length < fuel) :
    let r := drain sep limit (collect parse) fuel stream log
    r.state = log ++ (reading sep limit parse stream).1 ∧
      r.isOpen = (reading sep limit parse stream).2 ∧
      (r.isOpen = true → r.buf = rest sep stream) := by
  induction stream using stream_induction sep generalizing log fuel with
  | rest buf hbuf =>
      obtain ⟨fuel, rfl⟩ := Nat.exists_eq_add_one_of_ne_zero (Nat.ne_zero_of_lt hfuel)
      simp [drain, reading, cut_of_notMem hbuf, lines_of_notMem hbuf, rest_of_notMem hbuf, messages]
  | line line tail hline ih =>
      obtain ⟨fuel, rfl⟩ := Nat.exists_eq_add_one_of_ne_zero (Nat.ne_zero_of_lt hfuel)
      have hless : tail.length < fuel := by
        simp only [List.length_append, List.length_cons] at hfuel
        omega
      dsimp only
      rw [reading, lines_append_cons hline, rest_append_cons hline, drain, cut_append_cons hline]
      dsimp only
      cases hparse : parse line with
      | some m =>
          have hcollect : collect parse line log = (log ++ [m], true) := by rw [collect, hparse]
          obtain ⟨hstate, hopen, hbuf⟩ := ih (log ++ [m]) hless
          rw [hcollect, if_pos rfl, hstate, hopen, messages_cons_some hparse, List.all_cons, hparse]
          exact ⟨List.append_assoc _ _ _, rfl, fun h => hbuf (hopen.trans h)⟩
      | none =>
          have hcollect : collect parse line log = (log, false) := by rw [collect, hparse]
          rw [hcollect, if_neg Bool.false_ne_true, messages_cons_none hparse, List.all_cons, hparse]
          exact ⟨(List.append_nil _).symm, rfl, fun h => nomatch h⟩

/-! ### Lines over the limit -/

/-- The messages of lines within the limit. -/
def within (limit : ℕ) (parse : List α → Option β) (line : List α) : Option β :=
  if line.length ≤ limit then parse line else none

/-- No line over the limit is reached and accepted. -/
def Short (limit : ℕ) (parse : List α → Option β) (ls : List (List α)) : Prop :=
  ∀ line ∈ ls.takeWhile fun line => (parse line).isSome, line.length ≤ limit

section Short

omit [DecidableEq α]

variable {ls ls' : List (List α)}

theorem messages_within (h : Short limit parse ls) :
    messages parse ls = messages (within limit parse) ls ∧
      (ls.all fun line => (parse line).isSome) =
        ls.all fun line => (within limit parse line).isSome := by
  induction ls with
  | nil => exact ⟨rfl, rfl⟩
  | cons line ls ih =>
      cases hparse : parse line with
      | none =>
          have hwithin : within limit parse line = none := by simp [within, hparse]
          simp [messages_cons_none hparse, messages_cons_none hwithin, hparse, hwithin]
      | some m =>
          simp only [Short, List.takeWhile_cons, hparse, Option.isSome_some, if_true,
            List.forall_mem_cons] at h
          have hwithin : within limit parse line = some m := by rw [within, if_pos h.1, hparse]
          obtain ⟨hmessages, hall⟩ := ih h.2
          rw [messages_cons_some hparse, messages_cons_some hwithin, hmessages, List.all_cons,
            List.all_cons, hall, hparse, hwithin]
          exact ⟨rfl, rfl⟩

/-- A message of a line over the limit makes a difference. -/
theorem length_messages_within (h : ¬Short limit parse ls) :
    (messages (within limit parse) ls).length < (messages parse ls).length := by
  induction ls with
  | nil => exact absurd (fun line hline => nomatch hline) h
  | cons line ls ih =>
      cases hparse : parse line with
      | none =>
          refine absurd (fun line hline => ?_) h
          simp [hparse] at hline
      | some m =>
          rw [messages_cons_some hparse]
          by_cases hlimit : line.length ≤ limit
          · have hwithin : within limit parse line = some m := by rw [within, if_pos hlimit, hparse]
            have hrest : ¬Short limit parse ls := by
              intro hshort
              refine h ?_
              simpa [Short, hparse, hlimit] using hshort
            rw [messages_cons_some hwithin]
            exact Nat.succ_lt_succ (ih hrest)
          · have hwithin : within limit parse line = none := by rw [within, if_neg hlimit]
            rw [messages_cons_none hwithin]
            exact Nat.succ_pos _

theorem messages_append (h : (ls.all fun line => (parse line).isSome) = true) :
    messages parse (ls ++ ls') = messages parse ls ++ messages parse ls' := by
  induction ls with
  | nil => rfl
  | cons line ls ih =>
      rw [List.all_cons, Bool.and_eq_true] at h
      obtain ⟨m, hparse⟩ := Option.isSome_iff_exists.mp h.1
      rw [List.cons_append, messages_cons_some hparse, messages_cons_some hparse, ih h.2,
        List.cons_append]

theorem messages_append_of_not_all (h : (ls.all fun line => (parse line).isSome) = false) :
    messages parse (ls ++ ls') = messages parse ls := by
  induction ls with
  | nil => cases h
  | cons line ls ih =>
      cases hparse : parse line with
      | none => rw [List.cons_append, messages_cons_none hparse, messages_cons_none hparse]
      | some m =>
          rw [List.all_cons, hparse, Option.isSome_some, Bool.true_and] at h
          rw [List.cons_append, messages_cons_some hparse, messages_cons_some hparse, ih h]

theorem Short.left (h : Short limit parse (ls ++ ls')) : Short limit parse ls := by
  intro line hline
  refine h line ?_
  rw [List.takeWhile_append]
  split
  · exact List.mem_append_left _ (List.takeWhile_subset _ hline)
  · exact hline

theorem Short.right (h : Short limit parse (ls ++ ls'))
    (hall : ∀ line ∈ ls, (parse line).isSome = true) : Short limit parse ls' := by
  intro line hline
  refine h line ?_
  rw [List.takeWhile_append_of_pos hall]
  exact List.mem_append_right _ hline

theorem isSome_of_within {line : List α} (h : (within limit parse line).isSome = true) :
    (parse line).isSome = true := by
  unfold within at h
  split at h
  · exact h
  · cases h

end Short

/-! ### Chunks -/

theorem reading_within (h : Short limit parse (lines sep stream)) :
    reading sep limit parse stream = reading sep limit (within limit parse) stream := by
  obtain ⟨hmessages, hall⟩ := messages_within h
  rw [reading, hmessages, hall, reading]

theorem reading_append (chunk : List α) (h : (reading sep limit parse stream).2 = true) :
    reading sep limit parse (stream ++ chunk) =
      ((reading sep limit parse stream).1 ++
          (reading sep limit parse (rest sep stream ++ chunk)).1,
        (reading sep limit parse (rest sep stream ++ chunk)).2) := by
  have hall := (Bool.and_eq_true_iff.mp h).1
  rw [reading, lines_append, rest_append, messages_append hall, List.all_append, hall,
    Bool.true_and]
  rfl

/-- What is kept over the limit refuses the line it becomes, and closes if it stays. -/
theorem reading_of_long {buf : List α} (hbuf : sep ∉ buf) (hlong : limit < buf.length)
    (parse : List α → Option β) (chunk : List α) :
    reading sep limit (within limit parse) (buf ++ chunk) = ([], false) := by
  by_cases hend : sep ∈ chunk
  · obtain ⟨l, tail, rfl, hl⟩ := List.eq_append_cons_of_mem hend
    have hline : sep ∉ buf ++ l := fun hmem => (List.mem_append.mp hmem).elim hbuf hl
    have hrefused : within limit parse (buf ++ l) = none := by
      rw [within, if_neg]
      rw [List.length_append]
      omega
    rw [← List.append_assoc, reading, lines_append_cons hline, messages_cons_none hrefused,
      List.all_cons, hrefused]
    rfl
  · have hall : sep ∉ buf ++ chunk := fun hmem => (List.mem_append.mp hmem).elim hbuf hend
    have hover : ¬(buf ++ chunk).length ≤ limit := by
      rw [List.length_append]
      omega
    rw [reading, lines_of_notMem hall, rest_of_notMem hall, decide_eq_false hover, Bool.and_false]
    rfl

/-- What closed a reader that holds every line against the limit closes it for good. -/
theorem reading_append_of_closed (chunk : List α)
    (h : (reading sep limit (within limit parse) stream).2 = false) :
    reading sep limit (within limit parse) (stream ++ chunk) =
      reading sep limit (within limit parse) stream := by
  cases hall : (lines sep stream).all fun line => (within limit parse line).isSome with
  | false =>
      rw [reading, reading, lines_append, messages_append_of_not_all hall, List.all_append, hall]
      rfl
  | true =>
      have hlong : limit < (rest sep stream).length := by
        rw [reading, hall, Bool.true_and, decide_eq_false_iff_not, Nat.not_le] at h
        exact h
      have hrest := reading_of_long (notMem_rest stream) hlong parse chunk
      rw [reading, Prod.mk.injEq] at hrest
      rw [reading, reading, lines_append, messages_append hall, rest_append, hrest.1,
        List.append_nil, List.all_append, hall, Bool.true_and, Bool.true_and, hrest.2]
      rw [decide_eq_false (Nat.not_le.mpr hlong)]

/-- The reader has made of a stream what it should, lines over the limit refused. -/
structure Follows (sep : α) (limit : ℕ) (parse : List α → Option β) (r : Reader α (List β))
    (stream : List α) : Prop where
  state : r.state = (reading sep limit (within limit parse) stream).1
  isOpen : r.isOpen = (reading sep limit (within limit parse) stream).2
  buf : r.isOpen = true → r.buf = rest sep stream

theorem Follows.feed {r : Reader α (List β)} (h : Follows sep limit parse r stream)
    {chunk : List α}
    (hshort : r.isOpen = true → Short limit parse (lines sep (rest sep stream ++ chunk))) :
    Follows sep limit parse (feed sep limit (collect parse) r chunk) (stream ++ chunk) := by
  cases hopen : r.isOpen with
  | false =>
      have hclosed := reading_append_of_closed chunk (h.isOpen.symm.trans hopen)
      rw [LineReader.feed, hopen, if_neg Bool.false_ne_true]
      exact ⟨hclosed ▸ h.state, hclosed ▸ h.isOpen, fun hr => nomatch hopen.symm.trans hr⟩
  | true =>
      obtain ⟨hstate, hisOpen, hbuf⟩ := drain_collect sep limit parse
        (reading sep limit (within limit parse) stream).1
        (Nat.lt_succ_self (rest sep stream ++ chunk).length)
      rw [reading_within (hshort hopen)] at hstate hisOpen
      have happend := reading_append chunk (h.isOpen.symm.trans hopen)
      rw [LineReader.feed, hopen, if_pos rfl, h.buf hopen, h.state]
      refine ⟨?_, ?_, fun hr => ?_⟩
      · rw [happend, hstate]
      · rw [happend, hisOpen]
      · rw [hbuf hr]
        exact (rest_append stream chunk).symm

/-! ### How the stream is cut -/

/-- The messages of a stream that comes in these chunks, and whether the reader is open then. -/
def outcome (sep : α) (limit : ℕ) (parse : List α → Option β) (chunks : List (List α)) :
    List β × Bool :=
  let r := chunks.foldl (feed sep limit (collect parse)) ⟨[], [], true⟩
  (r.state, r.isOpen)

theorem follows_foldl {chunks : List (List α)}
    (hshort : ∀ front chunk back, chunks = front ++ chunk :: back →
      (reading sep limit (within limit parse) front.flatten).2 = true →
      Short limit parse (lines sep (rest sep front.flatten ++ chunk))) :
    Follows sep limit parse (chunks.foldl (feed sep limit (collect parse)) ⟨[], [], true⟩)
      chunks.flatten := by
  induction chunks using List.reverseRecOn with
  | nil => exact ⟨rfl, rfl, fun _ => rfl⟩
  | append_singleton chunks chunk ih =>
      have hfollows := ih fun front c back heq => hshort front c (back ++ [chunk]) (by simp [heq])
      rw [List.foldl_append, List.flatten_append, List.flatten_singleton]
      exact hfollows.feed fun hopen => hshort chunks chunk [] rfl (hfollows.isOpen ▸ hopen)

theorem outcome_eq_reading {chunks : List (List α)}
    (h : Short limit parse (lines sep chunks.flatten)) :
    outcome sep limit parse chunks = reading sep limit (within limit parse) chunks.flatten := by
  have hfollows : Follows sep limit parse
      (chunks.foldl (feed sep limit (collect parse)) ⟨[], [], true⟩) chunks.flatten := by
    refine follows_foldl fun front chunk back heq hopen => ?_
    have hlines : lines sep chunks.flatten =
        lines sep front.flatten ++ (lines sep (rest sep front.flatten ++ chunk) ++
          lines sep (rest sep (front.flatten ++ chunk) ++ back.flatten)) := by
      rw [heq, List.flatten_append, List.flatten_cons, ← List.append_assoc, lines_append,
        lines_append, List.append_assoc]
    rw [hlines] at h
    refine (h.right fun line hline => ?_).left
    exact isSome_of_within (List.all_eq_true.mp (Bool.and_eq_true_iff.mp hopen).1 line hline)
  exact Prod.ext hfollows.state hfollows.isOpen

omit [DecidableEq α] in
theorem flatten_singletons (stream : List α) : (stream.map fun a => [a]).flatten = stream := by
  rw [← List.flatMap_def, List.flatMap_singleton']

/-- One at a time, every line is held against the limit. -/
theorem outcome_singletons (stream : List α) :
    outcome sep limit parse (stream.map fun a => [a]) =
      reading sep limit (within limit parse) stream := by
  have hfollows : Follows sep limit parse
      ((stream.map fun a => [a]).foldl (feed sep limit (collect parse)) ⟨[], [], true⟩)
      (stream.map fun a => [a]).flatten := by
    refine follows_foldl fun front chunk back heq hopen => ?_
    have hchunk : chunk ∈ stream.map fun a => [a] := by
      rw [heq]
      exact List.mem_append_right _ List.mem_cons_self
    obtain ⟨a, -, rfl⟩ := List.mem_map.mp hchunk
    have hrest : sep ∉ rest sep front.flatten := notMem_rest front.flatten
    have hlimit : (rest sep front.flatten).length ≤ limit :=
      of_decide_eq_true (Bool.and_eq_true_iff.mp hopen).2
    by_cases ha : a = sep
    · intro line hline
      subst ha
      have hmem := List.takeWhile_subset _ hline
      rw [lines_append_cons hrest] at hmem
      rcases List.mem_cons.mp hmem with rfl | hmem
      · exact hlimit
      · cases hmem
    · have hnone : sep ∉ rest sep front.flatten ++ [a] := by
        simp [hrest, Ne.symm ha]
      rw [lines_of_notMem hnone]
      exact fun line hline => nomatch hline
  rw [flatten_singletons] at hfollows
  exact Prod.ext hfollows.state hfollows.isOpen

theorem outcome_singleton (stream : List α) :
    outcome sep limit parse [stream] = reading sep limit parse stream := by
  obtain ⟨hstate, hisOpen, -⟩ :=
    drain_collect sep limit parse [] (Nat.lt_succ_self ([] ++ stream).length)
  exact Prod.ext hstate hisOpen

/-- What is made of a stream is the same however it is cut, exactly if no line over the limit
would be accepted. -/
theorem outcome_agree_iff (sep : α) (limit : ℕ) (parse : List α → Option β) (stream : List α) :
    (∀ chunks chunks' : List (List α), chunks.flatten = stream → chunks'.flatten = stream →
        outcome sep limit parse chunks = outcome sep limit parse chunks') ↔
      Short limit parse (lines sep stream) := by
  constructor
  · intro hagree
    by_contra hlong
    have heq := hagree [stream] (stream.map fun a => [a]) List.flatten_singleton
      (flatten_singletons stream)
    rw [outcome_singleton, outcome_singletons, reading, reading, Prod.mk.injEq] at heq
    have hless := length_messages_within hlong
    rw [heq.1] at hless
    exact Nat.lt_irrefl _ hless
  · rintro hshort chunks chunks' rfl heq
    rw [outcome_eq_reading hshort, outcome_eq_reading (heq ▸ hshort), heq]

end Collect

end MaglevLb.LineReader
