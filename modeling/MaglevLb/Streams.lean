import MaglevLb.EventRun
import MaglevLb.IndexedLists
import Mathlib.Data.NNRat.Defs
import Mathlib.Data.List.Basic
import Mathlib.Algebra.Order.Ring.Rat
import Mathlib.Tactic.Linarith

/-!
# Streams of snapshots

`Publisher` of the bridge and the handler threads that are in `_stream`. The loop thread
publishes; every handler thread waits for a sequence number other than the one it has written
last. A semaphore admits four threads. Operations under the publisher's lock are one step each,
the threads' steps come in any order, and `closing` is read without the lock.
-/
namespace MaglevLb.Streams

def maxStreams : ℕ := 4

variable {Body : Type*}

/-- `published` and `counts` are for statements only: what was published under each number, and
the number of streams with the time of every change. -/
structure Publisher (Body : Type*) where
  seq : ℕ
  body : Body
  streams : ℤ
  lastStreamSeen : ℚ
  closing : Bool
  published : List Body
  counts : List (ℚ × ℤ)

namespace Publisher

def init (body : Body) (now : ℚ) : Publisher Body := ⟨0, body, 0, now, false, [body], [(now, 0)]⟩

def publish (body : Body) (p : Publisher Body) : Publisher Body :=
  { p with seq := p.seq + 1, body := body, published := p.published ++ [body] }

/-- What `wait_newer` returns; nothing while it waits. -/
def waitNewer (p : Publisher Body) (seq : Option ℕ) (timedOut : Bool) : Option (ℕ × Body) :=
  if some p.seq ≠ seq ∨ p.closing = true ∨ timedOut = true then some (p.seq, p.body) else none

def streamCount (delta : ℤ) (now : ℚ) (p : Publisher Body) : Publisher Body :=
  { p with
    streams := p.streams + delta
    lastStreamSeen := now
    counts := p.counts ++ [(now, p.streams + delta)] }

def secondsWithoutStreams (p : Publisher Body) (now : ℚ) : ℚ :=
  if 0 < p.streams then 0 else now - p.lastStreamSeen

def close (p : Publisher Body) : Publisher Body := { p with closing := true }

end Publisher

/-- Where a handler thread is. -/
inductive Stage (Body : Type*) where
  | admitted
  | counted
  | looping
  | waiting
  | woken (seq : ℕ) (body : Body)
  | writing (seq : ℕ) (body : Body)
  | leaving
  | uncounted
  | gone

/-- `seq` is `none` for `-1`. `sent` is for statements only: the snapshots that were written. -/
structure Stream (Body : Type*) where
  stage : Stage Body
  seq : Option ℕ
  sent : List (ℕ × Body)

namespace Stream

def init : Stream Body := ⟨.admitted, none, []⟩

def goto (t : Stream Body) (stage : Stage Body) : Stream Body := { t with stage := stage }

/-- A keepalive if the number is the old one, else the snapshot. -/
def write (t : Stream Body) (seq : ℕ) (body : Body) (fails : Bool) : Stream Body :=
  if some seq = t.seq then t.goto (if fails then .leaving else .looping)
  else if fails then ⟨.leaving, some seq, t.sent⟩
  else ⟨.looping, some seq, t.sent ++ [(seq, body)]⟩

end Stream

structure System (Body : Type*) where
  pub : Publisher Body
  slots : ℕ
  threads : List (Stream Body)
  clock : ℚ

/-- `BoundedSemaphore.release` raises rather than exceed its first value. -/
def release (slots : ℕ) : Option ℕ := if slots < maxStreams then some (slots + 1) else none

/-- The next operation of a thread. -/
def advance (pub : Publisher Body) (slots : ℕ) (now : ℚ) (fails timedOut : Bool)
    (t : Stream Body) : Option (Publisher Body × ℕ × Stream Body) :=
  match t.stage with
  | .admitted => some (pub.streamCount 1 now, slots, t.goto .counted)
  | .counted => some (pub, slots, t.goto (if fails then .leaving else .looping))
  | .looping => some (pub, slots, t.goto (if pub.closing then .leaving else .waiting))
  | .waiting =>
      match pub.waitNewer t.seq timedOut with
      | none => some (pub, slots, t)
      | some (seq, body) => some (pub, slots, t.goto (.woken seq body))
  | .woken seq body =>
      some (pub, slots, t.goto (if pub.closing then .leaving else .writing seq body))
  | .writing seq body => some (pub, slots, t.write seq body fails)
  | .leaving => some (pub.streamCount (-1) now, slots, t.goto .uncounted)
  | .uncounted => (release slots).map fun slots => (pub, slots, t.goto .gone)
  | .gone => some (pub, slots, t)

/-- `fails`: a write raises. `timedOut`: the wait has lasted as long as it may. -/
inductive Event (Body : Type*) where
  | enter
  | turn (k : ℕ) (fails timedOut : Bool)
  | publish (body : Body)
  | close
  | pass (d : ℚ≥0)

namespace System

def init (body : Body) (start : ℚ) : System Body := ⟨.init body start, maxStreams, [], start⟩

/-- A thread that gets no place answers that there are enough streams. -/
def enter (s : System Body) : System Body :=
  if 0 < s.slots then { s with slots := s.slots - 1, threads := s.threads ++ [.init] } else s

def turn (k : ℕ) (fails timedOut : Bool) (s : System Body) : Option (System Body) :=
  match s.threads[k]? with
  | none => some s
  | some t =>
      (advance s.pub s.slots s.clock fails timedOut t).map fun (pub, slots, t) =>
        { s with pub := pub, slots := slots, threads := s.threads.set k t }

end System

def next (s : System Body) : Event Body → Option (System Body)
  | .enter => some s.enter
  | .turn k fails timedOut => s.turn k fails timedOut
  | .publish body => some { s with pub := s.pub.publish body }
  | .close => some { s with pub := s.pub.close }
  | .pass d => some { s with clock := s.clock + d }

def run (s : System Body) (es : List (Event Body)) : Option (System Body) := es.foldlM next s

/-! ### One thread -/

/-- The thread has a place. -/
def Stream.holds (t : Stream Body) : Bool :=
  match t.stage with
  | .gone => false
  | _ => true

/-- The thread is among the streams that the publisher counts. -/
def Stream.isCounted (t : Stream Body) : Bool :=
  match t.stage with
  | .admitted | .uncounted | .gone => false
  | _ => true

/-- No write of the thread has failed. -/
def Stage.going : Stage Body → Bool
  | .leaving | .uncounted | .gone => false
  | _ => true

/-- A snapshot that the thread has been given and not written yet. -/
def Stage.held : Stage Body → Option (ℕ × Body)
  | .woken seq body | .writing seq body => some (seq, body)
  | _ => none

/-- What the thread has written is what was published, in order. -/
structure Faithful (pub : Publisher Body) (t : Stream Body) : Prop where
  increasing : (t.sent.map Prod.fst).Pairwise (· < ·)
  exact : ∀ e ∈ t.sent, pub.published[e.1]? = some e.2
  covered : ∀ e ∈ t.sent, ∃ n ∈ t.seq, e.1 ≤ n
  last : t.stage.going = true → t.seq = t.sent.getLast?.map Prod.fst
  bound : ∀ n ∈ t.seq, n ≤ pub.seq
  given : ∀ e ∈ t.stage.held, pub.published[e.1]? = some e.2 ∧ e.1 ≤ pub.seq ∧ ∀ n ∈ t.seq, n ≤ e.1

structure Current (pub : Publisher Body) : Prop where
  latest : pub.published[pub.seq]? = some pub.body
  length : pub.published.length = pub.seq + 1

section Thread

variable {pub pub' : Publisher Body} {slots slots' : ℕ} {now : ℚ} {fails timedOut : Bool}
  {t t' : Stream Body}

theorem Faithful.goto (h : Faithful pub t) {stage : Stage Body}
    (hgoing : stage.going = true → t.stage.going = true)
    (hheld : ∀ e ∈ stage.held, pub.published[e.1]? = some e.2 ∧ e.1 ≤ pub.seq ∧
      ∀ n ∈ t.seq, n ≤ e.1) :
    Faithful pub (t.goto stage) :=
  ⟨h.increasing, h.exact, h.covered, fun hg => h.last (hgoing hg), h.bound, hheld⟩

theorem Faithful.init : Faithful pub Stream.init where
  increasing := .nil
  exact := fun _ he => absurd he List.not_mem_nil
  covered := fun _ he => absurd he List.not_mem_nil
  last := fun _ => rfl
  bound := nofun
  given := nofun

/-- More may have been published since. -/
theorem Faithful.mono (h : Faithful pub t) (hpub : pub.published <+: pub'.published)
    (hseq : pub.seq ≤ pub'.seq) : Faithful pub' t where
  increasing := h.increasing
  exact := fun e he => IndexedLists.getElem?_of_prefix hpub (h.exact e he)
  covered := h.covered
  last := h.last
  bound := fun n hn => (h.bound n hn).trans hseq
  given := fun e he =>
    have hgiven := h.given e he
    ⟨IndexedLists.getElem?_of_prefix hpub hgiven.1, hgiven.2.1.trans hseq, hgiven.2.2⟩

theorem Faithful.write (h : Faithful pub t) {seq : ℕ} {body : Body}
    (hstage : t.stage = .writing seq body) (fails : Bool) :
    Faithful pub (t.write seq body fails) := by
  have hgoing : t.stage.going = true := by rw [hstage]; rfl
  obtain ⟨hbody, hle, hnewer⟩ := h.given (seq, body) (by rw [hstage]; rfl)
  have hbound : ∀ n ∈ some seq, n ≤ pub.seq := fun n hn => Option.some.inj hn ▸ hle
  have hcovered : ∀ e ∈ t.sent, e.1 ≤ seq := fun e he => by
    obtain ⟨n, hn, hen⟩ := h.covered e he
    exact hen.trans (hnewer n hn)
  unfold Stream.write
  split
  · cases fails with
    | true => exact h.goto nofun nofun
    | false => exact h.goto (fun _ => hgoing) nofun
  · next hne =>
      cases fails with
      | true =>
          exact ⟨h.increasing, h.exact, fun e he => ⟨seq, rfl, hcovered e he⟩, nofun, hbound, nofun⟩
      | false =>
          have hearlier : ∀ e ∈ t.sent, e.1 < seq := fun e he => by
            obtain ⟨n, hn, hen⟩ := h.covered e he
            refine hen.trans_lt ((hnewer n hn).lt_of_ne ?_)
            rintro rfl
            exact hne hn.symm
          rw [if_neg Bool.false_ne_true]
          refine ⟨?_, ?_, ?_, fun _ => ?_, hbound, nofun⟩
          · rw [List.map_append, List.pairwise_append]
            refine ⟨h.increasing, List.pairwise_singleton _ _, ?_⟩
            intro n hn m hm
            obtain ⟨e, he, rfl⟩ := List.mem_map.mp hn
            obtain rfl := List.mem_singleton.mp hm
            exact hearlier e he
          · exact List.forall_mem_append.mpr ⟨h.exact, List.forall_mem_singleton.mpr hbody⟩
          · refine List.forall_mem_append.mpr ⟨fun e he => ⟨seq, rfl, hcovered e he⟩, ?_⟩
            exact List.forall_mem_singleton.mpr ⟨seq, rfl, le_rfl⟩
          · rw [List.getLast?_concat]
            rfl

/-- What a thread does to the shared state: it counts itself in or out, gives its place back, or
leaves it alone. -/
inductive Change (pub : Publisher Body) (slots : ℕ) (now : ℚ) (t t' : Stream Body) :
    Publisher Body → ℕ → Prop where
  | countIn : t.isCounted = false → t'.isCounted = true → t.holds = true → t'.holds = true →
      Change pub slots now t t' (pub.streamCount 1 now) slots
  | countOut : t.isCounted = true → t'.isCounted = false → t.holds = true → t'.holds = true →
      Change pub slots now t t' (pub.streamCount (-1) now) slots
  | giveBack : t.isCounted = false → t'.isCounted = false → t.holds = true → t'.holds = false →
      slots < maxStreams → Change pub slots now t t' pub (slots + 1)
  | same : t'.isCounted = t.isCounted → t'.holds = t.holds → Change pub slots now t t' pub slots

theorem advance_change (h : advance pub slots now fails timedOut t = some (pub', slots', t')) :
    Change pub slots now t t' pub' slots' := by
  obtain ⟨stage, seq, sent⟩ := t
  cases stage with
  | admitted =>
      cases h
      exact .countIn rfl rfl rfl rfl
  | counted =>
      cases h
      cases fails <;> exact .same rfl rfl
  | looping =>
      cases h
      cases hc : pub.closing <;> exact .same rfl rfl
  | waiting =>
      simp only [advance] at h
      split at h <;> cases h <;> exact .same rfl rfl
  | woken =>
      cases h
      cases hc : pub.closing <;> exact .same rfl rfl
  | writing n body =>
      cases h
      simp only [Stream.write]
      cases fails <;> split <;> exact .same rfl rfl
  | leaving =>
      cases h
      exact .countOut rfl rfl rfl rfl
  | uncounted =>
      obtain ⟨slots₁, hslots, heq⟩ := Option.map_eq_some_iff.mp h
      cases heq
      unfold release at hslots
      split at hslots
      · next hlt =>
          cases hslots
          exact .giveBack rfl rfl rfl rfl hlt
      · cases hslots
  | gone =>
      cases h
      exact .same rfl rfl

theorem Change.published (h : Change pub slots now t t' pub' slots') :
    pub'.published = pub.published ∧ pub'.seq = pub.seq ∧ pub'.body = pub.body ∧
      pub'.closing = pub.closing := by
  cases h <;> exact ⟨rfl, rfl, rfl, rfl⟩

theorem advance_faithful (hpub : Current pub) (h : Faithful pub t)
    (ha : advance pub slots now fails timedOut t = some (pub', slots', t')) :
    Faithful pub t' := by
  cases hstage : t.stage with
  | admitted =>
      simp only [advance, hstage] at ha
      cases ha
      exact h.goto (fun _ => by rw [hstage]; rfl) nofun
  | counted =>
      simp only [advance, hstage] at ha
      cases ha
      cases fails <;> exact h.goto (fun _ => by rw [hstage]; rfl) nofun
  | looping =>
      simp only [advance, hstage] at ha
      cases ha
      cases hc : pub.closing <;> exact h.goto (fun _ => by rw [hstage]; rfl) nofun
  | waiting =>
      simp only [advance, hstage] at ha
      split at ha
      · cases ha
        exact h
      · next seq body hnew =>
          cases ha
          unfold Publisher.waitNewer at hnew
          split at hnew
          · cases hnew
            refine h.goto (fun _ => by rw [hstage]; rfl) fun e he => ?_
            cases he
            exact ⟨hpub.latest, le_rfl, h.bound⟩
          · cases hnew
  | woken seq body =>
      simp only [advance, hstage] at ha
      cases ha
      have hheld : t.stage.held = some (seq, body) := by rw [hstage]; rfl
      cases hc : pub.closing with
      | true => exact h.goto nofun nofun
      | false => exact h.goto (fun _ => by rw [hstage]; rfl) fun e he => h.given e (hheld ▸ he)
  | writing seq body =>
      simp only [advance, hstage] at ha
      cases ha
      exact h.write hstage fails
  | leaving =>
      simp only [advance, hstage] at ha
      cases ha
      exact h.goto nofun nofun
  | uncounted =>
      simp only [advance, hstage] at ha
      obtain ⟨slots₁, -, heq⟩ := Option.map_eq_some_iff.mp ha
      cases heq
      exact h.goto nofun nofun
  | gone =>
      simp only [advance, hstage] at ha
      cases ha
      exact h

end Thread

/-! ### The whole system -/

/-- The semaphore and the publisher's counter are exact. -/
structure Sound (s : System Body) : Prop where
  places : s.slots + s.threads.countP Stream.holds = maxStreams
  streams : s.pub.streams = s.threads.countP Stream.isCounted
  current : Current s.pub
  faithful : ∀ t ∈ s.threads, Faithful s.pub t

section Runs

variable {s s' : System Body}

theorem init_sound (body : Body) (start : ℚ) : Sound (System.init body start) :=
  ⟨rfl, rfl, ⟨rfl, rfl⟩, fun _ ht => absurd ht List.not_mem_nil⟩

theorem Sound.enter (h : Sound s) : Sound s.enter := by
  unfold System.enter
  split
  · next hpos =>
      refine ⟨?_, ?_, h.current, ?_⟩
      · have hplaces := h.places
        rw [List.countP_append]
        simp only [List.countP_singleton, Stream.holds, Stream.init, if_true]
        omega
      · rw [List.countP_append]
        exact h.streams
      · exact List.forall_mem_append.mpr ⟨h.faithful, List.forall_mem_singleton.mpr .init⟩
  · exact h

theorem turn_cases {k : ℕ} {fails timedOut : Bool} (h : s.turn k fails timedOut = some s') :
    s.threads[k]? = none ∧ s' = s ∨
      ∃ t pub slots t', s.threads[k]? = some t ∧
        advance s.pub s.slots s.clock fails timedOut t = some (pub, slots, t') ∧
        s' = ⟨pub, slots, s.threads.set k t', s.clock⟩ := by
  unfold System.turn at h
  split at h
  · next hk =>
      cases h
      exact .inl ⟨hk, rfl⟩
  · next t hk =>
      obtain ⟨⟨pub, slots, t'⟩, ha, rfl⟩ := Option.map_eq_some_iff.mp h
      exact .inr ⟨t, pub, slots, t', hk, ha, rfl⟩

theorem Sound.turn (h : Sound s) {k : ℕ} {fails timedOut : Bool}
    (ht : s.turn k fails timedOut = some s') : Sound s' := by
  obtain ⟨-, rfl⟩ | ⟨t, pub, slots, t', hk, ha, rfl⟩ := turn_cases ht
  · exact h
  have hchange := advance_change ha
  have hfaithful := advance_faithful h.current (h.faithful t (List.mem_of_getElem? hk)) ha
  obtain ⟨hpublished, hseq, hbody, -⟩ := hchange.published
  have hholds := IndexedLists.countP_set_add Stream.holds hk t'
  have hcounted := IndexedLists.countP_set_add Stream.isCounted hk t'
  have hplaces := h.places
  have hstreams := h.streams
  refine ⟨?_, ?_, ?_, ?_⟩
  · cases hchange with
    | countIn _ _ hh hh' | countOut _ _ hh hh' | giveBack _ _ hh hh' =>
        simp only [hh, hh', Bool.toNat_true, Bool.toNat_false] at hholds
        dsimp only
        omega
    | same _ hh =>
        rw [hh] at hholds
        dsimp only
        omega
  · cases hchange with
    | countIn hc hc' | countOut hc hc' =>
        simp only [hc, hc', Bool.toNat_true, Bool.toNat_false] at hcounted
        dsimp only [Publisher.streamCount]
        omega
    | giveBack hc hc' =>
        simp only [hc, hc', Bool.toNat_false] at hcounted
        dsimp only
        omega
    | same hc =>
        rw [hc] at hcounted
        dsimp only
        omega
  · exact ⟨by rw [hpublished, hseq, hbody]; exact h.current.latest,
      by rw [hpublished, hseq]; exact h.current.length⟩
  · intro u hu
    have hmono : ∀ u, Faithful s.pub u → Faithful pub u := fun u hu =>
      hu.mono (hpublished ▸ List.prefix_rfl) hseq.ge
    rcases List.mem_or_eq_of_mem_set hu with hold | rfl
    · exact hmono u (h.faithful u hold)
    · exact hmono u hfaithful

theorem Sound.publish (h : Sound s) (body : Body) :
    Sound { s with pub := s.pub.publish body } := by
  refine ⟨h.places, h.streams, ⟨?_, ?_⟩, fun t ht => ?_⟩
  · dsimp only [Publisher.publish]
    rw [← h.current.length, List.getElem?_concat_length]
  · dsimp only [Publisher.publish]
    rw [List.length_append, h.current.length, List.length_singleton]
  · exact (h.faithful t ht).mono (List.prefix_append _ _) (Nat.le_succ _)

theorem next_sound {e : Event Body} (h : Sound s) (hn : next s e = some s') : Sound s' := by
  cases e with
  | enter =>
      cases hn
      exact h.enter
  | turn k fails timedOut => exact h.turn hn
  | publish body =>
      cases hn
      exact h.publish body
  | close =>
      cases hn
      exact ⟨h.places, h.streams, ⟨h.current.latest, h.current.length⟩,
        fun t ht => (h.faithful t ht).mono List.prefix_rfl le_rfl⟩
  | pass d =>
      cases hn
      exact ⟨h.places, h.streams, h.current, h.faithful⟩

/-- The semaphore never raises. -/
theorem next_isSome (h : Sound s) (e : Event Body) : (next s e).isSome := by
  cases e with
  | turn k fails timedOut =>
      simp only [next, System.turn]
      split
      · rfl
      · next t hk =>
          rw [Option.isSome_map]
          obtain ⟨stage, seq, sent⟩ := t
          cases stage with
          | waiting =>
              simp only [advance]
              split <;> rfl
          | uncounted =>
              have hholds : 0 < s.threads.countP Stream.holds :=
                List.countP_pos_iff.mpr ⟨_, List.mem_of_getElem? hk, rfl⟩
              have hplaces := h.places
              simp only [advance, Option.isSome_map, release]
              rw [if_pos (by omega)]
              rfl
          | admitted | counted | looping | woken | writing | leaving | gone => rfl
  | enter | publish | close | pass => rfl

theorem run_sound (h : Sound s) (es : List (Event Body)) :
    ∃ s', run s es = some s' ∧ Sound s' := by
  refine EventRun.exists_run (fun h e => ?_) h es
  obtain ⟨s₁, hs₁⟩ := Option.isSome_iff_exists.mp (next_isSome h e)
  exact ⟨s₁, hs₁, next_sound h hs₁⟩

/-- A thread that has to wait has written the latest snapshot. -/
theorem Faithful.caught_up {pub : Publisher Body} {t : Stream Body} (hpub : Current pub)
    (h : Faithful pub t) (hstage : t.stage = .waiting) (hwait : pub.waitNewer t.seq false = none) :
    t.sent.getLast? = some (pub.seq, pub.body) := by
  unfold Publisher.waitNewer at hwait
  split at hwait
  · cases hwait
  · next hsame =>
      have hseq : some pub.seq = t.seq := by
        by_contra hne
        exact hsame (.inl hne)
      rw [h.last (by rw [hstage]; rfl)] at hseq
      obtain ⟨⟨seq, body⟩, he, hfst⟩ := Option.map_eq_some_iff.mp hseq.symm
      have hexact := h.exact _ (List.mem_of_getLast? he)
      cases hfst
      rw [hpub.latest, Option.some.injEq] at hexact
      rw [he, hexact]

/-- What was published, in order. -/
def publications : List (Event Body) → List Body :=
  List.filterMap fun
    | .publish body => some body
    | _ => none

theorem next_published {e : Event Body} (h : next s e = some s') :
    s'.pub.published = s.pub.published ++ publications [e] := by
  cases e with
  | enter =>
      cases h
      rw [System.enter]
      split <;> exact (List.append_nil _).symm
  | turn k fails timedOut =>
      refine Eq.trans ?_ (List.append_nil _).symm
      obtain ⟨-, rfl⟩ | ⟨t, pub, slots, t', -, ha, rfl⟩ := turn_cases h
      · rfl
      · exact (advance_change ha).published.1
  | publish body =>
      cases h
      rfl
  | close | pass =>
      cases h
      exact (List.append_nil _).symm

theorem run_published {es : List (Event Body)} (h : run s es = some s') :
    s'.pub.published = s.pub.published ++ publications es := by
  induction es generalizing s with
  | nil =>
      cases h
      exact (List.append_nil _).symm
  | cons e es ih =>
      rw [run, List.foldlM_cons] at h
      obtain ⟨s₁, he, hes⟩ := Option.bind_eq_some_iff.mp h
      rw [ih hes, next_published he, List.append_assoc, publications, ← List.filterMap_append]
      rfl

/-- Whatever the order in which the threads, the loop thread and the clock go on: the semaphore
never raises and at most four threads have a place, the publisher counts the threads that are
between their two calls, every browser is sent snapshots that were published, each under its own
number and in increasing order, and one that has to wait has been sent the latest. -/
theorem streams_exact (body : Body) (start : ℚ) (es : List (Event Body)) :
    ∃ s, run (.init body start) es = some s ∧
      s.slots + s.threads.countP Stream.holds = maxStreams ∧
      s.pub.streams = s.threads.countP Stream.isCounted ∧
      ∀ t ∈ s.threads, (t.sent.map Prod.fst).Pairwise (· < ·) ∧
        (∀ e ∈ t.sent, (body :: publications es)[e.1]? = some e.2) ∧
        (t.stage = .waiting → s.pub.waitNewer t.seq false = none →
          t.sent.getLast? = some (s.pub.seq, s.pub.body)) := by
  obtain ⟨s, hrun, h⟩ := run_sound (init_sound body start) es
  have hpublished : s.pub.published = body :: publications es := run_published hrun
  refine ⟨s, hrun, h.places, h.streams, fun t ht => ?_⟩
  have hfaithful := h.faithful t ht
  rw [← hpublished]
  exact ⟨hfaithful.increasing, hfaithful.exact, hfaithful.caught_up h.current⟩

/-! ### Closing -/

/-- The turns a thread needs to its end once the publisher closes. -/
def Stage.rank : Stage Body → ℕ
  | .admitted => 5
  | .counted | .waiting | .writing _ _ => 4
  | .looping | .woken _ _ => 3
  | .leaving => 2
  | .uncounted => 1
  | .gone => 0

theorem advance_rank {pub pub' : Publisher Body} {slots slots' : ℕ} {now : ℚ}
    {fails timedOut : Bool} {t t' : Stream Body} (hclosing : pub.closing = true)
    (h : advance pub slots now fails timedOut t = some (pub', slots', t')) :
    t'.stage.rank ≤ t.stage.rank - 1 := by
  obtain ⟨stage, seq, sent⟩ := t
  cases stage with
  | admitted | leaving | gone =>
      cases h
      exact le_rfl
  | counted =>
      cases h
      cases fails <;> simp [Stream.goto, Stage.rank]
  | looping | woken =>
      cases h
      simp [Stream.goto, Stage.rank, hclosing]
  | waiting =>
      simp only [advance, Publisher.waitNewer, hclosing, true_or, or_true, if_true] at h
      cases h
      exact le_rfl
  | writing =>
      cases h
      simp only [Stream.write]
      split <;> cases fails <;> simp [Stream.goto, Stage.rank]
  | uncounted =>
      obtain ⟨slots₁, -, heq⟩ := Option.map_eq_some_iff.mp h
      cases heq
      exact le_rfl

def isTurn (k : ℕ) : Event Body → Bool
  | .turn j _ _ => j = k
  | _ => false

theorem next_rank {e : Event Body} {k : ℕ} {t : Stream Body} (hclosing : s.pub.closing = true)
    (hk : s.threads[k]? = some t) (h : next s e = some s') :
    s'.pub.closing = true ∧
      ∃ t', s'.threads[k]? = some t' ∧ t'.stage.rank ≤ t.stage.rank - (isTurn k e).toNat := by
  cases e with
  | enter =>
      cases h
      unfold System.enter
      split
      · exact ⟨hclosing, t, IndexedLists.getElem?_of_prefix (List.prefix_append _ _) hk, le_rfl⟩
      · exact ⟨hclosing, t, hk, le_rfl⟩
  | turn j fails timedOut =>
      obtain ⟨hnone, rfl⟩ | ⟨u, pub, slots, u', hj, ha, rfl⟩ := turn_cases h
      · have hne : ¬ j = k := by
          rintro rfl
          rw [hk] at hnone
          cases hnone
        exact ⟨hclosing, t, hk, by simp [isTurn, hne]⟩
      · refine ⟨(advance_change ha).published.2.2.2.trans hclosing, ?_⟩
        by_cases hjk : j = k
        · subst hjk
          cases hk.symm.trans hj
          refine ⟨u', ?_, ?_⟩
          · rw [List.getElem?_set_self (List.getElem?_eq_some_iff.mp hk).1]
          · simpa [isTurn] using advance_rank hclosing ha
        · exact ⟨t, by rw [List.getElem?_set_ne hjk, hk], by simp [isTurn, hjk]⟩
  | publish | pass =>
      cases h
      exact ⟨hclosing, t, hk, le_rfl⟩
  | close =>
      cases h
      exact ⟨rfl, t, hk, le_rfl⟩

theorem run_rank {es : List (Event Body)} {k : ℕ} {t : Stream Body}
    (hclosing : s.pub.closing = true) (hk : s.threads[k]? = some t) (h : run s es = some s') :
    ∃ t', s'.threads[k]? = some t' ∧ t'.stage.rank ≤ t.stage.rank - es.countP (isTurn k) := by
  induction es generalizing s t with
  | nil =>
      cases h
      exact ⟨t, hk, le_rfl⟩
  | cons e es ih =>
      rw [run, List.foldlM_cons] at h
      obtain ⟨s₁, he, hes⟩ := Option.bind_eq_some_iff.mp h
      obtain ⟨hclosing₁, t₁, hk₁, hrank₁⟩ := next_rank hclosing hk he
      obtain ⟨t', hk', hrank⟩ := ih hclosing₁ hk₁ hes
      refine ⟨t', hk', hrank.trans ?_⟩
      rw [List.countP_cons]
      cases hturn : isTurn k e <;> simp [hturn] at hrank₁ ⊢ <;> omega

theorem rank_le (stage : Stage Body) : stage.rank ≤ 5 := by
  cases stage <;> simp [Stage.rank]

theorem rank_eq_zero {t : Stream Body} (h : t.stage.rank = 0) :
    t.holds = false ∧ t.isCounted = false := by
  obtain ⟨stage, seq, sent⟩ := t
  cases stage with
  | gone => exact ⟨rfl, rfl⟩
  | _ => cases h

/-- Once the publisher closes, a thread ends within five turns of its own, whatever the others
do: it gives its place back and is not counted any more. -/
theorem streams_end (body : Body) (start : ℚ) (es es' : List (Event Body))
    (hs : run (.init body start) es = some s) (hclosing : s.pub.closing = true)
    {k : ℕ} (hk : k < s.threads.length) (hturns : 5 ≤ es'.countP (isTurn k)) :
    ∃ s' t, run s es' = some s' ∧ s'.threads[k]? = some t ∧ t.holds = false ∧
      t.isCounted = false := by
  have hsound : Sound s := EventRun.foldlM_invariant next_sound (init_sound body start) hs
  obtain ⟨s', hs', -⟩ := run_sound hsound es'
  obtain ⟨t, ht, hrank⟩ := run_rank hclosing (List.getElem?_eq_getElem hk) hs'
  have hle := rank_le (s.threads[k]).stage
  exact ⟨s', t, hs', ht, rank_eq_zero (by omega)⟩

/-- A browser that waits for a snapshot when the publisher closes. -/
def closed : List (Event ℕ) :=
  [.enter, .turn 0 false false, .turn 0 false false, .turn 0 false false, .close]

theorem streams_end_waiting :
    ∃ s s' t, run (.init 7 0) closed = some s ∧ s.pub.closing = true ∧ 0 < s.threads.length ∧
      run s (List.replicate 5 (.turn 0 false false)) = some s' ∧ s'.threads[0]? = some t ∧
      t.holds = false ∧ t.isCounted = false := by
  have hrun : (run (.init 7 0) closed).any
      (fun s => s.pub.closing = true ∧ 0 < s.threads.length) = true := by
    decide +kernel
  obtain ⟨s, hs, h⟩ := (Option.any_eq_true _ _).mp hrun
  obtain ⟨hclosing, hk⟩ := of_decide_eq_true h
  obtain ⟨s', t, hs', ht⟩ := streams_end 7 0 closed (List.replicate 5 (.turn 0 false false)) hs
    hclosing hk (by decide)
  exact ⟨s, s', t, hs, hclosing, hk, hs', ht⟩

/-! ### Watched or not -/

/-- The number of streams is positive from one change to the next and `u` lies between them, or
it is since the latest change, before `u`. -/
def WatchedAt (counts : List (ℚ × ℤ)) (u : ℚ) : Prop :=
  (∃ l a c e r, counts = l ++ (a, c) :: e :: r ∧ 0 < c ∧ a ≤ u ∧ u ≤ e.1) ∨
    ∃ l a c, counts = l ++ [(a, c)] ∧ 0 < c ∧ a ≤ u

/-- The record of the changes, and the latest of them. -/
structure Recorded (start : ℚ) (s : System Body) : Prop where
  started : start ≤ s.pub.lastStreamSeen
  clock : s.pub.lastStreamSeen ≤ s.clock
  counts : ∃ before, s.pub.counts = before ++ [(s.pub.lastStreamSeen, s.pub.streams)] ∧
    (∀ e ∈ before, e.1 ≤ s.pub.lastStreamSeen) ∧
    (s.pub.lastStreamSeen = start ∨
      ∃ l a c, before = l ++ [(a, c)] ∧ (s.pub.streams ≤ 0 → 0 < c))

theorem init_recorded (body : Body) (start : ℚ) : Recorded start (System.init body start) :=
  ⟨le_rfl, le_rfl, [], rfl, fun _ he => absurd he List.not_mem_nil, .inl rfl⟩

theorem Recorded.streamCount {start : ℚ} (h : Recorded start s) {delta : ℤ}
    (hdelta : s.pub.streams + delta ≤ 0 → 0 < s.pub.streams)
    (slots : ℕ) (threads : List (Stream Body)) :
    Recorded start ⟨s.pub.streamCount delta s.clock, slots, threads, s.clock⟩ := by
  obtain ⟨before, hcounts, hbefore, -⟩ := h.counts
  refine ⟨h.started.trans h.clock, le_rfl, s.pub.counts, rfl, ?_, .inr ⟨_, _, _, hcounts, hdelta⟩⟩
  rw [hcounts]
  exact List.forall_mem_append.mpr
    ⟨fun e he => (hbefore e he).trans h.clock, List.forall_mem_singleton.mpr h.clock⟩

theorem next_recorded {start : ℚ} {e : Event Body} (hsound : Sound s) (h : Recorded start s)
    (hn : next s e = some s') : Recorded start s' := by
  cases e with
  | enter =>
      cases hn
      unfold System.enter
      split
      · exact ⟨h.started, h.clock, h.counts⟩
      · exact h
  | turn k fails timedOut =>
      obtain ⟨-, rfl⟩ | ⟨t, pub, slots, t', hk, ha, rfl⟩ := turn_cases hn
      · exact h
      · have hstreams := hsound.streams
        cases advance_change ha with
        | countIn => exact h.streamCount (by omega) _ _
        | countOut hc =>
            have hpos : 0 < s.threads.countP Stream.isCounted :=
              List.countP_pos_iff.mpr ⟨t, List.mem_of_getElem? hk, hc⟩
            exact h.streamCount (by omega) _ _
        | giveBack | same => exact ⟨h.started, h.clock, h.counts⟩
  | publish | close =>
      cases hn
      exact ⟨h.started, h.clock, h.counts⟩
  | pass d =>
      cases hn
      exact ⟨h.started, h.clock.trans (le_add_of_nonneg_right d.2), h.counts⟩

/-- The publisher says that there has been no stream for more than `limit` seconds if and only if
nobody was connected in them and the publisher is older than that. -/
theorem Recorded.idle_iff {start limit : ℚ} (h : Recorded start s) (hlimit : 0 ≤ limit) :
    limit < s.pub.secondsWithoutStreams s.clock ↔
      start < s.clock - limit ∧
        ∀ u, s.clock - limit ≤ u → u ≤ s.clock → ¬ WatchedAt s.pub.counts u := by
  obtain ⟨before, hcounts, hbefore, hlast⟩ := h.counts
  have hstarted := h.started
  have hclock := h.clock
  unfold Publisher.secondsWithoutStreams
  split
  · next hpos =>
      refine iff_of_false hlimit.not_gt ?_
      rintro ⟨-, hnever⟩
      exact hnever s.clock (by linarith) le_rfl (.inr ⟨_, _, _, hcounts, hpos, hclock⟩)
  · next hzero =>
      constructor
      · intro hidle
        refine ⟨by linarith, fun u hu _ => ?_⟩
        rintro (⟨l, a, c, e, r, heq, -, -, hnext⟩ | ⟨l, a, c, heq, hpos, -⟩)
        · -- no change is later than the latest, and that is too long ago
          have hmem : e ∈ before ++ [(s.pub.lastStreamSeen, s.pub.streams)] := by
            rw [← hcounts, heq]
            simp
          have hle : e.1 ≤ s.pub.lastStreamSeen := by
            rcases List.mem_append.mp hmem with he | he
            · exact hbefore e he
            · rw [List.mem_singleton.mp he]
          linarith
        · rw [hcounts] at heq
          obtain ⟨-, hchange⟩ := List.append_inj' heq rfl
          cases hchange
          exact hzero hpos
      · rintro ⟨hstart, hnever⟩
        by_contra hle
        rcases hlast with hseen | ⟨l, a, c, rfl, hpos⟩
        · linarith
        · refine hnever s.pub.lastStreamSeen (by linarith) hclock
            (.inl ⟨l, a, c, (s.pub.lastStreamSeen, s.pub.streams), [], ?_, hpos (not_lt.mp hzero),
              hbefore (a, c) (by simp), le_rfl⟩)
          rw [hcounts, List.append_assoc]
          rfl

end Runs

end MaglevLb.Streams
