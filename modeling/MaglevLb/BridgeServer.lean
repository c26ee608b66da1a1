import MaglevLb.HttpApi
import MaglevLb.Streams

/-!
# The bridge behind its HTTP server

Handler threads hand commands to the loop thread and wait for the result, five seconds at most;
the loop thread runs them in the order in which they came, between its ticks. A command has no
`await`, so it runs as a whole. A handler that has waited in vain answers that the bridge is
busy, and its command stays where it is. It answers so also when it cannot get its answer off
within five seconds, behind what it has sent of it. Requests carry the number of their thread.
-/
namespace MaglevLb.BridgeServer

open Children OrderedDict Slots Reconcile SlotLifecycle SlotViews ControlChannel
open Schema ActionSchema Snapshot HttpApi

def autoPauseAfterS : ℚ := 10

/-- `inputs` is for statements only: the calls into the reconciler. -/
structure Bridge (N : ℕ) where
  r : Reconciler String N
  lbObs : Dict ℕ Observation
  lbRestartPending : Bool
  inputs : List (Reconcile.Event String)

/-- What a command finds: two readings of the clock, the latest reports, and the id of a session
that starts. -/
structure Scene where
  now : ℚ
  later : ℚ
  latest : Proc → Option Stats
  sessionId : String

namespace Bridge

variable {N : ℕ}

def init (N : ℕ) : Bridge N := ⟨.init String N, .empty, false, []⟩

/-- The call has brought the reconciler to `r`. -/
def record (b : Bridge N) (e : Reconcile.Event String) (r : Reconciler String N) : Bridge N :=
  { b with r := r, inputs := b.inputs ++ [e] }

def feed (exits : Proc → Moment) (b : Bridge N) (e : Reconcile.Event String) :
    Option (Bridge N) :=
  (Reconcile.apply exits b.r e).map (b.record e)

/-- The flag is set where it changes. -/
def suppressLoad (exits : Proc → Moment) (suppress : Bool) (b : Bridge N) : Option (Bridge N) :=
  if suppress = b.r.loadSuppressed then some b else b.feed exits (.suppressLoad suppress)

end Bridge

section Commands

variable {N : ℕ} (exits : Proc → Moment)

def planOf (r : Reconciler String N) (desired : Desired String) : Content N :=
  .plan (desired.backends.map fun b => (b.id, standing r b.id))
    ((desired.clients.map ClientNode.id).insertionSort (· ≤ ·))

def applyDesired (desired : Desired String) (sc : Scene) (b : Bridge N) :
    Option (Bridge N × Answer N) := do
  let b ← b.feed exits (.setDesired desired)
  let b ← b.feed exits (.step sc.now b.lbObs sc.latest)
  return (b, ⟨200, planOf b.r desired, false⟩)

/-- A refused action is not followed by a step. -/
def applyAction (target : String) (kind : ActionKind) (sc : Scene) (b : Bridge N) :
    Option (Bridge N × Answer N) :=
  let r := { b.r with ex := b.r.ex.nextTurn }
  let call := Reconcile.Event.action target kind sc.now
  match r.action exits sc.now target kind with
  | .error _ =>
      some (b.record call r, ⟨409, .error (target ++ " is not a running backend"), false⟩)
  | .ok r => do
      let b ← (b.record call r).feed exits (.step sc.later b.lbObs sc.latest)
      return (b, ⟨200, .ok, false⟩)

def resetSession (sc : Scene) (b : Bridge N) : Option (Bridge N × Answer N) := do
  let b ← b.feed exits (.reset sc.now)
  return (b, ⟨200, .session sc.sessionId, false⟩)

def requestLbRestart (b : Bridge N) : Bridge N × Answer N :=
  ({ b with lbRestartPending := true }, ⟨202, .accepted, false⟩)

/-- The bridge's coroutines. Every action that the schema accepts has a target and a kind. -/
def execute (c : Command) (sc : Scene) (b : Bridge N) : Option (Bridge N × Answer N) :=
  match c with
  | .applyDesired desired => applyDesired exits desired.desired sc b
  | .applyAction act =>
      match act.target, kindOf act with
      | some target, some kind => applyAction exits target kind sc b
      | _, _ => none
  | .resetSession => resetSession exits sc b
  | .requestLbRestart => some (requestLbRestart b)

end Commands

/-- `queue`: commands that have not run. `executed`: those that have, with their results.
`waiting`: threads that wait for the result of their command. `answers` is for statements only:
the answers that were begun, with the thread that sends them. -/
structure Server (N : ℕ) where
  bridge : Bridge N
  streams : Streams.System (Option (Snap String N))
  queue : List (ℕ × Command)
  executed : List (ℕ × Command × Answer N)
  waiting : List ℕ
  answers : List (ℕ × Answer N)

/-- `cut`: the write of an answer in the `try` times out. -/
inductive Event where
  | request (k : ℕ) (req : Request) (cut : Bool)
  | execute (sc : Scene)
  | collect (k : ℕ) (cut : Bool)
  | expire (k : ℕ)
  | polled (obs : Dict ℕ Observation)
  | restarting
  | tick (now : ℚ) (latest : Proc → Option Stats) (loadOn : Proc → Bool)
  | stream (k : ℕ) (fails timedOut : Bool)
  | close
  | pass (d : ℚ≥0)

namespace Server

variable {N : ℕ}

/-- The publisher starts with `b"{}"`. -/
def init (N : ℕ) (start : ℚ) : Server N := ⟨.init N, .init none start, [], [], [], []⟩

def reply (k : ℕ) (ans : Answer N) (s : Server N) : Server N :=
  { s with answers := s.answers ++ [(k, ans)] }

/-- An answer in the `try`. -/
def send (k : ℕ) (ans : Answer N) (cut : Bool) (s : Server N) : Server N :=
  if cut then (s.reply k ans).reply k busy else s.reply k ans

/-- The semaphore decides whether a stream begins. -/
def openStream (k : ℕ) (cut : Bool) (s : Server N) : Server N :=
  if 0 < s.streams.slots then { s with streams := s.streams.enter }
  else s.send k (failure 503 "at most 4 streams") cut

def submit (k : ℕ) (c : Command) (s : Server N) : Server N :=
  { s with queue := s.queue ++ [(k, c)], waiting := s.waiting ++ [k] }

def handle (a : Access N) (k : ℕ) (req : Request) (cut : Bool) (s : Server N) : Server N :=
  match route a req with
  | .answer ans => s.reply k ans
  | .reply ans => s.send k ans cut
  | .static path => s.reply k (a.files path)
  | .state => s.send k ⟨200, .snapshot s.streams.pub.body, false⟩ cut
  | .stream => s.openStream k cut
  | .call c => s.submit k c
  | .silence => s
  | .raise => s

def executeNext (exits : Proc → Moment) (sc : Scene) (s : Server N) : Option (Server N) :=
  match s.queue with
  | [] => some s
  | (k, c) :: queue =>
      (execute exits c sc s.bridge).map fun (b, ans) =>
        { s with bridge := b, queue := queue, executed := s.executed ++ [(k, c, ans)] }

/-- `fut.result` returns. -/
def collect (k : ℕ) (cut : Bool) (s : Server N) : Server N :=
  match s.executed.find? (·.1 = k) with
  | none => s
  | some (_, _, ans) =>
      if k ∈ s.waiting then { s.send k ans cut with waiting := s.waiting.erase k } else s

/-- `fut.result` raises `TimeoutError`. -/
def expire (k : ℕ) (s : Server N) : Server N :=
  if k ∈ s.waiting ∧ k ∉ s.executed.map Prod.fst then
    { s.reply k busy with waiting := s.waiting.erase k }
  else s

/-- Whether the load is to be suppressed. -/
def unwatched (autoPause : Bool) (s : Server N) : Bool :=
  autoPause && decide (autoPauseAfterS < s.streams.pub.secondsWithoutStreams s.streams.clock)

def tick (exits : Proc → Moment) (autoPause : Bool) (now : ℚ) (latest : Proc → Option Stats)
    (loadOn : Proc → Bool) (s : Server N) : Option (Server N) := do
  let b ← s.bridge.suppressLoad exits (s.unwatched autoPause)
  let b ← b.feed exits (.step now b.lbObs latest)
  let snap := buildSnapshot exits loadOn b.r
  return { s with
    bridge := b
    streams := { s.streams with pub := s.streams.pub.publish (some snap) } }

end Server

section Machine

variable {N : ℕ} (a : Access N) (exits : Proc → Moment) (autoPause : Bool)

def next (s : Server N) : Event → Option (Server N)
  | .request k req cut => some (s.handle a k req cut)
  | .execute sc => s.executeNext exits sc
  | .collect k cut => some (s.collect k cut)
  | .expire k => some (s.expire k)
  | .polled obs => some { s with bridge := { s.bridge with lbObs := obs } }
  | .restarting => some { s with bridge := { s.bridge with lbRestartPending := false } }
  | .tick now latest loadOn => s.tick exits autoPause now latest loadOn
  | .stream k fails timedOut =>
      (s.streams.turn k fails timedOut).map fun streams => { s with streams := streams }
  | .close => some { s with streams := { s.streams with pub := s.streams.pub.close } }
  | .pass d => some { s with streams := { s.streams with clock := s.streams.clock + d } }

def run (s : Server N) (es : List Event) : Option (Server N) := es.foldlM (next a exits autoPause) s

end Machine

/-! ### Sending an answer -/

section Sending

variable {N : ℕ} (k : ℕ) (ans : Answer N) (cut : Bool) (s : Server N)

/-- What is sent for an answer in the `try`. -/
def sends : List (Answer N) := if cut then [ans, busy] else [ans]

theorem send_eq :
    s.send k ans cut = { s with answers := s.answers ++ (sends ans cut).map (Prod.mk k) } := by
  cases cut
  · rfl
  · simp [Server.send, Server.reply, sends]

end Sending

/-! ### What reaches the reconciler -/

section Inputs

variable {N : ℕ} {exits : Proc → Moment} {b : Bridge N}

/-- The reconciler has been given accepted documents and actions only. -/
structure Bridge.Proper (exits : Proc → Moment) (b : Bridge N) : Prop where
  reached : Reconcile.run exits (.init String N) b.inputs = some b.r
  admitted : ∀ e ∈ b.inputs, Admitted e

theorem init_proper : (Bridge.init N).Proper exits :=
  ⟨rfl, fun _ he => absurd he List.not_mem_nil⟩

theorem Bridge.Proper.record (h : b.Proper exits) {e : Reconcile.Event String} (he : Admitted e)
    {r : Reconciler String N} (hr : apply exits b.r e = some r) : (b.record e r).Proper exits := by
  refine ⟨?_, List.forall_mem_append.mpr ⟨h.admitted, List.forall_mem_singleton.mpr he⟩⟩
  dsimp only [Bridge.record]
  rw [run_concat, h.reached]
  exact hr

theorem Bridge.Proper.feed (h : b.Proper exits) {e : Reconcile.Event String} (he : Admitted e) :
    ∃ b' : Bridge N, b.feed exits e = some b' ∧ b'.Proper exits := by
  have hl : ∀ i, Lifecycle (b.r.slots i) := run_lifecycle init_lifecycle h.reached
  obtain ⟨r, hr⟩ : ∃ r, apply exits b.r e = some r := apply_exists hl e
  exact ⟨b.record e r, by rw [Bridge.feed, hr]; rfl, h.record he hr⟩

theorem Bridge.Proper.suppressLoad (h : b.Proper exits) (suppress : Bool) :
    ∃ b' : Bridge N, b.suppressLoad exits suppress = some b' ∧ b'.Proper exits := by
  unfold Bridge.suppressLoad
  split
  · exact ⟨b, rfl, h⟩
  · exact h.feed trivial

/-- An accepted action is one that the reconciler knows. -/
theorem kindOf_exists {act : ActionSchema.Action} (h : ActionSchema.Valid act) :
    ∃ target kind, act.target = some target ∧ kindOf act = some kind := by
  obtain ⟨target, htarget, -⟩ := h.target
  obtain ⟨name, hname, haction⟩ := h.known
  have hsome : (kindOf act).isSome = true := by
    simp only [actions, List.mem_cons, List.not_mem_nil, or_false] at hname
    rcases hname with rfl | rfl | rfl | rfl | rfl | rfl | rfl | rfl
    case inr.inr.inr.inl =>
      rcases h.rate with ⟨-, q, hq, -⟩ | ⟨hnot, -⟩
      · simp [kindOf, haction, hq]
      · exact absurd haction hnot
    case inr.inr.inr.inr.inr.inr.inl =>
      rcases h.factor with ⟨-, q, hq, -⟩ | ⟨hnot, -⟩
      · simp [kindOf, haction, hq]
      · exact absurd haction hnot
    all_goals simp [kindOf, haction]
  obtain ⟨kind, hkind⟩ := Option.isSome_iff_exists.mp hsome
  exact ⟨target, kind, htarget, hkind⟩

theorem applyDesired_proper (h : b.Proper exits) {desired : Canvas}
    (hvalid : (Command.applyDesired desired).Valid) (sc : Scene) :
    ∃ b' ans, applyDesired exits desired.desired sc b = some (b', ans) ∧ b'.Proper exits := by
  obtain ⟨doc, hdoc⟩ := hvalid
  obtain ⟨b₁, hb₁, h₁⟩ := h.feed (e := .setDesired desired.desired) ⟨doc, desired, hdoc, rfl⟩
  obtain ⟨b₂, hb₂, h₂⟩ := h₁.feed (e := .step sc.now b₁.lbObs sc.latest) trivial
  exact ⟨b₂, _, by simp only [applyDesired, hb₁, hb₂, Option.bind_eq_bind, Option.bind_some]; rfl,
    h₂⟩

theorem applyAction_proper (h : b.Proper exits) {target : String} {kind : ActionKind} (sc : Scene)
    (hvalid : Admitted (.action target kind sc.now)) :
    ∃ b' ans, applyAction exits target kind sc b = some (b', ans) ∧ b'.Proper exits := by
  unfold applyAction
  dsimp only
  split
  · next hrefused => exact ⟨_, _, rfl, h.record hvalid (by simp only [apply, hrefused])⟩
  · next r hdone =>
      obtain ⟨b', hb', h'⟩ := (h.record (r := r) hvalid (by simp only [apply, hdone])).feed
        (e := .step sc.later b.lbObs sc.latest) trivial
      exact ⟨b', _, by rw [hb']; rfl, h'⟩

/-- No command that a handler hands over gets the loop thread into an error. -/
theorem execute_proper (h : b.Proper exits) {c : Command} (hc : c.Valid) (sc : Scene) :
    ∃ b' ans, execute exits c sc b = some (b', ans) ∧ b'.Proper exits := by
  cases c with
  | applyDesired desired => exact applyDesired_proper h hc sc
  | applyAction act =>
      obtain ⟨doc, hdoc⟩ := hc
      obtain ⟨target, kind, htarget, hkind⟩ := kindOf_exists (validateAction_valid hdoc)
      simp only [execute, htarget, hkind]
      exact applyAction_proper h sc ⟨doc, act, hdoc, htarget, hkind⟩
  | resetSession =>
      obtain ⟨b₁, hb₁, h₁⟩ := h.feed (e := .reset sc.now) trivial
      exact ⟨b₁, _, by simp only [execute, resetSession, hb₁]; rfl, h₁⟩
  | requestLbRestart => exact ⟨_, _, rfl, h.reached, h.admitted⟩

end Inputs

/-! ### Runs -/

section Runs

variable {N : ℕ} {a : Access N} {exits : Proc → Moment} {autoPause : Bool} {s s' : Server N}

/-- What a tick does. -/
theorem tick_eq {now : ℚ} {latest : Proc → Option Stats} {loadOn : Proc → Bool}
    (h : s.tick exits autoPause now latest loadOn = some s') :
    ∃ b b' : Bridge N, s.bridge.suppressLoad exits (s.unwatched autoPause) = some b ∧
      b.feed exits (.step now b.lbObs latest) = some b' ∧
      s' = { s with
        bridge := b'
        streams := { s.streams with
          pub := s.streams.pub.publish (some (buildSnapshot exits loadOn b'.r)) } } := by
  obtain ⟨b, hb, h⟩ := Option.bind_eq_some_iff.mp h
  obtain ⟨b', hb', h⟩ := Option.bind_eq_some_iff.mp h
  cases h
  exact ⟨b, b', hb, hb', rfl⟩

/-- What a step does to the streams is a step of the streams. -/
theorem next_streams {e : Event} (h : next a exits autoPause s e = some s') :
    s'.streams = s.streams ∨ ∃ se, Streams.next s.streams se = some s'.streams := by
  cases e with
  | request k req cut =>
      cases h
      unfold Server.handle Server.openStream
      simp only [send_eq]
      split
      case h_5 =>
        split
        · exact .inr ⟨.enter, rfl⟩
        · exact .inl rfl
      all_goals exact .inl rfl
  | execute sc =>
      simp only [next, Server.executeNext] at h
      split at h
      · cases h
        exact .inl rfl
      · obtain ⟨⟨b, ans⟩, -, rfl⟩ := Option.map_eq_some_iff.mp h
        exact .inl rfl
  | collect k cut =>
      cases h
      unfold Server.collect
      simp only [send_eq]
      split
      · exact .inl rfl
      · split <;> exact .inl rfl
  | expire k =>
      cases h
      unfold Server.expire
      split <;> exact .inl rfl
  | polled | restarting =>
      cases h
      exact .inl rfl
  | tick now latest loadOn =>
      obtain ⟨b, b', -, -, rfl⟩ := tick_eq h
      exact .inr ⟨.publish _, rfl⟩
  | stream k fails timedOut =>
      obtain ⟨streams, hstreams, rfl⟩ := Option.map_eq_some_iff.mp h
      exact .inr ⟨.turn k fails timedOut, hstreams⟩
  | close =>
      cases h
      exact .inr ⟨.close, rfl⟩
  | pass d =>
      cases h
      exact .inr ⟨.pass d, rfl⟩

structure Sound (exits : Proc → Moment) (s : Server N) : Prop where
  bridge : s.bridge.Proper exits
  valid : ∀ e ∈ s.queue, e.2.Valid
  streams : Streams.Sound s.streams

theorem init_sound (N : ℕ) (start : ℚ) : Sound exits (Server.init N start) :=
  ⟨init_proper, fun _ he => absurd he List.not_mem_nil, Streams.init_sound _ _⟩

/-- The bridge and the queue after a step, for a server that is sound before. -/
theorem next_works (h : Sound exits s) (e : Event) :
    ∃ s', next a exits autoPause s e = some s' ∧ s'.bridge.Proper exits ∧
      ∀ e ∈ s'.queue, e.2.Valid := by
  cases e with
  | request k req cut =>
      refine ⟨_, rfl, ?_⟩
      unfold Server.handle Server.openStream
      simp only [send_eq]
      split
      case h_5 => split <;> exact ⟨h.bridge, h.valid⟩
      case h_6 c hroute =>
        exact ⟨h.bridge, List.forall_mem_append.mpr
          ⟨h.valid, List.forall_mem_singleton.mpr (route_valid hroute)⟩⟩
      all_goals exact ⟨h.bridge, h.valid⟩
  | execute sc =>
      simp only [next, Server.executeNext]
      split
      · exact ⟨s, rfl, h.bridge, h.valid⟩
      · next k c queue hqueue =>
          have hvalid := h.valid
          rw [hqueue] at hvalid
          obtain ⟨hc, hrest⟩ := List.forall_mem_cons.mp hvalid
          obtain ⟨b, ans, hexec, hb⟩ := execute_proper h.bridge hc sc
          exact ⟨_, by rw [hexec]; rfl, hb, hrest⟩
  | collect k cut =>
      refine ⟨_, rfl, ?_⟩
      unfold Server.collect
      simp only [send_eq]
      split
      · exact ⟨h.bridge, h.valid⟩
      · split <;> exact ⟨h.bridge, h.valid⟩
  | expire k =>
      refine ⟨_, rfl, ?_⟩
      unfold Server.expire
      split <;> exact ⟨h.bridge, h.valid⟩
  | polled | restarting => exact ⟨_, rfl, ⟨h.bridge.reached, h.bridge.admitted⟩, h.valid⟩
  | tick now latest loadOn =>
      obtain ⟨b, hb, hproper⟩ := h.bridge.suppressLoad (s.unwatched autoPause)
      obtain ⟨b', hb', hproper'⟩ := hproper.feed (e := .step now b.lbObs latest) trivial
      simp only [next, Server.tick, hb, hb', Option.bind_eq_bind, Option.bind_some]
      exact ⟨_, rfl, hproper', h.valid⟩
  | stream k fails timedOut =>
      obtain ⟨streams, hstreams⟩ :=
        Option.isSome_iff_exists.mp (Streams.next_isSome h.streams (.turn k fails timedOut))
      exact ⟨{ s with streams := streams }, Option.map_eq_some_iff.mpr ⟨streams, hstreams, rfl⟩,
        h.bridge, h.valid⟩
  | close | pass => exact ⟨_, rfl, h.bridge, h.valid⟩

theorem next_sound (h : Sound exits s) (e : Event) :
    ∃ s', next a exits autoPause s e = some s' ∧ Sound exits s' := by
  obtain ⟨s', hs', hbridge, hvalid⟩ := next_works (a := a) h e
  refine ⟨s', hs', hbridge, hvalid, ?_⟩
  rcases next_streams hs' with hsame | ⟨se, hse⟩
  · rw [hsame]
    exact h.streams
  · exact Streams.next_sound h.streams hse

theorem run_sound (h : Sound exits s) (es : List Event) :
    ∃ s', run a exits autoPause s es = some s' ∧ Sound exits s' :=
  EventRun.exists_run next_sound h es

/-- Whatever is sent to the server, in whatever order its threads go on: the loop thread never
meets an error, and the reconciler is where documents and actions that the schema accepts have
brought it. -/
theorem inputs_admitted (a : Access N) (exits : Proc → Moment) (autoPause : Bool) (start : ℚ)
    (es : List Event) :
    ∃ s, run a exits autoPause (.init N start) es = some s ∧
      Reconcile.run exits (.init String N) s.bridge.inputs = some s.bridge.r ∧
      ∀ e ∈ s.bridge.inputs, Admitted e := by
  obtain ⟨s, hs, hsound⟩ : ∃ s, run a exits autoPause (.init N start) es = some s ∧
      Sound exits s := run_sound (init_sound N start) es
  exact ⟨s, hs, hsound.bridge.reached, hsound.bridge.admitted⟩

end Runs

/-! ### Every command once -/

section Once

variable {N : ℕ} {a : Access N} {exits : Proc → Moment} {autoPause : Bool} {s s' : Server N}
  {es : List Event}

def requests : List Event → List (ℕ × Request) :=
  List.filterMap fun
    | .request k req _ => some (k, req)
    | _ => none

def callOf (a : Access N) (x : ℕ × Request) : Option (ℕ × Command) :=
  match route a x.2 with
  | .call c => some (x.1, c)
  | _ => none

/-- The commands that were handed over, in order. -/
def calls (a : Access N) (es : List Event) : List (ℕ × Command) :=
  (requests es).filterMap (callOf a)

/-- What thread `k` has begun to send. -/
def sent (s : Server N) (k : ℕ) : List (Answer N) := (s.answers.filter (·.1 = k)).map Prod.snd

/-- A write of thread `k` has timed out. -/
def TimedOut (es : List Event) (k : ℕ) : Prop :=
  (∃ req, .request k req true ∈ es) ∨ .collect k true ∈ es

/-- The answer is sent, or broken off with the one that the bridge is busy behind it. -/
def Answered (timedOut : Prop) (ans : Answer N) (l : List (Answer N)) : Prop :=
  l = [ans] ∨ timedOut ∧ l = [ans, busy]

/-- What became of a request, as far as its thread is concerned. -/
def Settled (a : Access N) (timedOut : Prop) (s : Server N) (k : ℕ) : Job N → Prop
  | .answer ans => sent s k = [ans]
  | .static path => sent s k = [a.files path]
  | .reply ans => Answered timedOut ans (sent s k)
  | .state => ∃ snap, Answered timedOut ⟨200, .snapshot snap, false⟩ (sent s k)
  | .stream =>
      sent s k = [] ∨ Answered timedOut (failure 503 "at most 4 streams") (sent s k)
  | .call c =>
      sent s k = [] ∧ s.waiting.count k = 1 ∨
      s.waiting.count k = 0 ∧
        (sent s k = [busy] ∨ ∃ ans, (k, c, ans) ∈ s.executed ∧ Answered timedOut ans (sent s k))
  | .silence | .raise => sent s k = []

/-- The commands handed over are those that have run, followed by those that have not. Every
thread that waits has handed one over; every answer is to a request; and every request is
answered once, or its thread still waits, or it is one that the handler leaves without an answer,
or a write has timed out and the answer is followed by the one that the bridge is busy. The
answer to a command is its own result, or that the bridge is busy. -/
structure Served (a : Access N) (es : List Event) (s : Server N) : Prop where
  order : s.executed.map (fun x => (x.1, x.2.1)) ++ s.queue = calls a es
  waits : ∀ k ∈ s.waiting, k ∈ (calls a es).map Prod.fst
  asked : ∀ x ∈ s.answers, x.1 ∈ (requests es).map Prod.fst
  settled : ∀ x ∈ requests es, Settled a (TimedOut es x.1) s x.1 (route a x.2)

theorem requests_concat (es : List Event) (e : Event) :
    requests (es ++ [e]) = requests es ++ requests [e] := List.filterMap_append ..

theorem calls_concat (a : Access N) (es : List Event) (e : Event) :
    calls a (es ++ [e]) = calls a es ++ calls a [e] := by
  rw [calls, requests_concat, List.filterMap_append]
  rfl

theorem callOf_fst {x : ℕ × Request} {y : ℕ × Command} (h : callOf a x = some y) :
    y.1 = x.1 ∧ route a x.2 = .call y.2 := by
  unfold callOf at h
  split at h
  · next c hc =>
      cases h
      exact ⟨rfl, hc⟩
  · cases h

theorem calls_fst_sublist (a : Access N) (es : List Event) :
    ((calls a es).map Prod.fst).Sublist ((requests es).map Prod.fst) := by
  unfold calls
  induction requests es with
  | nil => exact .slnil
  | cons x l ih =>
      cases hx : callOf a x with
      | none =>
          rw [List.filterMap_cons_none hx]
          exact ih.cons _
      | some y =>
          rw [List.filterMap_cons_some hx, List.map_cons, List.map_cons, (callOf_fst hx).1]
          exact ih.cons_cons _

/-- A thread is there for one request. -/
theorem route_of_mem_calls (hnd : ((requests es).map Prod.fst).Nodup) {x : ℕ × Request}
    (hx : x ∈ requests es) {c : Command} (hc : (x.1, c) ∈ calls a es) : route a x.2 = .call c := by
  obtain ⟨x', hx', hcall⟩ := List.mem_filterMap.mp hc
  obtain ⟨hfst, hroute⟩ := callOf_fst hcall
  obtain rfl := List.inj_on_of_nodup_map hnd hx hx' hfst
  exact hroute

theorem TimedOut.concat {k : ℕ} (h : TimedOut es k) (e : Event) : TimedOut (es ++ [e]) k :=
  h.imp (fun ⟨req, hreq⟩ => ⟨req, List.mem_append_left _ hreq⟩) fun h => List.mem_append_left _ h

theorem sent_append {k j : ℕ} {news : List (Answer N)}
    (ha : s'.answers = s.answers ++ news.map (Prod.mk j)) :
    sent s' k = sent s k ++ if j = k then news else [] := by
  rw [sent, ha, List.filter_append, List.map_append, List.filter_map, List.map_map, sent]
  congr 1
  split
  · next hjk => simp [Function.comp_def, hjk]
  · next hjk => simp [Function.comp_def, hjk]

theorem Answered.mono {p q : Prop} (hpq : p → q) {ans : Answer N} {l : List (Answer N)}
    (h : Answered p ans l) : Answered q ans l :=
  h.imp_right fun ⟨hp, hl⟩ => ⟨hpq hp, hl⟩

theorem answered_of_sends {p : Prop} {cut : Bool} (hcut : cut = true → p) {ans : Answer N}
    {l : List (Answer N)} (hl : l = sends ans cut) : Answered p ans l := by
  cases cut
  · exact .inl hl
  · exact .inr ⟨hcut rfl, hl⟩

/-- Nothing has happened to the thread; a write of it may have timed out. -/
theorem Settled.mono {p q : Prop} (hpq : p → q) {k : ℕ} {job : Job N} (h : Settled a p s k job)
    (hsent : sent s' k = sent s k) (hw : s'.waiting.count k = s.waiting.count k)
    (hexecuted : s.executed ⊆ s'.executed) : Settled a q s' k job := by
  cases job with
  | answer | static | silence | raise => exact hsent.trans h
  | reply =>
      simp only [Settled, hsent] at h ⊢
      exact h.mono hpq
  | state =>
      simp only [Settled, hsent] at h ⊢
      exact h.imp fun _ => Answered.mono hpq
  | stream =>
      simp only [Settled, hsent] at h ⊢
      exact h.imp_right (Answered.mono hpq)
  | call c =>
      simp only [Settled, hsent, hw] at h ⊢
      refine h.imp_right fun ⟨hzero, h⟩ => ⟨hzero, h.imp_right ?_⟩
      exact fun ⟨ans, hmem, hans⟩ => ⟨ans, hexecuted hmem, hans.mono hpq⟩

/-- A step that answers nothing and runs at most a command. -/
theorem Served.quiet {e : Event} (h : Served a es s) (hreq : requests [e] = [])
    (horder : s'.executed.map (fun x => (x.1, x.2.1)) ++ s'.queue =
      s.executed.map (fun x => (x.1, x.2.1)) ++ s.queue)
    (hexecuted : s.executed ⊆ s'.executed) (hw : s'.waiting = s.waiting)
    (ha : s'.answers = s.answers) : Served a (es ++ [e]) s' := by
  have hreqs : requests (es ++ [e]) = requests es := by
    rw [requests_concat, hreq, List.append_nil]
  have hcalls : calls a (es ++ [e]) = calls a es := by rw [calls, hreqs, calls]
  constructor
  · rw [hcalls, horder]
    exact h.order
  · rw [hcalls, hw]
    exact h.waits
  · rw [hreqs, ha]
    exact h.asked
  · rw [hreqs]
    exact fun x hx => (h.settled x hx).mono (·.concat e) (by rw [sent, ha, sent]) (by rw [hw])
      hexecuted

theorem Served.executeNext {sc : Scene} (h : Served a es s)
    (hn : s.executeNext exits sc = some s') : Served a (es ++ [.execute sc]) s' := by
  unfold Server.executeNext at hn
  split at hn
  · cases hn
    exact h.quiet rfl rfl (List.Subset.refl _) rfl rfl
  · next k c queue hqueue =>
      obtain ⟨⟨b, ans⟩, -, rfl⟩ := Option.map_eq_some_iff.mp hn
      refine h.quiet rfl ?_ (List.subset_append_left _ _) rfl rfl
      rw [hqueue, List.map_append, List.append_assoc]
      rfl

/-- A thread that waits answers. -/
theorem Served.finish {k : ℕ} {e : Event} (h : Served a es s)
    (hnd : ((requests es).map Prod.fst).Nodup) (hreq : requests [e] = []) (hk : k ∈ s.waiting)
    (news : List (Answer N))
    (hnews : ∀ c, (k, c) ∈ calls a es → news = [busy] ∨
      ∃ ans, (k, c, ans) ∈ s.executed ∧ Answered (TimedOut (es ++ [e]) k) ans news) :
    Served a (es ++ [e]) { s with
      answers := s.answers ++ news.map (Prod.mk k), waiting := s.waiting.erase k } := by
  have hreqs : requests (es ++ [e]) = requests es := by
    rw [requests_concat, hreq, List.append_nil]
  have hcalls : calls a (es ++ [e]) = calls a es := by rw [calls, hreqs, calls]
  obtain ⟨⟨k', c⟩, hc, rfl⟩ := List.mem_map.mp (h.waits k hk)
  constructor
  · rw [hcalls]
    exact h.order
  · rw [hcalls]
    exact fun j hj => h.waits j (List.mem_of_mem_erase hj)
  · rw [hreqs]
    refine List.forall_mem_append.mpr ⟨h.asked, List.forall_mem_map.mpr fun _ _ => ?_⟩
    exact (calls_fst_sublist a es).subset (h.waits _ hk)
  · rw [hreqs]
    intro x hx
    by_cases hkx : k' = x.1
    · have hroute : route a x.2 = .call c := route_of_mem_calls hnd hx (hkx ▸ hc)
      have hsettled := h.settled x hx
      rw [hroute] at hsettled ⊢
      have hpos : 0 < s.waiting.count k' := List.count_pos_iff.mpr hk
      -- a thread that waits has sent nothing
      rcases hsettled with ⟨hnone, hone⟩ | ⟨hzero, -⟩
      · refine .inr ⟨?_, ?_⟩
        · dsimp only
          rw [hkx, List.count_erase_self, hone]
        · rw [sent_append rfl, if_pos hkx, hnone, List.nil_append, ← hkx]
          exact hnews c hc
      · rw [← hkx] at hzero
        omega
    · refine (h.settled x hx).mono (·.concat e) ?_ ?_ (List.Subset.refl _)
      · rw [sent_append rfl, if_neg hkx, List.append_nil]
      · exact List.count_erase_of_ne (Ne.symm hkx)

theorem Served.collect (h : Served a es s) (hnd : ((requests es).map Prod.fst).Nodup) (k : ℕ)
    (cut : Bool) : Served a (es ++ [.collect k cut]) (s.collect k cut) := by
  unfold Server.collect
  split
  · exact h.quiet rfl rfl (List.Subset.refl _) rfl rfl
  · next k' c ans hfind =>
      split
      · next hk =>
          rw [send_eq]
          refine h.finish hnd rfl hk _ fun c' hc' => .inr ⟨ans, ?_, answered_of_sends ?_ rfl⟩
          · have hmem : (k', c, ans) ∈ s.executed := List.mem_of_find?_eq_some hfind
            obtain rfl : k' = k := by simpa using List.find?_some hfind
            have hc : (k', c) ∈ calls a es := by
              rw [← h.order]
              exact List.mem_append_left _ (List.mem_map_of_mem hmem)
            obtain rfl : c = c' := congrArg Prod.snd (List.inj_on_of_nodup_map
              (hnd.sublist (calls_fst_sublist a es)) hc hc' rfl)
            exact hmem
          · rintro rfl
            exact .inr (List.mem_append_right _ List.mem_cons_self)
      · exact h.quiet rfl rfl (List.Subset.refl _) rfl rfl

theorem Served.expire (h : Served a es s) (hnd : ((requests es).map Prod.fst).Nodup) (k : ℕ) :
    Served a (es ++ [.expire k]) (s.expire k) := by
  unfold Server.expire
  split
  · next hk => exact h.finish hnd rfl hk.1 [busy] fun _ _ => .inl rfl
  · exact h.quiet rfl rfl (List.Subset.refl _) rfl rfl

section Request

variable {k : ℕ} {req : Request} {cut : Bool}

theorem requests_request : requests (es ++ [.request k req cut]) = requests es ++ [(k, req)] :=
  requests_concat ..

theorem calls_eq_nil (h : ∀ c, route a req ≠ .call c) : calls a [.request k req cut] = [] := by
  refine List.filterMap_eq_nil_iff.mpr fun x hx => ?_
  cases List.mem_singleton.mp hx
  unfold callOf
  split
  · next c hc => exact absurd hc (h c)
  · rfl

theorem Served.nothing_sent (h : Served a es s) (hfresh : k ∉ (requests es).map Prod.fst) :
    sent s k = [] := by
  rw [sent, List.map_eq_nil_iff, List.filter_eq_nil_iff]
  intro x hx
  rw [decide_eq_true_eq]
  rintro rfl
  exact hfresh (h.asked x hx)

theorem Served.not_waiting (h : Served a es s) (hfresh : k ∉ (requests es).map Prod.fst) :
    s.waiting.count k = 0 :=
  List.count_eq_zero.mpr fun hk => hfresh ((calls_fst_sublist a es).subset (h.waits k hk))

theorem ne_of_fresh (hfresh : k ∉ (requests es).map Prod.fst) {x : ℕ × Request}
    (hx : x ∈ requests es) : k ≠ x.1 := by
  rintro rfl
  exact hfresh (List.mem_map_of_mem hx)

/-- A request that hands nothing over, whose thread sends these answers. -/
theorem Served.request_answered (h : Served a es s) (news : List (Answer N))
    (hfresh : k ∉ (requests es).map Prod.fst) (hcalls : ∀ c, route a req ≠ .call c)
    (hstate : s'.executed = s.executed ∧ s'.queue = s.queue ∧ s'.waiting = s.waiting)
    (ha : s'.answers = s.answers ++ news.map (Prod.mk k))
    (hsettled : sent s' k = news →
      Settled a (TimedOut (es ++ [.request k req cut]) k) s' k (route a req)) :
    Served a (es ++ [.request k req cut]) s' := by
  obtain ⟨hexecuted, hqueue, hwaiting⟩ := hstate
  have hcalls' : calls a (es ++ [.request k req cut]) = calls a es := by
    rw [calls_concat, calls_eq_nil hcalls, List.append_nil]
  have hsent : sent s' k = news := by
    rw [sent_append ha, if_pos rfl, h.nothing_sent hfresh, List.nil_append]
  refine ⟨?_, ?_, ?_, ?_⟩
  · rw [hexecuted, hqueue, hcalls']
    exact h.order
  · rw [hwaiting, hcalls']
    exact h.waits
  · rw [ha, requests_request, List.map_append]
    refine List.forall_mem_append.mpr ⟨fun x hx => List.mem_append_left _ (h.asked x hx), ?_⟩
    exact List.forall_mem_map.mpr fun _ _ => List.mem_append_right _ List.mem_cons_self
  · rw [requests_request]
    refine List.forall_mem_append.mpr
      ⟨fun x hx => ?_, List.forall_mem_singleton.mpr (hsettled hsent)⟩
    refine (h.settled x hx).mono (·.concat _) ?_ (by rw [hwaiting])
      (hexecuted ▸ List.Subset.refl _)
    rw [sent_append ha, if_neg (ne_of_fresh hfresh hx), List.append_nil]

theorem Served.submit {c : Command} (h : Served a es s) (hfresh : k ∉ (requests es).map Prod.fst)
    (hroute : route a req = .call c) : Served a (es ++ [.request k req cut]) (s.submit k c) := by
  have hcalls : calls a (es ++ [.request k req cut]) = calls a es ++ [(k, c)] := by
    rw [calls_concat]
    simp [calls, requests, callOf, hroute]
  refine ⟨?_, ?_, ?_, ?_⟩
  · rw [hcalls, ← h.order, List.append_assoc]
    rfl
  · rw [hcalls, List.map_append]
    exact List.forall_mem_append.mpr ⟨fun j hj => List.mem_append_left _ (h.waits j hj),
      List.forall_mem_singleton.mpr (List.mem_append_right _ List.mem_cons_self)⟩
  · rw [requests_request, List.map_append]
    exact fun x hx => List.mem_append_left _ (h.asked x hx)
  · rw [requests_request]
    refine List.forall_mem_append.mpr ⟨fun x hx => ?_, List.forall_mem_singleton.mpr ?_⟩
    · refine (h.settled x hx).mono (·.concat _) rfl ?_ (List.Subset.refl _)
      rw [Server.submit, List.count_append, List.count_singleton]
      simpa using (ne_of_fresh hfresh hx)
    · dsimp only
      rw [hroute]
      refine .inl ⟨h.nothing_sent hfresh, ?_⟩
      rw [Server.submit, List.count_append, h.not_waiting hfresh, List.count_singleton_self]

theorem Served.handle (h : Served a es s) (hfresh : k ∉ (requests es).map Prod.fst) :
    Served a (es ++ [.request k req cut]) (s.handle a k req cut) := by
  have hcut : cut = true → TimedOut (es ++ [.request k req cut]) k := by
    rintro rfl
    exact .inl ⟨req, List.mem_append_right _ List.mem_cons_self⟩
  have hnone : s.answers = s.answers ++ List.map (Prod.mk k) [] := (List.append_nil _).symm
  unfold Server.handle
  cases hroute : route a req with
  | answer ans =>
      refine h.request_answered [ans] hfresh (by simp [hroute]) ⟨rfl, rfl, rfl⟩ rfl fun hsent => ?_
      rw [hroute]
      exact hsent
  | static path =>
      refine h.request_answered [a.files path] hfresh (by simp [hroute]) ⟨rfl, rfl, rfl⟩ rfl
        fun hsent => ?_
      rw [hroute]
      exact hsent
  | reply ans =>
      simp only [send_eq]
      refine h.request_answered (sends ans cut) hfresh (by simp [hroute]) ⟨rfl, rfl, rfl⟩ rfl
        fun hsent => ?_
      rw [hroute]
      exact answered_of_sends hcut hsent
  | state =>
      simp only [send_eq]
      refine h.request_answered (sends _ cut) hfresh (by simp [hroute]) ⟨rfl, rfl, rfl⟩ rfl
        fun hsent => ?_
      rw [hroute]
      exact ⟨s.streams.pub.body, answered_of_sends hcut hsent⟩
  | stream =>
      simp only [Server.openStream, send_eq]
      split
      · refine h.request_answered [] hfresh (by simp [hroute]) ⟨rfl, rfl, rfl⟩ hnone
          fun hsent => ?_
        rw [hroute]
        exact .inl hsent
      · refine h.request_answered (sends _ cut) hfresh (by simp [hroute]) ⟨rfl, rfl, rfl⟩ rfl
          fun hsent => ?_
        rw [hroute]
        exact .inr (answered_of_sends hcut hsent)
  | call c => exact h.submit hfresh hroute
  | silence | raise =>
      refine h.request_answered [] hfresh (by simp [hroute]) ⟨rfl, rfl, rfl⟩ hnone fun hsent => ?_
      rw [hroute]
      exact hsent

end Request

theorem next_served {e : Event} (h : Served a es s)
    (hnd : ((requests (es ++ [e])).map Prod.fst).Nodup)
    (hn : next a exits autoPause s e = some s') : Served a (es ++ [e]) s' := by
  rw [requests_concat, List.map_append] at hnd
  have hnd' := (List.nodup_append.mp hnd).1
  cases e with
  | request k req cut =>
      cases hn
      refine h.handle fun hmem => ?_
      exact (List.nodup_append.mp hnd).2.2 _ hmem _ List.mem_cons_self rfl
  | execute sc => exact h.executeNext hn
  | collect k cut =>
      cases hn
      exact h.collect hnd' k cut
  | expire k =>
      cases hn
      exact h.expire hnd' k
  | tick now latest loadOn =>
      obtain ⟨b, b', -, -, rfl⟩ := tick_eq hn
      exact h.quiet rfl rfl (List.Subset.refl _) rfl rfl
  | stream k fails timedOut =>
      obtain ⟨streams, -, rfl⟩ := Option.map_eq_some_iff.mp hn
      exact h.quiet rfl rfl (List.Subset.refl _) rfl rfl
  | polled | restarting | close | pass =>
      cases hn
      exact h.quiet rfl rfl (List.Subset.refl _) rfl rfl

theorem init_served (start : ℚ) : Served a [] (Server.init N start) where
  order := rfl
  waits := fun _ hk => absurd hk List.not_mem_nil
  asked := fun _ hx => absurd hx List.not_mem_nil
  settled := fun _ hx => absurd hx List.not_mem_nil

theorem run_served (start : ℚ) (hnd : ((requests es).map Prod.fst).Nodup)
    (hrun : run a exits autoPause (.init N start) es = some s) : Served a es s := by
  induction es using List.reverseRecOn generalizing s with
  | nil =>
      cases hrun
      exact init_served start
  | append_singleton es e ih =>
      rw [run, List.foldlM_append] at hrun
      obtain ⟨s₁, hs₁, hlast⟩ := Option.bind_eq_some_iff.mp hrun
      rw [List.foldlM_cons] at hlast
      obtain ⟨s₂, hs₂, hend⟩ := Option.bind_eq_some_iff.mp hlast
      cases hend
      refine next_served (ih ?_ hs₁) hnd hs₂
      rw [requests_concat, List.map_append] at hnd
      exact (List.nodup_append.mp hnd).1

/-- No command is lost, run twice or overtaken, and no request is answered twice unless the write
of its answer times out: over every interleaving of requests, each by a thread of its own, with
the loop thread, with waits and writes that run out and with ticks, the commands handed over are
those that have run, followed by those that have not; the answer to a command is its result or
that the bridge is busy; and a second answer, that the bridge is busy, is given to a request
only behind one whose write has timed out. -/
theorem commands_exactly_once (a : Access N) (exits : Proc → Moment) (autoPause : Bool) (start : ℚ)
    (es : List Event) (hnd : ((requests es).map Prod.fst).Nodup) :
    ∃ s, run a exits autoPause (.init N start) es = some s ∧ Served a es s := by
  obtain ⟨s, hs, -⟩ : ∃ s, run a exits autoPause (.init N start) es = some s ∧
      Sound exits s := run_sound (init_sound N start) es
  exact ⟨s, hs, run_served start hnd hs⟩

end Once

def sampleAccess : Access 1 :=
  ⟨8790, "0123456789abcdef", [], fun _ => .ok .null, fun _ => failure 404 "not found"⟩

/-- A request with a JSON body, from a browser that has the token. -/
def sampleRequest (command : Method) (path : String) : Request :=
  ⟨command, path, some "127.0.0.1:8790", none, some "Bearer 0123456789abcdef",
    some "application/json", some "4", some [110, 117, 108, 108]⟩

/-- A reset whose thread gives up before the loop thread gets to it, a canvas that is `null`, and
a restart whose answer cannot be written. -/
def impatient : List Event :=
  [.request 1 (sampleRequest .post "/api/v1/session/reset") false,
    .request 2 (sampleRequest .put "/api/v1/desired") false, .expire 1,
    .request 3 (sampleRequest .post "/api/v1/lb/restart") false,
    .execute ⟨1, 1, fun _ => none, "5e55"⟩, .execute ⟨2, 2, fun _ => none, "5e56"⟩,
    .collect 3 true]

/-- The reset is refused and done all the same, the second request is left without an answer, and
the third one is accepted, done and refused. -/
theorem commands_exactly_once_impatient :
    ∃ s, run sampleAccess (fun _ => toLex (9, 0)) true (.init 1 0) impatient = some s ∧
      Served sampleAccess impatient s ∧ s.executed.map Prod.fst = [1, 3] ∧
      s.answers.map (fun x => (x.1, x.2.status)) = [(1, 503), (3, 202), (3, 503)] := by
  have hrun : (run sampleAccess (fun _ => toLex (9, 0)) true (.init 1 0) impatient).any
      (fun s => s.executed.map Prod.fst = [1, 3] ∧
        s.answers.map (fun x => (x.1, x.2.status)) = [(1, 503), (3, 202), (3, 503)]) = true := by
    decide +kernel
  obtain ⟨s, hs, h⟩ := (Option.any_eq_true _ _).mp hrun
  obtain ⟨s', hs', hserved⟩ :=
    commands_exactly_once sampleAccess (fun _ => toLex (9, 0)) true 0 impatient (by decide)
  cases hs.symm.trans hs'
  exact ⟨s, hs, hserved, of_decide_eq_true h⟩

/-! ### Requests without the token -/

section Untrusted

variable {N : ℕ} {a : Access N} {exits : Proc → Moment} {autoPause : Bool} {s s' : Server N}

/-- All but requests that are not trusted. -/
def visible (a : Access N) : Event → Bool
  | .request _ req _ => trusted a req
  | _ => true

/-- What is answered to the requests that are not trusted. -/
def refusals (a : Access N) : List Event → List (ℕ × Answer N) :=
  List.filterMap fun
    | .request k req _ =>
        if trusted a req then none else ((route a req).ownAnswer a).map (Prod.mk k)
    | _ => none

/-- What has been answered so far makes no difference. -/
theorem next_answers {e : Event} (hn : next a exits autoPause s e = some s') :
    ∃ news, s'.answers = s.answers ++ news ∧ ∀ l,
      next a exits autoPause { s with answers := l } e = some { s' with answers := l ++ news } := by
  cases e with
  | request k req cut =>
      cases hn
      simp only [next, Server.handle, Server.openStream, send_eq]
      cases route a req with
      | answer ans => exact ⟨[(k, ans)], rfl, fun _ => rfl⟩
      | reply ans => exact ⟨_, rfl, fun _ => rfl⟩
      | static path => exact ⟨[(k, a.files path)], rfl, fun _ => rfl⟩
      | state => exact ⟨_, rfl, fun _ => rfl⟩
      | stream =>
          dsimp only
          split
          · exact ⟨[], (List.append_nil _).symm, fun l => by rw [List.append_nil]⟩
          · exact ⟨_, rfl, fun _ => rfl⟩
      | call =>
          exact ⟨[], (List.append_nil _).symm, fun l => by rw [List.append_nil]; rfl⟩
      | silence | raise =>
          exact ⟨[], (List.append_nil _).symm, fun l => by rw [List.append_nil]⟩
  | execute sc =>
      simp only [next, Server.executeNext] at hn ⊢
      split at hn
      · next hq =>
          cases hn
          exact ⟨[], (List.append_nil _).symm, fun l => by simp [hq]⟩
      · next k c queue hq =>
          obtain ⟨⟨b, ans⟩, hexec, rfl⟩ := Option.map_eq_some_iff.mp hn
          exact ⟨[], (List.append_nil _).symm, fun l => by simp [hexec]⟩
  | collect k cut =>
      cases hn
      simp only [next, Server.collect, send_eq]
      split
      · exact ⟨[], (List.append_nil _).symm, fun l => by rw [List.append_nil]⟩
      · split
        · exact ⟨_, rfl, fun _ => rfl⟩
        · exact ⟨[], (List.append_nil _).symm, fun l => by rw [List.append_nil]⟩
  | expire k =>
      cases hn
      simp only [next, Server.expire]
      split
      · exact ⟨[(k, _)], rfl, fun _ => rfl⟩
      · exact ⟨[], (List.append_nil _).symm, fun l => by rw [List.append_nil]⟩
  | tick now latest loadOn =>
      obtain ⟨b, b', hb, hb', rfl⟩ := tick_eq hn
      have hb₀ : ∀ l, { s with answers := l }.unwatched autoPause = s.unwatched autoPause :=
        fun _ => rfl
      refine ⟨[], (List.append_nil _).symm, fun l => ?_⟩
      simp only [next, Server.tick, hb₀, hb, hb', Option.bind_eq_bind, Option.bind_some,
        List.append_nil]
      rfl
  | stream k fails timedOut =>
      obtain ⟨streams, hstreams, rfl⟩ := Option.map_eq_some_iff.mp hn
      refine ⟨[], (List.append_nil _).symm, fun l => ?_⟩
      simp only [next, hstreams, Option.map_some, List.append_nil]
  | polled | restarting | close | pass =>
      cases hn
      exact ⟨[], (List.append_nil _).symm, fun l => by rw [List.append_nil]; rfl⟩

theorem next_untrusted {k : ℕ} {req : Request} {cut : Bool} (hreq : trusted a req = false)
    (hn : next a exits autoPause s (.request k req cut) = some s') :
    s' = { s with answers := s.answers ++ refusals a [.request k req cut] } := by
  obtain ⟨ans, hans⟩ := ownAnswer_of_untrusted hreq
  have hrefusals : refusals a [.request k req cut] = [(k, ans)] := by
    simp [refusals, hreq, hans]
  rw [hrefusals]
  cases hn
  rcases route_untrusted hreq with ⟨status, msg, hroute, -⟩ | hroute
  · rw [hroute] at hans
    cases hans
    simp only [Server.handle, hroute]
    rfl
  · rw [hroute] at hans
    cases hans
    simp only [Server.handle, hroute]
    rfl

/-- The two servers differ in their answers only: one has given `extra` besides. -/
structure Beside (extra : List (ℕ × Answer N)) (s s₀ : Server N) : Prop where
  same : s = { s₀ with answers := s.answers }
  ordered : s₀.answers.Sublist s.answers
  answers : s.answers.Perm (s₀.answers ++ extra)

theorem Beside.next {extra : List (ℕ × Answer N)} {s₀ : Server N} {e : Event}
    (h : Beside extra s s₀) (hn : next a exits autoPause s e = some s') :
    ∃ s₀', next a exits autoPause s₀ e = some s₀' ∧ Beside extra s' s₀' := by
  obtain ⟨news, hnews, hframe⟩ := next_answers hn
  refine ⟨{ s' with answers := s₀.answers ++ news }, ?_, rfl, ?_, ?_⟩
  · have hstep := hframe s₀.answers
    rw [h.same] at hstep
    exact hstep
  · rw [hnews]
    exact h.ordered.append (List.Sublist.refl news)
  · rw [hnews]
    calc (s.answers ++ news).Perm ((s₀.answers ++ extra) ++ news) := h.answers.append_right news
      _ = s₀.answers ++ (extra ++ news) := List.append_assoc ..
      _ |>.Perm (s₀.answers ++ (news ++ extra)) := List.perm_append_comm.append_left _
      _ = s₀.answers ++ news ++ extra := (List.append_assoc ..).symm

theorem Beside.untrusted {extra : List (ℕ × Answer N)} {s₀ : Server N} {k : ℕ} {req : Request}
    {cut : Bool} (h : Beside extra s s₀) (hreq : trusted a req = false)
    (hn : BridgeServer.next a exits autoPause s (.request k req cut) = some s') :
    Beside (extra ++ refusals a [.request k req cut]) s' s₀ := by
  rw [next_untrusted hreq hn]
  refine ⟨?_, ?_, ?_⟩
  · conv_lhs => rw [h.same]
  · exact h.ordered.trans (List.sublist_append_left _ _)
  · dsimp only
    rw [← List.append_assoc]
    exact h.answers.append_right _

theorem Beside.run {es : List Event} {extra : List (ℕ × Answer N)} {s₀ : Server N}
    (h : Beside extra s s₀) (hrun : BridgeServer.run a exits autoPause s es = some s') :
    ∃ s₀', BridgeServer.run a exits autoPause s₀ (es.filter (visible a)) = some s₀' ∧
      Beside (extra ++ refusals a es) s' s₀' := by
  induction es generalizing s s₀ extra with
  | nil =>
      cases hrun
      exact ⟨s₀, rfl, by rwa [show refusals a [] = [] from rfl, List.append_nil]⟩
  | cons e es ih =>
      rw [BridgeServer.run, List.foldlM_cons] at hrun
      obtain ⟨s₁, hs₁, hrest⟩ := Option.bind_eq_some_iff.mp hrun
      have hrefusals : refusals a (e :: es) = refusals a [e] ++ refusals a es :=
        List.filterMap_append (l := [e]) ..
      cases hv : visible a e with
      | true =>
          have hnone : refusals a [e] = [] := by
            cases e with
            | request k req cut => simp [refusals, show trusted a req = true from hv]
            | _ => rfl
          obtain ⟨s₀₁, hs₀₁, h₁⟩ := h.next hs₁
          obtain ⟨s₀', hrun', h'⟩ := ih h₁ hrest
          refine ⟨s₀', ?_, by rwa [hrefusals, hnone, List.nil_append]⟩
          rw [List.filter_cons_of_pos hv, BridgeServer.run, List.foldlM_cons, hs₀₁]
          exact hrun'
      | false =>
          cases e with
          | request k req cut =>
              obtain ⟨s₀', hrun', h'⟩ := ih (h.untrusted hv hs₁) hrest
              refine ⟨s₀', ?_, by rwa [hrefusals, ← List.append_assoc]⟩
              rw [List.filter_cons_of_neg (by rw [hv]; exact Bool.false_ne_true)]
              exact hrun'
          | _ => cases hv

/-- Requests without this server's name as host, from another site or without the token change
nothing and learn nothing: with them or without them the bridge, its reconciler, the streams and
the commands are the same and everybody else is answered the same in the same order, and what
they are answered is the same whatever the bridge does. -/
theorem untrusted_ignored (a : Access N) (exits : Proc → Moment) (autoPause : Bool) (start : ℚ)
    (es : List Event) :
    ∃ s s₀, BridgeServer.run a exits autoPause (.init N start) es = some s ∧
      BridgeServer.run a exits autoPause (.init N start) (es.filter (visible a)) = some s₀ ∧
      s = { s₀ with answers := s.answers } ∧ s₀.answers.Sublist s.answers ∧
      s.answers.Perm (s₀.answers ++ refusals a es) := by
  obtain ⟨s, hs, -⟩ : ∃ s, BridgeServer.run a exits autoPause (.init N start) es = some s ∧
      Sound exits s := run_sound (init_sound N start) es
  have hinit : Beside [] (Server.init N start) (Server.init N start) := ⟨rfl, .refl _, .refl _⟩
  obtain ⟨s₀, hs₀, h⟩ := hinit.run hs
  exact ⟨s, s₀, hs, hs₀, h.same, h.ordered, h.answers⟩

end Untrusted

end MaglevLb.BridgeServer
