import MaglevLb.ConnPool
import MaglevLb.DesiredLanguage

/-!
# Commands to the children

What the executor writes to a child, as the object that the child parses, and what the child
makes of it. A child takes a number only if it lies in bounds of its own; they are those of
the schema, so a command with accepted settings is taken as a whole. Traffic leaves a
child's settings alone.
-/
namespace MaglevLb.ControlCommands

open Children DesiredLanguage
open Schema (Json get?)
open ServiceServer (bounded numeric num numInt truncate)

/-! ### Commands -/

/-- `{"op": "config", **cfg}` -/
def configCommand {C : Type} (k : Kind C) (cfg : C) : Members :=
  ("op", .str "config") :: k.settings.map fun s => (s.name, encodeNumber s.integer (s.get cfg))

/-- It makes no difference whether a number is written as an integer or as a float. -/
def command : Message → Members
  | .clear => [("op", .str "clear")]
  | .fault slowFactor errorRate =>
      [("op", .str "fault"), ("slowFactor", .num (.float slowFactor)),
        ("errorRate", .num (.float errorRate))]
  | .resetStats => [("op", .str "reset_stats")]
  | .backendConfig cfg => configCommand backendKind cfg
  | .clientConfig cfg => configCommand clientKind cfg
  | .load enabled => [("op", .str "load"), ("enabled", .bool enabled)]

/-- Every setting is one that the schema accepts. -/
def Accepted {C : Type} (k : Kind C) (cfg : C) : Prop := ∀ s ∈ k.settings, s.Fits (s.get cfg)

/-- A message with accepted numbers. -/
def MessageAccepted : Message → Prop
  | .backendConfig cfg => Accepted backendKind cfg
  | .clientConfig cfg =>
      Accepted clientKind cfg ∧ (cfg.maxConnAgeMs = 0 ∨ 1000 ≤ cfg.maxConnAgeMs)
  | .fault slowFactor errorRate => Fits 1 50 false slowFactor ∧ Fits 0 1 false errorRate
  | _ => True

/-! ### Reading a number -/

theorem truncate_intCast (z : ℤ) : truncate (z : ℚ) = z := by
  rw [truncate, Rat.num_intCast, Rat.den_intCast, Nat.cast_one, Int.tdiv_one]

theorem bounded_of_fits {lo hi : ℤ} {integer : Bool} {q : ℚ} (h : Fits lo hi integer q) :
    bounded lo hi q = some q :=
  if_neg (not_or.mpr ⟨not_lt.mpr h.1, not_lt.mpr h.2.1⟩)

theorem numeric_of_get? {cmd : Members} {key : String} {lo hi : ℤ} {integer : Bool} {q : ℚ}
    (hget : get? cmd key = some (encodeNumber integer q)) (h : Fits lo hi integer q) :
    numeric cmd key lo hi = some q := by
  rw [numeric, hget]
  cases integer with
  | false => exact bounded_of_fits h
  | true =>
      change bounded lo hi (q.num : ℚ) = some q
      rw [num_of_fits h]
      exact bounded_of_fits h

section Config

variable {C : Type} {k : Kind C} {cfg : C}

theorem numeric_config (hop : ∀ s ∈ k.settings, s.name ≠ "op") (h : Accepted k cfg)
    {s : Setting C} (hs : s ∈ k.settings) :
    numeric (configCommand k cfg) s.name s.lo s.hi = some (s.get cfg) := by
  refine numeric_of_get? ?_ (h s hs)
  have hget := get?_map (fun s : Setting C => s.name)
    (fun s => encodeNumber s.integer (s.get cfg)) (List.nodup_cons.mp k.distinct).2 hs
  simpa [get?, configCommand, (hop s hs).symm] using hget

end Config

/-! ### A responder -/

/-- What a responder's behaviour depends on besides its traffic. -/
@[ext] structure Knobs where
  config : BackendConfig
  slowFactor : ℚ
  faultErrorRate : ℚ
  deriving DecidableEq

def Knobs.start (cfg : BackendConfig) : Knobs := ⟨cfg, 1, 0⟩

/-- What a responder is to make of a message. -/
def Knobs.obey (k : Knobs) : Message → Knobs
  | .backendConfig cfg => { k with config := cfg }
  | .fault slowFactor errorRate => { k with slowFactor := slowFactor, faultErrorRate := errorRate }
  | .clear => { k with slowFactor := 1, faultErrorRate := 0 }
  | _ => k

section Responder

open ServiceServer

variable {Conn : Type*}

def knobs (s : Server Conn) : Knobs where
  config := ⟨s.capacity, s.serviceMs, s.serviceCv, s.queueLimit, s.errorRate⟩
  slowFactor := s.slowFactor
  faultErrorRate := s.faultErrorRate

theorem knobs_admitFrom (l : List (Request Conn)) (s : Server Conn) :
    knobs (admitFrom l s) = knobs s := by
  induction l generalizing s with
  | nil => rfl
  | cons q l ih =>
      unfold admitFrom
      split
      · exact ih (start q s)
      · rfl

theorem knobs_reply (conn : Conn) (text : Reply) (close : Bool) (s : Server Conn) :
    knobs (reply conn text close s).1 = knobs s := by
  unfold reply
  split
  · split <;> rfl
  · rfl

theorem knobs_submit (q : Request Conn) (s : Server Conn) : knobs (submit q s) = knobs s := by
  unfold submit
  dsimp only
  split
  · rfl
  · split
    · rfl
    · exact knobs_reply ..

theorem knobs_serveBegin (startMs : ℚ) (s : Server Conn) :
    knobs (serveBegin startMs s) = knobs s := by
  unfold serveBegin
  split
  · rfl
  · dsimp only
    split <;> rfl

theorem knobs_answer (q : Request Conn) (startMs endMs roll : ℚ) (s : Server Conn) :
    knobs (answer q startMs endMs roll s).1 = knobs s := by
  unfold answer
  dsimp only
  split
  · exact knobs_reply ..
  · rfl

theorem knobs_serveEnd (k : ℕ) (roll endMs : ℚ) (s : Server Conn) :
    knobs (serveEnd k roll endMs s) = knobs s := by
  unfold serveEnd
  split
  · rfl
  · next q startMs _ =>
      have hanswer := knobs_answer q startMs endMs roll { s with serving := s.serving.eraseIdx k }
      dsimp only
      split
      · exact (knobs_admitFrom ..).trans hanswer
      · exact hanswer

theorem backend_numbers {cfg : BackendConfig} (h : Accepted backendKind cfg) :
    let cmd := configCommand backendKind cfg
    numeric cmd "capacity" 1 256 = some (cfg.capacity : ℚ) ∧
      numeric cmd "serviceMs" 1 2000 = some cfg.serviceMs ∧
      numeric cmd "serviceCv" 0 3 = some cfg.serviceCv ∧
      numeric cmd "queueLimit" 0 4096 = some (cfg.queueLimit : ℚ) ∧
      numeric cmd "errorRate" 0 1 = some cfg.errorRate := by
  have hop : ∀ s ∈ backendKind.settings, s.name ≠ "op" := by
    simp [backendKind, Schema.backendFields]
  have hread : ∀ s ∈ backendKind.settings,
      numeric (configCommand backendKind cfg) s.name s.lo s.hi = some (s.get cfg) :=
    fun s hs => numeric_config hop h hs
  generalize configCommand backendKind cfg = cmd at hread ⊢
  simpa [backendKind, Schema.backendFields] using hread

theorem config_op {C : Type} (k : Kind C) (cfg : C) :
    get? (configCommand k cfg) "op" = some (.str "config") := by
  simp [get?, configCommand]

theorem knobs_config {cmd : Members} (hop : get? cmd "op" = some (.str "config"))
    (s : Server Conn) :
    knobs (onCommand cmd s) =
      { knobs s with config :=
          ⟨numInt cmd "capacity" 1 256 s.capacity, num cmd "serviceMs" 1 2000 s.serviceMs,
            num cmd "serviceCv" 0 3 s.serviceCv, numInt cmd "queueLimit" 0 4096 s.queueLimit,
            num cmd "errorRate" 0 1 s.errorRate⟩ } := by
  rw [onCommand, hop]
  exact knobs_admitFrom ..

/-- A responder obeys a message with accepted numbers. -/
theorem knobs_onCommand {m : Message} (hm : MessageAccepted m) (s : Server Conn) :
    knobs (onCommand (command m) s) = (knobs s).obey m := by
  cases m with
  | clear => rfl
  | resetStats => rfl
  | load enabled => rfl
  | fault slowFactor errorRate =>
      have hslow : numeric (command (.fault slowFactor errorRate)) "slowFactor" 1 50 =
          some slowFactor := bounded_of_fits hm.1
      have herror : numeric (command (.fault slowFactor errorRate)) "errorRate" 0 1 =
          some errorRate := bounded_of_fits hm.2
      have hop : get? (command (.fault slowFactor errorRate)) "op" = some (.str "fault") := rfl
      rw [onCommand, hop]
      simp only [num, hslow, herror, Option.getD_some]
      rfl
  | backendConfig cfg =>
      obtain ⟨hcapacity, hservice, hcv, hqueue, herror⟩ := backend_numbers hm
      rw [command, knobs_config (config_op ..)]
      simp only [numInt, num, hcapacity, hservice, hcv, hqueue, herror, Option.map_some,
        Option.getD_some, truncate_intCast]
      rfl
  | clientConfig cfg =>
      -- none of its keys is one of a responder's
      have hnone : ∀ key ∈ ["capacity", "serviceMs", "serviceCv", "queueLimit", "errorRate"],
          get? (configCommand clientKind cfg) key = none := by
        simp [get?, configCommand, clientKind, Schema.clientFields]
      simp only [List.forall_mem_cons] at hnone
      obtain ⟨hcapacity, hservice, hcv, hqueue, herror, -⟩ := hnone
      rw [command, knobs_config (config_op ..)]
      simp only [numInt, num, numeric, hcapacity, hservice, hcv, hqueue, herror, Option.map_none,
        Option.getD_none]
      rfl

def commandOf : Event Conn → Option Members
  | .command cmd => some cmd
  | _ => none

/-- A responder that gets some messages, in order and among any traffic. -/
theorem knobs_run [DecidableEq Conn] {ms : List Message} (hms : ∀ m ∈ ms, MessageAccepted m)
    {es : List (Event Conn)} (hes : es.filterMap commandOf = ms.map command) (s : Server Conn) :
    knobs (run s es) = ms.foldl Knobs.obey (knobs s) := by
  induction es generalizing s ms with
  | nil =>
      obtain rfl := List.map_eq_nil_iff.mp hes.symm
      rfl
  | cons e es ih =>
      cases e with
      | command cmd =>
          cases ms with
          | nil => cases hes
          | cons m ms =>
              obtain ⟨hm, hms⟩ := List.forall_mem_cons.mp hms
              obtain ⟨rfl, hrest⟩ := List.cons.inj hes
              rw [List.foldl_cons, ← knobs_onCommand hm]
              exact ih hms hrest _
      | submit q =>
          rw [← knobs_submit q s]
          exact ih hms hes _
      | serveBegin startMs =>
          rw [← knobs_serveBegin startMs s]
          exact ih hms hes _
      | serveEnd k roll endMs =>
          rw [← knobs_serveEnd k roll endMs s]
          exact ih hms hes _
      | connectionMade conn => exact ih hms hes _
      | connectionLost conn => exact ih hms hes _

end Responder

/-! ### A load generator -/

/-- What a load generator is told: its settings, and whether it is to generate load. -/
abbrev Told := ClientConfig × Bool

def obeyClient (told : Told) : Message → Told
  | .clientConfig cfg => (cfg, told.2)
  | .load enabled => (told.1, enabled)
  | _ => told

theorem client_numbers {cfg : ClientConfig} (h : Accepted clientKind cfg) :
    let cmd := configCommand clientKind cfg
    numeric cmd "rps" 0 2000 = some cfg.rps ∧
      numeric cmd "timeoutMs" 50 10000 = some cfg.timeoutMs ∧
      numeric cmd "retries" 0 5 = some (cfg.retries : ℚ) ∧
      numeric cmd "poolSize" 0 64 = some (cfg.poolSize : ℚ) ∧
      numeric cmd "maxConnAgeMs" 0 60000 = some (cfg.maxConnAgeMs : ℚ) := by
  have hop : ∀ s ∈ clientKind.settings, s.name ≠ "op" := by
    simp [clientKind, Schema.clientFields]
  have hread : ∀ s ∈ clientKind.settings,
      numeric (configCommand clientKind cfg) s.name s.lo s.hi = some (s.get cfg) :=
    fun s hs => numeric_config hop h hs
  generalize configCommand clientKind cfg = cmd at hread ⊢
  simpa [clientKind, Schema.clientFields] using hread

section Scheduler

open LoadClient

/-- The settings that the scheduler and the requests read. -/
structure Follows (told : Told) (c : Client) : Prop where
  rps : c.rps = told.1.rps
  timeoutMs : c.timeoutMs = told.1.timeoutMs
  retries : c.retries = told.1.retries
  loadEnabled : c.loadEnabled = told.2

variable {told : Told} {c c' : Client}

theorem follows_nextAttempt (t : Task) (c : Client) (h : Follows told c) :
    Follows told (nextAttempt t c) := by
  unfold LoadClient.nextAttempt
  split
  · exact ⟨h.rps, h.timeoutMs, h.retries, h.loadEnabled⟩
  · exact ⟨h.rps, h.timeoutMs, h.retries, h.loadEnabled⟩

theorem Follows.arrive (h : Follows told c) (now gap : ℚ) : Follows told (arrive now gap c) := by
  unfold LoadClient.arrive acceptArrival
  dsimp only
  split
  · exact ⟨h.rps, h.timeoutMs, h.retries, h.loadEnabled⟩
  · exact ⟨h.rps, h.timeoutMs, h.retries, h.loadEnabled⟩

theorem Follows.burst (h : Follows told c) {now : ℚ} {gaps : List ℚ}
    (hburst : burst now gaps c = some c') : Follows told c' := by
  induction gaps generalizing c with
  | nil =>
      unfold LoadClient.burst at hburst
      split at hburst
      · cases hburst
      · cases hburst
        exact h
  | cons gap gaps ih =>
      unfold LoadClient.burst at hburst
      split at hburst
      · exact ih (h.arrive now gap) hburst
      · cases hburst
        exact h

theorem Follows.turn (h : Follows told c) {wokeT now : ℚ} {gaps : List ℚ}
    (hturn : turn wokeT now gaps c = some c') : Follows told c' := by
  obtain ⟨nextT, paused, hwake⟩ := wake_frame wokeT c
  unfold LoadClient.turn at hturn
  dsimp only at hturn
  rw [hwake] at hturn
  split at hturn
  · exact Follows.burst (c := { c with nextT := nextT, paused := paused })
      ⟨h.rps, h.timeoutMs, h.retries, h.loadEnabled⟩ hturn
  · cases hturn
    exact ⟨h.rps, h.timeoutMs, h.retries, h.loadEnabled⟩

/-- A load generator obeys a message with accepted numbers. -/
theorem Follows.onCommand (h : Follows told c) {m : Message} (hm : MessageAccepted m) :
    Follows (obeyClient told m) (onCommand (command m) c) := by
  cases m with
  | clear | resetStats | fault => exact ⟨h.rps, h.timeoutMs, h.retries, h.loadEnabled⟩
  | load enabled => exact ⟨h.rps, h.timeoutMs, h.retries, rfl⟩
  | clientConfig cfg =>
      obtain ⟨hrps, htimeout, hretries, -, -⟩ := client_numbers hm.1
      rw [command, LoadClient.onCommand, config_op]
      refine ⟨?_, ?_, ?_, h.loadEnabled⟩
      · exact congrArg (Option.getD · c.rps) hrps
      · exact congrArg (Option.getD · c.timeoutMs) htimeout
      · dsimp only [numInt]
        rw [hretries, Option.map_some, Option.getD_some, truncate_intCast]
        rfl
  | backendConfig cfg =>
      -- none of its keys is one of a load generator's
      have hnone : ∀ key ∈ ["rps", "timeoutMs", "retries"],
          get? (configCommand backendKind cfg) key = none := by
        simp [get?, configCommand, backendKind, Schema.backendFields]
      simp only [List.forall_mem_cons] at hnone
      obtain ⟨hrps, htimeout, hretries, -⟩ := hnone
      rw [command, LoadClient.onCommand, config_op]
      simp only [numInt, num, numeric, hrps, htimeout, hretries, Option.map_none, Option.getD_none]
      exact ⟨h.rps, h.timeoutMs, h.retries, h.loadEnabled⟩

/-- Everything else leaves the settings alone. -/
theorem Follows.step (h : Follows told c) {e : Event} (he : ∀ cmd, e ≠ .command cmd) :
    Follows told (step c e) := by
  cases e with
  | turn wokeT now gaps =>
      rw [LoadClient.step]
      cases hturn : LoadClient.turn wokeT now gaps c with
      | none => exact h
      | some c' => exact h.turn hturn
  | requestBegin k =>
      rw [LoadClient.step, requestBegin]
      split
      · exact h
      · exact follows_nextAttempt _ _ ⟨h.rps, h.timeoutMs, h.retries, h.loadEnabled⟩
  | attemptEnd k result =>
      rw [LoadClient.step, attemptEnd]
      split
      · exact h
      · split
        · exact h
        · dsimp only
          split
          · exact ⟨h.rps, h.timeoutMs, h.retries, h.loadEnabled⟩
          · split
            · exact ⟨h.rps, h.timeoutMs, h.retries, h.loadEnabled⟩
            · exact follows_nextAttempt _ _ ⟨h.rps, h.timeoutMs, h.retries, h.loadEnabled⟩
  | backoffEnd k =>
      rw [LoadClient.step, backoffEnd]
      split
      · exact h
      · split
        · exact follows_nextAttempt _ _ ⟨h.rps, h.timeoutMs, h.retries, h.loadEnabled⟩
        · exact h
  | requestRaise k =>
      rw [LoadClient.step, requestRaise]
      split
      · exact ⟨h.rps, h.timeoutMs, h.retries, h.loadEnabled⟩
      · exact h
  | stats => exact ⟨h.rps, h.timeoutMs, h.retries, h.loadEnabled⟩
  | command cmd => exact absurd rfl (he cmd)

def clientCommandOf : Event → Option Members
  | .command cmd => some cmd
  | _ => none

theorem Follows.run (h : Follows told c) {ms : List Message} (hms : ∀ m ∈ ms, MessageAccepted m)
    {es : List Event} (hes : es.filterMap clientCommandOf = ms.map command) :
    Follows (ms.foldl obeyClient told) (run c es) := by
  induction es generalizing c told ms with
  | nil =>
      obtain rfl := List.map_eq_nil_iff.mp hes.symm
      exact h
  | cons e es ih =>
      cases e with
      | command cmd =>
          cases ms with
          | nil => cases hes
          | cons m ms =>
              obtain ⟨hm, hms⟩ := List.forall_mem_cons.mp hms
              obtain ⟨rfl, hrest⟩ := List.cons.inj hes
              exact ih (h.onCommand hm) hms hrest
      | turn | requestBegin | attemptEnd | backoffEnd | requestRaise | stats =>
          exact ih (h.step (by rintro _ ⟨⟩)) hms hes

end Scheduler

section Pool

open ConnPool

/-- The settings that the pool's task reads. -/
structure Pools (cfg : ClientConfig) (c : Client) : Prop where
  poolSize : c.poolSize = cfg.poolSize
  maxConnAgeMs : c.maxConnAgeMs = cfg.maxConnAgeMs

variable {cfg cfg' : ClientConfig} {c : Client}

theorem pools_config (hcfg : Accepted clientKind cfg')
    (hage : cfg'.maxConnAgeMs = 0 ∨ 1000 ≤ cfg'.maxConnAgeMs) (c : Client) :
    Pools cfg' (config (configCommand clientKind cfg') c) := by
  obtain ⟨-, -, -, hpool, hmax⟩ := client_numbers hcfg
  constructor
  · simp only [config, numInt, hpool, Option.map_some, Option.getD_some, truncate_intCast]
  · simp only [config, hmax, Option.map_some, truncate_intCast, if_pos hage]

theorem Pools.pickConn (h : Pools cfg c) : Pools cfg (pickConn c).2 := by
  unfold ConnPool.pickConn
  split
  · exact h
  · exact ⟨h.poolSize, h.maxConnAgeMs⟩

theorem Pools.attemptPooled (h : Pools cfg c) : Pools cfg (attemptPooled c) := by
  have hpick := h.pickConn
  unfold ConnPool.attemptPooled
  split
  · next hnone =>
      rw [hnone] at hpick
      exact hpick
  · next hsome =>
      rw [hsome] at hpick
      exact ⟨hpick.poolSize, hpick.maxConnAgeMs⟩

/-- Everything but a command leaves the settings alone. -/
theorem Pools.step (h : Pools cfg c) {e : Event} (he : ∀ cmd, e ≠ .config cmd) :
    Pools cfg (step c e) := by
  cases e with
  | tick nowMs =>
      rw [ConnPool.step]
      split
      · exact ⟨h.poolSize, h.maxConnAgeMs⟩
      · exact h
  | connected nowMs =>
      rw [ConnPool.step, connected]
      split
      · exact ⟨h.poolSize, h.maxConnAgeMs⟩
      · exact h
  | connectFailed | dial | takeId | data | cancel | forget => exact ⟨h.poolSize, h.maxConnAgeMs⟩
  | attemptPooled => exact h.attemptPooled
  | attemptSingle i id =>
      rw [ConnPool.step, attemptSingle]
      split
      · exact ⟨h.poolSize, h.maxConnAgeMs⟩
      · exact h
  | abort i =>
      rw [ConnPool.step]
      split
      · exact ⟨h.poolSize, h.maxConnAgeMs⟩
      · exact h
  | lost i =>
      rw [ConnPool.step]
      split
      · exact ⟨h.poolSize, h.maxConnAgeMs⟩
      · exact h
  | config cmd => exact absurd rfl (he cmd)

def poolCommandOf : Event → Option Members
  | .config cmd => some cmd
  | _ => none

theorem Pools.run_configs (h : Pools cfg c) {cfgs : List ClientConfig}
    (hcfgs : ∀ cfg ∈ cfgs, MessageAccepted (.clientConfig cfg)) {es : List Event}
    (hes : es.filterMap poolCommandOf = cfgs.map (configCommand clientKind)) :
    Pools (cfgs.foldl (fun _ cfg => cfg) cfg) (run c es) := by
  induction es generalizing c cfg cfgs with
  | nil =>
      obtain rfl := List.map_eq_nil_iff.mp hes.symm
      exact h
  | cons e es ih =>
      cases e with
      | config cmd =>
          cases cfgs with
          | nil => cases hes
          | cons cfg' cfgs =>
              obtain ⟨hcfg, hcfgs⟩ := List.forall_mem_cons.mp hcfgs
              obtain ⟨rfl, hrest⟩ := List.cons.inj hes
              exact ih (pools_config hcfg.1 hcfg.2 c) hcfgs hrest
      | tick | connected | connectFailed | attemptPooled | dial | attemptSingle | takeId | data
      | cancel | forget | abort | lost => exact ih (h.step (by rintro _ ⟨⟩)) hcfgs hes

/-- The settings in a message. -/
def configOf : Message → Option ClientConfig
  | .clientConfig cfg => some cfg
  | _ => none

theorem foldl_obeyClient (ms : List Message) (told : Told) :
    (ms.foldl obeyClient told).1 = (ms.filterMap configOf).foldl (fun _ cfg => cfg) told.1 := by
  induction ms generalizing told with
  | nil => rfl
  | cons m ms ih => cases m <;> exact ih _

theorem Pools.run {told : Told} (h : Pools told.1 c) {ms : List Message}
    (hms : ∀ m ∈ ms, MessageAccepted m) {es : List Event}
    (hes : es.filterMap poolCommandOf = (ms.filterMap configOf).map (configCommand clientKind)) :
    Pools (ms.foldl obeyClient told).1 (run c es) := by
  rw [foldl_obeyClient]
  refine h.run_configs (fun cfg hcfg => ?_) hes
  obtain ⟨m, hm, hconfig⟩ := List.mem_filterMap.mp hcfg
  cases m with
  | clientConfig cfg' =>
      cases hconfig
      exact hms _ hm
  | clear | fault | resetStats | backendConfig | load => cases hconfig

end Pool

end MaglevLb.ControlCommands
