import MaglevLb.Children
import MaglevLb.OrderedDict

/-!
# Backend slots of the reconciler

Slot `n` is maglev-lb's backend `n - 1`; here it goes by the latter number. A
visit is what an action, a reset or one loop of a step does with one slot: it
sees that slot and the executor only. Arithmetic on a time that is not set has
no result.
-/
namespace MaglevLb.Slots

open Children OrderedDict

def backendSlotDrainQuietMs : ℚ := 1000

def backendSlotDrainMaxMs : ℚ := 30000

def backendStopKillAfterMs : ℚ := 2000

inductive Phase where
  | free | starting | serving | unhealthy | draining | crashed | stopping
  deriving DecidableEq, Repr

/-- The phases in which the responder is expected to run. -/
def Phase.running (p : Phase) : Bool :=
  p = .starting || p = .serving || p = .unhealthy || p = .draining

inductive Fault where
  | crash (sinceMs : ℚ)
  | slow (sinceMs factor : ℚ)
  | errors (sinceMs rate : ℚ)
  | partition (sinceMs : ℚ)
  deriving DecidableEq, Repr

inductive ActionKind where
  | crash
  | slow (factor : ℚ)
  | errors (rate : ℚ)
  | partition
  | restart
  | clear
  | drain
  | undrain
  deriving DecidableEq, Repr

/-- What maglev-lb's metrics say about one backend. -/
structure Observation where
  up : Option Bool := none
  adminEnabled : Option Bool := none
  deriving DecidableEq, Repr

/-- The fields of a responder's latest report that the reconciler reads. -/
structure Stats where
  busy : Option ℤ := none
  queued : Option ℤ := none
  openConns : Option ℤ := none
  deriving DecidableEq, Repr

def Stats.idle (st : Stats) : Bool :=
  st.busy.getD 1 = 0 && st.queued.getD 1 = 0 && st.openConns.getD 1 = 0

structure BackendNode (Id : Type*) where
  id : Id
  config : BackendConfig
  attached : Bool
  deriving DecidableEq

/-- `handle` is the seed of the slot's responder. -/
structure Slot (Id : Type*) where
  owner : Option Id
  phase : Phase
  handle : Option ℕ
  config : Option BackendConfig
  fault : Option Fault
  manualDrain : Bool
  removing : Bool
  drainSince : Option ℚ
  quietSince : Option ℚ
  stopSince : Option ℚ
  killed : Bool
  partitioned : Bool
  deriving DecidableEq

/-- A slot and the executor, as one visit sees them. -/
structure Site (Id : Type*) where
  slot : Slot Id
  ex : Executor

variable {Id : Type*}

def Slot.cleared : Slot Id where
  owner := none
  phase := .free
  handle := none
  config := none
  fault := none
  manualDrain := false
  removing := false
  drainSince := none
  quietSince := none
  stopSince := none
  killed := false
  partitioned := false

/-- The responder of the slot with maglev-lb id `i`. -/
def Slot.proc (s : Slot Id) (i : ℕ) : Option Proc := s.handle.map (Proc.backend (i + 1))

variable (exits : Proc → Moment) (now : ℚ) (i : ℕ)

def spawn (cfg : BackendConfig) (v : Site Id) : Site Id :=
  let ex := v.ex.spawnBackend (i + 1) cfg
  ⟨{ v.slot with
      handle := some ex.seed, config := some cfg, phase := .starting, killed := false }, ex⟩

def undrain (v : Site Id) : Site Id :=
  ⟨{ v.slot with
      manualDrain := false
      phase := if v.slot.phase = .draining then .serving else v.slot.phase },
    v.ex.call (.admin .undrain i)⟩

def beginStop (v : Site Id) : Site Id :=
  let ex := v.ex.tick
  let ex := if v.ex.alive exits (v.slot.proc i) then ex.call (.terminate (v.slot.proc i)) else ex
  ⟨{ v.slot with phase := .stopping, stopSince := some now }, ex⟩

/-- Python's truth value of a time that may be unset: zero is false. -/
def truthy (t : Option ℚ) : Bool := t.any (· ≠ 0)

/-- `quiet_since` after a look at the responder's report. -/
def quietAfter (idle : Bool) (quietSince : Option ℚ) : Option ℚ :=
  if idle then (if truthy quietSince then quietSince else some now) else none

/-- `quiet_since and now - quiet_since >= BACKEND_SLOT_DRAIN_QUIET_MS` -/
def quietOver (quietSince : Option ℚ) : Bool :=
  truthy quietSince && quietSince.any fun t => backendSlotDrainQuietMs ≤ now - t

/-- A draining slot under removal. -/
def drainFurther (idle : Bool) (v : Site Id) : Option (Site Id) :=
  let s := { v.slot with quietSince := quietAfter now idle v.slot.quietSince }
  if quietOver now s.quietSince then some (beginStop exits now i ⟨s, v.ex⟩)
  else
    s.drainSince.map fun since =>
      if backendSlotDrainMaxMs ≤ now - since then beginStop exits now i ⟨s, v.ex⟩ else ⟨s, v.ex⟩

/-- A stopping slot, whose responder was just seen alive or not. -/
def stopFurther (up alive : Bool) (v : Site Id) : Option (Site Id) :=
  if alive then
    v.slot.stopSince.map fun since =>
      if backendStopKillAfterMs ≤ now - since then ⟨v.slot, v.ex.call (.kill (v.slot.proc i))⟩
      else v
  else if up then some v
  else
    let ex := v.ex.call (.admin .undrain i)
    some ⟨Slot.cleared, if v.slot.partitioned then ex.call (.setGre (i + 1) true) else ex⟩

/-- The phase change of one look at a slot. -/
def advance (obs : Observation) (idle alive : Bool) (v : Site Id) : Option (Site Id) :=
  let up := obs.up.getD false
  match v.slot.phase with
  | .starting =>
      if up ∧ obs.adminEnabled.getD true then
        some ⟨{ v.slot with phase := if v.slot.manualDrain then .draining else .serving }, v.ex⟩
      else some v
  | .serving => if up then some v else some ⟨{ v.slot with phase := .unhealthy }, v.ex⟩
  | .unhealthy => if up then some ⟨{ v.slot with phase := .serving }, v.ex⟩ else some v
  | .draining => if v.slot.removing then drainFurther exits now i idle v else some v
  | .stopping => stopFurther now i up alive v
  | .free | .crashed => some v

variable [DecidableEq Id] (want : Dict Id (BackendNode Id))

def isActive (want : Dict Id (BackendNode Id)) (cid : Id) : Bool :=
  (want.get? cid).any (·.attached)

/-- Undo whatever the current fault did. -/
def clearFault (v : Site Id) : Site Id :=
  let s := { v.slot with fault := none }
  match v.slot.fault with
  | none => v
  | some (.crash _) =>
      match s.owner.bind want.get? with
      | some b => spawn i b.config ⟨s, v.ex⟩
      | none => ⟨s, v.ex⟩
  | some (.partition _) =>
      if s.partitioned then
        ⟨{ s with partitioned := false }, v.ex.call (.setGre (i + 1) true)⟩
      else ⟨s, v.ex⟩
  | some (.slow _ _) | some (.errors _ _) =>
      if s.handle.isSome then ⟨s, v.ex.call (.send (s.proc i) .clear)⟩ else ⟨s, v.ex⟩

/-- `action`, once the target is known to run in slot `i`. -/
def perform (kind : ActionKind) (v : Site Id) : Site Id :=
  match kind with
  | .crash =>
      let v := clearFault i want v
      let ex := v.ex.tick
      let ex := if v.ex.alive exits (v.slot.proc i) then ex.call (.kill (v.slot.proc i)) else ex
      ⟨{ v.slot with killed := true, phase := .crashed, fault := some (.crash now) }, ex⟩
  | .slow factor =>
      let v := clearFault i want v
      ⟨{ v.slot with fault := some (.slow now factor) },
        v.ex.call (.send (v.slot.proc i) (.fault factor 0))⟩
  | .errors rate =>
      let v := clearFault i want v
      ⟨{ v.slot with fault := some (.errors now rate) },
        v.ex.call (.send (v.slot.proc i) (.fault 1 rate))⟩
  | .partition =>
      let v := clearFault i want v
      ⟨{ v.slot with partitioned := true, fault := some (.partition now) },
        v.ex.call (.setGre (i + 1) false)⟩
  | .restart | .clear => clearFault i want v
  | .drain =>
      let p := v.slot.phase
      ⟨{ v.slot with
          manualDrain := true
          phase := if p = .serving ∨ p = .unhealthy ∨ p = .starting then .draining else p },
        v.ex.call (.admin .drain i)⟩
  | .undrain => undrain i v

def resetSlot (v : Site Id) : Site Id :=
  if v.slot.owner = none ∨ v.slot.removing then v
  else
    let v := clearFault i want v
    let v := if v.slot.manualDrain then undrain i v else v
    let ex := v.ex.tick
    if v.ex.alive exits (v.slot.proc i) then
      ⟨v.slot, ex.call (.send (v.slot.proc i) .resetStats)⟩
    else ⟨v.slot, ex⟩

/-- The first loop of `_step_backends`: removals, and re-adds that cancel a drain. -/
def removal (v : Site Id) : Site Id :=
  match v.slot.owner with
  | none => v
  | some owner =>
      if isActive want owner = false ∧ v.slot.removing = false then
        let s := { v.slot with removing := true, manualDrain := false }
        let ex := v.ex.tick
        if v.ex.alive exits (s.proc i) ∧ s.phase ≠ .crashed then
          ⟨{ s with phase := .draining, drainSince := some now, quietSince := none },
            ex.call (.admin .drain i)⟩
        else beginStop exits now i ⟨s, ex⟩
      else if isActive want owner ∧ v.slot.removing ∧ v.slot.phase = .draining then
        ⟨{ v.slot with removing := false, phase := .serving }, v.ex.call (.admin .undrain i)⟩
      else v

/-- A running responder gets the configuration of its node when that has changed. -/
def configure (alive : Bool) (v : Site Id) : Site Id :=
  match v.slot.owner.bind want.get? with
  | none => v
  | some b =>
      if alive ∧ v.slot.phase.running ∧ v.slot.removing = false ∧ some b.config ≠ v.slot.config then
        ⟨{ v.slot with config := some b.config },
          v.ex.call (.send (v.slot.proc i) (.backendConfig b.config))⟩
      else v

/-- The last loop of `_step_backends`. -/
def progress (lb : Dict ℕ Observation) (latest : Proc → Option Stats) (v : Site Id) :
    Option (Site Id) :=
  if v.slot.owner = none then some v
  else
    let obs := (lb.get? i).getD {}
    let alive := v.ex.alive exits (v.slot.proc i)
    let idle := (((v.slot.proc i).bind latest).getD {}).idle
    let v := { v with ex := v.ex.tick }
    if v.slot.phase.running ∧ alive = false ∧ v.slot.removing = false then
      some ⟨{ v.slot with
        phase := .crashed, fault := v.slot.fault.or (some (.crash now)) }, v.ex⟩
    else (advance exits now i obs idle alive v).map (configure i want alive)

end MaglevLb.Slots
