import MaglevLb.Slots
import Mathlib.Data.Finset.Insert
import Mathlib.Data.List.FinRange
import Mathlib.Data.List.Sort

/-!
# The reconciler

Desired state (the canvas) against actual state (backend slots and clients).
`step` is called every tick and after every command.
-/
namespace MaglevLb.Reconcile

open Children OrderedDict Slots

def maxClientSlots : ℕ := 4

structure ClientNode (Id : Type*) where
  id : Id
  config : ClientConfig
  connected : Bool
  deriving DecidableEq

structure Desired (Id : Type*) where
  clients : List (ClientNode Id)
  backends : List (BackendNode Id)
  loadEnabled : Bool
  deriving DecidableEq

structure ClientRec where
  index : ℕ
  handle : Option ℕ
  config : Option ClientConfig
  enabled : Option Bool
  deriving DecidableEq

def ClientRec.proc (c : ClientRec) : Option Proc := c.handle.map (Proc.client c.index)

variable {Id : Type*}

structure Reconciler (Id : Type*) (N : ℕ) where
  ex : Executor
  slots : Fin N → Slot Id
  slotMemory : Dict Id (Fin N)
  clients : Dict Id ClientRec
  clientMemory : Dict Id ℕ
  desired : Desired Id
  loadSuppressed : Bool
  pending : Finset Id

variable [LinearOrder Id] (exits : Proc → Moment) (now : ℚ)

namespace Reconciler

variable {N : ℕ}

def init (Id : Type*) (N : ℕ) : Reconciler Id N where
  ex := .init
  slots _ := Slot.cleared
  slotMemory := .empty
  clients := .empty
  clientMemory := .empty
  desired := ⟨[], [], false⟩
  loadSuppressed := false
  pending := ∅

def slotOf (r : Reconciler Id N) (cid : Id) : Option (Fin N) :=
  (List.finRange N).find? fun i => (r.slots i).owner = some cid

def desiredBackends (r : Reconciler Id N) : Dict Id (BackendNode Id) :=
  .ofList (r.desired.backends.map fun b => (b.id, b))

def desiredClients (r : Reconciler Id N) : Dict Id (ClientNode Id) :=
  .ofList (r.desired.clients.map fun c => (c.id, c))

def put (r : Reconciler Id N) (i : Fin N) (v : Site Id) : Reconciler Id N :=
  { r with ex := v.ex, slots := Function.update r.slots i v.slot }

def forSlots (visit : ℕ → Site Id → Option (Site Id)) (r : Reconciler Id N) :
    Option (Reconciler Id N) :=
  (List.finRange N).foldlM (fun r (i : Fin N) => (visit i ⟨r.slots i, r.ex⟩).map (r.put i)) r

/-- The error says that the target is not a running backend. -/
inductive ActionError (Id : Type*) where
  | notRunning (target : Id)
  deriving DecidableEq

def action (target : Id) (kind : ActionKind) (r : Reconciler Id N) :
    Except (ActionError Id) (Reconciler Id N) :=
  match r.slotOf target with
  | none => .error (.notRunning target)
  | some i =>
      if r.desiredBackends.get? target = none ∨ (r.slots i).removing then
        .error (.notRunning target)
      else .ok (r.put i (perform exits now i r.desiredBackends kind ⟨r.slots i, r.ex⟩))

def reset (r : Reconciler Id N) : Option (Reconciler Id N) := do
  let r ← r.forSlots fun i v => some (resetSlot exits i r.desiredBackends v)
  return { r with
    ex := r.clients.entries.foldl
      (fun ex e => if e.2.handle.isSome then ex.call (.send e.2.proc .resetStats) else ex) r.ex }

/-! ### Clients -/

/-- Clients that left the canvas are terminated. -/
def dropClients (want : Dict Id (ClientNode Id)) (r : Reconciler Id N) : Reconciler Id N :=
  r.clients.entries.foldl
    (fun r e =>
      if want.get? e.1 = none then
        { r with clients := r.clients.erase e.1, ex := r.ex.call (.terminate e.2.proc) }
      else r) r

/-- The index a new client gets: the one it last used, or the first that is free. -/
def clientIndex (memory : Option ℕ) (used : Finset ℕ) : Option ℕ :=
  match memory.filter (· ∉ used) with
  | some idx => some idx
  | none => (List.range maxClientSlots).find? (· ∉ used)

/-- Restart a client that is not running; otherwise tell it what has changed. -/
def settleClient (cfg : ClientConfig) (enabled : Bool) (c : ClientRec) (ex : Executor) :
    ClientRec × Executor :=
  if ex.alive exits c.proc then
    let ex := ex.tick
    let ex := if some cfg ≠ c.config then ex.call (.send c.proc (.clientConfig cfg)) else ex
    let ex := if some enabled ≠ c.enabled then ex.call (.send c.proc (.load enabled)) else ex
    ({ c with config := some cfg, enabled := some enabled }, ex)
  else
    let ex := ex.tick.spawnClient c.index cfg enabled
    ({ c with handle := some ex.seed, config := some cfg, enabled := some enabled }, ex)

def visitClient (st : Reconciler Id N × Finset ℕ) (e : Id × ClientNode Id) :
    Reconciler Id N × Finset ℕ :=
  let (r, used) := st
  let enabled := r.desired.loadEnabled && e.2.connected && !r.loadSuppressed
  match r.clients.get? e.1 with
  | some c =>
      let (c, ex) := settleClient exits e.2.config enabled c r.ex
      ({ r with clients := r.clients.set e.1 c, ex := ex }, used)
  | none =>
      match clientIndex (r.clientMemory.get? e.1) used with
      | none => (r, used)
      | some idx =>
          let (c, ex) := settleClient exits e.2.config enabled ⟨idx, none, none, none⟩ r.ex
          ({ r with
              clients := r.clients.set e.1 c
              clientMemory := r.clientMemory.set e.1 idx
              ex := ex }, insert idx used)

def stepClients (r : Reconciler Id N) : Reconciler Id N :=
  let want := r.desiredClients
  let r := dropClients want r
  let used := (r.clients.entries.map (·.2.index)).toFinset
  (want.entries.foldl (visitClient exits) (r, used)).1

/-! ### Backends -/

/-- The attached nodes by id. -/
def sortedActive (want : Dict Id (BackendNode Id)) : List (Id × BackendNode Id) :=
  (want.entries.filter (·.2.attached)).insertionSort fun a b => a.1 ≤ b.1

def isFree (r : Reconciler Id N) (i : Fin N) : Bool := (r.slots i).phase = .free

/-- The slot an id last used if that is free, else the first free slot. -/
def slotFor (r : Reconciler Id N) (cid : Id) : Option (Fin N) :=
  match (r.slotMemory.get? cid).filter r.isFree with
  | some i => some i
  | none => (List.finRange N).find? r.isFree

def addition (r : Reconciler Id N) (e : Id × BackendNode Id) : Reconciler Id N :=
  if (r.slotOf e.1).isSome then r
  else
    match r.slotFor e.1 with
    | none => { r with pending := insert e.1 r.pending }
    | some i =>
        { r.put i (spawn i e.2.config ⟨{ r.slots i with owner := some e.1 }, r.ex⟩) with
          slotMemory := r.slotMemory.set e.1 i }

def additions (want : Dict Id (BackendNode Id)) (r : Reconciler Id N) : Reconciler Id N :=
  (sortedActive want).foldl addition { r with pending := ∅ }

def stepBackends (lb : Dict ℕ Observation) (latest : Proc → Option Stats)
    (r : Reconciler Id N) : Option (Reconciler Id N) := do
  let want := r.desiredBackends
  let r ← r.forSlots fun i v => some (removal exits now i want v)
  let r := additions want r
  r.forSlots fun i v => progress exits now i want lb latest v

def step (lb : Dict ℕ Observation) (latest : Proc → Option Stats) (r : Reconciler Id N) :
    Option (Reconciler Id N) :=
  stepBackends exits now lb latest (stepClients exits r)

end Reconciler

/-! ### Runs -/

/-- The calls into the reconciler, with what is observed during a step. -/
inductive Event (Id : Type*) where
  | setDesired (desired : Desired Id)
  | suppressLoad (suppressed : Bool)
  | action (target : Id) (kind : ActionKind) (now : ℚ)
  | reset (now : ℚ)
  | step (now : ℚ) (lb : Dict ℕ Observation) (latest : Proc → Option Stats)

variable {N : ℕ}

/-- A refused action changes nothing. -/
def apply (r : Reconciler Id N) (e : Event Id) : Option (Reconciler Id N) :=
  let r := { r with ex := r.ex.nextTurn }
  match e with
  | .setDesired desired => some { r with desired := desired }
  | .suppressLoad suppressed => some { r with loadSuppressed := suppressed }
  | .action target kind now =>
      match r.action exits now target kind with
      | .ok r' => some r'
      | .error _ => some r
  | .reset _ => r.reset exits
  | .step now lb latest => r.step exits now lb latest

def run (r : Reconciler Id N) (es : List (Event Id)) : Option (Reconciler Id N) :=
  es.foldlM (apply exits) r

/-- `BACKEND_DEFAULTS` of the schema. -/
def backendDefaults : BackendConfig := ⟨8, 25, 3 / 5, 64, 0⟩

/-- A canvas with no client and these backends, attached, with default settings. -/
def canvas (ids : List Id) : Desired Id :=
  ⟨[], ids.map fun id => ⟨id, backendDefaults, true⟩, false⟩

/-- The health checker's view of some backends, all of them enabled. -/
def observe (ups : List (ℕ × Bool)) : Dict ℕ Observation :=
  .ofList (ups.map fun e => (e.1, ⟨some e.2, some true⟩))

end MaglevLb.Reconcile
