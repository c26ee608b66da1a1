import MaglevLb.StatsRegistry
import MaglevLb.TableGenerator

/-!
# The health checker

Probe results move per-backend counters and set a backend's health when a run of
successes or failures first reaches its threshold. Lines of the administration
pipe set a backend to draining or back. Both go through the manager's interface
and so rebuild the table before the next one is handled. Sockets, timers and the
pipe itself are outside; a result and a line are inputs.
-/
namespace MaglevLb.HealthChecker
open Maglev BackendManager TableGenerator

structure ProbeState where
  backendId : UInt32
  consecutiveOk : UInt32
  consecutiveFail : UInt32
  inUse : Bool
deriving DecidableEq, Repr

structure HealthCheckCfg where
  rise : UInt32
  fall : UInt32
deriving DecidableEq, Repr

structure Checker where
  cfg : HealthCheckCfg
  states : Vector ProbeState backendMax

def healthCheckerCreate (cfg : HealthCheckCfg) : Checker :=
  ⟨cfg, Vector.replicate backendMax ⟨0, 0, 0, false⟩⟩

/-- The state of a backend, taking the first unused one for a new id; `none` when
every state belongs to another backend. -/
def findOrCreateState (states : Vector ProbeState backendMax) (backendId : UInt32) :
    Option (Vector ProbeState backendMax × Fin backendMax) :=
  match states.findFinIdx? fun st => st.inUse && st.backendId == backendId with
  | some i => some (states, i)
  | none =>
      (states.findFinIdx? fun st => !st.inUse).map fun i : Fin backendMax =>
        (states.set i.val ⟨backendId, 0, 0, true⟩ i.isLt, i)

/-- What a result asks for besides its own counters: a failure to count, and a
health value to set. -/
structure ResultActions where
  countFailure : Bool
  setHealth : Option Bool
deriving DecidableEq, Repr

/-- One result moves the counters of one state. -/
def ProbeState.record (cfg : HealthCheckCfg) (st : ProbeState) (ok : Bool) :
    ProbeState × ResultActions :=
  if ok then
    let st := { st with consecutiveFail := 0 }
    if st.consecutiveOk < cfg.rise then
      let st := { st with consecutiveOk := st.consecutiveOk + 1 }
      (st, ⟨false, if st.consecutiveOk = cfg.rise then some true else none⟩)
    else (st, ⟨false, none⟩)
  else
    let st := { st with consecutiveOk := 0 }
    if st.consecutiveFail < cfg.fall then
      let st := { st with consecutiveFail := st.consecutiveFail + 1 }
      (st, ⟨true, if st.consecutiveFail = cfg.fall then some false else none⟩)
    else (st, ⟨true, none⟩)

def recordResult (hc : Checker) (backendId : UInt32) (ok : Bool) : Checker × ResultActions :=
  match findOrCreateState hc.states backendId with
  | none => (hc, ⟨false, none⟩)
  | some (states, i) =>
      let r := states[i].record hc.cfg ok
      ({ hc with states := states.set i.val r.1 i.isLt }, r.2)

/-! ## The administration line -/

/-- `isspace` in the C locale. -/
def isSpace (c : UInt8) : Bool := c == 32 || (9 ≤ c && c ≤ 13)

def isDigit (c : UInt8) : Bool := 48 ≤ c && c ≤ 57

/-- `%15s`: skip white space, then take up to `width` other characters. -/
def scanWord (width : ℕ) (s : List UInt8) : Option (List UInt8 × List UInt8) :=
  let s := s.dropWhile isSpace
  let word := (s.takeWhile fun c => !isSpace c).take width
  if word = [] then none else some (word, s.drop word.length)

/-- The value of a digit string. -/
def decimal (ds : List UInt8) : ℕ := ds.foldl (fun v d => v * 10 + (d - 48).toNat) 0

/-- `%lu`: white space, an optional sign and digits, converted like `strtoul`. -/
def scanUnsignedLong (s : List UInt8) : Option UInt64 :=
  let s := s.dropWhile isSpace
  let signed : Bool × List UInt8 := match s with
    | 43 :: rest => (false, rest)
    | 45 :: rest => (true, rest)
    | rest => (false, rest)
  let digits := signed.2.takeWhile isDigit
  if digits = [] then none
  else if decimal digits ≥ 2 ^ 64 then some 0xFFFFFFFFFFFFFFFF
  else some (if signed.1 then -UInt64.ofNat (decimal digits) else UInt64.ofNat (decimal digits))

/-- The bytes of DRAIN and UNDRAIN. -/
def drainVerb : List UInt8 := [68, 82, 65, 73, 78]
def undrainVerb : List UInt8 := [85, 78, 68, 82, 65, 73, 78]

/-- The backend and the state a line asks for; `none` for a line that is ignored. -/
def parseAdminLine (line : List UInt8) : Option (UInt32 × AdminState) :=
  match scanWord 15 line with
  | none => none
  | some (verb, rest) =>
      match scanUnsignedLong rest with
      | none => none
      | some id =>
          if verb = drainVerb then some (id.toUInt32, .draining)
          else if verb = undrainVerb then some (id.toUInt32, .enabled)
          else none

example : parseAdminLine (drainVerb ++ [32, 51]) = some (3, .draining) := by decide +kernel

/-- `handle_admin_line`; the last argument says whether the retired list can grow. -/
def handleAdminLine (H : Hashes) (growOk : Bool) (cp : ControlPlane) (line : List UInt8) :
    ControlPlane :=
  match parseAdminLine line with
  | none => cp
  | some (id, state) => (call H true growOk cp (.setAdminState id state)).1

/-- The part of `record_result` that reaches the manager. -/
def applyHealth (H : Hashes) (growOk : Bool) (cp : ControlPlane) (backendId : UInt32) :
    Option Bool → ControlPlane
  | none => cp
  | some healthy => (call H true growOk cp (.setHealth backendId healthy)).1

end MaglevLb.HealthChecker
