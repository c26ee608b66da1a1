import Mathlib.Data.List.Basic
import Mathlib.Data.UInt

/-!
# The counter registry

Plain 64-bit counters that wrap like the atomics of the source. The per-backend
records are indexed by backend id; an id outside the array is ignored.
-/
namespace MaglevLb.StatsRegistry

structure PerBackendStats where
  packets : UInt64 := 0
  bytes : UInt64 := 0
  activeFlows : UInt64 := 0
  flowsAssigned : UInt64 := 0
  healthCheckFailures : UInt64 := 0
deriving DecidableEq, Repr

structure LbStats where
  rxPackets : UInt64 := 0
  rxBytes : UInt64 := 0
  txPackets : UInt64 := 0
  txBytes : UInt64 := 0
  dropsParseError : UInt64 := 0
  dropsNoBackend : UInt64 := 0
  dropsBackendUnhealthy : UInt64 := 0
  dropsConntrackFull : UInt64 := 0
  conntrackHits : UInt64 := 0
  conntrackMisses : UInt64 := 0
  conntrackEvictions : UInt64 := 0
  backends : List PerBackendStats := []
deriving DecidableEq, Repr

def statsRegistryInit (maxBackends : ℕ) : LbStats :=
  { backends := List.replicate maxBackends {} }

/-- Bounds-checked access to the record of one backend. -/
def LbStats.updateBackend (s : LbStats) (id : UInt32) (f : PerBackendStats → PerBackendStats) :
    LbStats :=
  if id.toNat ≥ s.backends.length then s
  else { s with backends := s.backends.modify id.toNat f }

def statsRecordBackendPacket (s : LbStats) (id : UInt32) (bytes : UInt64) : LbStats :=
  s.updateBackend id fun b => { b with packets := b.packets + 1, bytes := b.bytes + bytes }

def statsBackendFlowOpened (s : LbStats) (id : UInt32) : LbStats :=
  s.updateBackend id fun b =>
    { b with activeFlows := b.activeFlows + 1, flowsAssigned := b.flowsAssigned + 1 }

def statsBackendFlowClosed (s : LbStats) (id : UInt32) : LbStats :=
  s.updateBackend id fun b => { b with activeFlows := b.activeFlows - 1 }

def statsBackendHealthCheckFailed (s : LbStats) (id : UInt32) : LbStats :=
  s.updateBackend id fun b => { b with healthCheckFailures := b.healthCheckFailures + 1 }

/-- A copy of the record of one backend, all zero for an id outside the array. -/
def statsRegistrySnapshotBackend (s : LbStats) (id : UInt32) : PerBackendStats :=
  if id.toNat ≥ s.backends.length then {} else s.backends.getD id.toNat {}

/-- The counters that belong to no backend. -/
def LbStats.globals (s : LbStats) : LbStats := { s with backends := [] }

/-- Frames sent, summed over the backends. -/
def LbStats.backendPackets (s : LbStats) : UInt64 := (s.backends.map (·.packets)).sum

theorem statsRegistryInit_backendPackets (maxBackends : ℕ) :
    (statsRegistryInit maxBackends).backendPackets = 0 := by
  induction maxBackends with
  | zero => rfl
  | succ k ih =>
      rw [LbStats.backendPackets, statsRegistryInit, List.replicate_succ, List.map_cons,
        List.sum_cons]
      exact (UInt64.zero_add _).trans ih

theorem LbStats.updateBackend_globals (s : LbStats) (id : UInt32)
    (f : PerBackendStats → PerBackendStats) : (s.updateBackend id f).globals = s.globals := by
  unfold LbStats.updateBackend
  split
  · rfl
  · rfl

theorem LbStats.updateBackend_length (s : LbStats) (id : UInt32)
    (f : PerBackendStats → PerBackendStats) :
    (s.updateBackend id f).backends.length = s.backends.length := by
  unfold LbStats.updateBackend
  split
  · rfl
  · exact List.length_modify ..

theorem sum_packets_modify {f : PerBackendStats → PerBackendStats} {d : UInt64}
    (hf : ∀ p, (f p).packets = p.packets + d) (l : List PerBackendStats) {i : ℕ}
    (hi : i < l.length) :
    ((l.modify i f).map (·.packets)).sum = (l.map (·.packets)).sum + d := by
  induction l generalizing i with
  | nil => exact absurd hi (Nat.not_lt_zero i)
  | cons p l ih =>
      cases i with
      | zero =>
          rw [List.modify_zero_cons, List.map_cons, List.sum_cons, hf, List.map_cons, List.sum_cons,
            UInt64.add_assoc, UInt64.add_comm d, ← UInt64.add_assoc]
      | succ i =>
          rw [List.modify_succ_cons, List.map_cons, List.sum_cons, ih (Nat.lt_of_succ_lt_succ hi),
            List.map_cons, List.sum_cons, UInt64.add_assoc]

/-- An update that keeps the packet counters keeps their sum. -/
theorem LbStats.updateBackend_backendPackets (s : LbStats) (id : UInt32)
    {f : PerBackendStats → PerBackendStats} (hf : ∀ p, (f p).packets = p.packets) :
    (s.updateBackend id f).backendPackets = s.backendPackets := by
  unfold LbStats.updateBackend
  split
  · rfl
  · next hlt =>
      have hz : ∀ p, (f p).packets = p.packets + 0 := fun p => (hf p).trans (UInt64.add_zero _).symm
      exact (sum_packets_modify hz s.backends (Nat.not_le.mp hlt)).trans (UInt64.add_zero _)

theorem statsRecordBackendPacket_backendPackets (s : LbStats) {id : UInt32} (bytes : UInt64)
    (hid : id.toNat < s.backends.length) :
    (statsRecordBackendPacket s id bytes).backendPackets = s.backendPackets + 1 := by
  unfold statsRecordBackendPacket LbStats.updateBackend
  rw [if_neg (Nat.not_le.mpr hid)]
  exact sum_packets_modify (fun p => rfl) s.backends hid

end MaglevLb.StatsRegistry
