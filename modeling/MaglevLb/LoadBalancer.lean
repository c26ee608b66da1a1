import MaglevLb.HealthChecker
import MaglevLb.PacketAccounting
import MaglevLb.SnapshotFreshness

/-!
# The running load balancer

Control plane, health checker and datapath in one state. Probe results and
administration lines run to the end of their rebuild before the next event, and
packets and sweeps see the snapshot that is active then.
-/
namespace MaglevLb.LoadBalancer
open PacketFormat Maglev BackendManager TableGenerator HealthChecker Conntrack StatsRegistry
open Datapath (DatapathConfig State vipFlow handlePacket reaperTick rxBufLen)

structure System (n b : ℕ) where
  cp : ControlPlane
  hc : Checker
  ct : ConntrackTable n b
  stats : LbStats

variable {n b : ℕ}

/-- What the datapath thread sees. -/
def System.datapath (s : System n b) : State n b := ⟨s.ct, s.stats, s.cp.tg.active⟩

/-- `growOk` is the outcome of growing the retired list, should a rebuild need it. -/
inductive Event where
  | packet (frame : List UInt8) (now : UInt64) (sent : ℤ)
  | probe (backendId : UInt32) (ok growOk : Bool)
  | admin (line : List UInt8) (growOk : Bool)
  | tick (now : UInt64)

def step (H : Hashes) (cfg : DatapathConfig) (s : System n b) : Event → System n b
  | .packet frame now sent =>
      let r := handlePacket H cfg s.datapath frame now sent
      { s with ct := r.ct, stats := r.stats }
  | .probe backendId ok growOk =>
      let r := recordResult s.hc backendId ok
      { s with
        cp := applyHealth H growOk s.cp backendId r.2.setHealth
        hc := r.1
        stats := if r.2.countFailure then statsBackendHealthCheckFailed s.stats backendId
          else s.stats }
  | .admin line growOk => { s with cp := handleAdminLine H growOk s.cp line }
  | .tick now =>
      let d := reaperTick cfg s.datapath now
      { s with
        cp := { s.cp with tg := tableGeneratorReclaim s.cp.tg }
        ct := d.ct
        stats := d.stats }

abbrev run (H : Hashes) (cfg : DatapathConfig) : System n b → List Event → System n b :=
  EventRun.run (step H cfg)

/-- The state `main` hands to the threads, after any history of the manager. -/
def start (H : Hashes) (m : TableSize) (history : List Op) (hcCfg : HealthCheckCfg)
    (pow2 : b.isPowerOfTwo) (garbage : Fin n → Flow) (maxBackends : ℕ) : System n b where
  cp := startControlPlane H m (runOps backendManagerCreate history)
  hc := healthCheckerCreate hcCfg
  ct := conntrackInit n b pow2 garbage
  stats := statsRegistryInit maxBackends

/-- The active snapshot is fresh and the ids of the backends are in order. -/
structure Steady (H : Hashes) (cp : ControlPlane) : Prop where
  fresh : cp.Fresh H
  idsOk : cp.bm.IdsOk
  nextId : cp.bm.nextId.toNat < 2 ^ 31

theorem start_steady (H : Hashes) (m : TableSize) {history : List Op}
    (hadds : adds history < 2 ^ 31) :
    Steady H (startControlPlane H m (runOps backendManagerCreate history)) := by
  obtain ⟨hfresh, hbm, -, -⟩ := startControlPlane_fresh H m (runOps backendManagerCreate history)
  obtain ⟨hok, hnext⟩ := subscribed_idsOk history hadds
  rw [← hbm] at hok hnext
  exact ⟨hfresh, hok, hnext.trans_lt hadds⟩

/-- A call that adds no backend keeps the control plane steady. -/
theorem call_steady {H : Hashes} {cp : ControlPlane} (h : Steady H cp) (growOk : Bool) {op : Op}
    (hop : op.isAdd = false) : Steady H (call H true growOk cp op).1 := by
  obtain ⟨hfresh, hok, hnext⟩ := h
  have hadds : adds [op] = 0 := by simp [adds, hop]
  have hid : cp.bm.nextId ≠ noId := by
    intro he
    rw [he] at hnext
    exact absurd hnext (by decide)
  obtain ⟨cp', rebuilt, hcall, hfresh', hbm, -, -⟩ := call_fresh H growOk hfresh hid op
  rw [hcall]
  refine ⟨hfresh', ?_, ?_⟩
  · rw [hbm]
    exact apply_idsOk hok (by omega)
  · rw [hbm]
    have hle := (apply_nextId cp.bm op (by omega)).2
    omega

/-- The call of the manager that an event leads to. -/
def managerCall (s : System n b) : Event → Option Op
  | .probe backendId ok _ =>
      (recordResult s.hc backendId ok).2.setHealth.map (Op.setHealth backendId)
  | .admin line _ => (parseAdminLine line).map fun c => .setAdminState c.1 c.2
  | .packet _ _ _ | .tick _ => none

/-- What an event does to the control plane: that call, or at most a reclamation. -/
theorem step_cp (H : Hashes) (cfg : DatapathConfig) (s : System n b) (e : Event) :
    (∃ op growOk, managerCall s e = some op ∧ op.isAdd = false ∧
        (step H cfg s e).cp = (call H true growOk s.cp op).1) ∨
      managerCall s e = none ∧ ((step H cfg s e).cp = s.cp ∨
        (step H cfg s e).cp = { s.cp with tg := tableGeneratorReclaim s.cp.tg }) := by
  cases e with
  | packet frame now sent => exact .inr ⟨rfl, .inl rfl⟩
  | tick now => exact .inr ⟨rfl, .inr rfl⟩
  | probe backendId ok growOk =>
      unfold step managerCall
      dsimp only
      cases (recordResult s.hc backendId ok).2.setHealth with
      | none => exact .inr ⟨rfl, .inl rfl⟩
      | some healthy => exact .inl ⟨_, growOk, rfl, rfl, rfl⟩
  | admin line growOk =>
      unfold step managerCall handleAdminLine
      dsimp only
      cases parseAdminLine line with
      | none => exact .inr ⟨rfl, .inl rfl⟩
      | some command => exact .inl ⟨_, growOk, rfl, rfl, rfl⟩

theorem step_bm (H : Hashes) (cfg : DatapathConfig) (s : System n b) (e : Event) :
    (step H cfg s e).cp.bm =
      ((managerCall s e).map fun op => (apply s.cp.bm op).1).getD s.cp.bm := by
  rcases step_cp H cfg s e with ⟨op, growOk, hcall, -, hcp⟩ | ⟨hcall, hcp | hcp⟩
  · rw [hcall, hcp, call_bm]
    rfl
  · rw [hcall, hcp]
    rfl
  · rw [hcall, hcp]
    rfl

theorem step_steady {H : Hashes} {cfg : DatapathConfig} (s : System n b) (e : Event)
    (h : Steady H s.cp) : Steady H (step H cfg s e).cp := by
  rcases step_cp H cfg s e with ⟨op, growOk, -, hop, hcp⟩ | ⟨-, hcp | hcp⟩
  · rw [hcp]
    exact call_steady h growOk hop
  · rw [hcp]
    exact h
  · rw [hcp]
    exact ⟨⟨h.fresh.subscribed, h.fresh.active⟩, h.idsOk, h.nextId⟩

theorem run_steady {H : Hashes} {cfg : DatapathConfig} {s : System n b} (h : Steady H s.cp)
    (es : List Event) : Steady H (run H cfg s es).cp :=
  EventRun.run_invariant (P := fun s : System n b => Steady H s.cp) step_steady h es

end MaglevLb.LoadBalancer
