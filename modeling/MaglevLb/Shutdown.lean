import MaglevLb.HealthChecker
import MaglevLb.Teardown

/-!
# Start-up and shutdown of the process

`main` as the list of its calls on the shared components: it creates them in
order, starts the health checker, the metrics exporter and the datapath, and at
the label `cleanup` stops and destroys what exists. Every failure that `main`
tests for is an input. The threads run in between.
-/
namespace MaglevLb.Shutdown
open HealthChecker Teardown

inductive Thread where
  | checker
  | metrics
  | datapath
deriving DecidableEq, Repr

inductive Component where
  | datapath
  | metricsHttp
  | stats
  | conntrack
  | healthChecker
  | tableGenerator
  | backendManager
deriving DecidableEq, Repr

/-! ## The threads -/

/-- One step of a thread between two points where it could be held up. `changed`
is the result of the manager's setter, which rebuilds the table on a change. -/
inductive ThreadStep where
  | probeRound
  | probeResult (hc : Checker) (backendId : UInt32) (ok changed : Bool)
  | adminLine (line : List UInt8) (changed : Bool)
  | scrape
  | packet
  | reap

def threadOf : ThreadStep → Thread
  | .probeRound | .probeResult .. | .adminLine .. => .checker
  | .scrape => .metrics
  | .packet | .reap => .datapath

/-- A setter of the manager, with the rebuild its notification runs. -/
def setter (changed : Bool) : List Component :=
  if changed then [.backendManager, .tableGenerator] else [.backendManager]

/-- The components `record_result` calls into. -/
def resultTouches (actions : ResultActions) (changed : Bool) : List Component :=
  (if actions.countFailure then [.stats] else []) ++
    match actions.setHealth with
    | none => []
    | some _ => setter changed

def touches : ThreadStep → List Component
  | .probeRound => [.healthChecker, .backendManager]
  | .probeResult hc backendId ok changed =>
      .healthChecker :: resultTouches (recordResult hc backendId ok).2 changed
  | .adminLine line changed =>
      match parseAdminLine line with
      | none => [.healthChecker]
      | some _ => .healthChecker :: setter changed
  | .scrape => [.metricsHttp, .stats, .conntrack, .tableGenerator, .backendManager]
  | .packet => [.datapath, .stats, .conntrack, .tableGenerator]
  | .reap => [.datapath, .conntrack, .stats, .tableGenerator]

/-! ## The main thread -/

/-- What happens to one `--backend` option. -/
inductive BackendOutcome where
  | tableFull
  | arpFailed
  | resolved
deriving DecidableEq, Repr

inductive CheckerOutcome where
  | createFailed
  | startFailed
  | started
deriving DecidableEq, Repr

inductive MetricsOutcome where
  | disabled
  | createFailed
  | startFailed
  | started
deriving DecidableEq, Repr

inductive RunMode where
  | headless
  | tui (threadOk tuiOk : Bool)
deriving DecidableEq, Repr

/-- Everything `main` branches on after parsing its options. -/
structure Outcomes where
  managerOk : Bool
  backends : List BackendOutcome
  generatorOk : Bool
  initialBuildOk : Bool
  conntrackOk : Bool
  statsOk : Bool
  checker : CheckerOutcome
  metrics : MetricsOutcome
  datapathOk : Bool
  mode : RunMode

/-- The local variables that `cleanup` looks at. -/
structure Handles where
  bm : Bool := false
  tg : Bool := false
  ct : Bool := false
  statsInitialized : Bool := false
  hc : Bool := false
  hcRunning : Bool := false
  mh : Bool := false
  dp : Bool := false

abbrev Code := List (Instr Thread Component)

def onlyIf (handle : Bool) (code : Code) : Code := if handle then code else []

def cleanup (h : Handles) : Code :=
  onlyIf h.dp [.destroy .datapath] ++
  onlyIf h.mh [.join .metrics, .destroy .metricsHttp] ++
  onlyIf h.statsInitialized [.destroy .stats] ++
  onlyIf h.ct [.destroy .conntrack] ++
  onlyIf h.hcRunning [.join .checker] ++
  onlyIf h.hc [.destroy .healthChecker] ++
  onlyIf h.tg [.destroy .tableGenerator] ++
  onlyIf h.bm [.destroy .backendManager]

/-- `datapath_run` and the interface each use the components they were given; the
joiner thread only waits for the datapath thread. -/
def runDatapath : RunMode → Code
  | .headless => [.use [.datapath, .stats, .conntrack, .tableGenerator]]
  | .tui false _ => []
  | .tui true tuiOk =>
      .spawn .datapath ::
        onlyIf tuiOk [.use [.tableGenerator, .stats, .backendManager, .datapath]] ++
        [.use [.datapath], .join .datapath]

def startDatapath (o : Outcomes) (h : Handles) : Code :=
  if o.datapathOk then .create .datapath :: runDatapath o.mode ++ cleanup { h with dp := true }
  else cleanup h

def startMetrics (o : Outcomes) (h : Handles) : Code :=
  match o.metrics with
  | .disabled | .createFailed => startDatapath o h
  | .startFailed => .create .metricsHttp :: .destroy .metricsHttp :: startDatapath o h
  | .started =>
      .create .metricsHttp :: .spawn .metrics :: startDatapath o { h with mh := true }

def startChecker (o : Outcomes) (h : Handles) : Code :=
  match o.checker with
  | .createFailed => startMetrics o h
  | .startFailed => .create .healthChecker :: startMetrics o { h with hc := true }
  | .started =>
      .create .healthChecker :: .spawn .checker ::
        startMetrics o { h with hc := true, hcRunning := true }

def startStats (o : Outcomes) (h : Handles) : Code :=
  if o.statsOk then .create .stats :: startChecker o { h with statsInitialized := true }
  else cleanup h

def startConntrack (o : Outcomes) (h : Handles) : Code :=
  if o.conntrackOk then .create .conntrack :: startStats o { h with ct := true }
  else cleanup h

def startGenerator (o : Outcomes) (h : Handles) : Code :=
  if o.generatorOk then
    .create .tableGenerator :: .use [.tableGenerator, .backendManager] ::
      if o.initialBuildOk then startConntrack o { h with tg := true }
      else cleanup { h with tg := true }
  else cleanup h

/-- The loop over the `--backend` options. -/
def addBackends (o : Outcomes) (h : Handles) : List BackendOutcome → Code
  | [] => startGenerator o h
  | .tableFull :: _ | .arpFailed :: _ => .use [.backendManager] :: cleanup h
  | .resolved :: rest => .use [.backendManager] :: .use [.backendManager] :: addBackends o h rest

def main (o : Outcomes) : Code :=
  if o.managerOk then .create .backendManager :: addBackends o { bm := true } o.backends
  else cleanup {}

/-! ## The order -/

/-- What the threads reach, but for the one use that `main` does not order: the
checker's failure counter. -/
def reach : Thread → List Component
  | .checker => [.healthChecker, .backendManager, .tableGenerator]
  | .metrics => [.metricsHttp, .stats, .conntrack, .tableGenerator, .backendManager]
  | .datapath => [.datapath, .stats, .conntrack, .tableGenerator]

/-- The phases while the loop over the options runs. -/
def managerOnly : Component → Phase := Function.update (fun _ => .absent) .backendManager .up

theorem startGenerator_ordered (o : Outcomes) :
    ordered reach (startGenerator o { bm := true }) [] managerOnly = true := by
  obtain ⟨managerOk, backends, generatorOk, initialBuildOk, conntrackOk, statsOk, checker, metrics,
    datapathOk, mode⟩ := o
  cases generatorOk with
  | false => rfl
  | true =>
  cases initialBuildOk with
  | false => rfl
  | true =>
  cases conntrackOk with
  | false => rfl
  | true =>
  cases statsOk with
  | false => rfl
  | true =>
  cases datapathOk with
  | false => cases checker <;> cases metrics <;> rfl
  | true =>
  cases mode with
  | headless => cases checker <;> cases metrics <;> rfl
  | tui threadOk tuiOk =>
      cases threadOk <;> cases tuiOk <;> cases checker <;> cases metrics <;> rfl

theorem addBackends_ordered (o : Outcomes) (backends : List BackendOutcome) :
    ordered reach (addBackends o { bm := true } backends) [] managerOnly = true := by
  induction backends with
  | nil => exact startGenerator_ordered o
  | cons b backends ih =>
      cases b with
      | tableFull => rfl
      | arpFailed => rfl
      | resolved => exact ih

theorem main_ordered (o : Outcomes) : ordered reach (main o) [] (fun _ => .absent) = true := by
  unfold main
  cases o.managerOk with
  | false => rfl
  | true => exact addBackends_ordered o o.backends

/-- A probe result that reaches the failure counter. -/
def countsFailure : Action ThreadStep Thread → Bool
  | .thread (.probeResult hc backendId ok _) => (recordResult hc backendId ok).2.countFailure
  | _ => false

theorem mem_setter_checker {changed : Bool} {c : Component} (h : c ∈ setter changed) :
    c ∈ reach .checker := by
  cases changed <;> revert h <;> revert c <;> decide

/-- A thread touches what it reaches, and the counter. -/
theorem touches_reach {s : ThreadStep} {c : Component} (h : c ∈ touches s) :
    c ∈ reach (threadOf s) ∨ (c = .stats ∧ countsFailure (.thread s) = true) := by
  cases s with
  | probeRound =>
      left
      revert c
      decide
  | probeResult hc backendId ok changed =>
      rcases List.mem_cons.mp h with rfl | h
      · exact Or.inl List.mem_cons_self
      · rcases List.mem_append.mp h with h | h
        · split at h
          · next hcount =>
              rw [List.mem_singleton] at h
              exact Or.inr ⟨h, hcount⟩
          · cases h
        · split at h
          · cases h
          · exact Or.inl (mem_setter_checker h)
  | adminLine line changed =>
      left
      dsimp only [touches] at h
      split at h
      · rw [List.mem_singleton.mp h]
        exact List.mem_cons_self
      · rcases List.mem_cons.mp h with rfl | h
        · exact List.mem_cons_self
        · exact mem_setter_checker h
  | scrape => exact Or.inl h
  | packet => exact Or.inl h
  | reap =>
      left
      revert c
      decide

theorem counter_touched {p : Process Thread Component} {a : Action ThreadStep Thread}
    (h : countsFailure a = true) : .stats ∈ accesses touches p a := by
  unfold countsFailure at h
  split at h
  · next hc backendId ok changed =>
      simp only [accesses, touches, resultTouches, h]
      simp
  · cases h

/-- In every interleaving of every start-up, an action touches a destroyed
component exactly when it is a failed probe counted after the statistics were
destroyed. -/
theorem shutdown_order (o : Outcomes) (actions : List (Action ThreadStep Thread))
    (p p' : Process Thread Component) (a : Action ThreadStep Thread)
    (hrun : interleave threadOf (Process.start (main o)) actions = some p)
    (ha : step threadOf p a = some p') :
    (∀ c ∈ accesses touches p a, p.phase c ≠ .destroyed) ↔
      ¬ (countsFailure a = true ∧ p.phase .stats = .destroyed) := by
  have hsafe := interleave_safe (start_safe (main_ordered o)) hrun
  constructor
  · intro h hlate
    exact h .stats (counter_touched hlate.1) hlate.2
  · intro h c hc hdestroyed
    have hreach : ∀ s, a = .thread s → c ∈ reach (threadOf s) := by
      intro s hs
      rw [hs] at hc h
      cases touches_reach hc with
      | inl hreach => exact hreach
      | inr hcounter =>
          rw [hcounter.1] at hdestroyed
          exact absurd ⟨hcounter.2, hdestroyed⟩ h
    have hup := accesses_up hsafe ha hc hreach
    rw [hdestroyed] at hup
    cases hup

/-- One backend, health checking on, no exporter, no interface. -/
def sampleOutcomes : Outcomes where
  managerOk := true
  backends := [.resolved]
  generatorOk := true
  initialBuildOk := true
  conntrackOk := true
  statsOk := true
  checker := .started
  metrics := .disabled
  datapathOk := true
  mode := .headless

theorem shutdown_order_sample :
    let actions : List (Action ThreadStep Thread) := List.replicate 13 .advance
    ∃ p, interleave threadOf (Process.start (main sampleOutcomes)) actions = some p ∧
      p.phase .stats = .destroyed ∧
      ∀ c ∈ accesses touches p (.thread .probeRound), p.phase c ≠ .destroyed := by
  refine ⟨_, rfl, rfl, ?_⟩
  apply (shutdown_order sampleOutcomes (List.replicate 13 .advance) _ _ (.thread .probeRound)
    rfl rfl).mpr
  intro h
  cases h.1

/-- `main` destroys the statistics and then stops the checker: a probe that fails
in between is counted in them. -/
theorem failed_probe_after_stats_destroyed :
    let actions : List (Action ThreadStep Thread) := List.replicate 13 .advance
    let probe := ThreadStep.probeResult (healthCheckerCreate ⟨2, 3⟩) 0 false false
    ∃ p p', interleave threadOf (Process.start (main sampleOutcomes)) actions = some p ∧
      step threadOf p (.thread probe) = some p' ∧
      .stats ∈ accesses touches p (.thread probe) ∧ p.phase .stats = .destroyed := by
  intro actions probe
  refine ⟨_, _, rfl, rfl, ?_, rfl⟩
  decide +kernel

end MaglevLb.Shutdown
