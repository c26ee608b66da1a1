import MaglevLb.AdminPipe
import MaglevLb.DrainBookkeeping
import MaglevLb.StartUp
import Mathlib.Data.String.Basic

/-!
# Restarting the load balancer

The bridge and the maglev-lb processes that have the administration pipe open.
A restart is the exit of one process and, later, the start of another; the calls
into the reconciler go on in between, and so may a second restart. What is
written while nobody has the pipe open is lost, and so is what nobody has read
when the last one closes it. A process opens or closes the pipe between two
calls into the reconciler. The executor's log starts again whenever the pipe is
opened: it holds the commands since then.
-/
namespace MaglevLb.LbRestart

open Children OrderedDict Slots Reconcile SlotMoves SlotViews SlotLifecycle DrainBookkeeping
open PacketFormat Maglev BackendManager TableGenerator HealthChecker Conntrack StatsRegistry
open StartUp AdminPipe
open LoadBalancer (System)
open Datapath (DatapathConfig)

/-- How maglev-lb is started. -/
structure Setup (n b : ℕ) where
  H : Hashes
  cfg : DatapathConfig
  m : TableSize
  hcCfg : HealthCheckCfg
  pow2 : b.isPowerOfTwo

def backendPort : UInt16 := 9000

/-- The `--backend` options: slot `i + 1` is 10.98.0.(11 + i). -/
def slotEndpoints (N : ℕ) : List Endpoint :=
  (List.range N).map fun i => ⟨UInt32.ofNat (10 + 98 * 2 ^ 8 + (11 + i) * 2 ^ 24), backendPort⟩

/-- What a maglev-lb process does besides reading the pipe. -/
inductive Work where
  | packet (frame : List UInt8) (now : UInt64) (sent : ℤ)
  | probe (backendId : UInt32) (ok growOk : Bool)
  | tick (now : UInt64)

def Work.event : Work → LoadBalancer.Event
  | .packet frame now sent => .packet frame now sent
  | .probe backendId ok growOk => .probe backendId ok growOk
  | .tick now => .tick now

/-- The processes are those that have the pipe open; `fifo` is what they have not read. -/
structure Bridge (Id : Type*) (N n b : ℕ) where
  r : Reconciler Id N
  lbs : List (Process n b)
  fifo : List UInt8

inductive Event (Id : Type*) (n : ℕ) where
  | call (e : Reconcile.Event Id)
  | opened (arp : UInt32 → Mac) (garbage : Fin n → Flow)
  | exited (k : ℕ)
  | worked (k : ℕ) (w : Work)
  | read (k : ℕ) (count : ℕ) (growOk : Bool)

variable {Id : Type*} {N n b : ℕ}

/-- `main` up to the start of the threads; `none` when the backend table is full. -/
def startLb (setup : Setup n b) (N : ℕ) (arp : UInt32 → Mac) (garbage : Fin n → Flow) :
    Option (Process n b) :=
  (addBackends arp backendManagerCreate (slotEndpoints N)).map fun bm =>
    { sys :=
        { cp := startControlPlane setup.H setup.m bm
          hc := healthCheckerCreate setup.hcCfg
          ct := conntrackInit n b setup.pow2 garbage
          stats := statsRegistryInit N }
      adminBuf := [] }

def Bridge.init (Id : Type*) (N n b : ℕ) : Bridge Id N n b := ⟨.init Id N, [], []⟩

/-- The pipe after the executor has issued some commands. -/
def Bridge.write (s : Bridge Id N n b) (calls : List (Moment × Call)) : List UInt8 :=
  if s.lbs.isEmpty then s.fifo else s.fifo ++ adminBytes calls

/-- Open the pipe, with a new log. -/
def Bridge.open (s : Bridge Id N n b) (p : Process n b) : Bridge Id N n b :=
  { s with r := { s.r with ex := { s.r.ex with log := [] } }, lbs := s.lbs ++ [p] }

def Bridge.close (s : Bridge Id N n b) (k : ℕ) : Bridge Id N n b :=
  let lbs := s.lbs.eraseIdx k
  { s with lbs := lbs, fifo := if lbs.isEmpty then [] else s.fifo }

section Machine

variable [LinearOrder Id] (setup : Setup n b) (exits : Proc → Moment)

/-- A process that is not there does nothing. -/
def next (s : Bridge Id N n b) : Event Id n → Option (Bridge Id N n b)
  | .call e =>
      (apply exits s.r e).map fun r =>
        { s with r := r, fifo := s.write (r.ex.log.drop s.r.ex.log.length) }
  | .opened arp garbage =>
      match startLb setup N arp garbage with
      | none => some s
      | some p => some (s.open p)
  | .exited k => some (s.close k)
  | .worked k w =>
      some { s with
        lbs := s.lbs.modify k fun p =>
          { p with sys := LoadBalancer.step setup.H setup.cfg p.sys w.event } }
  | .read k count growOk =>
      if k < s.lbs.length then
        some { s with
          lbs := s.lbs.modify k fun p =>
            processAdminFifo setup.H setup.cfg growOk p (s.fifo.take count)
          fifo := s.fifo.drop count }
      else some s

def run (s : Bridge Id N n b) (es : List (Event Id n)) : Option (Bridge Id N n b) :=
  es.foldlM (next setup exits) s

end Machine

/-- The reconciler counts the slot as drained. -/
def isDrained (s : Slot Id) : Bool := s.manualDrain || s.phase = .draining

/-- Once the pipe is empty, every slot that the reconciler counts as drained is
draining in maglev-lb. -/
def DrainViewHolds (s : Bridge Id N n b) : Prop :=
  s.fifo = [] → ∀ p ∈ s.lbs, ∀ i : Fin N, isDrained (s.r.slots i) = true →
    adminStates p.sys.cp.bm (UInt32.ofNat i) = some .draining

/-- A maglev-lb opens the pipe while no other has it open and no slot is drained. -/
def OpensUndrained (s : Bridge Id N n b) : Event Id n → Prop
  | .opened _ _ => s.lbs.isEmpty = true ∧ ∀ i : Fin N, isDrained (s.r.slots i) = false
  | _ => True

instance (s : Bridge Id N n b) (e : Event Id n) : Decidable (OpensUndrained s e) := by
  cases e <;> unfold OpensUndrained <;> infer_instance

/-! ### The commands since the pipe was opened -/

/-- The last command about a backend decides its state. -/
def stateAfter (verb : Option Verb) (state : AdminState) : AdminState := verb.elim state verbState

section Commands

variable {states : States} {state : AdminState} {calls : List (Moment × Call)} {i : ℕ}

theorem command_apply {e : Moment × Call} (hi : i < backendMax)
    (he : ∀ verb lbId, e.2 = .admin verb lbId → lbId < backendMax)
    (h : states (UInt32.ofNat i) = some state) :
    states.command e (UInt32.ofNat i) = some (stateAfter (verbFor i e.2) state) := by
  obtain ⟨m, c⟩ := e
  cases c with
  | spawnBackend | spawnClient | send | terminate | kill | setGre => exact h
  | admin verb lbId =>
      change states.set (UInt32.ofNat lbId) (verbState verb) (UInt32.ofNat i) =
        some (stateAfter (if lbId = i then some verb else none) state)
      rw [States.set, h]
      by_cases hk : lbId = i
      · rw [hk, if_pos rfl, if_pos rfl]
        rfl
      · rw [if_neg fun heq => hk (ofNat_injOn (he verb lbId rfl) hi heq.symm), if_neg hk]
        rfl

theorem stateAfter_or (v v' : Option Verb) (state : AdminState) :
    stateAfter (v.or v') state = stateAfter v (stateAfter v' state) := by
  cases v <;> rfl

theorem foldl_command_apply (hi : i < backendMax)
    (hc : ∀ e ∈ calls, ∀ verb lbId, e.2 = .admin verb lbId → lbId < backendMax)
    (h : states (UInt32.ofNat i) = some state) :
    calls.foldl States.command states (UInt32.ofNat i) =
      some (stateAfter (calls.filterMap fun e => verbFor i e.2).getLast? state) := by
  induction calls generalizing states state with
  | nil => exact h
  | cons e calls ih =>
      have hone := command_apply hi (hc e List.mem_cons_self) h
      have hlast : ((e :: calls).filterMap fun e => verbFor i e.2).getLast? =
          (calls.filterMap fun e => verbFor i e.2).getLast?.or (verbFor i e.2) := by
        cases hv : verbFor i e.2 <;> simp [hv, List.getLast?_cons]
      rw [List.foldl_cons, ih (fun x hx => hc x (List.mem_cons_of_mem _ hx)) hone, hlast,
        stateAfter_or]

end Commands

/-! ### The two views along a run -/

/-- One process has the pipe open, and once it has read what is left there the
state of every slot is what the commands since the opening say. -/
structure Follows (s : Bridge Id N n b) (p : Process n b) : Prop where
  room : N ≤ backendMax
  line : (p.view.readAll s.fifo).buf = []
  state : ∀ i : Fin N, (p.view.readAll s.fifo).states (UInt32.ofNat i) =
    some (stateAfter (lastVerb i s.r.ex) .enabled)

structure Synced (s : Bridge Id N n b) : Prop where
  drains : ∀ i : Fin N, Drains i ⟨s.r.slots i, s.r.ex⟩
  pipe : s.lbs = [] ∧ s.fifo = [] ∨ ∃ p, s.lbs = [p] ∧ Follows s p

variable {setup : Setup n b} {exits : Proc → Moment} {s s' : Bridge Id N n b} {p : Process n b}

theorem Follows.of_view {p' : Process n b} (h : Follows s p) (hr : s'.r = s.r)
    (hv : p'.view.readAll s'.fifo = p.view.readAll s.fifo) : Follows s' p' := by
  refine ⟨h.room, ?_, fun i => ?_⟩
  · rw [hv]
    exact h.line
  · rw [hv, hr]
    exact h.state i

/-- A new process starts at the beginning of a line, with every backend enabled. -/
theorem startLb_view {arp : UInt32 → Mac} {garbage : Fin n → Flow}
    (h : startLb setup N arp garbage = some p) :
    N ≤ backendMax ∧ p.view.buf = [] ∧
      ∀ i : Fin N, p.view.states (UInt32.ofNat i) = some .enabled := by
  obtain ⟨bm, hadd, rfl⟩ := Option.map_eq_some_iff.mp h
  have hlen : (slotEndpoints N).length = N := by simp [slotEndpoints]
  have hroom : N ≤ backendMax := by
    by_contra hfull
    rw [addBackends_full (by rw [hlen]; omega)] at hadd
    cases hadd
  have hfits : ([] : List Endpoint).length + (slotEndpoints N).length ≤ backendMax := by
    simpa [hlen] using hroom
  obtain ⟨bm', hadd', hloaded⟩ := addBackends_loaded (backendManagerCreate_loaded arp) hfits
  rw [hadd] at hadd'
  cases hadd'
  refine ⟨hroom, rfl, fun i => ?_⟩
  have hi : (i : ℕ) < (slotEndpoints N).length := by
    rw [hlen]
    exact i.isLt
  have hfound := Loaded.findSlot_ofNat hloaded (by simpa [hlen] using hroom) hi
  obtain ⟨-, hbm, -⟩ := startControlPlane_fresh setup.H setup.m bm
  change adminStates (startControlPlane setup.H setup.m bm).bm (UInt32.ofNat i) = _
  rw [hbm]
  change (findSlot bm (UInt32.ofNat i)).map Backend.adminState = _
  rw [hfound]
  rfl

theorem open_synced {arp : UInt32 → Mac} {garbage : Fin n → Flow}
    (hp : startLb setup N arp garbage = some p) (h : Synced s) (hlbs : s.lbs = [])
    (hdrained : ∀ i : Fin N, isDrained (s.r.slots i) = false) : Synced (s.open p) := by
  obtain ⟨hroom, hbuf, hstates⟩ := startLb_view hp
  have hfifo : s.fifo = [] := by
    rcases h.pipe with ⟨-, hfifo⟩ | ⟨q, hq, -⟩
    · exact hfifo
    · rw [hlbs] at hq
      cases hq
  refine ⟨fun i => ⟨(h.drains i).lifecycle, fun hd => ?_, fun _ _ => ?_⟩, .inr ⟨p, ?_, ?_⟩⟩
  · have hno := hdrained i
    rw [isDrained, Bool.or_eq_false_iff, decide_eq_false_iff_not] at hno
    rcases hd with hm | hphase
    · exact absurd hm (by rw [show (s.open p).r.slots i = s.r.slots i from rfl, hno.1]; decide)
    · exact absurd hphase hno.2
  · intro hlast
    cases hlast
  · rw [Bridge.open, hlbs]
    rfl
  · have hview : p.view.readAll (s.open p).fifo = p.view := by
      rw [show (s.open p).fifo = s.fifo from rfl, hfifo]
      rfl
    refine ⟨hroom, ?_, fun i => ?_⟩
    · rw [hview, hbuf]
    · rw [hview]
      exact hstates i

/-- What a step does to the one process that there may be. -/
theorem Synced.of_lbs (h : Synced s) (hr : s'.r = s.r)
    (hnone : s.lbs = [] → s.fifo = [] → s'.lbs = [] ∧ s'.fifo = [])
    (hone : ∀ p, s.lbs = [p] → s'.lbs = [] ∧ s'.fifo = [] ∨
      ∃ p', s'.lbs = [p'] ∧ p'.view.readAll s'.fifo = p.view.readAll s.fifo) : Synced s' := by
  refine ⟨by rw [hr]; exact h.drains, ?_⟩
  rcases h.pipe with ⟨hlbs, hfifo⟩ | ⟨p, hlbs, hp⟩
  · exact .inl (hnone hlbs hfifo)
  · rcases hone p hlbs with hgone | ⟨p', hlbs', hview⟩
    · exact .inl hgone
    · exact .inr ⟨p', hlbs', hp.of_view hr hview⟩

theorem Synced.drainViewHolds (h : Synced s) : DrainViewHolds s := by
  intro hfifo p hp i hdrained
  rcases h.pipe with ⟨hlbs, -⟩ | ⟨q, hlbs, hq⟩
  · rw [hlbs] at hp
    cases hp
  · rw [hlbs, List.mem_singleton] at hp
    subst hp
    have hlast : lastVerb i s.r.ex = some .drain := by
      apply (h.drains i).drained
      simpa [isDrained] using hdrained
    have hstate := hq.state i
    rw [hfifo, hlast] at hstate
    exact hstate

theorem init_synced : Synced (Bridge.init Id N n b) := ⟨init_drains, .inl ⟨rfl, rfl⟩⟩

/-- Packets, probes and ticks change nothing of what admin commands change. -/
theorem worked_view (p : Process n b) (w : Work) :
    Process.view { p with sys := LoadBalancer.step setup.H setup.cfg p.sys w.event } =
      p.view := by
  have hstates : adminStates (LoadBalancer.step setup.H setup.cfg p.sys w.event).cp.bm =
      adminStates p.sys.cp.bm := by
    rw [step_adminStates]
    cases w <;> rfl
  rw [Process.view, hstates]
  rfl

section Steps

variable [LinearOrder Id]

theorem call_synced {e : Reconcile.Event Id} (h : Synced s)
    (hn : next setup exits s (.call e) = some s') : Synced s' := by
  obtain ⟨r, hr, rfl⟩ := Option.map_eq_some_iff.mp hn
  have hrun : Reconcile.run exits s.r [e] = some r := by
    rw [Reconcile.run, List.foldlM_cons, hr]
    rfl
  have hwithin : Within N s.r.ex.nextTurn r.ex := apply_within hr
  obtain ⟨l, hl, hcalls⟩ := hwithin.log_eq
  rw [Executor.nextTurn_log] at hl
  have hids : ∀ e ∈ l, ∀ verb lbId, e.2 = .admin verb lbId → lbId < N := by
    intro e he verb lbId hcall
    exact (hcalls e he).2.2 lbId (by rw [hcall]; rfl)
  have hlast : ∀ i, lastVerb i r.ex =
      (l.filterMap fun e => verbFor i e.2).getLast?.or (lastVerb i s.r.ex) := by
    intro i
    rw [lastVerb, Executor.lastOf, hl, List.filterMap_append, List.getLast?_append]
    rfl
  refine ⟨Drains.run h.drains hrun, ?_⟩
  rcases h.pipe with ⟨hlbs, hfifo⟩ | ⟨p, hlbs, hp⟩
  · refine .inl ⟨hlbs, ?_⟩
    simp [Bridge.write, hlbs, hfifo]
  · refine .inr ⟨p, hlbs, ?_⟩
    have hbytes : p.view.readAll (s.fifo ++ adminBytes l) =
        ⟨[], l.foldl States.command (p.view.readAll s.fifo).states⟩ := by
      have hbuf : p.view.readAll s.fifo = ⟨[], (p.view.readAll s.fifo).states⟩ := by
        rw [← hp.line]
      rw [View.readAll_append, hbuf, readAll_adminBytes]
      intro e he verb lbId hcall
      have hid := hids e he verb lbId hcall
      have hroom := hp.room
      have hmax : backendMax < 2 ^ 64 := by decide
      omega
    have hwrite : s.write (r.ex.log.drop s.r.ex.log.length) = s.fifo ++ adminBytes l := by
      rw [Bridge.write, hlbs, hl, List.drop_left]
      rfl
    refine ⟨hp.room, ?_, fun i => ?_⟩
    · dsimp only
      rw [hwrite, hbytes]
    · dsimp only
      rw [hwrite, hbytes, hlast, stateAfter_or]
      exact foldl_command_apply (i.isLt.trans_le hp.room)
        (fun e he verb lbId hcall => (hids e he verb lbId hcall).trans_le hp.room) (hp.state i)

theorem next_synced {e : Event Id n} (h : Synced s) (hopen : OpensUndrained s e)
    (hn : next setup exits s e = some s') : Synced s' := by
  cases e with
  | call e => exact call_synced h hn
  | opened arp garbage =>
      obtain ⟨hlbs, hdrained⟩ := hopen
      simp only [next] at hn
      split at hn
      · cases hn
        exact h
      · next p hp =>
          cases hn
          exact open_synced hp h (List.isEmpty_iff.mp hlbs) hdrained
  | exited k =>
      cases hn
      refine h.of_lbs rfl (fun hlbs hfifo => ?_) fun p hlbs => ?_
      · simp [Bridge.close, hlbs]
      · cases k with
        | zero => exact .inl (by simp [Bridge.close, hlbs])
        | succ k => exact .inr ⟨p, by simp [Bridge.close, hlbs]⟩
  | worked k w =>
      cases hn
      refine h.of_lbs rfl (fun hlbs hfifo => ⟨by simp [hlbs], hfifo⟩) fun p hlbs => .inr ?_
      cases k with
      | zero =>
          exact ⟨{ p with sys := LoadBalancer.step setup.H setup.cfg p.sys w.event },
            by simp [hlbs], congrArg (View.readAll · s.fifo) (worked_view p w)⟩
      | succ k => exact ⟨p, by simp [hlbs], rfl⟩
  | read k count growOk =>
      simp only [next] at hn
      split at hn
      · next hk =>
          cases hn
          refine h.of_lbs rfl (fun hlbs _ => ?_) fun p hlbs => .inr ?_
          · rw [hlbs] at hk
            cases hk
          · cases k with
            | zero =>
                refine ⟨processAdminFifo setup.H setup.cfg growOk p (s.fifo.take count),
                  by simp [hlbs], ?_⟩
                rw [processAdminFifo_view, ← View.readAll_append, List.take_append_drop]
            | succ k =>
                rw [hlbs] at hk
                simp at hk
      · cases hn
        exact h

theorem next_isSome (h : Synced s) (e : Event Id n) : (next setup exits s e).isSome := by
  cases e with
  | call e =>
      rw [next, Option.isSome_map]
      exact apply_isSome (fun i => (h.drains i).lifecycle) e
  | opened arp garbage =>
      simp only [next]
      split <;> rfl
  | exited | worked => rfl
  | read k count growOk =>
      simp only [next]
      split <;> rfl

theorem run_synced {es : List (Event Id n)} (h : Synced s)
    (hopen : EventRun.Along (next setup exits) OpensUndrained s es) :
    ∃ s', run setup exits s es = some s' ∧ Synced s' := by
  refine hopen.exists_run (fun h hC => ?_) h
  obtain ⟨s₁, hs₁⟩ := Option.isSome_iff_exists.mp (next_isSome h _)
  exact ⟨s₁, hs₁, next_synced h hC hs₁⟩

/-- In every run in which a maglev-lb opens the pipe only while no slot is
drained and no other process has it open: whenever the pipe has been read empty,
every slot whose phase is draining or which is drained by hand is draining
inside maglev-lb. -/
theorem drain_view_survives (setup : Setup n b) (exits : Proc → Moment) (es : List (Event Id n))
    (hopen : EventRun.Along (next setup exits) OpensUndrained (Bridge.init Id N n b) es) :
    ∃ s, run setup exits (Bridge.init Id N n b) es = some s ∧ DrainViewHolds s := by
  obtain ⟨s, hrun, hs⟩ := run_synced init_synced hopen
  exact ⟨s, hrun, hs.drainViewHolds⟩

end Steps

def sampleSetup : Setup 2 4 where
  H := Datapath.sampleHashes
  cfg := Datapath.sampleConfig
  m := Datapath.sampleSize
  hcCfg := ⟨2, 2⟩
  pow2 := ⟨2, rfl⟩

def sampleOpened : Event String 2 :=
  .opened (fun _ => Vector.replicate 6 1) fun _ => ⟨Datapath.sampleKey, 0, 0⟩

/-- One backend is started. -/
def started : List (Event String 2) :=
  [sampleOpened, .call (.setDesired (canvas ["b1"])), .call (.step 1 (observe []) fun _ => none)]

/-- A restart, and then a drain by hand that maglev-lb reads. -/
theorem drain_view_survives_undrained :
    ∃ s : Bridge String 1 2 4, run sampleSetup (fun _ => toLex (9, 0)) (Bridge.init String 1 2 4)
      (started ++ [.exited 0, sampleOpened, .call (.action "b1" .drain 2), .read 0 128 true]) =
        some s ∧ DrainViewHolds s :=
  drain_view_survives _ _ _ (by decide +kernel)

/-- The same drain before the restart: the new process has the backend enabled,
with nothing left to read. -/
theorem drain_forgotten :
    ∃ s : Bridge String 1 2 4, run sampleSetup (fun _ => toLex (9, 0)) (Bridge.init String 1 2 4)
      (started ++ [.call (.action "b1" .drain 2), .read 0 128 true, .exited 0, sampleOpened]) =
        some s ∧ ¬ DrainViewHolds s := by
  have hrun : (run sampleSetup (fun _ => toLex (9, 0)) (Bridge.init String 1 2 4)
      (started ++ [.call (.action "b1" .drain 2), .read 0 128 true, .exited 0, sampleOpened])).any
      (fun s => s.fifo = [] ∧ isDrained (s.r.slots 0) = true ∧
        ∃ p ∈ s.lbs, adminStates p.sys.cp.bm 0 = some .enabled) = true := by
    decide +kernel
  obtain ⟨s, hs, h⟩ := (Option.any_eq_true _ _).mp hrun
  obtain ⟨hfifo, hdrained, p, hp, hstate⟩ := of_decide_eq_true h
  refine ⟨s, hs, fun hholds => ?_⟩
  have hdraining : adminStates p.sys.cp.bm 0 = some .draining := hholds hfifo p hp 0 hdrained
  rw [hstate] at hdraining
  cases hdraining

end MaglevLb.LbRestart
