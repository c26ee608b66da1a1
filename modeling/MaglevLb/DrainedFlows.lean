import MaglevLb.Draining
import MaglevLb.FlowGauges
import MaglevLb.IndexedLists
import MaglevLb.LbRestart
import MaglevLb.SlotCommands

/-!
# The flows of a drained slot

From the canvas to the packets: once maglev-lb has read the pipe, a slot that the reconciler
counts as drained gets no new flow for as long as it is counted so, whatever else is written
to the pipe and however little of it has been read. The reason is that no call into the
reconciler undrains a slot and leaves it drained.
-/
namespace MaglevLb.DrainedFlows

open Children OrderedDict Slots Reconcile SlotMoves SlotViews SlotLifecycle SlotCommands
open PacketFormat Maglev BackendManager TableGenerator HealthChecker Conntrack
open LoadBalancer (System Steady IsDraining)
open AdminPipe LbRestart FlowGauges IndexedLists

/-! ### The commands about a drained slot -/

/-- Commands among which backend `i` is not undrained. -/
abbrev Silent (i : ℕ) : Executor → Executor → Prop :=
  Executor.Advances fun e => e.2 ≠ .admin .undrain i

section Slot

variable {Id : Type*} {exits : Proc → Moment} {now : ℚ} {i : ℕ} {v w : Site Id}

theorem silent_of_elsewhere {ex ex' : Executor} (h : Elsewhere i ex ex') : Silent i ex ex' := by
  refine h.mono fun e he heq => he ?_
  rw [heq]
  rfl

theorem isDrained_cleared : isDrained (Slot.cleared : Slot Id) = false := rfl

theorem isDrained_eq_false {s : Slot Id} :
    isDrained s = false ↔ s.manualDrain = false ∧ s.phase ≠ .draining := by
  rw [isDrained, Bool.or_eq_false_iff, decide_eq_false_iff_not]

variable [DecidableEq Id] {want : Dict Id (BackendNode Id)} {lb : Dict ℕ Observation}
  {latest : Proc → Option Stats}

theorem configure_isDrained (alive : Bool) (v : Site Id) :
    isDrained (configure i want alive v).slot = isDrained v.slot := by
  unfold configure
  split
  · rfl
  · split <;> rfl

/-- A slot that is being stopped, or freed after it, is not drained. -/
theorem isDrained_of_stopping (hl : Lifecycle v.slot) (hp : v.slot.phase = .stopping)
    (h : progress exits now i want lb latest v = some w) : isDrained w.slot = false := by
  have hstopping : isDrained v.slot = false :=
    isDrained_eq_false.mpr ⟨hl.manual (hl.stopping hp), by simp [hp]⟩
  unfold progress at h
  rw [if_neg (hl.owned (by simp [hp]))] at h
  dsimp only at h
  rw [if_neg (by simp [hl.stopping hp])] at h
  obtain ⟨w', hadvance, rfl⟩ := Option.map_eq_some_iff.mp h
  rw [configure_isDrained]
  unfold advance at hadvance
  simp only [hp] at hadvance
  unfold stopFurther at hadvance
  split at hadvance
  · obtain ⟨since, -, rfl⟩ := Option.map_eq_some_iff.mp hadvance
    split <;> exact hstopping
  · split at hadvance
    · cases hadvance
      exact hstopping
    · cases hadvance
      exact isDrained_cleared

/-- A slot that serves is not drained by looking at it. -/
theorem isDrained_of_serving (hmanual : v.slot.manualDrain = false)
    (hp : v.slot.phase = .serving) (h : progress exits now i want lb latest v = some w) :
    isDrained w.slot = false := by
  have hserving : isDrained v.slot = false := isDrained_eq_false.mpr ⟨hmanual, by simp [hp]⟩
  unfold progress at h
  split at h
  · cases h
    exact hserving
  · dsimp only at h
    split at h
    · cases h
      exact isDrained_eq_false.mpr ⟨hmanual, by simp⟩
    · obtain ⟨w', hadvance, rfl⟩ := Option.map_eq_some_iff.mp h
      rw [configure_isDrained]
      unfold advance at hadvance
      simp only [hp] at hadvance
      split at hadvance
      · cases hadvance
        exact hserving
      · cases hadvance
        exact isDrained_eq_false.mpr ⟨hmanual, by simp⟩

theorem progress_silent (hl : Lifecycle v.slot)
    (h : progress exits now i want lb latest v = some w) (hd : isDrained w.slot = true) :
    Silent i v.ex w.ex := by
  refine (progress_issues h).mono fun e he heq => ?_
  obtain ⟨m, c⟩ := e
  dsimp only at heq
  subst heq
  cases he with
  | undrain hp _ =>
      rw [isDrained_of_stopping hl hp h] at hd
      cases hd

/-- Unless a removal is called off. -/
theorem removal_silent (exits : Proc → Moment) (now : ℚ) (i : ℕ)
    (want : Dict Id (BackendNode Id)) (v : Site Id) :
    Silent i v.ex (removal exits now i want v).ex ∨
      (removal exits now i want v).slot = { v.slot with removing := false, phase := .serving } ∧
        v.slot.removing = true := by
  have hvisit := removal_cases exits now i want v
  generalize removal exits now i want v = w at hvisit
  cases hvisit with
  | free | kept => exact .inl .refl
  | drains => exact .inl (Executor.Advances.refl.tick.call (by simp))
  | stops =>
      refine .inl (.trans (.tick .refl) (beginStop_issues fun _ => ?_))
      simp
  | cancels _ _ hr _ => exact .inr ⟨rfl, hr⟩

omit [DecidableEq Id] in
theorem added_silent (h : Added i v w) : Silent i v.ex w.ex := by
  cases h with
  | kept _ he => exact silent_of_elsewhere he
  | taken cid cfg ex _ he _ hr =>
      exact ((silent_of_elsewhere he).spawnBackend (by simp)).trans (silent_of_elsewhere hr)

theorem clearFault_silent : Silent i v.ex (clearFault i want v).ex := by
  unfold clearFault
  dsimp only
  split
  · exact .refl
  · split
    · exact Executor.Advances.refl.spawnBackend (by simp)
    · exact .refl
  · split
    · exact Executor.Advances.refl.call (by simp)
    · exact .refl
  all_goals
    split
    · exact Executor.Advances.refl.call (by simp)
    · exact .refl

omit [DecidableEq Id] in
theorem isDrained_undrain : isDrained (undrain i v).slot = false := by
  refine isDrained_eq_false.mpr ⟨rfl, ?_⟩
  unfold undrain
  dsimp only
  split
  · decide
  · assumption

theorem perform_silent {kind : ActionKind}
    (hd : isDrained (perform exits now i want kind v).slot = true) :
    Silent i v.ex (perform exits now i want kind v).ex := by
  have hclear : Silent i v.ex (clearFault i want v).ex := clearFault_silent
  cases kind with
  | crash =>
      unfold perform
      dsimp only
      split
      · exact hclear.tick.call (by simp)
      · exact hclear.tick
  | slow | errors | partition => exact hclear.call (by simp)
  | restart | clear => exact hclear
  | drain => exact Executor.Advances.refl.call (by simp)
  | undrain =>
      rw [perform, isDrained_undrain] at hd
      cases hd

theorem resetSlot_silent (hd : isDrained (resetSlot exits i want v).slot = true) :
    Silent i v.ex (resetSlot exits i want v).ex := by
  have hclear : Silent i v.ex (clearFault i want v).ex := clearFault_silent
  unfold resetSlot at hd ⊢
  by_cases hskip : v.slot.owner = none ∨ v.slot.removing = true
  · rw [if_pos hskip]
    exact .refl
  · rw [if_neg hskip] at hd ⊢
    by_cases hmanual : (clearFault i want v).slot.manualDrain = true
    · simp only [if_pos hmanual] at hd
      split at hd
      · exact absurd hd (by rw [isDrained_undrain]; decide)
      · exact absurd hd (by rw [isDrained_undrain]; decide)
    · simp only [if_neg hmanual]
      split
      · exact hclear.tick.call (by simp)
      · exact hclear.tick

end Slot

section Call

variable {Id : Type*} [LinearOrder Id] {N : ℕ} {exits : Proc → Moment} {r r' : Reconciler Id N}
  {i : Fin N}

theorem step_silent {now : ℚ} {lb : Dict ℕ Observation} {latest : Proc → Option Stats}
    (hl : Lifecycle (r.slots i)) (h : r.step exits now lb latest = some r')
    (hd : isDrained (r'.slots i) = true) : Silent i r.ex r'.ex := by
  obtain ⟨ex₁, ex₂, v₃, v₄, hview⟩ := step_view h i
  have hslot : r'.slots i = v₄.slot := hview.slot
  rw [hslot] at hd
  have hlife : Lifecycle (removal exits now i r.desiredBackends ⟨r.slots i, ex₁⟩).slot :=
    removal_lifecycle hl
  have htrail : Trail exits i ⟨(removal exits now i r.desiredBackends ⟨r.slots i, ex₁⟩).slot, ex₂⟩
      v₃ := hview.added.trail
  have hlife₃ : Lifecycle v₃.slot := Trail.lifecycle htrail hlife
  have hremoval : Silent i ex₁ (removal exits now i r.desiredBackends ⟨r.slots i, ex₁⟩).ex := by
    rcases removal_silent exits now i r.desiredBackends ⟨r.slots i, ex₁⟩ with
      hsilent | ⟨hcancel, hremoving⟩
    · exact hsilent
    · -- a slot that serves again is not drained at the end of the step
      have hkept : v₃.slot = { r.slots i with removing := false, phase := .serving } := by
        have hadded := hview.added
        rw [hcancel] at hadded
        cases hadded with
        | kept hs _ => exact hs
        | taken _ _ _ hf => cases hf
      have hnot := isDrained_of_serving (v := v₃) (by rw [hkept]; exact hl.manual hremoving)
        (by rw [hkept]) hview.progress
      rw [hnot] at hd
      cases hd
  exact ((silent_of_elsewhere hview.before).trans hremoval).trans
    (((silent_of_elsewhere hview.between).trans (added_silent hview.added)).trans
      ((progress_silent hlife₃ hview.progress hd).trans (silent_of_elsewhere hview.after)))

/-- No call into the reconciler undrains a slot and leaves it drained. -/
theorem apply_silent {e : Event Id} (hl : Lifecycle (r.slots i)) (h : apply exits r e = some r')
    (hd : isDrained (r'.slots i) = true) : Silent i r.ex.nextTurn r'.ex := by
  cases e with
  | setDesired | suppressLoad =>
      cases h
      exact .refl
  | action target kind now =>
      rcases apply_action h with hok | rfl
      · obtain ⟨k, howner, hkept, rfl⟩ := action_ok hok
        by_cases hi : i = k
        · subst hi
          rw [put_self] at hd
          exact perform_silent hd
        · have hik : (i : ℕ) ≠ k := fun he => hi (Fin.ext he)
          have howned : (r.slots k).owner ≠ none := by simp [show (r.slots k).owner = _ from howner]
          have htends : Tends k r.ex.nextTurn
              (perform exits now k r.desiredBackends kind ⟨r.slots k, r.ex.nextTurn⟩).ex :=
            perform_tends (v := ⟨r.slots k, r.ex.nextTurn⟩) howned hkept
          exact silent_of_elsewhere (htends.only.elsewhere hik)
      · exact .refl
  | reset now =>
      obtain ⟨ex₁, hbefore, hslot, hafter⟩ := reset_view h i
      rw [hslot] at hd
      exact ((silent_of_elsewhere hbefore).trans (resetSlot_silent hd)).trans
        (silent_of_elsewhere hafter)
  | step now lb latest => exact step_silent (r := { r with ex := r.ex.nextTurn }) hl h hd

end Call

/-! ### The pipe -/

section Pipe

/-- Backend `i` drains now and after each byte that is left to read. -/
def Holds (i : ℕ) (v : View) (bytes : List UInt8) : Prop :=
  ∀ k, (v.readAll (bytes.take k)).states (UInt32.ofNat i) = some .draining

variable {i : ℕ} {v : View} {bytes bytes' : List UInt8}

theorem Holds.now (h : Holds i v bytes) : v.states (UInt32.ofNat i) = some .draining := h 0

/-- What is read first, and then the rest. -/
theorem Holds.append (h : Holds i v bytes) (h' : Holds i (v.readAll bytes) bytes') :
    Holds i v (bytes ++ bytes') := by
  intro k
  rw [List.take_append, View.readAll_append]
  rcases le_total k bytes.length with hk | hk
  · rw [Nat.sub_eq_zero_of_le hk]
    exact h k
  · rw [List.take_of_length_le hk]
    exact h' _

theorem Holds.drop (h : Holds i v bytes) (count : ℕ) :
    Holds i (v.readAll (bytes.take count)) (bytes.drop count) := by
  intro k
  rw [← View.readAll_append, ← List.take_add]
  exact h (count + k)

/-- A line that has not ended changes nothing. -/
theorem holds_line {states : States} {line : List UInt8} (hline : ∀ c ∈ line, c ≠ 10)
    (hroom : line.length < adminLineMax)
    (hnow : states (UInt32.ofNat i) = some .draining) : Holds i ⟨[], states⟩ line := by
  intro k
  rw [readAll_unfinished (fun c hc => hline c (List.mem_of_mem_take hc))]
  · exact hnow
  · rw [List.length_nil, List.length_take]
    omega

/-- A command other than its UNDRAIN. -/
theorem command_draining {e : Moment × Call} {states : States} (hi : i < backendMax)
    (hid : ∀ verb lbId, e.2 = .admin verb lbId → lbId < backendMax)
    (hcall : e.2 ≠ .admin .undrain i) (hnow : states (UInt32.ofNat i) = some .draining) :
    states.command e (UInt32.ofNat i) = some .draining := by
  rw [command_apply hi hid hnow]
  cases hc : e.2 with
  | admin verb lbId =>
      rw [hc] at hcall
      by_cases hlb : lbId = i
      · subst hlb
        cases verb with
        | drain => simp [DrainBookkeeping.verbFor, stateAfter, verbState]
        | undrain => exact absurd rfl hcall
      · simp [DrainBookkeeping.verbFor, stateAfter, hlb]
  | spawnBackend | spawnClient | send | terminate | kill | setGre => rfl

theorem holds_command {e : Moment × Call} {states : States}
    (hid : ∀ verb lbId, e.2 = .admin verb lbId → lbId < backendMax)
    (hnow : states (UInt32.ofNat i) = some .draining)
    (hnext : states.command e (UInt32.ofNat i) = some .draining) :
    Holds i ⟨[], states⟩ (adminBytes [e]) := by
  have hsize : backendMax < 2 ^ 64 := by decide
  have hread : View.readAll ⟨[], states⟩ (adminBytes [e]) = ⟨[], states.command e⟩ :=
    readAll_adminBytes (List.forall_mem_singleton.mpr fun verb lbId hc =>
      (hid verb lbId hc).trans hsize)
  cases hc : e.2 with
  | admin verb lbId =>
      have hbytes : adminBytes [e] = adminLine verb lbId ++ [10] := by
        simp [adminBytes, hc]
      have hline : Holds i ⟨[], states⟩ (adminLine verb lbId) :=
        holds_line (fun _ hc => (adminLine_bytes hc).1)
          (length_adminLine ((hid verb lbId hc).trans hsize)) hnow
      rw [hbytes] at hread ⊢
      refine hline.append fun k => ?_
      cases k with
      | zero =>
          have hend := hline (adminLine verb lbId).length
          rw [List.take_length] at hend
          exact hend
      | succ k =>
          rw [List.take_of_length_le (Nat.le_add_left 1 k), ← View.readAll_append, hread]
          exact hnext
  | spawnBackend | spawnClient | send | terminate | kill | setGre =>
      have hbytes : adminBytes [e] = [] := by
        simp [adminBytes, hc]
      intro k
      rw [hbytes, List.take_nil]
      exact hnow

/-- Commands that do not undrain it. -/
theorem holds_adminBytes {calls : List (Moment × Call)} {states : States} (hi : i < backendMax)
    (hid : ∀ e ∈ calls, ∀ verb lbId, e.2 = .admin verb lbId → lbId < backendMax)
    (hcalls : ∀ e ∈ calls, e.2 ≠ .admin .undrain i)
    (hnow : states (UInt32.ofNat i) = some .draining) :
    Holds i ⟨[], states⟩ (adminBytes calls) := by
  have hsize : backendMax < 2 ^ 64 := by decide
  induction calls generalizing states with
  | nil =>
      intro k
      rw [adminBytes, List.flatMap_nil, List.take_nil]
      exact hnow
  | cons e calls ih =>
      obtain ⟨hide, hid⟩ := List.forall_mem_cons.mp hid
      obtain ⟨hcall, hcalls⟩ := List.forall_mem_cons.mp hcalls
      have hnext := command_draining hi hide hcall hnow
      have hbytes : adminBytes (e :: calls) = adminBytes [e] ++ adminBytes calls := by
        simp [adminBytes]
      rw [hbytes]
      refine (holds_command hide hnow hnext).append ?_
      rw [readAll_adminBytes (List.forall_mem_singleton.mpr fun verb lbId hc =>
        (hide verb lbId hc).trans hsize)]
      exact ih hid hcalls hnext

end Pipe

/-! ### Packets -/

section Packets

variable {n b : ℕ} {H : Hashes} {cfg : Datapath.DatapathConfig} {s : System n b} {i : ℕ}

theorem isDraining_of_states {bm : Manager} {id : UInt32}
    (h : adminStates bm id = some .draining) : IsDraining bm id := by
  obtain ⟨x, hx, hstate⟩ := Option.map_eq_some_iff.mp h
  obtain ⟨slot, hfind, rfl⟩ := Option.map_eq_some_iff.mp hx
  obtain ⟨hused, hid⟩ := holdsId_iff.mp (List.find?_some hfind)
  refine ⟨slot.backend, ?_, hid, hstate⟩
  exact List.mem_map_of_mem (List.mem_filter.mpr ⟨List.mem_of_find?_eq_some hfind, hused⟩)

theorem position_eq {id : Int32} (h : position id = i) : id = (UInt32.ofNat i).toInt32 := by
  subst h
  rw [position, UInt32.ofNat_toNat, Int32.toInt32_toUInt32]

/-- A packet opens at most one flow, for the backend it pins. -/
theorem packet_flows (hwf : s.ct.Wf H.flowHash) (frame : List UInt8) (now : UInt64) (sent : ℤ) :
    let r := Datapath.handlePacket H cfg s.datapath frame now sent
    r.ct.Wf H.flowHash ∧ ∀ q,
      pinnedWhere r.ct q = pinnedWhere s.ct q + if r.pinned.any q then 1 else 0 := by
  dsimp only
  cases hv : Datapath.vipFlow cfg frame with
  | none =>
      obtain ⟨hct, hpinned, -⟩ := Datapath.handlePacket_skipped (H := H) s.datapath hv now sent
      rw [hct, hpinned]
      exact ⟨hwf, fun _ => rfl⟩
  | some fx =>
      obtain ⟨r, he, hr⟩ := Datapath.handlePacket_routed (H := H) s.datapath hv now sent
      have hlookup := conntrackLookup_wf hwf fx.key now
      have hsame := conntrackLookup_pinnedWhere hwf fx.key now
      rw [he]
      cases hr with
      | unrouted hit d hd => exact ⟨hlookup, hsame⟩
      | pinned snap id ha hl => exact ⟨hlookup, hsame⟩
      | opened snap id ct' ha hl hid hpos hi =>
          refine ⟨conntrackInsert_wf hlookup hi, fun q => ?_⟩
          rw [conntrackInsert_pinnedWhere hlookup hi]
          exact congrArg (· + _) (hsame q)

/-- No flow is opened for a backend that drains. -/
theorem packet_pinnedTo (hsteady : Steady H s.cp) (hwf : s.ct.Wf H.flowHash)
    (hd : adminStates s.cp.bm (UInt32.ofNat i) = some .draining) (frame : List UInt8)
    (now : UInt64) (sent : ℤ) :
    pinnedTo (Datapath.handlePacket H cfg s.datapath frame now sent).ct i = pinnedTo s.ct i := by
  have hpin : (Datapath.handlePacket H cfg s.datapath frame now sent).pinned ≠
      some (UInt32.ofNat i).toInt32 :=
    LoadBalancer.draining_not_pinned hsteady (isDraining_of_states hd) frame now sent
  have hother : ((Datapath.handlePacket H cfg s.datapath frame now sent).pinned.any
      fun id => position id == i) = false := by
    rw [Option.any_eq_false]
    intro id hid
    rw [beq_eq_false_iff_ne]
    exact fun hpos => hpin (hid.trans (congrArg some (position_eq hpos)))
  rw [pinnedTo, (packet_flows hwf frame now sent).2, hother]
  rfl

/-- A sweep only takes flows away. -/
theorem tick_pinnedTo (hwf : s.ct.Wf H.flowHash) (now : UInt64) (i : ℕ) :
    (Datapath.reaperTick cfg s.datapath now).ct.Wf H.flowHash ∧
      pinnedTo (Datapath.reaperTick cfg s.datapath now).ct i ≤ pinnedTo s.ct i := by
  have hreap := reapLoop_pinnedWhere cfg.timeouts now (min (b / 60 + 1) b) hwf
    fun id => position id == i
  refine ⟨reapLoop_wf cfg.timeouts now (min (b / 60 + 1) b) hwf, ?_⟩
  rw [pinnedTo, pinnedTo, hreap]
  exact Nat.le_add_right _ _

end Packets

/-! ### The whole -/

section Whole

variable {n b : ℕ} {setup : Setup n b} {p : Process n b}

/-- Up to date with its backends, and with a connection table in order. -/
structure Sound (setup : Setup n b) (p : Process n b) : Prop where
  steady : Steady setup.H p.sys.cp
  wf : p.sys.ct.Wf setup.H.flowHash

theorem startLb_sound {N : ℕ} {arp : UInt32 → Mac} {garbage : Fin n → Flow}
    (h : startLb setup N arp garbage = some p) : Sound setup p := by
  obtain ⟨hroom, -, -⟩ := startLb_view h
  obtain ⟨bm, hadd, rfl⟩ := Option.map_eq_some_iff.mp h
  have hlen : (slotEndpoints N).length = N := by simp [slotEndpoints]
  have hfits : ([] : List StartUp.Endpoint).length + (slotEndpoints N).length ≤ backendMax := by
    simpa [hlen] using hroom
  obtain ⟨bm', hadd', hloaded⟩ :=
    StartUp.addBackends_loaded (StartUp.backendManagerCreate_loaded arp) hfits
  rw [hadd] at hadd'
  cases hadd'
  have hok := StartUp.Loaded.idsOk hloaded (by simpa [hlen] using hroom)
  have hnext : bm.nextId.toNat < 2 ^ 31 := by
    have hsize : backendMax < 2 ^ 31 := by decide
    rw [hloaded.nextId, List.nil_append, hlen, UInt32.toNat_ofNat_of_lt' (by
      change N < 2 ^ 32
      omega)]
    omega
  obtain ⟨hfresh, hbm, -, -⟩ := startControlPlane_fresh setup.H setup.m bm
  refine ⟨⟨hfresh, ?_, ?_⟩, conntrackInit_wf setup.pow2 garbage⟩
  · rw [hbm]
    exact ⟨hok.nodup, hok.below⟩
  · rw [hbm]
    exact hnext

/-- What a process does besides reading the pipe. -/
theorem worked_sound (h : Sound setup p) (w : Work) :
    Sound setup { p with sys := LoadBalancer.step setup.H setup.cfg p.sys w.event } := by
  have hsteady : Steady setup.H (LoadBalancer.step setup.H setup.cfg p.sys w.event).cp :=
    LoadBalancer.step_steady p.sys w.event h.steady
  refine ⟨hsteady, ?_⟩
  cases w with
  | packet frame now sent => exact (packet_flows h.wf frame now sent).1
  | probe => exact h.wf
  | tick now => exact (tick_pinnedTo h.wf now 0).1

theorem worked_flows (h : Sound setup p) {i : ℕ}
    (hd : p.view.states (UInt32.ofNat i) = some .draining) (w : Work) :
    pinnedTo (LoadBalancer.step setup.H setup.cfg p.sys w.event).ct i ≤ pinnedTo p.sys.ct i := by
  cases w with
  | packet frame now sent => exact (packet_pinnedTo h.steady h.wf hd frame now sent).le
  | probe => exact le_rfl
  | tick now => exact (tick_pinnedTo h.wf now i).2

/-- Lines of the pipe reach the backends and no flow. -/
theorem processAdminFifo_sound (h : Sound setup p) (growOk : Bool) (bytes : List UInt8) :
    Sound setup (processAdminFifo setup.H setup.cfg growOk p bytes) ∧
      (processAdminFifo setup.H setup.cfg growOk p bytes).sys.ct = p.sys.ct := by
  refine EventRun.run_invariant (P := fun q : Process n b => Sound setup q ∧ q.sys.ct = p.sys.ct)
    (fun q c hq => ?_) ⟨h, rfl⟩ bytes
  obtain ⟨hsound, hct⟩ := hq
  unfold adminByte
  split
  · exact ⟨⟨hsound.steady, hsound.wf⟩, hct⟩
  · exact ⟨⟨LoadBalancer.step_steady q.sys _ hsound.steady, hsound.wf⟩, hct⟩

variable {Id : Type*} [LinearOrder Id] {N : ℕ} {exits : Proc → Moment}
  {s s' : Bridge Id N n b}

theorem next_sound {e : LbRestart.Event Id n} (h : ∀ p ∈ s.lbs, Sound setup p)
    (hn : next setup exits s e = some s') : ∀ p ∈ s'.lbs, Sound setup p := by
  cases e with
  | call e =>
      obtain ⟨r, -, rfl⟩ := Option.map_eq_some_iff.mp hn
      exact h
  | opened arp garbage =>
      simp only [next] at hn
      split at hn
      · cases hn
        exact h
      · next p hp =>
          cases hn
          exact List.forall_mem_append.mpr ⟨h, List.forall_mem_singleton.mpr (startLb_sound hp)⟩
  | exited k =>
      cases hn
      exact fun p hp => h p (List.mem_of_mem_eraseIdx hp)
  | worked k w =>
      cases hn
      exact forall_mem_modify (fun p hp => worked_sound hp w) h k
  | read k count growOk =>
      simp only [next] at hn
      split at hn
      · cases hn
        exact forall_mem_modify (fun p hp => (processAdminFifo_sound hp growOk _).1) h k
      · cases hn
        exact h

/-- One maglev-lb reads the pipe; while the slot is drained its backend drains there, now and
whatever is read next, and it has at most `count` flows. -/
structure Draining (setup : Setup n b) (i : Fin N) (count : ℕ) (s : Bridge Id N n b)
    (p : Process n b) : Prop where
  synced : Synced s
  lbs : s.lbs = [p]
  sound : Sound setup p
  holds : isDrained (s.r.slots i) = true → Holds i p.view s.fifo
  flows : pinnedTo p.sys.ct i ≤ count

/-- The slot is drained, and what comes next is no start and no end of a maglev-lb. -/
def StaysDrained (i : Fin N) (s : Bridge Id N n b) : LbRestart.Event Id n → Prop
  | .opened _ _ => False
  | .exited _ => False
  | _ => isDrained (s.r.slots i) = true

instance (i : Fin N) (s : Bridge Id N n b) (e : LbRestart.Event Id n) :
    Decidable (StaysDrained i s e) := by
  cases e <;> unfold StaysDrained <;> infer_instance

variable {i : Fin N} {count : ℕ}

omit [LinearOrder Id] in
theorem Draining.follows (h : Draining setup i count s p) : Follows s p := by
  rcases h.synced.pipe with ⟨hnone, -⟩ | ⟨q, hq, hfollows⟩
  · rw [h.lbs] at hnone
    cases hnone
  · rw [h.lbs] at hq
    cases hq
    exact hfollows

theorem Draining.call (h : Draining setup i count s p) (hd : isDrained (s.r.slots i) = true)
    {e : Reconcile.Event Id} (hn : next setup exits s (.call e) = some s') :
    Draining setup i count s' p := by
  have hsynced := call_synced h.synced hn
  have hfollows := h.follows
  obtain ⟨r, hr, rfl⟩ := Option.map_eq_some_iff.mp hn
  refine ⟨hsynced, h.lbs, h.sound, fun hd' => ?_, h.flows⟩
  have hsilent : Silent i s.r.ex.nextTurn r.ex :=
    apply_silent (h.synced.drains i).lifecycle hr hd'
  obtain ⟨l, hl, hcalls⟩ := hsilent.log_eq
  have hwithin : Within N s.r.ex.nextTurn r.ex := apply_within hr
  have hids : ∀ e ∈ l, ∀ verb lbId, e.2 = .admin verb lbId → lbId < backendMax := by
    intro e he verb lbId hcall
    have hlt : lbId < N := hwithin.issued hl e he lbId (by rw [hcall]; rfl)
    exact hlt.trans_le hfollows.room
  have hwrite : s.write (r.ex.log.drop s.r.ex.log.length) = s.fifo ++ adminBytes l := by
    rw [Executor.nextTurn_log] at hl
    rw [Bridge.write, h.lbs, hl, List.drop_left]
    rfl
  dsimp only
  rw [hwrite]
  refine (h.holds hd).append ?_
  have hread : p.view.readAll s.fifo = ⟨[], (p.view.readAll s.fifo).states⟩ := by
    rw [← hfollows.line]
  have hnow := h.holds hd s.fifo.length
  rw [List.take_length] at hnow
  rw [hread]
  exact holds_adminBytes (i.isLt.trans_le hfollows.room) hids (fun e he => (hcalls e he).2.2) hnow

theorem Draining.next {e : LbRestart.Event Id n} (h : Draining setup i count s p)
    (hd : StaysDrained i s e) (hn : next setup exits s e = some s') :
    ∃ p', Draining setup i count s' p' := by
  have hopen : OpensUndrained s e := by
    cases e with
    | opened => exact hd.elim
    | call | exited | worked | read => trivial
  have hsynced := next_synced h.synced hopen hn
  cases e with
  | call e => exact ⟨p, h.call hd hn⟩
  | opened => exact hd.elim
  | exited => exact hd.elim
  | worked k w =>
      cases hn
      cases k with
      | zero =>
          refine ⟨{ p with sys := LoadBalancer.step setup.H setup.cfg p.sys w.event }, hsynced,
            ?_, worked_sound h.sound w, fun hd' => ?_, ?_⟩
          · dsimp only
            rw [h.lbs]
            rfl
          · rw [worked_view]
            exact h.holds hd'
          · exact (worked_flows h.sound (h.holds hd).now w).trans h.flows
      | succ k =>
          refine ⟨p, hsynced, ?_, h.sound, h.holds, h.flows⟩
          dsimp only
          rw [h.lbs, List.modify_succ_cons, List.modify_nil]
  | read k size growOk =>
      simp only [LbRestart.next] at hn
      split at hn
      · next hk =>
          cases hn
          rw [h.lbs, List.length_singleton, Nat.lt_one_iff] at hk
          subst hk
          have hfifo := processAdminFifo_sound h.sound growOk (s.fifo.take size)
          refine ⟨processAdminFifo setup.H setup.cfg growOk p (s.fifo.take size), hsynced, ?_,
            hfifo.1, fun hd' => ?_, ?_⟩
          · dsimp only
            rw [h.lbs]
            rfl
          · rw [processAdminFifo_view]
            exact (h.holds hd').drop size
          · rw [hfifo.2]
            exact h.flows
      · cases hn
        exact ⟨p, hsynced, h.lbs, h.sound, h.holds, h.flows⟩

theorem Draining.run {es : List (LbRestart.Event Id n)} (h : Draining setup i count s p)
    (hd : EventRun.Along (LbRestart.next setup exits) (StaysDrained i) s es) :
    ∃ s' p', LbRestart.run setup exits s es = some s' ∧ Draining setup i count s' p' := by
  have hrun := hd.exists_run (P := fun s => ∃ p, Draining setup i count s p) ?_ ⟨p, h⟩
  · obtain ⟨s', hs', p', hp'⟩ := hrun
    exact ⟨s', p', hs', hp'⟩
  · rintro s e ⟨p, h⟩ hC
    obtain ⟨s₁, hs₁⟩ := Option.isSome_iff_exists.mp (next_isSome h.synced e)
    exact ⟨s₁, hs₁, h.next hC hs₁⟩

omit [LinearOrder Id] in
/-- Where the pipe has been read empty, a drained slot's backend drains. -/
theorem Draining.of_empty (hsynced : Synced s) (hsound : ∀ p ∈ s.lbs, Sound setup p)
    (hfifo : s.fifo = []) (hp : p ∈ s.lbs) :
    Draining setup i (pinnedTo p.sys.ct i) s p := by
  have hlbs : s.lbs = [p] := by
    rcases hsynced.pipe with ⟨hnone, -⟩ | ⟨q, hq, -⟩
    · rw [hnone] at hp
      cases hp
    · rw [hq, List.mem_singleton] at hp
      rw [hq, hp]
  refine ⟨hsynced, hlbs, hsound p hp, fun hd => ?_, le_rfl⟩
  intro k
  rw [hfifo, List.take_nil]
  exact hsynced.drainViewHolds hfifo p hp i hd

/-- Over every run in which a maglev-lb opens the pipe only while no slot is drained and no other
process has it open: once the pipe has been read empty, and for as long as the reconciler counts a
slot as drained and the maglev-lb stays up, the flows pinned to the slot's backend only end,
whatever is asked of the reconciler, written to the pipe, probed or received meanwhile. -/
theorem drained_flows_only_end (setup : Setup n b) (exits : Proc → Moment) (i : Fin N)
    (es es' : List (LbRestart.Event Id n))
    (hopen : EventRun.Along (LbRestart.next setup exits) OpensUndrained (Bridge.init Id N n b) es)
    (hrun : LbRestart.run setup exits (Bridge.init Id N n b) es = some s) (hfifo : s.fifo = [])
    (hp : p ∈ s.lbs)
    (hdrained : EventRun.Along (LbRestart.next setup exits) (StaysDrained i) s es') :
    ∃ s' p', LbRestart.run setup exits s es' = some s' ∧ s'.lbs = [p'] ∧
      pinnedTo p'.sys.ct i ≤ pinnedTo p.sys.ct i := by
  obtain ⟨s₀, hrun₀, hsynced⟩ := run_synced init_synced hopen
  cases hrun.symm.trans hrun₀
  have hsound : ∀ q ∈ s.lbs, Sound setup q :=
    EventRun.foldlM_invariant (P := fun s => ∀ q ∈ s.lbs, Sound setup q)
      (fun h hn => next_sound h hn) (fun _ hq => absurd hq List.not_mem_nil) hrun
  obtain ⟨s', p', hrun', h'⟩ := (Draining.of_empty hsynced hsound hfifo hp).run hdrained
  exact ⟨s', p', hrun', h'.lbs, h'.flows⟩

end Whole

/-- A flow is pinned and its backend drained. -/
def pinned : List (LbRestart.Event String 2) :=
  started ++ [.worked 0 (.packet Datapath.sampleFrame 100 66), .call (.action "b1" .drain 2),
    .read 0 128 true]

/-- A packet from another port comes in. -/
def meanwhile : List (LbRestart.Event String 2) :=
  [.worked 0 (.packet (Datapath.sampleFrame.set 34 0x10) 110 66),
    .call (.step 3 (observe []) fun _ => none), .worked 0 (.tick 200)]

theorem drained_flows_only_end_pinned :
    ∃ (s : Bridge String 1 2 4) (p : Process 2 4), p ∈ s.lbs ∧ pinnedTo p.sys.ct 0 = 1 ∧
      ∃ s' p', LbRestart.run sampleSetup (fun _ => toLex (9, 0)) s meanwhile = some s' ∧
        s'.lbs = [p'] ∧ pinnedTo p'.sys.ct 0 ≤ 1 := by
  have hrun : (LbRestart.run sampleSetup (fun _ => toLex (9, 0)) (Bridge.init String 1 2 4)
      pinned).any (fun s => s.fifo = [] ∧ (∃ p ∈ s.lbs, pinnedTo p.sys.ct 0 = 1) ∧
        EventRun.Along (LbRestart.next sampleSetup fun _ => toLex (9, 0)) (StaysDrained 0) s
          meanwhile) = true := by
    decide +kernel
  obtain ⟨s, hs, h⟩ := (Option.any_eq_true _ _).mp hrun
  obtain ⟨hfifo, ⟨p, hp, hflows⟩, hdrained⟩ := of_decide_eq_true h
  obtain ⟨s', p', hrun', hlbs, hle⟩ := drained_flows_only_end sampleSetup _ 0 pinned meanwhile
    (by decide +kernel) hs hfifo hp hdrained
  exact ⟨s, p, hp, hflows, s', p', hrun', hlbs, hle.trans hflows.le⟩

end MaglevLb.DrainedFlows
