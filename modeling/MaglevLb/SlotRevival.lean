import MaglevLb.DrainBookkeeping
import MaglevLb.SlotOwnership
import MaglevLb.SteadyStep

/-!
# Bringing a slot back into service

`restart` is the clearing of the fault on record, so it starts a responder only where
that fault is a crash. A responder that dies on its own under another fault leaves that
one on record. And a slot enters service only once maglev-lb reports it enabled, which
a slot drained by hand is not.
-/
namespace MaglevLb.SlotRevival

open Children OrderedDict Slots Reconcile SlotMoves SlotViews SlotLifecycle SlotCommands
  SlotOwnership SlotProgress SteadyStep DrainBookkeeping

variable {Id : Type*} {N : ℕ} {exits : Proc → Moment} {now : ℚ}

/-! ### Actions on a slot in service -/

section Actions

variable [LinearOrder Id] {r r' : Reconciler Id N} {i : Fin N} {cid : Id} {node : BackendNode Id}

theorem apply_action_of_owner (hd : Distinct r) (ho : (r.slots i).owner = some cid)
    (hb : r.desiredBackends.get? cid = some node) (hrem : (r.slots i).removing = false)
    (kind : ActionKind) :
    apply exits r (.action cid kind now) =
      some (({ r with ex := r.ex.nextTurn } : Reconciler Id N).put i
        (perform exits now i r.desiredBackends kind ⟨r.slots i, r.ex.nextTurn⟩)) := by
  have hslot : ({ r with ex := r.ex.nextTurn } : Reconciler Id N).slotOf cid = some i :=
    slotOf_eq_some (r := { r with ex := r.ex.nextTurn }) hd ho
  have hwant : ({ r with ex := r.ex.nextTurn } : Reconciler Id N).desiredBackends =
      r.desiredBackends := rfl
  simp [apply, Reconciler.action, hslot, hwant, hb, hrem]

end Actions

/-! ### Restarting a crashed backend -/

section Clearing

variable [DecidableEq Id] {want : Dict Id (BackendNode Id)} {i : ℕ} {v v' : Site Id}

theorem clearFault_of_crash {t : ℚ} {b : BackendNode Id} (hf : v.slot.fault = some (.crash t))
    (hb : v.slot.owner.bind want.get? = some b) :
    clearFault i want v = spawn i b.config ⟨{ v.slot with fault := none }, v.ex⟩ := by
  simp [clearFault, hf, hb]

/-- Clearing any other fault starts nothing and leaves the phase alone. -/
theorem Cleared.unspawned (h : Cleared want i v v') (hf : ∀ t, v.slot.fault ≠ some (.crash t)) :
    v'.slot.phase = v.slot.phase ∧ v'.ex.seed = v.ex.seed := by
  cases h with
  | nothing => exact ⟨rfl, rfl⟩
  | respawned t ht => exact absurd ht (hf t)
  | healed => exact ⟨rfl, rfl⟩
  | forgotten _ hex =>
      rcases hex with rfl | rfl
      · exact ⟨rfl, rfl⟩
      · exact ⟨rfl, rfl⟩

end Clearing

/-- The event has issued one command, to start a responder with this configuration in
slot `i`, and the slot is as after a first start. -/
structure Revived (r r' : Reconciler Id N) (i : Fin N) (cfg : BackendConfig) : Prop where
  issued : r'.ex.log =
    r.ex.log ++ [(r.ex.nextTurn.now, .spawnBackend (i + 1) cfg (r.ex.seed + 1))]
  slot : r'.slots i =
    { r.slots i with
      handle := some (r.ex.seed + 1), config := some cfg, phase := .starting, fault := none
      killed := false }

/-- After every run, `restart` of a crashed backend on the canvas revives it exactly
when the fault on record is a crash. Otherwise it only strikes the fault from the
record, and the slot stays crashed with no responder started. -/
theorem restart_revives_iff [LinearOrder Id] {es : List (Event Id)} {r : Reconciler Id N}
    (hr : run exits (Reconciler.init Id N) es = some r) {i : Fin N} {cid : Id}
    {node : BackendNode Id} (ho : (r.slots i).owner = some cid)
    (hb : r.desiredBackends.get? cid = some node) (hp : (r.slots i).phase = .crashed) (now : ℚ) :
    ∃ r', apply exits r (.action cid .restart now) = some r' ∧ (r'.slots i).fault = none ∧
      (Revived r r' i node.config ↔ ∃ t, (r.slots i).fault = some (.crash t)) ∧
      ((∀ t, (r.slots i).fault ≠ some (.crash t)) →
        (r'.slots i).phase = .crashed ∧ r'.ex.seed = r.ex.seed) := by
  have hl : Lifecycle (r.slots i) := run_lifecycle init_lifecycle hr i
  have hrem : (r.slots i).removing = false := hl.removing_eq_false (by simp [hp]) (by simp [hp])
  have hbind : (r.slots i).owner.bind r.desiredBackends.get? = some node := by
    rw [ho]
    exact hb
  have hclear : Cleared r.desiredBackends i ⟨r.slots i, r.ex.nextTurn⟩
      (clearFault i r.desiredBackends ⟨r.slots i, r.ex.nextTurn⟩) := clearFault_cleared
  refine ⟨_, apply_action_of_owner (run_distinct hr) ho hb hrem .restart, ?_, ?_, ?_⟩
  · rw [put_self]
    exact hclear.fault
  · constructor
    · intro hrevived
      by_contra hother
      -- the slot would be starting, but clearing another fault leaves it crashed
      have hkept := Cleared.unspawned hclear (not_exists.mp hother)
      have hphase := congrArg Slot.phase hrevived.slot
      rw [put_self] at hphase
      have hcrashed := hkept.1.symm.trans hphase
      rw [hp] at hcrashed
      cases hcrashed
    · rintro ⟨t, ht⟩
      have hspawn := clearFault_of_crash (i := i) (v := ⟨r.slots i, r.ex.nextTurn⟩) ht hbind
      constructor
      · dsimp only [Reconciler.put, perform]
        rw [hspawn]
        rfl
      · rw [put_self]
        dsimp only [perform]
        rw [hspawn]
        rfl
  · intro hother
    have hkept := Cleared.unspawned hclear hother
    rw [put_self]
    exact ⟨hkept.1.trans hp, hkept.2⟩

/-- A backend is slowed down; the responder with the first seed exits at the fourth call. -/
def slowedToDeath : List (Event String) :=
  [.setDesired (canvas ["b1"]), .step 1 (observe []) fun _ => none, .action "b1" (.slow 4) 2,
    .step 3 (observe []) fun _ => none]

/-- It is on the canvas, crashed and dead, and `restart` starts no responder. -/
theorem restart_without_revival :
    ∃ r r' : Reconciler String 1,
      run (fun _ => toLex (4, 0)) (Reconciler.init String 1) slowedToDeath = some r ∧
      apply (fun _ => toLex (4, 0)) r (.action "b1" .restart 4) = some r' ∧
      isActive r.desiredBackends "b1" = true ∧ (r.slots 0).owner = some "b1" ∧
      (r.slots 0).removing = false ∧ (r.slots 0).phase = .crashed ∧
      r.ex.alive (fun _ => toLex (4, 0)) ((r.slots 0).proc 0) = false ∧
      (r'.slots 0).phase = .crashed ∧ r'.ex.seed = r.ex.seed := by
  have hrun : (run (fun _ => toLex (4, 0)) (Reconciler.init String 1) slowedToDeath).any (fun r =>
      (apply (fun _ => toLex (4, 0)) r (.action "b1" .restart 4)).any fun r' =>
        isActive r.desiredBackends "b1" = true ∧ (r.slots 0).owner = some "b1" ∧
        (r.slots 0).removing = false ∧ (r.slots 0).phase = .crashed ∧
        r.ex.alive (fun _ => toLex (4, 0)) ((r.slots 0).proc 0) = false ∧
        (r'.slots 0).phase = .crashed ∧ r'.ex.seed = r.ex.seed) = true := by decide +kernel
  obtain ⟨r, hr, hnext⟩ := (Option.any_eq_true _ _).mp hrun
  obtain ⟨r', hr', h⟩ := (Option.any_eq_true _ _).mp hnext
  exact ⟨r, r', hr, hr', of_decide_eq_true h⟩

/-- A backend is crashed by hand. -/
def crashedByHand : List (Event String) :=
  [.setDesired (canvas ["b1"]), .step 1 (observe []) fun _ => none, .action "b1" .crash 2]

theorem restart_revives_after_crash :
    ∃ r r' : Reconciler String 1,
      run (fun _ => toLex (4, 0)) (Reconciler.init String 1) crashedByHand = some r ∧
      apply (fun _ => toLex (4, 0)) r (.action "b1" .restart 5) = some r' ∧
      (r.slots 0).phase = .crashed ∧ Revived r r' 0 backendDefaults := by
  have hrun : (run (fun _ => toLex (4, 0)) (Reconciler.init String 1) crashedByHand).any (fun r =>
      (r.slots 0).owner = some "b1" ∧
      r.desiredBackends.get? "b1" = some ⟨"b1", backendDefaults, true⟩ ∧
      (r.slots 0).phase = .crashed ∧ (r.slots 0).fault = some (.crash 2)) = true := by
    decide +kernel
  obtain ⟨r, hr, h⟩ := (Option.any_eq_true _ _).mp hrun
  obtain ⟨ho, hb, hp, hf⟩ := of_decide_eq_true h
  obtain ⟨r', hr', -, hiff, -⟩ := restart_revives_iff hr ho hb hp 5
  exact ⟨r, r', hr, hr', hp, hiff.mpr ⟨2, hf⟩⟩

/-! ### A slot that no restart revives -/

/-- Crashed, and not by the fault on record. -/
def Lost (s : Slot Id) : Prop := s.phase = .crashed ∧ ∀ t, s.fault ≠ some (.crash t)

theorem undrain_lost {i : ℕ} {v : Site Id} (h : Lost v.slot) : Lost (undrain i v).slot := by
  refine ⟨?_, h.2⟩
  dsimp only [undrain]
  rw [if_neg (by simp [h.1]), h.1]

section Visits

variable [DecidableEq Id] {want : Dict Id (BackendNode Id)} {i : ℕ} {v v' : Site Id}

theorem clearFault_lost (h : Lost v.slot) : Lost (clearFault i want v).slot := by
  have hclear : Cleared want i v (clearFault i want v) := clearFault_cleared
  refine ⟨(Cleared.unspawned hclear h.2).1.trans h.1, fun t => ?_⟩
  rw [hclear.fault]
  simp

theorem perform_lost {kind : ActionKind} (hk : kind ≠ .crash) (h : Lost v.slot) :
    Lost (perform exits now i want kind v).slot := by
  have hclear : Lost (clearFault i want v).slot := clearFault_lost h
  cases kind with
  | crash => contradiction
  | slow | errors | partition => exact ⟨hclear.1, by simp [perform]⟩
  | restart | clear => exact hclear
  | drain =>
      refine ⟨?_, h.2⟩
      dsimp only [perform]
      rw [if_neg (by simp [h.1]), h.1]
  | undrain => exact undrain_lost h

theorem resetSlot_lost (h : Lost v.slot) : Lost (resetSlot exits i want v).slot := by
  have hclear : Lost (clearFault i want v).slot := clearFault_lost h
  have hundrained : Lost (if (clearFault i want v).slot.manualDrain then
      undrain i (clearFault i want v) else clearFault i want v).slot := by
    split
    · exact undrain_lost hclear
    · exact hclear
  unfold resetSlot
  split
  · exact h
  · dsimp only
    generalize (if (clearFault i want v).slot.manualDrain then
      undrain i (clearFault i want v) else clearFault i want v) = w at hundrained
    split
    · exact hundrained
    · exact hundrained

end Visits

section Runs

variable [LinearOrder Id] {r r' : Reconciler Id N} {i : Fin N} {cid : Id}

/-- The slot that the progress loop finds in place of an attached backend's. -/
theorem SlotStep.attached {want : Dict Id (BackendNode Id)} {lb : Dict ℕ Observation}
    {latest : Proc → Option Stats} {ex₁ ex₂ : Executor} {k : ℕ} {v v' v₃ v₄ : Site Id}
    (h : SlotStep exits now k want lb latest v ex₁ ex₂ v₃ v₄ v') (hl : Lifecycle v.slot)
    (ho : v.slot.owner = some cid) (hactive : isActive want cid = true)
    (hrem : v.slot.removing = false) : v₃.slot = v.slot ∧ Elsewhere k v.ex v₃.ex := by
  have hvisit : removal exits now k want ⟨v.slot, ex₁⟩ = ⟨v.slot, ex₁⟩ := by
    simp [removal, ho, hactive, hrem]
  have hadded := h.added
  have hbetween := h.between
  rw [hvisit] at hadded hbetween
  cases hadded with
  | kept hs he => exact ⟨hs, (h.before.trans hbetween).trans he⟩
  | taken _ _ _ hf => exact absurd hf (hl.busy (by simp [ho]))

/-- The event neither takes the backend off the canvas nor crashes it. -/
def Spares (cid : Id) : Event Id → Prop
  | .setDesired desired => isActive (.ofList (desired.backends.map fun b => (b.id, b))) cid = true
  | .action target kind _ => target = cid → kind ≠ .crash
  | .suppressLoad _ | .reset _ | .step _ _ _ => True

/-- Slot `i` belongs to an attached backend and no restart revives it. -/
def Stranded (cid : Id) (i : Fin N) (r : Reconciler Id N) : Prop :=
  (r.slots i).owner = some cid ∧ isActive r.desiredBackends cid = true ∧ Lost (r.slots i)

theorem Stranded.action {target : Id} {kind : ActionKind} (hf : Stranded cid i r)
    (hspares : target = cid → kind ≠ .crash) (h : r.action exits now target kind = .ok r') :
    Stranded cid i r' := by
  obtain ⟨ho, hactive, hlost⟩ := hf
  obtain ⟨k, hk, hrem, rfl⟩ := action_ok h
  by_cases hi : i = k
  · subst hi
    have htarget : target = cid := Option.some.inj (hk.symm.trans ho)
    refine ⟨?_, hactive, ?_⟩
    · rw [put_self, perform_owner (by simp [ho]) hrem]
      exact ho
    · rw [put_self]
      exact perform_lost (v := ⟨r.slots i, r.ex⟩) (hspares htarget) hlost
  · refine ⟨?_, hactive, ?_⟩
    · rw [put_of_ne hi]
      exact ho
    · rw [put_of_ne hi]
      exact hlost

theorem Stranded.reset (hf : Stranded cid i r) (h : r.reset exits = some r') :
    Stranded cid i r' := by
  obtain ⟨ho, hactive, hlost⟩ := hf
  obtain ⟨ex₁, -, hslot, -⟩ := reset_view h i
  obtain ⟨r₁, hloop, hclients⟩ := Option.bind_eq_some_iff.mp h
  have hdesired : r'.desired = r.desired := by
    cases hclients
    have hbooks := congrArg Reconciler.desired (forSlots_books hloop)
    exact hbooks
  refine ⟨?_, ?_, ?_⟩
  · rw [hslot, resetSlot_owner]
    exact ho
  · rwa [Reconciler.desiredBackends, hdesired]
  · rw [hslot]
    exact resetSlot_lost (v := ⟨r.slots i, ex₁⟩) hlost

theorem Stranded.step {lb : Dict ℕ Observation} {latest : Proc → Option Stats}
    (hf : Stranded cid i r) (hl : Lifecycle (r.slots i))
    (h : r.step exits now lb latest = some r') : Stranded cid i r' := by
  obtain ⟨ho, hactive, hlost⟩ := hf
  have hcrashed := hlost.1
  have hrem : (r.slots i).removing = false :=
    hl.removing_eq_false (by simp [hcrashed]) (by simp [hcrashed])
  obtain ⟨ex₁, ex₂, v₃, v₄, hview⟩ := step_view h i
  obtain ⟨hv₃, -⟩ := SlotStep.attached hview hl ho hactive hrem
  have hlooked := progress_looked (hv₃ ▸ hl) (by simp [hv₃, ho]) (hv₃ ▸ hrem) hview.progress
  have hslot : r'.slots i = r.slots i := by
    rw [show r'.slots i = v₄.slot from hview.slot]
    cases hlooked with
    | rests _ hs => rw [hs, hv₃]
    | crashes hp | serves hp => simp [hv₃, hcrashed, Phase.running] at hp
  refine ⟨?_, ?_, ?_⟩
  · rwa [hslot]
  · rwa [Reconciler.desiredBackends, step_desired h]
  · rwa [hslot]

theorem Stranded.apply {e : Event Id} (hf : Stranded cid i r) (hl : Lifecycle (r.slots i))
    (hspares : Spares cid e) (h : apply exits r e = some r') : Stranded cid i r' := by
  cases e with
  | setDesired desired =>
      cases h
      exact ⟨hf.1, hspares, hf.2.2⟩
  | suppressLoad suppressed =>
      cases h
      exact hf
  | action target kind now =>
      rcases apply_action h with hok | rfl
      · exact Stranded.action (r := { r with ex := r.ex.nextTurn }) hf hspares hok
      · exact hf
  | reset now => exact Stranded.reset (r := { r with ex := r.ex.nextTurn }) hf h
  | step now lb latest => exact Stranded.step (r := { r with ex := r.ex.nextTurn }) hf hl h

/-- Until it leaves the canvas or is crashed by hand, nothing revives it: no restart, no
clearing of faults, no reset and no step. -/
theorem Stranded.run {es : List (Event Id)} (hf : Stranded cid i r)
    (hl : ∀ i, Lifecycle (r.slots i)) (hspares : ∀ e ∈ es, Spares cid e) :
    ∃ r', run exits r es = some r' ∧ Stranded cid i r' := by
  induction es generalizing r with
  | nil => exact ⟨r, rfl, hf⟩
  | cons e es ih =>
      obtain ⟨r₁, h₁⟩ : ∃ r₁, Reconcile.apply exits r e = some r₁ := apply_exists hl e
      have hf₁ := hf.apply (hl i) (hspares e List.mem_cons_self) h₁
      have hl₁ : ∀ i, Lifecycle (r₁.slots i) :=
        run_lifecycle hl (show Reconcile.run exits r [e] = some r₁ from by simp [Reconcile.run, h₁])
      obtain ⟨r', h', hf'⟩ := ih hf₁ hl₁ fun e he => hspares e (List.mem_cons_of_mem _ he)
      refine ⟨r', ?_, hf'⟩
      rw [Reconcile.run, List.foldlM_cons, h₁]
      exact h'

end Runs

/-! ### Leaving the starting phase -/

section Starting

variable [LinearOrder Id] {want : Dict Id (BackendNode Id)} {lb : Dict ℕ Observation}
  {latest : Proc → Option Stats} {ex₁ ex₂ : Executor} {k : ℕ} {v v' v₃ v₄ : Site Id} {cid : Id}

theorem SlotStep.starting_attached
    (h : SlotStep exits now k want lb latest v ex₁ ex₂ v₃ v₄ v') (hl : Lifecycle v.slot)
    (ho : v.slot.owner = some cid) (hactive : isActive want cid = true)
    (hp : v.slot.phase = .starting) (hlives : v.ex.outlives exits (v.slot.proc k) = true)
    (hup : isUp lb k = true) :
    v'.slot.phase = if isEnabled lb k then (if v.slot.manualDrain then .draining else .serving)
      else .starting := by
  have hrem : v.slot.removing = false := hl.removing_eq_false (by simp [hp]) (by simp [hp])
  obtain ⟨hv₃, hex₃⟩ := SlotStep.attached h hl ho hactive hrem
  have hlooked := progress_looked (hv₃ ▸ hl) (by simp [hv₃, ho]) (hv₃ ▸ hrem) h.progress
  have halive : v₃.ex.alive exits (v.slot.proc k) = true :=
    Executor.alive_of_outlives ((hex₃.outlives_eq exits _).trans hlives)
  rw [hv₃, halive] at hlooked
  rw [h.slot]
  cases hlooked with
  | crashes _ hdead => cases hdead
  | rests hcrashed => simp [hp] at hcrashed
  | serves _ _ hs =>
      rw [hs, hp]
      simp [lookedPhase, hup]

/-- The removal of a starting slot begins with a drain, and that lasts for longer than
the step. -/
theorem SlotStep.starting_detached
    (h : SlotStep exits now k want lb latest v ex₁ ex₂ v₃ v₄ v') (hl : Lifecycle v.slot)
    (ho : v.slot.owner = some cid) (hactive : isActive want cid = false)
    (hp : v.slot.phase = .starting) (hlives : v.ex.outlives exits (v.slot.proc k) = true) :
    v'.slot.phase = .draining := by
  have hrem : v.slot.removing = false := hl.removing_eq_false (by simp [hp]) (by simp [hp])
  have halive : ex₁.alive exits (v.slot.proc k) = true :=
    Executor.alive_of_outlives ((h.before.outlives_eq exits _).trans hlives)
  have hvisit : (removal exits now k want ⟨v.slot, ex₁⟩).slot = drainBegun now v.slot := by
    have hcases := removal_cases exits now k want ⟨v.slot, ex₁⟩
    generalize removal exits now k want ⟨v.slot, ex₁⟩ = w at hcases
    cases hcases with
    | free hnone => simp [ho] at hnone
    | kept ho' hgoing =>
        cases ho.symm.trans ho'
        exact absurd (hgoing hactive) (by simp [hrem])
    | drains => rfl
    | stops _ _ _ hcrashed => exact absurd (hcrashed halive) (by simp [hp])
    | cancels _ _ hrem' => simp [hrem] at hrem'
  have hv₃ : v₃.slot = drainBegun now v.slot := by
    cases h.added with
    | kept hs => exact hs.trans hvisit
    | taken _ _ _ hf => simp [hvisit, drainBegun] at hf
  have hremoved := progress_removed (SlotStep.lifecycle h hl) (by rw [hv₃]; rfl) h.progress
  rw [hv₃] at hremoved
  rw [h.slot]
  cases hremoved with
  | waits _ _ hs =>
      rw [hs]
      rfl
  | stops _ hover => exact absurd hover not_drainOver_drainBegun
  | lingers hstop => cases hstop
  | freed hstop => cases hstop

end Starting

/-- After every run, for a starting slot whose responder lives through the next step and
which maglev-lb reports up, and enabled unless the last admin verb issued for it was
DRAIN: the step leaves it draining if its owner is off the canvas, starting if it is
drained by hand, and serving otherwise. -/
theorem starting_left_iff [LinearOrder Id] {es : List (Event Id)} {r : Reconciler Id N}
    (hr : run exits (Reconciler.init Id N) es = some r) {i : Fin N} {cid : Id}
    (ho : (r.slots i).owner = some cid) (hp : (r.slots i).phase = .starting)
    (hlives : r.ex.nextTurn.outlives exits ((r.slots i).proc i) = true) (now : ℚ)
    {lb : Dict ℕ Observation} (latest : Proc → Option Stats) (hup : isUp lb i = true)
    (hadmin : isEnabled lb i = false ↔ lastVerb i r.ex = some .drain) :
    ∃ r', apply exits r (.step now lb latest) = some r' ∧
      (r'.slots i).phase =
        (if isActive r.desiredBackends cid then
          (if (r.slots i).manualDrain then .starting else .serving) else .draining) ∧
      ((r'.slots i).phase = (if (r.slots i).manualDrain then .draining else .serving) ↔
        (isActive r.desiredBackends cid = true ↔ (r.slots i).manualDrain = false)) := by
  have hl : ∀ i, Lifecycle (r.slots i) := run_lifecycle init_lifecycle hr
  have hdrains := Drains.run init_drains hr i
  have hrem : (r.slots i).removing = false :=
    (hl i).removing_eq_false (by simp [hp]) (by simp [hp])
  obtain ⟨r', hstep⟩ : ∃ r', apply exits r (.step now lb latest) = some r' := apply_exists hl _
  obtain ⟨ex₁, ex₂, v₃, v₄, hview⟩ := step_view hstep i
  have hphase : (r'.slots i).phase =
      if isActive r.desiredBackends cid then
        (if (r.slots i).manualDrain then .starting else .serving) else .draining := by
    cases hactive : isActive r.desiredBackends cid with
    | false => exact SlotStep.starting_detached hview (hl i) ho hactive hp hlives
    | true =>
        refine (SlotStep.starting_attached hview (hl i) ho hactive hp hlives hup).trans ?_
        cases hmanual : (r.slots i).manualDrain with
        | true =>
            -- a drain by hand is the last verb issued, so maglev-lb reports it
            have hreported := hadmin.mpr (hdrains.drained (.inl hmanual))
            simp [hreported]
        | false =>
            have hreported : isEnabled lb i = true := by
              by_contra hoff
              exact hdrains.enabled hrem hmanual (hadmin.mp (by simpa using hoff))
            simp [hreported]
  refine ⟨r', hstep, hphase, ?_⟩
  rw [hphase]
  cases isActive r.desiredBackends cid <;> cases (r.slots i).manualDrain <;> simp

/-- A backend is drained by hand, crashed and restarted. -/
def drainedAndRestarted : List (Event String) :=
  [.setDesired (canvas ["b1"]), .step 1 (observe []) fun _ => none, .action "b1" .drain 2,
    .action "b1" .crash 3, .action "b1" .restart 4]

/-- maglev-lb's view of a backend that is up and drained. -/
def observeDrained (i : ℕ) : Dict ℕ Observation := .ofList [(i, ⟨some true, some false⟩)]

/-- Its responder is alive and reported up, and drained as it was last told, and the
slot stays in its starting phase. -/
theorem drained_backend_keeps_starting :
    ∃ r r' : Reconciler String 1,
      run (fun _ => toLex (9, 0)) (Reconciler.init String 1) drainedAndRestarted = some r ∧
      apply (fun _ => toLex (9, 0)) r (.step 5 (observeDrained 0) fun _ => none) = some r' ∧
      isActive r.desiredBackends "b1" = true ∧ (r.slots 0).owner = some "b1" ∧
      (r.slots 0).phase = .starting ∧ (r.slots 0).removing = false ∧
      (r.slots 0).manualDrain = true ∧
      r.ex.nextTurn.outlives (fun _ => toLex (9, 0)) ((r.slots 0).proc 0) = true ∧
      isUp (observeDrained 0) 0 = true ∧ isEnabled (observeDrained 0) 0 = false ∧
      lastVerb 0 r.ex = some .drain ∧ (r'.slots 0).phase = .starting := by
  have hrun : (run (fun _ => toLex (9, 0)) (Reconciler.init String 1) drainedAndRestarted).any
      (fun r => (apply (fun _ => toLex (9, 0)) r
        (.step 5 (observeDrained 0) fun _ => none)).any fun r' =>
        isActive r.desiredBackends "b1" = true ∧ (r.slots 0).owner = some "b1" ∧
        (r.slots 0).phase = .starting ∧ (r.slots 0).removing = false ∧
        (r.slots 0).manualDrain = true ∧
        r.ex.nextTurn.outlives (fun _ => toLex (9, 0)) ((r.slots 0).proc 0) = true ∧
        isUp (observeDrained 0) 0 = true ∧ isEnabled (observeDrained 0) 0 = false ∧
        lastVerb 0 r.ex = some .drain ∧ (r'.slots 0).phase = .starting) = true := by
    decide +kernel
  obtain ⟨r, hr, hnext⟩ := (Option.any_eq_true _ _).mp hrun
  obtain ⟨r', hr', h⟩ := (Option.any_eq_true _ _).mp hnext
  exact ⟨r, r', hr, hr', of_decide_eq_true h⟩

/-- A backend that is not drained enters service at the first step that sees it up. -/
theorem starting_left_sample :
    ∃ r r' : Reconciler String 1,
      run (fun _ => toLex (9, 0)) (Reconciler.init String 1)
        [.setDesired (canvas ["b1"]), .step 1 (observe []) fun _ => none] = some r ∧
      apply (fun _ => toLex (9, 0)) r (.step 2 (observe [(0, true)]) fun _ => none) = some r' ∧
      (r.slots 0).phase = .starting ∧ (r'.slots 0).phase = .serving := by
  have hrun : (run (fun _ => toLex (9, 0)) (Reconciler.init String 1)
      [.setDesired (canvas ["b1"]), .step 1 (observe []) fun _ => none]).any (fun r =>
      (r.slots 0).owner = some "b1" ∧ (r.slots 0).phase = .starting ∧
      r.ex.nextTurn.outlives (fun _ => toLex (9, 0)) ((r.slots 0).proc 0) = true ∧
      isUp (observe [(0, true)]) 0 = true ∧
      (isEnabled (observe [(0, true)]) 0 = false ↔ lastVerb 0 r.ex = some .drain) ∧
      isActive r.desiredBackends "b1" = true ∧ (r.slots 0).manualDrain = false) = true := by
    decide +kernel
  obtain ⟨r, hr, h⟩ := (Option.any_eq_true _ _).mp hrun
  obtain ⟨ho, hp, hlives, hup, hadmin, hactive, hmanual⟩ := of_decide_eq_true h
  obtain ⟨r', hr', hphase, -⟩ :=
    starting_left_iff hr ho hp hlives 2 (fun _ => none) hup hadmin
  refine ⟨r, r', hr, hr', hp, ?_⟩
  rw [hphase, hactive, hmanual]
  rfl

end MaglevLb.SlotRevival
