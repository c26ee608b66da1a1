import MaglevLb.SlotViews

/-!
# The slot lifecycle

What relates a slot's owner, phase and flags in every reachable state. A free
slot is as new, so nothing of an earlier occupant is left in it; and the times
that `step` subtracts are set whenever it reads them, so every run has a result.
-/
namespace MaglevLb.SlotLifecycle

open Children OrderedDict Slots Reconcile SlotMoves SlotViews

variable {Id : Type*} {N : ℕ} {exits : Proc → Moment} {i : ℕ} {v v' : Site Id}

structure Lifecycle (s : Slot Id) : Prop where
  fresh : s.phase = .free → s = Slot.cleared
  owned : s.phase ≠ .free → s.owner ≠ none
  handled : s.phase ≠ .free → s.handle ≠ none
  removing : s.removing = true → s.phase = .draining ∨ s.phase = .stopping
  stopping : s.phase = .stopping → s.removing = true
  manual : s.removing = true → s.manualDrain = false
  drainSet : s.removing = true → s.phase = .draining → s.drainSince ≠ none
  stopSet : s.phase = .stopping → s.stopSince ≠ none

theorem cleared_lifecycle : Lifecycle (Slot.cleared : Slot Id) := by
  constructor <;> simp [Slot.cleared]

theorem Lifecycle.owner_iff {s : Slot Id} (h : Lifecycle s) : s.owner = none ↔ s.phase = .free := by
  constructor
  · intro ho
    by_contra hp
    exact h.owned hp ho
  · intro hp
    rw [h.fresh hp]
    rfl

theorem Lifecycle.busy {s : Slot Id} (h : Lifecycle s) (ho : s.owner ≠ none) : s.phase ≠ .free :=
  fun hp => ho (h.owner_iff.mpr hp)

/-- A slot that serves its owner. -/
theorem lifecycle_inService {s : Slot Id} (hfree : s.phase ≠ .free) (hstop : s.phase ≠ .stopping)
    (ho : s.owner ≠ none) (hh : s.handle ≠ none) (hr : s.removing = false) : Lifecycle s where
  fresh h := absurd h hfree
  owned _ := ho
  handled _ := hh
  removing h := by rw [hr] at h; cases h
  stopping h := absurd h hstop
  manual h := by rw [hr] at h; cases h
  drainSet h := by rw [hr] at h; cases h
  stopSet h := absurd h hstop

/-- A slot on its way out. -/
theorem lifecycle_removing {s : Slot Id}
    (hp : (s.phase = .draining ∧ s.drainSince ≠ none) ∨ (s.phase = .stopping ∧ s.stopSince ≠ none))
    (ho : s.owner ≠ none) (hh : s.handle ≠ none) (hr : s.removing = true)
    (hm : s.manualDrain = false) : Lifecycle s := by
  rcases hp with ⟨hp, hd⟩ | ⟨hp, hs⟩
  · constructor <;> simp [hp, hd, ho, hh, hr, hm]
  · constructor <;> simp [hp, hs, ho, hh, hr, hm]

/-- Of a slot in use only these fields matter. -/
theorem Lifecycle.of_eq {s s' : Slot Id} (h : Lifecycle s) (hfree : s.phase ≠ .free)
    (ho : s'.owner = s.owner) (hp : s'.phase = s.phase) (hh : s'.handle = s.handle)
    (hr : s'.removing = s.removing) (hm : s'.manualDrain = s.manualDrain)
    (hd : s'.drainSince = s.drainSince) (hs : s'.stopSince = s.stopSince) : Lifecycle s' where
  fresh hp' := absurd (hp ▸ hp') hfree
  owned hp' := ho ▸ h.owned (hp ▸ hp')
  handled hp' := hh ▸ h.handled (hp ▸ hp')
  removing hr' := hp ▸ h.removing (hr ▸ hr')
  stopping hp' := hr ▸ h.stopping (hp ▸ hp')
  manual hr' := hm ▸ h.manual (hr ▸ hr')
  drainSet hr' hp' := hd ▸ h.drainSet (hr ▸ hr') (hp ▸ hp')
  stopSet hp' := hs ▸ h.stopSet (hp ▸ hp')

/-- A slot that stays in service in another phase. -/
theorem Lifecycle.inService {s s' : Slot Id} (h : Lifecycle s) (ho : s.owner ≠ none)
    (hfree : s'.phase ≠ .free) (hstop : s'.phase ≠ .stopping)
    (ho' : s'.owner = s.owner) (hh : s'.handle = s.handle) (hr' : s'.removing = false) :
    Lifecycle s' := by
  refine lifecycle_inService hfree hstop ?_ ?_ hr'
  · rw [ho']
    exact ho
  · rw [hh]
    exact h.handled (h.busy ho)

theorem Lifecycle.not_stopping {s : Slot Id} (h : Lifecycle s) (hr : s.removing = false) :
    s.phase ≠ .stopping := by
  intro hp
  have hr' := h.stopping hp
  rw [hr] at hr'
  cases hr'

theorem Lifecycle.removing_eq_false {s : Slot Id} (h : Lifecycle s) (hd : s.phase ≠ .draining)
    (hs : s.phase ≠ .stopping) : s.removing = false := by
  cases hr : s.removing with
  | false => rfl
  | true =>
      rcases h.removing hr with hp | hp
      · exact absurd hp hd
      · exact absurd hp hs

theorem Move.lifecycle {st : Stage} (h : Move exits i st v v') (hv : Lifecycle v.slot) :
    Lifecycle v'.slot := by
  cases h with
  | tick | send | kill | terminate => exact hv
  | slow now factor hown hf => exact hv.of_eq (hv.busy hown) rfl rfl rfl rfl rfl rfl rfl
  | errors now rate hown hf => exact hv.of_eq (hv.busy hown) rfl rfl rfl rfl rfl rfl rfl
  | partition now hown hf => exact hv.of_eq (hv.busy hown) rfl rfl rfl rfl rfl rfl rfl
  | looked t hr hp => exact hv.of_eq (by simp [hp]) rfl rfl rfl rfl rfl rfl rfl
  | configured cfg hp =>
      have hfree : v.slot.phase ≠ .free := by
        intro hf
        rw [hf] at hp
        cases hp
      exact hv.of_eq hfree rfl rfl rfl rfl rfl rfl rfl
  | crash now hown hr hf => exact hv.inService hown (by simp) (by simp) rfl rfl hr
  | drain hown hr hp =>
      have hfree := hv.busy hown
      have hstop := hv.not_stopping hr
      refine hv.inService hown ?_ ?_ rfl rfl hr
      · dsimp only
        rw [hp]
        split
        · decide
        · exact hfree
      · dsimp only
        rw [hp]
        split
        · decide
        · exact hstop
  | undrain hown hr =>
      have hfree := hv.busy hown
      have hstop := hv.not_stopping hr
      refine hv.inService hown ?_ ?_ rfl rfl hr
      · dsimp only [undrain]
        split
        · decide
        · exact hfree
      · dsimp only [undrain]
        split
        · decide
        · exact hstop
  | startDrain now hown hr hp =>
      exact lifecycle_removing (.inl ⟨rfl, by simp⟩) hown (hv.handled (hv.busy hown)) rfl rfl
  | startStop now hown hr =>
      exact lifecycle_removing (.inr ⟨rfl, by simp⟩) hown (hv.handled (hv.busy hown)) rfl rfl
  | cancel hr hp =>
      have hfree : v.slot.phase ≠ .free := by simp [hp]
      exact hv.inService (hv.owned hfree) (by simp) (by simp) rfl rfl rfl
  | occupied cid cfg hf =>
      have hr : v.slot.removing = false := by
        rw [hv.fresh hf]
        rfl
      exact lifecycle_inService (by simp [spawn]) (by simp [spawn]) (by simp [spawn])
        (by simp [spawn]) hr
  | exit now hp hr =>
      have hfree : v.slot.phase ≠ .free := by
        intro hf
        rw [hf] at hp
        cases hp
      exact hv.inService (hv.owned hfree) (by simp) (by simp) rfl rfl hr
  | started hp =>
      have hr := hv.removing_eq_false (by simp [hp]) (by simp [hp])
      refine hv.inService (hv.owned (by simp [hp])) ?_ ?_ rfl rfl hr
      · dsimp only
        split <;> decide
      · dsimp only
        split <;> decide
  | failed hp =>
      have hr := hv.removing_eq_false (by simp [hp]) (by simp [hp])
      exact hv.inService (hv.owned (by simp [hp])) (by simp) (by simp) rfl rfl hr
  | recovered hp =>
      have hr := hv.removing_eq_false (by simp [hp]) (by simp [hp])
      exact hv.inService (hv.owned (by simp [hp])) (by simp) (by simp) rfl rfl hr
  | drained now hr hp =>
      have hfree : v.slot.phase ≠ .free := by simp [hp]
      exact lifecycle_removing (.inr ⟨rfl, by simp⟩) (hv.owned hfree) (hv.handled hfree) hr
        (hv.manual hr)
  | freed hp ha hex => exact cleared_lifecycle

theorem Cleared.lifecycle [DecidableEq Id] {want : Dict Id (BackendNode Id)}
    (h : Cleared want i v v') (hown : v.slot.owner ≠ none) (hr : v.slot.removing = false)
    (hv : Lifecycle v.slot) : Lifecycle v'.slot := by
  cases h with
  | nothing => exact hv
  | respawned t hf hb =>
      exact lifecycle_inService (by simp [spawn]) (by simp [spawn]) hown (by simp [spawn]) hr
  | healed t hf hp => exact hv.of_eq (hv.busy hown) rfl rfl rfl rfl rfl rfl rfl
  | forgotten hp hex => exact hv.of_eq (hv.busy hown) rfl rfl rfl rfl rfl rfl rfl

theorem Trail.lifecycle (h : Trail exits i v v') (hv : Lifecycle v.slot) : Lifecycle v'.slot :=
  h.invariant (P := fun v => Lifecycle v.slot) Move.lifecycle (fun _ hv => hv) hv

theorem drainFurther_isSome {now : ℚ} {idle : Bool} (h : v.slot.drainSince ≠ none) :
    (drainFurther exits now i idle v).isSome := by
  unfold drainFurther
  dsimp only
  split
  · rfl
  · rw [Option.isSome_map]
    exact Option.isSome_iff_ne_none.mpr h

theorem stopFurther_isSome {now : ℚ} {up alive : Bool} (h : v.slot.stopSince ≠ none) :
    (stopFurther now i up alive v).isSome := by
  unfold stopFurther
  split
  · rw [Option.isSome_map]
    exact Option.isSome_iff_ne_none.mpr h
  · split <;> rfl

theorem removal_lifecycle [DecidableEq Id] {want : Dict Id (BackendNode Id)} {now : ℚ}
    (hv : Lifecycle v.slot) : Lifecycle (removal exits now i want v).slot := by
  have hpath : Path exits i .removal v (removal exits now i want v) := removal_path
  have hkeep := Trail.lifecycle (Path.trail hpath)
  exact hkeep hv

section Runs

variable [LinearOrder Id] {r r' : Reconciler Id N} {es : List (Event Id)}

theorem run_lifecycle (hr : ∀ i, Lifecycle (r.slots i)) (h : run exits r es = some r') :
    ∀ i, Lifecycle (r'.slots i) :=
  run_slots (P := fun _ v => Lifecycle v.slot) Move.lifecycle Cleared.lifecycle
    (fun _ hv => hv) id hr h

/-! ### Every run has a result -/

theorem progress_isSome {now : ℚ} {want : Dict Id (BackendNode Id)} {lb : Dict ℕ Observation}
    {latest : Proc → Option Stats} (hv : Lifecycle v.slot) :
    (progress exits now i want lb latest v).isSome := by
  unfold progress
  split
  · rfl
  · dsimp only
    split
    · rfl
    · rw [Option.isSome_map]
      unfold advance
      dsimp only
      split
      · split <;> rfl
      · split <;> rfl
      · split <;> rfl
      · next hp =>
          split
          · next hr => exact drainFurther_isSome (hv.drainSet hr hp)
          · rfl
      · next hp => exact stopFurther_isSome (hv.stopSet hp)
      · rfl
      · rfl

theorem step_isSome {now : ℚ} {lb : Dict ℕ Observation} {latest : Proc → Option Stats}
    (hr : ∀ i, Lifecycle (r.slots i)) : (r.step exits now lb latest).isSome := by
  have hclients : ClientWork r (Reconciler.stepClients exits r) := stepClients_work
  unfold Reconciler.step Reconciler.stepBackends
  generalize Reconciler.stepClients exits r = c at hclients
  rw [← hclients.slots_eq] at hr
  have hloop : (c.forSlots fun i v =>
      some (removal exits now i c.desiredBackends v)).isSome := forSlots_isSome fun _ _ => rfl
  obtain ⟨r₁, hremoval⟩ := Option.isSome_iff_exists.mp hloop
  dsimp only
  rw [hremoval, Option.bind_eq_bind, Option.bind_some]
  apply forSlots_isSome
  intro i ex
  apply progress_isSome
  obtain ⟨ex₁, w, -, hw, hslot, -⟩ := forSlots_view removal_visit hremoval i
  cases hw
  have hremoved : Lifecycle (r₁.slots i) := by
    rw [hslot]
    exact removal_lifecycle (hr i)
  have htrail : Trail exits i ⟨r₁.slots i, r₁.ex⟩
      ⟨(Reconciler.additions c.desiredBackends r₁).slots i,
        (Reconciler.additions c.desiredBackends r₁).ex⟩ := additions_added.trail
  have hkeep := Trail.lifecycle htrail
  exact hkeep hremoved

theorem apply_isSome (hr : ∀ i, Lifecycle (r.slots i)) (e : Event Id) :
    (apply exits r e).isSome := by
  cases e with
  | setDesired | suppressLoad => rfl
  | action target kind now =>
      simp only [apply]
      split <;> rfl
  | reset now =>
      have hsome : ({ r with ex := r.ex.nextTurn }.forSlots fun i v =>
          some (resetSlot exits i r.desiredBackends v)).isSome := forSlots_isSome fun _ _ => rfl
      obtain ⟨r₁, hloop⟩ := Option.isSome_iff_exists.mp hsome
      exact Option.isSome_iff_exists.mpr ⟨_, Option.bind_eq_some_iff.mpr ⟨r₁, hloop, rfl⟩⟩
  | step now lb latest => exact step_isSome hr

theorem apply_exists (hr : ∀ i, Lifecycle (r.slots i)) (e : Event Id) :
    ∃ r', apply exits r e = some r' :=
  Option.isSome_iff_exists.mp (apply_isSome hr e)

omit [LinearOrder Id] in
theorem init_lifecycle (i : Fin N) : Lifecycle ((Reconciler.init Id N).slots i) :=
  cleared_lifecycle

/-- No call into the reconciler fails on a time that is not set. -/
theorem run_exists (Id : Type*) [LinearOrder Id] (N : ℕ) (exits : Proc → Moment)
    (es : List (Event Id)) : ∃ r, run exits (Reconciler.init Id N) es = some r := by
  induction es using List.reverseRecOn with
  | nil => exact ⟨_, rfl⟩
  | append_singleton es e ih =>
      obtain ⟨r, hr⟩ := ih
      rw [run_concat, hr, Option.bind_some]
      exact apply_exists (run_lifecycle init_lifecycle hr) e

end Runs

end MaglevLb.SlotLifecycle
