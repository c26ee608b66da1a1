import MaglevLb.SlotCommands
import Mathlib.Tactic.NormNum

/-!
# What a step makes of a slot

The slot that the progress loop finds is the one the step found, or one whose removal
has just begun or just been cancelled, or a free slot that was taken. What becomes of
it depends on whether it is being removed.
-/
namespace MaglevLb.SlotProgress

open Children OrderedDict Slots Reconcile SlotMoves SlotViews SlotLifecycle SlotCommands

variable {Id : Type*} {N : ℕ} {exits : Proc → Moment} {now : ℚ}

section Visit

variable {i : ℕ} {v v' : Site Id}

/-- Whether the observation lets backend `i` enter service. -/
def isEnabled (lb : Dict ℕ Observation) (i : ℕ) : Bool :=
  ((lb.get? i).getD {}).adminEnabled.getD true

/-! ### A slot under removal -/

theorem quietAfter_some {idle : Bool} {q : Option ℚ} {t : ℚ} (h : quietAfter now idle q = some t) :
    idle = true ∧ (q = some t ∨ t = now) := by
  unfold quietAfter at h
  split at h
  · next hidle =>
      refine ⟨hidle, ?_⟩
      split at h
      · exact .inl h
      · exact .inr (Option.some.inj h).symm
  · cases h

theorem quietOver_after {idle : Bool} {q : Option ℚ}
    (h : quietOver now (quietAfter now idle q) = true) :
    idle = true ∧ ∃ t, q = some t ∧ backendSlotDrainQuietMs ≤ now - t := by
  obtain ⟨t, hafter, ht⟩ := (Option.any_eq_true _ _).mp (Bool.and_eq_true_iff.mp h).2
  obtain ⟨hidle, hcase⟩ := quietAfter_some hafter
  refine ⟨hidle, t, hcase.resolve_right ?_, by simpa using ht⟩
  rintro rfl
  exact absurd ht (by norm_num [backendSlotDrainQuietMs])

theorem not_drainOver_drainBegun {idle : Bool} {s : Slot Id} :
    ¬ DrainOver now idle (drainBegun now s) := by
  rintro (hquiet | ⟨since, hsince, hmax⟩)
  · obtain ⟨-, t, ht, -⟩ := quietOver_after hquiet
    cases ht
  · cases hsince
    norm_num [backendSlotDrainMaxMs] at hmax

theorem quietAfter_quietAfter {idle : Bool} {q : Option ℚ} :
    quietAfter now idle (quietAfter now idle q) = quietAfter now idle q := by
  unfold quietAfter
  cases idle with
  | false => rfl
  | true =>
      simp only [if_true]
      split
      · rfl
      · split <;> rfl

theorem drainOver_quietAfter {idle : Bool} {s : Slot Id} :
    DrainOver now idle { s with quietSince := quietAfter now idle s.quietSince } ↔
      DrainOver now idle s := by
  unfold DrainOver
  dsimp only
  rw [quietAfter_quietAfter]

/-- What the progress loop does with a removing slot. -/
inductive Removed (now : ℚ) (up idle alive : Bool) (s s' : Slot Id) : Prop
  | waits : s.phase = .draining → ¬ DrainOver now idle s →
      s' = { s with quietSince := quietAfter now idle s.quietSince } →
      Removed now up idle alive s s'
  | stops : s.phase = .draining → DrainOver now idle s →
      s' = { s with
        quietSince := quietAfter now idle s.quietSince, phase := .stopping,
        stopSince := some now } →
      Removed now up idle alive s s'
  | lingers : s.phase = .stopping → (alive = false → up = true) → s' = s →
      Removed now up idle alive s s'
  | freed : s.phase = .stopping → alive = false → up = false → s' = Slot.cleared →
      Removed now up idle alive s s'

theorem drainFurther_removed {up idle alive : Bool} {ex : Executor}
    (hp : v.slot.phase = .draining)
    (h : drainFurther exits now i idle ⟨v.slot, ex⟩ = some v') :
    Removed now up idle alive v.slot v'.slot ∧ v'.slot.removing = v.slot.removing := by
  unfold drainFurther at h
  dsimp only at h
  split at h
  · next hquiet =>
      cases h
      exact ⟨.stops hp (.inl hquiet) rfl, rfl⟩
  · next hquiet =>
      obtain ⟨since, hsince, rfl⟩ := Option.map_eq_some_iff.mp h
      split
      · next hmax => exact ⟨.stops hp (.inr ⟨since, hsince, hmax⟩) rfl, rfl⟩
      · next hmax =>
          refine ⟨.waits hp ?_ rfl, rfl⟩
          rintro (hq | ⟨t, ht, htmax⟩)
          · exact hquiet hq
          · cases hsince.symm.trans ht
            exact hmax htmax

theorem stopFurther_removed {up idle alive : Bool} {ex : Executor}
    (hp : v.slot.phase = .stopping) (h : stopFurther now i up alive ⟨v.slot, ex⟩ = some v') :
    Removed now up idle alive v.slot v'.slot ∧ (v'.slot = v.slot ∨ v'.slot = Slot.cleared) := by
  unfold stopFurther at h
  split at h
  · next halive =>
      have hnot : alive = false → up = true := fun hdead => absurd halive (by simp [hdead])
      obtain ⟨since, -, rfl⟩ := Option.map_eq_some_iff.mp h
      split
      · exact ⟨.lingers hp hnot rfl, .inl rfl⟩
      · exact ⟨.lingers hp hnot rfl, .inl rfl⟩
  · next hdead =>
      split at h
      · next hup =>
          cases h
          exact ⟨.lingers hp (fun _ => hup) rfl, .inl rfl⟩
      · next hup =>
          cases h
          exact ⟨.freed hp (by simpa using hdead) (by simpa using hup) rfl, .inr rfl⟩

section Desired

variable [DecidableEq Id] {want : Dict Id (BackendNode Id)} {lb : Dict ℕ Observation}
  {latest : Proc → Option Stats}

/-- A removing slot as the progress loop finds it, and as the step found it. -/
inductive Ready (now : ℚ) (want : Dict Id (BackendNode Id)) (alive : Bool) (s s₃ : Slot Id) : Prop
  | going {cid : Id} : s.removing = true → s.owner = some cid →
      (isActive want cid = true → s.phase ≠ .draining) → s₃ = s → Ready now want alive s s₃
  | drains {cid : Id} : s.removing = false → s.owner = some cid → isActive want cid = false →
      s₃ = drainBegun now s → alive = true → Ready now want alive s s₃
  | stops {cid : Id} : s.removing = false → s.owner = some cid → isActive want cid = false →
      s₃ = { s with
        removing := true, manualDrain := false, phase := .stopping, stopSince := some now } →
      Ready now want alive s s₃

theorem removal_ready (hl : Lifecycle v.slot)
    (h : (removal exits now i want v).slot.removing = true) :
    Ready now want (v.ex.alive exits (v.slot.proc i)) v.slot
      (removal exits now i want v).slot := by
  have hvisit := removal_cases exits now i want v
  generalize removal exits now i want v = w at h hvisit
  cases hvisit with
  | free ho =>
      have hp : v.slot.phase = .free := hl.owner_iff.mp ho
      exact absurd (hl.removing h) (by simp [hp])
  | kept ho _ hkeep => exact .going h ho (fun ha => hkeep ha h) rfl
  | drains ho ha hr halive => exact .drains hr ho ha rfl halive
  | stops ho ha hr => exact .stops hr ho ha rfl
  | cancels => cases h

theorem removal_begun (hv : v.slot.removing = false)
    (hr : (removal exits now i want v).slot.removing = true)
    (hp : (removal exits now i want v).slot.phase = .draining) :
    (removal exits now i want v).ex = v.ex.tick.call (.admin .drain i) := by
  have hvisit := removal_cases exits now i want v
  generalize removal exits now i want v = w at hr hp hvisit
  cases hvisit with
  | free | kept => exact absurd (hv.symm.trans hr) Bool.false_ne_true
  | drains => rfl
  | stops => cases hp
  | cancels => cases hr

theorem configure_of_removing {alive : Bool} (h : v.slot.removing = true) :
    configure i want alive v = v := by
  unfold configure
  split
  · rfl
  · rw [if_neg (by simp [h])]

theorem configure_of_unowned {alive : Bool} (h : v.slot.owner = none) :
    configure i want alive v = v := by
  simp [configure, h]

theorem progress_removed (hl : Lifecycle v.slot) (hr : v.slot.removing = true)
    (h : progress exits now i want lb latest v = some v') :
    Removed now (isUp lb i) (isIdle latest i v.slot) (v.ex.alive exits (v.slot.proc i))
      v.slot v'.slot := by
  have howned : v.slot.owner ≠ none :=
    hl.owned (by rcases hl.removing hr with hp | hp <;> simp [hp])
  unfold progress at h
  rw [if_neg howned] at h
  dsimp only at h
  rw [if_neg (by simp [hr])] at h
  obtain ⟨v₁, hadv, rfl⟩ := Option.map_eq_some_iff.mp h
  unfold advance at hadv
  rcases hl.removing hr with hp | hp
  · simp only [hp, hr, if_true] at hadv
    obtain ⟨hremoved, hr₁⟩ := drainFurther_removed hp hadv
    rw [configure_of_removing (hr₁.trans hr)]
    exact hremoved
  · simp only [hp] at hadv
    obtain ⟨hremoved, hslot⟩ := stopFurther_removed hp hadv
    rcases hslot with hslot | hslot
    · rw [configure_of_removing (hslot ▸ hr)]
      exact hremoved
    · rw [configure_of_unowned (hslot ▸ rfl)]
      exact hremoved

/-! ### A slot in service -/

/-- The phase of a running responder after a look. -/
def lookedPhase (up enabled manualDrain : Bool) : Phase → Phase
  | .starting => if up && enabled then (if manualDrain then .draining else .serving) else .starting
  | .serving | .unhealthy => if up then .serving else .unhealthy
  | p => p

/-- What the progress loop does with a slot that is not being removed. -/
inductive Looked (now : ℚ) (up enabled alive : Bool) (node : Option (BackendNode Id))
    (s s' : Slot Id) : Prop
  | crashes : s.phase.running = true → alive = false →
      s' = { s with phase := .crashed, fault := s.fault.or (some (.crash now)) } →
      Looked now up enabled alive node s s'
  | rests : s.phase = .crashed → s' = s → Looked now up enabled alive node s s'
  | serves : s.phase.running = true → alive = true →
      s' = { s with
        phase := lookedPhase up enabled s.manualDrain s.phase
        config := (node.map (·.config)).or s.config } → Looked now up enabled alive node s s'

theorem lookedPhase_running {up enabled manualDrain : Bool} {p : Phase} (h : p.running = true) :
    (lookedPhase up enabled manualDrain p).running = true := by
  revert h
  cases p <;> cases up <;> cases enabled <;> cases manualDrain <;> decide

theorem configure_slot (hp : v.slot.phase.running = true) (hr : v.slot.removing = false) :
    (configure i want true v).slot =
      { v.slot with
        config := ((v.slot.owner.bind want.get?).map (·.config)).or v.slot.config } := by
  unfold configure
  split
  · next hb => simp [hb]
  · next b hb =>
      simp only [hb, Option.map_some, Option.some_or]
      split
      · rfl
      · next hc =>
          have hsame : some b.config = v.slot.config := by
            by_contra hne
            exact hc ⟨trivial, hp, hr, hne⟩
          rw [hsame]

omit [DecidableEq Id] in
theorem advance_running {obs : Observation} {idle alive : Bool}
    (hp : v.slot.phase.running = true) (hr : v.slot.removing = false) :
    advance exits now i obs idle alive v =
      some ⟨{ v.slot with
        phase := lookedPhase (obs.up.getD false) (obs.adminEnabled.getD true) v.slot.manualDrain
          v.slot.phase }, v.ex⟩ := by
  obtain ⟨s, ex⟩ := v
  obtain ⟨owner, phase, handle, config, fault, manualDrain, removing⟩ := s
  dsimp only at hp hr
  subst hr
  unfold advance lookedPhase
  cases phase <;> simp [Phase.running] at hp ⊢ <;> split <;> simp_all

theorem progress_looked (hl : Lifecycle v.slot) (howned : v.slot.owner ≠ none)
    (hr : v.slot.removing = false) (h : progress exits now i want lb latest v = some v') :
    Looked now (isUp lb i) (isEnabled lb i) (v.ex.alive exits (v.slot.proc i))
      (v.slot.owner.bind want.get?) v.slot v'.slot := by
  unfold progress at h
  rw [if_neg howned] at h
  dsimp only at h
  split at h
  · next hcrash =>
      cases h
      exact .crashes hcrash.1 hcrash.2.1 rfl
  · next hcrash =>
      obtain ⟨v₁, hadv, rfl⟩ := Option.map_eq_some_iff.mp h
      by_cases hp : v.slot.phase.running = true
      · have halive : v.ex.alive exits (v.slot.proc i) = true := by
          by_contra hdead
          exact hcrash ⟨hp, by simpa using hdead, hr⟩
        rw [advance_running (v := ⟨v.slot, v.ex.tick⟩) hp hr] at hadv
        cases hadv
        rw [halive]
        exact .serves hp rfl (configure_slot (lookedPhase_running hp) hr)
      · have hcrashed : v.slot.phase = .crashed := by
          have hfree : v.slot.phase ≠ .free := fun hf => howned (hl.owner_iff.mpr hf)
          have hstop : v.slot.phase ≠ .stopping := fun hs => by
            rw [hl.stopping hs] at hr
            cases hr
          revert hp hfree hstop
          cases v.slot.phase <;> decide
        unfold advance at hadv
        simp only [hcrashed] at hadv
        cases hadv
        refine .rests hcrashed ?_
        unfold configure
        split
        · rfl
        · rw [if_neg (by simp [hcrashed, Phase.running])]

end Desired

theorem Path.removing_of_progress (h : Path exits i .progress v v')
    (hr : v'.slot.removing = true) : v.slot.removing = true := by
  induction h with
  | refl => exact hr
  | tail _ hm ih =>
      cases hm with
      | freed => cases hr
      | _ => exact ih hr

end Visit

/-! ### The slot that the progress loop finds -/

section View

variable [LinearOrder Id] {want : Dict Id (BackendNode Id)} {lb : Dict ℕ Observation}
  {latest : Proc → Option Stats} {ex₁ ex₂ : Executor} {i : ℕ} {v v' v₃ v₄ : Site Id}

theorem SlotStep.lifecycle (h : SlotStep exits now i want lb latest v ex₁ ex₂ v₃ v₄ v')
    (hl : Lifecycle v.slot) : Lifecycle v₃.slot := by
  have htrail : Trail exits i _ v₃ := h.added.trail
  have hkeep := Trail.lifecycle htrail
  exact hkeep (removal_lifecycle (v := ⟨v.slot, ex₁⟩) hl)

/-- A slot that is removing when the progress loop looks was not taken by an addition. -/
theorem SlotStep.kept (h : SlotStep exits now i want lb latest v ex₁ ex₂ v₃ v₄ v')
    (hl : Lifecycle v.slot) (hr : v₃.slot.removing = true) :
    v₃.slot = (removal exits now i want ⟨v.slot, ex₁⟩).slot ∧ Elsewhere i ex₂ v₃.ex := by
  cases h.added with
  | kept hs he => exact ⟨hs, he⟩
  | taken cid cfg ex hf _ hs _ =>
      -- a slot that is taken was as new
      have hfresh := (removal_lifecycle (v := ⟨v.slot, ex₁⟩) hl).fresh hf
      rw [hs] at hr
      simp only [spawn, hfresh] at hr
      cases hr

theorem SlotStep.ready (h : SlotStep exits now i want lb latest v ex₁ ex₂ v₃ v₄ v')
    (hl : Lifecycle v.slot) (hr : v₃.slot.removing = true) :
    Ready now want (ex₁.alive exits (v.slot.proc i)) v.slot v₃.slot := by
  have hslot := (SlotStep.kept h hl hr).1
  rw [hslot] at hr ⊢
  exact removal_ready (v := ⟨v.slot, ex₁⟩) hl hr

end View

end MaglevLb.SlotProgress
