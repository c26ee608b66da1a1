import MaglevLb.SlotLifecycle

/-!
# The commands a step issues for a slot

Each command is listed with the state of the slot that made the step issue it.
-/
namespace MaglevLb.SlotCommands

open Children OrderedDict Slots Reconcile SlotMoves SlotViews SlotLifecycle

variable {Id : Type*} {N : ℕ} {exits : Proc → Moment} {now : ℚ} {i : ℕ} {v v' : Site Id}

/-- Whether the observation says that backend `i` is up. -/
def isUp (lb : Dict ℕ Observation) (i : ℕ) : Bool := ((lb.get? i).getD {}).up.getD false

/-- Whether the slot's responder reports that it is idle. -/
def isIdle (latest : Proc → Option Stats) (i : ℕ) (s : Slot Id) : Bool :=
  (((s.proc i).bind latest).getD {}).idle

/-- A slot whose removal begins with a drain. -/
def drainBegun (now : ℚ) (s : Slot Id) : Slot Id :=
  { s with
    removing := true, manualDrain := false, phase := .draining, drainSince := some now
    quietSince := none }

/-- What the removal loop does with a slot. -/
inductive RemovalVisit [DecidableEq Id] (exits : Proc → Moment) (now : ℚ) (i : ℕ)
    (want : Dict Id (BackendNode Id)) (v : Site Id) : Site Id → Prop
  | free : v.slot.owner = none → RemovalVisit exits now i want v v
  | kept {cid : Id} : v.slot.owner = some cid →
      (isActive want cid = false → v.slot.removing = true) →
      (isActive want cid = true → v.slot.removing = true → v.slot.phase ≠ .draining) →
      RemovalVisit exits now i want v v
  | drains {cid : Id} : v.slot.owner = some cid → isActive want cid = false →
      v.slot.removing = false → v.ex.alive exits (v.slot.proc i) = true → v.slot.phase ≠ .crashed →
      RemovalVisit exits now i want v
        ⟨drainBegun now v.slot, v.ex.tick.call (.admin .drain i)⟩
  | stops {cid : Id} : v.slot.owner = some cid → isActive want cid = false →
      v.slot.removing = false →
      (v.ex.alive exits (v.slot.proc i) = true → v.slot.phase = .crashed) →
      RemovalVisit exits now i want v (beginStop exits now i
        ⟨{ v.slot with removing := true, manualDrain := false }, v.ex.tick⟩)
  | cancels {cid : Id} : v.slot.owner = some cid → isActive want cid = true →
      v.slot.removing = true → v.slot.phase = .draining →
      RemovalVisit exits now i want v
        ⟨{ v.slot with removing := false, phase := .serving }, v.ex.call (.admin .undrain i)⟩

theorem removal_cases [DecidableEq Id] (exits : Proc → Moment) (now : ℚ) (i : ℕ)
    (want : Dict Id (BackendNode Id)) (v : Site Id) :
    RemovalVisit exits now i want v (removal exits now i want v) := by
  unfold removal
  split
  · next ho => exact .free ho
  · next cid ho =>
      split
      · next hrm =>
          dsimp only
          split
          · next hdrain => exact .drains ho hrm.1 hrm.2 hdrain.1 hdrain.2
          · next hstop =>
              refine .stops ho hrm.1 hrm.2 fun halive => ?_
              by_contra hp
              exact hstop ⟨halive, hp⟩
      · next hrm =>
          split
          · next hc => exact .cancels ho hc.1 hc.2.1 hc.2.2
          · next hc =>
              refine .kept ho (fun ha => ?_) fun ha hr hp => hc ⟨ha, hr, hp⟩
              by_contra hr
              exact hrm ⟨ha, by simpa using hr⟩

/-- The removal loop's commands. -/
inductive RemovalIssues (i : ℕ) [DecidableEq Id]
    (want : Dict Id (BackendNode Id)) (v : Site Id) : Moment × Call → Prop
  | drain {m : Moment} : v.slot.removing = false → v.slot.phase ≠ .crashed →
      RemovalIssues i want v (m, .admin .drain i)
  | terminate {m : Moment} : v.slot.removing = false → v.slot.phase = .crashed →
      RemovalIssues i want v (m, .terminate (v.slot.proc i))
  | undrain {cid : Id} : v.slot.owner = some cid → isActive want cid = true →
      v.slot.removing = true → v.slot.phase = .draining →
      RemovalIssues i want v (v.ex.now, .admin .undrain i)

theorem removal_issues [DecidableEq Id] {want : Dict Id (BackendNode Id)} :
    Executor.Advances (RemovalIssues i want v) v.ex (removal exits now i want v).ex := by
  have hvisit := removal_cases exits now i want v
  generalize removal exits now i want v = w at hvisit
  cases hvisit with
  | free | kept => exact .refl
  | drains _ _ hr _ hp => exact Executor.Advances.refl.tick.call (.drain hr hp)
  | cancels ho ha hr hp => exact Executor.Advances.refl.call (.undrain ho ha hr hp)
  | stops _ _ hr hcrash =>
      unfold beginStop
      dsimp only
      split
      · next halive =>
          -- still alive at the second look, so it was alive at the first
          have hfirst := Executor.alive_antitone (Executor.now_lt_tick v.ex).le halive
          exact Executor.Advances.refl.tick.tick.call (.terminate hr (hcrash hfirst))
      · exact Executor.Advances.refl.tick.tick

/-- The drain of a slot under removal is over. -/
def DrainOver (now : ℚ) (idle : Bool) (s : Slot Id) : Prop :=
  quietOver now (quietAfter now idle s.quietSince) = true ∨
    ∃ since, s.drainSince = some since ∧ backendSlotDrainMaxMs ≤ now - since

/-- The progress loop's commands. -/
inductive ProgressIssues (now : ℚ) (i : ℕ) (up idle : Bool)
    (v : Site Id) : Moment × Call → Prop
  | terminate {m : Moment} : v.slot.removing = true → v.slot.phase = .draining →
      DrainOver now idle v.slot →
      ProgressIssues now i up idle v (m, .terminate (v.slot.proc i))
  | kill {m : Moment} {since : ℚ} : v.slot.phase = .stopping → v.slot.stopSince = some since →
      backendStopKillAfterMs ≤ now - since →
      ProgressIssues now i up idle v (m, .kill (v.slot.proc i))
  | undrain {m : Moment} : v.slot.phase = .stopping → up = false →
      ProgressIssues now i up idle v (m, .admin .undrain i)
  | setGre {m : Moment} {on : Bool} :
      ProgressIssues now i up idle v (m, .setGre (i + 1) on)
  | send {m : Moment} {proc : Option Proc} {obj : Message} :
      ProgressIssues now i up idle v (m, .send proc obj)

theorem beginStop_issues {P : Moment × Call → Prop} {s : Slot Id} {ex : Executor}
    (hP : ∀ m, P (m, .terminate (s.proc i))) :
    Executor.Advances P ex (beginStop exits now i ⟨s, ex⟩).ex := by
  unfold beginStop
  dsimp only
  split
  · exact Executor.Advances.refl.tick.call (hP _)
  · exact Executor.Advances.refl.tick

theorem drainFurther_issues {up idle : Bool} {ex : Executor} (hr : v.slot.removing = true)
    (hp : v.slot.phase = .draining) (h : drainFurther exits now i idle ⟨v.slot, ex⟩ = some v') :
    Executor.Advances (ProgressIssues now i up idle v) ex v'.ex := by
  unfold drainFurther at h
  dsimp only at h
  split at h
  · next hq =>
      cases h
      exact beginStop_issues fun _ => ProgressIssues.terminate hr hp (.inl hq)
  · obtain ⟨since, hs, rfl⟩ := Option.map_eq_some_iff.mp h
    split
    · next hmax =>
        exact beginStop_issues fun _ => ProgressIssues.terminate hr hp (.inr ⟨since, hs, hmax⟩)
    · exact .refl

theorem stopFurther_issues {up idle alive : Bool} {ex : Executor} (hp : v.slot.phase = .stopping)
    (h : stopFurther now i up alive ⟨v.slot, ex⟩ = some v') :
    Executor.Advances (ProgressIssues now i up idle v) ex v'.ex := by
  unfold stopFurther at h
  split at h
  · obtain ⟨since, hs, rfl⟩ := Option.map_eq_some_iff.mp h
    split
    · next hmax => exact Executor.Advances.refl.call (.kill hp hs hmax)
    · exact .refl
  · split at h
    · cases h
      exact .refl
    · next hup =>
        cases h
        have hfree : Executor.Advances (ProgressIssues now i up idle v) ex
            (ex.call (.admin .undrain i)) :=
          Executor.Advances.refl.call (.undrain hp (by simpa using hup))
        dsimp only
        split
        · exact hfree.call .setGre
        · exact hfree

theorem advance_issues {obs : Observation} {idle alive : Bool} {ex : Executor}
    (h : advance exits now i obs idle alive ⟨v.slot, ex⟩ = some v') :
    Executor.Advances (ProgressIssues now i (obs.up.getD false) idle v) ex v'.ex := by
  unfold advance at h
  dsimp only at h
  split at h
  · split at h <;> cases h <;> exact .refl
  · split at h <;> cases h <;> exact .refl
  · split at h <;> cases h <;> exact .refl
  · next hp =>
      split at h
      · next hr => exact drainFurther_issues hr hp h
      · cases h
        exact .refl
  · next hp => exact stopFurther_issues hp h
  · cases h
    exact .refl
  · cases h
    exact .refl

section Desired

variable [DecidableEq Id] {want : Dict Id (BackendNode Id)} {lb : Dict ℕ Observation}
  {latest : Proc → Option Stats}

theorem progress_issues (h : progress exits now i want lb latest v = some v') :
    Executor.Advances (ProgressIssues now i (isUp lb i) (isIdle latest i v.slot) v) v.ex v'.ex := by
  unfold progress at h
  split at h
  · cases h
    exact .refl
  · dsimp only at h
    split at h
    · cases h
      exact Executor.Advances.refl.tick
    · obtain ⟨v₁, hadv, rfl⟩ := Option.map_eq_some_iff.mp h
      refine Executor.Advances.refl.tick.trans (.trans (advance_issues hadv) ?_)
      unfold configure
      split
      · exact .refl
      · split
        · exact Executor.Advances.refl.call .send
        · exact .refl

/-- A command of a step about slot `i`. -/
inductive StepIssues (now : ℚ) (i : ℕ) (want : Dict Id (BackendNode Id)) (up : Bool)
    (latest : Proc → Option Stats) (v₁ v₃ : Site Id) : Moment × Call → Prop
  | removal {e : Moment × Call} : RemovalIssues i want v₁ e →
      StepIssues now i want up latest v₁ v₃ e
  | addition {m : Moment} {cfg : BackendConfig} {seed : ℕ} :
      StepIssues now i want up latest v₁ v₃ (m, .spawnBackend (i + 1) cfg seed)
  | progress {e : Moment × Call} : ProgressIssues now i up (isIdle latest i v₃.slot) v₃ e →
      StepIssues now i want up latest v₁ v₃ e

end Desired

theorem SlotStep.issues [LinearOrder Id] {want : Dict Id (BackendNode Id)}
    {lb : Dict ℕ Observation} {latest : Proc → Option Stats} {ex₁ ex₂ : Executor} {v₃ v₄ : Site Id}
    (h : SlotStep exits now i want lb latest v ex₁ ex₂ v₃ v₄ v') :
    Executor.Advances (fun e => Concerns i e.2 →
      StepIssues now i want (isUp lb i) latest ⟨v.slot, ex₁⟩ v₃ e) v.ex v'.ex := by
  have helse {ex ex' : Executor} (he : Elsewhere i ex ex') :
      Executor.Advances (fun e => Concerns i e.2 →
        StepIssues now i want (isUp lb i) latest ⟨v.slot, ex₁⟩ v₃ e) ex ex' :=
    he.mono fun e hn hc => absurd hc hn
  have hremoval : Executor.Advances (fun e => Concerns i e.2 →
      StepIssues now i want (isUp lb i) latest ⟨v.slot, ex₁⟩ v₃ e) ex₁
      (Slots.removal exits now i want ⟨v.slot, ex₁⟩).ex :=
    (removal_issues (v := ⟨v.slot, ex₁⟩)).mono fun e he _ => .removal he
  have hadded : Executor.Advances (fun e => Concerns i e.2 →
      StepIssues now i want (isUp lb i) latest ⟨v.slot, ex₁⟩ v₃ e) ex₂ v₃.ex := by
    cases h.added with
    | kept _ he => exact helse he
    | taken cid cfg ex _ he _ hr =>
        exact ((helse he).spawnBackend fun _ => .addition).trans (helse hr)
  have hprogress : Executor.Advances (fun e => Concerns i e.2 →
      StepIssues now i want (isUp lb i) latest ⟨v.slot, ex₁⟩ v₃ e) v₃.ex v₄.ex :=
    (progress_issues h.progress).mono fun e he _ => .progress he
  exact ((((helse h.before).trans hremoval).trans (helse h.between)).trans hadded).trans
    (hprogress.trans (helse h.after))

end MaglevLb.SlotCommands
