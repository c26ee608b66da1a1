import MaglevLb.SlotProgress

/-!
# Removal is graceful

A removal drains the slot first. The times stored in the slot are read against the
history: `drain_since` is the step that began the removal, `quiet_since` a step from
which on the responder was idle, `stop_since` the step at which the slot began to
stop. None of them is left over from an earlier removal.
-/
namespace MaglevLb.GracefulRemoval

open Children OrderedDict Slots Reconcile SlotMoves SlotViews SlotLifecycle SlotCommands
  SlotProgress

variable {Id : Type*} {N : ℕ} {exits : Proc → Moment} {now : ℚ}

variable [LinearOrder Id] {i : Fin N} {r r' : Reconciler Id N}

omit [LinearOrder Id] in
theorem Path.removing_of_action {i : ℕ} {v v' : Site Id} (h : Path exits i .action v v') :
    v'.slot.removing = v.slot.removing := by
  induction h with
  | refl => rfl
  | tail _ hm ih => cases hm <;> exact ih

theorem perform_removing {want : Dict Id (BackendNode Id)} {kind : ActionKind} {i : ℕ}
    {v : Site Id} (ho : v.slot.owner ≠ none) (hr : v.slot.removing = false) :
    (perform exits now i want kind v).slot.removing = false := by
  have hpath : Path exits i .action (if clears kind then clearFault i want v else v)
      (perform exits now i want kind v) := perform_path ho hr
  rw [Path.removing_of_action hpath]
  split
  · exact clearFault_cleared.removing.trans hr
  · exact hr

theorem resetSlot_removing {want : Dict Id (BackendNode Id)} {i : ℕ} {v : Site Id}
    (ho : v.slot.owner ≠ none) (hr : v.slot.removing = false) :
    (resetSlot exits i want v).slot.removing = false := by
  have hpath : Path exits i .action (clearFault i want v) (resetSlot exits i want v) :=
    resetSlot_path ho hr
  exact (Path.removing_of_action hpath).trans (clearFault_cleared.removing.trans hr)

theorem action_removing {target : Id} {kind : ActionKind}
    (h : r.action exits now target kind = .ok r') (hr : (r'.slots i).removing = true) :
    r'.slots i = r.slots i ∧ Elsewhere i r.ex r'.ex := by
  obtain ⟨k, ho, hrun, rfl⟩ := action_ok h
  have howned : (r.slots k).owner ≠ none := by simp [ho]
  by_cases hi : i = k
  · subst hi
    rw [put_self, perform_removing howned hrun] at hr
    cases hr
  · have hne : (i : ℕ) ≠ k := fun he => hi (Fin.ext he)
    have htends : Tends k r.ex
        (perform exits now k r.desiredBackends kind ⟨r.slots k, r.ex⟩).ex :=
      perform_tends (v := ⟨r.slots k, r.ex⟩) howned hrun
    exact ⟨put_of_ne hi, htends.only.elsewhere hne⟩

theorem reset_removing (h : r.reset exits = some r') (hr : (r'.slots i).removing = true) :
    r'.slots i = r.slots i ∧ Elsewhere i r.ex r'.ex := by
  obtain ⟨ex₁, hex₁, hslot, hend⟩ := reset_view h i
  by_cases hskip : (r.slots i).owner = none ∨ (r.slots i).removing = true
  · rw [resetSlot, if_pos hskip] at hslot hend
    exact ⟨hslot, hex₁.trans hend⟩
  · rw [not_or, Bool.not_eq_true] at hskip
    simp only [hslot] at hr
    rw [resetSlot_removing (v := ⟨r.slots i, ex₁⟩) hskip.1 hskip.2] at hr
    cases hr

/-- Other calls leave a slot under removal alone. -/
theorem apply_removing {e : Event Id} (he : ∀ now lb latest, e ≠ .step now lb latest)
    (h : apply exits r e = some r') (hr : (r'.slots i).removing = true) :
    r'.slots i = r.slots i ∧ Elsewhere i r.ex.nextTurn r'.ex := by
  cases e with
  | setDesired | suppressLoad =>
      cases h
      exact ⟨rfl, .refl⟩
  | action target kind now =>
      rcases apply_action h with hok | rfl
      · exact action_removing hok hr
      · exact ⟨rfl, .refl⟩
  | reset now => exact reset_removing (r := { r with ex := r.ex.nextTurn }) h hr
  | step now lb latest => exact absurd rfl (he now lb latest)

/-! ### What the stored times say about the history -/

/-- The event, applied in `r`, issues this command. -/
def Issues (exits : Proc → Moment) (r : Reconciler Id N) (e : Event Id) (c : Moment × Call) :
    Prop :=
  ∃ r' l, apply exits r e = some r' ∧ r'.ex.log = r.ex.log ++ l ∧ c ∈ l

def Removing (i : Fin N) (r : Reconciler Id N) : Prop := (r.slots i).removing = true

def Stopping (i : Fin N) (r : Reconciler Id N) : Prop := (r.slots i).phase = .stopping

/-- The latest report of the slot's responder has nothing in it. -/
def ReportsIdle (latest : Proc → Option Stats) (i : ℕ) (s : Slot Id) : Prop :=
  ∃ p st, s.proc i = some p ∧ latest p = some st ∧
    st.busy = some 0 ∧ st.queued = some 0 ∧ st.openConns = some 0

/-- If the event is a step, the responder of slot `i` reports idle at it. -/
def IdleAt (i : Fin N) (r : Reconciler Id N) : Event Id → Prop
  | .step _ _ latest => ReportsIdle latest i (r.slots i)
  | _ => True

def SparesDrain (exits : Proc → Moment) (i : Fin N) (r : Reconciler Id N) (e : Event Id) : Prop :=
  ∀ m, ¬ Issues exits r e (m, .admin .undrain i)

/-- One of the events from `r₀` on is a step at time `t`, at which and at every step
since then the responder reported idle. -/
def QuietSince (exits : Proc → Moment) (i : Fin N) (r₀ : Reconciler Id N) (es : List (Event Id))
    (t : ℚ) : Prop :=
  ∃ before lb latest after r₁, es = before ++ .step t lb latest :: after ∧
    run exits r₀ before = some r₁ ∧
    EventRun.Along (apply exits) (IdleAt i) r₁ (.step t lb latest :: after)

omit [LinearOrder Id] in
theorem reportsIdle_of_isIdle {latest : Proc → Option Stats} {i : ℕ} {s : Slot Id}
    (h : isIdle latest i s = true) : ReportsIdle latest i s := by
  cases hp : s.proc i with
  | none => simp [isIdle, hp, Stats.idle] at h
  | some p =>
      cases hst : latest p with
      | none => simp [isIdle, hp, hst, Stats.idle] at h
      | some st =>
          obtain ⟨busy, queued, openConns⟩ := st
          cases busy <;> cases queued <;> cases openConns <;>
            simp_all [isIdle, Stats.idle, ReportsIdle]

theorem QuietSince.concat {r₀ : Reconciler Id N} {es : List (Event Id)} {e : Event Id} {t : ℚ}
    (h : QuietSince exits i r₀ es t) (hrun : run exits r₀ es = some r) (he : IdleAt i r e) :
    QuietSince exits i r₀ (es ++ [e]) t := by
  obtain ⟨before, lb, latest, after, r₁, rfl, hr₁, hidle⟩ := h
  refine ⟨before, lb, latest, after ++ [e], r₁, by simp, hr₁, ?_⟩
  refine hidle.concat fun r₂ hr₂ => ?_
  rw [run, List.foldlM_append] at hrun
  obtain ⟨r₁', hr₁', hrun⟩ := Option.bind_eq_some_iff.mp hrun
  cases hr₁.symm.trans hr₁'
  cases hrun.symm.trans hr₂
  exact he

/-- `r` is reached from `r₀` by the events `es` of a removal that drains slot `i`. -/
structure Draining (exits : Proc → Moment) (i : Fin N) (r₀ : Reconciler Id N) (es : List (Event Id))
    (r : Reconciler Id N) : Prop where
  reached : run exits r₀ es = some r
  since : EventRun.Since (apply exits) (Removing i) r₀ es
  spared : EventRun.Along (apply exits) (SparesDrain exits i) r₀ es
  begun : ∃ t lb latest rest m, es = .step t lb latest :: rest ∧
    Issues exits r₀ (.step t lb latest) (m, .admin .drain i) ∧ (r.slots i).drainSince = some t
  quiet : ∀ t, (r.slots i).quietSince = some t → QuietSince exits i r₀ es t

theorem run_extend {r₀ : Reconciler Id N} {es : List (Event Id)} {e : Event Id}
    (h : run exits r₀ es = some r) (he : apply exits r e = some r') :
    run exits r₀ (es ++ [e]) = some r' := by
  rw [run_concat, h, Option.bind_some, he]

/-- A property that holds after one more event has held since. -/
theorem Since.extend {P : Reconciler Id N → Prop} {r₀ : Reconciler Id N} {es : List (Event Id)}
    {e : Event Id} (h : EventRun.Since (apply exits) P r₀ es) (hrun : run exits r₀ es = some r)
    (he : apply exits r e = some r') (hP : P r') :
    EventRun.Since (apply exits) P r₀ (es ++ [e]) := by
  refine h.concat fun r₁ hr₁ => ?_
  cases (run_extend hrun he).symm.trans hr₁
  exact hP

theorem Draining.concat {r₀ : Reconciler Id N} {es : List (Event Id)} {e : Event Id}
    (h : Draining exits i r₀ es r) (he : apply exits r e = some r') (hr : Removing i r')
    (hspares : SparesDrain exits i r e) (hsince : (r'.slots i).drainSince = (r.slots i).drainSince)
    (hquiet : ∀ t, (r'.slots i).quietSince = some t → QuietSince exits i r₀ (es ++ [e]) t) :
    Draining exits i r₀ (es ++ [e]) r' where
  reached := run_extend h.reached he
  since := Since.extend h.since h.reached he hr
  spared := h.spared.concat fun r₁ hr₁ => by
    cases h.reached.symm.trans hr₁
    exact hspares
  begun := by
    obtain ⟨t, lb, latest, rest, m, rfl, hdrain, ht⟩ := h.begun
    exact ⟨t, lb, latest, rest ++ [e], m, rfl, hdrain, hsince.trans ht⟩
  quiet := hquiet

/-! ### Steps -/

section Step

variable {lb : Dict ℕ Observation} {latest : Proc → Option Stats}

/-- A step that leaves the slot removing. -/
inductive StepRemoving (exits : Proc → Moment) (now : ℚ) (lb : Dict ℕ Observation)
    (latest : Proc → Option Stats) (i : Fin N) (r r' : Reconciler Id N) : Prop
  | begins {m : Moment} : (r.slots i).removing = false →
      Issues exits r (.step now lb latest) (m, .admin .drain i) →
      SparesDrain exits i r (.step now lb latest) → (r'.slots i).phase = .draining →
      (r'.slots i).drainSince = some now →
      (r'.slots i).quietSince = quietAfter now (isIdle latest i (r.slots i)) none →
      StepRemoving exits now lb latest i r r'
  | waits : (r.slots i).removing = true → (r.slots i).phase = .draining →
      SparesDrain exits i r (.step now lb latest) → (r'.slots i).phase = .draining →
      (r'.slots i).drainSince = (r.slots i).drainSince →
      (r'.slots i).quietSince =
        quietAfter now (isIdle latest i (r.slots i)) (r.slots i).quietSince →
      StepRemoving exits now lb latest i r r'
  | stops : (r.slots i).phase ≠ .stopping → (r'.slots i).phase = .stopping →
      (r'.slots i).stopSince = some now → StepRemoving exits now lb latest i r r'
  | lingers : (r.slots i).phase = .stopping → r'.slots i = r.slots i →
      StepRemoving exits now lb latest i r r'

theorem step_spares {ex₁ ex₂ : Executor} {v₃ v₄ : Site Id}
    (h : apply exits r (.step now lb latest) = some r')
    (hview : SlotStep exits now i r.desiredBackends lb latest ⟨r.slots i, r.ex.nextTurn⟩ ex₁ ex₂
      v₃ v₄ ⟨r'.slots i, r'.ex⟩) (hl : Lifecycle (r.slots i)) (hr : v₃.slot.removing = true)
    (hp : v₃.slot.phase = .draining) : SparesDrain exits i r (.step now lb latest) := by
  rintro m ⟨r₁, l, h₁, hlog, hm⟩
  cases h.symm.trans h₁
  have hissue := (SlotStep.issues hview).issued hlog _ hm rfl
  cases hissue with
  | removal hremoval =>
      cases hremoval with
      | undrain ho ha hr₁ hp₁ =>
          have hready : Ready now r.desiredBackends _ (r.slots i) v₃.slot :=
            SlotStep.ready hview hl hr
          cases hready with
          | going _ ho' hkeep =>
              cases ho.symm.trans ho'
              exact hkeep ha hp₁
          | drains hr₀ => exact absurd (hr₀.symm.trans hr₁) Bool.false_ne_true
          | stops hr₀ => exact absurd (hr₀.symm.trans hr₁) Bool.false_ne_true
  | progress hprogress =>
      cases hprogress with
      | undrain hp₃ => exact absurd (hp.symm.trans hp₃) (by decide)

theorem step_begun {ex₁ ex₂ : Executor} {v₃ v₄ : Site Id}
    (h : apply exits r (.step now lb latest) = some r')
    (hview : SlotStep exits now i r.desiredBackends lb latest ⟨r.slots i, r.ex.nextTurn⟩ ex₁ ex₂
      v₃ v₄ ⟨r'.slots i, r'.ex⟩) (hl : Lifecycle (r.slots i)) (hr : v₃.slot.removing = true)
    (hp : v₃.slot.phase = .draining) (hr₀ : (r.slots i).removing = false) :
    ∃ m, Issues exits r (.step now lb latest) (m, .admin .drain i) := by
  obtain ⟨hslot, hadded⟩ := SlotStep.kept hview hl hr
  rw [hslot] at hr hp
  have hdrain : (removal exits now i r.desiredBackends ⟨r.slots i, ex₁⟩).ex =
      ex₁.tick.call (.admin .drain i) := removal_begun hr₀ hr hp
  have hrest : Executor.Advances (fun _ => True) (ex₁.tick.call (.admin .drain i)) r'.ex := by
    rw [← hdrain]
    exact hview.between.any.trans (hadded.any.trans
      ((progress_issues hview.progress).any.trans hview.after.any))
  have hbefore : Executor.Advances (fun _ => True) r.ex.nextTurn ex₁.tick :=
    hview.before.any.tick
  obtain ⟨l, hlog, hm⟩ := hbefore.issued_call hrest
  exact ⟨_, r', l, h, hlog, hm⟩

theorem step_removing (h : apply exits r (.step now lb latest) = some r')
    (hl : Lifecycle (r.slots i)) (hr : (r'.slots i).removing = true) :
    StepRemoving exits now lb latest i r r' := by
  obtain ⟨ex₁, ex₂, v₃, v₄, hview⟩ := step_view (r := { r with ex := r.ex.nextTurn }) h i
  have hslot : r'.slots i = v₄.slot := hview.slot
  rw [hslot] at hr
  have hr₃ := Path.removing_of_progress (progress_path hview.progress) hr
  have hremoved := progress_removed (SlotStep.lifecycle hview hl) hr₃ hview.progress
  have hready : Ready now r.desiredBackends _ (r.slots i) v₃.slot :=
    SlotStep.ready hview hl hr₃
  rw [← hslot] at hremoved hr
  cases hremoved with
  | waits hp₃ _ hslot' =>
      have hspares := step_spares h hview hl hr₃ hp₃
      cases hready with
      | going hr₀ _ _ heq =>
          rw [heq] at hp₃ hslot'
          exact .waits hr₀ hp₃ hspares (by rw [hslot']; exact hp₃) (by rw [hslot'])
            (by rw [hslot'])
      | drains hr₀ _ _ heq =>
          obtain ⟨m, hissues⟩ := step_begun h hview hl hr₃ hp₃ hr₀
          rw [heq] at hslot'
          exact .begins hr₀ hissues hspares (by rw [hslot']; rfl) (by rw [hslot']; rfl)
            (by rw [hslot']; rfl)
      | stops _ _ _ heq =>
          rw [heq] at hp₃
          cases hp₃
  | stops hp₃ _ hslot' =>
      refine .stops (fun hp₀ => ?_) (by rw [hslot']) (by rw [hslot'])
      cases hready with
      | going _ _ _ heq =>
          rw [heq, hp₀] at hp₃
          cases hp₃
      | drains hr₀ => exact absurd (hr₀.symm.trans (hl.stopping hp₀)) Bool.false_ne_true
      | stops hr₀ => exact absurd (hr₀.symm.trans (hl.stopping hp₀)) Bool.false_ne_true
  | lingers hp₃ _ hslot' =>
      cases hready with
      | going _ _ _ heq =>
          rw [heq] at hp₃ hslot'
          exact .lingers hp₃ hslot'
      | drains _ _ _ heq =>
          rw [heq] at hp₃
          cases hp₃
      | stops hr₀ _ _ heq =>
          rw [heq] at hslot'
          refine .stops (fun hp₀ => ?_) (by rw [hslot']) (by rw [hslot'])
          exact absurd (hr₀.symm.trans (hl.stopping hp₀)) Bool.false_ne_true
  | freed _ _ _ hslot' =>
      rw [hslot'] at hr
      cases hr

theorem quiet_concat {r₀ : Reconciler Id N} {es : List (Event Id)} {q : Option ℚ} {t : ℚ}
    (hrun : run exits r₀ es = some r) (hq : ∀ t, q = some t → QuietSince exits i r₀ es t)
    (ht : quietAfter now (isIdle latest i (r.slots i)) q = some t) :
    QuietSince exits i r₀ (es ++ [.step now lb latest]) t := by
  obtain ⟨hidle, hcase⟩ := quietAfter_some ht
  have hat : IdleAt i r (.step now lb latest) := reportsIdle_of_isIdle hidle
  rcases hcase with hold | rfl
  · exact (hq t hold).concat hrun hat
  · exact ⟨es, lb, latest, [], r, rfl, hrun, hat, fun _ _ => trivial⟩

/-- A command of a step about a slot is one of that slot's part of the step. -/
theorem Issues.of_step {c : Moment × Call} (h : Issues exits r (.step now lb latest) c)
    (hc : Concerns i c.2) :
    ∃ r' ex₁ ex₂ v₃ v₄, apply exits r (.step now lb latest) = some r' ∧
      SlotStep exits now i r.desiredBackends lb latest ⟨r.slots i, r.ex.nextTurn⟩ ex₁ ex₂ v₃ v₄
        ⟨r'.slots i, r'.ex⟩ ∧
      StepIssues now i r.desiredBackends (isUp lb i) latest ⟨r.slots i, ex₁⟩ v₃ c := by
  obtain ⟨r', l, h, hlog, hm⟩ := h
  obtain ⟨ex₁, ex₂, v₃, v₄, hview⟩ := step_view (r := { r with ex := r.ex.nextTurn }) h i
  exact ⟨r', ex₁, ex₂, v₃, v₄, h, hview, (SlotStep.issues hview).issued hlog c hm hc⟩

/-- A step terminates the responder of a slot that had crashed, or at the end of a drain. -/
theorem step_terminates {m : Moment} {seed : ℕ} (hl : Lifecycle (r.slots i))
    (h : Issues exits r (.step now lb latest) (m, .terminate (some (.backend (i + 1) seed)))) :
    (r.slots i).removing = false ∧ (r.slots i).phase = .crashed ∨
      (r.slots i).removing = true ∧ (r.slots i).phase = .draining ∧
        DrainOver now (isIdle latest i (r.slots i)) (r.slots i) ∧
        SparesDrain exits i r (.step now lb latest) := by
  obtain ⟨r', ex₁, ex₂, v₃, v₄, h, hview, hissue⟩ := h.of_step ⟨seed, rfl⟩
  generalize some (Proc.backend (i + 1) seed) = p at hissue
  cases hissue with
  | removal hremoval =>
      cases hremoval with
      | terminate hr hp => exact .inl ⟨hr, hp⟩
  | progress hprogress =>
      cases hprogress with
      | terminate hr₃ hp₃ hover =>
          have hspares := step_spares h hview hl hr₃ hp₃
          have hready : Ready now r.desiredBackends _ (r.slots i) v₃.slot :=
            SlotStep.ready hview hl hr₃
          cases hready with
          | going hr _ _ heq =>
              rw [heq] at hp₃ hover
              exact .inr ⟨hr, hp₃, hover, hspares⟩
          | drains _ _ _ heq =>
              rw [heq] at hover
              exact absurd hover not_drainOver_drainBegun
          | stops _ _ _ heq =>
              rw [heq] at hp₃
              cases hp₃

/-- A step kills the responder of a slot that has been stopping for a while. -/
theorem step_kills {m : Moment} {seed : ℕ} (hl : Lifecycle (r.slots i))
    (h : Issues exits r (.step now lb latest) (m, .kill (some (.backend (i + 1) seed)))) :
    (r.slots i).phase = .stopping ∧
      ∃ since, (r.slots i).stopSince = some since ∧ backendStopKillAfterMs ≤ now - since := by
  obtain ⟨r', ex₁, ex₂, v₃, v₄, h, hview, hissue⟩ := h.of_step ⟨seed, rfl⟩
  generalize some (Proc.backend (i + 1) seed) = p at hissue
  cases hissue with
  | removal hremoval => cases hremoval
  | progress hprogress =>
      cases hprogress with
      | kill hp₃ hsince hkill =>
          have hr₃ := (SlotStep.lifecycle hview hl).stopping hp₃
          have hready : Ready now r.desiredBackends _ (r.slots i) v₃.slot :=
            SlotStep.ready hview hl hr₃
          cases hready with
          | going _ _ _ heq =>
              rw [heq] at hp₃ hsince
              exact ⟨hp₃, _, hsince, hkill⟩
          | drains _ _ _ heq =>
              rw [heq] at hp₃
              cases hp₃
          | stops _ _ _ heq =>
              rw [heq] at hsince
              cases hsince
              norm_num [backendStopKillAfterMs] at hkill

end Step

/-! ### Runs -/

omit [LinearOrder Id] in
theorem step_or_other (e : Event Id) :
    (∃ now lb latest, e = .step now lb latest) ∨ ∀ now lb latest, e ≠ .step now lb latest := by
  cases e with
  | step now lb latest => exact .inl ⟨now, lb, latest, rfl⟩
  | _ => exact .inr fun _ _ _ he => by cases he

theorem other_spares {e : Event Id} (he : ∀ now lb latest, e ≠ .step now lb latest)
    (h : apply exits r e = some r') (hr : Removing i r') : SparesDrain exits i r e := by
  rintro m ⟨r₁, l, h₁, hlog, hm⟩
  cases h.symm.trans h₁
  exact (apply_removing he h hr).2.issued hlog _ hm rfl

omit [LinearOrder Id] in
theorem other_idle {e : Event Id} (he : ∀ now lb latest, e ≠ .step now lb latest) :
    IdleAt i r e := by
  cases e with
  | step now lb latest => exact absurd rfl (he now lb latest)
  | _ => trivial

/-- A slot that drains under removal has a history that its times tell. -/
theorem run_draining {es : List (Event Id)} (hrun : run exits (Reconciler.init Id N) es = some r)
    (hr : (r.slots i).removing = true) (hp : (r.slots i).phase = .draining) :
    ∃ before removal r₀, es = before ++ removal ∧
      run exits (Reconciler.init Id N) before = some r₀ ∧ Draining exits i r₀ removal r := by
  induction es using List.reverseRecOn generalizing r with
  | nil =>
      cases hrun
      cases hr
  | append_singleton es e ih =>
      rw [run_concat] at hrun
      obtain ⟨r₁, hrun₁, he⟩ := Option.bind_eq_some_iff.mp hrun
      have hl : Lifecycle (r₁.slots i) := run_lifecycle init_lifecycle hrun₁ i
      rcases step_or_other e with ⟨now, lb, latest, rfl⟩ | hother
      · cases step_removing he hl hr with
        | begins hr₁ hdrain hspares _ hsince hquiet =>
            refine ⟨es, [_], r₁, rfl, hrun₁, ?_⟩
            have hnil : run exits r₁ [] = some r₁ := rfl
            exact
              { reached := run_extend hnil he
                since := Since.extend (.nil (by simp [Removing, hr₁])) hnil he hr
                spared := ⟨hspares, fun _ _ => trivial⟩
                begun := ⟨now, lb, latest, [], _, rfl, hdrain, hsince⟩
                quiet := fun t ht => quiet_concat hnil (by simp) (hquiet ▸ ht) }
        | waits hr₁ hp₁ hspares _ hsince hquiet =>
            obtain ⟨before, removal, r₀, rfl, hr₀, hd⟩ := ih hrun₁ hr₁ hp₁
            refine ⟨before, removal ++ [_], r₀, by simp, hr₀, hd.concat he hr hspares hsince ?_⟩
            exact fun t ht => quiet_concat hd.reached hd.quiet (hquiet ▸ ht)
        | stops _ hp' => exact absurd (hp.symm.trans hp') (by decide)
        | lingers hp₁ heq =>
            rw [heq, hp₁] at hp
            cases hp
      · obtain ⟨heq, -⟩ := apply_removing hother he hr
        rw [heq] at hp
        obtain ⟨before, removal, r₀, rfl, hr₀, hd⟩ := ih hrun₁ (heq ▸ hr) hp
        refine ⟨before, removal ++ [e], r₀, by simp, hr₀,
          hd.concat he hr (other_spares hother he hr) (by rw [heq]) fun t ht => ?_⟩
        rw [heq] at ht
        exact (hd.quiet t ht).concat hd.reached (other_idle hother)

/-- A slot that is stopping entered that phase at the step its time tells. -/
theorem run_stopping {es : List (Event Id)} (hrun : run exits (Reconciler.init Id N) es = some r)
    (hp : (r.slots i).phase = .stopping) :
    ∃ before t lb latest rest r₀, es = before ++ .step t lb latest :: rest ∧
      run exits (Reconciler.init Id N) before = some r₀ ∧
      run exits r₀ (.step t lb latest :: rest) = some r ∧
      EventRun.Since (apply exits) (Stopping i) r₀ (.step t lb latest :: rest) ∧
      (r.slots i).stopSince = some t := by
  induction es using List.reverseRecOn generalizing r with
  | nil =>
      cases hrun
      cases hp
  | append_singleton es e ih =>
      have hr : Removing i r := (run_lifecycle init_lifecycle hrun i).stopping hp
      rw [run_concat] at hrun
      obtain ⟨r₁, hrun₁, he⟩ := Option.bind_eq_some_iff.mp hrun
      have hl : Lifecycle (r₁.slots i) := run_lifecycle init_lifecycle hrun₁ i
      have hlinger (heq : r.slots i = r₁.slots i) : ∃ before t lb latest rest r₀,
          es ++ [e] = before ++ .step t lb latest :: rest ∧
          run exits (Reconciler.init Id N) before = some r₀ ∧
          run exits r₀ (.step t lb latest :: rest) = some r ∧
          EventRun.Since (apply exits) (Stopping i) r₀ (.step t lb latest :: rest) ∧
          (r.slots i).stopSince = some t := by
        obtain ⟨before, t, lb, latest, rest, r₀, rfl, hr₀, hreach, hsince, ht⟩ :=
          ih hrun₁ (heq ▸ hp)
        exact ⟨before, t, lb, latest, rest ++ [e], r₀, by simp, hr₀, run_extend hreach he,
          Since.extend hsince hreach he hp, heq ▸ ht⟩
      rcases step_or_other e with ⟨now, lb, latest, rfl⟩ | hother
      · cases step_removing he hl hr with
        | begins _ _ _ hp' => exact absurd (hp.symm.trans hp') (by decide)
        | waits _ _ _ hp' => exact absurd (hp.symm.trans hp') (by decide)
        | stops hp₁ _ hs =>
            have hnil : run exits r₁ [] = some r₁ := rfl
            exact ⟨es, now, lb, latest, [], r₁, rfl, hrun₁, run_extend hnil he,
              Since.extend (.nil hp₁) hnil he hp, hs⟩
        | lingers _ heq => exact hlinger heq
      · exact hlinger (apply_removing hother he hr).1

/-- At time `now`, after the events `es` of the removal of slot `i` that began in
`r₀`: it began with a DRAIN, no UNDRAIN came after it, and the drain has lasted its
full time or the responder has been idle for long enough. -/
def Graceful (exits : Proc → Moment) (i : Fin N) (now : ℚ) (r₀ : Reconciler Id N)
    (es : List (Event Id)) : Prop :=
  ∃ t lb latest rest m, es = .step t lb latest :: rest ∧
    Issues exits r₀ (.step t lb latest) (m, .admin .drain i) ∧
    EventRun.Along (apply exits) (SparesDrain exits i) r₀ es ∧
    (backendSlotDrainMaxMs ≤ now - t ∨
      ∃ t', backendSlotDrainQuietMs ≤ now - t' ∧ QuietSince exits i r₀ es t')

/-- After every run: if the next step terminates the responder of a slot that had not
crashed when its removal began, the removal was graceful; and a step kills a responder
only when its slot has been stopping for two seconds. -/
theorem graceful_removal (exits : Proc → Moment) (es : List (Event Id)) (now : ℚ)
    (lb : Dict ℕ Observation) (latest : Proc → Option Stats) (i : Fin N) :
    ∃ r : Reconciler Id N, run exits (Reconciler.init Id N) es = some r ∧
      (∀ m seed, Issues exits r (.step now lb latest)
          (m, .terminate (some (.backend (i + 1) seed))) →
        ∃ before removal r₀, es = before ++ removal ∧
          run exits (Reconciler.init Id N) before = some r₀ ∧
          EventRun.Since (apply exits) (Removing i) r₀ removal ∧
          ((r₀.slots i).phase ≠ .crashed →
            Graceful exits i now r₀ (removal ++ [.step now lb latest]))) ∧
      ∀ m seed, Issues exits r (.step now lb latest) (m, .kill (some (.backend (i + 1) seed))) →
        ∃ before t lb' latest' rest r₀, es = before ++ .step t lb' latest' :: rest ∧
          run exits (Reconciler.init Id N) before = some r₀ ∧
          EventRun.Since (apply exits) (Stopping i) r₀ (.step t lb' latest' :: rest) ∧
          backendStopKillAfterMs ≤ now - t := by
  obtain ⟨r, hrun⟩ := run_exists Id N exits es
  have hl : Lifecycle (r.slots i) := run_lifecycle init_lifecycle hrun i
  refine ⟨r, hrun, fun m seed hterm => ?_, fun m seed hkill => ?_⟩
  · rcases step_terminates hl hterm with ⟨hr, hp⟩ | ⟨hr, hp, hover, hspares⟩
    · exact ⟨es, [], r, by simp, hrun, .nil (by simp [Removing, hr]), fun hp' => absurd hp hp'⟩
    · obtain ⟨before, removal, r₀, rfl, hr₀, hd⟩ := run_draining hrun hr hp
      refine ⟨before, removal, r₀, rfl, hr₀, hd.since, fun _ => ?_⟩
      obtain ⟨t, lb₀, latest₀, rest, m₀, hes, hdrain, ht⟩ := hd.begun
      refine ⟨t, lb₀, latest₀, rest ++ [.step now lb latest], m₀, by simp [hes], hdrain, ?_, ?_⟩
      · refine hd.spared.concat fun r₁ hr₁ => ?_
        cases hd.reached.symm.trans hr₁
        exact hspares
      · rcases hover with hquiet | ⟨since, hsince, hmax⟩
        · obtain ⟨hidle, t', ht', hlong⟩ := quietOver_after hquiet
          exact .inr ⟨t', hlong, (hd.quiet t' ht').concat hd.reached (reportsIdle_of_isIdle hidle)⟩
        · obtain rfl : t = since := Option.some.inj (ht.symm.trans hsince)
          exact .inl hmax
  · obtain ⟨hp, since, hsince, hlong⟩ := step_kills hl hkill
    obtain ⟨before, t, lb', latest', rest, r₀, rfl, hr₀, -, hstop, ht⟩ := run_stopping hrun hp
    obtain rfl : t = since := Option.some.inj (ht.symm.trans hsince)
    exact ⟨before, t, lb', latest', rest, r₀, rfl, hr₀, hstop, hlong⟩

end MaglevLb.GracefulRemoval
