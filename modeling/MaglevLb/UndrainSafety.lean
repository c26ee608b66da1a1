import MaglevLb.SlotCommands
import Mathlib.Data.String.Basic

/-!
# Undraining a slot

A slot is freed, and undrained, only once its responder is dead and maglev-lb has
marked it down. Re-adding a backend while it drains undrains its slot too, and
that branch does not look at the responder.
-/
namespace MaglevLb.UndrainSafety

open Children OrderedDict Slots Reconcile SlotMoves SlotViews SlotLifecycle SlotCommands

variable {Id : Type*} [LinearOrder Id] {N : ℕ} {exits : Proc → Moment} {r r' : Reconciler Id N}

/-- A step cancels the drain of slot `i`: its backend is attached again. -/
def cancels (r : Reconciler Id N) (i : Fin N) : Bool :=
  (r.slots i).owner.any (isActive r.desiredBackends) && (r.slots i).removing &&
    (r.slots i).phase = .draining

/-- A step that cancels the drain of a slot reported up finds the responder
alive, and it does not exit during the step. -/
def SparesReAdded (exits : Proc → Moment) (r : Reconciler Id N) : Event Id → Prop
  | .step _ lb _ => ∀ i : Fin N, cancels r i = true → isUp lb i = true →
      r.ex.nextTurn.outlives exits ((r.slots i).proc i) = true
  | _ => True

instance (exits : Proc → Moment) (r : Reconciler Id N) (e : Event Id) :
    Decidable (SparesReAdded exits r e) := by
  cases e <;> unfold SparesReAdded <;> infer_instance

/-- An UNDRAIN that a step issues for a slot reported up finds its responder alive. -/
def UndrainsLive (exits : Proc → Moment) (r : Reconciler Id N) (lb : Dict ℕ Observation)
    (issued : List (Moment × Call)) : Prop :=
  ∀ (i : Fin N) (m : Moment), (m, .admin .undrain i) ∈ issued → isUp lb i = true →
    ∃ p, (r.slots i).proc i = some p ∧ m < exits p

theorem step_undrainsLive {now : ℚ} {lb : Dict ℕ Observation} {latest : Proc → Option Stats}
    {issued : List (Moment × Call)} (h : r.step exits now lb latest = some r')
    (hlog : r'.ex.log = r.ex.log ++ issued)
    (hspare : ∀ i : Fin N, cancels r i = true → isUp lb i = true →
      r.ex.outlives exits ((r.slots i).proc i) = true) :
    UndrainsLive exits r lb issued := by
  intro i m hm hup
  obtain ⟨ex₁, ex₂, v₃, v₄, hview⟩ := step_view h i
  have hissue := (SlotStep.issues hview).issued hlog _ hm rfl
  cases hissue with
  | removal hremoval =>
      cases hremoval with
      | undrain ho hactive hr hp =>
          have hcancel : cancels r i = true := by
            simp only at ho hr hp
            simp [cancels, ho, hactive, hr, hp]
          exact Executor.lt_of_outlives (hspare i hcancel hup) hview.before.turn_eq
  | progress hprogress =>
      cases hprogress with
      | undrain _ hdown =>
          rw [hup] at hdown
          cases hdown

/-- In every run in which each step that cancels a drain on a slot reported up
finds its responder alive, no step undrains a slot that is reported up while its
responder is dead. -/
theorem undrain_safety (exits : Proc → Moment) (es : List (Event Id))
    (hspare : EventRun.Along (apply exits) (SparesReAdded exits) (Reconciler.init Id N) es)
    (done rest : List (Event Id)) (now : ℚ) (lb : Dict ℕ Observation)
    (latest : Proc → Option Stats) (hes : es = done ++ .step now lb latest :: rest) :
    ∃ (r r' : Reconciler Id N) (issued : List (Moment × Call)),
      run exits (Reconciler.init Id N) done = some r ∧
      apply exits r (.step now lb latest) = some r' ∧ r'.ex.log = r.ex.log ++ issued ∧
      UndrainsLive exits r lb issued := by
  obtain ⟨r, hr⟩ := run_exists Id N exits done
  have hl : ∀ i, Lifecycle (r.slots i) := run_lifecycle init_lifecycle hr
  obtain ⟨r', hstep⟩ : ∃ r', apply exits r (.step now lb latest) = some r' := apply_exists hl _
  have hadv : Executor.Advances (fun _ => True) r.ex.nextTurn r'.ex :=
    (step_within (r := { r with ex := r.ex.nextTurn }) hstep).any
  obtain ⟨issued, hlog, -⟩ := hadv.log_eq
  subst hes
  have hcond : SparesReAdded exits r (.step now lb latest) := hspare.at hr
  refine ⟨r, r', issued, hr, hstep, hlog, ?_⟩
  exact step_undrainsLive (r := { r with ex := r.ex.nextTurn }) hstep hlog hcond

/-- A backend starts, leaves the canvas, begins to drain, and is put back. -/
def putBack : List (Event String) :=
  [.setDesired (canvas ["b1"]), .step 1 (observe []) fun _ => none,
    .setDesired (canvas []), .step 2 (observe [(0, true)]) fun _ => none,
    .setDesired (canvas ["b1"])]

theorem undrain_safety_putBack :
    ∃ (r r' : Reconciler String 1) (issued : List (Moment × Call)),
      run (fun _ => toLex (9, 0)) (Reconciler.init String 1) putBack = some r ∧
      apply (fun _ => toLex (9, 0)) r (.step 3 (observe [(0, true)]) fun _ => none) = some r' ∧
      r'.ex.log = r.ex.log ++ issued ∧
      UndrainsLive (fun _ => toLex (9, 0)) r (observe [(0, true)]) issued :=
  undrain_safety _ (putBack ++ [.step 3 (observe [(0, true)]) fun _ => none]) (by decide +kernel)
    putBack [] 3 _ _ rfl

/-- The responder exits while it drains; the step that finds it back on the
canvas undrains its slot, which maglev-lb still reports up. -/
theorem dead_slot_undrained :
    ∃ (r r' : Reconciler String 1) (issued : List (Moment × Call)),
      run (fun _ => toLex (5, 0)) (Reconciler.init String 1) putBack = some r ∧
      apply (fun _ => toLex (5, 0)) r (.step 3 (observe [(0, true)]) fun _ => none) = some r' ∧
      r'.ex.log = r.ex.log ++ issued ∧
      ¬ UndrainsLive (fun _ => toLex (5, 0)) r (observe [(0, true)]) issued := by
  have hrun : (run (fun _ => toLex (5, 0)) (Reconciler.init String 1) putBack).any (fun r =>
      (apply (fun _ => toLex (5, 0)) r (.step 3 (observe [(0, true)]) fun _ => none)).any fun r' =>
        r'.ex.log = r.ex.log ++ [(toLex (6, 0), .admin .undrain 0)]) = true := by
    decide +kernel
  obtain ⟨r, hr, h⟩ := (Option.any_eq_true _ _).mp hrun
  obtain ⟨r', hr', hlog⟩ := (Option.any_eq_true _ _).mp h
  refine ⟨r, r', _, hr, hr', by simpa using hlog, fun hlive => ?_⟩
  obtain ⟨p, -, hlt⟩ := hlive 0 (toLex (6, 0)) (by simp) (by decide +kernel)
  have hdead : ¬ (toLex (6, 0) : Moment) < toLex (5, 0) := by decide
  exact hdead hlt

end MaglevLb.UndrainSafety
