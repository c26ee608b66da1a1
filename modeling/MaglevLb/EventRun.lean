import Mathlib.Data.List.Basic
import Mathlib.Data.List.Induction

/-!
# Runs of a deterministic machine over a list of events

The machine is a step function, total or partial; a run folds it over the events.
What one step preserves, a run preserves.
-/
namespace MaglevLb.EventRun

variable {σ ε : Type*} (step : σ → ε → σ)

def run (s : σ) (es : List ε) : σ := es.foldl step s

@[simp] theorem run_nil (s : σ) : run step s [] = s := rfl

@[simp] theorem run_cons (s : σ) (e : ε) (es : List ε) :
    run step s (e :: es) = run step (step s e) es := rfl

theorem run_append (s : σ) (es es' : List ε) :
    run step s (es ++ es') = run step (run step s es) es' := by
  unfold run
  rw [List.foldl_append]

variable {step}

/-- A property that every step keeps holds after every run. -/
theorem run_invariant {P : σ → Prop} (hstep : ∀ s e, P s → P (step s e)) {s : σ} (hs : P s)
    (es : List ε) : P (run step s es) := by
  induction es generalizing s with
  | nil => exact hs
  | cons e es ih => exact ih (hstep s e hs)

/-- The same for steps of one kind. -/
theorem run_invariant_of {P : σ → Prop} {Q : ε → Prop}
    (hstep : ∀ s e, Q e → P s → P (step s e)) {s : σ} (hs : P s) {es : List ε}
    (hes : ∀ e ∈ es, Q e) : P (run step s es) := by
  induction es generalizing s with
  | nil => exact hs
  | cons e es ih =>
      obtain ⟨he, hes⟩ := List.forall_mem_cons.mp hes
      exact ih (hstep s e he hs) hes

/-- A run that ends in `P` has entered it at a last time, and stayed since. -/
theorem run_entered {P : σ → Prop} {R : σ → σ → Prop}
    (htrans : ∀ {s₁ s₂ s₃}, R s₁ s₂ → R s₂ s₃ → R s₁ s₃)
    (henter : ∀ {s e}, P (step s e) → R s (step s e)) {s : σ} (hs : ¬ P s) {es : List ε}
    (h : P (run step s es)) :
    ∃ es₁ e es₂, es = es₁ ++ e :: es₂ ∧ ¬ P (run step s es₁) ∧
      P (step (run step s es₁) e) ∧ R (run step s es₁) (run step s es) := by
  induction es using List.reverseRecOn with
  | nil => exact absurd h hs
  | append_singleton es e ih =>
      rw [run_append] at h ⊢
      by_cases hbefore : P (run step s es)
      · obtain ⟨es₁, e₁, es₂, rfl, hout, hin, hR⟩ := ih hbefore
        exact ⟨es₁, e₁, es₂ ++ [e], by simp, hout, hin, htrans hR (henter h)⟩
      · exact ⟨es, e, [], rfl, hbefore, h, henter h⟩

/-- A property that a step keeps unless the event breaks it, and that is never regained, holds
after a run exactly if no event of it broke it. -/
theorem run_iff_unbroken {P : σ → Prop} {broken : σ → ε → Prop}
    (hstep : ∀ s e, P (step s e) ↔ P s ∧ ¬broken s e) (s : σ) (es : List ε) :
    P (run step s es) ↔
      P s ∧ ∀ es₁ e es₂, es = es₁ ++ e :: es₂ → ¬broken (run step s es₁) e := by
  induction es generalizing s with
  | nil => simp
  | cons e es ih =>
      rw [run_cons, ih, hstep, and_assoc]
      refine and_congr_right fun _ => ⟨fun h es₁ e' es₂ heq => ?_, fun h => ⟨h [] e es rfl, ?_⟩⟩
      · cases es₁ with
        | nil =>
            cases heq
            exact h.1
        | cons e₁ es₁ =>
            cases heq
            exact h.2 es₁ e' es₂ rfl
      · intro es₁ e' es₂ heq
        exact h (e :: es₁) e' es₂ (by rw [heq, List.cons_append])

/-- An invariant of a machine whose steps may be disabled. -/
theorem foldlM_invariant {next : σ → ε → Option σ} {P : σ → Prop}
    (hstep : ∀ {s e s'}, P s → next s e = some s' → P s') {s s' : σ} (hs : P s) {es : List ε}
    (h : es.foldlM next s = some s') : P s' := by
  induction es generalizing s with
  | nil =>
      cases h
      exact hs
  | cons e es ih =>
      rw [List.foldlM_cons] at h
      obtain ⟨s₁, he, hes⟩ := Option.bind_eq_some_iff.mp h
      exact ih (hstep hs he) hes

section Along

variable {next : σ → ε → Option σ} {C : σ → ε → Prop}

/-- Every step of the run meets `C` in the state it starts from. -/
def Along (next : σ → ε → Option σ) (C : σ → ε → Prop) : σ → List ε → Prop
  | _, [] => True
  | s, e :: es => C s e ∧ ∀ s' ∈ next s e, Along next C s' es

instance Along.decidable [∀ s e, Decidable (C s e)] :
    (s : σ) → (es : List ε) → Decidable (Along next C s es)
  | _, [] => .isTrue trivial
  | s, e :: es =>
      match h : next s e with
      | none => decidable_of_iff (C s e) (by simp [Along, h])
      | some s' =>
          have := Along.decidable s' es
          decidable_of_iff (C s e ∧ Along next C s' es) (by simp [Along, h])

theorem Along.at {s s' : σ} {es es' : List ε} {e : ε} (h : Along next C s (es ++ e :: es'))
    (hs : es.foldlM next s = some s') : C s' e := by
  induction es generalizing s with
  | nil =>
      cases hs
      exact h.1
  | cons e' es ih =>
      rw [List.foldlM_cons] at hs
      obtain ⟨s₁, he, hes⟩ := Option.bind_eq_some_iff.mp hs
      exact ih (h.2 s₁ he) hes

/-- What the steps that meet `C` preserve, a run of such steps preserves. -/
theorem Along.invariant {P : σ → Prop}
    (hstep : ∀ {s e s'}, P s → C s e → next s e = some s' → P s') {s s' : σ} (hs : P s)
    {es : List ε} (hC : Along next C s es) (h : es.foldlM next s = some s') : P s' := by
  induction es generalizing s with
  | nil =>
      cases h
      exact hs
  | cons e es ih =>
      rw [List.foldlM_cons] at h
      obtain ⟨s₁, he, hes⟩ := Option.bind_eq_some_iff.mp h
      exact ih (hstep hs hC.1 he) (hC.2 s₁ he) hes

theorem along_of_forall {Q : ε → Prop} {es : List ε} (h : ∀ e ∈ es, Q e) (s : σ) :
    Along next (fun _ e => Q e) s es := by
  induction es generalizing s with
  | nil => trivial
  | cons e es ih =>
      obtain ⟨he, hes⟩ := List.forall_mem_cons.mp h
      exact ⟨he, fun s' _ => ih hes s'⟩

/-- Where the steps that meet `C` are enabled and keep `P`, a run of such steps comes to its end. -/
theorem Along.exists_run {P : σ → Prop}
    (hstep : ∀ {s e}, P s → C s e → ∃ s', next s e = some s' ∧ P s') {s : σ} (hs : P s)
    {es : List ε} (hC : Along next C s es) : ∃ s', es.foldlM next s = some s' ∧ P s' := by
  induction es generalizing s with
  | nil => exact ⟨s, rfl, hs⟩
  | cons e es ih =>
      obtain ⟨s₁, hs₁, hP⟩ := hstep hs hC.1
      obtain ⟨s', hrun, hs'⟩ := ih hP (hC.2 s₁ hs₁)
      refine ⟨s', ?_, hs'⟩
      rw [List.foldlM_cons, hs₁]
      exact hrun

theorem exists_run {P : σ → Prop} (hstep : ∀ {s}, P s → ∀ e, ∃ s', next s e = some s' ∧ P s')
    {s : σ} (hs : P s) (es : List ε) : ∃ s', es.foldlM next s = some s' ∧ P s' :=
  Along.exists_run (C := fun _ _ => True) (fun h _ => hstep h _) hs
    (along_of_forall (fun _ _ => trivial) s)

theorem Along.concat {s : σ} {es : List ε} {e : ε} (h : Along next C s es)
    (he : ∀ s', es.foldlM next s = some s' → C s' e) : Along next C s (es ++ [e]) := by
  induction es generalizing s with
  | nil => exact ⟨he s rfl, fun _ _ => trivial⟩
  | cons e' es ih =>
      refine ⟨h.1, fun s₁ hs₁ => ih (h.2 s₁ hs₁) fun s' hs' => he s' ?_⟩
      rw [List.foldlM_cons]
      exact Option.bind_eq_some_iff.mpr ⟨s₁, hs₁, hs'⟩

end Along

section Since

variable {next : σ → ε → Option σ} {P : σ → Prop} {s : σ} {es : List ε}

/-- `P` does not hold in `s`, and holds in every state of the run that comes after it. -/
def Since (next : σ → ε → Option σ) (P : σ → Prop) (s : σ) (es : List ε) : Prop :=
  ¬ P s ∧ ∀ es₁ es₂ s', es = es₁ ++ es₂ → es₁ ≠ [] → es₁.foldlM next s = some s' → P s'

theorem Since.nil (hs : ¬ P s) : Since next P s [] := by
  refine ⟨hs, fun es₁ es₂ s' h hne => ?_⟩
  exact absurd (List.append_eq_nil_iff.mp h.symm).1 hne

theorem Since.concat {e : ε} (h : Since next P s es)
    (he : ∀ s', (es ++ [e]).foldlM next s = some s' → P s') : Since next P s (es ++ [e]) := by
  refine ⟨h.1, fun es₁ es₂ s' heq hne hs' => ?_⟩
  rcases List.eq_nil_or_concat es₂ with rfl | ⟨es₃, e', rfl⟩
  · rw [List.append_nil] at heq
    exact he s' (heq ▸ hs')
  · rw [List.concat_eq_append, ← List.append_assoc] at heq
    exact h.2 es₁ es₃ s' (List.append_inj_left' heq rfl) hne hs'

end Since

section Trace

variable {α τ : Type*} {step : σ → α → σ → Prop} {step' : τ → α → τ → Prop}

/-- The label sequences of a labelled transition relation. -/
inductive Trace (step : σ → α → σ → Prop) : σ → List α → σ → Prop
  | nil (s : σ) : Trace step s [] s
  | cons {s s₁ s' : σ} {a : α} {as : List α} (head : step s a s₁) (tail : Trace step s₁ as s') :
      Trace step s (a :: as) s'

/-- A simulation of single steps carries traces over, with the same labels. -/
theorem Trace.simulate {R : σ → τ → Prop}
    (hstep : ∀ {s a s' t}, R s t → step s a s' → ∃ t', step' t a t' ∧ R s' t')
    {s s' : σ} {as : List α} (h : Trace step s as s') {t : τ} (hR : R s t) :
    ∃ t', Trace step' t as t' ∧ R s' t' := by
  induction h generalizing t with
  | nil s => exact ⟨t, .nil t, hR⟩
  | cons head tail ih =>
      obtain ⟨t₁, hhead, hR₁⟩ := hstep hR head
      obtain ⟨t', htail, hR'⟩ := ih hR₁
      exact ⟨t', .cons hhead htail, hR'⟩

end Trace

end MaglevLb.EventRun
