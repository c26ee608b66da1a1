import MaglevLb.EventRun
import Mathlib.Logic.Function.Basic

/-!
# Start-up and teardown of threads over shared resources

A supervisor runs a straight list of instructions: it creates and uses
resources, starts threads, waits for them and destroys resources. The threads it
has started run in between, each step touching some resources. A check of the
instruction list alone decides whether a thread is started before something it
reaches exists, or something is destroyed while a thread that reaches it is
running; if the check passes, every interleaving touches resources only between
their creation and their destruction.
-/
namespace MaglevLb.Teardown

/-- `τ` are the threads, `κ` the resources. -/
inductive Instr (τ κ : Type*) where
  | create (c : κ)
  | use (cs : List κ)
  | spawn (t : τ)
  | join (t : τ)
  | destroy (c : κ)

inductive Phase where
  | absent
  | up
  | destroyed
deriving DecidableEq, Repr

structure Process (τ κ : Type*) where
  todo : List (Instr τ κ)
  running : List τ
  phase : κ → Phase

/-- `σ` are the steps of the threads. `work` lets the supervisor stay in a use; a
thread may leave at any time, asked to or not. -/
inductive Action (σ τ : Type*) where
  | advance
  | work
  | thread (s : σ)
  | exit (t : τ)

variable {σ τ κ : Type*} [DecidableEq τ] [DecidableEq κ]

def Process.start (is : List (Instr τ κ)) : Process τ κ := ⟨is, [], fun _ => .absent⟩

/-- A join waits until its thread has left; `none` where an action is not enabled. -/
def step (actor : σ → τ) (p : Process τ κ) : Action σ τ → Option (Process τ κ)
  | .advance =>
      match p.todo with
      | [] => none
      | .create c :: is => some { p with todo := is, phase := Function.update p.phase c .up }
      | .use _ :: is => some { p with todo := is }
      | .spawn t :: is => some { p with todo := is, running := t :: p.running }
      | .join t :: is => if t ∈ p.running then none else some { p with todo := is }
      | .destroy c :: is =>
          some { p with todo := is, phase := Function.update p.phase c .destroyed }
  | .work =>
      match p.todo with
      | .use _ :: _ => some p
      | _ => none
  | .thread s => if actor s ∈ p.running then some p else none
  | .exit t =>
      if t ∈ p.running then some { p with running := p.running.filter fun u => u ≠ t } else none

def interleave (actor : σ → τ) (p : Process τ κ) (actions : List (Action σ τ)) :
    Option (Process τ κ) :=
  actions.foldlM (step actor) p

/-- The resources an action touches. -/
def accesses (touch : σ → List κ) (p : Process τ κ) : Action σ τ → List κ
  | .advance | .work =>
      match p.todo with
      | .use cs :: _ => cs
      | _ => []
  | .thread s => touch s
  | .exit _ => []

/-! ## The check -/

variable (reach : τ → List κ)

/-- The check, with the threads that may be running and the phases so far. -/
def ordered : List (Instr τ κ) → List τ → (κ → Phase) → Bool
  | [], _, _ => true
  | .create c :: is, R, phase => ordered is R (Function.update phase c .up)
  | .use cs :: is, R, phase => cs.all (fun c => phase c == .up) && ordered is R phase
  | .spawn t :: is, R, phase =>
      (reach t).all (fun c => phase c == .up) && ordered is (t :: R) phase
  | .join t :: is, R, phase => ordered is (R.filter fun u => u ≠ t) phase
  | .destroy c :: is, R, phase =>
      R.all (fun t => c ∉ reach t) && ordered is R (Function.update phase c .destroyed)

variable {reach}

/-- Fewer running threads make the check easier. -/
theorem ordered_of_subset {is : List (Instr τ κ)} {R R' : List τ} {phase : κ → Phase}
    (h : ordered reach is R phase = true) (hsub : R' ⊆ R) : ordered reach is R' phase = true := by
  induction is generalizing R R' phase with
  | nil => rfl
  | cons i is ih =>
      cases i with
      | create c => exact ih h hsub
      | use cs =>
          rw [ordered, Bool.and_eq_true] at h ⊢
          exact ⟨h.1, ih h.2 hsub⟩
      | spawn t =>
          rw [ordered, Bool.and_eq_true] at h ⊢
          exact ⟨h.1, ih h.2 (List.cons_subset_cons t hsub)⟩
      | join t =>
          refine ih (R := R.filter fun u => u ≠ t) h ?_
          intro u hu
          have hu := List.mem_filter.mp hu
          exact List.mem_filter.mpr ⟨hsub hu.1, hu.2⟩
      | destroy c =>
          rw [ordered, Bool.and_eq_true, List.all_eq_true] at h ⊢
          exact ⟨fun t ht => h.1 t (hsub ht), ih h.2 hsub⟩

/-- The rest of the instructions passes the check, and everything a running
thread reaches is up. -/
structure Process.Safe (reach : τ → List κ) (p : Process τ κ) : Prop where
  rest : ordered reach p.todo p.running p.phase = true
  up : ∀ t ∈ p.running, ∀ c ∈ reach t, p.phase c = .up

theorem start_safe {is : List (Instr τ κ)}
    (h : ordered reach is [] (fun _ => .absent) = true) :
    (Process.start is).Safe reach := by
  refine ⟨h, ?_⟩
  intro t ht
  cases ht

theorem create_safe {p : Process τ κ} (h : p.Safe reach) {c : κ} {is : List (Instr τ κ)}
    (ht : p.todo = .create c :: is) :
    ({ p with todo := is, phase := Function.update p.phase c .up } : Process τ κ).Safe
      reach := by
  have hrest := h.rest
  rw [ht, ordered] at hrest
  refine ⟨hrest, ?_⟩
  intro t hrun d hd
  by_cases hdc : d = c
  · rw [hdc]
    exact Function.update_self ..
  · exact (Function.update_of_ne hdc ..).trans (h.up t hrun d hd)

theorem spawn_safe {p : Process τ κ} (h : p.Safe reach) {t : τ} {is : List (Instr τ κ)}
    (ht : p.todo = .spawn t :: is) :
    ({ p with todo := is, running := t :: p.running } : Process τ κ).Safe reach := by
  have hrest := h.rest
  rw [ht, ordered, Bool.and_eq_true, List.all_eq_true] at hrest
  refine ⟨hrest.2, ?_⟩
  intro u hu c hc
  cases List.mem_cons.mp hu with
  | inl hut =>
      rw [hut] at hc
      exact eq_of_beq (hrest.1 c hc)
  | inr hu => exact h.up u hu c hc

theorem join_safe {p : Process τ κ} (h : p.Safe reach) {t : τ} {is : List (Instr τ κ)}
    (ht : p.todo = .join t :: is) (hgone : t ∉ p.running) :
    ({ p with todo := is } : Process τ κ).Safe reach := by
  have hrest := h.rest
  rw [ht, ordered] at hrest
  refine ⟨ordered_of_subset hrest ?_, h.up⟩
  intro u hu
  have hne : u ≠ t := fun he => hgone (he ▸ hu)
  exact List.mem_filter.mpr ⟨hu, decide_eq_true hne⟩

theorem destroy_safe {p : Process τ κ} (h : p.Safe reach) {c : κ} {is : List (Instr τ κ)}
    (ht : p.todo = .destroy c :: is) :
    ({ p with todo := is, phase := Function.update p.phase c .destroyed } : Process τ κ).Safe
      reach := by
  have hrest := h.rest
  rw [ht, ordered, Bool.and_eq_true, List.all_eq_true] at hrest
  refine ⟨hrest.2, ?_⟩
  intro t hrun d hd
  have hdc : d ≠ c := fun he => of_decide_eq_true (hrest.1 t hrun) (he ▸ hd)
  exact (Function.update_of_ne hdc ..).trans (h.up t hrun d hd)

theorem advance_safe {actor : σ → τ} {p p' : Process τ κ} (h : p.Safe reach)
    (hs : step actor p .advance = some p') : p'.Safe reach := by
  dsimp only [step] at hs
  split at hs
  · cases hs
  · next ht =>
      cases hs
      exact create_safe h ht
  · next ht =>
      cases hs
      have hrest := h.rest
      rw [ht, ordered, Bool.and_eq_true] at hrest
      exact ⟨hrest.2, h.up⟩
  · next ht =>
      cases hs
      exact spawn_safe h ht
  · next ht =>
      split at hs
      · cases hs
      · next hgone =>
          cases hs
          exact join_safe h ht hgone
  · next ht =>
      cases hs
      exact destroy_safe h ht

theorem step_safe {actor : σ → τ} {p p' : Process τ κ} (h : p.Safe reach) {a : Action σ τ}
    (hs : step actor p a = some p') : p'.Safe reach := by
  cases a with
  | advance => exact advance_safe h hs
  | work =>
      dsimp only [step] at hs
      split at hs
      · cases hs
        exact h
      · cases hs
  | thread s =>
      dsimp only [step] at hs
      split at hs
      · cases hs
        exact h
      · cases hs
  | exit t =>
      dsimp only [step] at hs
      split at hs
      · cases hs
        refine ⟨ordered_of_subset h.rest (List.filter_subset_self _), ?_⟩
        intro u hu
        exact h.up u (List.mem_of_mem_filter hu)
      · cases hs

theorem interleave_safe {actor : σ → τ} {p p' : Process τ κ} (h : p.Safe reach)
    {actions : List (Action σ τ)} (hs : interleave actor p actions = some p') :
    p'.Safe reach :=
  EventRun.foldlM_invariant (fun h hs => step_safe h hs) h hs

/-- An enabled action of a safe process touches only resources that are up, as
far as its thread touches only what the check knows about. -/
theorem accesses_up {actor : σ → τ} {touch : σ → List κ} {p p' : Process τ κ}
    (h : p.Safe reach) {a : Action σ τ} (hs : step actor p a = some p') {c : κ}
    (hc : c ∈ accesses touch p a) (hreach : ∀ s, a = .thread s → c ∈ reach (actor s)) :
    p.phase c = .up := by
  have huse : ∀ {cs is}, p.todo = .use cs :: is → c ∈ cs → p.phase c = .up := by
    intro cs is ht hmem
    have hrest := h.rest
    rw [ht, ordered, Bool.and_eq_true, List.all_eq_true] at hrest
    exact eq_of_beq (hrest.1 c hmem)
  cases a with
  | advance =>
      dsimp only [accesses] at hc
      split at hc
      · next ht => exact huse ht hc
      · cases hc
  | work =>
      dsimp only [accesses] at hc
      split at hc
      · next ht => exact huse ht hc
      · cases hc
  | thread s =>
      dsimp only [step] at hs
      split at hs
      · next hrun => exact h.up (actor s) hrun c (hreach s rfl)
      · cases hs
  | exit t => cases hc

end MaglevLb.Teardown
