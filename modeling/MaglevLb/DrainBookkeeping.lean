import MaglevLb.SlotLifecycle

/-!
# Drain bookkeeping

The last admin verb issued for a slot against the slot's flags. A recycled slot
inherits no drain, and no slot in service is left drained.
-/
namespace MaglevLb.DrainBookkeeping

open Children OrderedDict Slots Reconcile SlotMoves SlotViews SlotLifecycle

variable {Id : Type*} {N : ℕ} {exits : Proc → Moment} {i : ℕ} {v v' : Site Id}

def verbFor (i : ℕ) : Call → Option Verb
  | .admin verb k => if k = i then some verb else none
  | _ => none

/-- The last admin verb issued for backend `i`. -/
abbrev lastVerb (i : ℕ) (ex : Executor) : Option Verb := ex.lastOf (verbFor i)

theorem verbFor_of_not_concerns {c : Call} (h : ¬ Concerns i c) : verbFor i c = none := by
  cases c with
  | admin verb k => exact if_neg h
  | spawnBackend | spawnClient | send | terminate | kill | setGre => rfl

@[simp] theorem verbFor_admin (verb : Verb) : verbFor i (.admin verb i) = some verb := if_pos rfl

structure Drains (i : ℕ) (v : Site Id) : Prop where
  lifecycle : Lifecycle v.slot
  drained : v.slot.manualDrain = true ∨ v.slot.phase = .draining → lastVerb i v.ex = some .drain
  enabled : v.slot.removing = false → v.slot.manualDrain = false → lastVerb i v.ex ≠ some .drain

theorem Drains.of_eq (h : Drains i v) {ex : Executor} (he : lastVerb i ex = lastVerb i v.ex) :
    Drains i ⟨v.slot, ex⟩ :=
  ⟨h.lifecycle, fun hd => he.trans (h.drained hd), fun hr hm => he ▸ h.enabled hr hm⟩

theorem Move.drains {st : Stage} (h : Move exits i st v v') (hv : Drains i v) : Drains i v' := by
  have hlife := Move.lifecycle h hv.lifecycle
  have hbefore := hv.lifecycle
  have hd := hv.drained
  have he := hv.enabled
  cases h with
  | tick => exact hv.of_eq rfl
  | send | kill | terminate => exact hv.of_eq (Executor.lastOf_call _ _)
  | crash now ho hr hf => exact ⟨hlife, by simpa using fun h => hd (.inl h), he⟩
  | slow | errors | looked | configured => exact ⟨hlife, hd, he⟩
  | partition => exact ⟨hlife, by simpa [verbFor] using hd, by simpa [verbFor] using he⟩
  | drain => exact ⟨hlife, by simp, by simp⟩
  | undrain ho hr =>
      -- the only way to stay draining is the manual drain, which is over
      refine ⟨hlife, ?_, by simp [undrain]⟩
      rintro (hm | hp)
      · cases hm
      · dsimp only [undrain] at hp
        split at hp
        · cases hp
        · contradiction
  | startDrain => exact ⟨hlife, by simp, by simp⟩
  | startStop => exact ⟨hlife, by simp, by simp⟩
  | cancel hr hp =>
      have hm := hbefore.manual hr
      exact ⟨hlife, by simp [hm], by simp⟩
  | occupied cid cfg hf =>
      have hfresh := hbefore.fresh hf
      rw [hfresh] at he
      refine ⟨hlife, by simp [spawn, hfresh, Slot.cleared], fun _ _ => ?_⟩
      simpa [spawn, verbFor] using he rfl rfl
  | exit now hp hr => exact ⟨hlife, by simpa using fun h => hd (.inl h), he⟩
  | started hp =>
      refine ⟨hlife, ?_, he⟩
      rintro (hm | hp')
      · exact hd (.inl hm)
      · dsimp only at hp'
        split at hp'
        · next hm => exact hd (.inl hm)
        · cases hp'
  | failed hp => exact ⟨hlife, by simpa using fun h => hd (.inl h), he⟩
  | recovered hp => exact ⟨hlife, by simpa using fun h => hd (.inl h), he⟩
  | drained now hr hp => exact ⟨hlife, by simpa using fun h => hd (.inl h), he⟩
  | freed hp ha hex =>
      refine ⟨hlife, by simp [Slot.cleared], fun _ _ => ?_⟩
      rcases hex with ⟨rfl, -⟩ | ⟨rfl, -⟩ <;> simp [verbFor]

theorem Cleared.drains [DecidableEq Id] {want : Dict Id (BackendNode Id)}
    (h : Cleared want i v v') (ho : v.slot.owner ≠ none) (hr : v.slot.removing = false)
    (hv : Drains i v) : Drains i v' := by
  have hlife := Cleared.lifecycle h ho hr hv.lifecycle
  have hd := hv.drained
  have he := hv.enabled
  cases h with
  | nothing => exact hv
  | respawned t hf hb =>
      exact ⟨hlife, by simpa [spawn, verbFor] using fun h => hd (.inl h),
        by simpa [spawn, verbFor] using he⟩
  | healed t hf hp =>
      exact ⟨hlife, by simpa [verbFor] using hd, by simpa [verbFor] using he⟩
  | forgotten hp hex =>
      rcases hex with rfl | rfl
      · exact ⟨hlife, hd, he⟩
      · exact ⟨hlife, by simpa [verbFor] using hd, by simpa [verbFor] using he⟩

theorem Drains.elsewhere (h : Drains i v) {ex : Executor} (he : Elsewhere i v.ex ex) :
    Drains i ⟨v.slot, ex⟩ :=
  h.of_eq (he.lastOf_eq fun _ => verbFor_of_not_concerns)

theorem init_drains (i : Fin N) :
    Drains i ⟨(Reconciler.init Id N).slots i, (Reconciler.init Id N).ex⟩ :=
  ⟨cleared_lifecycle, by simp [Reconciler.init, Slot.cleared], fun _ _ h => by cases h⟩

theorem Drains.run [LinearOrder Id] {r r' : Reconciler Id N} {es : List (Event Id)}
    (hr : ∀ i : Fin N, Drains i ⟨r.slots i, r.ex⟩) (h : run exits r es = some r') :
    ∀ i : Fin N, Drains i ⟨r'.slots i, r'.ex⟩ :=
  run_slots Move.drains Cleared.drains (fun he hv => hv.elsewhere he) (fun hv => hv.of_eq rfl) hr h

/-- After every run: a slot that is drained by hand or draining was last sent
DRAIN, one that is neither being removed nor drained by hand was not, and a
free slot was last sent UNDRAIN or nothing. -/
theorem drain_bookkeeping [LinearOrder Id] (exits : Proc → Moment) (es : List (Event Id)) :
    ∃ r, run exits (Reconciler.init Id N) es = some r ∧ ∀ i : Fin N,
      ((r.slots i).manualDrain = true ∨ (r.slots i).phase = .draining →
        lastVerb i r.ex = some .drain) ∧
      ((r.slots i).removing = false → (r.slots i).manualDrain = false →
        lastVerb i r.ex ≠ some .drain) ∧
      ((r.slots i).phase = .free → lastVerb i r.ex = some .undrain ∨ lastVerb i r.ex = none) := by
  obtain ⟨r, hr⟩ := run_exists Id N exits es
  refine ⟨r, hr, fun i => ?_⟩
  have hi := Drains.run init_drains hr i
  refine ⟨hi.drained, hi.enabled, fun hp => ?_⟩
  have hfresh := hi.lifecycle.fresh hp
  have hlast : lastVerb i r.ex ≠ some .drain := by
    apply hi.enabled
    · rw [hfresh]
      rfl
    · rw [hfresh]
      rfl
  cases h : lastVerb i r.ex with
  | none => exact .inr rfl
  | some verb =>
      cases verb with
      | drain => contradiction
      | undrain => exact .inl rfl

end MaglevLb.DrainBookkeeping
