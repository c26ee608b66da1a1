import MaglevLb.SlotLifecycle

/-!
# Partition faults

The last `set_gre` command for a slot against the slot's `partitioned` flag and
its fault. A backend placed in a recycled slot finds the link up.
-/
namespace MaglevLb.PartitionFaults

open Children OrderedDict Slots Reconcile SlotMoves SlotViews SlotLifecycle

variable {Id : Type*} {N : ℕ} {exits : Proc → Moment} {i : ℕ} {v v' : Site Id}

def greFor (i : ℕ) : Call → Option Bool
  | .setGre n up => if n = i + 1 then some up else none
  | _ => none

/-- The last state commanded for the GRE link of the slot with maglev-lb id `i`. -/
abbrev lastGre (i : ℕ) (ex : Executor) : Option Bool := ex.lastOf (greFor i)

/-- Every link is up at the start. -/
def linkUp (i : ℕ) (ex : Executor) : Bool := (lastGre i ex).getD true

theorem greFor_of_not_concerns {c : Call} (h : ¬ Concerns i c) : greFor i c = none := by
  cases c with
  | setGre n up => exact if_neg h
  | spawnBackend | spawnClient | send | terminate | kill | admin => rfl

@[simp] theorem greFor_setGre (up : Bool) : greFor i (.setGre (i + 1) up) = some up := if_pos rfl

structure Links (i : ℕ) (v : Site Id) : Prop where
  lifecycle : Lifecycle v.slot
  link : lastGre i v.ex = some false ↔ v.slot.partitioned = true
  fault : v.slot.partitioned = true → ∃ t, v.slot.fault = some (.partition t)

theorem Links.of_eq (h : Links i v) {ex : Executor} (he : lastGre i ex = lastGre i v.ex) :
    Links i ⟨v.slot, ex⟩ :=
  ⟨h.lifecycle, he ▸ h.link, h.fault⟩

/-- Without a fault the link is up. -/
theorem Links.not_partitioned (h : Links i v) (hf : v.slot.fault = none) :
    v.slot.partitioned = false := by
  by_contra hp
  obtain ⟨t, ht⟩ := h.fault (by simpa using hp)
  rw [hf] at ht
  cases ht

theorem Move.links {st : Stage} (h : Move exits i st v v') (hv : Links i v) : Links i v' := by
  have hlife := Move.lifecycle h hv.lifecycle
  have hbefore := hv.lifecycle
  have hl := hv.link
  have hf := hv.fault
  have hnone := hv.not_partitioned
  cases h with
  | tick => exact hv.of_eq rfl
  | send | kill | terminate => exact hv.of_eq (Executor.lastOf_call _ _)
  | crash now ho hr hfault => exact ⟨hlife, hl, by simp [hnone hfault]⟩
  | slow now factor ho hfault => exact ⟨hlife, hl, by simp [hnone hfault]⟩
  | errors now rate ho hfault => exact ⟨hlife, hl, by simp [hnone hfault]⟩
  | partition now ho hfault => exact ⟨hlife, by simp, fun _ => ⟨now, rfl⟩⟩
  | drain | startDrain | cancel =>
      exact ⟨hlife, by simpa [greFor] using hl, hf⟩
  | undrain => exact ⟨hlife, by simpa [undrain, greFor] using hl, hf⟩
  | startStop | started | failed | recovered | looked | drained | configured =>
      exact ⟨hlife, hl, hf⟩
  | occupied cid cfg hfree =>
      have hfresh := hbefore.fresh hfree
      rw [hfresh] at hl
      refine ⟨hlife, ?_, ?_⟩
      · simpa [spawn, greFor, hfresh] using hl
      · simp [spawn, hfresh, Slot.cleared]
  | exit now hp hr =>
      refine ⟨hlife, hl, fun hpart => ?_⟩
      obtain ⟨t, ht⟩ := hf hpart
      exact ⟨t, by simp [ht]⟩
  | freed hp ha hex =>
      refine ⟨hlife, ?_, by simp [Slot.cleared]⟩
      rcases hex with ⟨rfl, hpart⟩ | ⟨rfl, -⟩
      · simpa [greFor, Slot.cleared, hpart] using hl
      · simp [Slot.cleared]

theorem Cleared.links [DecidableEq Id] {want : Dict Id (BackendNode Id)}
    (h : Cleared want i v v') (ho : v.slot.owner ≠ none) (hr : v.slot.removing = false)
    (hv : Links i v) : Links i v' := by
  have hlife := Cleared.lifecycle h ho hr hv.lifecycle
  have hl := hv.link
  have hf := hv.fault
  cases h with
  | nothing => exact hv
  | respawned t hfault hb =>
      have hpart : v.slot.partitioned = false := by
        by_contra hp
        obtain ⟨t', ht'⟩ := hf (by simpa using hp)
        rw [hfault] at ht'
        cases ht'
      refine ⟨hlife, ?_, ?_⟩
      · simpa [spawn, greFor] using hl
      · simp [spawn, hpart]
  | healed t hfault hp => exact ⟨hlife, by simp, by simp⟩
  | forgotten hp hex =>
      have hpart : v.slot.partitioned = false := by
        by_contra hp'
        obtain ⟨t, ht⟩ := hf (by simpa using hp')
        exact hp' (hp t ht)
      refine ⟨hlife, ?_, by simp [hpart]⟩
      rcases hex with rfl | rfl
      · exact hl
      · simpa [greFor] using hl

theorem Links.elsewhere (h : Links i v) {ex : Executor} (he : Elsewhere i v.ex ex) :
    Links i ⟨v.slot, ex⟩ :=
  h.of_eq (he.lastOf_eq fun _ => greFor_of_not_concerns)

theorem init_links (i : Fin N) :
    Links i ⟨(Reconciler.init Id N).slots i, (Reconciler.init Id N).ex⟩ :=
  ⟨cleared_lifecycle, by simp [Reconciler.init, Slot.cleared, Executor.init, Executor.lastOf],
    by simp [Reconciler.init, Slot.cleared]⟩

theorem run_links [LinearOrder Id] {r : Reconciler Id N} {es : List (Event Id)}
    (h : run exits (Reconciler.init Id N) es = some r) (i : Fin N) : Links i ⟨r.slots i, r.ex⟩ :=
  run_slots Move.links Cleared.links (fun he hv => hv.elsewhere he) (fun hv => hv.of_eq rfl)
    init_links h i

/-- After every run: the last link command of a slot was `down` exactly if the
slot is marked partitioned, its fault is then a partition, and the link of a
free slot is up. -/
theorem partition_faults [LinearOrder Id] (exits : Proc → Moment) (es : List (Event Id)) :
    ∃ r, run exits (Reconciler.init Id N) es = some r ∧ ∀ i : Fin N,
      (lastGre i r.ex = some false ↔ (r.slots i).partitioned = true) ∧
      ((r.slots i).partitioned = true → ∃ t, (r.slots i).fault = some (.partition t)) ∧
      ((r.slots i).phase = .free → linkUp i r.ex = true) := by
  obtain ⟨r, hr⟩ := run_exists Id N exits es
  refine ⟨r, hr, fun i => ?_⟩
  have hi := run_links hr i
  refine ⟨hi.link, hi.fault, fun hp => ?_⟩
  have hdown : lastGre i r.ex ≠ some false := by
    intro hlast
    have hpart := hi.link.mp hlast
    rw [hi.lifecycle.fresh hp] at hpart
    cases hpart
  unfold linkUp
  cases h : lastGre i r.ex with
  | none => rfl
  | some up =>
      cases up with
      | false => contradiction
      | true => rfl

end MaglevLb.PartitionFaults
