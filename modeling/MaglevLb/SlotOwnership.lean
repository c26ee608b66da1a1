import MaglevLb.SlotLifecycle
import Mathlib.Data.String.Basic

/-!
# Slot ownership

No canvas id owns two slots. After a step every attached backend has a slot or
waits for one, except a backend whose old slot, still stopping, was freed in that
very step: it is placed on a later tick.
-/
namespace MaglevLb.SlotOwnership

open Children OrderedDict Slots Reconcile SlotMoves SlotViews SlotLifecycle

variable {Id : Type*} {N : ℕ} {exits : Proc → Moment} {now : ℚ}

/-! ### Owners during a visit -/

section Visits

variable {i : ℕ} {st : Stage} {v v' : Site Id}

/-- Outside additions a slot changes hands only by being freed. -/
theorem Move.owner (h : Move exits i st v v') (hst : st ≠ .addition) :
    v'.slot.owner = v.slot.owner ∨
      st = .progress ∧ v.slot.phase = .stopping ∧ v'.slot.owner = none := by
  cases h with
  | occupied => contradiction
  | freed hp => exact .inr ⟨rfl, hp, rfl⟩
  | _ => exact .inl rfl

theorem Path.owner_eq (h : Path exits i st v v') (hst : st = .action ∨ st = .removal) :
    v'.slot.owner = v.slot.owner := by
  induction h with
  | refl => rfl
  | tail _ hm ih =>
      rcases Move.owner hm (by rintro rfl; simp at hst) with ho | ⟨rfl, -⟩
      · exact ho.trans ih
      · simp at hst

theorem Path.owner_or (h : Path exits i .progress v v') :
    v'.slot.owner = v.slot.owner ∨ v'.slot.owner = none := by
  induction h with
  | refl => exact .inl rfl
  | tail _ hm ih =>
      rcases Move.owner hm (by simp) with ho | ⟨-, -, hn⟩
      · rwa [ho]
      · exact .inr hn

/-- Progress does not take a slot in service from its owner. -/
theorem Path.inService (h : Path exits i .progress v v') (hr : v.slot.removing = false)
    (hp : v.slot.phase ≠ .stopping) :
    v'.slot.owner = v.slot.owner ∧ v'.slot.removing = false ∧ v'.slot.phase ≠ .stopping := by
  induction h with
  | refl => exact ⟨rfl, hr, hp⟩
  | tail _ hm ih =>
      rw [← ih.1]
      obtain ⟨-, hr', hp'⟩ := ih
      cases hm with
      | tick | send | kill | terminate => exact ⟨rfl, hr', hp'⟩
      | exit => exact ⟨rfl, hr', by simp⟩
      | started => exact ⟨rfl, hr', by dsimp only; split <;> simp⟩
      | failed | recovered => exact ⟨rfl, hr', by simp⟩
      | looked _ hrem => exact absurd hrem (by simp [hr'])
      | drained _ hrem => exact absurd hrem (by simp [hr'])
      | freed hstop => exact absurd hstop hp'
      | configured => exact ⟨rfl, hr', hp'⟩

variable [DecidableEq Id] {want : Dict Id (BackendNode Id)}

/-- The removal loop puts an attached backend back in service unless its slot is stopping. -/
theorem removal_inService {cid : Id} (hl : Lifecycle v.slot) (ho : v.slot.owner = some cid)
    (hactive : isActive want cid = true) (hp : v.slot.phase ≠ .stopping) :
    (removal exits now i want v).slot.removing = false ∧
      (removal exits now i want v).slot.phase ≠ .stopping := by
  have hcases := hl.removing
  simp only [removal, ho, hactive]
  by_cases hr : v.slot.removing = true
  · have hd : v.slot.phase = .draining := (hcases hr).resolve_right hp
    simp [hr, hd]
  · simp [hr, hp]

theorem removal_owner : (removal exits now i want v).slot.owner = v.slot.owner := by
  have hpath : Path exits i .removal v (removal exits now i want v) := removal_path
  exact Path.owner_eq hpath (.inr rfl)

theorem perform_owner {kind : ActionKind} (ho : v.slot.owner ≠ none)
    (hr : v.slot.removing = false) :
    (perform exits now i want kind v).slot.owner = v.slot.owner := by
  have hpath : Path exits i .action (if clears kind then clearFault i want v else v)
      (perform exits now i want kind v) := perform_path ho hr
  rw [Path.owner_eq hpath (.inl rfl)]
  split
  · exact clearFault_cleared.owner
  · rfl

theorem resetSlot_owner : (resetSlot exits i want v).slot.owner = v.slot.owner := by
  by_cases hskip : v.slot.owner = none ∨ v.slot.removing = true
  · rw [resetSlot, if_pos hskip]
  · rw [not_or, Bool.not_eq_true] at hskip
    have hpath : Path exits i .action (clearFault i want v) (resetSlot exits i want v) :=
      resetSlot_path hskip.1 hskip.2
    rw [Path.owner_eq hpath (.inl rfl), clearFault_cleared.owner]

end Visits

/-! ### No id owns two slots -/

section Owners

variable {r r' : Reconciler Id N}

def Distinct (r : Reconciler Id N) : Prop :=
  ∀ ⦃i j cid⦄, (r.slots i).owner = some cid → (r.slots j).owner = some cid → i = j

theorem Distinct.of_le (h : Distinct r)
    (hle : ∀ i, (r'.slots i).owner = (r.slots i).owner ∨ (r'.slots i).owner = none) :
    Distinct r' := by
  intro i j cid hi hj
  have hi' := (hle i).resolve_right (by simp [hi])
  have hj' := (hle j).resolve_right (by simp [hj])
  exact h (hi'.symm.trans hi) (hj'.symm.trans hj)

variable [LinearOrder Id]

theorem slotOf_eq_none {cid : Id} (h : (r.slotOf cid).isSome = false) (i : Fin N) :
    (r.slots i).owner ≠ some cid := by
  rw [Option.isSome_eq_false_iff, Option.isNone_iff_eq_none] at h
  simpa using List.find?_eq_none.mp h i (List.mem_finRange i)

theorem slotOf_isNone {cid : Id} :
    (r.slotOf cid).isNone = true ↔ ∀ i, (r.slots i).owner ≠ some cid := by
  constructor
  · intro h
    exact slotOf_eq_none (by simpa using h)
  · intro h
    rw [Option.isNone_iff_eq_none, Reconciler.slotOf, List.find?_eq_none]
    intro i _
    simpa using h i

theorem slotOf_isSome {cid : Id} (h : (r.slotOf cid).isSome = true) :
    ∃ i, (r.slots i).owner = some cid := by
  obtain ⟨i, hi⟩ := Option.isSome_iff_exists.mp h
  exact ⟨i, by simpa using List.find?_some hi⟩

theorem slotOf_eq_some {cid : Id} {i : Fin N} (hd : Distinct r)
    (ho : (r.slots i).owner = some cid) :
    r.slotOf cid = some i := by
  cases h : r.slotOf cid with
  | none => exact absurd ho (slotOf_eq_none (by rw [h]; rfl) i)
  | some k =>
      have hk : (r.slots k).owner = some cid := by simpa using List.find?_some h
      rw [hd hk ho]

theorem slotFor_eq_none {cid : Id} (h : r.slotFor cid = none) (i : Fin N) :
    (r.slots i).phase ≠ .free := by
  unfold Reconciler.slotFor at h
  split at h
  · cases h
  · simpa [Reconciler.isFree] using List.find?_eq_none.mp h i (List.mem_finRange i)

/-- What one addition does with an id that has no slot. -/
theorem addition_cases (r : Reconciler Id N) (e : Id × BackendNode Id) :
    (∃ i, (r.slots i).owner = some e.1) ∧ r.addition e = r ∨
    (∀ i, (r.slots i).owner ≠ some e.1) ∧ (∀ i, (r.slots i).phase ≠ .free) ∧
      r.addition e = { r with pending := insert e.1 r.pending } ∨
    (∀ i, (r.slots i).owner ≠ some e.1) ∧ ∃ k, (r.slots k).phase = .free ∧
      r.addition e = { r.put k (spawn k e.2.config ⟨{ r.slots k with owner := some e.1 }, r.ex⟩)
        with slotMemory := r.slotMemory.set e.1 k } := by
  unfold Reconciler.addition
  split
  · next h => exact .inl ⟨slotOf_isSome h, rfl⟩
  · next h =>
      rw [Bool.not_eq_true] at h
      split
      · next hf => exact .inr (.inl ⟨slotOf_eq_none h, slotFor_eq_none hf, rfl⟩)
      · next k hk => exact .inr (.inr ⟨slotOf_eq_none h, k, slotFor_free hk, rfl⟩)

omit [LinearOrder Id] in
theorem put_owner {cid : Id} {k : Fin N} {w : Site Id} (hw : w.slot.owner = some cid)
    (i : Fin N) :
    ((r.put k w).slots i).owner = if i = k then some cid else (r.slots i).owner := by
  split
  · next h =>
      subst h
      rw [put_self, hw]
  · next h => rw [put_of_ne h]

/-- The owners after an addition that placed its id on slot `k`. -/
theorem addition_put_owner {e : Id × BackendNode Id} {k : Fin N} {memory : Dict Id (Fin N)}
    (he : r.addition e = { r.put k (spawn k e.2.config ⟨{ r.slots k with owner := some e.1 }, r.ex⟩)
      with slotMemory := memory }) (i : Fin N) :
    ((r.addition e).slots i).owner = if i = k then some e.1 else (r.slots i).owner := by
  rw [he]
  exact put_owner rfl i

theorem addition_distinct (h : Distinct r) (e : Id × BackendNode Id) :
    Distinct (r.addition e) := by
  rcases addition_cases r e with ⟨-, he⟩ | ⟨-, -, he⟩ | ⟨hnew, k, -, he⟩
  · rwa [he]
  · rwa [he]
  · intro i j cid hi hj
    rw [addition_put_owner he] at hi hj
    split at hi
    · next hik =>
        split at hj
        · next hjk => rw [hik, hjk]
        · cases hi
          exact absurd hj (hnew j)
    · split at hj
      · cases hj
        exact absurd hi (hnew i)
      · exact h hi hj

theorem foldl_addition_distinct (h : Distinct r) (l : List (Id × BackendNode Id)) :
    Distinct (l.foldl Reconciler.addition r) := by
  induction l generalizing r with
  | nil => exact h
  | cons e l ih => exact ih (addition_distinct h e)

theorem addition_lifecycle (h : ∀ i, Lifecycle (r.slots i)) (e : Id × BackendNode Id) (i : Fin N) :
    Lifecycle ((r.addition e).slots i) := by
  have htrail : Trail (fun _ => toLex (0, 0)) i ⟨r.slots i, r.ex⟩
      ⟨(r.addition e).slots i, (r.addition e).ex⟩ := addition_added.trail
  have hkeep := Trail.lifecycle htrail
  exact hkeep (h i)

/-- Additions leave a slot that has an owner alone. -/
theorem addition_owner (h : ∀ i, Lifecycle (r.slots i)) (e : Id × BackendNode Id) {i : Fin N}
    (ho : (r.slots i).owner ≠ none) : (r.addition e).slots i = r.slots i := by
  have hadded : Added i ⟨r.slots i, r.ex⟩ ⟨(r.addition e).slots i, (r.addition e).ex⟩ :=
    addition_added
  cases hadded with
  | kept hs => exact hs
  | taken _ _ _ hf => exact absurd ((h i).owner_iff.mpr hf) ho

theorem foldl_addition_owner (h : ∀ i, Lifecycle (r.slots i)) (l : List (Id × BackendNode Id))
    {i : Fin N} (ho : (r.slots i).owner ≠ none) :
    (l.foldl Reconciler.addition r).slots i = r.slots i := by
  induction l generalizing r with
  | nil => rfl
  | cons e l ih =>
      have hstays := addition_owner h e ho
      rw [List.foldl_cons, ih (addition_lifecycle h e) (by rwa [hstays]), hstays]

/-- The id has a slot or waits for one. -/
def Served (r : Reconciler Id N) (cid : Id) : Prop :=
  (∃ i, (r.slots i).owner = some cid) ∨ cid ∈ r.pending

theorem addition_pending (r : Reconciler Id N) (e : Id × BackendNode Id) :
    r.pending ⊆ (r.addition e).pending := by
  rcases addition_cases r e with ⟨-, he⟩ | ⟨-, -, he⟩ | ⟨-, k, -, he⟩
  · rw [he]
  · rw [he]
    exact Finset.subset_insert _ _
  · rw [he]
    exact subset_rfl

theorem addition_serves (r : Reconciler Id N) (e : Id × BackendNode Id) :
    Served (r.addition e) e.1 := by
  rcases addition_cases r e with ⟨ho, he⟩ | ⟨-, -, he⟩ | ⟨-, k, -, he⟩
  · rw [he]
    exact .inl ho
  · rw [he]
    exact .inr (Finset.mem_insert_self _ _)
  · rw [he]
    exact .inl ⟨k, by rw [put_self]; rfl⟩

theorem Served.addition {cid : Id} (hs : Served r cid) (h : ∀ i, Lifecycle (r.slots i))
    (e : Id × BackendNode Id) : Served (r.addition e) cid := by
  rcases hs with ⟨i, hi⟩ | hp
  · exact .inl ⟨i, by rw [addition_owner h e (by simp [hi]), hi]⟩
  · exact .inr (addition_pending r e hp)

theorem Served.foldl_addition {cid : Id} {l : List (Id × BackendNode Id)} (hs : Served r cid)
    (h : ∀ i, Lifecycle (r.slots i)) : Served (l.foldl Reconciler.addition r) cid := by
  induction l generalizing r with
  | nil => exact hs
  | cons e l ih => exact ih (hs.addition h e) (addition_lifecycle h e)

theorem foldl_addition_lifecycle (h : ∀ i, Lifecycle (r.slots i))
    (l : List (Id × BackendNode Id)) (i : Fin N) :
    Lifecycle ((l.foldl Reconciler.addition r).slots i) := by
  induction l generalizing r with
  | nil => exact h i
  | cons e l ih => exact ih (addition_lifecycle h e)

/-- Every id of the loop has a slot or waits afterwards. -/
theorem foldl_addition_serves (h : ∀ i, Lifecycle (r.slots i)) {l : List (Id × BackendNode Id)}
    {e : Id × BackendNode Id} (he : e ∈ l) : Served (l.foldl Reconciler.addition r) e.1 := by
  induction l generalizing r with
  | nil => cases he
  | cons e' l ih =>
      rcases List.mem_cons.mp he with rfl | hl
      · exact (addition_serves r e).foldl_addition (addition_lifecycle h e)
      · exact ih (addition_lifecycle h e') hl

/-- An id is made to wait only when no slot is free at its turn. -/
theorem foldl_addition_pending {l : List (Id × BackendNode Id)} {cid : Id}
    (hc : cid ∈ (l.foldl Reconciler.addition r).pending) :
    cid ∈ r.pending ∨ ∃ done b rest, l = done ++ (cid, b) :: rest ∧
      ∀ i, ((done.foldl Reconciler.addition r).slots i).phase ≠ .free := by
  induction l using List.reverseRecOn with
  | nil => exact .inl hc
  | append_singleton l e ih =>
      rw [List.foldl_concat] at hc
      have hbefore (hc : cid ∈ (l.foldl Reconciler.addition r).pending) :
          cid ∈ r.pending ∨ ∃ done b rest, l ++ [e] = done ++ (cid, b) :: rest ∧
            ∀ i, ((done.foldl Reconciler.addition r).slots i).phase ≠ .free := by
        rcases ih hc with hc | ⟨done, b, rest, rfl, hfull⟩
        · exact .inl hc
        · exact .inr ⟨done, b, rest ++ [e], by simp, hfull⟩
      rcases addition_cases (l.foldl Reconciler.addition r) e with
        ⟨-, he⟩ | ⟨-, hfull, he⟩ | ⟨-, k, -, he⟩
      · exact hbefore (he ▸ hc)
      · rw [he, Finset.mem_insert] at hc
        rcases hc with rfl | hc
        · exact .inr ⟨l, e.2, [], rfl, hfull⟩
        · exact hbefore hc
      · rw [he] at hc
        exact hbefore hc

/-- When the loop is done, an id waits only if it has no slot and no slot is free. -/
theorem foldl_addition_outcome (hl : ∀ i, Lifecycle (r.slots i)) (l : List (Id × BackendNode Id)) :
    (∀ cid ∈ (l.foldl Reconciler.addition r).pending, cid ∈ r.pending ∨
      (∃ b, (cid, b) ∈ l) ∧ (∀ i, ((l.foldl Reconciler.addition r).slots i).owner ≠ some cid) ∧
        ∀ i, ((l.foldl Reconciler.addition r).slots i).phase ≠ .free) ∧
    ∀ e ∈ l, (∃ i, ((l.foldl Reconciler.addition r).slots i).owner = some e.1) ∨
      e.1 ∈ (l.foldl Reconciler.addition r).pending ∧
        ∀ i, ((l.foldl Reconciler.addition r).slots i).phase ≠ .free := by
  induction l using List.reverseRecOn with
  | nil => exact ⟨fun cid hc => .inl hc, fun e he => by cases he⟩
  | append_singleton l e ih =>
      obtain ⟨hwaits, hplaced⟩ := ih
      have hls : ∀ i, Lifecycle ((l.foldl Reconciler.addition r).slots i) :=
        foldl_addition_lifecycle hl l
      rw [List.foldl_concat]
      generalize l.foldl Reconciler.addition r = s at hwaits hplaced hls
      have hmem {cid : Id} (h : ∃ b, (cid, b) ∈ l) : ∃ b, (cid, b) ∈ l ++ [e] :=
        h.imp fun _ hb => List.mem_append_left _ hb
      rcases addition_cases s e with ⟨ho, he⟩ | ⟨hnew, hfull, he⟩ | ⟨hnew, k, hk, he⟩
      · rw [he]
        refine ⟨fun cid hc => (hwaits cid hc).imp_right fun h => ⟨hmem h.1, h.2⟩, fun e' he' => ?_⟩
        rcases List.mem_append.mp he' with he' | he'
        · exact hplaced e' he'
        · cases List.mem_singleton.mp he'
          exact .inl ho
      · rw [he]
        refine ⟨fun cid hc => ?_, fun e' he' => ?_⟩
        · rcases Finset.mem_insert.mp hc with rfl | hc
          · exact .inr ⟨⟨e.2, by simp⟩, hnew, hfull⟩
          · exact (hwaits cid hc).imp_right fun h => ⟨hmem h.1, h.2⟩
        · rcases List.mem_append.mp he' with he' | he'
          · exact (hplaced e' he').imp_right fun h => ⟨Finset.mem_insert_of_mem h.1, h.2⟩
          · cases List.mem_singleton.mp he'
            exact .inr ⟨Finset.mem_insert_self _ _, hfull⟩
      · -- a slot is free, so nobody waits yet
        refine ⟨fun cid hc => ?_, fun e' he' => ?_⟩
        · rw [he] at hc
          exact .inl ((hwaits cid hc).resolve_right fun h => h.2.2 k hk)
        · rcases List.mem_append.mp he' with he' | he'
          · obtain ⟨i, hi⟩ := (hplaced e' he').resolve_right fun h => h.2 k hk
            exact .inl ⟨i, by rw [addition_owner hls e (by simp [hi]), hi]⟩
          · cases List.mem_singleton.mp he'
            exact .inl ⟨k, by rw [he, put_self]; rfl⟩

end Owners

/-! ### Events -/

section Events

variable [LinearOrder Id] {r r' : Reconciler Id N} {lb : Dict ℕ Observation}
  {latest : Proc → Option Stats}

theorem removals_owner {r₁ : Reconciler Id N}
    (h : (Reconciler.stepClients exits r).forSlots
      (fun i v => some (removal exits now i r.desiredBackends v)) = some r₁) (i : Fin N) :
    ∃ ex, r₁.slots i = (removal exits now i r.desiredBackends ⟨r.slots i, ex⟩).slot := by
  have hclients : ClientWork r (Reconciler.stepClients exits r) := stepClients_work
  obtain ⟨ex, w, -, hw, hslot, -⟩ := forSlots_view removal_visit h i
  cases hw
  exact ⟨ex, by rw [hslot, hclients.slots_eq]⟩

theorem removals_owner_eq {r₁ : Reconciler Id N}
    (h : (Reconciler.stepClients exits r).forSlots
      (fun i v => some (removal exits now i r.desiredBackends v)) = some r₁) (i : Fin N) :
    (r₁.slots i).owner = (r.slots i).owner := by
  obtain ⟨ex, hslot⟩ := removals_owner h i
  rw [hslot, removal_owner]

theorem removals_lifecycle {r₁ : Reconciler Id N} (hl : ∀ i, Lifecycle (r.slots i))
    (h : (Reconciler.stepClients exits r).forSlots
      (fun i v => some (removal exits now i r.desiredBackends v)) = some r₁) (i : Fin N) :
    Lifecycle (r₁.slots i) := by
  obtain ⟨ex, hslot⟩ := removals_owner h i
  rw [hslot]
  exact removal_lifecycle (hl i)

/-- The last loop of a step gives no slot a new owner. -/
theorem progress_owner_or {r₁ : Reconciler Id N} {want : Dict Id (BackendNode Id)}
    (h : r₁.forSlots (fun i v => progress exits now i want lb latest v) = some r') (i : Fin N) :
    (r'.slots i).owner = (r₁.slots i).owner ∨ (r'.slots i).owner = none := by
  obtain ⟨ex, w, -, hw, hslot, -⟩ :=
    forSlots_view (fun hv => Path.tends (progress_path hv)) h i
  rw [hslot]
  exact Path.owner_or (progress_path hw)

theorem step_distinct (h : r.step exits now lb latest = some r') (hd : Distinct r) :
    Distinct r' := by
  obtain ⟨r₁, hremoval, hprogress⟩ := step_loops h
  have hd₁ : Distinct r₁ := hd.of_le fun i => .inl (removals_owner_eq hremoval i)
  have hd₂ : Distinct (Reconciler.additions r.desiredBackends r₁) :=
    foldl_addition_distinct (r := { r₁ with pending := ∅ }) hd₁ _
  exact hd₂.of_le (progress_owner_or hprogress)

theorem action_owner {target : Id} {kind : ActionKind}
    (h : r.action exits now target kind = .ok r') (i : Fin N) :
    (r'.slots i).owner = (r.slots i).owner := by
  obtain ⟨k, ho, hr, rfl⟩ := action_ok h
  by_cases hi : i = k
  · subst hi
    rw [put_self, perform_owner (by simp [ho]) hr]
  · rw [put_of_ne hi]

theorem action_distinct {target : Id} {kind : ActionKind} (hd : Distinct r)
    (h : r.action exits now target kind = .ok r') : Distinct r' :=
  hd.of_le fun i => .inl (action_owner h i)

theorem apply_distinct {e : Event Id} (hd : Distinct r) (h : apply exits r e = some r') :
    Distinct r' := by
  cases e with
  | setDesired | suppressLoad =>
      cases h
      exact hd
  | action target kind now =>
      rcases apply_action h with hok | rfl
      · exact action_distinct (r := { r with ex := r.ex.nextTurn }) hd hok
      · exact hd
  | reset now =>
      refine hd.of_le fun i => .inl ?_
      obtain ⟨ex, -, hslot, -⟩ := reset_view (r := { r with ex := r.ex.nextTurn }) h i
      rw [hslot, resetSlot_owner]
  | step now lb latest => exact step_distinct h hd

theorem run_distinct {es : List (Event Id)} (h : run exits (Reconciler.init Id N) es = some r) :
    Distinct r :=
  EventRun.foldlM_invariant (P := Distinct) apply_distinct (fun _ _ _ hi => by cases hi) h

/-- An owner that is attached keeps its slot, unless the slot was still stopping. -/
theorem step_keeps {r₁ : Reconciler Id N} (hl : ∀ i, Lifecycle (r.slots i)) {i : Fin N} {cid : Id}
    (hactive : isActive r.desiredBackends cid = true)
    (hremoval : (Reconciler.stepClients exits r).forSlots
      (fun i v => some (removal exits now i r.desiredBackends v)) = some r₁)
    (hprogress : (Reconciler.additions r.desiredBackends r₁).forSlots
      (fun i v => progress exits now i r.desiredBackends lb latest v) = some r')
    (ho : ((Reconciler.additions r.desiredBackends r₁).slots i).owner = some cid) :
    (r'.slots i).owner = some cid ∨ (r.slots i).owner = some cid ∧
      (r.slots i).phase = .stopping ∧ (r'.slots i).owner = none := by
  obtain ⟨ex, hslot₁⟩ := removals_owner hremoval i
  obtain ⟨ex₃, w, -, hw, hslot, -⟩ :=
    forSlots_view (fun hv => Path.tends (progress_path hv)) hprogress i
  have hpath : Path exits i .progress
      ⟨(Reconciler.additions r.desiredBackends r₁).slots i, ex₃⟩ w := progress_path hw
  have hadded : Added i ⟨r₁.slots i, r₁.ex⟩
      ⟨(Reconciler.additions r.desiredBackends r₁).slots i,
        (Reconciler.additions r.desiredBackends r₁).ex⟩ := additions_added
  rw [hslot]
  cases hadded with
  | kept hs _ =>
      dsimp only at hs
      rw [hs] at ho hpath
      have hor : (r.slots i).owner = some cid := by
        rwa [hslot₁, removal_owner] at ho
      by_cases hp : (r.slots i).phase = .stopping
      · rcases Path.owner_or hpath with hkeep | hnone
        · exact .inl (hkeep.trans ho)
        · exact .inr ⟨hor, hp, hnone⟩
      · have hserv : (r₁.slots i).removing = false ∧ (r₁.slots i).phase ≠ .stopping := by
          rw [hslot₁]
          exact removal_inService (hl i) hor hactive hp
        exact .inl ((Path.inService hpath hserv.1 hserv.2).1.trans ho)
  | taken cid' cfg ex' hf _ hs _ =>
      -- a slot taken in this step is starting, so it is not freed in it
      have hl₁ : Lifecycle (r₁.slots i) := removals_lifecycle hl hremoval i
      have hr : (r₁.slots i).removing = false := by
        rw [hl₁.fresh hf]
        rfl
      dsimp only at hs
      rw [hs] at ho hpath
      exact .inl ((Path.inService hpath hr (by simp [spawn])).1.trans ho)

theorem mem_sortedActive {want : Dict Id (BackendNode Id)} {cid : Id}
    (h : isActive want cid = true) : ∃ b, (cid, b) ∈ Reconciler.sortedActive want := by
  obtain ⟨b, hb, hatt⟩ := (Option.any_eq_true _ _).mp h
  refine ⟨b, ?_⟩
  rw [Reconciler.sortedActive, List.mem_insertionSort, List.mem_filter]
  exact ⟨Dict.get?_eq_some.mp hb, hatt⟩

theorem isActive_of_mem {want : Dict Id (BackendNode Id)} {e : Id × BackendNode Id}
    (h : e ∈ Reconciler.sortedActive want) : isActive want e.1 = true := by
  rw [Reconciler.sortedActive, List.mem_insertionSort, List.mem_filter] at h
  exact (Option.any_eq_true _ _).mpr ⟨e.2, Dict.get?_eq_some.mpr h.1, h.2⟩

theorem sortedActive_nodup (want : Dict Id (BackendNode Id)) :
    ((Reconciler.sortedActive want).map Prod.fst).Nodup := by
  have hperm := (List.perm_insertionSort (fun a b : Id × BackendNode Id => a.1 ≤ b.1)
    (want.entries.filter (·.2.attached))).map Prod.fst
  exact hperm.nodup_iff.mpr (want.nodup.sublist (List.filter_sublist.map _))

theorem sortedActive_pairwise (want : Dict Id (BackendNode Id)) :
    (Reconciler.sortedActive want).Pairwise fun a b => a.1 < b.1 := by
  have hle := List.pairwise_insertionSort (fun a b : Id × BackendNode Id => a.1 ≤ b.1)
    (want.entries.filter (·.2.attached))
  have hne := List.pairwise_map.mp (sortedActive_nodup want)
  exact (hle.and hne).imp fun hab => lt_of_le_of_ne hab.1 hab.2

/-- The ids that wait after the additions are the attached ones without a slot. -/
theorem mem_pending_additions {want : Dict Id (BackendNode Id)} (hl : ∀ i, Lifecycle (r.slots i))
    {cid : Id} : cid ∈ (Reconciler.additions want r).pending ↔
      isActive want cid = true ∧ ∀ i, ((Reconciler.additions want r).slots i).owner ≠ some cid := by
  obtain ⟨hwaits, hplaced⟩ :=
    foldl_addition_outcome (r := { r with pending := ∅ }) hl (Reconciler.sortedActive want)
  constructor
  · intro hc
    rcases hwaits cid hc with hnone | ⟨⟨b, hb⟩, hnew, -⟩
    · cases hnone
    · exact ⟨isActive_of_mem hb, hnew⟩
  · rintro ⟨ha, hnew⟩
    obtain ⟨b, hb⟩ := mem_sortedActive ha
    rcases hplaced _ hb with ⟨i, hi⟩ | ⟨hc, -⟩
    · exact absurd hi (hnew i)
    · exact hc

/-- `st` is the state in which the additions of a step reach `cid`. -/
def AtTurn (exits : Proc → Moment) (now : ℚ) (r : Reconciler Id N) (cid : Id)
    (st : Reconciler Id N) : Prop :=
  ∃ r₁ done b rest,
    (Reconciler.stepClients exits r).forSlots
      (fun i v => some (removal exits now i r.desiredBackends v)) = some r₁ ∧
    Reconciler.sortedActive r.desiredBackends = done ++ (cid, b) :: rest ∧
    st = done.foldl Reconciler.addition { r₁ with pending := ∅ }

/-- After every run a slot is without owner exactly when it is free, and no id
owns two slots. After a step that follows, an attached backend owns exactly one
slot, or is pending, or owned a stopping slot that this step freed; and a
backend is pending only if no slot was free when its turn came. -/
theorem slot_ownership (exits : Proc → Moment) (es : List (Event Id)) (now : ℚ)
    (lb : Dict ℕ Observation) (latest : Proc → Option Stats) :
    ∃ r r' : Reconciler Id N, run exits (Reconciler.init Id N) es = some r ∧
      apply exits r (.step now lb latest) = some r' ∧
      (∀ i, (r.slots i).owner = none ↔ (r.slots i).phase = .free) ∧ Distinct r ∧
      (∀ cid, isActive r.desiredBackends cid = true →
        (∃! i, (r'.slots i).owner = some cid) ∨ cid ∈ r'.pending ∨
          ∃ i, (r.slots i).owner = some cid ∧ (r.slots i).phase = .stopping ∧
            (r'.slots i).owner = none) ∧
      ∀ cid ∈ r'.pending, ∃ st, AtTurn exits now { r with ex := r.ex.nextTurn } cid st ∧
        ∀ i, (st.slots i).phase ≠ .free := by
  obtain ⟨r, hr⟩ := run_exists Id N exits es
  have hl : ∀ i, Lifecycle (r.slots i) := run_lifecycle init_lifecycle hr
  obtain ⟨r', hstep⟩ : ∃ r', apply exits r (.step now lb latest) = some r' := apply_exists hl _
  obtain ⟨r₁, hremoval, hprogress⟩ := step_loops hstep
  have hl₁ : ∀ i, Lifecycle (r₁.slots i) :=
    removals_lifecycle (r := { r with ex := r.ex.nextTurn }) hl hremoval
  have hpending : r'.pending = (Reconciler.additions r.desiredBackends r₁).pending := by
    rw [forSlots_books hprogress]
    rfl
  refine ⟨r, r', hr, hstep, fun i => (hl i).owner_iff, run_distinct hr, ?_, ?_⟩
  · intro cid hactive
    obtain ⟨b, hb⟩ := mem_sortedActive hactive
    have hserved : Served (Reconciler.additions r.desiredBackends r₁) cid :=
      foldl_addition_serves (r := { r₁ with pending := ∅ }) hl₁ hb
    rcases hserved with ⟨i, hi⟩ | hp
    · rcases step_keeps (r := { r with ex := r.ex.nextTurn }) hl hactive hremoval hprogress hi with
        hkeep | hfreed
      · have hd : Distinct r' := apply_distinct (run_distinct hr) hstep
        exact .inl ⟨i, hkeep, fun j hj => hd hj hkeep⟩
      · exact .inr (.inr ⟨i, hfreed⟩)
    · exact .inr (.inl (hpending ▸ hp))
  · intro cid hcid
    rw [hpending] at hcid
    rcases foldl_addition_pending hcid with hnone | ⟨done, b, rest, hsplit, hfull⟩
    · cases hnone
    · exact ⟨_, ⟨r₁, done, b, rest, hremoval, hsplit, rfl⟩, hfull⟩

end Events

/-- A backend dies, leaves the canvas while its slot is still reported up, and comes back. -/
def returning : List (Event String) :=
  [.setDesired (canvas ["b1"]), .step 1 (observe []) fun _ => none,
    .setDesired (canvas []), .step 2 (observe [(0, true)]) fun _ => none,
    .setDesired (canvas ["b1"]), .step 3 (observe [(0, false)]) fun _ => none]

/-- After the last of these steps it neither owns a slot nor is pending. -/
theorem returning_backend_forgotten :
    ∃ r : Reconciler String 1,
      run (fun _ => toLex (0, 0)) (Reconciler.init String 1) returning = some r ∧
      isActive r.desiredBackends "b1" = true ∧ (∀ i, (r.slots i).owner ≠ some "b1") ∧
      "b1" ∉ r.pending := by
  have hrun : (run (fun _ => toLex (0, 0)) (Reconciler.init String 1) returning).any (fun r =>
      isActive r.desiredBackends "b1" = true ∧ (∀ i, (r.slots i).owner ≠ some "b1") ∧
      "b1" ∉ r.pending) = true := by decide +kernel
  obtain ⟨r, hr, h⟩ := (Option.any_eq_true _ _).mp hrun
  exact ⟨r, hr, by simpa using h⟩

end MaglevLb.SlotOwnership
