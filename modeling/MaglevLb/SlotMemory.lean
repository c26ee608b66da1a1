import MaglevLb.FirstFit
import MaglevLb.SlotOwnership

/-!
# Slot memory

A canvas id that comes back asks for the slot it last used. But the ids of one step are
placed in order, and one without a usable memory takes the first free slot, which can be
the slot that a later id has used before. Additions are first fit with the remembered slots as
wishes, so a free slot is left for a later id exactly if the earlier ones find room elsewhere.
-/
namespace MaglevLb.SlotMemory

open Children OrderedDict Slots Reconcile SlotMoves SlotViews SlotLifecycle SlotOwnership

variable {Id : Type*} {N : ℕ} {exits : Proc → Moment} {now : ℚ}

/-- The id owns no slot. -/
def Unplaced (r : Reconciler Id N) (cid : Id) : Prop := ∀ i, (r.slots i).owner ≠ some cid

instance [DecidableEq Id] (r : Reconciler Id N) (cid : Id) : Decidable (Unplaced r cid) :=
  inferInstanceAs (Decidable (∀ i, (r.slots i).owner ≠ some cid))

/-! ### One addition -/

section Additions

variable [LinearOrder Id] {r : Reconciler Id N} {e : Id × BackendNode Id} {cid : Id} {m : Fin N}

theorem addition_of_memory (hnew : Unplaced r e.1) (hm : r.slotMemory.get? e.1 = some m)
    (hf : (r.slots m).phase = .free) :
    r.addition e = { r.put m (spawn m e.2.config ⟨{ r.slots m with owner := some e.1 }, r.ex⟩)
      with slotMemory := r.slotMemory.set e.1 m } := by
  have hslot : r.slotOf e.1 = none := Option.isNone_iff_eq_none.mp (slotOf_isNone.mpr hnew)
  have hfor : r.slotFor e.1 = some m := by
    simp [Reconciler.slotFor, hm, Option.filter, Reconciler.isFree, hf]
  simp [Reconciler.addition, hslot, hfor]

theorem Unplaced.of_addition (hl : ∀ i, Lifecycle (r.slots i)) (h : Unplaced (r.addition e) cid) :
    Unplaced r cid := by
  intro i hi
  refine h i ?_
  rw [addition_owner hl e (by simp [hi]), hi]

theorem Unplaced.addition (h : Unplaced r cid) (hne : cid ≠ e.1) : Unplaced (r.addition e) cid := by
  rcases addition_cases r e with ⟨-, he⟩ | ⟨-, -, he⟩ | ⟨-, k, -, he⟩
  · rwa [he]
  · rwa [he]
  · intro i
    rw [addition_put_owner he]
    split
    · exact fun heq => hne (Option.some.inj heq).symm
    · exact h i

theorem addition_memory (hne : cid ≠ e.1) :
    (r.addition e).slotMemory.get? cid = r.slotMemory.get? cid := by
  rcases addition_cases r e with ⟨-, he⟩ | ⟨-, -, he⟩ | ⟨-, k, -, he⟩
  · rw [he]
  · rw [he]
  · rw [he]
    exact (Dict.get?_set _ _ _ _).trans (if_neg hne)

/-- A free slot stays free or goes to the id that is placed. -/
theorem addition_free {i : Fin N} (hf : (r.slots i).phase = .free) :
    ((r.addition e).slots i).phase = .free ∨
      Unplaced r e.1 ∧ ((r.addition e).slots i).owner = some e.1 := by
  rcases addition_cases r e with ⟨-, he⟩ | ⟨-, -, he⟩ | ⟨hnew, k, -, he⟩
  · rw [he]
    exact .inl hf
  · rw [he]
    exact .inl hf
  · rw [he]
    by_cases hi : i = k
    · subst hi
      exact .inr ⟨hnew, by rw [put_self]; rfl⟩
    · exact .inl (by rw [put_of_ne hi]; exact hf)

/-! ### The loop -/

theorem Unplaced.foldl_addition {l : List (Id × BackendNode Id)} (h : Unplaced r cid)
    (hc : cid ∉ l.map Prod.fst) : Unplaced (l.foldl Reconciler.addition r) cid := by
  induction l generalizing r with
  | nil => exact h
  | cons e l ih =>
      rw [List.map_cons, List.mem_cons, not_or] at hc
      exact ih (h.addition hc.1) hc.2

theorem foldl_addition_memory {l : List (Id × BackendNode Id)} (hc : cid ∉ l.map Prod.fst) :
    (l.foldl Reconciler.addition r).slotMemory.get? cid = r.slotMemory.get? cid := by
  induction l generalizing r with
  | nil => rfl
  | cons e l ih =>
      rw [List.map_cons, List.mem_cons, not_or] at hc
      exact (ih hc.2).trans (addition_memory hc.1)

/-- A free slot stays free or goes to an id of the loop that had none. -/
theorem foldl_addition_free (hl : ∀ i, Lifecycle (r.slots i)) {i : Fin N}
    (hf : (r.slots i).phase = .free) (l : List (Id × BackendNode Id)) :
    ((l.foldl Reconciler.addition r).slots i).phase = .free ∨
      ∃ e ∈ l, Unplaced r e.1 ∧ ((l.foldl Reconciler.addition r).slots i).owner = some e.1 := by
  induction l generalizing r with
  | nil => exact .inl hf
  | cons e l ih =>
      have hl' := addition_lifecycle hl e
      rw [List.foldl_cons]
      rcases addition_free (e := e) hf with hfree | ⟨hnew, ho⟩
      · rcases ih hl' hfree with hfree | ⟨e', he', hnew, ho⟩
        · exact .inl hfree
        · exact .inr ⟨e', List.mem_cons_of_mem _ he', hnew.of_addition hl, ho⟩
      · refine .inr ⟨e, List.mem_cons_self, hnew, ?_⟩
        rw [foldl_addition_owner hl' l (by simp [ho]), ho]

/-! ### First fit -/

/-- The slots that are free. -/
def freeSlots (r : Reconciler Id N) : Finset (Fin N) :=
  Finset.univ.filter fun i => (r.slots i).phase = .free

omit [LinearOrder Id] in
theorem mem_freeSlots {i : Fin N} : i ∈ freeSlots r ↔ (r.slots i).phase = .free := by
  simp [freeSlots]

omit [LinearOrder Id] in
/-- The search for a free slot finds the first. -/
theorem find?_isFree {k : Fin N} (h : (List.finRange N).find? r.isFree = some k) :
    ∀ j ∈ freeSlots r, k ≤ j := by
  intro j hj
  obtain ⟨-, before, after, hsplit, hnone⟩ := List.find?_eq_some_iff_append.mp h
  have hsorted := List.pairwise_lt_finRange N
  have hmem := List.mem_finRange j
  rw [hsplit] at hsorted hmem
  rcases List.mem_append.mp hmem with hj' | hj'
  · have hfree : r.isFree j = true := decide_eq_true (mem_freeSlots.mp hj)
    exact absurd hfree (by simpa using hnone j hj')
  · rcases List.mem_cons.mp hj' with rfl | hj'
    · exact le_rfl
    · exact ((List.pairwise_cons.mp (List.pairwise_append.mp hsorted).2.1).1 j hj').le

theorem slotFor_place {k : Fin N} (h : r.slotFor cid = some k) :
    FirstFit.place (r.slotMemory.get? cid) (freeSlots r) = (freeSlots r).erase k := by
  have hk : k ∈ freeSlots r := mem_freeSlots.mpr (slotFor_free h)
  unfold Reconciler.slotFor at h
  split at h
  · next i hi =>
      cases h
      rw [(Option.filter_eq_some_iff.mp hi).1]
      exact FirstFit.place_wished hk
  · next hnone =>
      refine FirstFit.place_first (fun j hj hfree => ?_) hk (find?_isFree h)
      exact Option.filter_eq_none_iff.mp hnone j hj (decide_eq_true (mem_freeSlots.mp hfree))

/-- An addition of an id without a slot is first fit. -/
theorem freeSlots_addition (hnew : Unplaced r e.1) :
    freeSlots (r.addition e) = FirstFit.place (r.slotMemory.get? e.1) (freeSlots r) := by
  have hslot : r.slotOf e.1 = none := Option.isNone_iff_eq_none.mp (slotOf_isNone.mpr hnew)
  cases hfor : r.slotFor e.1 with
  | none =>
      have hempty : freeSlots r = ∅ :=
        Finset.filter_eq_empty_iff.mpr fun i _ => slotFor_eq_none hfor i
      rw [hempty, FirstFit.place_empty, ← hempty]
      simp only [Reconciler.addition, hslot, hfor]
      rfl
  | some k =>
      rw [slotFor_place hfor]
      ext i
      simp only [Reconciler.addition, hslot, hfor, mem_freeSlots, Finset.mem_erase]
      by_cases hi : i = k
      · subst hi
        simp [put_self, spawn]
      · simp [put_of_ne hi, hi]

/-- The additions are first fit, over the ids that have no slot. -/
theorem freeSlots_foldl (hl : ∀ i, Lifecycle (r.slots i)) {l : List (Id × BackendNode Id)}
    (hnd : (l.map Prod.fst).Nodup) :
    freeSlots (l.foldl Reconciler.addition r) =
      FirstFit.places r.slotMemory.get? (freeSlots r) ((l.map Prod.fst).filter (Unplaced r ·)) := by
  induction l generalizing r with
  | nil => rfl
  | cons e l ih =>
      rw [List.map_cons, List.nodup_cons] at hnd
      have hne : ∀ a ∈ l.map Prod.fst, a ≠ e.1 := fun a ha heq => hnd.1 (heq ▸ ha)
      have hids : (l.map Prod.fst).filter (Unplaced (r.addition e) ·) =
          (l.map Prod.fst).filter (Unplaced r ·) :=
        List.filter_congr fun a ha =>
          decide_eq_decide.mpr ⟨fun h => h.of_addition hl, fun h => h.addition (hne a ha)⟩
      rw [List.foldl_cons, ih (addition_lifecycle hl e) hnd.2, hids, List.map_cons]
      by_cases hnew : Unplaced r e.1
      · rw [List.filter_cons, if_pos (decide_eq_true hnew), freeSlots_addition hnew]
        refine FirstFit.places_congr fun a ha => addition_memory (hne a ?_)
        exact (List.mem_filter.mp ha).1
      · have hsame : r.addition e = r := by
          rcases addition_cases r e with ⟨-, he⟩ | ⟨hnew', -⟩ | ⟨hnew', -⟩
          · exact he
          · exact absurd hnew' hnew
          · exact absurd hnew' hnew
        rw [List.filter_cons, if_neg (by simpa using hnew), hsame]

/-- An id that finds its slot free at its turn has it when the loop is done. -/
theorem foldl_addition_given_back (hl : ∀ i, Lifecycle (r.slots i))
    {done rest : List (Id × BackendNode Id)} (hdone : e.1 ∉ done.map Prod.fst)
    (hnew : Unplaced r e.1) (hm : r.slotMemory.get? e.1 = some m)
    (hf : ((done.foldl Reconciler.addition r).slots m).phase = .free) :
    (((done ++ e :: rest).foldl Reconciler.addition r).slots m).owner = some e.1 := by
  have hls : ∀ i, Lifecycle ((done.foldl Reconciler.addition r).slots i) :=
    foldl_addition_lifecycle hl done
  have ho : (((done.foldl Reconciler.addition r).addition e).slots m).owner = some e.1 := by
    rw [addition_of_memory (hnew.foldl_addition hdone) ((foldl_addition_memory hdone).trans hm) hf,
      put_self]
    rfl
  rw [List.foldl_append, List.foldl_cons,
    foldl_addition_owner (addition_lifecycle hls e) rest (by simp [ho]), ho]

end Additions

/-! ### The memory is the slot last used -/

section Memory

variable [LinearOrder Id] {r r' : Reconciler Id N} {lb : Dict ℕ Observation}
  {latest : Proc → Option Stats}

def Remembers (r : Reconciler Id N) : Prop :=
  ∀ i cid, (r.slots i).owner = some cid → r.slotMemory.get? cid = some i

theorem Remembers.of_le (h : Remembers r)
    (hle : ∀ i, (r'.slots i).owner = (r.slots i).owner ∨ (r'.slots i).owner = none)
    (hm : r'.slotMemory = r.slotMemory) : Remembers r' := by
  intro i cid hi
  rw [hm]
  exact h i cid (((hle i).resolve_right (by simp [hi])).symm.trans hi)

theorem addition_remembers (h : Remembers r) (e : Id × BackendNode Id) :
    Remembers (r.addition e) := by
  rcases addition_cases r e with ⟨-, he⟩ | ⟨-, -, he⟩ | ⟨hnew, k, -, he⟩
  · rwa [he]
  · rwa [he]
  · intro i cid hi
    rw [addition_put_owner he] at hi
    split at hi
    · next hik =>
        cases hi
        rw [he, hik]
        exact (Dict.get?_set _ _ _ _).trans (if_pos rfl)
    · rw [addition_memory (fun heq => hnew i (heq ▸ hi))]
      exact h i cid hi

theorem foldl_addition_remembers (h : Remembers r) (l : List (Id × BackendNode Id)) :
    Remembers (l.foldl Reconciler.addition r) := by
  induction l generalizing r with
  | nil => exact h
  | cons e l ih => exact ih (addition_remembers h e)

theorem removals_memory {r₁ : Reconciler Id N}
    (h : (Reconciler.stepClients exits r).forSlots
      (fun i v => some (removal exits now i r.desiredBackends v)) = some r₁) :
    r₁.slotMemory = r.slotMemory := by
  have hclients : ClientWork r (Reconciler.stepClients exits r) := stepClients_work
  have hloop : r₁.slotMemory = (Reconciler.stepClients exits r).slotMemory := by
    rw [forSlots_books h]
  rw [hloop, hclients.books]

theorem step_memory {r₁ : Reconciler Id N}
    (h : (Reconciler.additions r.desiredBackends r₁).forSlots
      (fun i v => progress exits now i r.desiredBackends lb latest v) = some r') :
    r'.slotMemory = (Reconciler.additions r.desiredBackends r₁).slotMemory := by
  rw [forSlots_books h]

theorem step_remembers (h : r.step exits now lb latest = some r') (hm : Remembers r) :
    Remembers r' := by
  obtain ⟨r₁, hremoval, hprogress⟩ := step_loops h
  have hm₁ : Remembers r₁ :=
    hm.of_le (fun i => .inl (removals_owner_eq hremoval i)) (removals_memory hremoval)
  have hm₂ : Remembers (Reconciler.additions r.desiredBackends r₁) :=
    foldl_addition_remembers (r := { r₁ with pending := ∅ }) hm₁ _
  exact hm₂.of_le (progress_owner_or hprogress) (step_memory hprogress)

theorem reset_memory (h : r.reset exits = some r') : r'.slotMemory = r.slotMemory := by
  obtain ⟨r₁, hloop, hclients⟩ := Option.bind_eq_some_iff.mp h
  cases hclients
  rw [forSlots_books hloop]

theorem apply_remembers {e : Event Id} (hm : Remembers r) (h : apply exits r e = some r') :
    Remembers r' := by
  cases e with
  | setDesired | suppressLoad =>
      cases h
      exact hm
  | action target kind now =>
      rcases apply_action h with hok | rfl
      · obtain ⟨k, -, -, hput⟩ := action_ok hok
        exact hm.of_le (fun i => .inl (action_owner hok i)) (hput ▸ rfl)
      · exact hm
  | reset now =>
      refine hm.of_le (fun i => .inl ?_) (reset_memory (r := { r with ex := r.ex.nextTurn }) h)
      obtain ⟨ex, -, hslot, -⟩ := reset_view (r := { r with ex := r.ex.nextTurn }) h i
      rw [hslot, resetSlot_owner]
  | step now lb latest => exact step_remembers h hm

theorem run_remembers {es : List (Event Id)} (h : run exits (Reconciler.init Id N) es = some r) :
    Remembers r :=
  EventRun.foldlM_invariant (P := Remembers) apply_remembers (fun _ _ hi => by cases hi) h

/-- The loop changes the memory of an id only by placing it. -/
theorem foldl_addition_recalls (hl : ∀ i, Lifecycle (r.slots i)) (l : List (Id × BackendNode Id))
    (cid : Id) :
    (l.foldl Reconciler.addition r).slotMemory.get? cid = r.slotMemory.get? cid ∨
      (∃ b, (cid, b) ∈ l) ∧ Unplaced r cid ∧
        ∃ i, ((l.foldl Reconciler.addition r).slots i).owner = some cid := by
  induction l generalizing r with
  | nil => exact .inl rfl
  | cons e l ih =>
      have hl' := addition_lifecycle hl e
      have hrest := ih hl'
      rw [List.foldl_cons]
      by_cases hc : cid = e.1
      · subst hc
        rcases addition_cases r e with ⟨⟨k, hk⟩, he⟩ | ⟨-, -, he⟩ | ⟨hnew, k, -, he⟩
        · rw [he] at hrest ⊢
          rcases hrest with hrest | ⟨-, hnew, -⟩
          · exact .inl hrest
          · exact absurd hk (hnew k)
        · rw [he] at hrest ⊢
          exact hrest.imp_right fun h => ⟨⟨e.2, List.mem_cons_self⟩, h.2⟩
        · have ho : ((r.addition e).slots k).owner = some e.1 := by
            rw [he, put_self]
            rfl
          refine .inr ⟨⟨e.2, List.mem_cons_self⟩, hnew, k, ?_⟩
          rw [foldl_addition_owner hl' l (by simp [ho]), ho]
      · rw [← addition_memory (r := r) hc]
        refine hrest.imp_right fun ⟨⟨b, hb⟩, hnew, hplaced⟩ => ?_
        exact ⟨⟨b, List.mem_cons_of_mem _ hb⟩, hnew.of_addition hl, hplaced⟩

/-- An id that owns no slot keeps its memory. -/
theorem apply_recalls {e : Event Id} {cid : Id} (hl : ∀ i, Lifecycle (r.slots i))
    (h : apply exits r e = some r') (hnew : Unplaced r' cid) :
    r'.slotMemory.get? cid = r.slotMemory.get? cid := by
  cases e with
  | setDesired | suppressLoad =>
      cases h
      rfl
  | action target kind now =>
      rcases apply_action h with hok | rfl
      · obtain ⟨k, -, -, rfl⟩ := action_ok hok
        rfl
      · rfl
  | reset now => rw [reset_memory (r := { r with ex := r.ex.nextTurn }) h]
  | step now lb latest =>
      obtain ⟨r₁, hremoval, hprogress⟩ := step_loops h
      have hl₁ : ∀ i, Lifecycle (r₁.slots i) :=
        removals_lifecycle (r := { r with ex := r.ex.nextTurn }) hl hremoval
      rw [step_memory hprogress]
      rcases foldl_addition_recalls (r := { r₁ with pending := ∅ }) hl₁
        (Reconciler.sortedActive r.desiredBackends) cid with hsame | ⟨⟨b, hb⟩, hbefore, i, hi⟩
      · exact hsame.trans (congrArg (·.get? cid) (removals_memory hremoval))
      · -- a slot taken in this step is not lost in it
        rcases step_keeps (r := { r with ex := r.ex.nextTurn }) hl (isActive_of_mem hb) hremoval
          hprogress hi with hkeep | ⟨ho, -⟩
        · exact absurd hkeep (hnew i)
        · exact absurd ((removals_owner_eq hremoval i).trans ho) (hbefore i)

/-- `m` is the slot the id owned when it last owned one. -/
def LastUsed (exits : Proc → Moment) (es : List (Event Id)) (cid : Id) (m : Fin N) : Prop :=
  ∃ before after r₁, es = before ++ after ∧
    run exits (Reconciler.init Id N) before = some r₁ ∧ (r₁.slots m).owner = some cid ∧
    ∀ done rest r₂, after = done ++ rest → done ≠ [] →
      run exits (Reconciler.init Id N) (before ++ done) = some r₂ → Unplaced r₂ cid

theorem lastUsed_concat {es : List (Event Id)} {e : Event Id} {cid : Id} {m : Fin N}
    (h : run exits (Reconciler.init Id N) (es ++ [e]) = some r') (hnew : Unplaced r' cid) :
    LastUsed exits (es ++ [e]) cid m ↔ LastUsed exits es cid m := by
  constructor
  · rintro ⟨before, after, r₁, hsplit, hrun, ho, hsince⟩
    rcases List.eq_nil_or_concat after with rfl | ⟨after, e', rfl⟩
    · rw [List.append_nil] at hsplit
      rw [← hsplit, h] at hrun
      cases hrun
      exact absurd ho (hnew m)
    · rw [List.concat_eq_append, ← List.append_assoc] at hsplit
      obtain ⟨rfl, -⟩ := List.append_inj' hsplit rfl
      refine ⟨before, after, r₁, rfl, hrun, ho, fun done rest r₂ hdone hne hr₂ => ?_⟩
      refine hsince done (rest ++ [e']) r₂ ?_ hne hr₂
      rw [hdone, List.concat_eq_append, List.append_assoc]
  · rintro ⟨before, after, r₁, rfl, hrun, ho, hsince⟩
    refine ⟨before, after ++ [e], r₁, List.append_assoc _ _ _, hrun, ho, ?_⟩
    intro done rest r₂ hdone hne hr₂
    rcases List.eq_nil_or_concat rest with rfl | ⟨rest, e', rfl⟩
    · rw [List.append_nil] at hdone
      rw [← hdone, ← List.append_assoc, h] at hr₂
      cases hr₂
      exact hnew
    · rw [List.concat_eq_append, ← List.append_assoc] at hdone
      obtain ⟨hdone, -⟩ := List.append_inj' hdone rfl
      exact hsince done rest r₂ hdone hne hr₂

/-- `slot_memory` holds the slot that the id last used. -/
theorem slotMemory_eq_some_iff {es : List (Event Id)} {cid : Id} {m : Fin N}
    (h : run exits (Reconciler.init Id N) es = some r) :
    r.slotMemory.get? cid = some m ↔ LastUsed exits es cid m := by
  induction es using List.reverseRecOn generalizing r with
  | nil =>
      cases h
      constructor
      · intro hm
        cases hm
      · rintro ⟨before, after, r₁, hsplit, hrun, ho, -⟩
        obtain ⟨rfl, -⟩ := List.append_eq_nil_iff.mp hsplit.symm
        cases hrun
        cases ho
  | append_singleton es e ih =>
      by_cases hnew : Unplaced r cid
      · rw [lastUsed_concat h hnew]
        rw [run_concat] at h
        obtain ⟨r₀, h₀, he⟩ := Option.bind_eq_some_iff.mp h
        rw [apply_recalls (run_lifecycle init_lifecycle h₀) he hnew]
        exact ih h₀
      · obtain ⟨i, hi⟩ : ∃ i, (r.slots i).owner = some cid := by
          simpa [Unplaced] using hnew
        rw [run_remembers h i cid hi]
        constructor
        · intro him
          cases him
          refine ⟨es ++ [e], [], r, (List.append_nil _).symm, h, hi,
            fun done rest _ hdone hne => ?_⟩
          exact absurd (List.append_eq_nil_iff.mp hdone.symm).1 hne
        · rintro ⟨before, after, r₁, hsplit, hrun, ho, hsince⟩
          have hafter : after = [] := by
            by_contra hne
            exact hsince after [] r (List.append_nil _).symm hne (hsplit ▸ h) i hi
          rw [hafter, List.append_nil] at hsplit
          rw [← hsplit, h] at hrun
          cases hrun
          exact congrArg some (run_distinct h hi ho)

end Memory

/-! ### Coming back -/

section Return

variable [LinearOrder Id] {r r' : Reconciler Id N} {want : Dict Id (BackendNode Id)} {cid : Id}
  {m : Fin N}

/-- The additions place `a` before `cid`. -/
def AddedBefore (want : Dict Id (BackendNode Id)) (r : Reconciler Id N) (cid a : Id) : Prop :=
  a < cid ∧ isActive want a = true ∧ Unplaced r a

/-- Among the ids that are placed before `cid`, `a` is the first that has used some slot which is
free and comes after `m`. -/
def ComesBack (used : Id → Fin N → Prop) (want : Dict Id (BackendNode Id)) (r : Reconciler Id N)
    (cid : Id) (m : Fin N) (a : Id) : Prop :=
  ∃ k, m < k ∧ used a k ∧ (r.slots k).phase = .free ∧
    ∀ b < a, AddedBefore want r cid b → ¬ used b k

/-- No id that is placed before `cid` has used `m`, and apart from those that come back to a slot
after `m` they are not more than the free slots before `m`. -/
def Room (used : Id → Fin N → Prop) (want : Dict Id (BackendNode Id)) (r : Reconciler Id N)
    (cid : Id) (m : Fin N) : Prop :=
  (∀ a, AddedBefore want r cid a → ¬ used a m) ∧
    {a | AddedBefore want r cid a ∧ ¬ ComesBack used want r cid m a}.ncard ≤
      {k | k < m ∧ (r.slots k).phase = .free}.ncard

theorem addedBefore_congr (howner : ∀ i, (r'.slots i).owner = (r.slots i).owner) {a : Id} :
    AddedBefore want r' cid a ↔ AddedBefore want r cid a := by
  simp only [AddedBefore, Unplaced, howner]

theorem room_congr {used used' : Id → Fin N → Prop}
    (howner : ∀ i, (r'.slots i).owner = (r.slots i).owner)
    (hfree : ∀ i, (r'.slots i).phase = .free ↔ (r.slots i).phase = .free)
    (hused : ∀ a k, used' a k ↔ used a k) :
    Room used' want r' cid m ↔ Room used want r cid m := by
  simp only [Room, ComesBack, addedBefore_congr howner, hfree, hused]

/-- The list of additions at the turn of `cid`. -/
theorem sortedActive_split (hactive : isActive want cid = true) :
    ∃ done b rest, Reconciler.sortedActive want = done ++ (cid, b) :: rest ∧
      (done.map Prod.fst).Pairwise (· < ·) ∧
      ∀ a, a ∈ done.map Prod.fst ↔ a < cid ∧ isActive want a = true := by
  obtain ⟨b, hb⟩ := mem_sortedActive hactive
  obtain ⟨done, rest, hsplit⟩ := List.append_of_mem hb
  have hsorted := sortedActive_pairwise want
  rw [hsplit] at hsorted
  obtain ⟨hdone, hrest, hbefore⟩ := List.pairwise_append.mp hsorted
  refine ⟨done, b, rest, hsplit, List.pairwise_map.mpr hdone, fun a => ⟨fun ha => ?_, ?_⟩⟩
  · obtain ⟨e, he, rfl⟩ := List.mem_map.mp ha
    refine ⟨hbefore e he _ List.mem_cons_self, isActive_of_mem ?_⟩
    rw [hsplit]
    exact List.mem_append_left _ he
  · rintro ⟨hlt, ha⟩
    obtain ⟨c, hc⟩ := mem_sortedActive ha
    rw [hsplit] at hc
    rcases List.mem_append.mp hc with hc | hc
    · exact List.mem_map_of_mem hc
    · rcases List.mem_cons.mp hc with heq | hc
      · cases heq
        exact absurd hlt (lt_irrefl _)
      · exact absurd ((List.pairwise_cons.mp hrest).1 _ hc) hlt.not_gt

/-- At the turn of `cid` its slot is still free exactly if the ids before it have room. -/
theorem free_at_turn_iff (hl : ∀ i, Lifecycle (r.slots i)) (hf : (r.slots m).phase = .free)
    {done : List (Id × BackendNode Id)} (hsorted : (done.map Prod.fst).Pairwise (· < ·))
    (hdone : ∀ a, a ∈ done.map Prod.fst ↔ a < cid ∧ isActive want a = true) :
    ((done.foldl Reconciler.addition r).slots m).phase = .free ↔
      Room (fun a k => r.slotMemory.get? a = some k) want r cid m := by
  have hmem (a : Id) : a ∈ (done.map Prod.fst).filter (Unplaced r ·) ↔
      AddedBefore want r cid a := by
    rw [List.mem_filter, hdone, decide_eq_true_iff, AddedBefore, and_assoc]
  have hreturns (a : Id) : FirstFit.Returns r.slotMemory.get? (freeSlots r) m
      ((done.map Prod.fst).filter (Unplaced r ·)) a ↔
      ComesBack (fun a k => r.slotMemory.get? a = some k) want r cid m a := by
    simp only [FirstFit.Returns, ComesBack, hmem, mem_freeSlots, Option.mem_def]
    exact exists_congr fun k => by tauto
  have hbefore : ((freeSlots r).filter (· < m)).card =
      {k | k < m ∧ (r.slots k).phase = .free}.ncard := by
    rw [← Set.ncard_coe_finset]
    congr 1
    ext k
    simp [mem_freeSlots, and_comm]
  have hsub := hsorted.filter (Unplaced r ·)
  rw [← mem_freeSlots, freeSlots_foldl hl (hsorted.imp ne_of_lt),
    (FirstFit.spared_iff hsub (mem_freeSlots.mpr hf)).2, FirstFit.demand_eq_ncard
      (hsub.imp ne_of_lt), hbefore, Room]
  simp only [hmem, hreturns, ne_eq]

/-- After the additions the slot belongs to `cid` or to an id that was placed before it, and to
`cid` exactly if these have room. -/
theorem foldl_sortedActive_given_back (hl : ∀ i, Lifecycle (r.slots i))
    (hactive : isActive want cid = true) (hnew : Unplaced r cid)
    (hm : r.slotMemory.get? cid = some m) (hf : (r.slots m).phase = .free)
    (h : (Reconciler.sortedActive want).foldl Reconciler.addition r = r') :
    ∃ a, (r'.slots m).owner = some a ∧ (a = cid ∨ AddedBefore want r cid a) ∧
      (a = cid ↔ Room (fun a k => r.slotMemory.get? a = some k) want r cid m) := by
  obtain ⟨done, b, rest, hsplit, hsorted, hdone⟩ := sortedActive_split hactive
  rw [hsplit] at h
  have hturn := free_at_turn_iff hl hf hsorted hdone
  rcases foldl_addition_free hl hf done with hfree | ⟨e, he, hnewe, ho⟩
  · have hcid : cid ∉ done.map Prod.fst := fun hc => lt_irrefl _ ((hdone cid).mp hc).1
    refine ⟨cid, ?_, .inl rfl, iff_of_true rfl (hturn.mp hfree)⟩
    rw [← h]
    exact foldl_addition_given_back (e := (cid, b)) hl hcid hnew hm hfree
  · obtain ⟨hlt, hactivee⟩ := (hdone e.1).mp (List.mem_map_of_mem he)
    refine ⟨e.1, ?_, .inr ⟨hlt, hactivee, hnewe⟩, iff_of_false hlt.ne fun hroom => ?_⟩
    · rw [← h, List.foldl_append,
        foldl_addition_owner (foldl_addition_lifecycle hl done) _ (by simp [ho]), ho]
    · have howned := (foldl_addition_lifecycle hl done m).owner_iff.mpr (hturn.mpr hroom)
      rw [ho] at howned
      cases howned

/-- The removals that come first free no slot, and progress takes none that was just given. -/
theorem step_given_back {lb : Dict ℕ Observation} {latest : Proc → Option Stats}
    (hl : ∀ i, Lifecycle (r.slots i)) (h : r.step exits now lb latest = some r')
    (hactive : isActive r.desiredBackends cid = true) (hnew : Unplaced r cid)
    (hm : r.slotMemory.get? cid = some m) (hf : (r.slots m).phase = .free) :
    ∃ a, (r'.slots m).owner = some a ∧ (a = cid ∨ AddedBefore r.desiredBackends r cid a) ∧
      (a = cid ↔ Room (fun a k => r.slotMemory.get? a = some k) r.desiredBackends r cid m) := by
  obtain ⟨r₁, hremoval, hprogress⟩ := step_loops h
  have hl₁ : ∀ i, Lifecycle (r₁.slots i) := removals_lifecycle hl hremoval
  have howner : ∀ i, (r₁.slots i).owner = (r.slots i).owner := removals_owner_eq hremoval
  have hfree (i : Fin N) : (r₁.slots i).phase = .free ↔ (r.slots i).phase = .free := by
    rw [← (hl₁ i).owner_iff, howner, (hl i).owner_iff]
  have hmemory : r₁.slotMemory = r.slotMemory := removals_memory hremoval
  obtain ⟨a, ho, hwho, hroom⟩ := foldl_sortedActive_given_back (r := { r₁ with pending := ∅ }) hl₁
    hactive (fun i => howner i ▸ hnew i) (hmemory.symm ▸ hm) ((hfree m).mpr hf) rfl
  have hactivea : isActive r.desiredBackends a = true := by
    rcases hwho with rfl | ha
    · exact hactive
    · exact ha.2.1
  refine ⟨a, ?_, hwho.imp_right (addedBefore_congr howner).mp, hroom.trans ?_⟩
  · rcases step_keeps hl hactivea hremoval hprogress ho with hkeep | ⟨-, hstop, -⟩
    · exact hkeep
    · exact absurd (hf.symm.trans hstop) (by decide)
  · exact room_congr howner hfree fun _ _ => by dsimp only; rw [hmemory]

/-- After every run, when an attached id owns no slot and the slot it last used is free: the
next step gives that slot to it or to an id that is placed before it, and to it exactly if the
ids placed before it have room: none of them last used that slot, and those that do not come back
to a free slot after it are at most as many as the free slots before it. -/
theorem old_slot_given_back {es : List (Event Id)}
    (hr : run exits (Reconciler.init Id N) es = some r)
    (hactive : isActive r.desiredBackends cid = true) (hnew : Unplaced r cid)
    (hused : LastUsed exits es cid m) (hf : (r.slots m).phase = .free) (now : ℚ)
    (lb : Dict ℕ Observation) (latest : Proc → Option Stats) :
    ∃ r', apply exits r (.step now lb latest) = some r' ∧
      ((r'.slots m).owner = some cid ∨
        ∃ a, AddedBefore r.desiredBackends r cid a ∧ (r'.slots m).owner = some a) ∧
      ((r'.slots m).owner = some cid ↔ Room (LastUsed exits es) r.desiredBackends r cid m) := by
  have hl : ∀ i, Lifecycle (r.slots i) := run_lifecycle init_lifecycle hr
  obtain ⟨r', hstep⟩ : ∃ r', apply exits r (.step now lb latest) = some r' := apply_exists hl _
  obtain ⟨a, ho, hwho, hroom⟩ := step_given_back (r := { r with ex := r.ex.nextTurn }) hl hstep
    hactive hnew ((slotMemory_eq_some_iff hr).mpr hused) hf
  have hmemory (a : Id) (k : Fin N) : LastUsed exits es a k ↔ r.slotMemory.get? a = some k :=
    (slotMemory_eq_some_iff hr).symm
  refine ⟨r', hstep, ?_, ?_⟩
  · rcases hwho with rfl | ha
    · exact .inl ho
    · exact .inr ⟨a, ha, ho⟩
  · rw [ho, Option.some_inj, hroom]
    exact (room_congr (fun _ => rfl) (fun _ => .rfl) hmemory).symm

end Return

/-- Backends come, go with their responders, and these come back. -/
def comeBack (first second : List String) : List (Event String) :=
  [.setDesired (canvas first), .step 1 (observe []) fun _ => none,
    .setDesired (canvas []), .step 2 (observe []) fun _ => none, .setDesired (canvas second)]

/-- "b" comes back together with a new "a", which takes its slot. -/
theorem old_slot_taken :
    ∃ r r' : Reconciler String 2,
      run (fun _ => toLex (3, 0)) (Reconciler.init String 2) (comeBack ["b"] ["a", "b"]) = some r ∧
      apply (fun _ => toLex (3, 0)) r (.step 3 (observe []) fun _ => none) = some r' ∧
      isActive r.desiredBackends "b" = true ∧ Unplaced r "b" ∧
      LastUsed (fun _ => toLex (3, 0)) (comeBack ["b"] ["a", "b"]) "b" (0 : Fin 2) ∧
      (r.slots 0).phase = .free ∧ (r'.slots 0).owner = some "a" ∧
      (r'.slots 1).owner = some "b" := by
  have hrun : (run (fun _ => toLex (3, 0)) (Reconciler.init String 2)
      (comeBack ["b"] ["a", "b"])).any (fun r =>
      (apply (fun _ => toLex (3, 0)) r (.step 3 (observe []) fun _ => none)).any fun r' =>
        isActive r.desiredBackends "b" = true ∧ (∀ i, (r.slots i).owner ≠ some "b") ∧
        r.slotMemory.get? "b" = some 0 ∧ (r.slots 0).phase = .free ∧
        (r'.slots 0).owner = some "a" ∧ (r'.slots 1).owner = some "b") = true := by decide +kernel
  obtain ⟨r, hr, hnext⟩ := (Option.any_eq_true _ _).mp hrun
  obtain ⟨r', hr', h⟩ := (Option.any_eq_true _ _).mp hnext
  obtain ⟨hactive, hnew, hm, hfree, hplaced⟩ := of_decide_eq_true h
  exact ⟨r, r', hr, hr', hactive, hnew, (slotMemory_eq_some_iff hr).mp hm, hfree, hplaced⟩

/-- Two backends come back together: "a" to the slot before the one of "b". -/
theorem old_slot_given_back_sample :
    ∃ r r' : Reconciler String 2,
      run (fun _ => toLex (3, 0)) (Reconciler.init String 2) (comeBack ["b", "a"] ["a", "b"]) =
        some r ∧
      apply (fun _ => toLex (3, 0)) r (.step 3 (observe []) fun _ => none) = some r' ∧
      Unplaced r "b" ∧ AddedBefore r.desiredBackends r "b" "a" ∧ (r'.slots 1).owner = some "b" := by
  have hrun : (run (fun _ => toLex (3, 0)) (Reconciler.init String 2)
      (comeBack ["b", "a"] ["a", "b"])).any (fun r =>
        isActive r.desiredBackends "b" = true ∧ isActive r.desiredBackends "a" = true ∧
        (∀ i, (r.slots i).owner ≠ some "b") ∧ (∀ i, (r.slots i).owner ≠ some "a") ∧
        r.slotMemory.get? "b" = some 1 ∧ (r.slots 1).phase = .free ∧
        r.slotMemory.get? "a" = some 0 ∧ (r.slots 0).phase = .free ∧
        ∀ e ∈ Reconciler.sortedActive r.desiredBackends, e.1 < "b" → e.1 = "a") = true := by
    decide +kernel
  obtain ⟨r, hr, h⟩ := (Option.any_eq_true _ _).mp hrun
  obtain ⟨hactive, hactivea, hnew, hnewa, hm, hfree, hma, hfreea, hbefore⟩ := of_decide_eq_true h
  have honly {a : String} (ha : AddedBefore r.desiredBackends r "b" a) : a = "a" := by
    obtain ⟨b, hb⟩ := mem_sortedActive ha.2.1
    exact hbefore _ hb ha.1
  obtain ⟨r', hr', -, hback⟩ := old_slot_given_back hr hactive hnew
    ((slotMemory_eq_some_iff hr).mp hm) hfree 3 (observe []) fun _ => none
  refine ⟨r, r', hr, hr', hnew, ⟨by decide, hactivea, hnewa⟩, hback.mpr ⟨fun a ha hused => ?_, ?_⟩⟩
  · cases honly ha
    rw [← slotMemory_eq_some_iff hr, hma] at hused
    cases hused
  · have hids : {a | AddedBefore r.desiredBackends r "b" a ∧ ¬ ComesBack (LastUsed
        (fun _ => toLex (3, 0)) (comeBack ["b", "a"] ["a", "b"])) r.desiredBackends r "b" 1 a} ⊆
        {"a"} := fun a ha => honly ha.1
    have hslots : {0} ⊆ {k : Fin 2 | k < 1 ∧ (r.slots k).phase = .free} :=
      Set.singleton_subset_iff.mpr ⟨by decide, hfreea⟩
    calc _ ≤ Set.ncard {"a"} := Set.ncard_le_ncard hids
      _ = Set.ncard {(0 : Fin 2)} := by rw [Set.ncard_singleton, Set.ncard_singleton]
      _ ≤ _ := Set.ncard_le_ncard hslots

end MaglevLb.SlotMemory
