import MaglevLb.SteadyStep
import Mathlib.Data.Fintype.Card
import Mathlib.Data.String.Basic

/-!
# Calling `step` twice

When nothing changes between two steps, the second one has nothing left to do, except
in three cases: a responder that was due to be killed is killed again; a drain that
ended with its responder already dead leaves the slot to be freed; and a slot that was
freed is given to a backend that has none.
-/
namespace MaglevLb.Idempotence

open Children OrderedDict Slots Reconcile SlotMoves SlotViews SlotLifecycle SlotCommands
  SlotProgress SlotOwnership StillStep SteadyStep

variable {Id : Type*} {N : ℕ} {exits : Proc → Moment} {now : ℚ}

/-! ### What a step can leave undone -/

section Undone

variable [LinearOrder Id] (exits : Proc → Moment) (now : ℚ) (lb : Dict ℕ Observation)
  (latest : Proc → Option Stats) (r : Reconciler Id N)

/-- The responder of slot `i` is alive when the step begins. -/
def running (i : Fin N) : Bool := r.ex.nextTurn.alive exits ((r.slots i).proc i)

/-- The responder of the stopping slot `i` is to be killed. -/
def killDue (i : Fin N) : Bool :=
  (r.slots i).phase = .stopping && running exits r i &&
    (r.slots i).stopSince.any fun t => backendStopKillAfterMs ≤ now - t

/-- The drain of slot `i` is over with its responder already dead and seen down. -/
def drainEnds (i : Fin N) : Bool :=
  (r.slots i).owner.any (fun cid => !isActive r.desiredBackends cid) && (r.slots i).removing &&
    (r.slots i).phase = .draining && !running exits r i && !isUp lb i &&
    (quietOver now (quietAfter now (isIdle latest i (r.slots i)) (r.slots i).quietSince) ||
      (r.slots i).drainSince.any fun t => backendSlotDrainMaxMs ≤ now - t)

/-- The step frees slot `i`. -/
def frees (i : Fin N) : Bool :=
  !running exits r i && !isUp lb i && (r.slots i).owner.any fun cid =>
    (r.slots i).phase = .stopping ||
      !(r.slots i).removing && !isActive r.desiredBackends cid

/-- The free slots. -/
def vacant : Finset (Fin N) := Finset.univ.filter fun i => r.isFree i = true

/-- How many of these ids have no slot. -/
def waiting (l : List (Id × BackendNode Id)) : ℕ := l.countP fun e => (r.slotOf e.1).isNone

/-- More attached ids have no slot than slots are free. -/
def overfull : Bool :=
  (vacant r).card < waiting r (Reconciler.sortedActive r.desiredBackends)

/-- A freed slot is wanted: by its old owner, or by an id that waits. -/
def vacates : Prop :=
  ∃ i, frees exits lb r i = true ∧
    ((r.slots i).owner.any (isActive r.desiredBackends) = true ∨ overfull r = true)

/-- One step leaves nothing to do. -/
def OneStepSuffices : Prop :=
  (∀ i, killDue exits now r i = false ∧ drainEnds exits now lb latest r i = false) ∧
    ¬ vacates exits lb r

instance : Decidable (OneStepSuffices exits now lb latest r) := by
  unfold OneStepSuffices vacates
  infer_instance

end Undone

theorem drainOver_iff {idle : Bool} {s : Slot Id} :
    DrainOver now idle s ↔ (quietOver now (quietAfter now idle s.quietSince) ||
      s.drainSince.any fun t => backendSlotDrainMaxMs ≤ now - t) = true := by
  simp [DrainOver, Option.any_eq_true]

/-! ### Room for those who wait -/

section Room

variable [LinearOrder Id] {r : Reconciler Id N}

omit [LinearOrder Id] in
theorem mem_vacant {i : Fin N} : i ∈ vacant r ↔ (r.slots i).phase = .free := by
  simp [vacant, Reconciler.isFree]

theorem waiting_congr {r' : Reconciler Id N} {l : List (Id × BackendNode Id)}
    (h : ∀ e ∈ l, (∀ i, (r'.slots i).owner ≠ some e.1) ↔ ∀ i, (r.slots i).owner ≠ some e.1) :
    waiting r' l = waiting r l := by
  refine List.countP_congr fun e he => ?_
  rw [slotOf_isNone, slotOf_isNone]
  exact h e he

theorem waiting_cons {e : Id × BackendNode Id} {l : List (Id × BackendNode Id)}
    (h : ∀ i, (r.slots i).owner ≠ some e.1) : waiting r (e :: l) = waiting r l + 1 :=
  List.countP_cons_of_pos (p := fun e : Id × BackendNode Id => (r.slotOf e.1).isNone)
    (slotOf_isNone.mpr h)

/-- The additions place every id exactly when there are slots enough. -/
theorem foldl_addition_placed (hl : ∀ i, Lifecycle (r.slots i)) {l : List (Id × BackendNode Id)}
    (hnd : (l.map Prod.fst).Nodup) :
    (∀ e ∈ l, ∃ i, ((l.foldl Reconciler.addition r).slots i).owner = some e.1) ↔
      waiting r l ≤ (vacant r).card := by
  induction l generalizing r with
  | nil => simp [waiting]
  | cons e l ih =>
      rw [List.map_cons, List.nodup_cons] at hnd
      rw [List.foldl_cons]
      rcases addition_cases r e with ⟨⟨k, hk⟩, he⟩ | ⟨hnew, hfull, he⟩ | ⟨hnew, k, hk, he⟩
      · have howned : (r.slotOf e.1).isNone = false :=
          Bool.eq_false_iff.mpr fun h => slotOf_isNone.mp h k hk
        have hplaced : ∃ i, ((l.foldl Reconciler.addition r).slots i).owner = some e.1 :=
          ⟨k, by rw [foldl_addition_owner hl l (by simp [hk]), hk]⟩
        rw [he, List.forall_mem_cons, waiting, List.countP_cons_of_neg (by simp [howned])]
        exact (and_iff_right hplaced).trans (ih hl hnd.2)
      · -- no slot is free, so `e` and all others without a slot go on waiting
        have hzero : vacant r = ∅ :=
          Finset.eq_empty_of_forall_notMem fun i hi => hfull i (mem_vacant.mp hi)
        obtain ⟨pending, hstill⟩ := foldl_addition_still (r := r.addition e) (l := l)
          fun e' _ => .inr (by rw [he]; exact hfull)
        rw [waiting_cons hnew, hzero, Finset.card_empty]
        constructor
        · intro h
          obtain ⟨i, hi⟩ := h e List.mem_cons_self
          rw [hstill, he] at hi
          exact absurd hi (hnew i)
        · intro h
          omega
      · have hlk : Lifecycle (r.slots k) := hl k
        have hls := addition_lifecycle hl e
        have howner := addition_put_owner he
        have hplaced : ∃ i, ((l.foldl Reconciler.addition (r.addition e)).slots i).owner =
            some e.1 :=
          ⟨k, by rw [foldl_addition_owner hls l (by simp [howner]), howner, if_pos rfl]⟩
        have hwaiting : waiting (r.addition e) l = waiting r l := by
          refine waiting_congr fun e' he' => forall_congr' fun i => ?_
          have hne : e.1 ≠ e'.1 := fun heq => hnd.1 (heq ▸ List.mem_map_of_mem he')
          rw [howner]
          split
          · next hi =>
              rw [hi, hlk.owner_iff.mpr hk]
              simp [hne]
          · rfl
        have hvacant : vacant (r.addition e) = (vacant r).erase k := by
          ext i
          rw [Finset.mem_erase, mem_vacant, mem_vacant, ← (hls i).owner_iff, ← (hl i).owner_iff,
            howner]
          split
          · next hi => simp [hi]
          · next hi => simp [hi]
        rw [List.forall_mem_cons, and_iff_right hplaced, ih hls hnd.2, hwaiting, hvacant,
          Finset.card_erase_of_mem (mem_vacant.mpr hk), waiting_cons hnew]
        have hpos : 0 < (vacant r).card := Finset.card_pos.mpr ⟨k, mem_vacant.mpr hk⟩
        omega

/-- With a free slot and an id that has none, the additions start a responder. -/
theorem foldl_addition_grows {l : List (Id × BackendNode Id)} {k : Fin N}
    (hk : (r.slots k).phase = .free) {e : Id × BackendNode Id} (he : e ∈ l)
    (hnew : ∀ i, (r.slots i).owner ≠ some e.1) :
    r.ex.log.length < (l.foldl Reconciler.addition r).ex.log.length := by
  induction l with
  | nil => cases he
  | cons e' l ih =>
      rw [List.foldl_cons]
      rcases addition_cases r e' with ⟨⟨i, hi⟩, hsame⟩ | ⟨-, hfull, -⟩ | ⟨-, k', -, hspawn⟩
      · rw [hsame]
        refine ih ((List.mem_cons.mp he).resolve_left fun heq => ?_)
        exact hnew i (heq ▸ hi)
      · exact absurd hk (hfull k)
      · have hone : r.ex.log.length < (r.addition e').ex.log.length := by
          rw [hspawn]
          simp [Reconciler.put, spawn]
        exact hone.trans_le foldl_addition_tends.length_le

end Room

/-! ### Slots that a second step acts on -/

section Slot

variable {i : ℕ} [LinearOrder Id] {want : Dict Id (BackendNode Id)} {lb : Dict ℕ Observation}
  {latest : Proc → Option Stats} {ex₁ ex₂ : Executor} {v v' v₃ v₄ : Site Id}

/-- A slot under removal that is not put back reaches the progress loop as it was. -/
theorem SlotStep.stays (h : SlotStep exits now i want lb latest v ex₁ ex₂ v₃ v₄ v')
    (hl : Lifecycle v.slot) (hr : v.slot.removing = true)
    (hkeep : ∀ cid, v.slot.owner = some cid → isActive want cid = true →
      v.slot.phase ≠ .draining) : v₃.slot = v.slot := by
  have hsame : (removal exits now i want ⟨v.slot, ex₁⟩).slot = v.slot := by
    have hvisit := removal_cases exits now i want ⟨v.slot, ex₁⟩
    generalize removal exits now i want ⟨v.slot, ex₁⟩ = w at hvisit
    cases hvisit with
    | free | kept => rfl
    | drains _ _ hr' => exact absurd (hr'.symm.trans hr) Bool.false_ne_true
    | stops _ _ hr' => exact absurd (hr'.symm.trans hr) Bool.false_ne_true
    | cancels ho ha _ hp => exact absurd hp (hkeep _ ho ha)
  have hadded := h.added
  rw [hsame] at hadded
  cases hadded with
  | kept hs => exact hs
  | taken _ _ _ hf => exact absurd (hl.removing hr) (by simp [show v.slot.phase = .free from hf])

theorem SlotStep.grows (h : SlotStep exits now i want lb latest v ex₁ ex₂ v₃ v₄ v')
    (hlt : v₃.ex.log.length < v₄.ex.log.length) : v.ex.log.length < v'.ex.log.length :=
  (((SlotStep.begins h).trans h.added.advances).length_le.trans_lt hlt).trans_le
    h.after.length_le

theorem progress_stopping (hp : v.slot.phase = .stopping) (hl : Lifecycle v.slot)
    (h : progress exits now i want lb latest v = some v') :
    ∃ v₁, stopFurther now i (isUp lb i) (v.ex.alive exits (v.slot.proc i))
      ⟨v.slot, v.ex.tick⟩ = some v₁ ∧
      v' = configure i want (v.ex.alive exits (v.slot.proc i)) v₁ := by
  have howned : v.slot.owner ≠ none := hl.owned (by simp [hp])
  unfold progress at h
  rw [if_neg howned] at h
  dsimp only at h
  rw [if_neg (by simp [hl.stopping hp])] at h
  obtain ⟨v₁, hadv, rfl⟩ := Option.map_eq_some_iff.mp h
  unfold advance at hadv
  simp only [hp] at hadv
  exact ⟨v₁, hadv, rfl⟩

theorem progress_kills (hp : v.slot.phase = .stopping) (hl : Lifecycle v.slot)
    (halive : v.ex.alive exits (v.slot.proc i) = true) {since : ℚ}
    (hsince : v.slot.stopSince = some since) (hlong : backendStopKillAfterMs ≤ now - since)
    (h : progress exits now i want lb latest v = some v') :
    v.ex.log.length < v'.ex.log.length := by
  obtain ⟨v₁, hstop, rfl⟩ := progress_stopping hp hl h
  rw [stopFurther, if_pos halive, hsince, Option.map_some, if_pos hlong] at hstop
  cases hstop
  dsimp only
  rw [configure_of_removing (v := ⟨v.slot, v.ex.tick.call (.kill (v.slot.proc i))⟩)
    (hl.stopping hp)]
  simp

theorem progress_undrains (hp : v.slot.phase = .stopping) (hl : Lifecycle v.slot)
    (hdead : v.ex.alive exits (v.slot.proc i) = false) (hdown : isUp lb i = false)
    (h : progress exits now i want lb latest v = some v') :
    v.ex.log.length < v'.ex.log.length := by
  obtain ⟨v₁, hstop, rfl⟩ := progress_stopping hp hl h
  rw [stopFurther, if_neg (by simp [hdead]), if_neg (by simp [hdown])] at hstop
  cases hstop
  rw [configure_of_unowned rfl]
  dsimp only
  split <;> simp

/-- A slot that was taken in a step is not freed in it. -/
theorem SlotStep.inService (h : SlotStep exits now i want lb latest v ex₁ ex₂ v₃ v₄ v')
    (hl : Lifecycle v.slot) (ho : v.slot.owner = none) (ho₃ : v₃.slot.owner ≠ none) :
    v'.slot.owner = v₃.slot.owner := by
  have howner : (removal exits now i want ⟨v.slot, ex₁⟩).slot.owner = none :=
    (removal_owner (v := ⟨v.slot, ex₁⟩)).trans ho
  rw [h.slot]
  cases h.added with
  | kept hs =>
      rw [hs] at ho₃
      exact absurd howner ho₃
  | taken cid cfg ex hf _ hs _ =>
      have hfresh := (removal_lifecycle (v := ⟨v.slot, ex₁⟩) hl).fresh hf
      have hr : v₃.slot.removing = false := by
        rw [hs]
        simp only [spawn, hfresh]
        rfl
      exact (Path.inService (progress_path h.progress) hr (by simp [hs, spawn])).1

/-- Additions leave an owner its slot. -/
theorem SlotStep.owner_added (h : SlotStep exits now i want lb latest v ex₁ ex₂ v₃ v₄ v')
    (hl : Lifecycle v.slot) {cid : Id} (ho : v.slot.owner = some cid) :
    v₃.slot.owner = some cid := by
  have howner : (removal exits now i want ⟨v.slot, ex₁⟩).slot.owner = some cid :=
    (removal_owner (v := ⟨v.slot, ex₁⟩)).trans ho
  cases h.added with
  | kept hs =>
      rw [hs]
      exact howner
  | taken _ _ _ hf =>
      have hnone := (removal_lifecycle (v := ⟨v.slot, ex₁⟩) hl).owner_iff.mpr hf
      exact absurd (hnone.symm.trans howner) (by simp)

/-- The step frees the slot of `cid`. -/
theorem SlotStep.frees_iff (h : SlotStep exits now i want lb latest v ex₁ ex₂ v₃ v₄ v')
    (hl : Lifecycle v.slot) (hsteady : ∀ p, v.slot.proc i = some p → Steady exits v.ex p)
    {cid : Id} (ho : v.slot.owner = some cid)
    (htended : ∀ cid, v₃.slot.owner = some cid → v₃.slot.removing = false →
      isActive want cid = true) :
    v'.slot.owner = none ↔ v.ex.alive exits (v.slot.proc i) = false ∧ isUp lb i = false ∧
      (v.slot.phase = .stopping ∨ v.slot.removing = false ∧ isActive want cid = false) := by
  have hl₃ : Lifecycle v₃.slot := SlotStep.lifecycle h hl
  have hbefore : ex₁.alive exits (v.slot.proc i) = v.ex.alive exits (v.slot.proc i) :=
    Steady.alive_eq hsteady (.of_advances h.before)
  have hthere : v₃.ex.alive exits (v.slot.proc i) = v.ex.alive exits (v.slot.proc i) :=
    Steady.alive_eq hsteady (.of_advances ((SlotStep.begins h).trans h.added.advances))
  rw [h.slot]
  by_cases hr : v₃.slot.removing = true
  · have hready := SlotStep.ready h hl hr
    have hremoved := progress_removed hl₃ hr h.progress
    rw [(SlotStep.kept h hl hr).1, removal_proc (v := ⟨v.slot, ex₁⟩),
      ← (SlotStep.kept h hl hr).1, hthere] at hremoved
    rw [hbefore] at hready
    cases hready with
    | going hr₀ _ _ heq =>
        rw [heq] at hremoved
        cases hremoved with
        | waits hp _ heq' => simp [heq', ho, hp, hr₀]
        | stops hp _ heq' => simp [heq', ho, hp, hr₀]
        | lingers _ hup heq' =>
            rw [heq', ho]
            exact iff_of_false (by simp) fun hc => by simp [hup hc.1] at hc
        | freed hp hdead hdown heq' =>
            rw [heq']
            exact iff_of_true rfl ⟨hdead, hdown, .inl hp⟩
    | drains _ _ _ heq halive =>
        rw [heq] at hremoved
        cases hremoved with
        | waits _ _ heq' => simp [heq', drainBegun, ho, halive]
        | stops _ hover => exact absurd hover not_drainOver_drainBegun
        | lingers hp => cases hp
        | freed hp => cases hp
    | stops hr₀ ho' ha heq =>
        cases ho.symm.trans ho'
        rw [heq] at hremoved
        cases hremoved with
        | waits hp => cases hp
        | stops hp => cases hp
        | lingers _ hup heq' =>
            rw [heq']
            exact iff_of_false (by simp [ho]) fun hc => by simp [hup hc.1] at hc
        | freed _ hdead hdown heq' =>
            rw [heq']
            exact iff_of_true rfl ⟨hdead, hdown, .inr ⟨hr₀, ha⟩⟩
  · have ho₃ : v₃.slot.owner = some cid := SlotStep.owner_added h hl ho
    have hr₃ : v₃.slot.removing = false := by simpa using hr
    have howner : v₄.slot.owner = v₃.slot.owner :=
      (Path.inService (progress_path h.progress) hr₃ fun hp => hr (hl₃.stopping hp)).1
    refine iff_of_false (by simp [howner, ho₃]) ?_
    rintro ⟨-, -, hp | ⟨-, ha⟩⟩
    · have hr₀ := hl.stopping hp
      rw [SlotStep.stays h hl hr₀ fun _ _ _ => by simp [hp]] at hr
      exact hr hr₀
    · exact absurd (ha.symm.trans (htended cid ho₃ hr₃)) Bool.false_ne_true

end Slot

section Second

variable [LinearOrder Id] {r r' : Reconciler Id N} {lb : Dict ℕ Observation}
  {latest : Proc → Option Stats}

/-- A step acts on a stopping slot whose responder is to be killed, or is dead and seen down. -/
theorem step_stopping_grows (h : r.step exits now lb latest = some r')
    (hl : ∀ i, Lifecycle (r.slots i)) {i : Fin N} (hp : (r.slots i).phase = .stopping)
    {alive : Bool} (halive : ∀ ex, Executor.Advances (fun _ => True) r.ex ex →
      ex.alive exits ((r.slots i).proc i) = alive)
    (hact : alive = true ∧
        (∃ since, (r.slots i).stopSince = some since ∧ backendStopKillAfterMs ≤ now - since) ∨
      alive = false ∧ isUp lb i = false) : r.ex.log.length < r'.ex.log.length := by
  obtain ⟨ex₁, ex₂, v₃, v₄, hview⟩ := step_view h i
  have hslot : v₃.slot = r.slots i :=
    SlotStep.stays hview (hl i) ((hl i).stopping hp) fun _ _ _ => by simp [hp]
  have hthere := halive v₃.ex ((SlotStep.begins hview).trans hview.added.advances)
  rw [← hslot] at hthere hp
  have hl₃ : Lifecycle v₃.slot := hslot ▸ hl i
  refine SlotStep.grows hview ?_
  rcases hact with ⟨rfl, since, hsince, hlong⟩ | ⟨rfl, hdown⟩
  · exact progress_kills hp hl₃ hthere (hslot ▸ hsince) hlong hview.progress
  · exact progress_undrains hp hl₃ hthere hdown hview.progress

/-- A step gives a free slot to an attached backend that has none. -/
theorem step_vacant_grows (h : r.step exits now lb latest = some r') {k : Fin N}
    (hl : ∀ i, Lifecycle (r.slots i)) (hk : (r.slots k).phase = .free) {cid : Id}
    (ha : isActive r.desiredBackends cid = true) (hnew : ∀ i, (r.slots i).owner ≠ some cid) :
    r.ex.log.length < r'.ex.log.length := by
  have hclients : ClientWork r (Reconciler.stepClients exits r) := stepClients_work
  obtain ⟨r₁, hremoval, hprogress⟩ := step_loops h
  have howner := removals_owner_eq hremoval
  have hl₁ : ∀ i, Lifecycle (r₁.slots i) := removals_lifecycle hl hremoval
  have hk₁ : (r₁.slots k).phase = .free := by
    rw [← (hl₁ k).owner_iff, howner, (hl k).owner_iff, hk]
  obtain ⟨b, hb⟩ := mem_sortedActive ha
  have hgrows : r₁.ex.log.length < (Reconciler.additions r.desiredBackends r₁).ex.log.length :=
    foldl_addition_grows (r := { r₁ with pending := ∅ }) hk₁ hb fun i => by
      rw [howner]
      exact hnew i
  calc r.ex.log.length ≤ r₁.ex.log.length :=
        (hclients.ex 0).length_le.trans (forSlots_tends removal_visit hremoval).length_le
    _ < (Reconciler.additions r.desiredBackends r₁).ex.log.length := hgrows
    _ ≤ r'.ex.log.length :=
        (forSlots_tends (fun hv => Path.tends (progress_path hv)) hprogress).length_le

end Second

/-! ### The step before -/

section First

variable [LinearOrder Id] {r r₁ r₂ : Reconciler Id N} {lb : Dict ℕ Observation}
  {latest : Proc → Option Stats} {i : Fin N}

theorem apply_advances (h : apply exits r (.step now lb latest) = some r₁) :
    Executor.Advances (fun _ => True) r.ex.nextTurn r₁.ex :=
  (step_within (r := { r with ex := r.ex.nextTurn }) h).any

/-- The responder that a slot kept in one step is the same in the next. -/
theorem alive_next (h : apply exits r (.step now lb latest) = some r₁) (hu : Unchanged exits r)
    (hproc : (r₁.slots i).proc i = (r.slots i).proc i) {ex : Executor}
    (hex : Executor.Advances (fun _ => True) r₁.ex.nextTurn ex) :
    ex.alive exits ((r₁.slots i).proc i) = running exits r i := by
  rw [hproc]
  exact Steady.alive_eq (hu.slots i) (.next (apply_advances h) hex)

/-- A slot under removal, as a step leaves it. -/
theorem removed_after (h : apply exits r (.step now lb latest) = some r₁)
    (hl : ∀ i, Lifecycle (r.slots i)) (hu : Unchanged exits r)
    (hr : (r.slots i).removing = true)
    (hkeep : ∀ cid, (r.slots i).owner = some cid → isActive r.desiredBackends cid = true →
      (r.slots i).phase ≠ .draining) :
    Removed now (isUp lb i) (isIdle latest i (r.slots i)) (running exits r i) (r.slots i)
      (r₁.slots i) := by
  obtain ⟨ex₁, ex₂, v₃, v₄, hview⟩ := step_view (r := { r with ex := r.ex.nextTurn }) h i
  have hslot : v₃.slot = r.slots i := SlotStep.stays hview (hl i) hr hkeep
  have hr₃ : v₃.slot.removing = true := hslot ▸ hr
  have hthere : v₃.ex.alive exits ((r.slots i).proc i) = running exits r i :=
    Steady.alive_eq (hu.slots i)
      (.of_advances ((SlotStep.begins hview).trans hview.added.advances))
  have hremoved := progress_removed (hslot ▸ hl i) hr₃ hview.progress
  rw [hslot, hthere, ← hview.slot] at hremoved
  exact hremoved

theorem killDue_grows (h : apply exits r (.step now lb latest) = some r₁)
    (h' : apply exits r₁ (.step now lb latest) = some r₂) (hl : ∀ i, Lifecycle (r.slots i))
    (hl₁ : ∀ i, Lifecycle (r₁.slots i)) (hu : Unchanged exits r)
    (hdue : killDue exits now r i = true) : r₁.ex.log.length < r₂.ex.log.length := by
  simp only [killDue, Bool.and_eq_true, decide_eq_true_eq] at hdue
  obtain ⟨⟨hp, halive⟩, hlong⟩ := hdue
  obtain ⟨since, hsince, hlong⟩ := (Option.any_eq_true _ _).mp hlong
  have hslot : r₁.slots i = r.slots i := by
    cases removed_after h hl hu ((hl i).stopping hp) fun _ _ _ => by simp [hp] with
    | waits hd => exact absurd (hp.symm.trans hd) (by decide)
    | stops hd => exact absurd (hp.symm.trans hd) (by decide)
    | lingers _ _ heq => exact heq
    | freed _ hdead => exact absurd (hdead.symm.trans halive) Bool.false_ne_true
  refine step_stopping_grows (r := { r₁ with ex := r₁.ex.nextTurn }) h' hl₁
    (show (r₁.slots i).phase = .stopping from hslot ▸ hp)
    (fun ex hex => alive_next h hu (by rw [hslot]) hex)
    (.inl ⟨halive, since, ?_, by simpa using hlong⟩)
  exact hslot ▸ hsince

theorem drainEnds_grows (h : apply exits r (.step now lb latest) = some r₁)
    (h' : apply exits r₁ (.step now lb latest) = some r₂) (hl : ∀ i, Lifecycle (r.slots i))
    (hl₁ : ∀ i, Lifecycle (r₁.slots i)) (hu : Unchanged exits r)
    (hends : drainEnds exits now lb latest r i = true) : r₁.ex.log.length < r₂.ex.log.length := by
  simp only [drainEnds, Bool.and_eq_true, decide_eq_true_eq, Bool.not_eq_true'] at hends
  obtain ⟨⟨⟨⟨⟨hinactive, hr⟩, hp⟩, hdead⟩, hdown⟩, hover⟩ := hends
  obtain ⟨cid, ho, ha⟩ := (Option.any_eq_true _ _).mp hinactive
  have hkeep : ∀ cid', (r.slots i).owner = some cid' → isActive r.desiredBackends cid' = true →
      (r.slots i).phase ≠ .draining := by
    intro cid' ho' ha'
    cases ho.symm.trans ho'
    exact absurd ha' (by simpa using ha)
  cases removed_after h hl hu hr hkeep with
  | waits _ hnot => exact absurd (drainOver_iff.mpr hover) hnot
  | stops _ _ heq =>
      refine step_stopping_grows (r := { r₁ with ex := r₁.ex.nextTurn }) h' hl₁
        (show (r₁.slots i).phase = .stopping by rw [heq])
        (fun ex hex => alive_next h hu (by rw [heq]; rfl) hex) (.inr ⟨hdead, hdown⟩)
  | lingers hs => exact absurd (hp.symm.trans hs) (by decide)
  | freed hs => exact absurd (hp.symm.trans hs) (by decide)

/-- `a` is the state between the additions and the progress loop of a step from `r` to `r₁`. -/
structure Between (exits : Proc → Moment) (lb : Dict ℕ Observation) (r r₁ a : Reconciler Id N) :
    Prop where
  distinct : Distinct a
  free_iff : ∀ i, (a.slots i).owner = none ↔ (a.slots i).phase = .free
  kept : ∀ i, (r.slots i).owner ≠ none → (a.slots i).owner = (r.slots i).owner
  later : ∀ i, (r₁.slots i).owner = (a.slots i).owner ∨ (r₁.slots i).owner = none
  freed : ∀ i, (a.slots i).owner ≠ none →
    ((r₁.slots i).owner = none ↔ frees exits lb r i = true)
  pending : ∀ cid, cid ∈ r₁.pending ↔
    isActive r.desiredBackends cid = true ∧ ∀ i, (a.slots i).owner ≠ some cid
  full : ∀ cid, isActive r.desiredBackends cid = true →
    (∃ i, (a.slots i).owner = some cid) ∨ ∀ i, (a.slots i).phase ≠ .free
  placed : overfull r = false ↔
    ∀ cid, isActive r.desiredBackends cid = true → ∃ i, (a.slots i).owner = some cid

/-- The additions place every attached backend exactly when there are slots enough. -/
theorem overfull_additions {r' : Reconciler Id N} (hl : ∀ i, Lifecycle (r.slots i))
    (hl' : ∀ i, Lifecycle (r'.slots i))
    (howner : ∀ i, (r'.slots i).owner = (r.slots i).owner) :
    overfull r = false ↔ ∀ cid, isActive r.desiredBackends cid = true →
      ∃ i, ((Reconciler.additions r.desiredBackends r').slots i).owner = some cid := by
  have hwaiting : waiting { r' with pending := ∅ } (Reconciler.sortedActive r.desiredBackends) =
      waiting r (Reconciler.sortedActive r.desiredBackends) :=
    waiting_congr fun e _ => forall_congr' fun i => by rw [← howner i]
  have hvacant : vacant { r' with pending := ∅ } = vacant r := by
    ext i
    rw [mem_vacant, mem_vacant, ← (hl i).owner_iff, ← howner, (hl' i).owner_iff]
  have hplaced := foldl_addition_placed (r := { r' with pending := ∅ }) hl'
    (sortedActive_nodup r.desiredBackends)
  rw [hwaiting, hvacant] at hplaced
  rw [overfull, decide_eq_false_iff_not, not_lt, ← hplaced]
  constructor
  · intro hall cid ha
    obtain ⟨b, hb⟩ := mem_sortedActive ha
    exact hall _ hb
  · exact fun hall e he => hall e.1 (isActive_of_mem he)

theorem step_between (h : apply exits r (.step now lb latest) = some r₁)
    (hl : ∀ i, Lifecycle (r.slots i)) (hd : Distinct r) (hu : Unchanged exits r) :
    ∃ a, Between exits lb r r₁ a := by
  obtain ⟨r', hremoval, hprogress, hviews⟩ := step_views (r := { r with ex := r.ex.nextTurn }) h
  have howner (i : Fin N) : (r'.slots i).owner = (r.slots i).owner := removals_owner_eq hremoval i
  have hl' : ∀ i, Lifecycle (r'.slots i) :=
    removals_lifecycle (r := { r with ex := r.ex.nextTurn }) hl hremoval
  have htended : Tended r.desiredBackends (Reconciler.additions r.desiredBackends r') :=
    additions_tended (r := { r with ex := r.ex.nextTurn }) hremoval
  have hla : ∀ i, Lifecycle ((Reconciler.additions r.desiredBackends r').slots i) :=
    foldl_addition_lifecycle (r := { r' with pending := ∅ }) hl' _
  have hkept (i : Fin N) (ho : (r.slots i).owner ≠ none) :
      ((Reconciler.additions r.desiredBackends r').slots i).owner = (r.slots i).owner := by
    rw [← howner] at ho ⊢
    rw [Reconciler.additions, foldl_addition_owner (r := { r' with pending := ∅ }) hl' _ ho]
  have houtcome := foldl_addition_outcome (r := { r' with pending := ∅ }) hl'
    (Reconciler.sortedActive r.desiredBackends)
  have hpending : r₁.pending = (Reconciler.additions r.desiredBackends r').pending := by
    rw [forSlots_books hprogress]
    rfl
  refine ⟨Reconciler.additions r.desiredBackends r', ?_, fun i => (hla i).owner_iff, hkept,
    progress_owner_or hprogress, fun i ho => ?_, fun cid => ?_, fun cid ha => ?_,
    overfull_additions hl hl' howner⟩
  · refine foldl_addition_distinct (r := { r' with pending := ∅ }) ?_ _
    exact hd.of_le fun i => .inl (howner i)
  · obtain ⟨ex₁, ex₂, ex₃, v₄, hview⟩ := hviews i
    cases hor : (r.slots i).owner with
    | some cid =>
        have hfrees : (r₁.slots i).owner = none ↔
            r.ex.nextTurn.alive exits ((r.slots i).proc i) = false ∧ isUp lb i = false ∧
              ((r.slots i).phase = .stopping ∨
                (r.slots i).removing = false ∧ isActive r.desiredBackends cid = false) :=
          SlotStep.frees_iff hview (hl i) (hu.slots i) hor (htended i)
        rw [hfrees]
        simp [frees, running, hor, and_assoc]
    | none =>
        have hserves := SlotStep.inService hview (hl i) hor ho
        exact iff_of_false (fun hnone => ho (hserves.symm.trans hnone)) (by simp [frees, hor])
  · rw [hpending]
    exact mem_pending_additions hl'
  · obtain ⟨b, hb⟩ := mem_sortedActive ha
    exact (houtcome.2 _ hb).imp_right fun h => h.2

theorem desiredBackends_after (h : apply exits r (.step now lb latest) = some r₁) :
    r₁.desiredBackends = r.desiredBackends := by
  rw [Reconciler.desiredBackends, step_desired (r := { r with ex := r.ex.nextTurn }) h,
    Reconciler.desiredBackends]

theorem vacates_grows (h : apply exits r (.step now lb latest) = some r₁)
    (h' : apply exits r₁ (.step now lb latest) = some r₂) (hl₁ : ∀ i, Lifecycle (r₁.slots i))
    {a : Reconciler Id N} (hb : Between exits lb r r₁ a) (hv : vacates exits lb r) :
    r₁.ex.log.length < r₂.ex.log.length := by
  obtain ⟨k, hk, hwanted⟩ := hv
  have hdesired := desiredBackends_after h
  have hor : (r.slots k).owner ≠ none := fun hnone => by simp [frees, hnone] at hk
  have hoa : (a.slots k).owner ≠ none := by rwa [hb.kept k hor]
  have hfree : (r₁.slots k).owner = none := (hb.freed k hoa).mpr hk
  have hnew {cid : Id} (hno : ∀ i, (a.slots i).owner = some cid → i = k) (i : Fin N) :
      (r₁.slots i).owner ≠ some cid := by
    intro ho
    have hia := (hb.later i).resolve_right (by simp [ho])
    cases hno i (hia.symm.trans ho)
    exact absurd (hfree.symm.trans ho) (by simp)
  have hgrows {cid : Id} (ha : isActive r.desiredBackends cid = true)
      (hno : ∀ i, (a.slots i).owner = some cid → i = k) :
      r₁.ex.log.length < r₂.ex.log.length :=
    step_vacant_grows (r := { r₁ with ex := r₁.ex.nextTurn }) h' hl₁
      ((hl₁ k).owner_iff.mp hfree)
      (show isActive r₁.desiredBackends cid = true from hdesired ▸ ha) (hnew hno)
  rcases hwanted with hactive | hover
  · obtain ⟨cid, ho, ha⟩ := (Option.any_eq_true _ _).mp hactive
    exact hgrows ha fun i hi => hb.distinct hi ((hb.kept k hor).trans ho)
  · have hsome : ∃ cid, isActive r.desiredBackends cid = true ∧
        ∀ i, (a.slots i).owner ≠ some cid := by
      by_contra hall
      push Not at hall
      exact absurd (hb.placed.mpr hall) (by simp [hover])
    obtain ⟨cid, ha, hno⟩ := hsome
    exact hgrows ha fun i hi => absurd hi (hno i)

/-- The second of two steps issues no command and changes nothing. -/
structure Repeats (r₁ r₂ : Reconciler Id N) : Prop where
  log : r₂.ex.log = r₁.ex.log
  slots : r₂.slots = r₁.slots
  clients : r₂.clients = r₁.clients
  slotMemory : r₂.slotMemory = r₁.slotMemory
  pending : r₂.pending = r₁.pending

section Suffices

variable {a : Reconciler Id N}

/-- An attached backend that had a slot after the additions keeps it. -/
theorem Between.owner_after (hb : Between exits lb r r₁ a) (hv : ¬ vacates exits lb r) {cid : Id}
    (ha : isActive r.desiredBackends cid = true) {i : Fin N}
    (hi : (a.slots i).owner = some cid) : (r₁.slots i).owner = some cid := by
  rcases hb.later i with hsame | hnone
  · exact hsame.trans hi
  · have hk := (hb.freed i (by simp [hi])).mp hnone
    have hor : (r.slots i).owner ≠ none := fun hn => by simp [frees, hn] at hk
    have ho : (r.slots i).owner = some cid := (hb.kept i hor).symm.trans hi
    exact absurd ⟨i, hk, .inl (by simp [ho, ha])⟩ hv

theorem Between.unowned_iff (hb : Between exits lb r r₁ a) (hv : ¬ vacates exits lb r) {cid : Id}
    (ha : isActive r.desiredBackends cid = true) :
    (∀ i, (r₁.slots i).owner ≠ some cid) ↔ ∀ i, (a.slots i).owner ≠ some cid := by
  constructor
  · exact fun hno i hi => hno i (hb.owner_after hv ha hi)
  · exact fun hno i hi => hno i (((hb.later i).resolve_right (by simp [hi])).symm.trans hi)

theorem Between.placed_after (hb : Between exits lb r r₁ a) (hl₁ : ∀ i, Lifecycle (r₁.slots i))
    (hv : ¬ vacates exits lb r) (cid : Id) (ha : isActive r.desiredBackends cid = true) :
    (∃ i, (r₁.slots i).owner = some cid) ∨ ∀ i, (r₁.slots i).phase ≠ .free := by
  by_contra hnot
  push Not at hnot
  obtain ⟨hno, k, hk⟩ := hnot
  have hnoa := (hb.unowned_iff hv ha).mp hno
  have hfull := (hb.full cid ha).resolve_left (not_exists.mpr hnoa)
  -- the free slot was freed by the progress loop, and an id was waiting
  have hoa : (a.slots k).owner ≠ none := fun hn => hfull k ((hb.free_iff k).mp hn)
  have hk' := (hb.freed k hoa).mp ((hl₁ k).owner_iff.mpr hk)
  have hover : overfull r = true := by
    by_contra hover
    obtain ⟨i, hi⟩ := hb.placed.mp (by simpa using hover) cid ha
    exact hnoa i hi
  exact hv ⟨k, hk', .inr hover⟩

theorem settled_of_suffices (h : apply exits r (.step now lb latest) = some r₁)
    (hl : ∀ i, Lifecycle (r.slots i)) (hu : Unchanged exits r)
    (hslots : ∀ i, killDue exits now r i = false ∧ drainEnds exits now lb latest r i = false)
    (i : Fin N) (ho : (r₁.slots i).owner ≠ none) : ∃ alive,
      Settled now i r.desiredBackends lb latest alive (r₁.slots i) ∧
      ∀ ex, Still r₁.ex.nextTurn ex → ex.alive exits ((r₁.slots i).proc i) = alive := by
  obtain ⟨hkill, hdrain⟩ := hslots i
  refine slotSettled_after h hl hu ?_ ?_ ho
  · intro hp halive t ht hlong
    simp [killDue, running, hp, halive, ht, hlong] at hkill
  · intro hr hp hover hinactive hdead
    by_contra hdown
    rw [Bool.not_eq_true] at hdown
    obtain ⟨cid, hcid⟩ := Option.ne_none_iff_exists'.mp ((hl i).owned (by simp [hp]))
    have hends : drainEnds exits now lb latest r i = true := by
      simpa [drainEnds, running, hcid, hinactive cid hcid, hr, hp, hdead, hdown] using
        drainOver_iff.mp hover
    exact absurd (hdrain.symm.trans hends) Bool.false_ne_true

end Suffices

theorem repeats_of_suffices (h : apply exits r (.step now lb latest) = some r₁)
    (h' : apply exits r₁ (.step now lb latest) = some r₂) (hl : ∀ i, Lifecycle (r.slots i))
    (hl₁ : ∀ i, Lifecycle (r₁.slots i)) (hu : Unchanged exits r) {a : Reconciler Id N}
    (hb : Between exits lb r r₁ a) (hs : OneStepSuffices exits now lb latest r) :
    Repeats r₁ r₂ := by
  obtain ⟨hslots, hv⟩ := hs
  have hdesired := desiredBackends_after h
  have hplaced := hb.placed_after hl₁ hv
  have hsettled := settled_of_suffices h hl hu hslots
  rw [← hdesired] at hplaced hsettled
  obtain ⟨ex', pending, hstep, hstill, hpending⟩ :=
    step_still (r := { r₁ with ex := r₁.ex.nextTurn }) hl₁ (clientsSettled_after h hu) hsettled
      hplaced
  cases h'.symm.trans hstep
  refine ⟨hstill.log, rfl, rfl, rfl, ?_⟩
  ext cid
  have hmem : cid ∈ pending ↔
      isActive r₁.desiredBackends cid = true ∧ ∀ i, (r₁.slots i).owner ≠ some cid := hpending cid
  rw [hmem, hb.pending, hdesired]
  exact and_congr_right fun ha => hb.unowned_iff hv ha

end First

/-- In every reachable state, when no process exits over two steps with the same
inputs: the second step issues no command and changes nothing exactly when the first
leaves nothing to do. -/
theorem step_twice [LinearOrder Id] (exits : Proc → Moment) (es : List (Event Id)) (now : ℚ)
    (lb : Dict ℕ Observation) (latest : Proc → Option Stats) (r : Reconciler Id N)
    (hr : run exits (Reconciler.init Id N) es = some r) (hu : Unchanged exits r) :
    ∃ r₁ r₂, apply exits r (.step now lb latest) = some r₁ ∧
      apply exits r₁ (.step now lb latest) = some r₂ ∧
      (Repeats r₁ r₂ ↔ OneStepSuffices exits now lb latest r) := by
  have hl : ∀ i, Lifecycle (r.slots i) := run_lifecycle init_lifecycle hr
  obtain ⟨r₁, h⟩ : ∃ r₁, apply exits r (.step now lb latest) = some r₁ := apply_exists hl _
  have hr₁ : run exits (Reconciler.init Id N) (es ++ [.step now lb latest]) = some r₁ := by
    rw [run_concat, hr, Option.bind_some, h]
  have hl₁ : ∀ i, Lifecycle (r₁.slots i) := run_lifecycle init_lifecycle hr₁
  obtain ⟨r₂, h'⟩ : ∃ r₂, apply exits r₁ (.step now lb latest) = some r₂ := apply_exists hl₁ _
  obtain ⟨a, hb⟩ := step_between h hl (run_distinct hr) hu
  refine ⟨r₁, r₂, h, h', fun hrep => ⟨fun i => ⟨?_, ?_⟩, fun hv => ?_⟩,
    repeats_of_suffices h h' hl hl₁ hu hb⟩
  · exact Bool.eq_false_iff.mpr fun hdue =>
      (killDue_grows h h' hl hl₁ hu hdue).ne' (by rw [hrep.log])
  · exact Bool.eq_false_iff.mpr fun hends =>
      (drainEnds_grows h h' hl hl₁ hu hends).ne' (by rw [hrep.log])
  · exact (vacates_grows h h' hl₁ hb hv).ne' (by rw [hrep.log])

/-- One backend takes the place of another on the canvas. -/
def replaced : List (Event String) :=
  [.setDesired (canvas ["b1"]), .step 1 (observe []) fun _ => none, .setDesired (canvas ["b2"])]

/-- The first backend is drained before the second gets its slot. -/
theorem step_twice_replaced :
    ∃ r r₁ r₂ : Reconciler String 1,
      run (fun _ => toLex (9, 0)) (Reconciler.init String 1) replaced = some r ∧
      apply (fun _ => toLex (9, 0)) r (.step 2 (observe [(0, true)]) fun _ => none) = some r₁ ∧
      apply (fun _ => toLex (9, 0)) r₁ (.step 2 (observe [(0, true)]) fun _ => none) = some r₂ ∧
      Repeats r₁ r₂ := by
  have hrun : (run (fun _ => toLex (9, 0)) (Reconciler.init String 1) replaced).any (fun r =>
      OneStepSuffices (fun _ => toLex (9, 0)) 2 (observe [(0, true)]) (fun _ => none) r ∧
      (ofLex r.ex.nextTurn.now).1 + 1 < 9) = true := by decide +kernel
  obtain ⟨r, hr, h⟩ := (Option.any_eq_true _ _).mp hrun
  obtain ⟨hs, hturn⟩ := of_decide_eq_true h
  obtain ⟨r₁, r₂, h₁, h₂, hiff⟩ := step_twice (fun _ => toLex (9, 0)) replaced 2
    (observe [(0, true)]) (fun _ => none) r hr
    ⟨fun _ _ _ => .inr hturn, fun _ _ _ _ => .inr hturn, fun _ _ => hturn⟩
  exact ⟨r, r₁, r₂, hr, h₁, h₂, hiff.mpr hs⟩

/-- If the first backend is dead and seen down, its slot is freed by the first step and
given to the second backend by the next. -/
theorem second_step_spawns :
    ∃ (exits : Proc → Moment) (r r₁ r₂ : Reconciler String 1),
      run exits (Reconciler.init String 1) replaced = some r ∧ Unchanged exits r ∧
      apply exits r (.step 2 (observe []) fun _ => none) = some r₁ ∧
      apply exits r₁ (.step 2 (observe []) fun _ => none) = some r₂ ∧ ¬ Repeats r₁ r₂ := by
  let exits : Proc → Moment := fun p => if p = .backend 1 2 then toLex (0, 0) else toLex (9, 0)
  have hrun : (run exits (Reconciler.init String 1) replaced).any (fun r =>
      r.ex.nextTurn.now = toLex (4, 0) ∧ r.ex.seed = 2 ∧
      (apply exits r (.step 2 (observe []) fun _ => none)).any fun r₁ =>
        (apply exits r₁ (.step 2 (observe []) fun _ => none)).any fun r₂ =>
          r₂.ex.log ≠ r₁.ex.log) = true := by decide +kernel
  obtain ⟨r, hr, h⟩ := (Option.any_eq_true _ _).mp hrun
  obtain ⟨hnow, hseed, h⟩ := of_decide_eq_true h
  obtain ⟨r₁, hr₁, h⟩ := (Option.any_eq_true _ _).mp h
  obtain ⟨r₂, hr₂, hlog⟩ := (Option.any_eq_true _ _).mp h
  have hsteady (p : Proc) : Steady exits r.ex.nextTurn p := by
    by_cases hp : p = .backend 1 2
    · left
      simp only [exits, if_pos hp, hnow]
      decide
    · right
      simp only [exits, if_neg hp, hnow]
      decide
  refine ⟨exits, r, r₁, r₂, hr, ⟨fun _ p _ => hsteady p, fun _ _ p _ => hsteady p, fun p hp => ?_⟩,
    hr₁, hr₂, fun hrep => of_decide_eq_true hlog hrep.log⟩
  have hne : p ≠ .backend 1 2 := by
    rintro rfl
    rw [hseed] at hp
    exact absurd hp (lt_irrefl _)
  simp only [exits, if_neg hne, hnow]
  decide

end MaglevLb.Idempotence
