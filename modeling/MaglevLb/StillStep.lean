import MaglevLb.SlotOwnership
import MaglevLb.SlotProgress

/-!
# A step that finds nothing to do

A slot is settled when neither loop over the slots changes it or issues a command
for it; a client when its process runs with the settings the canvas gives it.
-/
namespace MaglevLb.StillStep

open Children OrderedDict Slots Reconcile SlotMoves SlotViews SlotLifecycle SlotCommands
  SlotProgress SlotOwnership

variable {Id : Type*} {N : ℕ} {exits : Proc → Moment} {now : ℚ}

/-- Time passes with no command. -/
abbrev Still : Executor → Executor → Prop := Executor.Advances fun _ => False

theorem Still.log {ex ex' : Executor} (h : Still ex ex') : ex'.log = ex.log := by
  obtain ⟨l, hl, hnone⟩ := h.log_eq
  have hnil : l = [] := List.eq_nil_iff_forall_not_mem.mpr fun e he => (hnone e he).2.2
  rw [hl, hnil, List.append_nil]

/-! ### Slots -/

section Slots

variable {i : ℕ} {v : Site Id} [DecidableEq Id] {want : Dict Id (BackendNode Id)}
  {lb : Dict ℕ Observation} {latest : Proc → Option Stats} {alive : Bool}

/-- There is nothing to do about a slot with an owner, whose responder is alive or not. -/
structure Settled (now : ℚ) (i : ℕ) (want : Dict Id (BackendNode Id)) (lb : Dict ℕ Observation)
    (latest : Proc → Option Stats) (alive : Bool) (s : Slot Id) : Prop where
  owned : ∃ cid, s.owner = some cid ∧ (isActive want cid = false → s.removing = true) ∧
    (isActive want cid = true → s.removing = true → s.phase ≠ .draining)
  runs : s.phase.running = true → s.removing = false → alive = true
  looked : s.phase.running = true → s.removing = false →
    lookedPhase (isUp lb i) (isEnabled lb i) s.manualDrain s.phase = s.phase
  configured : s.phase.running = true → s.removing = false →
    ∀ b, s.owner.bind want.get? = some b → s.config = some b.config
  drains : s.removing = true → s.phase = .draining → ¬ DrainOver now (isIdle latest i s) s ∧
    quietAfter now (isIdle latest i s) s.quietSince = s.quietSince
  stops : s.phase = .stopping → (alive = false → isUp lb i = true) ∧
    (alive = true → ∀ t, s.stopSince = some t → ¬ backendStopKillAfterMs ≤ now - t)

/-- A slot under removal has only its drain and its stop to settle. -/
theorem Settled.of_removing {s : Slot Id} {cid : Id} (hr : s.removing = true)
    (ho : s.owner = some cid) (hactive : isActive want cid = true → s.phase ≠ .draining)
    (hdrains : s.phase = .draining → ¬ DrainOver now (isIdle latest i s) s ∧
      quietAfter now (isIdle latest i s) s.quietSince = s.quietSince)
    (hstops : s.phase = .stopping → (alive = false → isUp lb i = true) ∧
      (alive = true → ∀ t, s.stopSince = some t → ¬ backendStopKillAfterMs ≤ now - t)) :
    Settled now i want lb latest alive s where
  owned := ⟨cid, ho, fun _ => hr, fun ha _ => hactive ha⟩
  runs _ hn := absurd (hn.symm.trans hr) Bool.false_ne_true
  looked _ hn := absurd (hn.symm.trans hr) Bool.false_ne_true
  configured _ hn := absurd (hn.symm.trans hr) Bool.false_ne_true
  drains _ hd := hdrains hd
  stops := hstops

theorem Settled.removal {v : Site Id} (h : Settled now i want lb latest alive v.slot) :
    removal exits now i want v = v := by
  obtain ⟨cid, ho, hinactive, hactive⟩ := h.owned
  have hvisit := removal_cases exits now i want v
  generalize Slots.removal exits now i want v = w at hvisit ⊢
  cases hvisit with
  | free | kept => rfl
  | drains ho' ha hr =>
      cases ho.symm.trans ho'
      exact absurd (hr.symm.trans (hinactive ha)) Bool.false_ne_true
  | stops ho' ha hr =>
      cases ho.symm.trans ho'
      exact absurd (hr.symm.trans (hinactive ha)) Bool.false_ne_true
  | cancels ho' ha hr hp =>
      cases ho.symm.trans ho'
      exact absurd hp (hactive ha hr)

omit [DecidableEq Id] in
theorem drainFurther_still {idle : Bool} (hd : v.slot.drainSince ≠ none)
    (hover : ¬ DrainOver now idle v.slot)
    (hq : quietAfter now idle v.slot.quietSince = v.slot.quietSince) :
    drainFurther exits now i idle v = some v := by
  obtain ⟨since, hsince⟩ := Option.ne_none_iff_exists'.mp hd
  have hquiet : ¬ quietOver now v.slot.quietSince = true := fun h => hover (.inl (hq.symm ▸ h))
  have hmax : ¬ backendSlotDrainMaxMs ≤ now - since := fun h => hover (.inr ⟨since, hsince, h⟩)
  unfold drainFurther
  dsimp only
  rw [hq, if_neg hquiet]
  refine Option.map_eq_some_iff.mpr ⟨since, hsince, ?_⟩
  rw [if_neg hmax]

omit [DecidableEq Id] in
theorem stopFurther_still {up : Bool} (hset : v.slot.stopSince ≠ none)
    (hdead : alive = false → up = true)
    (hkill : alive = true → ∀ t, v.slot.stopSince = some t → ¬ backendStopKillAfterMs ≤ now - t) :
    stopFurther now i up alive v = some v := by
  obtain ⟨since, hsince⟩ := Option.ne_none_iff_exists'.mp hset
  unfold stopFurther
  split
  · next halive => rw [hsince, Option.map_some, if_neg (hkill halive since hsince)]
  · next halive => rw [if_pos (hdead (by simpa using halive))]

theorem configure_still {alive : Bool}
    (h : v.slot.phase.running = true → v.slot.removing = false →
      ∀ b, v.slot.owner.bind want.get? = some b → v.slot.config = some b.config) :
    configure i want alive v = v := by
  unfold configure
  split
  · rfl
  · next b hb =>
      rw [if_neg]
      rintro ⟨-, hp, hr, hne⟩
      exact hne (h hp hr b hb).symm

theorem Settled.progress (hl : Lifecycle v.slot)
    (h : Settled now i want lb latest (v.ex.alive exits (v.slot.proc i)) v.slot) :
    progress exits now i want lb latest v = some ⟨v.slot, v.ex.tick⟩ := by
  obtain ⟨cid, ho, -⟩ := h.owned
  have howned : v.slot.owner ≠ none := by simp [ho]
  unfold Slots.progress
  rw [if_neg howned]
  dsimp only
  rw [if_neg]
  · have hadvance : advance exits now i ((lb.get? i).getD {})
        (((v.slot.proc i).bind latest).getD {}).idle (v.ex.alive exits (v.slot.proc i))
        ⟨v.slot, v.ex.tick⟩ = some ⟨v.slot, v.ex.tick⟩ := by
      by_cases hp : v.slot.phase.running = true ∧ v.slot.removing = false
      · rw [advance_running (v := ⟨v.slot, v.ex.tick⟩) hp.1 hp.2]
        have hlook := h.looked hp.1 hp.2
        simp only [isUp, isEnabled] at hlook
        simp only [hlook]
      · unfold advance
        dsimp only
        have hcases : v.slot.phase = .crashed ∨
            v.slot.removing = true ∧ v.slot.phase = .draining ∨ v.slot.phase = .stopping := by
          have hfree : v.slot.phase ≠ .free := fun hf => howned (hl.owner_iff.mpr hf)
          have hremoving := hl.removing
          revert hp hfree hremoving
          cases v.slot.phase <;> cases v.slot.removing <;> simp [Phase.running]
        rcases hcases with hc | ⟨hr, hd⟩ | hs
        · simp only [hc]
        · simp only [hd, hr, if_true]
          exact drainFurther_still (hl.drainSet hr hd) (h.drains hr hd).1 (h.drains hr hd).2
        · simp only [hs]
          exact stopFurther_still (hl.stopSet hs) (h.stops hs).1 (h.stops hs).2
    rw [hadvance, Option.map_some]
    exact congrArg some (configure_still (v := ⟨v.slot, v.ex.tick⟩) h.configured)
  · rintro ⟨hp, hdead, hr⟩
    exact absurd (hdead.symm.trans (h.runs hp hr)) Bool.false_ne_true

end Slots

/-! ### A loop over the slots -/

section Loop

variable {r : Reconciler Id N} {visit : ℕ → Site Id → Option (Site Id)}

theorem put_slot (k : Fin N) (ex : Executor) :
    r.put k ⟨r.slots k, ex⟩ = { r with ex := ex } := by
  simp [Reconciler.put]

theorem visits_still {l : List (Fin N)}
    (h : ∀ i ∈ l, ∀ ex, Still r.ex ex →
      ∃ ex', visit i ⟨r.slots i, ex⟩ = some ⟨r.slots i, ex'⟩ ∧ Still ex ex') :
    ∃ ex', visits visit l r = some { r with ex := ex' } ∧ Still r.ex ex' := by
  induction l generalizing r with
  | nil => exact ⟨r.ex, rfl, .refl⟩
  | cons k l ih =>
      obtain ⟨ex₁, hvisit, hex₁⟩ := h k List.mem_cons_self r.ex .refl
      have hrest : ∃ ex', visits visit l { r with ex := ex₁ } = some { r with ex := ex' } ∧
          Still ex₁ ex' :=
        ih (r := { r with ex := ex₁ }) fun i hi ex hex =>
          h i (List.mem_cons_of_mem _ hi) ex (hex₁.trans hex)
      obtain ⟨ex', hl, hex'⟩ := hrest
      refine ⟨ex', ?_, hex₁.trans hex'⟩
      rw [visits, List.foldlM_cons, hvisit, Option.map_some, put_slot]
      exact hl

theorem forSlots_still
    (h : ∀ (i : Fin N) ex, Still r.ex ex →
      ∃ ex', visit i ⟨r.slots i, ex⟩ = some ⟨r.slots i, ex'⟩ ∧ Still ex ex') :
    ∃ ex', r.forSlots visit = some { r with ex := ex' } ∧ Still r.ex ex' :=
  visits_still fun i _ => h i

end Loop

/-! ### Additions and clients -/

section Books

variable [LinearOrder Id] {r : Reconciler Id N}

theorem foldl_addition_still {l : List (Id × BackendNode Id)}
    (h : ∀ e ∈ l, (∃ i, (r.slots i).owner = some e.1) ∨ ∀ i, (r.slots i).phase ≠ .free) :
    ∃ pending, l.foldl Reconciler.addition r = { r with pending := pending } := by
  induction l generalizing r with
  | nil => exact ⟨r.pending, rfl⟩
  | cons e l ih =>
      have hrest := fun e' he' => h e' (List.mem_cons_of_mem e he')
      rw [List.foldl_cons]
      rcases addition_cases r e with ⟨-, he⟩ | ⟨-, -, he⟩ | ⟨hnew, k, hk, -⟩
      · rw [he]
        exact ih hrest
      · rw [he]
        exact ih (r := { r with pending := insert e.1 r.pending }) hrest
      · rcases h e List.mem_cons_self with ⟨i, hi⟩ | hfull
        · exact absurd hi (hnew i)
        · exact absurd hk (hfull k)

/-- The client indices in use. -/
def usedIndices (r : Reconciler Id N) : Finset ℕ := (r.clients.entries.map (·.2.index)).toFinset

/-- Whether the canvas has the client send load. -/
def loadOn (r : Reconciler Id N) (c : ClientNode Id) : Bool :=
  r.desired.loadEnabled && c.connected && !r.loadSuppressed

/-- The client runs as the canvas says, or there is no index left for it. -/
def Attended (exits : Proc → Moment) (used : Finset ℕ) (r : Reconciler Id N)
    (e : Id × ClientNode Id) : Prop :=
  (∃ c, r.clients.get? e.1 = some c ∧ r.ex.outlives exits c.proc = true ∧
      c.config = some e.2.config ∧ c.enabled = some (loadOn r e.2)) ∨
    r.clients.get? e.1 = none ∧ Reconciler.clientIndex (r.clientMemory.get? e.1) used = none

structure ClientsSettled (exits : Proc → Moment) (r : Reconciler Id N) : Prop where
  wanted : ∀ e ∈ r.clients.entries, r.desiredClients.get? e.1 ≠ none
  attended : ∀ e ∈ r.desiredClients.entries, Attended exits (usedIndices r) r e

theorem dropClients_still {want : Dict Id (ClientNode Id)}
    (h : ∀ e ∈ r.clients.entries, want.get? e.1 ≠ none) : Reconciler.dropClients want r = r := by
  unfold Reconciler.dropClients
  generalize r.clients.entries = l at h
  induction l with
  | nil => rfl
  | cons e l ih =>
      rw [List.foldl_cons, if_neg (h e List.mem_cons_self)]
      exact ih fun e' he' => h e' (List.mem_cons_of_mem e he')

theorem visitClient_still {used : Finset ℕ} {e : Id × ClientNode Id}
    (h : Attended exits used r e) :
    ∃ ex', Reconciler.visitClient exits (r, used) e = ({ r with ex := ex' }, used) ∧
      Still r.ex ex' := by
  rcases h with ⟨c, hc, hlives, hconfig, henabled⟩ | ⟨hnone, hindex⟩
  · have halive := Executor.alive_of_outlives hlives
    have hsettle : Reconciler.settleClient exits e.2.config (loadOn r e.2) c r.ex =
        (c, r.ex.tick) := by
      simp only [Reconciler.settleClient, halive, if_true, hconfig, henabled, ne_eq,
        not_true_eq_false, if_false]
      rw [← hconfig, ← henabled]
    refine ⟨r.ex.tick, ?_, Executor.Advances.refl.tick⟩
    simp only [loadOn] at hsettle
    simp only [Reconciler.visitClient, hc, hsettle, Dict.set_of_get? hc]
  · exact ⟨r.ex, by simp only [Reconciler.visitClient, hnone, hindex], .refl⟩

theorem Attended.still {used : Finset ℕ} {e : Id × ClientNode Id} (h : Attended exits used r e)
    {ex : Executor} (hex : Still r.ex ex) : Attended exits used { r with ex := ex } e := by
  rcases h with ⟨c, hc, hlives, hrest⟩ | hnone
  · exact .inl ⟨c, hc, (hex.outlives_eq exits _).trans hlives, hrest⟩
  · exact .inr hnone

theorem foldl_visitClient_still {l : List (Id × ClientNode Id)} {used : Finset ℕ}
    (h : ∀ e ∈ l, Attended exits used r e) :
    ∃ ex', l.foldl (Reconciler.visitClient exits) (r, used) = ({ r with ex := ex' }, used) ∧
      Still r.ex ex' := by
  induction l generalizing r with
  | nil => exact ⟨r.ex, rfl, .refl⟩
  | cons e l ih =>
      obtain ⟨ex₁, hvisit, hex₁⟩ := visitClient_still (h e List.mem_cons_self)
      have hrest : ∃ ex', l.foldl (Reconciler.visitClient exits) ({ r with ex := ex₁ }, used) =
          ({ r with ex := ex' }, used) ∧ Still ex₁ ex' :=
        ih (r := { r with ex := ex₁ }) fun e' he' =>
          (h e' (List.mem_cons_of_mem e he')).still hex₁
      obtain ⟨ex', hl, hex'⟩ := hrest
      exact ⟨ex', by rw [List.foldl_cons, hvisit, hl], hex₁.trans hex'⟩

theorem stepClients_still (h : ClientsSettled exits r) :
    ∃ ex', Reconciler.stepClients exits r = { r with ex := ex' } ∧ Still r.ex ex' := by
  obtain ⟨ex', hfold, hex'⟩ := foldl_visitClient_still h.attended
  refine ⟨ex', ?_, hex'⟩
  unfold Reconciler.stepClients
  dsimp only
  rw [dropClients_still h.wanted]
  rw [usedIndices] at hfold
  rw [hfold]

/-! ### The whole step -/

variable {lb : Dict ℕ Observation} {latest : Proc → Option Stats}

/-- A step from a state in which everything is settled only makes up the set of
waiting ids again. -/
theorem step_still (hl : ∀ i, Lifecycle (r.slots i)) (hclients : ClientsSettled exits r)
    (hslots : ∀ i : Fin N, (r.slots i).owner ≠ none → ∃ alive,
      Settled now i r.desiredBackends lb latest alive (r.slots i) ∧
      ∀ ex, Still r.ex ex → ex.alive exits ((r.slots i).proc i) = alive)
    (hplaced : ∀ cid, isActive r.desiredBackends cid = true →
      (∃ i, (r.slots i).owner = some cid) ∨ ∀ i, (r.slots i).phase ≠ .free) :
    ∃ ex' pending, r.step exits now lb latest = some { r with ex := ex', pending := pending } ∧
      Still r.ex ex' ∧ ∀ cid, cid ∈ pending ↔
        isActive r.desiredBackends cid = true ∧ ∀ i, (r.slots i).owner ≠ some cid := by
  obtain ⟨ex₁, hstep₁, hex₁⟩ := stepClients_still hclients
  have hremovals : ∃ ex', ({ r with ex := ex₁ } : Reconciler Id N).forSlots
      (fun i v => some (removal exits now i r.desiredBackends v)) =
        some { r with ex := ex' } ∧ Still ex₁ ex' := by
    apply forSlots_still (r := { r with ex := ex₁ })
    intro i ex _
    refine ⟨ex, congrArg some ?_, .refl⟩
    by_cases ho : (r.slots i).owner = none
    · simp [removal, ho]
    · obtain ⟨alive, hset, -⟩ := hslots i ho
      exact Settled.removal (v := ⟨r.slots i, ex⟩) hset
  obtain ⟨ex₂, hremoval, hex₂⟩ := hremovals
  have hadd : ∃ pending, Reconciler.additions r.desiredBackends { r with ex := ex₂ } =
      { r with ex := ex₂, pending := pending } := by
    apply foldl_addition_still (r := { r with ex := ex₂, pending := ∅ })
    exact fun e he => hplaced e.1 (isActive_of_mem he)
  obtain ⟨pending, hadditions⟩ := hadd
  have hpending (cid : Id) : cid ∈ pending ↔
      isActive r.desiredBackends cid = true ∧ ∀ i, (r.slots i).owner ≠ some cid := by
    have hmem : cid ∈ (Reconciler.additions r.desiredBackends { r with ex := ex₂ }).pending ↔
        isActive r.desiredBackends cid = true ∧ ∀ i,
          ((Reconciler.additions r.desiredBackends { r with ex := ex₂ }).slots i).owner ≠
            some cid :=
      mem_pending_additions (r := { r with ex := ex₂ }) hl
    rw [hadditions] at hmem
    exact hmem
  have hprogresses : ∃ ex', ({ r with ex := ex₂, pending := pending } : Reconciler Id N).forSlots
      (fun i v => progress exits now i r.desiredBackends lb latest v) =
        some { r with ex := ex', pending := pending } ∧ Still ex₂ ex' := by
    apply forSlots_still (r := { r with ex := ex₂, pending := pending })
    intro i ex hex
    by_cases ho : (r.slots i).owner = none
    · exact ⟨ex, by simp [progress, ho], .refl⟩
    · obtain ⟨alive, hset, halive⟩ := hslots i ho
      refine ⟨ex.tick, ?_, Executor.Advances.refl.tick⟩
      rw [← halive ex ((hex₁.trans hex₂).trans hex)] at hset
      exact Settled.progress (v := ⟨r.slots i, ex⟩) (hl i) hset
  obtain ⟨ex₃, hprogress, hex₃⟩ := hprogresses
  refine ⟨ex₃, pending, ?_, (hex₁.trans hex₂).trans hex₃, hpending⟩
  unfold Reconciler.step Reconciler.stepBackends
  rw [hstep₁]
  refine Option.bind_eq_some_iff.mpr ⟨_, hremoval, ?_⟩
  dsimp only
  rw [show ({ r with ex := ex₁ } : Reconciler Id N).desiredBackends = r.desiredBackends from rfl,
    hadditions]
  exact hprogress

end Books

end MaglevLb.StillStep
