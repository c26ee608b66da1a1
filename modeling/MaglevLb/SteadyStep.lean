import MaglevLb.StillStep

/-!
# What a step leaves settled

As long as no process exits, every client and every slot is settled after a step,
except a slot whose responder is to be killed and a slot whose drain ended when its
responder was already dead.
-/
namespace MaglevLb.SteadyStep

open Children OrderedDict Slots Reconcile SlotMoves SlotViews SlotLifecycle SlotCommands
  SlotProgress SlotOwnership StillStep

variable {Id : Type*} {N : ℕ} {exits : Proc → Moment} {now : ℚ}

/-! ### Liveness that does not change -/

section Steady

variable {ex ex₀ : Executor}

/-- From `ex` to the end of the next call, the process is dead or it is alive. -/
def Steady (exits : Proc → Moment) (ex : Executor) (p : Proc) : Prop :=
  exits p ≤ ex.now ∨ (ofLex ex.now).1 + 1 < (ofLex (exits p)).1

/-- The moment lies in the call that begins at `ex₀` or in the next one. -/
def During (ex₀ ex : Executor) : Prop :=
  ex₀.now ≤ ex.now ∧ (ofLex ex.now).1 ≤ (ofLex ex₀.now).1 + 1

theorem Steady.alive_eq {proc : Option Proc} (h : ∀ p, proc = some p → Steady exits ex₀ p)
    (hex : During ex₀ ex) : ex.alive exits proc = ex₀.alive exits proc := by
  cases proc with
  | none => rfl
  | some p =>
      rw [Bool.eq_iff_iff]
      refine ⟨Executor.alive_antitone hex.1, fun halive => ?_⟩
      have hlt : ex₀.now < exits p := by simpa [Executor.alive] using halive
      rcases h p rfl with hdead | hlives
      · exact absurd hlt (not_lt.mpr hdead)
      · have hturn : (ofLex ex.now).1 < (ofLex (exits p)).1 := hex.2.trans_lt hlives
        have hnow : ex.now < exits p := by
          rw [Prod.Lex.lt_iff]
          exact .inl hturn
        simpa [Executor.alive] using hnow

theorem alive_of_late {p : Proc} (h : (ofLex ex₀.now).1 + 1 < (ofLex (exits p)).1)
    (hex : During ex₀ ex) : ex.alive exits (some p) = true := by
  have hturn : (ofLex ex.now).1 < (ofLex (exits p)).1 := hex.2.trans_lt h
  have hnow : ex.now < exits p := by
    rw [Prod.Lex.lt_iff]
    exact .inl hturn
  simpa [Executor.alive] using hnow

theorem During.of_advances {P : Moment × Call → Prop} (h : Executor.Advances P ex₀ ex) :
    During ex₀ ex :=
  ⟨h.now_le, h.turn_eq.le.trans (Nat.le_succ _)⟩

/-- A moment in the next call. -/
theorem During.next {P Q : Moment × Call → Prop} {ex₁ : Executor}
    (h : Executor.Advances P ex₀ ex₁) (h' : Executor.Advances Q ex₁.nextTurn ex) :
    During ex₀ ex := by
  refine ⟨(h.now_le.trans (Executor.now_lt_nextTurn ex₁).le).trans h'.now_le, ?_⟩
  rw [h'.turn_eq, ← h.turn_eq]
  rfl

end Steady

/-- The seed a process was started with. -/
def seedOf : Proc → ℕ
  | .backend _ seed | .client _ seed => seed

/-- In the next two calls no process that exists exits, and no process that is started. -/
structure Unchanged (exits : Proc → Moment) (r : Reconciler Id N) : Prop where
  slots : ∀ (i : Fin N) p, (r.slots i).proc i = some p → Steady exits r.ex.nextTurn p
  clients : ∀ e ∈ r.clients.entries, ∀ p, e.2.proc = some p → Steady exits r.ex.nextTurn p
  spawned : ∀ p, r.ex.seed < seedOf p → (ofLex r.ex.nextTurn.now).1 + 1 < (ofLex (exits p)).1

/-! ### A slot after a step -/

section Slot

variable {i : ℕ} [LinearOrder Id] {want : Dict Id (BackendNode Id)} {lb : Dict ℕ Observation}
  {latest : Proc → Option Stats} {ex₁ ex₂ : Executor} {v v' v₃ v₄ : Site Id}

omit [LinearOrder Id] in
theorem Ready.owner [DecidableEq Id] {alive : Bool} {s s₃ : Slot Id}
    (h : Ready now want alive s s₃) :
    ∃ cid, s₃.owner = some cid ∧ (isActive want cid = true → s₃.phase ≠ .draining) := by
  cases h with
  | going _ ho hkeep heq =>
      rw [heq]
      exact ⟨_, ho, hkeep⟩
  | drains _ ho ha heq =>
      rw [heq]
      exact ⟨_, ho, fun ha' => absurd (ha.symm.trans ha') Bool.false_ne_true⟩
  | stops _ ho ha heq =>
      rw [heq]
      exact ⟨_, ho, fun _ => by simp⟩

/-- A slot under removal after a step, unless its responder is to be killed again or its
drain ended with the responder dead. -/
theorem Removed.settled {alive alive₁ : Bool} {s s₃ s' : Slot Id}
    (hready : Ready now want alive₁ s s₃)
    (hr : s₃.removing = true)
    (h : Removed now (isUp lb i) (isIdle latest i s₃) alive s₃ s')
    (hkill : s.phase = .stopping → alive = true → ∀ t, s.stopSince = some t →
      ¬ backendStopKillAfterMs ≤ now - t)
    (hdrain : s.removing = true → s.phase = .draining → DrainOver now (isIdle latest i s) s →
      (∀ cid, s.owner = some cid → isActive want cid = false) → alive = false → isUp lb i = true)
    (howned : s'.owner ≠ none) : Settled now i want lb latest alive s' := by
  obtain ⟨cid, ho, hactive⟩ := Ready.owner hready
  cases h with
  | waits hp hover heq =>
      subst heq
      exact .of_removing hr ho hactive
        (fun _ => ⟨fun h => hover (drainOver_quietAfter.mp h), quietAfter_quietAfter⟩)
        (fun hs => absurd (hp.symm.trans hs) (by decide))
  | stops hp hover heq =>
      subst heq
      refine .of_removing hr ho (fun _ => by simp) (fun hd => by cases hd)
        fun _ => ⟨fun hdead => ?_, fun _ t ht => ?_⟩
      · cases hready with
        | going hr₀ ho₀ hkeep heq =>
            subst heq
            refine hdrain hr₀ hp hover (fun cid' ho' => ?_) hdead
            cases ho₀.symm.trans ho'
            exact Bool.eq_false_iff.mpr fun ha => hkeep ha hp
        | drains _ _ _ heq =>
            subst heq
            exact absurd hover not_drainOver_drainBegun
        | stops _ _ _ heq =>
            subst heq
            cases hp
      · cases ht
        norm_num [backendStopKillAfterMs]
  | lingers hp hup heq =>
      subst heq
      refine .of_removing hr ho hactive (fun hd => absurd (hp.symm.trans hd) (by decide))
        fun _ => ⟨hup, fun halive t ht => ?_⟩
      cases hready with
      | going _ _ _ heq =>
          subst heq
          exact hkill hp halive t ht
      | drains _ _ _ heq =>
          subst heq
          cases hp
      | stops _ _ _ heq =>
          subst heq
          cases ht
          norm_num [backendStopKillAfterMs]
  | freed _ _ _ heq =>
      subst heq
      exact absurd rfl howned

theorem lookedPhase_lookedPhase {up enabled manualDrain : Bool} {p : Phase} :
    lookedPhase up enabled manualDrain (lookedPhase up enabled manualDrain p) =
      lookedPhase up enabled manualDrain p := by
  cases p <;> cases up <;> cases enabled <;> cases manualDrain <;> rfl

/-- A slot in service after a step. -/
theorem Looked.settled {alive : Bool} {s s' : Slot Id} {cid : Id} (ho : s.owner = some cid)
    (ha : isActive want cid = true) (hr : s.removing = false)
    (h : Looked now (isUp lb i) (isEnabled lb i) alive (s.owner.bind want.get?) s s') :
    Settled now i want lb latest alive s' := by
  have hinactive : isActive want cid = false → s.removing = true := fun hn =>
    absurd (hn.symm.trans ha) Bool.false_ne_true
  have hremoving {P : Prop} (h : s.removing = true) : P :=
    absurd (hr.symm.trans h) Bool.false_ne_true
  cases h with
  | crashes _ _ heq =>
      subst heq
      exact
        { owned := ⟨cid, ho, hinactive, fun _ hr' => hremoving hr'⟩
          runs := fun hp => by cases hp
          looked := fun hp => by cases hp
          configured := fun hp => by cases hp
          drains := fun hr' => hremoving hr'
          stops := fun hs => by cases hs }
  | rests hp heq =>
      subst heq
      exact
        { owned := ⟨cid, ho, hinactive, fun _ hr' => hremoving hr'⟩
          runs := fun hp' => by simp [hp, Phase.running] at hp'
          looked := fun hp' => by simp [hp, Phase.running] at hp'
          configured := fun hp' => by simp [hp, Phase.running] at hp'
          drains := fun hr' => hremoving hr'
          stops := fun hs => absurd (hp.symm.trans hs) (by decide) }
  | serves hp halive heq =>
      subst heq
      exact
        { owned := ⟨cid, ho, hinactive, fun _ hr' => hremoving hr'⟩
          runs := fun _ _ => halive
          looked := fun _ _ => lookedPhase_lookedPhase
          configured := fun _ _ b hb => by simp [show s.owner.bind want.get? = some b from hb]
          drains := fun hr' => hremoving hr'
          stops := fun hs => by
            have hrun : (lookedPhase (isUp lb i) (isEnabled lb i) s.manualDrain s.phase).running =
                true := lookedPhase_running hp
            rw [show lookedPhase _ _ _ _ = _ from hs] at hrun
            cases hrun }

/-! ### Owners and processes during a step -/

theorem removal_tended {cid : Id} (ho : (removal exits now i want v).slot.owner = some cid)
    (hr : (removal exits now i want v).slot.removing = false) : isActive want cid = true := by
  have hvisit := removal_cases exits now i want v
  generalize removal exits now i want v = w at hvisit ho hr
  cases hvisit with
  | free hnone => exact absurd (hnone.symm.trans ho) (by simp)
  | kept ho' hinactive _ =>
      cases ho.symm.trans ho'
      by_contra ha
      exact absurd (hr.symm.trans (hinactive (by simpa using ha))) Bool.false_ne_true
  | drains => cases hr
  | stops => cases hr
  | cancels ho' ha =>
      cases ho.symm.trans ho'
      exact ha

theorem removal_proc : (removal exits now i want v).slot.proc i = v.slot.proc i := by
  have hvisit := removal_cases exits now i want v
  generalize removal exits now i want v = w at hvisit
  cases hvisit <;> rfl

omit [LinearOrder Id] in
theorem Path.proc_or {v v' : Site Id} (h : Path exits i .progress v v') :
    v'.slot.proc i = v.slot.proc i ∨ v'.slot.owner = none := by
  induction h with
  | refl => exact .inl rfl
  | tail _ hm ih =>
      cases hm with
      | freed => exact .inr rfl
      | _ => exact ih

theorem SlotStep.begins (h : SlotStep exits now i want lb latest v ex₁ ex₂ v₃ v₄ v') :
    Executor.Advances (fun _ => True) v.ex ex₂ :=
  (h.before.any.trans (removal_issues (v := ⟨v.slot, ex₁⟩)).any).trans h.between.any

/-- The responder that the progress loop looks at stays as it is. -/
theorem SlotStep.steady (h : SlotStep exits now i want lb latest v ex₁ ex₂ v₃ v₄ v')
    (hsteady : ∀ p, v.slot.proc i = some p → Steady exits v.ex p)
    (hnew : ∀ p, v.ex.seed < seedOf p → (ofLex v.ex.now).1 + 1 < (ofLex (exits p)).1)
    {ex : Executor} (hex : During v.ex ex) :
    ex.alive exits (v₃.slot.proc i) = v₃.ex.alive exits (v₃.slot.proc i) := by
  have hbegins := SlotStep.begins h
  have hthere : During v.ex v₃.ex := .of_advances (hbegins.trans h.added.advances)
  cases h.added with
  | kept hs _ =>
      have hproc : v₃.slot.proc i = v.slot.proc i := by
        rw [hs, removal_proc (v := ⟨v.slot, ex₁⟩)]
      rw [hproc, Steady.alive_eq hsteady hex, Steady.alive_eq hsteady hthere]
  | taken cid cfg ex' _ he hs _ =>
      have hlate : (ofLex v.ex.now).1 + 1 < (ofLex (exits (.backend (i + 1) (ex'.seed + 1)))).1 :=
        hnew _ (Nat.lt_succ_of_le (hbegins.seed_le.trans he.seed_le))
      have hproc : v₃.slot.proc i = some (.backend (i + 1) (ex'.seed + 1)) := by
        rw [hs]
        rfl
      rw [hproc, alive_of_late hlate hex, alive_of_late hlate hthere]

/-- After a step a slot with an owner is settled, if its responder was not due to be
killed and its drain did not end with the responder dead. -/
theorem SlotStep.settled (h : SlotStep exits now i want lb latest v ex₁ ex₂ v₃ v₄ v')
    (hl : Lifecycle v.slot)
    (htended : ∀ cid, v₃.slot.owner = some cid → v₃.slot.removing = false →
      isActive want cid = true)
    (hsteady : ∀ p, v.slot.proc i = some p → Steady exits v.ex p)
    (hkill : v.slot.phase = .stopping → v.ex.alive exits (v.slot.proc i) = true →
      ∀ t, v.slot.stopSince = some t → ¬ backendStopKillAfterMs ≤ now - t)
    (hdrain : v.slot.removing = true → v.slot.phase = .draining →
      DrainOver now (isIdle latest i v.slot) v.slot →
      (∀ cid, v.slot.owner = some cid → isActive want cid = false) →
      v.ex.alive exits (v.slot.proc i) = false → isUp lb i = true)
    (howned : v'.slot.owner ≠ none) :
    Settled now i want lb latest (v₃.ex.alive exits (v₃.slot.proc i)) v'.slot := by
  have hl₃ : Lifecycle v₃.slot := SlotStep.lifecycle h hl
  have hthere : During v.ex v₃.ex := .of_advances ((SlotStep.begins h).trans h.added.advances)
  rw [h.slot] at howned ⊢
  by_cases hr : v₃.slot.removing = true
  · have hready := SlotStep.ready h hl hr
    have hproc : v₃.slot.proc i = v.slot.proc i := by
      rw [(SlotStep.kept h hl hr).1, removal_proc (v := ⟨v.slot, ex₁⟩)]
    have halive : v₃.ex.alive exits (v₃.slot.proc i) = v.ex.alive exits (v.slot.proc i) := by
      rw [hproc, Steady.alive_eq hsteady hthere]
    refine Removed.settled hready hr (progress_removed hl₃ hr h.progress) ?_ ?_ howned
    · rw [halive]
      exact hkill
    · rw [halive]
      exact hdrain
  · rw [Bool.not_eq_true] at hr
    cases ho : v₃.slot.owner with
    | none =>
        have hsame : v₄ = v₃ := by
          have hprogress := h.progress
          rw [progress, if_pos ho] at hprogress
          exact (Option.some.inj hprogress).symm
        rw [hsame, ho] at howned
        exact absurd rfl howned
    | some cid =>
        have hlooked := progress_looked hl₃ (by simp [ho]) hr h.progress
        exact Looked.settled ho (htended cid ho hr) hr hlooked

end Slot

/-! ### Clients after a step -/

section Clients

variable [LinearOrder Id] {r r' : Reconciler Id N}

omit [LinearOrder Id] in
theorem settleClient_spec {cfg : ClientConfig} {enabled : Bool} {c c' : ClientRec}
    {ex ex' : Executor} (h : Reconciler.settleClient exits cfg enabled c ex = (c', ex')) :
    c'.index = c.index ∧ c'.config = some cfg ∧ c'.enabled = some enabled ∧
      (ex.alive exits c.proc = true ∧ c'.proc = c.proc ∨
        c'.proc = some (.client c.index (ex.seed + 1))) := by
  unfold Reconciler.settleClient at h
  split at h
  · next halive =>
      obtain ⟨rfl, -⟩ := Prod.mk.inj h
      exact ⟨rfl, rfl, rfl, .inl ⟨halive, rfl⟩⟩
  · obtain ⟨rfl, -⟩ := Prod.mk.inj h
    exact ⟨rfl, rfl, rfl, .inr rfl⟩

theorem mem_usedIndices {idx : ℕ} :
    idx ∈ usedIndices r ↔ ∃ cid c, r.clients.get? cid = some c ∧ c.index = idx := by
  simp only [usedIndices, List.mem_toFinset, List.mem_map, Dict.get?_eq_some, Prod.exists]

theorem clientIndex_mono {memory : Option ℕ} {used used' : Finset ℕ} (hsub : used ⊆ used')
    (h : Reconciler.clientIndex memory used = none) :
    Reconciler.clientIndex memory used' = none := by
  unfold Reconciler.clientIndex at h ⊢
  split at h
  · cases h
  · next hmem =>
      have hfull := List.find?_eq_none.mp h
      have hmem' : memory.filter (· ∉ used') = none := by
        rw [Option.filter_eq_none_iff] at hmem ⊢
        intro idx hidx
        have hin := hmem idx hidx
        simp only [decide_not, Bool.not_eq_eq_eq_not, Bool.not_true, decide_eq_false_iff_not,
          not_not] at hin ⊢
        exact hsub hin
      rw [hmem']
      refine List.find?_eq_none.mpr fun idx hidx => ?_
      have hin := hfull idx hidx
      simp only [decide_not, Bool.not_eq_eq_eq_not, Bool.not_true, decide_eq_false_iff_not,
        not_not] at hin ⊢
      exact hsub hin

/-- The process is alive until the end of the call that follows `ex₀`. -/
def Late (exits : Proc → Moment) (ex₀ : Executor) (proc : Option Proc) : Prop :=
  ∃ p, proc = some p ∧ (ofLex ex₀.now).1 + 1 < (ofLex (exits p)).1

omit [LinearOrder Id] in
theorem Steady.late {ex₀ ex : Executor} {proc : Option Proc}
    (h : ∀ p, proc = some p → Steady exits ex₀ p) (hle : ex₀.now ≤ ex.now)
    (halive : ex.alive exits proc = true) : Late exits ex₀ proc := by
  obtain ⟨p, rfl, hlt⟩ := (Option.any_eq_true _ _).mp halive
  refine ⟨p, rfl, (h p rfl).resolve_left fun hdead => ?_⟩
  have hnow : ex.now < exits p := by simpa using hlt
  exact absurd (hle.trans_lt hnow) (not_lt.mpr hdead)

/-- The client will run as the canvas says, or there is no index left for it. -/
def Kept (exits : Proc → Moment) (ex₀ : Executor) (used : Finset ℕ) (r : Reconciler Id N)
    (e : Id × ClientNode Id) : Prop :=
  (∃ c, r.clients.get? e.1 = some c ∧ Late exits ex₀ c.proc ∧ c.config = some e.2.config ∧
      c.enabled = some (loadOn r e.2)) ∨
    r.clients.get? e.1 = none ∧ Reconciler.clientIndex (r.clientMemory.get? e.1) used = none

omit [LinearOrder Id] in
theorem ClientWork.loadOn_eq (h : ClientWork r r') (c : ClientNode Id) :
    loadOn r' c = loadOn r c := by
  rw [loadOn, h.books, loadOn]

section Visit

variable {ex₀ : Executor} {used used' : Finset ℕ} {e : Id × ClientNode Id}

omit [LinearOrder Id] in
theorem settleClient_late {cfg : ClientConfig} {enabled : Bool} {c c' : ClientRec}
    {ex' : Executor} (h : Reconciler.settleClient exits cfg enabled c r.ex = (c', ex'))
    (hex : Executor.Advances (fun _ => True) ex₀ r.ex)
    (hsteady : ∀ p, c.proc = some p → Steady exits ex₀ p)
    (hnew : ∀ p, ex₀.seed < seedOf p → (ofLex ex₀.now).1 + 1 < (ofLex (exits p)).1) :
    Late exits ex₀ c'.proc := by
  obtain ⟨-, -, -, ⟨halive, hproc⟩ | hproc⟩ := settleClient_spec h
  · rw [hproc]
    exact Steady.late hsteady hex.now_le halive
  · exact ⟨_, hproc, hnew _ (Nat.lt_succ_of_le hex.seed_le)⟩

/-- What serving one client comes to. -/
structure Visited (exits : Proc → Moment) (ex₀ : Executor) (r r' : Reconciler Id N)
    (used used' : Finset ℕ) (e : Id × ClientNode Id) : Prop where
  used_eq : used' = usedIndices r'
  used_le : used ⊆ used'
  kept : Kept exits ex₀ used' r' e
  others : ∀ cid, cid ≠ e.1 → r'.clients.get? cid = r.clients.get? cid ∧
    r'.clientMemory.get? cid = r.clientMemory.get? cid

/-- A visit that serves the client: from the record it has, or from a new one with
an index of its own. -/
structure Serving (exits : Proc → Moment) (r r' : Reconciler Id N) (used used' : Finset ℕ)
    (e : Id × ClientNode Id) (c c' : ClientRec) : Prop where
  settled : Reconciler.settleClient exits e.2.config (loadOn r e.2) c r.ex = (c', r'.ex)
  clients : r'.clients = r.clients.set e.1 c'
  record : r.clients.get? e.1 = some c ∧ r'.clientMemory = r.clientMemory ∧ used' = used ∨
    r.clients.get? e.1 = none ∧ c.handle = none ∧
      Reconciler.clientIndex (r.clientMemory.get? e.1) used = some c.index ∧
      r'.clientMemory = r.clientMemory.set e.1 c.index ∧ used' = insert c.index used

theorem visitClient_cases (h : Reconciler.visitClient exits (r, used) e = (r', used')) :
    (∃ c c', Serving exits r r' used used' e c c') ∨
      r.clients.get? e.1 = none ∧
        Reconciler.clientIndex (r.clientMemory.get? e.1) used = none ∧ r' = r ∧ used' = used := by
  unfold Reconciler.visitClient at h
  dsimp only at h
  split at h
  · next c hc =>
      generalize hs : Reconciler.settleClient exits e.2.config (r.desired.loadEnabled &&
        e.2.connected && !r.loadSuppressed) c r.ex = st at h
      obtain ⟨c', ex'⟩ := st
      obtain ⟨rfl, rfl⟩ := Prod.mk.inj h
      exact .inl ⟨c, c', hs, rfl, .inl ⟨hc, rfl, rfl⟩⟩
  · next hnone =>
      split at h
      · next hindex =>
          obtain ⟨rfl, rfl⟩ := Prod.mk.inj h
          exact .inr ⟨hnone, hindex, rfl, rfl⟩
      · next idx hidx =>
          generalize hs : Reconciler.settleClient exits e.2.config (r.desired.loadEnabled &&
            e.2.connected && !r.loadSuppressed) ⟨idx, none, none, none⟩ r.ex = st at h
          obtain ⟨c', ex'⟩ := st
          obtain ⟨rfl, rfl⟩ := Prod.mk.inj h
          exact .inl ⟨_, c', hs, rfl, .inr ⟨hnone, rfl, hidx, rfl, rfl⟩⟩

section Served

variable {c c' : ClientRec}

theorem Serving.get?_self (h : Serving exits r r' used used' e c c') :
    r'.clients.get? e.1 = some c' := by
  rw [h.clients, Dict.get?_set, if_pos rfl]

theorem Serving.get?_of_ne (h : Serving exits r r' used used' e c c') {cid : Id}
    (hne : cid ≠ e.1) : r'.clients.get? cid = r.clients.get? cid := by
  rw [h.clients, Dict.get?_set, if_neg hne]

theorem Serving.memory_of_ne (h : Serving exits r r' used used' e c c') {cid : Id}
    (hne : cid ≠ e.1) : r'.clientMemory.get? cid = r.clientMemory.get? cid := by
  rcases h.record with ⟨-, hmemory, -⟩ | ⟨-, -, -, hmemory, -⟩
  · rw [hmemory]
  · rw [hmemory, Dict.get?_set, if_neg hne]

/-- The index of the record is used afterwards, and no index is given up. -/
theorem Serving.usedIndices_eq (h : Serving exits r r' used used' e c c') :
    usedIndices r' = insert c.index (usedIndices r) := by
  have hindex : c'.index = c.index := (settleClient_spec h.settled).1
  ext idx
  rw [Finset.mem_insert, mem_usedIndices, mem_usedIndices]
  constructor
  · rintro ⟨cid, d, hd, rfl⟩
    by_cases hcid : cid = e.1
    · subst hcid
      cases h.get?_self.symm.trans hd
      exact .inl hindex
    · rw [h.get?_of_ne hcid] at hd
      exact .inr ⟨cid, d, hd, rfl⟩
  · rintro (rfl | ⟨cid, d, hd, rfl⟩)
    · exact ⟨e.1, c', h.get?_self, hindex⟩
    · by_cases hcid : cid = e.1
      · subst hcid
        rcases h.record with ⟨hc, -⟩ | ⟨hnone, -⟩
        · cases hc.symm.trans hd
          exact ⟨e.1, c', h.get?_self, hindex⟩
        · cases hnone.symm.trans hd
      · exact ⟨cid, d, (h.get?_of_ne hcid).trans hd, rfl⟩

theorem Serving.used_eq (h : Serving exits r r' used used' e c c') (hused : used = usedIndices r) :
    used' = usedIndices r' := by
  rw [h.usedIndices_eq, ← hused]
  rcases h.record with ⟨hc, -, rfl⟩ | ⟨-, -, -, -, rfl⟩
  · rw [Finset.insert_eq_of_mem]
    rw [hused, mem_usedIndices]
    exact ⟨e.1, c, hc, rfl⟩
  · rfl

end Served

theorem visitClient_visited (h : Reconciler.visitClient exits (r, used) e = (r', used'))
    (hused : used = usedIndices r) (hex : Executor.Advances (fun _ => True) ex₀ r.ex)
    (hsteady : ∀ c, r.clients.get? e.1 = some c → ∀ p, c.proc = some p → Steady exits ex₀ p)
    (hnew : ∀ p, ex₀.seed < seedOf p → (ofLex ex₀.now).1 + 1 < (ofLex (exits p)).1) :
    Visited exits ex₀ r r' used used' e := by
  have hwork : ClientWork r r' := by
    have hvisit : ClientWork r (Reconciler.visitClient exits (r, used) e).1 := visitClient_work
    rwa [h] at hvisit
  rcases visitClient_cases h with ⟨c, c', hserved⟩ | ⟨hnone, hindex, rfl, rfl⟩
  · obtain ⟨-, hconfig, henabled, -⟩ := settleClient_spec hserved.settled
    have hlate : Late exits ex₀ c'.proc := by
      refine settleClient_late hserved.settled hex ?_ hnew
      rcases hserved.record with ⟨hc, -⟩ | ⟨-, hhandle, -⟩
      · exact hsteady c hc
      · intro p hp
        rw [ClientRec.proc, hhandle] at hp
        cases hp
    refine ⟨hserved.used_eq hused, ?_, .inl ⟨c', hserved.get?_self, hlate, hconfig, ?_⟩,
      fun cid hne => ⟨hserved.get?_of_ne hne, hserved.memory_of_ne hne⟩⟩
    · rcases hserved.record with ⟨-, -, rfl⟩ | ⟨-, -, -, -, rfl⟩
      · exact subset_rfl
      · exact Finset.subset_insert _ _
    · rw [henabled, ClientWork.loadOn_eq hwork]
  · exact ⟨hused, subset_rfl, .inr ⟨hnone, hindex⟩, fun _ _ => ⟨rfl, rfl⟩⟩

theorem Kept.of_eq (h : Kept exits ex₀ used r e) (hsub : used ⊆ used')
    (hclients : r'.clients.get? e.1 = r.clients.get? e.1)
    (hmemory : r'.clientMemory.get? e.1 = r.clientMemory.get? e.1)
    (hload : loadOn r' e.2 = loadOn r e.2) : Kept exits ex₀ used' r' e := by
  unfold Kept at h ⊢
  rw [hclients, hmemory, hload]
  exact h.imp_right fun h => ⟨h.1, clientIndex_mono hsub h.2⟩

theorem foldl_visitClient_kept {l : List (Id × ClientNode Id)} (hnd : (l.map Prod.fst).Nodup)
    (hused : used = usedIndices r) (hex : Executor.Advances (fun _ => True) ex₀ r.ex)
    (hsteady : ∀ e ∈ l, ∀ c, r.clients.get? e.1 = some c → ∀ p, c.proc = some p →
      Steady exits ex₀ p)
    (hnew : ∀ p, ex₀.seed < seedOf p → (ofLex ex₀.now).1 + 1 < (ofLex (exits p)).1)
    (h : l.foldl (Reconciler.visitClient exits) (r, used) = (r', used')) :
    used' = usedIndices r' ∧ used ⊆ used' ∧ (∀ e ∈ l, Kept exits ex₀ used' r' e) ∧
      ∀ cid, cid ∉ l.map Prod.fst → r'.clients.get? cid = r.clients.get? cid ∧
        r'.clientMemory.get? cid = r.clientMemory.get? cid := by
  induction l generalizing r used with
  | nil =>
      cases h
      exact ⟨hused, subset_rfl, by simp, fun _ _ => ⟨rfl, rfl⟩⟩
  | cons e l ih =>
      rw [List.map_cons, List.nodup_cons] at hnd
      obtain ⟨r₁, used₁, hvisit, h, hwork, hrest⟩ := foldl_visitClient_cons h
      have hv : Visited exits ex₀ r r₁ used used₁ e :=
        visitClient_visited hvisit hused hex (hsteady e List.mem_cons_self) hnew
      obtain ⟨hused', hsub, hkept, hothers⟩ := ih hnd.2 hv.used_eq (hex.trans (hwork.ex 0).any)
        (fun e' he' c hc => hsteady e' (List.mem_cons_of_mem e he') c (by
          rwa [(hv.others e'.1 fun heq => hnd.1 (heq ▸ List.mem_map_of_mem he')).1] at hc)) h
      refine ⟨hused', hv.used_le.trans hsub, fun e' he' => ?_, fun cid hcid => ?_⟩
      · rcases List.mem_cons.mp he' with rfl | he'
        · exact hv.kept.of_eq hsub (hothers _ hnd.1).1 (hothers _ hnd.1).2
            (ClientWork.loadOn_eq hrest _)
        · exact hkept e' he'
      · rw [List.map_cons, List.mem_cons, not_or] at hcid
        obtain ⟨hclients, hmemory⟩ := hothers cid hcid.2
        obtain ⟨hclients', hmemory'⟩ := hv.others cid hcid.1
        exact ⟨hclients.trans hclients', hmemory.trans hmemory'⟩

end Visit

theorem dropClients_get? {want : Dict Id (ClientNode Id)} {cid : Id} :
    (Reconciler.dropClients want r).clients.get? cid =
      if want.get? cid = none then none else r.clients.get? cid := by
  have hfold (l : List (Id × ClientRec)) (r : Reconciler Id N) :
      (l.foldl (fun r e => if want.get? e.1 = none then
        { r with clients := r.clients.erase e.1, ex := r.ex.call (.terminate e.2.proc) }
        else r) r).clients.get? cid =
        if cid ∈ l.map Prod.fst ∧ want.get? cid = none then none else r.clients.get? cid := by
    induction l generalizing r with
    | nil => simp
    | cons e l ih =>
        rw [List.foldl_cons, ih]
        by_cases hwant : want.get? e.1 = none
        · simp only [hwant, if_true, Dict.get?_erase]
          grind
        · simp only [hwant, if_false]
          grind
  rw [Reconciler.dropClients, hfold]
  by_cases hwant : want.get? cid = none
  · by_cases hmem : cid ∈ r.clients.entries.map Prod.fst
    · simp [hwant, hmem]
    · simp [hwant, Dict.get?_eq_none.mpr hmem]
  · simp [hwant]

/-- The clients of the canvas are visited in turn, after the others are dropped. -/
theorem stepClients_fold (h : Reconciler.stepClients exits r = r') :
    ∃ used, r.desiredClients.entries.foldl (Reconciler.visitClient exits)
      (Reconciler.dropClients r.desiredClients r,
        usedIndices (Reconciler.dropClients r.desiredClients r)) = (r', used) := by
  subst h
  exact ⟨_, rfl⟩

/-- After the clients were served, each of them is kept and no other is left. -/
theorem stepClients_kept
    (hsteady : ∀ e ∈ r.clients.entries, ∀ p, e.2.proc = some p → Steady exits r.ex p)
    (hnew : ∀ p, r.ex.seed < seedOf p → (ofLex r.ex.now).1 + 1 < (ofLex (exits p)).1)
    (h : Reconciler.stepClients exits r = r') :
    (∀ e ∈ r'.clients.entries, r.desiredClients.get? e.1 ≠ none) ∧
      ∀ e ∈ r.desiredClients.entries, Kept exits r.ex (usedIndices r') r' e := by
  have hdrop : ClientWork r (Reconciler.dropClients r.desiredClients r) := dropClients_work
  obtain ⟨used, hfold⟩ := stepClients_fold h
  have hdropped (e : Id × ClientNode Id) (c : ClientRec)
      (hc : (Reconciler.dropClients r.desiredClients r).clients.get? e.1 = some c) :
      r.clients.get? e.1 = some c := by
    rw [dropClients_get?] at hc
    split at hc
    · cases hc
    · exact hc
  obtain ⟨hused, -, hkept, hothers⟩ := foldl_visitClient_kept r.desiredClients.nodup rfl
    (hdrop.ex 0).any
    (fun e _ c hc p hp => hsteady (e.1, c) (Dict.get?_eq_some.mp (hdropped e c hc)) p hp) hnew hfold
  refine ⟨fun e he hnone => ?_, hused ▸ hkept⟩
  obtain ⟨hclients, -⟩ := hothers e.1 (Dict.get?_eq_none.mp hnone)
  rw [dropClients_get?, if_pos hnone, Dict.get?_eq_none] at hclients
  exact hclients (List.mem_map_of_mem he)

end Clients

/-! ### The whole step -/

section Step

variable [LinearOrder Id] {r r' : Reconciler Id N} {lb : Dict ℕ Observation}
  {latest : Proc → Option Stats}

theorem foldl_addition_books {l : List (Id × BackendNode Id)} :
    (l.foldl Reconciler.addition r) = { r with
      ex := (l.foldl Reconciler.addition r).ex
      slots := (l.foldl Reconciler.addition r).slots
      slotMemory := (l.foldl Reconciler.addition r).slotMemory
      pending := (l.foldl Reconciler.addition r).pending } := by
  induction l generalizing r with
  | nil => rfl
  | cons e l ih =>
      rw [List.foldl_cons, ih]
      rcases addition_cases r e with ⟨-, he⟩ | ⟨-, -, he⟩ | ⟨-, k, -, he⟩
      · rw [he]
      · rw [he]
      · rw [he]
        rfl

/-- The loops over the slots leave the clients and the canvas alone. -/
theorem step_books (h : r.step exits now lb latest = some r') :
    r' = { Reconciler.stepClients exits r with
      ex := r'.ex, slots := r'.slots, slotMemory := r'.slotMemory, pending := r'.pending } := by
  obtain ⟨r₁, hremoval, hprogress⟩ := step_loops h
  have hbooks := forSlots_books hprogress
  rw [Reconciler.additions, foldl_addition_books, forSlots_books hremoval] at hbooks
  rw [hbooks]

theorem step_desired (h : r.step exits now lb latest = some r') : r'.desired = r.desired := by
  have hclients : ClientWork r (Reconciler.stepClients exits r) := stepClients_work
  rw [step_books h, hclients.desired_eq]

theorem Late.outlives {ex₀ ex : Executor} {proc : Option Proc} (h : Late exits ex₀ proc)
    (hex : Executor.Advances (fun _ => True) ex₀ ex) :
    ex.nextTurn.outlives exits proc = true := by
  obtain ⟨p, rfl, hlate⟩ := h
  have hturn : (ofLex ex.nextTurn.now).1 = (ofLex ex₀.now).1 + 1 := by
    rw [← hex.turn_eq]
    rfl
  simp [Executor.outlives, hturn, hlate]

theorem clientsSettled_after (h : apply exits r (.step now lb latest) = some r')
    (hu : Unchanged exits r) : ClientsSettled exits { r' with ex := r'.ex.nextTurn } := by
  have hadv : Executor.Advances (fun _ => True) r.ex.nextTurn r'.ex :=
    (step_within (r := { r with ex := r.ex.nextTurn }) h).any
  have hbooks := step_books (r := { r with ex := r.ex.nextTurn }) h
  have hdesired : r'.desired = r.desired := step_desired (r := { r with ex := r.ex.nextTurn }) h
  obtain ⟨hwanted, hkept⟩ :=
    stepClients_kept (r := { r with ex := r.ex.nextTurn }) hu.clients hu.spawned rfl
  generalize Reconciler.stepClients exits { r with ex := r.ex.nextTurn } = c at hbooks hwanted hkept
  have hclients : r'.clients = c.clients := by rw [hbooks]
  have hmemory : r'.clientMemory = c.clientMemory := by rw [hbooks]
  have hload (e : ClientNode Id) : loadOn r' e = loadOn c e := by
    rw [loadOn, hbooks, loadOn]
  have hwant : r'.desiredClients = r.desiredClients := by
    rw [Reconciler.desiredClients, hdesired, Reconciler.desiredClients]
  have hused : usedIndices r' = usedIndices c := by rw [usedIndices, hclients, usedIndices]
  constructor
  · intro e he
    have he' : e ∈ c.clients.entries := hclients ▸ he
    have hne : r.desiredClients.get? e.1 ≠ none := hwanted e he'
    rw [← hwant] at hne
    exact hne
  · intro e he
    have he' : e ∈ r.desiredClients.entries := hwant ▸ he
    rcases hkept e he' with ⟨d, hd, hlate, hconfig, henabled⟩ | ⟨hnone, hindex⟩
    · refine .inl ⟨d, hclients ▸ hd, hlate.outlives hadv, hconfig, ?_⟩
      rw [henabled, ← hload]
      rfl
    · refine .inr ⟨hclients ▸ hnone, ?_⟩
      rw [← hmemory, ← hused] at hindex
      exact hindex

/-- Slots that are not being removed belong to attached backends. -/
def Tended (want : Dict Id (BackendNode Id)) (r : Reconciler Id N) : Prop :=
  ∀ i cid, (r.slots i).owner = some cid → (r.slots i).removing = false → isActive want cid = true

theorem foldl_addition_tended {want : Dict Id (BackendNode Id)} {l : List (Id × BackendNode Id)}
    (hl : ∀ e ∈ l, isActive want e.1 = true) (h : Tended want r) :
    Tended want (l.foldl Reconciler.addition r) := by
  induction l generalizing r with
  | nil => exact h
  | cons e l ih =>
      refine ih (fun e' he' => hl e' (List.mem_cons_of_mem e he')) ?_
      rcases addition_cases r e with ⟨-, he⟩ | ⟨-, -, he⟩ | ⟨-, k, -, he⟩
      · rwa [he]
      · rwa [he]
      · rw [he]
        intro i cid ho hr
        by_cases hi : i = k
        · subst hi
          rw [put_self] at ho
          cases ho
          exact hl e List.mem_cons_self
        · rw [put_of_ne hi] at ho hr
          exact h i cid ho hr

theorem additions_tended {r₁ : Reconciler Id N}
    (h : (Reconciler.stepClients exits r).forSlots
      (fun i v => some (removal exits now i r.desiredBackends v)) = some r₁) :
    Tended r.desiredBackends (Reconciler.additions r.desiredBackends r₁) := by
  refine foldl_addition_tended (r := { r₁ with pending := ∅ }) (fun e he => isActive_of_mem he) ?_
  intro i cid ho hr
  obtain ⟨ex, hslot⟩ := removals_owner h i
  dsimp only at ho hr
  rw [hslot] at ho hr
  exact removal_tended ho hr

/-- A slot that has an owner after a step is settled. -/
theorem slotSettled_after (h : apply exits r (.step now lb latest) = some r')
    (hl : ∀ i, Lifecycle (r.slots i)) (hu : Unchanged exits r) {i : Fin N}
    (hkill : (r.slots i).phase = .stopping →
      r.ex.nextTurn.alive exits ((r.slots i).proc i) = true →
      ∀ t, (r.slots i).stopSince = some t → ¬ backendStopKillAfterMs ≤ now - t)
    (hdrain : (r.slots i).removing = true → (r.slots i).phase = .draining →
      DrainOver now (isIdle latest i (r.slots i)) (r.slots i) →
      (∀ cid, (r.slots i).owner = some cid → isActive r.desiredBackends cid = false) →
      r.ex.nextTurn.alive exits ((r.slots i).proc i) = false → isUp lb i = true)
    (howned : (r'.slots i).owner ≠ none) :
    ∃ alive, Settled now i r.desiredBackends lb latest alive (r'.slots i) ∧
      ∀ ex, Still r'.ex.nextTurn ex → ex.alive exits ((r'.slots i).proc i) = alive := by
  have hadv : Executor.Advances (fun _ => True) r.ex.nextTurn r'.ex :=
    (step_within (r := { r with ex := r.ex.nextTurn }) h).any
  obtain ⟨r₁, hremoval, -, hviews⟩ := step_views (r := { r with ex := r.ex.nextTurn }) h
  obtain ⟨ex₁, ex₂, ex₃, v₄, hview⟩ := hviews i
  have htended : Tended r.desiredBackends (Reconciler.additions r.desiredBackends r₁) :=
    additions_tended (r := { r with ex := r.ex.nextTurn }) hremoval
  refine ⟨_, SlotStep.settled hview (hl i) (htended i) (hu.slots i) hkill hdrain howned,
    fun ex hex => ?_⟩
  have hproc : (r'.slots i).proc i =
      ((Reconciler.additions r.desiredBackends r₁).slots i).proc i := by
    have hpath := Path.proc_or (progress_path hview.progress)
    rw [← hview.slot] at hpath
    exact hpath.resolve_right howned
  rw [hproc]
  exact SlotStep.steady hview (hu.slots i) hu.spawned (.next hadv hex)

end Step

end MaglevLb.SteadyStep
