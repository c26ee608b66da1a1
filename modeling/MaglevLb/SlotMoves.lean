import MaglevLb.Reconcile
import Mathlib.Logic.Relation

/-!
# What the reconciler can do to a slot

Every visit to a slot is a chain of the moves below, each with its guard; a
visit to another slot is a move that leaves this one alone. What every move
keeps, every event keeps.
-/
namespace MaglevLb.SlotMoves

open Children OrderedDict Slots Reconcile Relation

/-- The command is about the slot with maglev-lb id `i`, or for a process that `handle` admits. -/
def About (handle : Option Proc → Prop) (i : ℕ) : Call → Prop
  | .spawnBackend n _ _ => n = i + 1
  | .spawnClient _ _ _ _ => False
  | .send p _ | .terminate p | .kill p => handle p
  | .admin _ k => k = i
  | .setGre n _ => n = i + 1

/-- The command is about the slot or for a responder of it. -/
def Concerns (i : ℕ) : Call → Prop := About (fun p => ∃ seed, p = some (.backend (i + 1) seed)) i

/-- The command is about the slot and about no other process: a missing one is allowed. -/
def Own (i : ℕ) : Call → Prop :=
  About (fun p => ∀ q, p = some q → ∃ seed, q = .backend (i + 1) seed) i

theorem Own.eq_of_concerns {i j : ℕ} {c : Call} (h : Own i c) (hc : Concerns j c) : j = i := by
  cases c with
  | spawnBackend | setGre => exact Nat.succ_injective (Eq.symm hc |>.trans h)
  | spawnClient => exact hc.elim
  | send | terminate | kill =>
      obtain ⟨seed, hp⟩ := hc
      obtain ⟨seed', hq⟩ := h _ hp
      injection hq with hn
      exact Nat.succ_injective hn
  | admin => exact (Eq.symm hc).trans h

/-- Time passes with no command about slot `i`. -/
abbrev Elsewhere (i : ℕ) : Executor → Executor → Prop :=
  Executor.Advances fun e => ¬ Concerns i e.2

/-- Time passes with commands about slot `i` only. -/
abbrev Only (i : ℕ) : Executor → Executor → Prop :=
  Executor.Advances fun e => ∀ j, Concerns j e.2 → j = i

/-- Time passes with commands about slot `i` and not about clients. -/
abbrev Tends (i : ℕ) : Executor → Executor → Prop :=
  Executor.Advances fun e => Own i e.2

/-- Time passes with no command about a slot from `N` on. -/
abbrev Within (N : ℕ) : Executor → Executor → Prop :=
  Executor.Advances fun e => ∀ j, Concerns j e.2 → j < N

/-- Time passes with commands about the first `N` slots and not about clients. -/
abbrev TendsSlots (N : ℕ) : Executor → Executor → Prop :=
  Executor.Advances fun e => ∃ i < N, Own i e.2

theorem Tends.slots {N i : ℕ} {ex ex' : Executor} (h : Tends i ex ex') (hi : i < N) :
    TendsSlots N ex ex' :=
  h.mono fun _ hown => ⟨i, hi, hown⟩

theorem TendsSlots.within {N : ℕ} {ex ex' : Executor} (h : TendsSlots N ex ex') :
    Within N ex ex' := by
  refine h.mono fun _ howned j hj => ?_
  obtain ⟨i, hi, hown⟩ := howned
  exact hown.eq_of_concerns hj ▸ hi

theorem Tends.only {i : ℕ} {ex ex' : Executor} (h : Tends i ex ex') : Only i ex ex' :=
  h.mono fun _ hown _ hc => hown.eq_of_concerns hc

theorem Only.elsewhere {i j : ℕ} {ex ex' : Executor} (h : Only i ex ex') (hj : j ≠ i) :
    Elsewhere j ex ex' :=
  h.mono fun _ hc hj' => hj (hc j hj')

theorem within_of_elsewhere {N : ℕ} {ex ex' : Executor} (h : ∀ i, Elsewhere i ex ex') :
    Within N ex ex' :=
  (Executor.Advances.forall_of h).mono fun _ hc j hj => absurd hj (hc j)

variable {Id : Type*} {exits : Proc → Moment} {i : ℕ}

theorem own_proc {s : Slot Id} : ∀ q, s.proc i = some q → ∃ seed, q = .backend (i + 1) seed := by
  intro q hq
  obtain ⟨seed, -, rfl⟩ := Option.map_eq_some_iff.mp hq
  exact ⟨seed, rfl⟩

/-- The part of the code that visits a slot. -/
inductive Stage where
  | action | removal | addition | progress

inductive Move (exits : Proc → Moment) (i : ℕ) : Stage → Site Id → Site Id → Prop
  | tick {st : Stage} {v : Site Id} : Move exits i st v ⟨v.slot, v.ex.tick⟩
  | send {st : Stage} {v : Site Id} (m : Message) :
      Move exits i st v ⟨v.slot, v.ex.call (.send (v.slot.proc i) m)⟩
  | kill {st : Stage} {v : Site Id} : Move exits i st v ⟨v.slot, v.ex.call (.kill (v.slot.proc i))⟩
  | terminate {st : Stage} {v : Site Id} :
      Move exits i st v ⟨v.slot, v.ex.call (.terminate (v.slot.proc i))⟩
  | crash {v : Site Id} (now : ℚ) : v.slot.owner ≠ none → v.slot.removing = false →
      v.slot.fault = none →
      Move exits i .action v
        ⟨{ v.slot with killed := true, phase := .crashed, fault := some (.crash now) }, v.ex⟩
  | slow {v : Site Id} (now factor : ℚ) : v.slot.owner ≠ none → v.slot.fault = none →
      Move exits i .action v ⟨{ v.slot with fault := some (.slow now factor) }, v.ex⟩
  | errors {v : Site Id} (now rate : ℚ) : v.slot.owner ≠ none → v.slot.fault = none →
      Move exits i .action v ⟨{ v.slot with fault := some (.errors now rate) }, v.ex⟩
  | partition {v : Site Id} (now : ℚ) : v.slot.owner ≠ none → v.slot.fault = none →
      Move exits i .action v
        ⟨{ v.slot with partitioned := true, fault := some (.partition now) },
          v.ex.call (.setGre (i + 1) false)⟩
  | drain {v : Site Id} {p : Phase} : v.slot.owner ≠ none → v.slot.removing = false →
      p = (if v.slot.phase = .serving ∨ v.slot.phase = .unhealthy ∨ v.slot.phase = .starting
        then .draining else v.slot.phase) →
      Move exits i .action v
        ⟨{ v.slot with manualDrain := true, phase := p }, v.ex.call (.admin .drain i)⟩
  | undrain {v : Site Id} : v.slot.owner ≠ none → v.slot.removing = false →
      Move exits i .action v (undrain i v)
  | startDrain {v : Site Id} (now : ℚ) : v.slot.owner ≠ none → v.slot.removing = false →
      v.slot.phase ≠ .crashed →
      Move exits i .removal v
        ⟨{ v.slot with
            removing := true, manualDrain := false, phase := .draining, drainSince := some now
            quietSince := none }, v.ex.call (.admin .drain i)⟩
  | startStop {v : Site Id} (now : ℚ) : v.slot.owner ≠ none → v.slot.removing = false →
      Move exits i .removal v
        ⟨{ v.slot with
            removing := true, manualDrain := false, phase := .stopping, stopSince := some now },
          v.ex⟩
  | cancel {v : Site Id} : v.slot.removing = true → v.slot.phase = .draining →
      Move exits i .removal v
        ⟨{ v.slot with removing := false, phase := .serving }, v.ex.call (.admin .undrain i)⟩
  | occupied {v : Site Id} (cid : Id) (cfg : BackendConfig) : v.slot.phase = .free →
      Move exits i .addition v (spawn i cfg ⟨{ v.slot with owner := some cid }, v.ex⟩)
  | exit {v : Site Id} (now : ℚ) : v.slot.phase.running = true → v.slot.removing = false →
      Move exits i .progress v
        ⟨{ v.slot with phase := .crashed, fault := v.slot.fault.or (some (.crash now)) }, v.ex⟩
  | started {v : Site Id} : v.slot.phase = .starting →
      Move exits i .progress v
        ⟨{ v.slot with phase := if v.slot.manualDrain then .draining else .serving }, v.ex⟩
  | failed {v : Site Id} : v.slot.phase = .serving →
      Move exits i .progress v ⟨{ v.slot with phase := .unhealthy }, v.ex⟩
  | recovered {v : Site Id} : v.slot.phase = .unhealthy →
      Move exits i .progress v ⟨{ v.slot with phase := .serving }, v.ex⟩
  | looked {v : Site Id} (t : Option ℚ) : v.slot.removing = true → v.slot.phase = .draining →
      Move exits i .progress v ⟨{ v.slot with quietSince := t }, v.ex⟩
  | drained {v : Site Id} (now : ℚ) : v.slot.removing = true → v.slot.phase = .draining →
      Move exits i .progress v ⟨{ v.slot with phase := .stopping, stopSince := some now }, v.ex⟩
  | freed {v : Site Id} {ex : Executor} : v.slot.phase = .stopping →
      v.ex.alive exits (v.slot.proc i) = false →
      ex = (v.ex.call (.admin .undrain i)) ∧ v.slot.partitioned = false ∨
        ex = (v.ex.call (.admin .undrain i)).call (.setGre (i + 1) true) ∧
          v.slot.partitioned = true →
      Move exits i .progress v ⟨Slot.cleared, ex⟩
  | configured {v : Site Id} (cfg : BackendConfig) : v.slot.phase.running = true →
      Move exits i .progress v ⟨{ v.slot with config := some cfg }, v.ex⟩

variable {st : Stage} {v v' : Site Id}

abbrev Path (exits : Proc → Moment) (i : ℕ) (st : Stage) : Site Id → Site Id → Prop :=
  ReflTransGen (Move exits i st)

theorem Move.tends (h : Move exits i st v v') : Tends i v.ex v'.ex := by
  cases h with
  | tick => exact Executor.Advances.refl.tick
  | send | kill | terminate => exact Executor.Advances.refl.call own_proc
  | crash | slow | errors | startStop | exit | started | failed | recovered | looked | drained
  | configured => exact .refl
  | drain | undrain | startDrain | cancel => exact Executor.Advances.refl.call rfl
  | partition => exact Executor.Advances.refl.call rfl
  | occupied => exact Executor.Advances.refl.spawnBackend rfl
  | freed _ _ hex =>
      have hundrain : Tends i v.ex (v.ex.call (.admin .undrain i)) :=
        Executor.Advances.refl.call rfl
      rcases hex with ⟨rfl, -⟩ | ⟨rfl, -⟩
      · exact hundrain
      · exact hundrain.call rfl

theorem Path.tends (h : Path exits i st v v') : Tends i v.ex v'.ex := by
  induction h with
  | refl => exact .refl
  | tail _ hm ih => exact ih.trans hm.tends

/-! ### Clearing a fault -/

section Clearing

variable [DecidableEq Id] {want : Dict Id (BackendNode Id)}

/-- What clearing the current fault comes to. -/
inductive Cleared (want : Dict Id (BackendNode Id)) (i : ℕ) : Site Id → Site Id → Prop
  | nothing {v : Site Id} : v.slot.fault = none → Cleared want i v v
  | respawned {v : Site Id} {b : BackendNode Id} (t : ℚ) : v.slot.fault = some (.crash t) →
      v.slot.owner.bind want.get? = some b →
      Cleared want i v (spawn i b.config ⟨{ v.slot with fault := none }, v.ex⟩)
  | healed {v : Site Id} (t : ℚ) : v.slot.fault = some (.partition t) → v.slot.partitioned = true →
      Cleared want i v
        ⟨{ v.slot with fault := none, partitioned := false }, v.ex.call (.setGre (i + 1) true)⟩
  | forgotten {v : Site Id} {ex : Executor} :
      (∀ t, v.slot.fault = some (.partition t) → v.slot.partitioned = false) →
      ex = v.ex ∨ ex = v.ex.call (.send (v.slot.proc i) .clear) →
      Cleared want i v ⟨{ v.slot with fault := none }, ex⟩

theorem clearFault_cleared : Cleared want i v (clearFault i want v) := by
  unfold clearFault
  dsimp only
  split
  · next h => exact .nothing h
  · next t h =>
      split
      · next b hb => exact .respawned t h hb
      · exact .forgotten (by simp [h]) (.inl rfl)
  · next t h =>
      split
      · next hp => exact .healed t h hp
      · next hp => exact .forgotten (fun _ _ => by simpa using hp) (.inl rfl)
  · next h =>
      split
      · exact .forgotten (by simp [h]) (.inr rfl)
      · exact .forgotten (by simp [h]) (.inl rfl)
  · next h =>
      split
      · exact .forgotten (by simp [h]) (.inr rfl)
      · exact .forgotten (by simp [h]) (.inl rfl)

theorem Cleared.fault (h : Cleared want i v v') : v'.slot.fault = none := by
  cases h with
  | nothing h => exact h
  | respawned | healed | forgotten => rfl

theorem Cleared.owner (h : Cleared want i v v') : v'.slot.owner = v.slot.owner := by
  cases h <;> rfl

theorem Cleared.removing (h : Cleared want i v v') : v'.slot.removing = v.slot.removing := by
  cases h <;> rfl

theorem Cleared.tends (h : Cleared want i v v') : Tends i v.ex v'.ex := by
  cases h with
  | nothing => exact .refl
  | respawned => exact Executor.Advances.refl.spawnBackend rfl
  | healed => exact Executor.Advances.refl.call rfl
  | forgotten _ hex =>
      rcases hex with rfl | rfl
      · exact .refl
      · exact Executor.Advances.refl.call own_proc

end Clearing

/-! ### Visits are chains of moves -/

/-- Only the executor's part of `_begin_stop` depends on the responder. -/
theorem beginStop_path (exits : Proc → Moment) (now : ℚ) (v : Site Id) {s : Slot Id}
    (hs : s.proc i = v.slot.proc i) : ∃ ex, Path exits i st v ⟨v.slot, ex⟩ ∧
      beginStop exits now i ⟨s, v.ex⟩ =
        ⟨{ s with phase := .stopping, stopSince := some now }, ex⟩ := by
  unfold beginStop
  dsimp only
  rw [hs]
  split
  · exact ⟨_, .tail (.single .tick) .terminate, rfl⟩
  · exact ⟨_, .single .tick, rfl⟩

theorem drainFurther_path {now : ℚ} {idle : Bool} (hr : v.slot.removing = true)
    (hp : v.slot.phase = .draining) (h : drainFurther exits now i idle v = some v') :
    Path exits i .progress v v' := by
  have hlook : Path exits i .progress v
      ⟨{ v.slot with quietSince := quietAfter now idle v.slot.quietSince }, v.ex⟩ :=
    .single (.looked _ hr hp)
  have hstop : Path exits i .progress v (beginStop exits now i
      ⟨{ v.slot with quietSince := quietAfter now idle v.slot.quietSince }, v.ex⟩) := by
    obtain ⟨ex, hpath, he⟩ := beginStop_path (i := i) exits now
      ⟨{ v.slot with quietSince := quietAfter now idle v.slot.quietSince }, v.ex⟩ rfl
    rw [he]
    exact (hlook.trans hpath).tail (.drained now hr hp)
  unfold drainFurther at h
  dsimp only at h
  split at h
  · cases h
    exact hstop
  · obtain ⟨since, -, he⟩ := Option.map_eq_some_iff.mp h
    split at he
    · exact he ▸ hstop
    · exact he ▸ hlook

theorem stopFurther_path {now : ℚ} {up alive : Bool} (hp : v.slot.phase = .stopping)
    (ha : alive = false → v.ex.alive exits (v.slot.proc i) = false)
    (h : stopFurther now i up alive v = some v') : Path exits i .progress v v' := by
  unfold stopFurther at h
  split at h
  · obtain ⟨since, -, he⟩ := Option.map_eq_some_iff.mp h
    split at he
    · exact he ▸ .single .kill
    · exact he ▸ .refl
  · next hdead =>
      split at h
      · cases h
        exact .refl
      · cases h
        refine .single (.freed hp (ha (by simpa using hdead)) ?_)
        split
        · next hq => exact .inr ⟨rfl, hq⟩
        · next hq => exact .inl ⟨rfl, by simpa using hq⟩

theorem advance_path {now : ℚ} {obs : Observation} {idle alive : Bool}
    (ha : alive = false → v.ex.alive exits (v.slot.proc i) = false)
    (h : advance exits now i obs idle alive v = some v') : Path exits i .progress v v' := by
  unfold advance at h
  dsimp only at h
  split at h
  · next hp =>
      split at h
      · cases h
        exact .single (.started hp)
      · cases h
        exact .refl
  · next hp =>
      split at h
      · cases h
        exact .refl
      · cases h
        exact .single (.failed hp)
  · next hp =>
      split at h
      · cases h
        exact .single (.recovered hp)
      · cases h
        exact .refl
  · next hp =>
      split at h
      · next hr => exact drainFurther_path hr hp h
      · cases h
        exact .refl
  · next hp => exact stopFurther_path hp ha h
  · cases h
    exact .refl
  · cases h
    exact .refl

section Desired

variable [DecidableEq Id] {want : Dict Id (BackendNode Id)}

theorem configure_path {alive : Bool} : Path exits i .progress v (configure i want alive v) := by
  unfold configure
  split
  · exact .refl
  · split
    · next hc => exact .tail (.single (.send _)) (.configured _ hc.2.1)
    · exact .refl

theorem progress_path {now : ℚ} {lb : Dict ℕ Observation} {latest : Proc → Option Stats}
    (h : progress exits now i want lb latest v = some v') : Path exits i .progress v v' := by
  unfold progress at h
  split at h
  · cases h
    exact .refl
  · dsimp only at h
    split at h
    · next hcrash =>
        cases h
        exact .tail (.single .tick) (.exit now hcrash.1 hcrash.2.2)
    · obtain ⟨v₁, hadv, he⟩ := Option.map_eq_some_iff.mp h
      rw [← he]
      refine .trans (.head .tick (advance_path ?_ hadv)) configure_path
      intro hdead
      by_contra hlive
      rw [Bool.not_eq_false] at hlive
      rw [Executor.alive_antitone (Executor.now_lt_tick v.ex).le hlive] at hdead
      cases hdead

theorem removal_path {now : ℚ} : Path exits i .removal v (removal exits now i want v) := by
  unfold removal
  split
  · exact .refl
  · next owner ho =>
      have howned : v.slot.owner ≠ none := by simp [ho]
      split
      · next hrm =>
          dsimp only
          split
          · next hdrain => exact .tail (.single .tick) (.startDrain now howned hrm.2 hdrain.2)
          · obtain ⟨ex, hpath, he⟩ := beginStop_path (i := i) exits now ⟨v.slot, v.ex.tick⟩
              (s := { v.slot with removing := true, manualDrain := false }) rfl
            rw [he]
            exact .tail (.head .tick hpath) (.startStop now howned hrm.2)
      · split
        · next hc => exact .single (.cancel hc.2.1 hc.2.2)
        · exact .refl

/-- The actions that first clear the current fault. -/
def clears : ActionKind → Bool
  | .drain | .undrain => false
  | _ => true

theorem perform_path {now : ℚ} {kind : ActionKind} (ho : v.slot.owner ≠ none)
    (hr : v.slot.removing = false) :
    Path exits i .action (if clears kind then clearFault i want v else v)
      (perform exits now i want kind v) := by
  have hc : Cleared want i v (clearFault i want v) := clearFault_cleared
  have ho' : (clearFault i want v).slot.owner ≠ none := hc.owner ▸ ho
  have hr' : (clearFault i want v).slot.removing = false := hc.removing ▸ hr
  cases kind with
  | crash =>
      have hclears : clears .crash = true := rfl
      rw [perform, if_pos hclears]
      dsimp only
      split
      · exact .tail (.tail (.single .tick) .kill) (.crash now ho' hr' hc.fault)
      · exact .tail (.single .tick) (.crash now ho' hr' hc.fault)
  | slow factor => exact .tail (.single (.send _)) (.slow now factor ho' hc.fault)
  | errors rate => exact .tail (.single (.send _)) (.errors now rate ho' hc.fault)
  | partition => exact .single (.partition now ho' hc.fault)
  | restart => exact .refl
  | clear => exact .refl
  | drain => exact .single (.drain ho hr rfl)
  | undrain => exact .single (.undrain ho hr)

theorem resetSlot_path (ho : v.slot.owner ≠ none) (hr : v.slot.removing = false) :
    Path exits i .action (clearFault i want v) (resetSlot exits i want v) := by
  have hc : Cleared want i v (clearFault i want v) := clearFault_cleared
  have hskip : ¬ (v.slot.owner = none ∨ v.slot.removing = true) := by simp [ho, hr]
  have hmanual : Path exits i .action (clearFault i want v)
      (if (clearFault i want v).slot.manualDrain then undrain i (clearFault i want v)
        else clearFault i want v) := by
    split
    · exact .single (.undrain (hc.owner ▸ ho) (hc.removing ▸ hr))
    · exact .refl
  rw [resetSlot, if_neg hskip]
  dsimp only
  generalize (if (clearFault i want v).slot.manualDrain then undrain i (clearFault i want v)
    else clearFault i want v) = v₁ at hmanual ⊢
  split
  · exact .tail (.tail hmanual .tick) (.send _)
  · exact .tail hmanual .tick

end Desired

end MaglevLb.SlotMoves
