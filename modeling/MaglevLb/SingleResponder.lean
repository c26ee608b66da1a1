import MaglevLb.SlotLifecycle
import Mathlib.Data.String.Basic

/-!
# One responder in a slot

A responder that was told to stop exits when it likes. A slot is freed only after
its responder exited, so a later occupant finds the port free; clearing a crash
fault starts a new responder at once, whether or not the killed one has exited.
-/
namespace MaglevLb.SingleResponder

open Children OrderedDict Slots Reconcile SlotMoves SlotViews SlotLifecycle

variable {Id : Type*} {N : ℕ} {exits : Proc → Moment} {i : ℕ} {v v' : Site Id}

def spawnFor (i : ℕ) : Moment × Call → Option (Moment × ℕ)
  | (m, .spawnBackend n _ seed) => if n = i + 1 then some (m, seed) else none
  | _ => none

/-- When responders were started in the slot with maglev-lb id `i`, and their seeds. -/
def spawns (i : ℕ) (ex : Executor) : List (Moment × ℕ) := ex.log.filterMap (spawnFor i)

/-- Each responder of the slot had exited when the next ones were started. -/
def OneAtATime (exits : Proc → Moment) (i : ℕ) (ex : Executor) : Prop :=
  (spawns i ex).Pairwise fun a b => exits (.backend (i + 1) a.2) ≤ b.1

structure Single (exits : Proc → Moment) (i : ℕ) (v : Site Id) : Prop where
  lifecycle : Lifecycle v.slot
  past : OneAtATime exits i v.ex
  present : ∀ s ∈ spawns i v.ex,
    v.slot.handle = some s.2 ∨ exits (.backend (i + 1) s.2) ≤ v.ex.now

theorem spawnFor_of_not_concerns {e : Moment × Call} (h : ¬ Concerns i e.2) :
    spawnFor i e = none := by
  obtain ⟨m, c⟩ := e
  cases c with
  | spawnBackend n cfg seed => exact if_neg h
  | spawnClient | send | terminate | kill | admin | setGre => rfl

theorem spawns_advances {P : Moment × Call → Prop} {ex ex' : Executor}
    (h : Executor.Advances P ex ex') (hP : ∀ e, P e → spawnFor i e = none) :
    spawns i ex' = spawns i ex := by
  obtain ⟨l, hl, hPl⟩ := h.log_eq
  have hnone : l.filterMap (spawnFor i) = [] :=
    List.filterMap_eq_nil_iff.mpr fun e he => hP e (hPl e he).2.2
  rw [spawns, hl, List.filterMap_append, hnone, List.append_nil, spawns]

/-- No responder is started and the handle stays. -/
theorem Single.of_eq (h : Single exits i v) {s : Slot Id} {ex : Executor} (hlife : Lifecycle s)
    (hh : s.handle = v.slot.handle) (hs : spawns i ex = spawns i v.ex) (hn : v.ex.now ≤ ex.now) :
    Single exits i ⟨s, ex⟩ := by
  refine ⟨hlife, ?_, ?_⟩
  · have hpast := h.past
    unfold OneAtATime at hpast ⊢
    rwa [hs]
  · intro a ha
    rw [hs] at ha
    rw [hh]
    exact (h.present a ha).imp_right fun hx => hx.trans hn

/-- A responder is started when every earlier one has exited. -/
theorem Single.spawn (h : Single exits i v) {s : Slot Id} {cfg : BackendConfig}
    (hdead : ∀ a ∈ spawns i v.ex, exits (.backend (i + 1) a.2) ≤ v.ex.now)
    (hlife : Lifecycle (spawn i cfg ⟨s, v.ex⟩).slot) : Single exits i (spawn i cfg ⟨s, v.ex⟩) := by
  have hspawns : spawns i (Slots.spawn i cfg ⟨s, v.ex⟩).ex =
      spawns i v.ex ++ [(v.ex.now, v.ex.seed + 1)] := by
    simp [spawns, Slots.spawn, spawnFor]
  have hnow : v.ex.now ≤ (Slots.spawn i cfg ⟨s, v.ex⟩).ex.now := (Executor.now_lt_tick v.ex).le
  refine ⟨hlife, ?_, ?_⟩
  · unfold OneAtATime
    rw [hspawns, List.pairwise_append]
    refine ⟨h.past, List.pairwise_singleton _ _, fun a ha b hb => ?_⟩
    cases List.mem_singleton.mp hb
    exact hdead a ha
  · intro a ha
    rw [hspawns, List.mem_append] at ha
    rcases ha with ha | ha
    · exact .inr ((hdead a ha).trans hnow)
    · cases List.mem_singleton.mp ha
      exact .inl rfl

/-- A slot without a handle has no live responder. -/
theorem Single.exited (h : Single exits i v) (hh : v.slot.handle = none) :
    ∀ a ∈ spawns i v.ex, exits (.backend (i + 1) a.2) ≤ v.ex.now := by
  intro a ha
  exact (h.present a ha).resolve_left (by simp [hh])

/-- A slot whose responder is not alive has no live responder. -/
theorem Single.exited_of_dead (h : Single exits i v)
    (hdead : v.ex.alive exits (v.slot.proc i) = false) :
    ∀ a ∈ spawns i v.ex, exits (.backend (i + 1) a.2) ≤ v.ex.now := by
  intro a ha
  rcases h.present a ha with hh | hx
  · rw [Slot.proc, hh] at hdead
    exact Executor.exited_of_not_alive hdead
  · exact hx

theorem Move.single {st : Stage} (h : Move exits i st v v') (hv : Single exits i v) :
    Single exits i v' := by
  have hlife := Move.lifecycle h hv.lifecycle
  have hnow := h.tends.now_le
  cases h with
  | occupied cid cfg hf =>
      have hfresh := hv.lifecycle.fresh hf
      exact hv.spawn (hv.exited (by rw [hfresh]; rfl)) hlife
  | @freed _ ex hp hdead hex =>
      have hspawns : spawns i ex = spawns i v.ex := by
        rcases hex with ⟨rfl, -⟩ | ⟨rfl, -⟩ <;> simp [spawns, spawnFor]
      have hgone := hv.exited_of_dead hdead
      refine ⟨hlife, ?_, fun a ha => .inr ?_⟩
      · have hpast := hv.past
        unfold OneAtATime at hpast ⊢
        rwa [hspawns]
      · rw [hspawns] at ha
        exact (hgone a ha).trans hnow
  | tick | crash | slow | errors | startStop | exit | started | failed | recovered | looked
  | drained | configured => exact hv.of_eq hlife rfl rfl hnow
  | send | kill | terminate | partition | drain | undrain | startDrain | cancel =>
      exact hv.of_eq hlife rfl (by simp [spawns, spawnFor]) hnow

/-- Clearing a crash fault is safe once the crashed responder has exited. -/
theorem Cleared.single [DecidableEq Id] {want : Dict Id (BackendNode Id)}
    (h : Cleared want i v v') (ho : v.slot.owner ≠ none) (hr : v.slot.removing = false)
    (hdead : ∀ t b, v.slot.fault = some (.crash t) → v.slot.owner.bind want.get? = some b →
      v.ex.alive exits (v.slot.proc i) = false)
    (hv : Single exits i v) : Single exits i v' := by
  have hlife := Cleared.lifecycle h ho hr hv.lifecycle
  have hnow := h.tends.now_le
  cases h with
  | nothing => exact hv
  | respawned t hf hb => exact hv.spawn (hv.exited_of_dead (hdead t _ hf hb)) hlife
  | healed => exact hv.of_eq hlife rfl (by simp [spawns, spawnFor]) hnow
  | forgotten hp hex =>
      refine hv.of_eq hlife rfl ?_ hnow
      rcases hex with rfl | rfl <;> simp [spawns, spawnFor]

theorem Single.elsewhere (h : Single exits i v) {ex : Executor} (he : Elsewhere i v.ex ex) :
    Single exits i ⟨v.slot, ex⟩ :=
  h.of_eq h.lifecycle rfl (spawns_advances he fun _ => spawnFor_of_not_concerns) he.now_le

def isCrash : Option Fault → Bool
  | some (.crash _) => true
  | _ => false

section Runs

variable [LinearOrder Id] {r r' : Reconciler Id N}

/-- The call clears the crash fault of slot `i` and so starts a new responder there. -/
def respawns (r : Reconciler Id N) (e : Event Id) (i : Fin N) : Bool :=
  (match e with
    | .action target kind _ => clears kind && (r.slots i).owner = some target
    | .reset _ => true
    | _ => false) &&
  !(r.slots i).removing && isCrash (r.slots i).fault &&
    ((r.slots i).owner.bind r.desiredBackends.get?).isSome

/-- When the call is made, the crashed responders it replaces have exited. -/
def Buried (exits : Proc → Moment) (r : Reconciler Id N) (e : Event Id) : Prop :=
  ∀ i : Fin N, respawns r e i = true → r.ex.nextTurn.alive exits ((r.slots i).proc i) = false

instance (exits : Proc → Moment) (r : Reconciler Id N) (e : Event Id) :
    Decidable (Buried exits r e) := by
  unfold Buried
  infer_instance

theorem Cleans.respawns {e : Event Id} {i : Fin N} {t : ℚ} {b : BackendNode Id}
    (h : Cleans r i e) (hf : (r.slots i).fault = some (.crash t))
    (hb : (r.slots i).owner.bind r.desiredBackends.get? = some b) : respawns r e i = true := by
  obtain ⟨-, hr, he⟩ := h
  unfold SingleResponder.respawns
  cases e with
  | action target kind now =>
      rw [he.2, Option.bind_some] at hb
      simp [hr, hf, hb, isCrash, he.1, he.2]
  | reset now => simp [hr, hf, hb, isCrash]
  | setDesired | suppressLoad | step => cases he

theorem apply_single {e : Event Id} (hs : ∀ i : Fin N, Single exits i ⟨r.slots i, r.ex⟩)
    (hb : Buried exits r e) (h : apply exits r e = some r') :
    ∀ i : Fin N, Single exits i ⟨r'.slots i, r'.ex⟩ := by
  intro i
  obtain ⟨ex₁, v₁, hex₁, hv₁, htrail⟩ := apply_trail h i
  have hturn : Single exits i ⟨r.slots i, r.ex.nextTurn⟩ :=
    (hs i).of_eq (hs i).lifecycle rfl rfl (Executor.now_lt_nextTurn _).le
  have hstart : Single exits i ⟨r.slots i, ex₁⟩ := hturn.elsewhere hex₁
  refine htrail.invariant Move.single (fun he hv => hv.elsewhere he) ?_
  rcases hv₁ with rfl | ⟨hcleans, hc⟩
  · exact hstart
  · refine Cleared.single hc hcleans.1 hcleans.2.1 ?_ hstart
    intro t b hf hbe
    have hdead := hb i (Cleans.respawns hcleans hf hbe)
    by_contra halive
    rw [Bool.not_eq_false] at halive
    rw [Executor.alive_antitone hex₁.now_le halive] at hdead
    cases hdead

/-- In every run in which each call that clears a crash fault comes after the
crashed responder exited, no responder is started in a slot while an earlier one
of that slot is alive. -/
theorem single_responder (exits : Proc → Moment) (es : List (Event Id))
    (hb : EventRun.Along (apply exits) (Buried exits) (Reconciler.init Id N) es) :
    ∃ r, run exits (Reconciler.init Id N) es = some r ∧
      ∀ i : Fin N, OneAtATime exits i r.ex := by
  obtain ⟨r, hr⟩ := run_exists Id N exits es
  have hinit : ∀ i : Fin N,
      Single exits i ⟨(Reconciler.init Id N).slots i, (Reconciler.init Id N).ex⟩ :=
    fun i => ⟨cleared_lifecycle, List.Pairwise.nil, fun a ha => by cases ha⟩
  have hsingle := hb.invariant (P := fun r => ∀ i : Fin N, Single exits i ⟨r.slots i, r.ex⟩)
    apply_single hinit hr
  exact ⟨r, hr, fun i => (hsingle i).past⟩

end Runs

/-- A backend is crashed and restarted. -/
def crashAndRestart : List (Event String) :=
  [.setDesired (canvas ["b1"]), .step 1 (observe []) fun _ => none,
    .action "b1" .crash 2, .action "b1" .restart 3]

/-- The responder that is killed is gone soon, the one that is started then runs on. -/
def exitsSoon : Proc → Moment
  | .backend _ 2 => toLex (3, 9)
  | _ => toLex (9, 0)

/-- The crashed responder is gone by the time of the restart. -/
theorem single_responder_restart :
    ∃ r : Reconciler String 1,
      run exitsSoon (Reconciler.init String 1) crashAndRestart = some r ∧
      (spawns 0 r.ex).map Prod.snd = [2, 3] ∧ ∀ i : Fin 1, OneAtATime exitsSoon i r.ex := by
  have hrun : (run exitsSoon (Reconciler.init String 1) crashAndRestart).any
      (fun r => (spawns 0 r.ex).map Prod.snd = [2, 3]) = true := by
    decide +kernel
  obtain ⟨r, hr, hspawns⟩ := (Option.any_eq_true _ _).mp hrun
  obtain ⟨r', hr', hsingle⟩ :=
    single_responder (N := 1) exitsSoon crashAndRestart (by decide +kernel)
  cases hr.symm.trans hr'
  exact ⟨r, hr, of_decide_eq_true hspawns, hsingle⟩

/-- The killed responder takes its time, and the restart does not wait for it. -/
theorem restart_before_exit :
    ∃ r : Reconciler String 1,
      run (fun _ => toLex (9, 0)) (Reconciler.init String 1) crashAndRestart = some r ∧
      ¬ OneAtATime (fun _ => toLex (9, 0)) 0 r.ex := by
  have hrun : (run (fun _ => toLex (9, 0)) (Reconciler.init String 1) crashAndRestart).any
      (fun r => ¬ (spawns 0 r.ex).Pairwise fun _ b => toLex (9, 0) ≤ b.1) = true := by
    decide +kernel
  obtain ⟨r, hr, h⟩ := (Option.any_eq_true _ _).mp hrun
  exact ⟨r, hr, by simpa [OneAtATime] using h⟩

end MaglevLb.SingleResponder
