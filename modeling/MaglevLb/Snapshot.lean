import MaglevLb.ControlChannel
import MaglevLb.SlotCommands

/-!
# What a snapshot shows

The part of `build_snapshot` that shows the canvas and the slots: the entry of every node of
the canvas, and the slots that still finish connections of a backend that has left it. Rates,
latencies and maglev-lb's own numbers are not among it. A snapshot is built right after a step.
-/
namespace MaglevLb.Snapshot

open Children OrderedDict Slots Reconcile SlotMoves SlotViews SlotLifecycle SlotOwnership
open SlotCommands ControlChannel

/-- The phase of a backend's slot, or why it has none. -/
inductive Standing where
  | phase (p : Phase)
  | pending
  | detached
  deriving DecidableEq

structure BackendEntry (Id : Type*) (N : ℕ) where
  id : Id
  slot : Option (Fin N)
  phase : Standing
  config : BackendConfig
  fault : Option Fault
  alive : Bool

structure Retiring (Id : Type*) (N : ℕ) where
  slot : Fin N
  formerId : Id
  phase : Phase

inductive ClientState where
  | disconnected | exited | running | paused
  deriving DecidableEq

structure ClientEntry (Id : Type*) where
  id : Id
  index : Option ℕ
  state : ClientState
  config : ClientConfig

structure Snap (Id : Type*) (N : ℕ) where
  loadEnabled : Bool
  autoPaused : Bool
  waiting : Finset Id
  clients : List (ClientEntry Id)
  backends : List (BackendEntry Id N)
  retiring : List (Retiring Id N)

section Build

variable {Id : Type*} [LinearOrder Id] {N : ℕ} (exits : Proc → Moment)

/-- The standing of a backend of the canvas, also in the answer to a new canvas. -/
def standing (r : Reconciler Id N) (cid : Id) : Standing :=
  match r.slotOf cid with
  | some i => .phase (r.slots i).phase
  | none => if cid ∈ r.pending then .pending else .detached

def backendEntry (r : Reconciler Id N) (b : BackendNode Id) : BackendEntry Id N where
  id := b.id
  slot := r.slotOf b.id
  phase := standing r b.id
  config := b.config
  fault := (r.slotOf b.id).bind fun i => (r.slots i).fault
  alive := (r.slotOf b.id).any fun i => r.ex.alive exits ((r.slots i).proc i)

/-- Off the canvas, but still finishing pinned connections. -/
def retiringEntry (r : Reconciler Id N) (i : Fin N) : Option (Retiring Id N) :=
  match (r.slots i).owner with
  | none => none
  | some cid =>
      if (r.slots i).removing ∧ cid ∉ r.desired.backends.map BackendNode.id then
        some ⟨i, cid, (r.slots i).phase⟩
      else none

/-- `loadOn` is what the process last reported. -/
def clientEntry (loadOn : Proc → Bool) (r : Reconciler Id N) (c : ClientNode Id) :
    ClientEntry Id where
  id := c.id
  index := (r.clients.get? c.id).map ClientRec.index
  state :=
    let proc := (r.clients.get? c.id).bind ClientRec.proc
    if c.connected = false then .disconnected
    else if r.ex.alive exits proc = false then .exited
    else if proc.any loadOn then .running
    else .paused
  config := c.config

def buildSnapshot (loadOn : Proc → Bool) (r : Reconciler Id N) : Snap Id N where
  loadEnabled := r.desired.loadEnabled && !r.loadSuppressed
  autoPaused := r.loadSuppressed
  waiting := r.pending
  clients := r.desired.clients.map (clientEntry exits loadOn r)
  backends := r.desired.backends.map (backendEntry exits r)
  retiring := (List.finRange N).filterMap (retiringEntry r)

end Build

/-! ### Slots after a step -/

section Steps

variable {Id : Type*} {exits : Proc → Moment} {now : ℚ} {i : ℕ} {v v' : Site Id}

/-- Progress does not cancel a removal. -/
theorem Path.keeps_removing (h : Path exits i .progress v v') (hr : v.slot.removing = true) :
    v'.slot.owner = none ∨ v'.slot.removing = true := by
  induction h with
  | refl => exact .inr hr
  | tail _ hm ih =>
      cases hm with
      | freed => exact .inl rfl
      | _ => exact ih

variable [LinearOrder Id]

theorem removal_removing {want : Dict Id (BackendNode Id)} {cid : Id}
    (ho : v.slot.owner = some cid) (hinactive : isActive want cid = false) :
    (removal exits now i want v).slot.removing = true := by
  have hvisit := removal_cases exits now i want v
  generalize removal exits now i want v = w at hvisit ⊢
  cases hvisit with
  | free hfree =>
      rw [ho] at hfree
      cases hfree
  | kept ho' hkept =>
      cases ho.symm.trans ho'
      exact hkept hinactive
  | drains | stops => rfl
  | cancels ho' hactive =>
      cases ho.symm.trans ho'
      rw [hinactive] at hactive
      cases hactive

variable {N : ℕ} {r r' : Reconciler Id N}

theorem foldl_addition_new {l : List (Id × BackendNode Id)} {i : Fin N} {cid : Id}
    (h : ((l.foldl Reconciler.addition r).slots i).owner = some cid) :
    (r.slots i).owner = some cid ∨ cid ∈ l.map Prod.fst := by
  induction l generalizing r with
  | nil => exact .inl h
  | cons e l ih =>
      rw [List.map_cons, List.mem_cons]
      rcases ih h with hold | hmem
      · rcases addition_cases r e with ⟨-, he⟩ | ⟨-, -, he⟩ | ⟨-, k, -, he⟩
        · exact .inl (he ▸ hold)
        · rw [he] at hold
          exact .inl hold
        · rw [addition_put_owner he] at hold
          split at hold
          · exact .inr (.inl (Option.some.inj hold).symm)
          · exact .inl hold
      · exact .inr (.inr hmem)

/-- After a step, the slot of a backend that is not attached is being given up. -/
theorem step_removing {lb : Dict ℕ Observation} {latest : Proc → Option Stats}
    (hl : ∀ i, Lifecycle (r.slots i)) (h : r.step exits now lb latest = some r') {i : Fin N}
    {cid : Id} (ho : (r'.slots i).owner = some cid)
    (hinactive : isActive r.desiredBackends cid = false) : (r'.slots i).removing = true := by
  obtain ⟨r₁, hremoval, hprogress⟩ := step_loops h
  have hadded : ((Reconciler.additions r.desiredBackends r₁).slots i).owner = some cid := by
    rcases progress_owner_or hprogress i with hkept | hnone
    · exact hkept.symm.trans ho
    · rw [ho] at hnone
      cases hnone
  -- the slot was not taken in this step, so the removal loop has seen its owner
  have hbefore : (r₁.slots i).owner = some cid := by
    rcases foldl_addition_new (r := { r₁ with pending := ∅ }) hadded with hold | hmem
    · exact hold
    · obtain ⟨e, he, rfl⟩ := List.mem_map.mp hmem
      rw [isActive_of_mem he] at hinactive
      cases hinactive
  have hl₁ : ∀ i, Lifecycle (r₁.slots i) := removals_lifecycle hl hremoval
  have hslots : (Reconciler.additions r.desiredBackends r₁).slots i = r₁.slots i :=
    foldl_addition_owner (r := { r₁ with pending := ∅ }) hl₁ _ (by simp [hbefore])
  have hremoving : (r₁.slots i).removing = true := by
    obtain ⟨ex, hslot⟩ := removals_owner hremoval i
    rw [hslot, removal_owner] at hbefore
    rw [hslot]
    exact removal_removing hbefore hinactive
  obtain ⟨ex, w, -, hw, hslot, -⟩ :=
    forSlots_view (fun hv => Path.tends (progress_path hv)) hprogress i
  rw [hslot] at ho ⊢
  rcases Path.keeps_removing (progress_path hw) (by rw [hslots, hremoving]) with hfreed | hr
  · rw [ho] at hfreed
    cases hfreed
  · exact hr

end Steps

/-! ### Every slot in use is shown once -/

section Shown

variable {Id : Type*} [LinearOrder Id] {N : ℕ} {exits : Proc → Moment} {r : Reconciler Id N}

/-- A backend of the canvas is shown with slot `i` if and only if it owns it. -/
theorem slotOf_eq_some_iff (hd : Distinct r) {cid : Id} {i : Fin N} :
    r.slotOf cid = some i ↔ (r.slots i).owner = some cid := by
  refine ⟨fun h => ?_, slotOf_eq_some hd⟩
  simpa using List.find?_some h

theorem countP_backends (hd : Distinct r) (hnd : (r.desired.backends.map BackendNode.id).Nodup)
    (i : Fin N) :
    (r.desired.backends.map (backendEntry exits r)).countP (fun e => e.slot = some i) =
      if (r.slots i).owner.any (· ∈ r.desired.backends.map BackendNode.id) then 1 else 0 := by
  rw [List.countP_map]
  cases ho : (r.slots i).owner with
  | none =>
      rw [Option.any_none, if_neg Bool.false_ne_true, List.countP_eq_zero]
      intro b _
      simp [backendEntry, slotOf_eq_some_iff hd, ho]
  | some cid =>
      have hiff : (fun e => decide (e.slot = some i)) ∘ backendEntry exits r =
          (fun id => id == cid) ∘ BackendNode.id := by
        funext b
        simp [backendEntry, slotOf_eq_some_iff hd, ho, eq_comm, Bool.beq_eq_decide_eq]
      rw [hiff, ← List.countP_map, ← List.count_eq_countP, hnd.count, Option.any_some]
      simp only [decide_eq_true_eq]

theorem isActive_eq_false {cid : Id} (h : cid ∉ r.desired.backends.map BackendNode.id) :
    isActive r.desiredBackends cid = false := by
  rw [isActive, Option.any_eq_false]
  intro b hb
  obtain ⟨c, hc, heq⟩ := List.mem_map.mp (Dict.mem_of_get?_ofList hb)
  cases heq
  exact absurd (List.mem_map_of_mem hc) h

theorem retiringEntry_of {i : Fin N} {e : Retiring Id N} (h : retiringEntry r i = some e) :
    e.slot = i ∧ (r.slots i).owner = some e.formerId := by
  unfold retiringEntry at h
  split at h
  · cases h
  · next cid ho =>
      split at h
      · cases h
        exact ⟨rfl, ho⟩
      · cases h

theorem countP_retiring (i : Fin N) :
    ((List.finRange N).filterMap (retiringEntry r)).countP (fun e => e.slot = i) =
      if (retiringEntry r i).isSome then 1 else 0 := by
  have hiff : ∀ j ∈ List.finRange N,
      ((retiringEntry r j).map fun e => decide (e.slot = i)).getD false = true ↔
        ((j == i) && (retiringEntry r i).isSome) = true := by
    intro j _
    rw [Bool.and_eq_true, beq_iff_eq, Option.isSome_iff_exists]
    constructor
    · intro h
      cases he : retiringEntry r j with
      | none =>
          rw [he] at h
          cases h
      | some e =>
          rw [he] at h
          obtain rfl := (retiringEntry_of he).1.symm.trans (of_decide_eq_true h)
          exact ⟨rfl, e, he⟩
    · rintro ⟨rfl, e, he⟩
      rw [he]
      exact decide_eq_true (retiringEntry_of he).1
  rw [List.countP_filterMap, List.countP_congr hiff]
  cases (retiringEntry r i).isSome with
  | false => simp
  | true =>
      simp only [Bool.and_true, if_true]
      rw [← List.count_eq_countP, (List.nodup_finRange N).count, if_pos (List.mem_finRange i)]

/-- The entry that shows a slot is its owner's. -/
theorem shown_owner (hd : Distinct r) (loadOn : Proc → Bool) (i : Fin N) :
    (∀ e ∈ (buildSnapshot exits loadOn r).backends, e.slot = some i →
      (r.slots i).owner = some e.id) ∧
    ∀ e ∈ (buildSnapshot exits loadOn r).retiring, e.slot = i →
      (r.slots i).owner = some e.formerId := by
  refine ⟨List.forall_mem_map.mpr fun b _ hslot => (slotOf_eq_some_iff hd).mp hslot, ?_⟩
  intro e he hslot
  obtain ⟨j, -, hj⟩ := List.mem_filterMap.mp he
  obtain ⟨hslot', howner⟩ := retiringEntry_of hj
  rw [← hslot, hslot']
  exact howner

end Shown

/-- Every snapshot accounts for every slot: after any history of accepted documents and actions,
a slot in use is shown exactly once, as the slot of its owner where that is on the canvas and as
retiring under its owner's id where it has left it, and a free slot is not shown. -/
theorem slots_shown_once (exits : Proc → Moment) {N : ℕ} {es : List (Event String)}
    (hes : ∀ e ∈ es, Admitted e) {r : Reconciler String N}
    (hr : run exits (Reconciler.init String N) es = some r) (now : ℚ) (lb : Dict ℕ Observation)
    (latest : Proc → Option Stats) (loadOn : Proc → Bool) :
    ∃ r', apply exits r (.step now lb latest) = some r' ∧
      ∀ i : Fin N,
        (buildSnapshot exits loadOn r').backends.countP (fun e => e.slot = some i) =
          (if (r'.slots i).owner.any (· ∈ r.desired.backends.map BackendNode.id) then 1 else 0) ∧
        (buildSnapshot exits loadOn r').retiring.countP (fun e => e.slot = i) =
          (if (r'.slots i).owner.any (· ∉ r.desired.backends.map BackendNode.id) then 1
            else 0) ∧
        (∀ e ∈ (buildSnapshot exits loadOn r').backends, e.slot = some i →
          (r'.slots i).owner = some e.id) ∧
        ∀ e ∈ (buildSnapshot exits loadOn r').retiring, e.slot = i →
          (r'.slots i).owner = some e.formerId := by
  have hl : ∀ i, Lifecycle (r.slots i) := run_lifecycle init_lifecycle hr
  obtain ⟨r', hstep⟩ : ∃ r', apply exits r (.step now lb latest) = some r' := apply_exists hl _
  have hdesired : r'.desired = r.desired :=
    SteadyStep.step_desired (r := { r with ex := r.ex.nextTurn }) hstep
  have hd : Distinct r' := apply_distinct (run_distinct hr) hstep
  have hnd := (run_channel (fun e he => (hes e he).accepted) hr).desired.distinct
  refine ⟨r', hstep, fun i => ⟨?_, ?_, shown_owner hd loadOn i⟩⟩
  · rw [← hdesired] at hnd ⊢
    exact countP_backends hd hnd i
  · refine (countP_retiring i).trans (if_congr ?_ rfl rfl)
    unfold retiringEntry
    cases ho : (r'.slots i).owner with
    | none => simp
    | some cid =>
        dsimp only
        rw [hdesired, Option.any_some, decide_eq_true_eq]
        split
        · next h => exact iff_of_true rfl h.2
        · next h =>
            refine iff_of_false Bool.false_ne_true fun hout => h ⟨?_, hout⟩
            exact step_removing (r := { r with ex := r.ex.nextTurn }) hl hstep ho
              (isActive_eq_false hout)

def emptyDoc : Schema.Json :=
  .obj [("schema", .str "l4mlb-live/1"), ("nodes", .obj [("lb", .str "lb")])]

def emptyCanvas : Schema.Canvas := ⟨some "lb", ⟨[], [], false⟩⟩

/-- A backend that has left the canvas while it serves. -/
def departed : List (Event String) := halved ++ [.setDesired emptyCanvas.desired]

theorem slots_shown_once_departed :
    ∃ r r' : Reconciler String 1,
      run (fun _ => toLex (9, 0)) (Reconciler.init String 1) departed = some r ∧
      apply (fun _ => toLex (9, 0)) r (.step 4 .empty fun _ => none) = some r' ∧
      (buildSnapshot (fun _ => toLex (9, 0)) (fun _ => true) r').backends.countP
        (fun e => e.slot = some 0) = 0 ∧
      (buildSnapshot (fun _ => toLex (9, 0)) (fun _ => true) r').retiring.countP
        (fun e => e.slot = 0) = 1 ∧
      ∀ e ∈ (buildSnapshot (fun _ => toLex (9, 0)) (fun _ => true) r').retiring, e.slot = 0 →
        e.formerId = "b1" := by
  have hadmitted : ∀ e ∈ departed, Admitted e :=
    List.forall_mem_append.mpr ⟨halved_admitted,
      List.forall_mem_singleton.mpr ⟨emptyDoc, emptyCanvas, by decide +kernel, rfl⟩⟩
  have hrun : (run (fun _ => toLex (9, 0)) (Reconciler.init String 1) departed).any (fun r =>
      r.desired.backends.map BackendNode.id = [] ∧
        (apply (fun _ => toLex (9, 0)) r (.step 4 .empty fun _ => none)).any
          (fun r' => (r'.slots 0).owner = some "b1")) = true := by
    decide +kernel
  obtain ⟨r, hr, h⟩ := (Option.any_eq_true _ _).mp hrun
  obtain ⟨hids, hstep⟩ := of_decide_eq_true h
  obtain ⟨r', hstep', hshown⟩ :=
    slots_shown_once _ hadmitted hr 4 .empty (fun _ => none) fun _ => true
  obtain ⟨hbackends, hretiring, -, howner⟩ := hshown 0
  rw [hstep', Option.any_some, decide_eq_true_eq] at hstep
  rw [hids, hstep] at hbackends hretiring
  rw [hstep] at howner
  exact ⟨r, r', hr, hstep', hbackends, hretiring, fun e he hslot =>
    (Option.some.inj (howner e he hslot)).symm⟩

end MaglevLb.Snapshot
