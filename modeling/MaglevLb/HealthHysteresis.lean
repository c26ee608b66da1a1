import Mathlib.Data.Fintype.Card
import MaglevLb.Crossings
import MaglevLb.LoadBalancer

/-!
# Health hysteresis

The counters of a backend are the runs that end its own results, cut off at the
thresholds, so a health value is set exactly where a run first reaches its
threshold. Since there are as many counters as backends, no result is ever
dropped, and the stored health is the value of the last crossing.
-/
namespace MaglevLb.HealthChecker
open Maglev BackendManager TableGenerator Crossings

/-! ### One backend's counters -/

def threshold (cfg : HealthCheckCfg) (ok : Bool) : ℕ :=
  if ok then cfg.rise.toNat else cfg.fall.toNat

def ProbeState.counter (st : ProbeState) (ok : Bool) : UInt32 :=
  if ok then st.consecutiveOk else st.consecutiveFail

/-- The counters hold the runs of the results, up to the thresholds. -/
def Tallies (cfg : HealthCheckCfg) (results : List Bool) (st : ProbeState) : Prop :=
  ∀ ok, (st.counter ok).toNat = min (threshold cfg ok) (streak ok results)

variable {cfg : HealthCheckCfg} {results : List Bool} {st : ProbeState} {ok : Bool}

/-- A counter moves up to its limit and stays there. -/
def bump (limit c : UInt32) : UInt32 := if c < limit then c + 1 else c

theorem toNat_succ_of_lt {c limit : UInt32} (h : c < limit) : (c + 1).toNat = c.toNat + 1 := by
  have hlt := UInt32.lt_iff_toNat_lt.mp h
  have hlimit := limit.toNat_lt
  rw [UInt32.toNat_add, UInt32.toNat_one]
  omega

theorem bump_toNat {limit c : UInt32} (h : c.toNat ≤ limit.toNat) :
    (bump limit c).toNat = min limit.toNat (c.toNat + 1) := by
  unfold bump
  split
  · next hlt =>
      have hle := UInt32.lt_iff_toNat_lt.mp hlt
      rw [toNat_succ_of_lt hlt]
      omega
  · next hge =>
      have hge' := mt UInt32.lt_iff_toNat_lt.mpr hge
      omega

theorem reaches_iff {limit c : UInt32} :
    c < limit ∧ c + 1 = limit ↔ c.toNat + 1 = limit.toNat := by
  constructor
  · rintro ⟨hlt, hsucc⟩
    rw [← toNat_succ_of_lt hlt, hsucc]
  · intro h
    have hlt : c < limit := UInt32.lt_iff_toNat_lt.mpr (by omega)
    exact ⟨hlt, UInt32.toNat_inj.mp ((toNat_succ_of_lt hlt).trans h)⟩

theorem ProbeState.record_true (cfg : HealthCheckCfg) (st : ProbeState) :
    st.record cfg true =
      ({ st with consecutiveOk := bump cfg.rise st.consecutiveOk, consecutiveFail := 0 },
        ⟨false, if st.consecutiveOk < cfg.rise ∧ st.consecutiveOk + 1 = cfg.rise then some true
          else none⟩) := by
  by_cases h : st.consecutiveOk < cfg.rise <;> simp [ProbeState.record, bump, h]

theorem ProbeState.record_false (cfg : HealthCheckCfg) (st : ProbeState) :
    st.record cfg false =
      ({ st with consecutiveOk := 0, consecutiveFail := bump cfg.fall st.consecutiveFail },
        ⟨true, if st.consecutiveFail < cfg.fall ∧ st.consecutiveFail + 1 = cfg.fall then some false
          else none⟩) := by
  by_cases h : st.consecutiveFail < cfg.fall <;> simp [ProbeState.record, bump, h]

theorem ProbeState.record_owner (cfg : HealthCheckCfg) (st : ProbeState) (ok : Bool) :
    (st.record cfg ok).1.backendId = st.backendId ∧ (st.record cfg ok).1.inUse = st.inUse := by
  cases ok with
  | true =>
      rw [record_true]
      exact ⟨rfl, rfl⟩
  | false =>
      rw [record_false]
      exact ⟨rfl, rfl⟩

/-- A result restarts the other counter, and moves its own up to the threshold. -/
theorem ProbeState.record_counter (h : (st.counter ok).toNat ≤ threshold cfg ok) :
    ((st.record cfg ok).1.counter ok).toNat =
        min (threshold cfg ok) ((st.counter ok).toNat + 1) ∧
      (st.record cfg ok).1.counter (!ok) = 0 ∧
      (st.record cfg ok).2.setHealth =
        if (st.counter ok).toNat + 1 = threshold cfg ok then some ok else none := by
  cases ok with
  | true =>
      rw [record_true]
      exact ⟨bump_toNat h, rfl, if_congr reaches_iff rfl rfl⟩
  | false =>
      rw [record_false]
      exact ⟨bump_toNat h, rfl, if_congr reaches_iff rfl rfl⟩

theorem Tallies.record (h : Tallies cfg results st) (ok : Bool) :
    Tallies cfg (results ++ [ok]) (st.record cfg ok).1 := by
  obtain ⟨hown, hother, -⟩ := ProbeState.record_counter ((h ok).trans_le (min_le_left _ _))
  intro v
  rw [streak_concat]
  by_cases hv : ok = v
  · subst hv
    rw [if_pos rfl, hown, h ok]
    omega
  · obtain rfl : v = !ok := by
      cases ok <;> cases v <;> simp_all
    rw [if_neg hv, hother, Nat.min_zero]
    rfl

/-- A health value is asked for exactly where the result is a crossing. -/
theorem Tallies.setHealth (h : Tallies cfg results st) (ok : Bool) :
    (st.record cfg ok).2.setHealth =
      if Crosses (threshold cfg) ok (results ++ [ok]) then some ok else none := by
  obtain ⟨-, -, hset⟩ := ProbeState.record_counter ((h ok).trans_le (min_le_left _ _))
  rw [hset]
  refine if_congr ?_ rfl rfl
  rw [Crosses, streak_concat, if_pos rfl, h ok]
  omega

/-! ### All counters -/

def Checker.state (hc : Checker) (i : Fin backendMax) : ProbeState := hc.states.get i

def Checker.write (hc : Checker) (i : Fin backendMax) (st : ProbeState) : Checker :=
  { hc with states := hc.states.set i.val st i.isLt }

theorem Checker.state_write_self (hc : Checker) (i : Fin backendMax) (st : ProbeState) :
    (hc.write i st).state i = st :=
  Vector.getElem_set_self i.isLt

theorem Checker.state_write_of_ne (hc : Checker) {i j : Fin backendMax} (hj : j ≠ i)
    (st : ProbeState) : (hc.write i st).state j = hc.state j :=
  Vector.getElem_set_ne i.isLt j.isLt fun he => hj (Fin.ext he.symm)

/-- Every state in use counts the results of its own backend, one of `ids`, and a
backend without a state has had no result. -/
structure Tracks (cfg : HealthCheckCfg) (ids : Finset UInt32) (past : UInt32 → List Bool)
    (hc : Checker) : Prop where
  config : hc.cfg = cfg
  known : ∀ i : Fin backendMax, (hc.state i).inUse = true → (hc.state i).backendId ∈ ids
  tallies : ∀ i : Fin backendMax, (hc.state i).inUse = true →
    Tallies cfg (past (hc.state i).backendId) (hc.state i)
  single : ∀ i j : Fin backendMax, (hc.state i).inUse = true → (hc.state j).inUse = true →
    (hc.state i).backendId = (hc.state j).backendId → i = j
  fresh : ∀ id, (∀ i : Fin backendMax, (hc.state i).inUse = true →
    (hc.state i).backendId ≠ id) → past id = []

variable {ids : Finset UInt32} {past past' : UInt32 → List Bool} {hc : Checker} {id : UInt32}

theorem healthCheckerCreate_tracks (cfg : HealthCheckCfg) (ids : Finset UInt32) :
    Tracks cfg ids (fun _ => []) (healthCheckerCreate cfg) := by
  have hfree : ∀ i : Fin backendMax, ((healthCheckerCreate cfg).state i).inUse = false := by
    intro i
    exact congrArg ProbeState.inUse (Vector.getElem_replicate i.isLt)
  refine ⟨rfl, ?_, ?_, ?_, fun _ _ => rfl⟩
  · exact fun i hi => absurd hi (by rw [hfree]; exact Bool.false_ne_true)
  · exact fun i hi => absurd hi (by rw [hfree]; exact Bool.false_ne_true)
  · exact fun i j hi => absurd hi (by rw [hfree]; exact Bool.false_ne_true)

/-- Writing the only state of a backend, over that state or over an unused one. -/
theorem Tracks.write (h : Tracks cfg ids past hc) (hid : id ∈ ids) {i : Fin backendMax}
    (hused : st.inUse = true) (howner : st.backendId = id)
    (hi : (hc.state i).inUse = true → (hc.state i).backendId = id)
    (hothers : ∀ j : Fin backendMax, j ≠ i → (hc.state j).inUse = true →
      (hc.state j).backendId ≠ id)
    (htallies : Tallies cfg (past' id) st) (hpast : ∀ k, k ≠ id → past' k = past k) :
    Tracks cfg ids past' (hc.write i st) := by
  have hself := hc.state_write_self i st
  have helse : ∀ j : Fin backendMax, j ≠ i → (hc.write i st).state j = hc.state j :=
    fun j hj => hc.state_write_of_ne hj st
  refine ⟨h.config, fun j hj => ?_, fun j hj => ?_, fun j k hj hk he => ?_, fun k hk => ?_⟩
  · by_cases hji : j = i
    · subst hji
      rwa [hself, howner]
    · rw [helse j hji] at hj ⊢
      exact h.known j hj
  · by_cases hji : j = i
    · subst hji
      rwa [hself, howner]
    · rw [helse j hji] at hj ⊢
      rw [hpast _ (hothers j hji hj)]
      exact h.tallies j hj
  · by_cases hji : j = i <;> by_cases hki : k = i
    · rw [hji, hki]
    · subst hji
      rw [helse k hki] at hk he
      rw [hself, howner] at he
      exact absurd he.symm (hothers k hki hk)
    · subst hki
      rw [helse j hji] at hj he
      rw [hself, howner] at he
      exact absurd he (hothers j hji hj)
    · rw [helse j hji] at hj he
      rw [helse k hki] at hk he
      exact h.single j k hj hk he
  · have hne : k ≠ id := by
      rintro rfl
      exact hk i (by rwa [hself]) (by rwa [hself])
    rw [hpast k hne]
    refine h.fresh k fun j hj => ?_
    by_cases hji : j = i
    · subst hji
      rw [hi hj]
      exact hne.symm
    · have hkj := hk j
      rw [helse j hji] at hkj
      exact hkj hj

/-- A backend without a state finds an unused one. -/
theorem Tracks.exists_unused (h : Tracks cfg ids past hc) (hid : id ∈ ids)
    (hcard : ids.card ≤ backendMax)
    (hnone : ∀ i : Fin backendMax, (hc.state i).inUse = true → (hc.state i).backendId ≠ id) :
    ∃ i : Fin backendMax, (hc.state i).inUse = false := by
  by_contra hno
  have hall : ∀ i : Fin backendMax, (hc.state i).inUse = true := by
    intro i
    by_contra hi
    exact hno ⟨i, Bool.eq_false_iff.mpr hi⟩
  -- sixty-four distinct owners, none of them this backend
  have hle : (Finset.univ : Finset (Fin backendMax)).card ≤ (ids.erase id).card := by
    refine Finset.card_le_card_of_injOn (fun i => (hc.state i).backendId) (fun i _ => ?_) ?_
    · exact Finset.mem_erase.mpr ⟨hnone i (hall i), h.known i (hall i)⟩
    · exact fun i _ j _ he => h.single i j (hall i) (hall j) he
  rw [Finset.card_univ, Fintype.card_fin, Finset.card_erase_of_mem hid] at hle
  have hpos := Finset.card_pos.mpr ⟨id, hid⟩
  omega

theorem findFinIdx_fails {α : Type*} {n : ℕ} {xs : Vector α n} {p : α → Bool}
    (h : xs.findFinIdx? p = none) (i : Fin n) : p (xs.get i) = false :=
  Bool.eq_false_iff.mpr (Vector.findFinIdx?_eq_none_iff.mp h _ (Vector.getElem_mem i.isLt))

theorem findFinIdx_holds {α : Type*} {n : ℕ} {xs : Vector α n} {p : α → Bool} {i : Fin n}
    (h : xs.findFinIdx? p = some i) : p (xs.get i) = true := by
  obtain ⟨xs, rfl⟩ := xs
  rw [Vector.findFinIdx?_mk] at h
  obtain ⟨j, hj, rfl⟩ := Option.map_eq_some_iff.mp h
  exact (Array.findFinIdx?_eq_some_iff.mp hj).1

/-- The search always succeeds, and changes no backend's counters. -/
theorem Tracks.findOrCreateState (h : Tracks cfg ids past hc) (hid : id ∈ ids)
    (hcard : ids.card ≤ backendMax) :
    ∃ hc' i, findOrCreateState hc.states id = some (hc'.states, i) ∧ Tracks cfg ids past hc' ∧
      (hc'.state i).inUse = true ∧ (hc'.state i).backendId = id := by
  unfold HealthChecker.findOrCreateState
  cases hfound : hc.states.findFinIdx? fun st => st.inUse && st.backendId == id with
  | some i =>
      have howns := findFinIdx_holds hfound
      rw [Bool.and_eq_true, beq_iff_eq] at howns
      exact ⟨hc, i, rfl, h, howns⟩
  | none =>
      have hnone : ∀ i : Fin backendMax, (hc.state i).inUse = true →
          (hc.state i).backendId ≠ id := by
        intro i hi he
        have hno := findFinIdx_fails hfound i
        rw [Bool.and_eq_false_iff, beq_eq_false_iff_ne] at hno
        exact hno.elim (fun hfree => absurd hi (Bool.eq_false_iff.mp hfree)) fun hne => hne he
      cases hfree : hc.states.findFinIdx? fun st => !st.inUse with
      | none =>
          obtain ⟨i, hi⟩ := h.exists_unused hid hcard hnone
          have hno := findFinIdx_fails hfree i
          rw [Bool.not_eq_false'] at hno
          exact absurd hno (Bool.eq_false_iff.mp hi)
      | some i =>
          have hunused := findFinIdx_holds hfree
          rw [Bool.not_eq_true'] at hunused
          have hself := hc.state_write_self i ⟨id, 0, 0, true⟩
          refine ⟨hc.write i ⟨id, 0, 0, true⟩, i, rfl,
            h.write hid rfl rfl (fun hi => absurd hi (Bool.eq_false_iff.mp hunused))
              (fun j _ => hnone j) (fun v => ?_) fun _ _ => rfl, ?_, ?_⟩
          · rw [h.fresh id hnone, streak_nil, Nat.min_zero]
            cases v <;> rfl
          · rw [hself]
          · rw [hself]

/-- A result of a registered backend is counted for it alone, and asks for a
health value where it is a crossing. -/
theorem Tracks.recordResult (h : Tracks cfg ids past hc) (hid : id ∈ ids)
    (hcard : ids.card ≤ backendMax) (ok : Bool) :
    Tracks cfg ids (Function.update past id (past id ++ [ok])) (recordResult hc id ok).1 ∧
      (recordResult hc id ok).2.setHealth =
        if Crosses (threshold cfg) ok (past id ++ [ok]) then some ok else none := by
  obtain rfl := h.config
  obtain ⟨hc', i, hfind, htracks, hused, howner⟩ := h.findOrCreateState hid hcard
  have htallies : Tallies hc.cfg (past id) (hc'.state i) := by
    have hi := htracks.tallies i hused
    rwa [howner] at hi
  have hwrite : recordResult hc id ok =
      (hc'.write i ((hc'.state i).record hc.cfg ok).1, ((hc'.state i).record hc.cfg ok).2) := by
    unfold HealthChecker.recordResult Checker.write
    rw [hfind, ← htracks.config]
    rfl
  rw [hwrite]
  obtain ⟨howner', hused'⟩ := ProbeState.record_owner hc.cfg (hc'.state i) ok
  refine ⟨?_, htallies.setHealth ok⟩
  refine htracks.write hid (hused'.trans hused) (howner'.trans howner) (fun _ => howner) ?_ ?_ ?_
  · intro j hji hj he
    exact hji (htracks.single j i hj hused (he.trans howner.symm))
  · rw [Function.update_self]
    exact htallies.record ok
  · exact fun k hk => Function.update_of_ne hk _ _

end MaglevLb.HealthChecker

namespace MaglevLb.BackendManager

/-! ### The stored health -/

def healthOf (bm : Manager) (id : UInt32) : Option Bool := (findSlot bm id).map Backend.healthy

theorem updateBackend_reports (bm : Manager) (id : UInt32) (stale : Backend → Bool)
    (f : Backend → Backend) :
    (updateBackend bm id stale f).2 = (findSlot bm id).any stale := by
  cases hb : findSlot bm id with
  | none => simp [updateBackend, hb]
  | some b =>
      obtain ⟨s, hfind, -⟩ := Option.map_eq_some_iff.mp hb
      have hrewrite : bm.rewrite (holdsId id) (fun s => { s with backend := f s.backend }) ≠
          none := by
        intro hno
        have hs := Manager.rewrite_eq_none.mp hno s (List.mem_of_find?_eq_some hfind)
        exact absurd (List.find?_some hfind) (by rw [hs]; exact Bool.false_ne_true)
      obtain ⟨bm', hbm'⟩ := Option.ne_none_iff_exists'.mp hrewrite
      by_cases hs : stale b = true <;> simp [updateBackend, hb, hs, hbm']

theorem setHealth_reports {bm : Manager} {id : UInt32} {healthy : Bool} :
    (backendManagerSetHealth bm id healthy).2 = true ↔ healthOf bm id = some (!healthy) := by
  rw [backendManagerSetHealth, updateBackend_reports, healthOf]
  cases findSlot bm id with
  | none => simp
  | some b => cases hb : b.healthy <;> cases healthy <;> simp [hb]

theorem healthOf_setHealth (bm : Manager) (id : UInt32) (healthy : Bool) (k : UInt32) :
    healthOf (backendManagerSetHealth bm id healthy).1 k =
      if k = id then (healthOf bm k).map fun _ => healthy else healthOf bm k := by
  rw [healthOf, backendManagerSetHealth, read_updateBackend_of_set (x := healthy)]
  · rfl
  · exact fun _ => rfl
  · exact fun _ => rfl
  · exact fun b hb => by simpa using hb

theorem healthOf_setAdminState (bm : Manager) (id : UInt32) (state : AdminState) :
    healthOf (backendManagerSetAdminState bm id state).1 = healthOf bm := by
  funext k
  rw [healthOf, backendManagerSetAdminState, read_updateBackend_of_kept]
  · rfl
  · exact fun _ => rfl
  · exact fun _ => rfl

/-- The ids in the slots, used or not. -/
def Manager.ids (bm : Manager) : Finset UInt32 := (bm.slots.map fun s => s.backend.id).toFinset

theorem Manager.card_ids_le (bm : Manager) : bm.ids.card ≤ backendMax := by
  refine (List.toFinset_card_le _).trans_eq ?_
  rw [List.length_map, bm.slots_length]

theorem findSlot_mem_ids {bm : Manager} {id : UInt32} (h : (findSlot bm id).isSome = true) :
    id ∈ bm.ids := by
  obtain ⟨b, hb⟩ := Option.isSome_iff_exists.mp h
  obtain ⟨s, hs, -⟩ := Option.map_eq_some_iff.mp hb
  obtain ⟨-, hid⟩ := holdsId_iff.mp (List.find?_some hs)
  exact List.mem_toFinset.mpr (List.mem_map.mpr ⟨s, List.mem_of_find?_eq_some hs, hid⟩)

end MaglevLb.BackendManager

namespace MaglevLb.LoadBalancer
open Maglev BackendManager TableGenerator HealthChecker Crossings
open Datapath (DatapathConfig sampleHashes sampleSize sampleConfig sampleKey)

/-! ### Runs of the load balancer -/

variable {n b : ℕ} {H : Hashes} {cfg : DatapathConfig} {hcCfg : HealthCheckCfg}

/-- The result an event brings for a backend. -/
def Event.result (id : UInt32) : Event → Option Bool
  | .probe backendId ok _ => if backendId = id then some ok else none
  | _ => none

/-- A backend's own results, in order. -/
def results (id : UInt32) (es : List Event) : List Bool := es.filterMap (Event.result id)

/-- Whether the call of `backend_manager_set_health` that a result leads to, if
any, reports a change. -/
def reportsChange (s : System n b) (backendId : UInt32) (ok : Bool) : Bool :=
  match (recordResult s.hc backendId ok).2.setHealth with
  | none => false
  | some healthy => (backendManagerSetHealth s.cp.bm backendId healthy).2

/-- A reported change is a rebuild of the table, and there is no other. -/
theorem call_generation {cp : ControlPlane} (hsub : cp.bm.subscribed = true) (growOk : Bool)
    (op : Op) :
    (call H true growOk cp op).1.tg.generation =
      cp.tg.generation + if (apply cp.bm op).2 then 1 else 0 := by
  unfold call
  dsimp only
  cases hn : (apply cp.bm op).2 with
  | false => exact (UInt64.add_zero _).symm
  | true =>
      have hsub' := (apply_subscribed cp.bm op).trans hsub
      rw [hsub']
      let cp₁ : ControlPlane := { cp with bm := (apply cp.bm op).1 }
      obtain ⟨cp', he, -, -, -, hgen⟩ := rebuild_fresh H growOk
        (show cp₁.bm.subscribed = true from hsub')
      exact (congrArg (fun r => r.1.tg.generation) he).trans hgen

theorem probe_generation {s : System n b} (hsub : s.cp.bm.subscribed = true) (id : UInt32)
    (ok growOk : Bool) :
    (step H cfg s (.probe id ok growOk)).cp.tg.generation =
      s.cp.tg.generation + if reportsChange s id ok then 1 else 0 := by
  unfold reportsChange
  change (applyHealth H growOk s.cp id (recordResult s.hc id ok).2.setHealth).tg.generation = _
  cases (recordResult s.hc id ok).2.setHealth with
  | none => exact (UInt64.add_zero _).symm
  | some healthy => exact call_generation hsub growOk _

/-- After the results `past`: the counters are in step with them, and a backend
that was healthy at first is unhealthy if its last crossing is one of failures. -/
structure Follows (hcCfg : HealthCheckCfg) (bm₀ : Manager) (past : UInt32 → List Bool)
    (s : System n b) : Prop where
  subscribed : s.cp.bm.subscribed = true
  tracks : Tracks hcCfg bm₀.ids past s.hc
  health : ∀ id, healthOf bm₀ id = some true → ∃ healthy, healthOf s.cp.bm id = some healthy ∧
    (healthy = false ↔ LastCrossing (threshold hcCfg) false (past id))

theorem step_subscribed (s : System n b) (e : Event) :
    (step H cfg s e).cp.bm.subscribed = s.cp.bm.subscribed := by
  rw [step_bm]
  cases managerCall s e with
  | none => rfl
  | some op => exact apply_subscribed s.cp.bm op

/-- A line of the pipe leaves every backend's health alone. -/
theorem admin_health (s : System n b) (line : List UInt8) (growOk : Bool) :
    healthOf (step H cfg s (.admin line growOk)).cp.bm = healthOf s.cp.bm := by
  rw [step_bm]
  unfold managerCall
  dsimp only
  cases parseAdminLine line with
  | none => rfl
  | some command => exact healthOf_setAdminState s.cp.bm _ _

/-- One result, told by whether it is a crossing. -/
theorem probe_health {bm₀ : Manager} {past : UInt32 → List Bool} {s : System n b}
    (h : Follows hcCfg bm₀ past s) {id : UInt32} (hid : id ∈ bm₀.ids) (ok growOk : Bool) :
    healthOf (step H cfg s (.probe id ok growOk)).cp.bm =
      if Crosses (threshold hcCfg) ok (past id ++ [ok]) then
        fun k => if k = id then (healthOf s.cp.bm k).map fun _ => ok else healthOf s.cp.bm k
      else healthOf s.cp.bm := by
  obtain ⟨-, hset⟩ := h.tracks.recordResult hid bm₀.card_ids_le ok
  rw [step_bm, managerCall, hset]
  split
  · funext k
    exact healthOf_setHealth s.cp.bm id ok k
  · rfl

/-- A result goes to the end of its own backend's results. -/
theorem append_results_probe (past : UInt32 → List Bool) (id : UInt32) (ok growOk : Bool) :
    (fun k => past k ++ results k [.probe id ok growOk]) =
      Function.update past id (past id ++ [ok]) := by
  funext k
  by_cases hk : k = id
  · subst hk
    simp [results, Event.result]
  · simp [results, Event.result, Ne.symm hk, Function.update_of_ne hk]

theorem append_results_none (past : UInt32 → List Bool) {e : Event}
    (h : ∀ id, Event.result id e = none) : (fun id => past id ++ results id [e]) = past := by
  funext id
  simp [results, h id]

/-- The value of the last crossing moves with the stored health. -/
theorem probe_follows {bm₀ : Manager} {past : UInt32 → List Bool} {s : System n b}
    (hpos : ∀ ok, 0 < threshold hcCfg ok) (h : Follows hcCfg bm₀ past s) {id : UInt32}
    (hid : id ∈ bm₀.ids) (ok growOk : Bool) :
    Follows hcCfg bm₀ (Function.update past id (past id ++ [ok]))
      (step H cfg s (.probe id ok growOk)) := by
  refine ⟨(step_subscribed s _).trans h.subscribed,
    (h.tracks.recordResult hid bm₀.card_ids_le ok).1, fun k hk => ?_⟩
  obtain ⟨healthy, hhealth, hlast⟩ := h.health k hk
  rw [probe_health h hid ok growOk]
  by_cases hki : k = id
  · subst hki
    rw [Function.update_self]
    by_cases hcross : Crosses (threshold hcCfg) ok (past k ++ [ok])
    · refine ⟨ok, by simp [hcross, hhealth], ?_⟩
      rw [lastCrossing_of_crosses hpos hcross]
      exact eq_comm
    · refine ⟨healthy, by simp [hcross, hhealth], ?_⟩
      rw [lastCrossing_of_not_crosses hpos hcross]
      exact hlast
  · rw [Function.update_of_ne hki]
    refine ⟨healthy, ?_, hlast⟩
    split <;> simp [hki, hhealth]

theorem step_follows (H : Hashes) (cfg : DatapathConfig) {bm₀ : Manager}
    {past : UInt32 → List Bool} {s : System n b}
    (hpos : ∀ ok, 0 < threshold hcCfg ok) (h : Follows hcCfg bm₀ past s) {e : Event}
    (hreg : ∀ id ok growOk, e = .probe id ok growOk → id ∈ bm₀.ids) :
    Follows hcCfg bm₀ (fun id => past id ++ results id [e]) (step H cfg s e) := by
  cases e with
  | packet frame now sent =>
      rw [append_results_none past fun _ => rfl]
      exact ⟨h.subscribed, h.tracks, h.health⟩
  | tick now =>
      rw [append_results_none past fun _ => rfl]
      exact ⟨h.subscribed, h.tracks, h.health⟩
  | admin line growOk =>
      rw [append_results_none past fun _ => rfl]
      refine ⟨(step_subscribed s _).trans h.subscribed, h.tracks, fun id hid => ?_⟩
      rw [admin_health]
      exact h.health id hid
  | probe id ok growOk =>
      rw [append_results_probe]
      exact probe_follows hpos h (hreg id ok growOk rfl) ok growOk

theorem run_follows (H : Hashes) (cfg : DatapathConfig) {bm₀ : Manager}
    {past : UInt32 → List Bool} {s : System n b}
    (hpos : ∀ ok, 0 < threshold hcCfg ok) (h : Follows hcCfg bm₀ past s) {es : List Event}
    (hreg : ∀ id ok growOk, .probe id ok growOk ∈ es → id ∈ bm₀.ids) :
    Follows hcCfg bm₀ (fun id => past id ++ results id es) (run H cfg s es) := by
  induction es generalizing s past with
  | nil => simpa [results] using h
  | cons e es ih =>
      have hstep := step_follows H cfg hpos h (e := e)
        fun id ok growOk he => hreg id ok growOk (he ▸ List.mem_cons_self)
      have hrun := ih hstep fun id ok growOk he => hreg id ok growOk (List.mem_cons_of_mem e he)
      have hpast : ∀ id, past id ++ results id [e] ++ results id es =
          past id ++ results id (e :: es) := by
        intro id
        rw [List.append_assoc, results, results, ← List.filterMap_append]
        rfl
      simp only [hpast] at hrun
      exact hrun

/-- A result reports a change exactly where it turns the value of the last crossing. -/
theorem reportsChange_iff {bm₀ : Manager} {past : UInt32 → List Bool} {s : System n b}
    (hpos : ∀ ok, 0 < threshold hcCfg ok) (h : Follows hcCfg bm₀ past s) {id : UInt32}
    (hid : id ∈ bm₀.ids) (hhealthy : healthOf bm₀ id = some true) (ok : Bool) :
    reportsChange s id ok = true ↔
      ¬ (LastCrossing (threshold hcCfg) false (past id ++ [ok]) ↔
        LastCrossing (threshold hcCfg) false (past id)) := by
  obtain ⟨healthy, hhealth, hlast⟩ := h.health id hhealthy
  obtain ⟨-, hset⟩ := h.tracks.recordResult hid bm₀.card_ids_le ok
  unfold reportsChange
  rw [hset]
  by_cases hcross : Crosses (threshold hcCfg) ok (past id ++ [ok])
  · rw [if_pos hcross, lastCrossing_of_crosses hpos hcross, ← hlast]
    dsimp only
    rw [setHealth_reports, hhealth]
    cases ok <;> cases healthy <;> simp
  · rw [if_neg hcross, lastCrossing_of_not_crosses hpos hcross]
    simp

/-- Health follows the last crossing of a backend's own results, whatever else the
load balancer does, and the table is rebuilt for a result exactly where that value
turns. -/
theorem health_follows_last_crossing (H : Hashes) (cfg : DatapathConfig)
    (hrise : 1 ≤ hcCfg.rise) (hfall : 1 ≤ hcCfg.fall) {s₀ : System n b}
    (hstart : s₀.hc = healthCheckerCreate hcCfg) (hsub : s₀.cp.bm.subscribed = true)
    {es : List Event}
    (hreg : ∀ id ok growOk, .probe id ok growOk ∈ es → (findSlot s₀.cp.bm id).isSome = true)
    {id : UInt32} (hhealthy : healthOf s₀.cp.bm id = some true) :
    (healthOf (run H cfg s₀ es).cp.bm id = some false ↔
      LastCrossing (threshold hcCfg) false (results id es)) ∧
    (healthOf (run H cfg s₀ es).cp.bm id = some true ↔
      ¬ LastCrossing (threshold hcCfg) false (results id es)) ∧
    ∀ ok growOk,
      (reportsChange (run H cfg s₀ es) id ok = true ↔
        ¬ (LastCrossing (threshold hcCfg) false (results id (es ++ [.probe id ok growOk])) ↔
          LastCrossing (threshold hcCfg) false (results id es))) ∧
      (step H cfg (run H cfg s₀ es) (.probe id ok growOk)).cp.tg.generation =
        (run H cfg s₀ es).cp.tg.generation +
          if reportsChange (run H cfg s₀ es) id ok then 1 else 0 := by
  have hpos : ∀ ok, 0 < threshold hcCfg ok := by
    intro ok
    have hr := UInt32.le_iff_toNat_le.mp hrise
    have hf := UInt32.le_iff_toNat_le.mp hfall
    cases ok
    · exact hf
    · exact hr
  have hinit : Follows hcCfg s₀.cp.bm (fun _ => []) s₀ := by
    refine ⟨hsub, hstart ▸ healthCheckerCreate_tracks hcCfg _, fun k hk => ⟨true, hk, ?_⟩⟩
    simp [not_lastCrossing_nil hpos]
  have hrun := run_follows H cfg hpos hinit
    fun k ok growOk he => findSlot_mem_ids (hreg k ok growOk he)
  simp only [List.nil_append] at hrun
  have hid : id ∈ s₀.cp.bm.ids := by
    refine findSlot_mem_ids ?_
    rw [healthOf] at hhealthy
    cases hslot : findSlot s₀.cp.bm id <;> simp_all
  obtain ⟨healthy, hhealth, hlast⟩ := hrun.health id hhealthy
  refine ⟨?_, ?_, fun ok growOk => ⟨?_, ?_⟩⟩
  · rw [hhealth, ← hlast, Option.some_inj]
  · rw [hhealth, ← hlast, Option.some_inj, Bool.not_eq_false]
  · have hresults : results id (es ++ [.probe id ok growOk]) = results id es ++ [ok] := by
      simp [results, Event.result]
    rw [hresults]
    exact reportsChange_iff hpos hrun hid hhealthy ok
  · exact probe_generation hrun.subscribed id ok growOk

/-- Two failures of backend 0 with one of backend 1 between them, at thresholds of two. -/
theorem health_follows_last_crossing_pair :
    let s₀ : System 2 4 := start sampleHashes sampleSize [.add 0x0b00000a 80, .add 0x0c00000a 80]
      ⟨2, 2⟩ ⟨2, rfl⟩ (fun _ => ⟨sampleKey, 0, 0⟩) 2
    let es : List Event := [.probe 0 false true, .probe 1 false true, .probe 0 false true]
    healthOf (run sampleHashes sampleConfig s₀ es).cp.bm 0 = some false := by
  intro s₀ es
  have hreg : ∀ id ok growOk, .probe id ok growOk ∈ es →
      (findSlot s₀.cp.bm id).isSome = true := by
    intro id ok growOk he
    simp only [es, List.mem_cons, Event.probe.injEq, List.not_mem_nil, or_false] at he
    rcases he with ⟨rfl, -⟩ | ⟨rfl, -⟩ | ⟨rfl, -⟩ <;> decide +kernel
  have hrise : 1 ≤ (⟨2, 2⟩ : HealthCheckCfg).rise := by decide
  have hall := health_follows_last_crossing sampleHashes sampleConfig hrise (by decide) rfl
    (by decide +kernel) hreg
    (show healthOf s₀.cp.bm 0 = some true by decide +kernel)
  refine hall.1.mpr ⟨[false, false], List.prefix_rfl, by decide, fun q hq hlen => ?_⟩
  exact absurd hq.length_le (Nat.not_le.mpr hlen)

end MaglevLb.LoadBalancer
