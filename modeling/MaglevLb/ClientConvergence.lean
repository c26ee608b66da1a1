import MaglevLb.Schema
import MaglevLb.SteadyStep
import Mathlib.Data.Finset.Card

/-!
# Clients converge in one step

A client's record is what its process has been told, at its start and since. Each
record has an index of its own below four, so with at most four clients on the
canvas there is always an index left, and one step brings the records and what
the processes were told in line with the canvas.
-/
namespace MaglevLb.ClientConvergence

open Children OrderedDict Slots Reconcile SlotMoves SlotViews SlotLifecycle StillStep SteadyStep

/-! ### What a client was told -/

section Told

variable {index seed : ℕ} {ex ex' : Executor} {told : Option (ClientConfig × Bool)} {c : Call}

/-- A client's settings after one more command: its start gives both, a message
replaces one of them. -/
def hear (index seed : ℕ) (told : Option (ClientConfig × Bool)) :
    Call → Option (ClientConfig × Bool)
  | .spawnClient i cfg enabled s => if i = index ∧ s = seed then some (cfg, enabled) else told
  | .send p (.clientConfig cfg) =>
      if p = some (.client index seed) then told.map fun t => (cfg, t.2) else told
  | .send p (.load enabled) =>
      if p = some (.client index seed) then told.map fun t => (t.1, enabled) else told
  | _ => told

/-- The settings given at the start followed by the commands sent since. -/
def settings (index seed : ℕ) (ex : Executor) : Option (ClientConfig × Bool) :=
  ex.log.foldl (fun told e => hear index seed told e.2) none

@[simp] theorem settings_tick : settings index seed ex.tick = settings index seed ex := rfl

@[simp] theorem settings_nextTurn : settings index seed ex.nextTurn = settings index seed ex := rfl

@[simp] theorem settings_call :
    settings index seed (ex.call c) = hear index seed (settings index seed ex) c := by
  rw [settings, Executor.call_log, List.foldl_append]
  rfl

/-- Commands that a client does not hear leave its settings alone. -/
theorem settings_of_advances {P : Moment × Call → Prop} (h : Executor.Advances P ex ex')
    (hP : ∀ e, P e → ∀ told, hear index seed told e.2 = told) :
    settings index seed ex' = settings index seed ex := by
  obtain ⟨l, hl, hPl⟩ := h.log_eq
  have hdeaf : ∀ e ∈ l, ∀ told, hear index seed told e.2 = told :=
    fun e he => hP e (hPl e he).2.2
  rw [settings, hl, List.foldl_append, ← settings]
  generalize settings index seed ex = told
  clear hl hPl
  induction l generalizing told with
  | nil => rfl
  | cons e l ih =>
      rw [List.foldl_cons, hdeaf e List.mem_cons_self]
      exact ih (fun e' he' => hdeaf e' (List.mem_cons_of_mem e he')) told

theorem hear_of_own {i : ℕ} (h : Own i c) : hear index seed told c = told := by
  cases c with
  | spawnClient => exact h.elim
  | send p m =>
      have hp : p ≠ some (.client index seed) := by
        intro hp
        obtain ⟨s, hs⟩ := h _ hp
        cases hs
      cases m with
      | clientConfig | load => exact if_neg hp
      | clear | fault | resetStats | backendConfig => rfl
  | spawnBackend | terminate | kill | admin | setGre => rfl

/-- Work on the slots tells the clients nothing. -/
theorem settings_of_tends {N : ℕ} (h : TendsSlots N ex ex') :
    settings index seed ex' = settings index seed ex := by
  refine settings_of_advances h fun e he told => ?_
  obtain ⟨i, -, hown⟩ := he
  exact hear_of_own hown

end Told

/-! ### One record -/

section Record

variable {exits : Proc → Moment} {cfg : ClientConfig} {enabled : Bool} {c c' : ClientRec}
  {ex ex' : Executor} {index seed : ℕ}

/-- The record says what its process was told. -/
def Accurate (ex : Executor) (c : ClientRec) : Prop :=
  ∃ seed cfg enabled, c.handle = some seed ∧ c.config = some cfg ∧ c.enabled = some enabled ∧
    settings c.index seed ex = some (cfg, enabled)

/-- In the commands from `ex` to `ex'` the process was found alive or was started. -/
def Manned (exits : Proc → Moment) (ex ex' : Executor) (index seed : ℕ) : Prop :=
  (∃ t, ex.now ≤ t ∧ t < ex'.now ∧ t < exits (.client index seed)) ∨
    ∃ l t cfg enabled, ex'.log = ex.log ++ l ∧ (t, Call.spawnClient index cfg enabled seed) ∈ l

theorem Manned.mono {P Q : Moment × Call → Prop} {ex₀ ex₁ : Executor}
    (h : Manned exits ex ex' index seed) (h₀ : Executor.Advances P ex₀ ex)
    (h₁ : Executor.Advances Q ex' ex₁) : Manned exits ex₀ ex₁ index seed := by
  rcases h with ⟨t, ht, ht', halive⟩ | ⟨l, t, cfg, enabled, hl, hmem⟩
  · exact .inl ⟨t, h₀.now_le.trans ht, ht'.trans_le h₁.now_le, halive⟩
  · obtain ⟨l₀, hl₀, -⟩ := h₀.log_eq
    obtain ⟨l₁, hl₁, -⟩ := h₁.log_eq
    refine .inr ⟨l₀ ++ l ++ l₁, t, cfg, enabled, by simp [hl₁, hl, hl₀], ?_⟩
    exact List.mem_append_left _ (List.mem_append_right _ hmem)

/-- A client hears nothing of what is done for another index. -/
theorem settleClient_others
    (h : Reconciler.settleClient exits cfg enabled c ex = (c', ex')) (hne : index ≠ c.index) :
    settings index seed ex' = settings index seed ex := by
  have hproc : c.proc ≠ some (.client index seed) := by
    intro hp
    obtain ⟨s, -, hs⟩ := Option.map_eq_some_iff.mp hp
    cases hs
    exact hne rfl
  unfold Reconciler.settleClient at h
  split at h
  · obtain ⟨-, rfl⟩ := Prod.mk.inj h
    split <;> split <;> simp [hear, hproc]
  · obtain ⟨-, rfl⟩ := Prod.mk.inj h
    change settings index seed (Executor.call _ _) = _
    rw [settings_call, hear, if_neg fun he => hne he.1.symm]
    rfl

/-- A settled client has been told exactly the settings asked for. -/
theorem settleClient_told
    (h : Reconciler.settleClient exits cfg enabled c ex = (c', ex'))
    (hc : c.handle = none ∨ Accurate ex c) :
    ∃ seed, c'.handle = some seed ∧ settings c'.index seed ex' = some (cfg, enabled) ∧
      Manned exits ex ex' c'.index seed := by
  unfold Reconciler.settleClient at h
  split at h
  · next halive =>
      obtain ⟨rfl, rfl⟩ := Prod.mk.inj h
      have hsome : c.handle ≠ none := by
        intro hnone
        rw [ClientRec.proc, hnone] at halive
        cases halive
      obtain ⟨seed, cfg₀, enabled₀, hhandle, hconfig, henabled, htold⟩ := hc.resolve_left hsome
      have hproc : c.proc = some (.client c.index seed) := by
        rw [ClientRec.proc, hhandle]
        rfl
      refine ⟨seed, hhandle, ?_, .inl ⟨ex.now, le_rfl, ?_, ?_⟩⟩
      · rw [hproc, hconfig, henabled]
        by_cases hcfg : cfg = cfg₀ <;> by_cases hen : enabled = enabled₀ <;>
          simp [hear, htold, hcfg, hen]
      · have htick := Executor.now_lt_tick ex
        split
        · split
          · exact htick.trans ((Executor.now_lt_tick _).trans (Executor.now_lt_tick _))
          · exact htick.trans (Executor.now_lt_tick _)
        · split
          · exact htick.trans (Executor.now_lt_tick _)
          · exact htick
      · rw [hproc] at halive
        simpa [Executor.alive] using halive
  · obtain ⟨rfl, rfl⟩ := Prod.mk.inj h
    refine ⟨_, rfl, ?_, .inr ⟨_, _, cfg, enabled, rfl, List.mem_singleton_self _⟩⟩
    change settings c.index (ex.seed + 1) (Executor.call _ _) = _
    rw [settings_call, hear, if_pos ⟨rfl, rfl⟩]

theorem Accurate.of_settings (h : Accurate ex c)
    (hsame : ∀ seed, settings c.index seed ex' = settings c.index seed ex) : Accurate ex' c := by
  obtain ⟨seed, cfg, enabled, hhandle, hconfig, henabled, htold⟩ := h
  exact ⟨seed, cfg, enabled, hhandle, hconfig, henabled, (hsame seed).trans htold⟩

end Record

/-! ### All records -/

section Records

variable {Id : Type*} [LinearOrder Id] {N : ℕ} {exits : Proc → Moment} {r r' : Reconciler Id N}
  {used used' : Finset ℕ} {e : Id × ClientNode Id} {c c' : ClientRec}

theorem clientIndex_eq_some {memory : Option ℕ} {idx : ℕ}
    (h : Reconciler.clientIndex memory used = some idx) :
    idx ∉ used ∧ (memory = some idx ∨ idx < maxClientSlots) := by
  unfold Reconciler.clientIndex at h
  split at h
  · next hm =>
      cases h
      obtain ⟨hmemory, hfree⟩ := Option.filter_eq_some_iff.mp hm
      exact ⟨by simpa using hfree, .inl hmemory⟩
  · have hfree := List.find?_some h
    have hmem := List.mem_of_find?_eq_some h
    exact ⟨by simpa using hfree, .inr (List.mem_range.mp hmem)⟩

/-- With fewer than four indices in use, one is left. -/
theorem clientIndex_ne_none (hcard : used.card < maxClientSlots) (memory : Option ℕ) :
    Reconciler.clientIndex memory used ≠ none := by
  intro h
  unfold Reconciler.clientIndex at h
  split at h
  · cases h
  · have hsub : Finset.range maxClientSlots ⊆ used := by
      intro idx hidx
      have hno := List.find?_eq_none.mp h idx (List.mem_range.mpr (Finset.mem_range.mp hidx))
      simpa using hno
    have hle := Finset.card_le_card hsub
    rw [Finset.card_range] at hle
    omega

/-- Every client has an accurate record, under an index of its own below four. -/
structure Staffed (r : Reconciler Id N) : Prop where
  accurate : ∀ {cid c}, r.clients.get? cid = some c → Accurate r.ex c
  bounded : ∀ {cid c}, r.clients.get? cid = some c → c.index < maxClientSlots
  distinct : ∀ {cid cid' c c'}, r.clients.get? cid = some c → r.clients.get? cid' = some c' →
    c.index = c'.index → cid = cid'
  memory : ∀ {cid idx}, r.clientMemory.get? cid = some idx → idx < maxClientSlots

/-- Dropping records and telling no client anything. -/
theorem Staffed.of_subset (h : Staffed r)
    (hclients : ∀ {cid c}, r'.clients.get? cid = some c → r.clients.get? cid = some c)
    (hmemory : r'.clientMemory = r.clientMemory)
    (hsame : ∀ index seed, settings index seed r'.ex = settings index seed r.ex) : Staffed r' where
  accurate hc := (h.accurate (hclients hc)).of_settings fun seed => hsame _ seed
  bounded hc := h.bounded (hclients hc)
  distinct hc hc' := h.distinct (hclients hc) (hclients hc')
  memory hidx := h.memory (hmemory ▸ hidx)

/-- Nobody else has the index of the client that is served. -/
theorem Staffed.index_ne (h : Staffed r) (hused : used = usedIndices r)
    (hs : Serving exits r r' used used' e c c') {cid : Id} {d : ClientRec} (hne : cid ≠ e.1)
    (hd : r.clients.get? cid = some d) : d.index ≠ c.index := by
  intro heq
  rcases hs.record with ⟨hc, -⟩ | ⟨-, -, hidx, -⟩
  · exact hne (h.distinct hd hc heq)
  · have hfree := (clientIndex_eq_some hidx).1
    rw [hused, mem_usedIndices] at hfree
    exact hfree ⟨cid, d, hd, heq⟩

theorem Staffed.index_lt (h : Staffed r) (hs : Serving exits r r' used used' e c c') :
    c.index < maxClientSlots := by
  rcases hs.record with ⟨hc, -⟩ | ⟨-, -, hidx, -⟩
  · exact h.bounded hc
  · rcases (clientIndex_eq_some hidx).2 with hmemory | hlt
    · exact h.memory hmemory
    · exact hlt

/-- The client that is served has been told what the canvas says. -/
theorem Staffed.told (h : Staffed r) (hs : Serving exits r r' used used' e c c') :
    ∃ seed, c'.handle = some seed ∧
      settings c'.index seed r'.ex = some (e.2.config, loadOn r e.2) ∧
      Manned exits r.ex r'.ex c'.index seed := by
  refine settleClient_told hs.settled ?_
  rcases hs.record with ⟨hc, -⟩ | ⟨-, hhandle, -⟩
  · exact .inr (h.accurate hc)
  · exact .inl hhandle

theorem Staffed.serving (h : Staffed r) (hused : used = usedIndices r)
    (hs : Serving exits r r' used used' e c c') : Staffed r' := by
  obtain ⟨hindex, hconfig, henabled, -⟩ := settleClient_spec hs.settled
  refine ⟨fun {cid d} hd => ?_, fun {cid d} hd => ?_, fun {cid cid' d d'} hd hd' heq => ?_,
    fun {cid idx} hidx => ?_⟩
  · by_cases hcid : cid = e.1
    · subst hcid
      cases hs.get?_self.symm.trans hd
      obtain ⟨seed, hhandle, htold, -⟩ := h.told hs
      exact ⟨seed, _, _, hhandle, hconfig, henabled, htold⟩
    · rw [hs.get?_of_ne hcid] at hd
      exact (h.accurate hd).of_settings fun seed =>
        settleClient_others hs.settled (h.index_ne hused hs hcid hd)
  · by_cases hcid : cid = e.1
    · subst hcid
      cases hs.get?_self.symm.trans hd
      rw [hindex]
      exact h.index_lt hs
    · rw [hs.get?_of_ne hcid] at hd
      exact h.bounded hd
  · by_cases hcid : cid = e.1 <;> by_cases hcid' : cid' = e.1
    · rw [hcid, hcid']
    · subst hcid
      cases hs.get?_self.symm.trans hd
      rw [hs.get?_of_ne hcid'] at hd'
      exact absurd (heq.symm.trans hindex) (h.index_ne hused hs hcid' hd')
    · subst hcid'
      cases hs.get?_self.symm.trans hd'
      rw [hs.get?_of_ne hcid] at hd
      exact absurd (heq.trans hindex) (h.index_ne hused hs hcid hd)
    · rw [hs.get?_of_ne hcid] at hd
      rw [hs.get?_of_ne hcid'] at hd'
      exact h.distinct hd hd' heq
  · rcases hs.record with ⟨-, hmemory, -⟩ | ⟨-, -, -, hmemory, -⟩
    · rw [hmemory] at hidx
      exact h.memory hidx
    · rw [hmemory, Dict.get?_set] at hidx
      split at hidx
      · cases hidx
        exact h.index_lt hs
      · exact h.memory hidx

theorem visitClient_staffed (h : Staffed r) (hused : used = usedIndices r)
    (hv : Reconciler.visitClient exits (r, used) e = (r', used')) :
    Staffed r' ∧ used' = usedIndices r' := by
  rcases visitClient_cases hv with ⟨c, c', hs⟩ | ⟨-, -, rfl, rfl⟩
  · exact ⟨h.serving hused hs, hs.used_eq hused⟩
  · exact ⟨h, hused⟩

theorem foldl_visitClient_staffed {l : List (Id × ClientNode Id)} (h : Staffed r)
    (hused : used = usedIndices r) :
    Staffed (l.foldl (Reconciler.visitClient exits) (r, used)).1 := by
  induction l generalizing r used with
  | nil => exact h
  | cons e l ih =>
      obtain ⟨h', hused'⟩ := visitClient_staffed h hused rfl
      exact ih h' hused'

theorem dropClients_settings (want : Dict Id (ClientNode Id)) (r : Reconciler Id N) :
    (Reconciler.dropClients want r).clientMemory = r.clientMemory ∧
      ∀ index seed, settings index seed (Reconciler.dropClients want r).ex =
        settings index seed r.ex := by
  unfold Reconciler.dropClients
  generalize r.clients.entries = l
  induction l generalizing r with
  | nil => exact ⟨rfl, fun _ _ => rfl⟩
  | cons e l ih =>
      rw [List.foldl_cons]
      split
      · obtain ⟨hmemory, hsame⟩ := ih
          { r with clients := r.clients.erase e.1, ex := r.ex.call (.terminate e.2.proc) }
        exact ⟨hmemory, fun index seed => (hsame index seed).trans settings_call⟩
      · exact ih r

theorem dropClients_staffed (h : Staffed r) (want : Dict Id (ClientNode Id)) :
    Staffed (Reconciler.dropClients want r) := by
  obtain ⟨hmemory, hsame⟩ := dropClients_settings want r
  refine h.of_subset (fun hc => ?_) hmemory hsame
  rw [dropClients_get?] at hc
  split at hc
  · cases hc
  · exact hc

theorem stepClients_staffed (h : Staffed r) : Staffed (Reconciler.stepClients exits r) :=
  foldl_visitClient_staffed (dropClients_staffed h _) rfl

end Records

/-! ### Runs -/

section Runs

variable {Id : Type*} [LinearOrder Id] {N : ℕ} {exits : Proc → Moment} {r r' : Reconciler Id N}
  {now : ℚ} {lb : Dict ℕ Observation} {latest : Proc → Option Stats}

theorem step_staffed (hr : Staffed r) (h : r.step exits now lb latest = some r') : Staffed r' := by
  have hclients : Staffed (Reconciler.stepClients exits r) := stepClients_staffed hr
  have hbooks := step_books h
  refine hclients.of_subset (fun hc => ?_) ?_ fun _ _ => settings_of_tends (step_tends h)
  · rw [hbooks] at hc
    exact hc
  · rw [hbooks]

omit [LinearOrder Id] in
theorem resetClients_settings {l : List (Id × ClientRec)} {ex : Executor} {index seed : ℕ} :
    settings index seed (l.foldl (fun ex e =>
      if e.2.handle.isSome then ex.call (.send e.2.proc .resetStats) else ex) ex) =
      settings index seed ex := by
  induction l generalizing ex with
  | nil => rfl
  | cons e l ih =>
      rw [List.foldl_cons, ih]
      split
      · exact settings_call
      · rfl

theorem reset_staffed (hr : Staffed r) (h : r.reset exits = some r') : Staffed r' := by
  obtain ⟨r₁, hloop, h⟩ := Option.bind_eq_some_iff.mp h
  cases h
  have hbooks := forSlots_books hloop
  have hslots : ∀ index seed, settings index seed r₁.ex = settings index seed r.ex :=
    fun _ _ => settings_of_tends (forSlots_tends resetSlot_visit hloop)
  refine hr.of_subset (fun hc => ?_) ?_ fun index seed =>
    resetClients_settings.trans (hslots index seed)
  · dsimp only at hc
    rw [hbooks] at hc
    exact hc
  · dsimp only
    rw [hbooks]

theorem action_staffed {target : Id} {kind : ActionKind} (hr : Staffed r)
    (h : r.action exits now target kind = .ok r') : Staffed r' := by
  have htends : TendsSlots N r.ex r'.ex := action_tends h
  obtain ⟨k, -, -, rfl⟩ := action_ok h
  exact hr.of_subset id rfl fun _ _ => settings_of_tends htends

theorem apply_staffed {e : Event Id} (hr : Staffed r) (h : apply exits r e = some r') :
    Staffed r' := by
  have hturn : Staffed { r with ex := r.ex.nextTurn } := hr.of_subset id rfl fun _ _ => rfl
  cases e with
  | setDesired desired =>
      cases h
      exact hturn.of_subset id rfl fun _ _ => rfl
  | suppressLoad suppressed =>
      cases h
      exact hturn.of_subset id rfl fun _ _ => rfl
  | action target kind now =>
      rcases apply_action h with hok | rfl
      · exact action_staffed hturn hok
      · exact hturn
  | reset now => exact reset_staffed hturn h
  | step now lb latest => exact step_staffed hturn h

theorem init_staffed : Staffed (Reconciler.init Id N) := by
  have hnone : ∀ cid, (Reconciler.init Id N).clients.get? cid = none := fun _ => rfl
  have hmemory : ∀ cid, (Reconciler.init Id N).clientMemory.get? cid = none := fun _ => rfl
  refine ⟨fun hc => ?_, fun hc => ?_, fun hc => ?_, fun hidx => ?_⟩
  · cases (hnone _).symm.trans hc
  · cases (hnone _).symm.trans hc
  · cases (hnone _).symm.trans hc
  · cases (hmemory _).symm.trans hidx

theorem run_staffed {es : List (Event Id)} (h : run exits (Reconciler.init Id N) es = some r) :
    Staffed r :=
  EventRun.foldlM_invariant apply_staffed init_staffed h

end Runs

/-! ### Convergence -/

section Convergence

variable {Id : Type*} [LinearOrder Id] {N : ℕ} {exits : Proc → Moment} {r r' : Reconciler Id N}
  {used used' : Finset ℕ} {ids : Finset Id}

/-- While a client of the canvas has no record, there are fewer records than clients. -/
theorem usedIndices_card_lt (hkeys : ∀ {cid}, r.clients.get? cid ≠ none → cid ∈ ids) {cid : Id}
    (hcid : cid ∈ ids) (hnone : r.clients.get? cid = none) :
    (usedIndices r).card < ids.card := by
  have hsub : (r.clients.entries.map Prod.fst).toFinset ⊆ ids.erase cid := by
    intro k hk
    rw [List.mem_toFinset] at hk
    have hsome : r.clients.get? k ≠ none := fun h => Dict.get?_eq_none.mp h hk
    refine Finset.mem_erase.mpr ⟨?_, hkeys hsome⟩
    rintro rfl
    exact hsome hnone
  calc (usedIndices r).card
      ≤ (r.clients.entries.map (·.2.index)).length := List.toFinset_card_le _
    _ = (r.clients.entries.map Prod.fst).length := by rw [List.length_map, List.length_map]
    _ = (r.clients.entries.map Prod.fst).toFinset.card :=
        (List.toFinset_card_of_nodup r.clients.nodup).symm
    _ ≤ (ids.erase cid).card := Finset.card_le_card hsub
    _ < ids.card := Finset.card_erase_lt_of_mem hcid

/-- The client runs with the settings of the canvas. -/
def Runs (exits : Proc → Moment) (ex : Executor) (r : Reconciler Id N) (e : Id × ClientNode Id) :
    Prop :=
  ∃ c seed, r.clients.get? e.1 = some c ∧ c.handle = some seed ∧ c.config = some e.2.config ∧
    c.enabled = some (loadOn r e.2) ∧ Manned exits ex r.ex c.index seed

theorem Runs.of_work {ex : Executor} {e : Id × ClientNode Id} (h : Runs exits ex r e)
    (hwork : ClientWork r r') (hsame : r'.clients.get? e.1 = r.clients.get? e.1) :
    Runs exits ex r' e := by
  obtain ⟨c, seed, hc, hhandle, hconfig, henabled, hmanned⟩ := h
  refine ⟨c, seed, hsame.trans hc, hhandle, hconfig, ?_, ?_⟩
  · rw [henabled, ClientWork.loadOn_eq hwork]
  · exact hmanned.mono (P := fun _ => True) .refl (hwork.ex 0)

theorem Staffed.runs (h : Staffed r) {e : Id × ClientNode Id} {c c' : ClientRec}
    (hwork : ClientWork r r') (hs : Serving exits r r' used used' e c c') :
    Runs exits r.ex r' e := by
  obtain ⟨-, hconfig, henabled, -⟩ := settleClient_spec hs.settled
  obtain ⟨seed, hhandle, -, hmanned⟩ := h.told hs
  exact ⟨c', seed, hs.get?_self, hhandle, hconfig, by rw [henabled, ClientWork.loadOn_eq hwork],
    hmanned⟩

/-- A visit to a client of a canvas with at most four clients does serve it. -/
theorem visitClient_serving {e : Id × ClientNode Id} (hused : used = usedIndices r)
    (hkeys : ∀ {cid}, r.clients.get? cid ≠ none → cid ∈ ids) (he : e.1 ∈ ids)
    (hcard : ids.card ≤ maxClientSlots)
    (h : Reconciler.visitClient exits (r, used) e = (r', used')) :
    ∃ c c', Serving exits r r' used used' e c c' := by
  rcases visitClient_cases h with hserved | ⟨hnone, hindex, -⟩
  · exact hserved
  · have hlt := usedIndices_card_lt hkeys he hnone
    rw [← hused] at hlt
    exact absurd hindex (clientIndex_ne_none (by omega) _)

theorem foldl_visitClient_runs {l : List (Id × ClientNode Id)} (hnd : (l.map Prod.fst).Nodup)
    (hr : Staffed r) (hused : used = usedIndices r)
    (hkeys : ∀ {cid}, r.clients.get? cid ≠ none → cid ∈ ids) (hl : ∀ e ∈ l, e.1 ∈ ids)
    (hcard : ids.card ≤ maxClientSlots)
    (h : l.foldl (Reconciler.visitClient exits) (r, used) = (r', used')) :
    (∀ cid, cid ∉ l.map Prod.fst → r'.clients.get? cid = r.clients.get? cid) ∧
      ∀ e ∈ l, Runs exits r.ex r' e := by
  induction l generalizing r used with
  | nil =>
      cases h
      exact ⟨fun _ _ => rfl, by simp⟩
  | cons e l ih =>
      rw [List.map_cons, List.nodup_cons] at hnd
      obtain ⟨r₁, used₁, hvisit, h, hwork, hrest⟩ := foldl_visitClient_cons h
      obtain ⟨c, c', hs⟩ := visitClient_serving hused hkeys (hl e List.mem_cons_self) hcard hvisit
      have hkeys₁ : ∀ {cid}, r₁.clients.get? cid ≠ none → cid ∈ ids := by
        intro cid hcid
        by_cases he : cid = e.1
        · rw [he]
          exact hl e List.mem_cons_self
        · rw [hs.get?_of_ne he] at hcid
          exact hkeys hcid
      obtain ⟨hothers, hruns⟩ := ih hnd.2 (hr.serving hused hs) (hs.used_eq hused) hkeys₁
        (fun e' he' => hl e' (List.mem_cons_of_mem e he')) h
      refine ⟨fun cid hcid => ?_, fun e' he' => ?_⟩
      · rw [List.map_cons, List.mem_cons, not_or] at hcid
        exact (hothers cid hcid.2).trans (hs.get?_of_ne hcid.1)
      · rcases List.mem_cons.mp he' with rfl | he'
        · exact (hr.runs hwork hs).of_work hrest (hothers _ hnd.1)
        · obtain ⟨d, seed, hd, hhandle, hconfig, henabled, hmanned⟩ := hruns e' he'
          exact ⟨d, seed, hd, hhandle, hconfig, henabled, hmanned.mono (hwork.ex 0)
            (.refl (P := fun _ => True))⟩

/-- After the clients were served, exactly those of the canvas have a record and
run with its settings. -/
theorem stepClients_runs (hr : Staffed r)
    (hcard : r.desiredClients.entries.length ≤ maxClientSlots)
    (h : Reconciler.stepClients exits r = r') :
    (∀ cid, r'.clients.get? cid ≠ none ↔ cid ∈ r.desiredClients.entries.map Prod.fst) ∧
      ∀ e ∈ r.desiredClients.entries, Runs exits r.ex r' e := by
  have hdrop : ClientWork r (Reconciler.dropClients r.desiredClients r) := dropClients_work
  have hstaffed : Staffed (Reconciler.dropClients r.desiredClients r) := dropClients_staffed hr _
  have hkeys : ∀ {cid}, (Reconciler.dropClients r.desiredClients r).clients.get? cid ≠ none →
      cid ∈ (r.desiredClients.entries.map Prod.fst).toFinset := by
    intro cid hcid
    rw [dropClients_get?] at hcid
    by_contra hout
    rw [List.mem_toFinset, ← Dict.get?_eq_none] at hout
    rw [if_pos hout] at hcid
    exact hcid rfl
  have hids : (r.desiredClients.entries.map Prod.fst).toFinset.card ≤ maxClientSlots := by
    refine (List.toFinset_card_le _).trans ?_
    rwa [List.length_map]
  obtain ⟨used, hfold⟩ := stepClients_fold h
  obtain ⟨hothers, hruns⟩ := foldl_visitClient_runs r.desiredClients.nodup hstaffed rfl hkeys
    (fun e he => List.mem_toFinset.mpr (List.mem_map_of_mem he)) hids hfold
  refine ⟨fun cid => ⟨fun hcid => ?_, fun hcid => ?_⟩, fun e he => ?_⟩
  · by_contra hout
    rw [hothers cid hout] at hcid
    exact hout (List.mem_toFinset.mp (hkeys hcid))
  · obtain ⟨e, he, rfl⟩ := List.mem_map.mp hcid
    obtain ⟨c, -, hc, -⟩ := hruns e he
    rw [hc]
    exact Option.some_ne_none c
  · obtain ⟨c, seed, hc, hhandle, hconfig, henabled, hmanned⟩ := hruns e he
    exact ⟨c, seed, hc, hhandle, hconfig, henabled,
      hmanned.mono (hdrop.ex 0) (.refl (P := fun _ => True))⟩

end Convergence

/-- One step after any history of edits and exits, with an accepted document as the
desired state: its clients, and no others, have records, with indices of their own
in 0..3, and processes that were told what the document says. -/
theorem clients_converge (exits : Proc → Moment) {N : ℕ} {es : List (Event String)}
    {r : Reconciler String N} (hr : run exits (Reconciler.init String N) es = some r)
    {doc : Schema.Json} {canvas : Schema.Canvas}
    (hdoc : Schema.validateDesired doc = .ok canvas) (hdesired : r.desired = canvas.desired)
    (now : ℚ) (lb : Dict ℕ Observation) (latest : Proc → Option Stats) :
    ∃ r', apply exits r (.step now lb latest) = some r' ∧
      (∀ cid, r'.clients.get? cid ≠ none ↔ cid ∈ canvas.desired.clients.map ClientNode.id) ∧
      (∀ cid c, r'.clients.get? cid = some c → c.index < 4) ∧
      (∀ cid cid' c c', r'.clients.get? cid = some c → r'.clients.get? cid' = some c' →
        c.index = c'.index → cid = cid') ∧
      ∀ node ∈ canvas.desired.clients, ∃ c seed, r'.clients.get? node.id = some c ∧
        c.handle = some seed ∧ Manned exits r.ex.nextTurn r'.ex c.index seed ∧
        settings c.index seed r'.ex = some (node.config,
          canvas.desired.loadEnabled && node.connected && !r.loadSuppressed) := by
  obtain ⟨r', h⟩ : ∃ r', apply exits r (.step now lb latest) = some r' :=
    apply_exists (run_lifecycle init_lifecycle hr) _
  have hstaffed : Staffed r' := apply_staffed (run_staffed hr) h
  obtain ⟨hlength, hnodup⟩ := Schema.validateDesired_clients hdoc
  rw [← hdesired] at hlength hnodup ⊢
  let r₀ : Reconciler String N := { r with ex := r.ex.nextTurn }
  have hr₀ : Staffed r₀ := (run_staffed hr).of_subset id rfl fun _ _ => rfl
  have hentries : r₀.desiredClients.entries = r.desired.clients.map fun c => (c.id, c) := by
    refine Dict.ofList_entries ?_
    rwa [List.map_map]
  have hids : r₀.desiredClients.entries.map Prod.fst = r.desired.clients.map ClientNode.id := by
    rw [hentries, List.map_map]
    rfl
  have hcard : r₀.desiredClients.entries.length ≤ maxClientSlots := by
    rwa [hentries, List.length_map]
  obtain ⟨hkeys, hruns⟩ := stepClients_runs hr₀ hcard
    (rfl : Reconciler.stepClients exits r₀ = Reconciler.stepClients exits r₀)
  have hbooks : r' = { Reconciler.stepClients exits r₀ with
      ex := r'.ex, slots := r'.slots, slotMemory := r'.slotMemory, pending := r'.pending } :=
    step_books h
  have hclients : r'.clients = (Reconciler.stepClients exits r₀).clients := by rw [hbooks]
  refine ⟨r', h, fun cid => ?_, fun cid c => hstaffed.bounded,
    fun cid cid' c c' => hstaffed.distinct, fun node hnode => ?_⟩
  · rw [hclients, hkeys, hids]
  · have hmem : (node.id, node) ∈ r₀.desiredClients.entries := by
      rw [hentries]
      exact List.mem_map_of_mem hnode
    obtain ⟨c, seed, hc, hhandle, hconfig, henabled, hmanned⟩ := hruns _ hmem
    rw [← hclients] at hc
    obtain ⟨seed', cfg, enabled, hhandle', hconfig', henabled', htold⟩ := hstaffed.accurate hc
    cases hhandle.symm.trans hhandle'
    cases hconfig.symm.trans hconfig'
    cases henabled.symm.trans henabled'
    refine ⟨c, seed, hc, hhandle, hmanned.mono (.refl (P := fun _ => True)) (step_tends h), ?_⟩
    rw [htold, ClientWork.loadOn_eq stepClients_work]
    rfl

/-- One client with an edge to the load balancer, and the load on. -/
def busyDoc : Schema.Json :=
  .obj [("schema", .str "l4mlb-live/1"),
    ("nodes", .obj [("lb", .str "lb"),
      ("clients", .arr [.obj [("id", .str "c1"), ("rps", .num (.int 100))]])]),
    ("edges", .arr [.obj [("from", .str "c1"), ("to", .str "lb")]]),
    ("load", .obj [("enabled", .bool true)])]

def busyCanvas : Schema.Canvas :=
  ⟨some "lb", ⟨[⟨"c1", { Schema.clientDefaults with rps := 100 }, true⟩], [], true⟩⟩

/-- The client was started idle and with default settings before. -/
theorem clients_converge_busy :
    ∃ r r' : Reconciler String 1, ∃ c seed,
      run (fun _ => toLex (9, 0)) (Reconciler.init String 1)
        [.setDesired ⟨[⟨"c1", Schema.clientDefaults, false⟩], [], false⟩,
          .step 1 .empty fun _ => none, .setDesired busyCanvas.desired] = some r ∧
      apply (fun _ => toLex (9, 0)) r (.step 2 .empty fun _ => none) = some r' ∧
      r'.clients.get? "c1" = some c ∧
      settings c.index seed r'.ex = some ({ Schema.clientDefaults with rps := 100 }, true) := by
  have hrun : (run (fun _ => toLex (9, 0)) (Reconciler.init String 1)
      [.setDesired ⟨[⟨"c1", Schema.clientDefaults, false⟩], [], false⟩,
        .step 1 .empty fun _ => none, .setDesired busyCanvas.desired]).any (fun r =>
      r.desired = busyCanvas.desired ∧ r.loadSuppressed = false) = true := by decide +kernel
  obtain ⟨r, hr, h⟩ := (Option.any_eq_true _ _).mp hrun
  obtain ⟨hdesired, hload⟩ := of_decide_eq_true h
  have hdoc : Schema.validateDesired busyDoc = .ok busyCanvas := by decide +kernel
  obtain ⟨r', hr', -, -, -, hserved⟩ :=
    clients_converge _ hr hdoc hdesired 2 .empty fun _ => none
  obtain ⟨c, seed, hc, -, -, hsettings⟩ := hserved _ List.mem_cons_self
  rw [hload] at hsettings
  exact ⟨r, r', c, seed, hr, hr', hc, hsettings⟩

end MaglevLb.ClientConvergence
