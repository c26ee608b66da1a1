import MaglevLb.EventRun
import MaglevLb.SlotMoves

/-!
# The calls into the reconciler as one slot sees them

Each loop visits every slot once; between two visits to a slot only commands
about other slots and about clients are issued.
-/
namespace MaglevLb.SlotViews

open Children OrderedDict Slots Reconcile SlotMoves Relation

variable {Id : Type*} {N : ℕ} {exits : Proc → Moment} {i : ℕ} {v v' v'' : Site Id}

inductive Link (exits : Proc → Moment) (i : ℕ) : Site Id → Site Id → Prop
  | move {st : Stage} {v v' : Site Id} : Move exits i st v v' → Link exits i v v'
  | elsewhere {v : Site Id} {ex : Executor} : Elsewhere i v.ex ex → Link exits i v ⟨v.slot, ex⟩

/-- Moves of the slot, with other slots' business in between. -/
abbrev Trail (exits : Proc → Moment) (i : ℕ) : Site Id → Site Id → Prop :=
  ReflTransGen (Link exits i)

theorem Trail.invariant {P : Site Id → Prop}
    (hmove : ∀ {st v v'}, Move exits i st v v' → P v → P v')
    (helse : ∀ {v ex}, Elsewhere i v.ex ex → P v → P ⟨v.slot, ex⟩) (h : Trail exits i v v')
    (hv : P v) : P v' := by
  induction h with
  | refl => exact hv
  | tail _ hl ih =>
      cases hl with
      | move hm => exact hmove hm ih
      | elsewhere he => exact helse he ih

theorem Path.trail {st : Stage} (h : Path exits i st v v') : Trail exits i v v' := by
  induction h with
  | refl => exact .refl
  | tail _ hm ih => exact ih.tail (.move hm)

theorem Trail.elsewhere (h : Trail exits i v v') {ex : Executor} (he : Elsewhere i v'.ex ex) :
    Trail exits i v ⟨v'.slot, ex⟩ :=
  h.tail (.elsewhere he)

/-! ### A loop over the slots -/

section Loop

variable {visit : ℕ → Site Id → Option (Site Id)} {r r' : Reconciler Id N}

theorem put_of_ne {i k : Fin N} (h : i ≠ k) : (r.put k v).slots i = r.slots i :=
  Function.update_of_ne h _ _

@[simp] theorem put_self {i : Fin N} : (r.put i v).slots i = v.slot := Function.update_self _ _ _

/-- The visits of `forSlots` to the slots of `l`. -/
def visits (visit : ℕ → Site Id → Option (Site Id)) (l : List (Fin N)) (r : Reconciler Id N) :
    Option (Reconciler Id N) :=
  l.foldlM (fun r (i : Fin N) => (visit i ⟨r.slots i, r.ex⟩).map (r.put i)) r

theorem visits_cons {k : Fin N} {l : List (Fin N)} (h : visits visit (k :: l) r = some r') :
    ∃ w, visit k ⟨r.slots k, r.ex⟩ = some w ∧ visits visit l (r.put k w) = some r' := by
  rw [visits, List.foldlM_cons] at h
  obtain ⟨r₁, hr₁, hl⟩ := Option.bind_eq_some_iff.mp h
  obtain ⟨w, hw, rfl⟩ := Option.map_eq_some_iff.mp hr₁
  exact ⟨w, hw, hl⟩

theorem visits_books {l : List (Fin N)} (h : visits visit l r = some r') :
    r' = { r with ex := r'.ex, slots := r'.slots } := by
  induction l generalizing r with
  | nil =>
      cases h
      rfl
  | cons k l ih =>
      obtain ⟨w, -, hl⟩ := visits_cons h
      have hbooks := ih hl
      exact hbooks

theorem visits_of_notMem (htends : ∀ {k v v'}, visit k v = some v' → Tends k v.ex v'.ex)
    {l : List (Fin N)} {i : Fin N} (hi : i ∉ l) (h : visits visit l r = some r') :
    r'.slots i = r.slots i ∧ Elsewhere i r.ex r'.ex := by
  induction l generalizing r with
  | nil =>
      cases h
      exact ⟨rfl, .refl⟩
  | cons k l ih =>
      obtain ⟨w, hw, hl⟩ := visits_cons h
      rw [List.mem_cons, not_or] at hi
      obtain ⟨hslot, hex⟩ := ih hi.2 hl
      have hne : (i : ℕ) ≠ k := fun he => hi.1 (Fin.ext he)
      exact ⟨hslot.trans (put_of_ne hi.1), ((htends hw).only.elsewhere hne).trans hex⟩

theorem visits_of_mem (htends : ∀ {k v v'}, visit k v = some v' → Tends k v.ex v'.ex)
    {l : List (Fin N)} (hnd : l.Nodup) {i : Fin N} (hi : i ∈ l) (h : visits visit l r = some r') :
    ∃ ex w, Elsewhere i r.ex ex ∧ visit i ⟨r.slots i, ex⟩ = some w ∧ r'.slots i = w.slot ∧
      Elsewhere i w.ex r'.ex := by
  induction l generalizing r with
  | nil => cases hi
  | cons k l ih =>
      obtain ⟨w, hw, hl⟩ := visits_cons h
      rw [List.nodup_cons] at hnd
      by_cases hk : i = k
      · subst hk
        obtain ⟨hslot, hex⟩ := visits_of_notMem htends hnd.1 hl
        exact ⟨r.ex, w, .refl, hw, hslot.trans put_self, hex⟩
      · obtain ⟨ex, w', hex, hvisit, hslot, hrest⟩ :=
          ih hnd.2 ((List.mem_cons.mp hi).resolve_left hk) hl
        have hne : (i : ℕ) ≠ k := fun he => hk (Fin.ext he)
        rw [put_of_ne hk] at hvisit
        exact ⟨ex, w', ((htends hw).only.elsewhere hne).trans hex, hvisit, hslot, hrest⟩

/-- Every slot is visited once, as the loop found it. -/
theorem forSlots_view (htends : ∀ {k v v'}, visit k v = some v' → Tends k v.ex v'.ex)
    (h : r.forSlots visit = some r') (i : Fin N) :
    ∃ ex w, Elsewhere i r.ex ex ∧ visit i ⟨r.slots i, ex⟩ = some w ∧ r'.slots i = w.slot ∧
      Elsewhere i w.ex r'.ex :=
  visits_of_mem htends (List.nodup_finRange N) (List.mem_finRange i) h

theorem forSlots_books (h : r.forSlots visit = some r') :
    r' = { r with ex := r'.ex, slots := r'.slots } :=
  visits_books h

theorem visits_tends (htends : ∀ {k v v'}, visit k v = some v' → Tends k v.ex v'.ex)
    {l : List (Fin N)} (h : visits visit l r = some r') : TendsSlots N r.ex r'.ex := by
  induction l generalizing r with
  | nil =>
      cases h
      exact .refl
  | cons k l ih =>
      obtain ⟨w, hw, hl⟩ := visits_cons h
      exact ((htends hw).slots k.isLt).trans (ih hl)

theorem forSlots_tends (htends : ∀ {k v v'}, visit k v = some v' → Tends k v.ex v'.ex)
    (h : r.forSlots visit = some r') : TendsSlots N r.ex r'.ex :=
  visits_tends htends h

theorem visits_isSome {l : List (Fin N)} (hnd : l.Nodup)
    (htotal : ∀ i ∈ l, ∀ ex, (visit i ⟨r.slots i, ex⟩).isSome) : (visits visit l r).isSome := by
  induction l generalizing r with
  | nil => rfl
  | cons k l ih =>
      rw [List.nodup_cons] at hnd
      obtain ⟨w, hw⟩ := Option.isSome_iff_exists.mp (htotal k List.mem_cons_self r.ex)
      rw [visits, List.foldlM_cons, hw]
      refine ih hnd.2 fun i hi ex => ?_
      have hne : i ≠ k := fun he => hnd.1 (he ▸ hi)
      rw [put_of_ne hne]
      exact htotal i (List.mem_cons_of_mem _ hi) ex

theorem forSlots_isSome (htotal : ∀ (i : Fin N) ex, (visit i ⟨r.slots i, ex⟩).isSome) :
    (r.forSlots visit).isSome :=
  visits_isSome (List.nodup_finRange N) fun i _ => htotal i

end Loop

/-! ### Clients -/

section Clients

variable {r r' : Reconciler Id N}

/-- Only clients were served. -/
structure ClientWork (r r' : Reconciler Id N) : Prop where
  books : r' = { r with ex := r'.ex, clients := r'.clients, clientMemory := r'.clientMemory }
  ex : ∀ i, Elsewhere i r.ex r'.ex

theorem ClientWork.refl : ClientWork r r := ⟨rfl, fun _ => .refl⟩

theorem ClientWork.trans {r'' : Reconciler Id N} (h : ClientWork r r') (h' : ClientWork r' r'') :
    ClientWork r r'' := by
  refine ⟨?_, fun i => (h.ex i).trans (h'.ex i)⟩
  have hb := h'.books
  rw [h.books] at hb
  exact hb

theorem ClientWork.slots_eq (h : ClientWork r r') : r'.slots = r.slots := by rw [h.books]

theorem ClientWork.desired_eq (h : ClientWork r r') : r'.desired = r.desired := by rw [h.books]

theorem not_concerns_client {c : ClientRec} :
    ¬ ∃ seed, c.proc = some (.backend (i + 1) seed) := by
  rintro ⟨seed, h⟩
  obtain ⟨k, -, hk⟩ := Option.map_eq_some_iff.mp h
  cases hk

theorem settleClient_elsewhere {cfg : ClientConfig} {enabled : Bool} {c : ClientRec}
    {ex : Executor} : Elsewhere i ex (Reconciler.settleClient exits cfg enabled c ex).2 := by
  unfold Reconciler.settleClient
  split
  · have hconfig : Elsewhere i ex (if some cfg ≠ c.config then
        ex.tick.call (.send c.proc (.clientConfig cfg)) else ex.tick) := by
      split
      · exact Executor.Advances.refl.tick.call not_concerns_client
      · exact Executor.Advances.refl.tick
    dsimp only
    generalize (if some cfg ≠ c.config then
      ex.tick.call (.send c.proc (.clientConfig cfg)) else ex.tick) = ex₁ at hconfig ⊢
    split
    · exact hconfig.call not_concerns_client
    · exact hconfig
  · exact Executor.Advances.refl.tick.spawnClient id

theorem resetClients_elsewhere {l : List (Id × ClientRec)} {ex : Executor} :
    Elsewhere i ex (l.foldl (fun ex e =>
      if e.2.handle.isSome then ex.call (.send e.2.proc .resetStats) else ex) ex) := by
  induction l generalizing ex with
  | nil => exact .refl
  | cons e l ih =>
      rw [List.foldl_cons]
      refine .trans ?_ ih
      split
      · exact Executor.Advances.refl.call not_concerns_client
      · exact .refl

variable [LinearOrder Id]

theorem visitClient_work {used : Finset ℕ} {e : Id × ClientNode Id} :
    ClientWork r (Reconciler.visitClient exits (r, used) e).1 := by
  unfold Reconciler.visitClient
  dsimp only
  split
  · exact ⟨rfl, fun _ => settleClient_elsewhere⟩
  · split
    · exact .refl
    · exact ⟨rfl, fun _ => settleClient_elsewhere⟩

theorem foldl_visitClient_work {l : List (Id × ClientNode Id)} {used : Finset ℕ} :
    ClientWork r (l.foldl (Reconciler.visitClient exits) (r, used)).1 := by
  induction l generalizing r used with
  | nil => exact .refl
  | cons e l ih => exact visitClient_work.trans ih

/-- Visiting a list of clients is a visit to the first and then to the others. -/
theorem foldl_visitClient_cons {e : Id × ClientNode Id} {l : List (Id × ClientNode Id)}
    {used used' : Finset ℕ}
    (h : (e :: l).foldl (Reconciler.visitClient exits) (r, used) = (r', used')) :
    ∃ r₁ used₁, Reconciler.visitClient exits (r, used) e = (r₁, used₁) ∧
      l.foldl (Reconciler.visitClient exits) (r₁, used₁) = (r', used') ∧
      ClientWork r r₁ ∧ ClientWork r₁ r' := by
  have hvisit : ClientWork r (Reconciler.visitClient exits (r, used) e).1 := visitClient_work
  have hrest : ClientWork (Reconciler.visitClient exits (r, used) e).1
      (l.foldl (Reconciler.visitClient exits) (Reconciler.visitClient exits (r, used) e)).1 :=
    foldl_visitClient_work
  rw [List.foldl_cons] at h
  rw [h] at hrest
  exact ⟨_, _, rfl, h, hvisit, hrest⟩

theorem dropClients_work {want : Dict Id (ClientNode Id)} :
    ClientWork r (Reconciler.dropClients want r) := by
  unfold Reconciler.dropClients
  generalize r.clients.entries = l
  induction l generalizing r with
  | nil => exact .refl
  | cons e l ih =>
      rw [List.foldl_cons]
      refine .trans ?_ ih
      split
      · exact ⟨rfl, fun _ => Executor.Advances.refl.call not_concerns_client⟩
      · exact .refl

theorem stepClients_work : ClientWork r (Reconciler.stepClients exits r) :=
  dropClients_work.trans foldl_visitClient_work

end Clients

/-! ### Additions -/

section Additions

variable [LinearOrder Id] {r r' : Reconciler Id N} {i : Fin N}

/-- A slot during additions: left alone, or taken while it was free. -/
inductive Added (i : ℕ) (v v' : Site Id) : Prop
  | kept : v'.slot = v.slot → Elsewhere i v.ex v'.ex → Added i v v'
  | taken (cid : Id) (cfg : BackendConfig) (ex : Executor) : v.slot.phase = .free →
      Elsewhere i v.ex ex →
      v'.slot = (spawn i cfg ⟨{ v.slot with owner := some cid }, ex⟩).slot →
      Elsewhere i (spawn i cfg ⟨{ v.slot with owner := some cid }, ex⟩).ex v'.ex → Added i v v'

omit [LinearOrder Id] in
theorem spawn_tends {k : ℕ} {cfg : BackendConfig} {w : Site Id} :
    Tends k w.ex (spawn k cfg w).ex :=
  Executor.Advances.refl.spawnBackend rfl

theorem slotFor_free {cid : Id} {k : Fin N} (h : r.slotFor cid = some k) :
    (r.slots k).phase = .free := by
  unfold Reconciler.slotFor at h
  split at h
  · next hm =>
      cases h
      simpa [Reconciler.isFree] using (Option.filter_eq_some_iff.mp hm).2
  · simpa [Reconciler.isFree] using List.find?_some h

theorem addition_added {e : Id × BackendNode Id} :
    Added i ⟨r.slots i, r.ex⟩ ⟨(r.addition e).slots i, (r.addition e).ex⟩ := by
  unfold Reconciler.addition
  split
  · exact .kept rfl .refl
  · split
    · exact .kept rfl .refl
    · next k hk =>
        by_cases hi : i = k
        · subst hi
          exact .taken e.1 e.2.config r.ex (slotFor_free hk) .refl put_self .refl
        · have hne : (i : ℕ) ≠ k := fun he => hi (Fin.ext he)
          exact .kept (put_of_ne hi) (spawn_tends.only.elsewhere hne)

omit [LinearOrder Id] in
theorem Added.trans {k : ℕ} {v v' v'' : Site Id} (h : Added k v v') (h' : Added k v' v'') :
    Added k v v'' := by
  cases h with
  | kept hs he =>
      cases h' with
      | kept hs' he' => exact .kept (hs'.trans hs) (he.trans he')
      | taken cid cfg ex hf he' hs' hr =>
          rw [hs] at hf hs' hr
          exact .taken cid cfg ex hf (he.trans he') hs' hr
  | taken cid cfg ex hf he hs hr =>
      cases h' with
      | kept hs' he' => exact .taken cid cfg ex hf he (hs'.trans hs) (hr.trans he')
      | taken cid' cfg' ex' hf' =>
          -- a slot that was taken is not free any more
          rw [hs] at hf'
          cases hf'

theorem foldl_addition_added {l : List (Id × BackendNode Id)} :
    Added i ⟨r.slots i, r.ex⟩
      ⟨(l.foldl Reconciler.addition r).slots i, (l.foldl Reconciler.addition r).ex⟩ := by
  induction l generalizing r with
  | nil => exact .kept rfl .refl
  | cons e l ih => exact addition_added.trans ih

theorem foldl_addition_tends {l : List (Id × BackendNode Id)} :
    TendsSlots N r.ex (l.foldl Reconciler.addition r).ex := by
  induction l generalizing r with
  | nil => exact .refl
  | cons e l ih =>
      refine .trans ?_ ih
      unfold Reconciler.addition
      split
      · exact .refl
      · split
        · exact .refl
        · next k _ =>
            exact (spawn_tends (w := ⟨{ r.slots k with owner := some e.1 }, r.ex⟩)).slots k.isLt

theorem additions_added {want : Dict Id (BackendNode Id)} :
    Added i ⟨r.slots i, r.ex⟩
      ⟨(Reconciler.additions want r).slots i, (Reconciler.additions want r).ex⟩ :=
  foldl_addition_added (r := { r with pending := ∅ })

omit [LinearOrder Id] in
theorem Added.advances {k : ℕ} {v v' : Site Id} (h : Added k v v') :
    Executor.Advances (fun _ => True) v.ex v'.ex := by
  cases h with
  | kept _ he => exact he.any
  | taken _ _ _ _ he _ hr => exact (he.any.spawnBackend trivial).trans hr.any

omit [LinearOrder Id] in
theorem Added.trail {k : ℕ} {v v' : Site Id} (h : Added k v v') : Trail exits k v v' := by
  obtain ⟨s', ex'⟩ := v'
  cases h with
  | kept hs he =>
      cases hs
      exact .single (.elsewhere he)
  | taken cid cfg ex hf he hs hr =>
      cases hs
      exact .tail (.tail (.single (.elsewhere he)) (.move (.occupied cid cfg hf))) (.elsewhere hr)

end Additions

/-! ### Events -/

section Events

variable [LinearOrder Id] {now : ℚ} {lb : Dict ℕ Observation} {latest : Proc → Option Stats}
  {r r' : Reconciler Id N} {i : Fin N}

theorem removal_visit {want : Dict Id (BackendNode Id)} {k : ℕ} {v v' : Site Id}
    (h : some (removal exits now k want v) = some v') : Tends k v.ex v'.ex := by
  cases h
  exact Path.tends removal_path

theorem stepClients_desiredBackends :
    (Reconciler.stepClients exits r).desiredBackends = r.desiredBackends := by
  have hclients : ClientWork r (Reconciler.stepClients exits r) := stepClients_work
  rw [Reconciler.desiredBackends, hclients.desired_eq, Reconciler.desiredBackends]

/-- The three loops of a step over the backends. -/
theorem step_loops (h : r.step exits now lb latest = some r') :
    ∃ r₁, (Reconciler.stepClients exits r).forSlots
        (fun i v => some (removal exits now i r.desiredBackends v)) = some r₁ ∧
      (Reconciler.additions r.desiredBackends r₁).forSlots
        (fun i v => progress exits now i r.desiredBackends lb latest v) = some r' := by
  unfold Reconciler.step Reconciler.stepBackends at h
  rw [stepClients_desiredBackends] at h
  exact Option.bind_eq_some_iff.mp h

/-- One step as slot `i` sees it: its removal visit, additions, its progress visit. -/
structure SlotStep (exits : Proc → Moment) (now : ℚ) (i : ℕ) (want : Dict Id (BackendNode Id))
    (lb : Dict ℕ Observation) (latest : Proc → Option Stats) (v : Site Id) (ex₁ ex₂ : Executor)
    (v₃ v₄ v' : Site Id) : Prop where
  before : Elsewhere i v.ex ex₁
  between : Elsewhere i (removal exits now i want ⟨v.slot, ex₁⟩).ex ex₂
  added : Added i ⟨(removal exits now i want ⟨v.slot, ex₁⟩).slot, ex₂⟩ v₃
  progress : progress exits now i want lb latest v₃ = some v₄
  slot : v'.slot = v₄.slot
  after : Elsewhere i v₄.ex v'.ex

/-- The loops of a step, and what each slot sees of them. -/
theorem step_views (h : r.step exits now lb latest = some r') :
    ∃ r₁, (Reconciler.stepClients exits r).forSlots
        (fun i v => some (removal exits now i r.desiredBackends v)) = some r₁ ∧
      (Reconciler.additions r.desiredBackends r₁).forSlots
        (fun i v => progress exits now i r.desiredBackends lb latest v) = some r' ∧
      ∀ i : Fin N, ∃ ex₁ ex₂ ex₃ v₄, SlotStep exits now i r.desiredBackends lb latest
        ⟨r.slots i, r.ex⟩
        ex₁ ex₂ ⟨(Reconciler.additions r.desiredBackends r₁).slots i, ex₃⟩ v₄
        ⟨r'.slots i, r'.ex⟩ := by
  have hclients : ClientWork r (Reconciler.stepClients exits r) := stepClients_work
  obtain ⟨r₁, hremoval, hprogress⟩ := step_loops h
  refine ⟨r₁, hremoval, hprogress, fun i => ?_⟩
  obtain ⟨ex₁, w, hex₁, hw, hslot₁, hrest₁⟩ := forSlots_view removal_visit hremoval i
  cases hw
  rw [hclients.slots_eq] at hslot₁ hrest₁
  obtain ⟨ex₃, v₄, hex₃, hvisit, hslot₄, hrest₄⟩ :=
    forSlots_view (fun hv => Path.tends (progress_path hv)) hprogress i
  have hadded : Added i ⟨r₁.slots i, r₁.ex⟩
      ⟨(Reconciler.additions r.desiredBackends r₁).slots i,
        (Reconciler.additions r.desiredBackends r₁).ex⟩ := additions_added
  refine ⟨ex₁, r₁.ex, ex₃, v₄, (hclients.ex i).trans hex₁, hrest₁, ?_, hvisit, hslot₄, hrest₄⟩
  rw [← hslot₁]
  exact hadded.trans (.kept rfl hex₃)

theorem step_view (h : r.step exits now lb latest = some r') (i : Fin N) :
    ∃ ex₁ ex₂ v₃ v₄, SlotStep exits now i r.desiredBackends lb latest ⟨r.slots i, r.ex⟩ ex₁ ex₂
      v₃ v₄ ⟨r'.slots i, r'.ex⟩ := by
  obtain ⟨r₁, -, -, hviews⟩ := step_views h
  obtain ⟨ex₁, ex₂, ex₃, v₄, hview⟩ := hviews i
  exact ⟨ex₁, ex₂, _, v₄, hview⟩

theorem step_trail (h : r.step exits now lb latest = some r') (i : Fin N) :
    Trail exits i ⟨r.slots i, r.ex⟩ ⟨r'.slots i, r'.ex⟩ := by
  obtain ⟨ex₁, ex₂, v₃, v₄, hview⟩ := step_view h i
  rw [show r'.slots i = v₄.slot from hview.slot]
  have hremoved : Trail exits i ⟨r.slots i, r.ex⟩
      (removal exits now i r.desiredBackends ⟨r.slots i, ex₁⟩) :=
    .trans (.single (.elsewhere hview.before)) (Path.trail removal_path)
  have hadd := (hremoved.elsewhere hview.between).trans hview.added.trail
  exact Trail.elsewhere (hadd.trans (Path.trail (progress_path hview.progress))) hview.after

/-- After the clients, a step issues commands about its own slots only. -/
theorem step_tends (h : r.step exits now lb latest = some r') :
    TendsSlots N (Reconciler.stepClients exits r).ex r'.ex := by
  obtain ⟨r₁, hremoval, h⟩ := step_loops h
  have hadd : TendsSlots N r₁.ex (Reconciler.additions r.desiredBackends r₁).ex :=
    foldl_addition_tends (r := { r₁ with pending := ∅ })
  exact ((forSlots_tends removal_visit hremoval).trans hadd).trans
    (forSlots_tends (fun hv => Path.tends (progress_path hv)) h)

/-- A step only appends to the log, commands about clients and its own slots. -/
theorem step_within (h : r.step exits now lb latest = some r') : Within N r.ex r'.ex := by
  have hclients : ClientWork r (Reconciler.stepClients exits r) := stepClients_work
  exact (within_of_elsewhere hclients.ex).trans (step_tends h).within

theorem perform_tends {want : Dict Id (BackendNode Id)} {kind : ActionKind} {k : ℕ} {v : Site Id}
    (ho : v.slot.owner ≠ none) (hr : v.slot.removing = false) :
    Tends k v.ex (perform exits now k want kind v).ex := by
  have hpath : Path exits k .action (if clears kind then clearFault k want v else v)
      (perform exits now k want kind v) := perform_path ho hr
  refine .trans ?_ (Path.tends hpath)
  split
  · exact clearFault_cleared.tends
  · exact .refl

theorem resetSlot_visit {want : Dict Id (BackendNode Id)} {k : ℕ} {v v' : Site Id}
    (h : some (resetSlot exits k want v) = some v') : Tends k v.ex v'.ex := by
  cases h
  by_cases hskip : v.slot.owner = none ∨ v.slot.removing = true
  · rw [resetSlot, if_pos hskip]
    exact .refl
  · rw [not_or, Bool.not_eq_true] at hskip
    have hpath : Path exits k .action (clearFault k want v) (resetSlot exits k want v) :=
      resetSlot_path hskip.1 hskip.2
    exact clearFault_cleared.tends.trans (Path.tends hpath)

/-- The event clears the fault of slot `i`. -/
def Cleans (r : Reconciler Id N) (i : Fin N) (e : Event Id) : Prop :=
  (r.slots i).owner ≠ none ∧ (r.slots i).removing = false ∧
    match e with
    | .action target kind _ => clears kind = true ∧ (r.slots i).owner = some target
    | .reset _ => True
    | _ => False

theorem action_ok {target : Id} {kind : ActionKind}
    (h : r.action exits now target kind = .ok r') :
    ∃ k, (r.slots k).owner = some target ∧ (r.slots k).removing = false ∧
      r' = r.put k (perform exits now k r.desiredBackends kind ⟨r.slots k, r.ex⟩) := by
  unfold Reconciler.action at h
  split at h
  · cases h
  · next k hk =>
      split at h
      · cases h
      · next hrun =>
          cases h
          rw [not_or, Bool.not_eq_true] at hrun
          exact ⟨k, by simpa using List.find?_some hk, hrun.2, rfl⟩

theorem action_trail {target : Id} {kind : ActionKind}
    (h : r.action exits now target kind = .ok r') (i : Fin N) :
    ∃ v₁, (v₁ = ⟨r.slots i, r.ex⟩ ∨ Cleans r i (.action target kind now) ∧
        Cleared r.desiredBackends i ⟨r.slots i, r.ex⟩ v₁) ∧
      Trail exits i v₁ ⟨r'.slots i, r'.ex⟩ := by
  obtain ⟨k, ho, hr, rfl⟩ := action_ok h
  have hne : (r.slots k).owner ≠ none := by simp [ho]
  by_cases hi : i = k
  · subst hi
    have hpath : Path exits i .action
        (if clears kind then clearFault i r.desiredBackends ⟨r.slots i, r.ex⟩
          else ⟨r.slots i, r.ex⟩)
        (perform exits now i r.desiredBackends kind ⟨r.slots i, r.ex⟩) := perform_path hne hr
    rw [put_self]
    refine ⟨_, ?_, Path.trail hpath⟩
    split
    · next hc => exact .inr ⟨⟨hne, hr, hc, ho⟩, clearFault_cleared⟩
    · exact .inl rfl
  · have hik : (i : ℕ) ≠ k := fun he => hi (Fin.ext he)
    have htends : Tends k r.ex (perform exits now k r.desiredBackends kind ⟨r.slots k, r.ex⟩).ex :=
      perform_tends (v := ⟨r.slots k, r.ex⟩) hne hr
    rw [put_of_ne hi]
    exact ⟨_, .inl rfl, .single (.elsewhere (htends.only.elsewhere hik))⟩

theorem action_tends {target : Id} {kind : ActionKind}
    (h : r.action exits now target kind = .ok r') : TendsSlots N r.ex r'.ex := by
  obtain ⟨k, ho, hr, rfl⟩ := action_ok h
  have hne : (r.slots k).owner ≠ none := by simp [ho]
  exact (perform_tends (v := ⟨r.slots k, r.ex⟩) hne hr).slots k.isLt

/-- A refused action changes nothing. -/
theorem apply_action {target : Id} {kind : ActionKind}
    (h : apply exits r (.action target kind now) = some r') :
    ({ r with ex := r.ex.nextTurn } : Reconciler Id N).action exits now target kind = .ok r' ∨
      r' = { r with ex := r.ex.nextTurn } := by
  simp only [apply] at h
  split at h
  · next r₁ hok =>
      cases h
      exact .inl hok
  · cases h
    exact .inr rfl

/-- A reset as slot `i` sees it: one visit, with the other slots and the clients around it. -/
theorem reset_view (h : r.reset exits = some r') (i : Fin N) :
    ∃ ex₁, Elsewhere i r.ex ex₁ ∧
      r'.slots i = (resetSlot exits i r.desiredBackends ⟨r.slots i, ex₁⟩).slot ∧
      Elsewhere i (resetSlot exits i r.desiredBackends ⟨r.slots i, ex₁⟩).ex r'.ex := by
  obtain ⟨r₁, hloop, h⟩ := Option.bind_eq_some_iff.mp h
  cases h
  obtain ⟨ex₁, w, hex₁, hw, hslot, hrest⟩ := forSlots_view resetSlot_visit hloop i
  cases hw
  exact ⟨ex₁, hex₁, hslot, hrest.trans (resetClients_elsewhere (l := r₁.clients.entries))⟩

theorem reset_trail (now : ℚ) (h : r.reset exits = some r') (i : Fin N) :
    ∃ ex₁ v₁, Elsewhere i r.ex ex₁ ∧
      (v₁ = ⟨r.slots i, ex₁⟩ ∨ Cleans r i (.reset now) ∧
        Cleared r.desiredBackends i ⟨r.slots i, ex₁⟩ v₁) ∧
      Trail exits i v₁ ⟨r'.slots i, r'.ex⟩ := by
  obtain ⟨ex₁, hex₁, hslot, hend⟩ := reset_view h i
  rw [hslot]
  by_cases hskip : (r.slots i).owner = none ∨ (r.slots i).removing = true
  · refine ⟨ex₁, _, hex₁, .inl rfl, ?_⟩
    rw [resetSlot, if_pos hskip] at hend ⊢
    exact .single (.elsewhere hend)
  · rw [not_or, Bool.not_eq_true] at hskip
    have hpath : Path exits i .action (clearFault i r.desiredBackends ⟨r.slots i, ex₁⟩)
        (resetSlot exits i r.desiredBackends ⟨r.slots i, ex₁⟩) := resetSlot_path hskip.1 hskip.2
    exact ⟨ex₁, _, hex₁, .inr ⟨⟨hskip.1, hskip.2, trivial⟩, clearFault_cleared⟩,
      Trail.elsewhere (Path.trail hpath) hend⟩

/-- An event as slot `i` sees it: its fault may be cleared, then moves. -/
theorem apply_trail {e : Event Id} (h : apply exits r e = some r') (i : Fin N) :
    ∃ ex₁ v₁, Elsewhere i r.ex.nextTurn ex₁ ∧
      (v₁ = ⟨r.slots i, ex₁⟩ ∨
        Cleans r i e ∧ Cleared r.desiredBackends i ⟨r.slots i, ex₁⟩ v₁) ∧
      Trail exits i v₁ ⟨r'.slots i, r'.ex⟩ := by
  cases e with
  | setDesired desired =>
      cases h
      exact ⟨_, _, .refl, .inl rfl, .refl⟩
  | suppressLoad suppressed =>
      cases h
      exact ⟨_, _, .refl, .inl rfl, .refl⟩
  | action target kind now =>
      rcases apply_action h with hok | rfl
      · obtain ⟨v₁, hv₁, htrail⟩ := action_trail hok i
        exact ⟨_, v₁, .refl, hv₁, htrail⟩
      · exact ⟨_, _, .refl, .inl rfl, .refl⟩
  | reset now => exact reset_trail now h i
  | step now lb latest => exact ⟨_, _, .refl, .inl rfl, step_trail h i⟩

theorem apply_within {e : Event Id} (h : apply exits r e = some r') :
    Within N r.ex.nextTurn r'.ex := by
  cases e with
  | setDesired | suppressLoad =>
      cases h
      exact .refl
  | action target kind now =>
      rcases apply_action h with hok | rfl
      · exact (action_tends hok).within
      · exact .refl
  | reset now =>
      obtain ⟨r₁, hloop, h⟩ := Option.bind_eq_some_iff.mp h
      cases h
      exact (forSlots_tends resetSlot_visit hloop).within.trans
        (within_of_elsewhere fun _ => resetClients_elsewhere)
  | step now lb latest => exact step_within h

theorem run_concat (es : List (Event Id)) (e : Event Id) :
    run exits r (es ++ [e]) = (run exits r es).bind fun r => apply exits r e := by
  rw [run, List.foldlM_append, ← run]
  refine congrArg _ (funext fun r₁ => ?_)
  exact bind_pure _

/-- What every move keeps, every run keeps. -/
theorem run_slots {P : ℕ → Site Id → Prop}
    (hmove : ∀ {i st v v'}, Move exits i st v v' → P i v → P i v')
    (hcleared : ∀ {i want v v'}, Cleared want i v v' → v.slot.owner ≠ none →
      v.slot.removing = false → P i v → P i v')
    (helse : ∀ {i v ex}, Elsewhere i v.ex ex → P i v → P i ⟨v.slot, ex⟩)
    (hturn : ∀ {i v}, P i v → P i ⟨v.slot, v.ex.nextTurn⟩)
    (hr : ∀ i : Fin N, P i ⟨r.slots i, r.ex⟩) {es : List (Event Id)}
    (h : run exits r es = some r') : ∀ i : Fin N, P i ⟨r'.slots i, r'.ex⟩ := by
  refine EventRun.foldlM_invariant (P := fun r => ∀ i : Fin N, P i ⟨r.slots i, r.ex⟩) ?_ hr h
  intro r e r' hr h i
  obtain ⟨ex₁, v₁, hex₁, hv₁, htrail⟩ := apply_trail h i
  have hstart : P i ⟨r.slots i, ex₁⟩ := helse hex₁ (hturn (hr i))
  refine htrail.invariant hmove helse ?_
  rcases hv₁ with rfl | ⟨⟨ho, hr, -⟩, hc⟩
  · exact hstart
  · exact hcleared hc ho hr hstart

end Events

end MaglevLb.SlotViews
