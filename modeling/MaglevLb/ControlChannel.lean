import MaglevLb.ActionSchema
import MaglevLb.ClientConvergence
import MaglevLb.ControlCommands

/-!
# From the canvas to the children

The reconciler keeps in a slot what its responder was told: the configuration it runs with and
the fault it simulates. Every change of the one goes with a message to the other, and a
responder takes every message with accepted numbers, so a responder that has read its pipe
does what the slot says; and after a step that is what the canvas says. The same holds of the
load generators and their records.
-/
namespace MaglevLb.ControlChannel

open Children OrderedDict Slots Reconcile SlotMoves SlotViews SlotLifecycle
open ControlCommands DesiredLanguage

/-! ### What a child has been sent -/

/-- How a child was started, and the messages it was sent since. -/
abbrev History := Option (Call × List Message)

def hear (p : Proc) (h : History) (c : Call) : History :=
  match c with
  | .spawnBackend slot _ seed => if p = .backend slot seed then some (c, []) else h
  | .spawnClient index _ _ seed => if p = .client index seed then some (c, []) else h
  | .send q m => if q = some p then h.map fun h => (h.1, h.2 ++ [m]) else h
  | _ => h

def history (p : Proc) (ex : Executor) : History := ex.log.foldl (fun h e => hear p h e.2) none

section History

variable {p : Proc} {ex ex' : Executor}

@[simp] theorem history_tick : history p ex.tick = history p ex := rfl

@[simp] theorem history_nextTurn : history p ex.nextTurn = history p ex := rfl

@[simp] theorem history_call (c : Call) : history p (ex.call c) = hear p (history p ex) c := by
  rw [history, Executor.call_log, List.foldl_append]
  rfl

/-- Commands that a child does not hear. -/
theorem history_of_advances {P : Moment × Call → Prop} (h : Executor.Advances P ex ex')
    (hP : ∀ e, P e → ∀ hist, hear p hist e.2 = hist) : history p ex' = history p ex := by
  obtain ⟨l, hl, hPl⟩ := h.log_eq
  have hdeaf : ∀ e ∈ l, ∀ hist, hear p hist e.2 = hist := fun e he => hP e (hPl e he).2.2
  rw [history, hl, List.foldl_append, ← history]
  generalize history p ex = hist
  clear hl hPl
  induction l generalizing hist with
  | nil => rfl
  | cons e l ih =>
      rw [List.foldl_cons, hdeaf e List.mem_cons_self]
      exact ih (fun e' he' => hdeaf e' (List.mem_cons_of_mem e he')) hist

theorem hear_of_not_concerns {i seed : ℕ} {c : Call} (h : ¬ Concerns i c) (hist : History) :
    hear (.backend (i + 1) seed) hist c = hist := by
  cases c with
  | spawnBackend slot cfg seed' =>
      refine if_neg fun heq => h ?_
      cases heq
      rfl
  | spawnClient => simp [hear]
  | send q m => exact if_neg fun heq => h ⟨seed, heq⟩
  | terminate | kill | admin | setGre => rfl

theorem history_elsewhere {i seed : ℕ} (h : Elsewhere i ex ex') :
    history (.backend (i + 1) seed) ex' = history (.backend (i + 1) seed) ex :=
  history_of_advances h fun _ he => hear_of_not_concerns he

end History

/-! ### Responders -/

/-- What a fault does to a responder that runs. -/
def effect : Option Fault → ℚ × ℚ
  | some (.slow _ factor) => (factor, 0)
  | some (.errors _ rate) => (1, rate)
  | _ => (1, 0)

section Responders

variable {Id : Type*} {exits : Proc → Moment} {i : ℕ} {v : Site Id}

/-- What the slot says about its responder. -/
def Describes (s : Slot Id) (k : Knobs) : Prop :=
  s.config = some k.config ∧ effect s.fault = (k.slowFactor, k.faultErrorRate)

theorem Describes.of_effect {s : Slot Id} {k : Knobs} (h : Describes s k) {fault : Option Fault}
    (hfault : effect fault = effect s.fault) : Describes { s with fault := fault } k :=
  ⟨h.1, hfault.trans h.2⟩

/-- A responder that obeys its messages does what the slot says. -/
def Obeys (i seed : ℕ) (v : Site Id) : Prop :=
  ∃ cfg ms, history (.backend (i + 1) seed) v.ex = some (.spawnBackend (i + 1) cfg seed, ms) ∧
    (∀ m ∈ ms, MessageAccepted m) ∧ Describes v.slot (ms.foldl Knobs.obey (.start cfg))

structure Tuned (i : ℕ) (v : Site Id) : Prop where
  unowned : v.slot.owner = none → v.slot.fault = none
  obeys : ∀ seed, v.slot.handle = some seed → Obeys i seed v

theorem tuned_cleared (ex : Executor) : Tuned i (⟨Slot.cleared, ex⟩ : Site Id) :=
  ⟨fun _ => rfl, fun _ h => nomatch h⟩

/-- Nothing is sent, and nothing changes that the responder knows of. -/
theorem Tuned.keep (h : Tuned i v) {s : Slot Id} {ex : Executor}
    (hhandle : s.handle = v.slot.handle) (hdescribes : ∀ k, Describes v.slot k → Describes s k)
    (howner : s.owner = none → s.fault = none)
    (hex : ∀ seed, history (.backend (i + 1) seed) ex = history (.backend (i + 1) seed) v.ex) :
    Tuned i ⟨s, ex⟩ := by
  refine ⟨howner, fun seed hseed => ?_⟩
  obtain ⟨cfg, ms, hhist, hms, hknobs⟩ := h.obeys seed (hhandle ▸ hseed)
  exact ⟨cfg, ms, (hex seed).trans hhist, hms, hdescribes _ hknobs⟩

/-- The responder is told of a change. -/
theorem Tuned.tell (h : Tuned i v) {s : Slot Id} {m : Message} (hm : MessageAccepted m)
    (hhandle : s.handle = v.slot.handle)
    (hdescribes : ∀ k, Describes v.slot k → Describes s (k.obey m))
    (howner : s.owner = none → s.fault = none) :
    Tuned i ⟨s, v.ex.call (.send (v.slot.proc i) m)⟩ := by
  refine ⟨howner, fun seed hseed => ?_⟩
  have hproc : v.slot.proc i = some (.backend (i + 1) seed) := by
    rw [Slot.proc, ← hhandle]
    exact congrArg (Option.map _) hseed
  obtain ⟨cfg, ms, hhist, hms, hknobs⟩ := h.obeys seed (hhandle ▸ hseed)
  refine ⟨cfg, ms ++ [m], ?_, ?_, ?_⟩
  · rw [history_call, hproc, hear, if_pos rfl, hhist]
    rfl
  · exact List.forall_mem_append.mpr ⟨hms, List.forall_mem_singleton.mpr hm⟩
  · rw [List.foldl_append]
    exact hdescribes _ hknobs

theorem tuned_spawn (cfg : BackendConfig) (hfault : v.slot.fault = none) :
    Tuned i (spawn i cfg v) := by
  refine ⟨fun _ => hfault, fun seed hseed => ?_⟩
  cases hseed
  refine ⟨cfg, [], (history_call _).trans (if_pos rfl), List.forall_mem_nil _, rfl, ?_⟩
  exact congrArg effect hfault

theorem Tuned.same (h : Tuned i v) {s : Slot Id} {ex : Executor}
    (howner : s.owner = v.slot.owner) (hhandle : s.handle = v.slot.handle)
    (hconfig : s.config = v.slot.config) (hfault : s.fault = v.slot.fault)
    (hex : ∀ seed, history (.backend (i + 1) seed) ex = history (.backend (i + 1) seed) v.ex) :
    Tuned i ⟨s, ex⟩ := by
  refine h.keep hhandle (fun k hk => ⟨hconfig.trans hk.1, ?_⟩) (fun hnone => ?_) hex
  · rw [hfault]
    exact hk.2
  · rw [hfault]
    exact h.unowned (howner.symm.trans hnone)

theorem Tuned.elsewhere (h : Tuned i v) {ex : Executor} (hex : Elsewhere i v.ex ex) :
    Tuned i ⟨v.slot, ex⟩ :=
  h.same rfl rfl rfl rfl fun _ => history_elsewhere hex

theorem Tuned.beginStop (h : Tuned i v) {now : ℚ} : Tuned i (beginStop exits now i v) := by
  refine h.same rfl rfl rfl rfl fun seed => ?_
  split
  · exact history_call _
  · rfl

theorem Tuned.drainFurther (h : Tuned i v) {now : ℚ} {idle : Bool} {w : Site Id}
    (hdrain : drainFurther exits now i idle v = some w) : Tuned i w := by
  have hlook : Tuned i ⟨{ v.slot with
      quietSince := quietAfter now idle v.slot.quietSince }, v.ex⟩ :=
    h.same rfl rfl rfl rfl fun _ => rfl
  unfold Slots.drainFurther at hdrain
  dsimp only at hdrain
  split at hdrain
  · cases hdrain
    exact hlook.beginStop
  · obtain ⟨since, -, rfl⟩ := Option.map_eq_some_iff.mp hdrain
    split
    · exact hlook.beginStop
    · exact hlook

theorem Tuned.stopFurther (h : Tuned i v) {now : ℚ} {up alive : Bool} {w : Site Id}
    (hstop : stopFurther now i up alive v = some w) : Tuned i w := by
  unfold Slots.stopFurther at hstop
  split at hstop
  · obtain ⟨since, -, rfl⟩ := Option.map_eq_some_iff.mp hstop
    split
    · exact h.same rfl rfl rfl rfl fun _ => history_call _
    · exact h
  · split at hstop
    · cases hstop
      exact h
    · cases hstop
      exact tuned_cleared _

theorem Tuned.advance (h : Tuned i v) {now : ℚ} {obs : Observation} {idle alive : Bool}
    {w : Site Id} (hadvance : advance exits now i obs idle alive v = some w) : Tuned i w := by
  unfold Slots.advance at hadvance
  dsimp only at hadvance
  split at hadvance
  · split at hadvance
    · cases hadvance
      exact h.same rfl rfl rfl rfl fun _ => rfl
    · cases hadvance
      exact h
  · split at hadvance
    · cases hadvance
      exact h
    · cases hadvance
      exact h.same rfl rfl rfl rfl fun _ => rfl
  · split at hadvance
    · cases hadvance
      exact h.same rfl rfl rfl rfl fun _ => rfl
    · cases hadvance
      exact h
  · split at hadvance
    · exact h.drainFurther hadvance
    · cases hadvance
      exact h
  · exact h.stopFurther hadvance
  · cases hadvance
    exact h
  · cases hadvance
    exact h

/-- A message and the fault that goes with it. -/
theorem Tuned.inject (h : Tuned i v) (howner : v.slot.owner ≠ none) {slowFactor errorRate : ℚ}
    {fault : Fault} (hfault : effect (some fault) = (slowFactor, errorRate))
    (hm : MessageAccepted (.fault slowFactor errorRate)) :
    Tuned i ⟨{ v.slot with fault := some fault },
      v.ex.call (.send (v.slot.proc i) (.fault slowFactor errorRate))⟩ :=
  h.tell hm rfl (fun _ hk => ⟨hk.1, hfault⟩) fun hno => absurd hno howner

variable [DecidableEq Id] {want : Dict Id (BackendNode Id)}

theorem Tuned.clearFault (h : Tuned i v) : Tuned i (clearFault i want v) := by
  unfold Slots.clearFault
  dsimp only
  split
  · exact h
  · next hfault =>
      have heffect : effect none = effect v.slot.fault := by
        rw [hfault]
        rfl
      split
      · exact tuned_spawn _ rfl
      · exact h.keep rfl (fun k hk => hk.of_effect heffect) (fun _ => rfl) fun _ => rfl
  · next hfault =>
      have heffect : effect none = effect v.slot.fault := by
        rw [hfault]
        rfl
      split
      · exact h.keep rfl (fun k hk => hk.of_effect heffect) (fun _ => rfl) fun _ => history_call _
      · exact h.keep rfl (fun k hk => hk.of_effect heffect) (fun _ => rfl) fun _ => rfl
  all_goals
    split
    · exact h.tell (m := .clear) trivial rfl (fun k hk => ⟨hk.1, rfl⟩) fun _ => rfl
    · next hhandle =>
        refine ⟨fun _ => rfl, fun seed hseed => absurd ?_ hhandle⟩
        rw [hseed]
        rfl

/-- The numbers of an action are accepted ones. -/
def KindAccepted : ActionKind → Prop
  | .slow factor => Fits 1 50 false factor
  | .errors rate => Fits 0 1 false rate
  | _ => True

theorem Tuned.perform (h : Tuned i v) (howner : v.slot.owner ≠ none) {now : ℚ}
    {kind : ActionKind} (hkind : KindAccepted kind) :
    Tuned i (perform exits now i want kind v) := by
  have hclear : Tuned i (Slots.clearFault i want v) := h.clearFault
  have hcleared : Cleared want i v (Slots.clearFault i want v) := clearFault_cleared
  have hnone : (Slots.clearFault i want v).slot.fault = none := hcleared.fault
  have howner' : (Slots.clearFault i want v).slot.owner ≠ none := hcleared.owner ▸ howner
  cases kind with
  | crash =>
      refine hclear.keep rfl (fun k hk => hk.of_effect ?_) (fun hno => absurd hno howner')
        fun seed => ?_
      · rw [hnone]
        rfl
      · split
        · exact history_call _
        · rfl
  | slow factor => exact hclear.inject howner' rfl ⟨hkind, by norm_num [Fits]⟩
  | errors rate => exact hclear.inject howner' rfl ⟨by norm_num [Fits], hkind⟩
  | partition =>
      refine hclear.keep rfl (fun k hk => hk.of_effect ?_) (fun hno => absurd hno howner')
        fun _ => history_call _
      rw [hnone]
      rfl
  | restart | clear => exact hclear
  | drain | undrain => exact h.same rfl rfl rfl rfl fun _ => history_call _

theorem Tuned.resetSlot (h : Tuned i v) : Tuned i (resetSlot exits i want v) := by
  have hclear : Tuned i (Slots.clearFault i want v) := h.clearFault
  unfold Slots.resetSlot
  split
  · exact h
  · dsimp only
    have hdrained : Tuned i (if (Slots.clearFault i want v).slot.manualDrain then
        undrain i (Slots.clearFault i want v) else Slots.clearFault i want v) := by
      split
      · exact hclear.same rfl rfl rfl rfl fun _ => history_call _
      · exact hclear
    generalize (if (Slots.clearFault i want v).slot.manualDrain then
      undrain i (Slots.clearFault i want v) else Slots.clearFault i want v) = w at hdrained
    split
    · have htick : Tuned i ⟨w.slot, w.ex.tick⟩ := hdrained.same rfl rfl rfl rfl fun _ => rfl
      exact htick.tell (m := .resetStats) trivial rfl (fun _ hk => hk) htick.unowned
    · exact hdrained.same rfl rfl rfl rfl fun _ => rfl

theorem Tuned.removal (h : Tuned i v) {now : ℚ} : Tuned i (removal exits now i want v) := by
  unfold Slots.removal
  split
  · exact h
  · split
    · have hmarked : Tuned i ⟨{ v.slot with removing := true, manualDrain := false }, v.ex.tick⟩ :=
        h.same rfl rfl rfl rfl fun _ => rfl
      dsimp only
      split
      · exact hmarked.same rfl rfl rfl rfl fun _ => history_call _
      · exact hmarked.beginStop
    · split
      · exact h.same rfl rfl rfl rfl fun _ => history_call _
      · exact h

theorem Tuned.configure (h : Tuned i v) {alive : Bool}
    (hwant : ∀ {cid b}, want.get? cid = some b → Accepted backendKind b.config) :
    Tuned i (configure i want alive v) := by
  unfold Slots.configure
  split
  · exact h
  · next b hb =>
      split
      · obtain ⟨cid, -, hget⟩ := Option.bind_eq_some_iff.mp hb
        exact h.tell (hwant hget) rfl (fun _ hk => ⟨rfl, hk.2⟩) h.unowned
      · exact h

theorem Tuned.progress (h : Tuned i v) {now : ℚ} {lb : Dict ℕ Observation}
    {latest : Proc → Option Stats} {w : Site Id}
    (hwant : ∀ {cid b}, want.get? cid = some b → Accepted backendKind b.config)
    (hprogress : progress exits now i want lb latest v = some w) : Tuned i w := by
  have htick : Tuned i ⟨v.slot, v.ex.tick⟩ := h.same rfl rfl rfl rfl fun _ => rfl
  unfold Slots.progress at hprogress
  dsimp only at hprogress
  split at hprogress
  · cases hprogress
    exact h
  · next howner =>
      split at hprogress
      · cases hprogress
        refine htick.keep rfl (fun k hk => hk.of_effect ?_) (fun hno => absurd hno howner)
          fun _ => rfl
        cases v.slot.fault <;> rfl
      · obtain ⟨w', hadvance, rfl⟩ := Option.map_eq_some_iff.mp hprogress
        exact (htick.advance hadvance).configure hwant

omit [DecidableEq Id] in
theorem Tuned.added (h : Tuned i v) (hlife : Lifecycle v.slot) {w : Site Id} (hadd : Added i v w) :
    Tuned i w := by
  obtain ⟨s, ex⟩ := w
  cases hadd with
  | kept hslot hex =>
      cases hslot
      exact h.elsewhere hex
  | taken cid cfg ex₁ hfree hbefore hslot hafter =>
      cases hslot
      have hfault : v.slot.fault = none := h.unowned (hlife.owner_iff.mpr hfree)
      exact (tuned_spawn (v := ⟨{ v.slot with owner := some cid }, ex₁⟩) cfg hfault).elsewhere
        hafter

omit [DecidableEq Id] in
/-- The last loop starts no responder. -/
theorem progress_handle {w : Site Id} (h : Path exits i .progress v w) :
    w.slot.handle = v.slot.handle ∨ w.slot.handle = none := by
  induction h with
  | refl => exact .inl rfl
  | tail _ hmove ih =>
      cases hmove with
      | freed => exact .inr rfl
      | tick | send | kill | terminate | exit | started | failed | recovered | looked | drained
      | configured => exact ih

theorem configure_config {b : BackendNode Id}
    (hnode : (configure i want true v).slot.owner.bind want.get? = some b)
    (hrunning : (configure i want true v).slot.phase.running = true)
    (hkept : (configure i want true v).slot.removing = false) :
    (configure i want true v).slot.config = some b.config := by
  have hframe : (configure i want true v).slot.owner = v.slot.owner ∧
      (configure i want true v).slot.phase = v.slot.phase ∧
      (configure i want true v).slot.removing = v.slot.removing := by
    unfold Slots.configure
    split
    · exact ⟨rfl, rfl, rfl⟩
    · split <;> exact ⟨rfl, rfl, rfl⟩
  obtain ⟨howner, hphase, hremoving⟩ := hframe
  rw [howner] at hnode
  rw [hphase] at hrunning
  rw [hremoving] at hkept
  unfold Slots.configure
  rw [hnode]
  dsimp only
  split
  · rfl
  · next hsame =>
      by_contra hne
      exact hsame ⟨rfl, hrunning, hkept, Ne.symm hne⟩

/-- A responder that runs after the last loop was found running in it, and has been told of
the configuration of its node. -/
theorem progress_configured {now : ℚ} {lb : Dict ℕ Observation} {latest : Proc → Option Stats}
    {w : Site Id} {b : BackendNode Id} (h : progress exits now i want lb latest v = some w)
    (hnode : w.slot.owner.bind want.get? = some b) (hrunning : w.slot.phase.running = true)
    (hkept : w.slot.removing = false) (halive : w.ex.alive exits (w.slot.proc i) = true) :
    w.slot.config = some b.config := by
  have hpath : Path exits i .progress v w := progress_path h
  have hfound : v.ex.alive exits (v.slot.proc i) = true := by
    have hproc : w.slot.proc i = v.slot.proc i := by
      rcases progress_handle hpath with hhandle | hhandle
      · rw [Slot.proc, Slot.proc, hhandle]
      · rw [Slot.proc, hhandle] at halive
        cases halive
    exact Executor.alive_antitone (Path.tends hpath).now_le (hproc ▸ halive)
  unfold Slots.progress at h
  dsimp only at h
  split at h
  · next howner =>
      cases h
      rw [howner] at hnode
      cases hnode
  · rw [hfound] at h
    split at h
    · cases h
      cases hrunning
    · obtain ⟨w', -, rfl⟩ := Option.map_eq_some_iff.mp h
      exact configure_config hnode hrunning hkept

end Responders

/-! ### Load generators -/

section Generators

variable {index seed : ℕ} {ex ex' : Executor}

/-- What a load generator that obeys its messages was told. -/
def toldBy : Call × List Message → Option Told
  | (.spawnClient _ cfg enabled _, ms) => some (ms.foldl obeyClient (cfg, enabled))
  | _ => none

theorem toldBy_append (start : Call) (ms : List Message) (m : Message) :
    toldBy (start, ms ++ [m]) = (toldBy (start, ms)).map fun told => obeyClient told m := by
  cases start with
  | spawnClient => simp [toldBy]
  | spawnBackend | send | terminate | kill | admin | setGre => rfl

theorem hear_bind_toldBy (h : History) (c : Call) :
    ClientConvergence.hear index seed (h.bind toldBy) c =
      (hear (.client index seed) h c).bind toldBy := by
  cases c with
  | spawnBackend => simp [hear, ClientConvergence.hear]
  | spawnClient i cfg enabled s =>
      by_cases hp : i = index ∧ s = seed
      · obtain ⟨rfl, rfl⟩ := hp
        simp [hear, ClientConvergence.hear, toldBy]
      · have hp' : ¬(index = i ∧ seed = s) := fun h => hp ⟨h.1.symm, h.2.symm⟩
        simp [hear, ClientConvergence.hear, hp, hp']
  | send q m =>
      by_cases hq : q = some (.client index seed)
      · have happend : (hear (.client index seed) h (.send q m)).bind toldBy =
            (h.bind toldBy).map fun told => obeyClient told m := by
          rw [hear, if_pos hq]
          cases h with
          | none => rfl
          | some h => exact toldBy_append h.1 h.2 m
        rw [happend]
        cases m with
        | clientConfig | load => exact if_pos hq
        | clear | fault | resetStats | backendConfig => exact Option.map_id'.symm
      · rw [hear, if_neg hq]
        cases m with
        | clientConfig | load => exact if_neg hq
        | clear | fault | resetStats | backendConfig => rfl
  | terminate | kill | admin | setGre => rfl

/-- The settings of a client are those it makes of its messages. -/
theorem settings_eq (index seed : ℕ) (ex : Executor) :
    ClientConvergence.settings index seed ex = (history (.client index seed) ex).bind toldBy := by
  unfold ClientConvergence.settings history
  induction ex.log using List.reverseRecOn with
  | nil => rfl
  | append_singleton l e ih =>
      rw [List.foldl_append, List.foldl_append, ih]
      exact hear_bind_toldBy _ e.2

/-- A message to a load generator has accepted numbers. -/
def ToClientAccepted : Call → Prop
  | .send (some (.client _ _)) m => MessageAccepted m
  | _ => True

theorem toClientAccepted_send {m : Message} (hm : MessageAccepted m) (q : Option Proc) :
    ToClientAccepted (.send q m) := by
  unfold ToClientAccepted
  split
  · next heq =>
      cases heq
      exact hm
  · trivial

theorem toClientAccepted_of_own {i : ℕ} {c : Call} (h : Own i c) : ToClientAccepted c := by
  unfold ToClientAccepted
  split
  · obtain ⟨_, heq⟩ := h _ rfl
    cases heq
  · trivial

/-- A start of this load generator, and accepted messages. -/
def Proper (index seed : ℕ) (h : History) : Prop :=
  ∀ start ms, h = some (start, ms) →
    (∃ cfg enabled, start = .spawnClient index cfg enabled seed) ∧ ∀ m ∈ ms, MessageAccepted m

theorem Proper.hear {h : History} (hh : Proper index seed h) {c : Call}
    (hc : ToClientAccepted c) : Proper index seed (hear (.client index seed) h c) := by
  cases c with
  | spawnBackend => exact hh
  | spawnClient i cfg enabled s =>
      unfold ControlChannel.hear
      dsimp only
      split
      · next heq =>
          rintro _ _ ⟨⟩
          cases heq
          exact ⟨⟨cfg, enabled, rfl⟩, List.forall_mem_nil _⟩
      · exact hh
  | send q m =>
      unfold ControlChannel.hear
      dsimp only
      split
      · next hq =>
          subst hq
          intro start ms heq
          obtain ⟨⟨start', ms'⟩, hsome, heq⟩ := Option.map_eq_some_iff.mp heq
          cases heq
          obtain ⟨hstart, hms⟩ := hh _ _ hsome
          exact ⟨hstart, List.forall_mem_append.mpr ⟨hms, List.forall_mem_singleton.mpr hc⟩⟩
      · exact hh
  | terminate | kill | admin | setGre => exact hh

theorem history_proper (hex : ∀ e ∈ ex.log, ToClientAccepted e.2) :
    Proper index seed (history (.client index seed) ex) := by
  refine EventRun.run_invariant_of (P := Proper index seed) (fun h e he hh => ?_) ?_ hex
  · exact hh.hear he
  · rintro _ _ ⟨⟩

/-- Commands among which load generators get accepted numbers only. -/
abbrev Talk : Executor → Executor → Prop := Executor.Advances fun e => ToClientAccepted e.2

theorem talk_of_tends {N : ℕ} (h : TendsSlots N ex ex') : Talk ex ex' := by
  refine h.mono fun e he => ?_
  obtain ⟨i, -, hown⟩ := he
  exact toClientAccepted_of_own hown

theorem accepted_of_talk (h : Talk ex ex') (hex : ∀ e ∈ ex.log, ToClientAccepted e.2) :
    ∀ e ∈ ex'.log, ToClientAccepted e.2 := by
  obtain ⟨l, hl, hnew⟩ := h.log_eq
  rw [hl, List.forall_mem_append]
  exact ⟨hex, fun e he => (hnew e he).2.2⟩

theorem settleClient_talk {exits : Proc → Moment} {cfg : ClientConfig}
    (hcfg : MessageAccepted (.clientConfig cfg)) (enabled : Bool) (c : ClientRec) (ex : Executor) :
    Talk ex (Reconciler.settleClient exits cfg enabled c ex).2 := by
  unfold Reconciler.settleClient
  split
  · have hconfig : Talk ex (if some cfg ≠ c.config then
        ex.tick.call (.send c.proc (.clientConfig cfg)) else ex.tick) := by
      split
      · exact Executor.Advances.refl.tick.call (toClientAccepted_send hcfg _)
      · exact Executor.Advances.refl.tick
    dsimp only
    generalize (if some cfg ≠ c.config then
      ex.tick.call (.send c.proc (.clientConfig cfg)) else ex.tick) = ex₁ at hconfig ⊢
    split
    · exact hconfig.call (toClientAccepted_send (m := .load enabled) trivial _)
    · exact hconfig
  · exact Executor.Advances.refl.tick.spawnClient trivial

variable {Id : Type*} {N : ℕ} {exits : Proc → Moment}

theorem resetClients_talk (l : List (Id × ClientRec)) (ex : Executor) :
    Talk ex (l.foldl (fun ex e =>
      if e.2.handle.isSome then ex.call (.send e.2.proc .resetStats) else ex) ex) := by
  induction l generalizing ex with
  | nil => exact .refl
  | cons e l ih =>
      rw [List.foldl_cons]
      refine .trans ?_ (ih _)
      split
      · exact Executor.Advances.refl.call (toClientAccepted_send (m := .resetStats) trivial _)
      · exact .refl

variable [LinearOrder Id]

theorem visitClient_talk {e : Id × ClientNode Id} (he : MessageAccepted (.clientConfig e.2.config))
    {r : Reconciler Id N} {used : Finset ℕ} :
    Talk r.ex (Reconciler.visitClient exits (r, used) e).1.ex := by
  unfold Reconciler.visitClient
  dsimp only
  split
  · exact settleClient_talk he _ _ _
  · split
    · exact .refl
    · exact settleClient_talk he _ _ _

theorem foldl_visitClient_talk {l : List (Id × ClientNode Id)}
    (hl : ∀ e ∈ l, MessageAccepted (.clientConfig e.2.config)) {r : Reconciler Id N}
    {used : Finset ℕ} : Talk r.ex (l.foldl (Reconciler.visitClient exits) (r, used)).1.ex := by
  induction l generalizing r used with
  | nil => exact .refl
  | cons e l ih =>
      obtain ⟨he, hl⟩ := List.forall_mem_cons.mp hl
      exact (visitClient_talk he).trans (ih hl)

theorem dropClients_talk (want : Dict Id (ClientNode Id)) (r : Reconciler Id N) :
    Talk r.ex (Reconciler.dropClients want r).ex := by
  unfold Reconciler.dropClients
  generalize r.clients.entries = l
  induction l generalizing r with
  | nil => exact .refl
  | cons e l ih =>
      rw [List.foldl_cons]
      refine .trans ?_ (ih _)
      split
      · exact Executor.Advances.refl.call trivial
      · exact .refl

end Generators

/-! ### Runs -/

section Runs

variable {Id : Type*} [LinearOrder Id] {N : ℕ} {exits : Proc → Moment} {r r' : Reconciler Id N}
  {now : ℚ} {lb : Dict ℕ Observation} {latest : Proc → Option Stats}

/-- Every node's settings are accepted ones. -/
structure DesiredAccepted (d : Desired Id) : Prop where
  distinct : (d.backends.map BackendNode.id).Nodup
  backends : ∀ b ∈ d.backends, Accepted backendKind b.config
  clients : ∀ c ∈ d.clients, MessageAccepted (.clientConfig c.config)

def EventAccepted : Event Id → Prop
  | .setDesired desired => DesiredAccepted desired
  | .action _ kind _ => KindAccepted kind
  | _ => True

structure Channel (r : Reconciler Id N) : Prop where
  desired : DesiredAccepted r.desired
  lifecycle : ∀ i, Lifecycle (r.slots i)
  tuned : ∀ i : Fin N, Tuned i ⟨r.slots i, r.ex⟩
  clients : ∀ e ∈ r.ex.log, ToClientAccepted e.2

theorem DesiredAccepted.backend (h : DesiredAccepted r.desired) {cid : Id} {b : BackendNode Id}
    (hb : r.desiredBackends.get? cid = some b) : Accepted backendKind b.config := by
  obtain ⟨b', hmem, heq⟩ := List.mem_map.mp (Dict.mem_of_get?_ofList hb)
  obtain ⟨-, rfl⟩ := Prod.mk.inj heq
  exact h.backends _ hmem

theorem DesiredAccepted.client (h : DesiredAccepted r.desired) {e : Id × ClientNode Id}
    (he : e ∈ r.desiredClients.entries) : MessageAccepted (.clientConfig e.2.config) := by
  obtain ⟨c, hmem, heq⟩ := List.mem_map.mp (Dict.mem_of_get?_ofList (Dict.get?_eq_some.mpr he))
  obtain ⟨-, heq⟩ := Prod.mk.inj heq
  rw [← heq]
  exact h.clients c hmem

theorem stepClients_talk (h : DesiredAccepted r.desired) :
    Talk r.ex (Reconciler.stepClients exits r).ex :=
  (dropClients_talk r.desiredClients r).trans (foldl_visitClient_talk fun _ he => h.client he)

theorem Channel.step (hr : Channel r) (h : r.step exits now lb latest = some r')
    (hlife : ∀ i, Lifecycle (r'.slots i)) : Channel r' := by
  refine ⟨?_, hlife, fun i => ?_, ?_⟩
  · rw [SteadyStep.step_desired h]
    exact hr.desired
  · obtain ⟨ex₁, ex₂, v₃, v₄, hview⟩ := step_view h i
    have hremoved : Tuned i (removal exits now i r.desiredBackends ⟨r.slots i, ex₁⟩) :=
      ((hr.tuned i).elsewhere hview.before).removal
    have hadded : Tuned i v₃ :=
      (hremoved.elsewhere hview.between).added (removal_lifecycle (hr.lifecycle i)) hview.added
    have hlast : Tuned i v₄ := hadded.progress (fun hb => hr.desired.backend hb) hview.progress
    rw [show r'.slots i = v₄.slot from hview.slot]
    exact hlast.elsewhere hview.after
  · exact accepted_of_talk ((stepClients_talk hr.desired).trans (talk_of_tends (step_tends h)))
      hr.clients

theorem Channel.reset (hr : Channel r) (h : r.reset exits = some r')
    (hlife : ∀ i, Lifecycle (r'.slots i)) : Channel r' := by
  refine ⟨?_, hlife, fun i => ?_, ?_⟩
  · obtain ⟨r₁, hloop, h⟩ := Option.bind_eq_some_iff.mp h
    cases h
    have hbooks := forSlots_books hloop
    rw [show r₁.desired = r.desired by rw [hbooks]]
    exact hr.desired
  · obtain ⟨ex₁, hbefore, hslot, hafter⟩ := reset_view h i
    rw [hslot]
    exact ((hr.tuned i).elsewhere hbefore).resetSlot.elsewhere hafter
  · obtain ⟨r₁, hloop, h⟩ := Option.bind_eq_some_iff.mp h
    cases h
    exact accepted_of_talk ((talk_of_tends (forSlots_tends resetSlot_visit hloop)).trans
      (resetClients_talk r₁.clients.entries r₁.ex)) hr.clients

theorem Channel.action (hr : Channel r) {target : Id} {kind : ActionKind}
    (hkind : KindAccepted kind) (h : r.action exits now target kind = .ok r')
    (hlife : ∀ i, Lifecycle (r'.slots i)) : Channel r' := by
  have htends : TendsSlots N r.ex r'.ex := action_tends h
  obtain ⟨k, howner, hkept, rfl⟩ := action_ok h
  have howned : (r.slots k).owner ≠ none := by simp [howner]
  refine ⟨hr.desired, hlife, fun i => ?_, accepted_of_talk (talk_of_tends htends) hr.clients⟩
  by_cases hi : i = k
  · subst hi
    rw [put_self]
    exact (hr.tuned i).perform howned hkind
  · have hik : (i : ℕ) ≠ k := fun he => hi (Fin.ext he)
    have hperform : Tends k r.ex
        (perform exits now k r.desiredBackends kind ⟨r.slots k, r.ex⟩).ex :=
      perform_tends (v := ⟨r.slots k, r.ex⟩) howned hkept
    rw [put_of_ne hi]
    exact (hr.tuned i).elsewhere (hperform.only.elsewhere hik)

theorem Channel.apply (hr : Channel r) {e : Event Id} (he : EventAccepted e)
    (h : apply exits r e = some r') : Channel r' := by
  have hrun : run exits r [e] = some r' := by
    rw [run, List.foldlM_cons, h]
    rfl
  have hlife : ∀ i, Lifecycle (r'.slots i) := run_lifecycle hr.lifecycle hrun
  have hturn : Channel { r with ex := r.ex.nextTurn } :=
    ⟨hr.desired, hr.lifecycle, fun i => (hr.tuned i).same rfl rfl rfl rfl fun _ => rfl, hr.clients⟩
  cases e with
  | setDesired desired =>
      cases h
      exact ⟨he, hturn.lifecycle, hturn.tuned, hturn.clients⟩
  | suppressLoad suppressed =>
      cases h
      exact ⟨hturn.desired, hturn.lifecycle, hturn.tuned, hturn.clients⟩
  | action target kind now =>
      rcases apply_action h with hok | rfl
      · exact hturn.action he hok hlife
      · exact hturn
  | reset now => exact hturn.reset h hlife
  | step now lb latest => exact hturn.step h hlife

omit [LinearOrder Id] in
theorem init_channel : Channel (Reconciler.init Id N) where
  desired := ⟨List.nodup_nil, List.forall_mem_nil _, List.forall_mem_nil _⟩
  lifecycle _ := cleared_lifecycle
  tuned _ := tuned_cleared _
  clients := List.forall_mem_nil _

theorem run_channel {es : List (Event Id)} (hes : ∀ e ∈ es, EventAccepted e)
    (h : run exits (Reconciler.init Id N) es = some r) : Channel r :=
  EventRun.Along.invariant (fun hr he happly => hr.apply he happly) init_channel
    (EventRun.along_of_forall hes _) h

/-- After a step, a responder that runs has been told of the configuration of its node. -/
theorem step_configured (hr : DesiredAccepted r.desired)
    (h : r.step exits now lb latest = some r') {i : Fin N} {b : BackendNode Id}
    (hb : b ∈ r.desired.backends) (howner : (r'.slots i).owner = some b.id)
    (hrunning : (r'.slots i).phase.running = true) (hkept : (r'.slots i).removing = false)
    (halive : r'.ex.alive exits ((r'.slots i).proc i) = true) :
    (r'.slots i).config = some b.config := by
  obtain ⟨ex₁, ex₂, v₃, v₄, hview⟩ := step_view h i
  have hslot : r'.slots i = v₄.slot := hview.slot
  have hnode : r.desiredBackends.get? b.id = some b := by
    refine Dict.get?_ofList ?_ (List.mem_map_of_mem hb)
    rw [List.map_map]
    exact hr.distinct
  rw [hslot] at howner hrunning hkept halive ⊢
  refine progress_configured hview.progress ?_ hrunning hkept
    (Executor.alive_antitone hview.after.now_le halive)
  rw [howner]
  exact hnode

end Runs

/-! ### What the bridge lets through -/

/-- An accepted action as the reconciler reads it. -/
def kindOf (a : ActionSchema.Action) : Option ActionKind :=
  match a.action with
  | .str "crash" => some .crash
  | .str "slow" => a.factor.join.map .slow
  | .str "errors" => a.rate.join.map .errors
  | .str "partition" => some .partition
  | .str "restart" => some .restart
  | .str "clear" => some .clear
  | .str "drain" => some .drain
  | .str "undrain" => some .undrain
  | _ => none

/-- The canvas and the actions come from accepted documents. -/
def Admitted : Event String → Prop
  | .setDesired desired =>
      ∃ doc canvas, Schema.validateDesired doc = .ok canvas ∧ canvas.desired = desired
  | .action target kind _ =>
      ∃ doc a, ActionSchema.validateAction doc = .ok a ∧ a.target = some target ∧
        kindOf a = some kind
  | _ => True

theorem fits_of_bounded {lo hi : ℤ} {has : Prop} {p : Option (Option ℚ)} {q : ℚ}
    (h : ActionSchema.Bounded lo hi has p) (hhas : has) (hq : p.join = some q) :
    Fits lo hi false q := by
  rcases h with ⟨-, q', rfl, hlo, hhi⟩ | ⟨hnot, -⟩
  · cases hq
    exact ⟨hlo, hhi, nofun⟩
  · exact absurd hhas hnot

theorem kindOf_accepted {a : ActionSchema.Action} (h : ActionSchema.Valid a) {kind : ActionKind}
    (hkind : kindOf a = some kind) : KindAccepted kind := by
  unfold kindOf at hkind
  split at hkind
  · cases hkind
    trivial
  · next haction =>
      obtain ⟨factor, hfactor, rfl⟩ := Option.map_eq_some_iff.mp hkind
      exact fits_of_bounded h.factor haction hfactor
  · next haction =>
      obtain ⟨rate, hrate, rfl⟩ := Option.map_eq_some_iff.mp hkind
      exact fits_of_bounded h.rate haction hrate
  all_goals
    cases hkind <;> trivial

theorem desiredAccepted_of_means {doc : Schema.Json} {reading : Reading}
    (h : Means doc reading) : DesiredAccepted reading.canvas.desired := by
  obtain ⟨top, nodes, load, h⟩ := h
  have hunique := (List.nodup_append.mp (List.nodup_cons.mp h.unique).2).2.1
  refine ⟨?_, List.forall_mem_map.mpr fun b hb => ?_, List.forall_mem_map.mpr fun c hc => ?_⟩
  · rwa [Reading.canvas, List.map_map]
  · obtain ⟨items, -, -, hnodes⟩ := h.backends
    obtain ⟨v, hv⟩ := exists_of_mem hnodes hb
    exact fun s hs => fits_of_reads hv hs
  · obtain ⟨items, -, -, hnodes⟩ := h.clients
    obtain ⟨v, hv⟩ := exists_of_mem hnodes hc
    exact ⟨fun s hs => fits_of_reads hv hs, h.ages c hc⟩

theorem Admitted.accepted {e : Event String} (h : Admitted e) : EventAccepted e := by
  cases e with
  | setDesired desired =>
      obtain ⟨doc, canvas, hdoc, rfl⟩ := h
      obtain ⟨reading, hmeans⟩ := means_of_validateDesired hdoc
      rw [validateDesired_of_means hmeans, Except.ok.injEq] at hdoc
      rw [← hdoc]
      exact desiredAccepted_of_means hmeans
  | action target kind now =>
      obtain ⟨doc, a, hdoc, -, hkind⟩ := h
      exact kindOf_accepted (ActionSchema.validateAction_valid hdoc) hkind
  | suppressLoad | reset | step => trivial

/-- The responder of a slot that has read what it was sent, whatever its traffic, has the
configuration and simulates the fault that the slot says; and after a step the configuration
of a responder that runs is that of its node on the canvas. -/
theorem responders_obey (exits : Proc → Moment) {N : ℕ} {es : List (Event String)}
    (hes : ∀ e ∈ es, Admitted e) {r : Reconciler String N}
    (hr : run exits (Reconciler.init String N) es = some r) (Conn : Type) [DecidableEq Conn] :
    (∀ (i : Fin N) seed, (r.slots i).handle = some seed → ∃ cfg ms,
      history (.backend (i + 1) seed) r.ex = some (.spawnBackend (i + 1) cfg seed, ms) ∧
        ∀ ses : List (ServiceServer.Event Conn), ses.filterMap commandOf = ms.map command →
          Describes (r.slots i)
            (knobs (ServiceServer.run (ServiceServer.init Conn (i + 1) cfg) ses))) ∧
      ∀ es₀ now lb latest, es = es₀ ++ [.step now lb latest] →
        ∀ (i : Fin N), ∀ b ∈ r.desired.backends, (r.slots i).owner = some b.id →
          (r.slots i).phase.running = true → (r.slots i).removing = false →
          r.ex.alive exits ((r.slots i).proc i) = true → (r.slots i).config = some b.config := by
  have haccepted : ∀ e ∈ es, EventAccepted e := fun e he => (hes e he).accepted
  refine ⟨fun i seed hhandle => ?_, ?_⟩
  · obtain ⟨cfg, ms, hhist, hms, hdescribes⟩ :=
      ((run_channel haccepted hr).tuned i).obeys seed hhandle
    refine ⟨cfg, ms, hhist, fun ses hses => ?_⟩
    rw [knobs_run hms hses]
    exact hdescribes
  · rintro es₀ now lb latest rfl i b hb howner hrunning hkept halive
    rw [run_concat] at hr
    obtain ⟨r₀, hr₀, happly⟩ := Option.bind_eq_some_iff.mp hr
    have hdesired : r.desired = r₀.desired :=
      SteadyStep.step_desired (r := { r₀ with ex := r₀.ex.nextTurn }) happly
    have hr₀' := (run_channel (List.forall_mem_append.mp haccepted).1 hr₀).desired
    rw [hdesired] at hb
    exact step_configured (r := { r₀ with ex := r₀.ex.nextTurn }) hr₀' happly hb howner hrunning
      hkept halive

/-- One backend with an edge from the load balancer, with this capacity. -/
def soloDoc (capacity : ℤ) : Schema.Json :=
  .obj [("schema", .str "l4mlb-live/1"),
    ("nodes", .obj [("lb", .str "lb"),
      ("backends", .arr [.obj [("id", .str "b1"), ("capacity", .num (.int capacity))]])]),
    ("edges", .arr [.obj [("from", .str "lb"), ("to", .str "b1")]])]

def soloCanvas (capacity : ℤ) : Schema.Canvas :=
  ⟨some "lb", ⟨[], [⟨"b1", { backendDefaults with capacity := capacity }, true⟩], false⟩⟩

/-- A backend that is slowed down, and whose capacity is halved on the canvas then. -/
def halved : List (Event String) :=
  [.setDesired (soloCanvas 8).desired, .step 1 .empty fun _ => none, .action "b1" (.slow 5) 2,
    .setDesired (soloCanvas 4).desired, .step 3 .empty fun _ => none]

theorem halved_admitted : ∀ e ∈ halved, Admitted e := by
  have hslow : ActionSchema.validateAction (.obj [("action", .str "slow"), ("target", .str "b1"),
      ("factor", .num (.int 5))]) = .ok ⟨.str "slow", some "b1", some (some 5), none⟩ := rfl
  simp only [halved, List.forall_mem_cons]
  exact ⟨⟨soloDoc 8, _, by decide +kernel, rfl⟩, trivial, ⟨_, _, hslow, rfl, rfl⟩,
    ⟨soloDoc 4, _, by decide +kernel, rfl⟩, trivial, List.forall_mem_nil _⟩

/-- The responder then serves four requests at a time, each five times as long. -/
theorem responders_obey_halved :
    ∃ r : Reconciler String 1, ∃ cfg ms,
      run (fun _ => toLex (9, 0)) (Reconciler.init String 1) halved = some r ∧
      history (.backend 1 2) r.ex = some (.spawnBackend 1 cfg 2, ms) ∧
      knobs (ServiceServer.run (ServiceServer.init ℕ 1 cfg)
        (ms.map fun m => .command (command m))) =
          ⟨{ backendDefaults with capacity := 4 }, 5, 0⟩ := by
  have hrun : (run (fun _ => toLex (9, 0)) (Reconciler.init String 1) halved).any (fun r =>
      (r.slots 0).handle = some 2 ∧ (r.slots 0).owner = some "b1" ∧
        (r.slots 0).phase.running = true ∧ (r.slots 0).removing = false ∧
        r.ex.alive (fun _ => toLex (9, 0)) ((r.slots 0).proc 0) = true ∧
        (r.slots 0).fault = some (.slow 2 5) ∧ r.desired = (soloCanvas 4).desired) = true := by
    decide +kernel
  obtain ⟨r, hr, h⟩ := (Option.any_eq_true _ _).mp hrun
  obtain ⟨hhandle, howner, hrunning, hkept, halive, hfault, hdesired⟩ := of_decide_eq_true h
  obtain ⟨hobey, hcanvas⟩ := responders_obey _ halved_admitted hr ℕ
  obtain ⟨cfg, ms, hhist, hdescribes⟩ := hobey 0 2 hhandle
  have hnode : ⟨"b1", { backendDefaults with capacity := 4 }, true⟩ ∈ r.desired.backends := by
    rw [hdesired]
    exact List.mem_singleton_self _
  have hconfig := hcanvas (halved.take 4) 3 .empty (fun _ => none) rfl 0 _ hnode howner hrunning
    hkept halive
  obtain ⟨hknown, heffect⟩ := hdescribes (ms.map fun m => .command (command m))
    (by simp [List.filterMap_map, Function.comp_def, commandOf])
  rw [hconfig, Option.some.injEq] at hknown
  rw [hfault] at heffect
  obtain ⟨hslow, herror⟩ := Prod.mk.inj heffect
  exact ⟨r, cfg, ms, hr, hhist, Knobs.ext hknown.symm hslow.symm herror.symm⟩

/-- The process of a client that has read what it was sent, whatever its traffic, has the
settings that its record says. -/
theorem clients_obey (exits : Proc → Moment) {N : ℕ} {es : List (Event String)}
    (hes : ∀ e ∈ es, Admitted e) {r : Reconciler String N}
    (hr : run exits (Reconciler.init String N) es = some r) {cid : String} {c : ClientRec}
    (hc : r.clients.get? cid = some c) :
    ∃ seed cfg enabled cfg₀ enabled₀ ms,
      c.handle = some seed ∧ c.config = some cfg ∧ c.enabled = some enabled ∧
        history (.client c.index seed) r.ex =
          some (.spawnClient c.index cfg₀ enabled₀ seed, ms) ∧
        (∀ startT ces, ces.filterMap clientCommandOf = ms.map command →
          Follows (cfg, enabled) (LoadClient.run
            (LoadClient.launch ⟨cfg₀.rps, cfg₀.timeoutMs, cfg₀.retries, !enabled₀⟩ startT) ces)) ∧
        ∀ pes, pes.filterMap poolCommandOf =
            (ms.filterMap configOf).map (configCommand clientKind) →
          Pools cfg (ConnPool.run (ConnPool.launch cfg₀.poolSize cfg₀.maxConnAgeMs) pes) := by
  have haccepted : ∀ e ∈ es, EventAccepted e := fun e he => (hes e he).accepted
  obtain ⟨seed, cfg, enabled, hhandle, hconfig, henabled, htold⟩ :=
    (ClientConvergence.run_staffed hr).accurate hc
  rw [settings_eq] at htold
  obtain ⟨⟨start, ms⟩, hhist, htold⟩ := Option.bind_eq_some_iff.mp htold
  obtain ⟨⟨cfg₀, enabled₀, rfl⟩, hms⟩ :=
    history_proper (run_channel haccepted hr).clients _ _ hhist
  have hfold : ms.foldl obeyClient (cfg₀, enabled₀) = (cfg, enabled) := Option.some.inj htold
  refine ⟨seed, cfg, enabled, cfg₀, enabled₀, ms, hhandle, hconfig, henabled, hhist,
    fun startT ces hces => ?_, fun pes hpes => ?_⟩
  · have hlaunch : Follows (cfg₀, enabled₀) (LoadClient.launch
        ⟨cfg₀.rps, cfg₀.timeoutMs, cfg₀.retries, !enabled₀⟩ startT) :=
      ⟨rfl, rfl, rfl, Bool.not_not _⟩
    rw [← hfold]
    exact hlaunch.run hms hces
  · have hlaunch : Pools (cfg₀, enabled₀).1 (ConnPool.launch cfg₀.poolSize cfg₀.maxConnAgeMs) :=
      ⟨rfl, rfl⟩
    have hpools := hlaunch.run hms hpes
    rw [hfold] at hpools
    exact hpools

/-- One client, started idle, whose load is switched on. -/
theorem clients_obey_busy :
    ∃ (r : Reconciler String 1) (c : ClientRec) (seed : ℕ) (cfg₀ : ClientConfig) (enabled₀ : Bool)
      (ms : List Message),
      r.clients.get? "c1" = some c ∧
      history (.client c.index seed) r.ex = some (.spawnClient c.index cfg₀ enabled₀ seed, ms) ∧
      Follows ({ Schema.clientDefaults with rps := 100 }, true) (LoadClient.run
        (LoadClient.launch ⟨cfg₀.rps, cfg₀.timeoutMs, cfg₀.retries, !enabled₀⟩ 0)
        (ms.map fun m => .command (command m))) := by
  have hes : ∀ e ∈ [Event.setDesired ClientConvergence.busyCanvas.desired, .suppressLoad true,
      .step 1 .empty fun _ => none, .suppressLoad false, .step 2 .empty fun _ => none],
      Admitted e := by
    simp only [List.forall_mem_cons]
    exact ⟨⟨ClientConvergence.busyDoc, _, by decide +kernel, rfl⟩, trivial, trivial, trivial,
      trivial, List.forall_mem_nil _⟩
  have hrun : (run (fun _ => toLex (9, 0)) (Reconciler.init String 1)
      [.setDesired ClientConvergence.busyCanvas.desired, .suppressLoad true,
        .step 1 .empty fun _ => none, .suppressLoad false, .step 2 .empty fun _ => none]).any
      (fun r => (r.clients.get? "c1").any fun c =>
        c.config = some { Schema.clientDefaults with rps := 100 } ∧ c.enabled = some true) =
      true := by decide +kernel
  obtain ⟨r, hr, h⟩ := (Option.any_eq_true _ _).mp hrun
  obtain ⟨c, hc, h⟩ := (Option.any_eq_true _ _).mp h
  obtain ⟨hconfig, henabled⟩ := of_decide_eq_true h
  obtain ⟨seed, cfg, enabled, cfg₀, enabled₀, ms, -, hcfg, hen, hhist, hfollows, -⟩ :=
    clients_obey _ hes hr hc
  cases hconfig.symm.trans hcfg
  cases henabled.symm.trans hen
  refine ⟨r, c, seed, cfg₀, enabled₀, ms, hc, hhist, hfollows 0 _ ?_⟩
  simp [List.filterMap_map, Function.comp_def, clientCommandOf]

end MaglevLb.ControlChannel
