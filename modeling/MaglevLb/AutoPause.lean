import MaglevLb.BridgeServer
import MaglevLb.ClientConvergence

/-!
# Nobody watches, nobody sends

A tick suppresses the load when no browser has had the stream open for ten seconds. What follows
is the path from there to the load clients: what the publisher knows about its streams, the flag
of the reconciler, and what the step of the same tick tells every client.
-/
namespace MaglevLb.AutoPause

open Children OrderedDict Slots Reconcile SlotViews SlotLifecycle StillStep SteadyStep
open ClientConvergence ControlChannel HttpApi BridgeServer

/-! ### The canvas of a reconciler -/

section Canvas

variable {Id : Type*} [LinearOrder Id] {N : ℕ} {exits : Proc → Moment} {r r' : Reconciler Id N}

theorem apply_desired {e : Reconcile.Event Id} (h : apply exits r e = some r') :
    r'.desired = r.desired ∨ e = .setDesired r'.desired := by
  cases e with
  | setDesired desired =>
      cases h
      exact .inr rfl
  | suppressLoad =>
      cases h
      exact .inl rfl
  | action target kind now =>
      rcases apply_action h with hok | rfl
      · obtain ⟨k, -, -, rfl⟩ := action_ok hok
        exact .inl rfl
      · exact .inl rfl
  | reset now =>
      obtain ⟨r₁, hloop, h⟩ := Option.bind_eq_some_iff.mp h
      cases h
      have hbooks := forSlots_books hloop
      exact .inl (show r₁.desired = r.desired by rw [hbooks])
  | step now lb latest =>
      exact .inl (SteadyStep.step_desired (r := { r with ex := r.ex.nextTurn }) h)

/-- A canvas has at most four clients, with distinct ids. -/
def FewClients (d : Desired Id) : Prop :=
  d.clients.length ≤ maxClientSlots ∧ (d.clients.map ClientNode.id).Nodup

end Canvas

theorem run_fewClients {N : ℕ} {exits : Proc → Moment} {es : List (Reconcile.Event String)}
    (hes : ∀ e ∈ es, Admitted e) {r : Reconciler String N}
    (h : Reconcile.run exits (.init String N) es = some r) : FewClients r.desired := by
  have hinit : FewClients (Reconciler.init String N).desired := ⟨Nat.zero_le _, List.nodup_nil⟩
  refine EventRun.Along.invariant (P := fun r : Reconciler String N => FewClients r.desired)
    (C := fun _ e => Admitted e) (fun hr he happly => ?_) hinit (EventRun.along_of_forall hes _) h
  rcases apply_desired happly with hsame | rfl
  · rw [hsame]
    exact hr
  · obtain ⟨doc, canvas, hdoc, hdesired⟩ := he
    rw [← hdesired]
    exact Schema.validateDesired_clients hdoc

/-! ### What a step tells the clients -/

section Told

variable {Id : Type*} [LinearOrder Id] {N : ℕ} {exits : Proc → Moment} {r r' : Reconciler Id N}
  {now : ℚ} {lb : Dict ℕ Observation} {latest : Proc → Option Stats}

/-- After a step every client has been told what the canvas and the flag say. -/
theorem step_told (hr : Staffed r) (hfew : FewClients r.desired)
    (h : r.step exits now lb latest = some r') (hstaffed : Staffed r') {cid : Id} {c : ClientRec}
    (hc : r'.clients.get? cid = some c) :
    ∃ node ∈ r.desired.clients, node.id = cid ∧ ∃ seed, c.handle = some seed ∧
      settings c.index seed r'.ex = some (node.config, loadOn r node) := by
  have hentries : r.desiredClients.entries = r.desired.clients.map fun c => (c.id, c) := by
    refine Dict.ofList_entries ?_
    rw [List.map_map]
    exact hfew.2
  have hcard : r.desiredClients.entries.length ≤ maxClientSlots := by
    rw [hentries, List.length_map]
    exact hfew.1
  obtain ⟨hkeys, hruns⟩ := stepClients_runs hr hcard
    (rfl : Reconciler.stepClients exits r = Reconciler.stepClients exits r)
  have hclients : r'.clients = (Reconciler.stepClients exits r).clients := by rw [step_books h]
  have hmem : cid ∈ r.desiredClients.entries.map Prod.fst := by
    rw [← hkeys, ← hclients, hc]
    exact Option.some_ne_none c
  obtain ⟨e, he, rfl⟩ := List.mem_map.mp hmem
  obtain ⟨d, seed, hd, hhandle, hconfig, henabled, -⟩ := hruns e he
  rw [← hclients, hc] at hd
  cases hd
  rw [hentries] at he
  obtain ⟨node, hnode, rfl⟩ := List.mem_map.mp he
  obtain ⟨seed', cfg, enabled, hhandle', hconfig', henabled', htold⟩ := hstaffed.accurate hc
  cases hhandle.symm.trans hhandle'
  cases hconfig.symm.trans hconfig'
  cases henabled.symm.trans henabled'
  refine ⟨node, hnode, rfl, seed, hhandle, ?_⟩
  rw [htold, ClientWork.loadOn_eq stepClients_work]

theorem step_suppressed (h : r.step exits now lb latest = some r') :
    r'.loadSuppressed = r.loadSuppressed := by
  have hwork : ClientWork r (Reconciler.stepClients exits r) := stepClients_work
  rw [step_books h, hwork.books]

end Told

/-! ### Ticks -/

section Ticks

variable {N : ℕ} {a : Access N} {exits : Proc → Moment} {autoPause : Bool} {s s' : Server N}

theorem suppressLoad_flag {b b' : Bridge N} {suppress : Bool}
    (h : b.suppressLoad exits suppress = some b') :
    b'.r.loadSuppressed = suppress ∧ b'.r.desired = b.r.desired := by
  unfold Bridge.suppressLoad at h
  split at h
  · next hsame =>
      cases h
      exact ⟨hsame.symm, rfl⟩
  · obtain ⟨r, hr, rfl⟩ := Option.map_eq_some_iff.mp h
    cases hr
    exact ⟨rfl, rfl⟩

theorem next_recorded {start : ℚ} {e : BridgeServer.Event} (hsound : Streams.Sound s.streams)
    (h : Streams.Recorded start s.streams) (hn : next a exits autoPause s e = some s') :
    Streams.Sound s'.streams ∧ Streams.Recorded start s'.streams := by
  rcases next_streams hn with hsame | ⟨se, hse⟩
  · rw [hsame]
    exact ⟨hsound, h⟩
  · exact ⟨Streams.next_sound hsound hse, Streams.next_recorded hsound h hse⟩

theorem run_recorded {start : ℚ} {es : List BridgeServer.Event}
    (hrun : BridgeServer.run a exits autoPause (.init N start) es = some s) :
    Streams.Recorded start s.streams :=
  (EventRun.foldlM_invariant
    (P := fun s => Streams.Sound s.streams ∧ Streams.Recorded start s.streams)
    (fun h hn => next_recorded h.1 h.2 hn)
    ⟨Streams.init_sound _ _, Streams.init_recorded _ _⟩ hrun).2

/-- Over every run of the server with auto-pause, each tick suppresses the load if and only if no
stream was open at any time in the last ten seconds (and the server is older than that); and the
same tick brings every load client in line: it has been told to send exactly if the canvas has
the load on, the client is connected and the load is not suppressed. -/
theorem unwatched_load_paused (a : Access N) (exits : Proc → Moment) (start : ℚ)
    (es : List BridgeServer.Event) (now : ℚ) (latest : Proc → Option Stats)
    (loadOn : Proc → Bool) :
    ∃ s s', BridgeServer.run a exits true (.init N start) es = some s ∧
      next a exits true s (.tick now latest loadOn) = some s' ∧
      (s'.bridge.r.loadSuppressed = true ↔ start < s.streams.clock - autoPauseAfterS ∧
        ∀ u, s.streams.clock - autoPauseAfterS ≤ u → u ≤ s.streams.clock →
          ¬ Streams.WatchedAt s.streams.pub.counts u) ∧
      ∀ cid c, s'.bridge.r.clients.get? cid = some c →
        ∃ node ∈ s.bridge.r.desired.clients, node.id = cid ∧ ∃ seed, c.handle = some seed ∧
          settings c.index seed s'.bridge.r.ex = some (node.config,
            s.bridge.r.desired.loadEnabled && node.connected && !s'.bridge.r.loadSuppressed) := by
  obtain ⟨s, hs, hsound⟩ : ∃ s, BridgeServer.run a exits true (.init N start) es = some s ∧
      BridgeServer.Sound exits s := BridgeServer.run_sound (BridgeServer.init_sound N start) es
  obtain ⟨s', hs', hsound'⟩ : ∃ s', next a exits true s (.tick now latest loadOn) = some s' ∧
      BridgeServer.Sound exits s' := BridgeServer.next_sound hsound _
  obtain ⟨b, b', hb, hb', rfl⟩ := tick_eq hs'
  obtain ⟨hflag, hdesired⟩ := suppressLoad_flag hb
  obtain ⟨b₀, hb₀, hproper⟩ := hsound.bridge.suppressLoad (s.unwatched true)
  cases hb.symm.trans hb₀
  obtain ⟨r', hstep, rfl⟩ := Option.map_eq_some_iff.mp hb'
  have hstaffed : Staffed b.r := run_staffed hproper.reached
  have hfew : FewClients b.r.desired := run_fewClients hproper.admitted hproper.reached
  have hkept : r'.loadSuppressed = b.r.loadSuppressed :=
    step_suppressed (r := { b.r with ex := b.r.ex.nextTurn }) hstep
  refine ⟨s, _, hs, hs', ?_, fun cid c hc => ?_⟩
  · dsimp only [Bridge.record]
    rw [hkept, hflag, ← (run_recorded hs).idle_iff (by decide)]
    simp [Server.unwatched]
  · have htold := step_told (r := { b.r with ex := b.r.ex.nextTurn })
      (hstaffed.of_subset id rfl fun _ _ => rfl) hfew hstep (run_staffed hsound'.bridge.reached) hc
    rw [← hdesired]
    dsimp only [Bridge.record]
    rw [hkept]
    exact htold

end Ticks

end MaglevLb.AutoPause
