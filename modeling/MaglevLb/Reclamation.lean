import MaglevLb.EventRun
import MaglevLb.Ownership
import MaglevLb.TableGenerator

/-!
# Single-reader reclamation

The writer thread builds a snapshot, exchanges it into `active`, stores the
generation and then queues the old pointer; the datapath thread loads `active`
inside a packet and frees the queue only between packets. A pointer is the
number of an allocation. The steps of the two threads interleave freely; each
step is one access to shared state.
-/
namespace MaglevLb.Reclamation
open Maglev BackendManager TableGenerator Ownership

/-- Where the writer stands in `table_generator_rebuild_and_install`. -/
inductive Writer where
  | idle
  | built (newSnap : ℕ) (newGeneration : UInt64)
  | swapped (old : Option ℕ) (newGeneration : UInt64)
  | stored (old : Option ℕ)
deriving DecidableEq, Repr

/-- Where the datapath thread stands in its event loop. -/
inductive Reader where
  | between
  | received
  | holding (snap : Option ℕ)
  | reclaiming (toFree : List ℕ)
deriving DecidableEq, Repr

structure World where
  m : TableSize
  heap : List RoutingSnapshot
  active : Option ℕ
  generation : UInt64
  retired : RetiredList ℕ
  freed : List ℕ
  leaked : List ℕ
  writer : Writer
  reader : Reader

def World.init (m : TableSize) : World := ⟨m, [], none, 0, .empty, [], [], .idle, .between⟩

inductive Action where
  | build (bm : Manager) (createOk : Bool)
  | exchange
  | storeGeneration
  | push (growOk : Bool)
  | receive
  | load
  | dereference
  | endPacket
  | detach
  | free
  | endReclaim

/-- One step, `none` where the thread is not at that point. -/
def step (H : Hashes) (w : World) : Action → Option World
  | .build bm createOk =>
      match w.writer with
      | .idle =>
          match buildSnapshot H bm w.m createOk (w.generation + 1) with
          | none => some w
          | some newSnap =>
              some { w with
                heap := w.heap ++ [newSnap]
                writer := .built w.heap.length (w.generation + 1) }
      | _ => none
  | .exchange =>
      match w.writer with
      | .built newSnap newGeneration =>
          some { w with active := some newSnap, writer := .swapped w.active newGeneration }
      | _ => none
  | .storeGeneration =>
      match w.writer with
      | .swapped old newGeneration =>
          some { w with generation := newGeneration, writer := .stored old }
      | _ => none
  | .push growOk =>
      match w.writer with
      | .stored none => some { w with writer := .idle }
      | .stored (some old) =>
          let r := w.retired.push growOk old
          some { w with retired := r.1, leaked := w.leaked ++ r.2.toList, writer := .idle }
      | _ => none
  | .receive =>
      match w.reader with
      | .between => some { w with reader := .received }
      | _ => none
  | .load =>
      match w.reader with
      | .received => some { w with reader := .holding w.active }
      | _ => none
  | .dereference =>
      match w.reader with
      | .holding (some _) => some w
      | _ => none
  | .endPacket =>
      match w.reader with
      | .received => some { w with reader := .between }
      | .holding _ => some { w with reader := .between }
      | _ => none
  | .detach =>
      match w.reader with
      | .between => some { w with retired := .empty, reader := .reclaiming w.retired.items }
      | _ => none
  | .free =>
      match w.reader with
      | .reclaiming (p :: toFree) =>
          some { w with freed := w.freed ++ [p], reader := .reclaiming toFree }
      | _ => none
  | .endReclaim =>
      match w.reader with
      | .reclaiming [] => some { w with reader := .between }
      | _ => none

/-- An interleaving of the two threads. -/
def interleave (H : Hashes) (w : World) (actions : List Action) : Option World :=
  actions.foldlM (step H) w

/-- The states of a snapshot. A snapshot taken off the retired list by a running
reclaim still counts as retired until it is freed. -/
inductive Place where
  | fresh
  | active
  | swappedOut
  | retired
  | freed
  | leaked
deriving DecidableEq, Repr

instance : Fintype Place where
  elems := {.fresh, .active, .swappedOut, .retired, .freed, .leaked}
  complete := by
    intro p
    cases p <;> decide

def Writer.fresh : Writer → List ℕ
  | .built newSnap _ => [newSnap]
  | _ => []

def Writer.swappedOut : Writer → List ℕ
  | .swapped old _ => old.toList
  | .stored old => old.toList
  | _ => []

def Reader.toFree : Reader → List ℕ
  | .reclaiming toFree => toFree
  | _ => []

/-- The snapshots in each state. -/
def World.snapshots (w : World) : Place → List ℕ
  | .fresh => w.writer.fresh
  | .active => w.active.toList
  | .swappedOut => w.writer.swappedOut
  | .retired => w.retired.items ++ w.reader.toFree
  | .freed => w.freed
  | .leaked => w.leaked

/-- Every snapshot is in one state, and the one the reader holds is not freed. -/
structure World.Sound (w : World) : Prop where
  counted : ∀ p, census w.snapshots p = if p < w.heap.length then 1 else 0
  held : ∀ p, w.reader = .holding (some p) → p ∉ w.freed

theorem World.Sound.census_le {w : World} (h : w.Sound) (p : ℕ) : census w.snapshots p ≤ 1 := by
  rw [h.counted p]
  split <;> omega

theorem init_sound (m : TableSize) : (World.init m).Sound := by
  constructor
  · intro p
    rfl
  · intro p hp
    cases hp

theorem census_snapshots (w : World) (p : ℕ) :
    census w.snapshots p = w.writer.fresh.count p + (w.active.toList.count p +
      (w.writer.swappedOut.count p + (w.retired.items.count p + w.reader.toFree.count p +
        (w.freed.count p + w.leaked.count p)))) := by
  have hsum : census w.snapshots p = (w.snapshots .fresh).count p +
      ((w.snapshots .active).count p + ((w.snapshots .swappedOut).count p +
        ((w.snapshots .retired).count p + ((w.snapshots .freed).count p +
          (w.snapshots .leaked).count p)))) := rfl
  rw [hsum]
  simp only [World.snapshots, List.count_append]

/-- A step that only moves snapshots between states, and not into the freed ones
while the reader holds a pointer, keeps the world sound. -/
theorem World.Sound.of_census {w w' : World} (h : w.Sound) (hheap : w'.heap = w.heap)
    (hcensus : ∀ p, census w'.snapshots p = census w.snapshots p)
    (hheld : ∀ p, w'.reader = .holding (some p) → p ∉ w'.freed) : w'.Sound := by
  constructor
  · intro p
    rw [hcensus, hheap]
    exact h.counted p
  · exact hheld

theorem build_sound {H : Hashes} {w w' : World} (h : w.Sound) {bm : Manager} {createOk : Bool}
    (hs : step H w (.build bm createOk) = some w') : w'.Sound := by
  simp only [step] at hs
  split at hs
  · next hw =>
      split at hs
      · cases hs
        exact h
      · next newSnap hb =>
          cases hs
          constructor
          · intro p
            have hp := h.counted p
            rw [census_snapshots, hw] at hp
            rw [census_snapshots]
            simp only [Writer.fresh, Writer.swappedOut, List.count_nil, List.count_cons,
              List.length_append, List.length_singleton, beq_iff_eq] at hp ⊢
            split_ifs at hp ⊢ <;> omega
          · exact h.held
  · cases hs

theorem exchange_sound {H : Hashes} {w w' : World} (h : w.Sound)
    (hs : step H w .exchange = some w') : w'.Sound := by
  simp only [step] at hs
  split at hs
  · next newSnap newGeneration hw =>
      cases hs
      refine h.of_census rfl (fun p => ?_) h.held
      rw [census_snapshots, census_snapshots, hw]
      simp only [Writer.fresh, Writer.swappedOut, Option.toList, List.count_nil]
      omega
  · cases hs

theorem storeGeneration_sound {H : Hashes} {w w' : World} (h : w.Sound)
    (hs : step H w .storeGeneration = some w') : w'.Sound := by
  simp only [step] at hs
  split at hs
  · next old newGeneration hw =>
      cases hs
      refine h.of_census rfl (fun p => ?_) h.held
      rw [census_snapshots, census_snapshots, hw]
      rfl
  · cases hs

/-- The old pointer is queued, or leaked when the queue cannot grow. -/
theorem push_sound {H : Hashes} {w w' : World} (h : w.Sound) {growOk : Bool}
    (hs : step H w (.push growOk) = some w') : w'.Sound := by
  simp only [step] at hs
  split at hs
  · next hw =>
      cases hs
      refine h.of_census rfl (fun p => ?_) h.held
      rw [census_snapshots, census_snapshots, hw]
      rfl
  · next old hw =>
      cases hs
      refine h.of_census rfl (fun p => ?_) h.held
      rw [census_snapshots, census_snapshots, hw]
      by_cases hroom : (w.retired.grow growOk).items.length < (w.retired.grow growOk).cap
      · obtain ⟨hi, -, hl⟩ := RetiredList.push_of_room hroom old
        rw [hi, hl]
        simp only [Writer.fresh, Writer.swappedOut, Option.toList, List.count_nil,
          List.count_append, List.append_nil]
        omega
      · obtain ⟨hi, -, hl⟩ := RetiredList.push_of_full hroom old
        rw [hi, hl]
        simp only [Writer.fresh, Writer.swappedOut, Option.toList, List.count_nil,
          List.count_append]
        omega
  · cases hs

/-- The active snapshot is not freed, so the reader may take it. -/
theorem load_sound {H : Hashes} {w w' : World} (h : w.Sound)
    (hs : step H w .load = some w') : w'.Sound := by
  simp only [step] at hs
  split at hs
  · next hr =>
      cases hs
      refine h.of_census rfl (fun p => ?_) ?_
      · rw [census_snapshots, census_snapshots, hr]
        rfl
      · intro p hp hfreed
        have hactive : p ∈ w.snapshots .active := by
          rw [World.snapshots, Option.mem_toList]
          exact Reader.holding.inj hp
        have hplace : Place.active = Place.freed := eq_of_mem (h.census_le p) hactive hfreed
        cases hplace
  · cases hs

/-- Only a reader between packets frees, and then it holds no snapshot. -/
theorem reclaim_sound {H : Hashes} {w w' : World} (h : w.Sound) {a : Action}
    (ha : a = .detach ∨ a = .free ∨ a = .endReclaim) (hs : step H w a = some w') :
    w'.Sound := by
  rcases ha with rfl | rfl | rfl <;> simp only [step] at hs <;> split at hs
  · next hr =>
      cases hs
      refine h.of_census rfl (fun p => ?_) (fun p hp => by cases hp)
      rw [census_snapshots, census_snapshots, hr]
      simp only [Reader.toFree, RetiredList.empty, List.count_nil]
      omega
  · cases hs
  · next p toFree hr =>
      cases hs
      refine h.of_census rfl (fun q => ?_) (fun q hq => by cases hq)
      rw [census_snapshots, census_snapshots, hr]
      simp only [Reader.toFree, List.count_cons, List.count_append, List.count_nil]
      omega
  · cases hs
  · next hr =>
      cases hs
      refine h.of_census rfl (fun p => ?_) (fun p hp => by cases hp)
      rw [census_snapshots, census_snapshots, hr]
      rfl
  · cases hs

/-- The rest of a packet moves no snapshot. -/
theorem packet_sound {H : Hashes} {w w' : World} (h : w.Sound) {a : Action}
    (ha : a = .receive ∨ a = .dereference ∨ a = .endPacket) (hs : step H w a = some w') :
    w'.Sound := by
  have hmove : ∀ r, w.reader.toFree = [] → (r = .received ∨ r = .between) →
      World.Sound { w with reader := r } := by
    intro r hnil hr
    refine h.of_census rfl (fun p => ?_) (fun p hp => ?_)
    · rw [census_snapshots, census_snapshots, hnil]
      rcases hr with rfl | rfl <;> rfl
    · rcases hr with rfl | rfl <;> cases hp
  rcases ha with rfl | rfl | rfl <;> simp only [step] at hs <;> split at hs
  · next hr =>
      cases hs
      exact hmove _ (by rw [hr]; rfl) (Or.inl rfl)
  · cases hs
  · cases hs
    exact h
  · cases hs
  · next hr =>
      cases hs
      exact hmove _ (by rw [hr]; rfl) (Or.inr rfl)
  · next hr =>
      cases hs
      exact hmove _ (by rw [hr]; rfl) (Or.inr rfl)
  · cases hs

theorem step_sound {H : Hashes} {w w' : World} (h : w.Sound) {a : Action}
    (hs : step H w a = some w') : w'.Sound := by
  cases a with
  | build bm createOk => exact build_sound h hs
  | exchange => exact exchange_sound h hs
  | storeGeneration => exact storeGeneration_sound h hs
  | push growOk => exact push_sound h hs
  | receive => exact packet_sound h (Or.inl rfl) hs
  | load => exact load_sound h hs
  | dereference => exact packet_sound h (Or.inr (Or.inl rfl)) hs
  | endPacket => exact packet_sound h (Or.inr (Or.inr rfl)) hs
  | detach => exact reclaim_sound h (Or.inl rfl) hs
  | free => exact reclaim_sound h (Or.inr (Or.inl rfl)) hs
  | endReclaim => exact reclaim_sound h (Or.inr (Or.inr rfl)) hs

theorem interleave_sound {H : Hashes} {w w' : World} (h : w.Sound) {actions : List Action}
    (hs : interleave H w actions = some w') : w'.Sound :=
  EventRun.foldlM_invariant (fun h hs => step_sound h hs) h hs

/-- In every interleaving every snapshot is in exactly one state: built and still
private to the writer, active, swapped out and not yet queued, retired, freed or
leaked. None is freed twice, the active one is not retired, the datapath never
holds a freed one, and a failed build changes nothing. -/
theorem reclamation_safe (H : Hashes) (m : TableSize) (actions : List Action) (w : World)
    (hrun : interleave H (World.init m) actions = some w) :
    (∀ p < w.heap.length, ∃! place, p ∈ w.snapshots place) ∧
    w.freed.Nodup ∧
    (∀ p, w.active = some p → p ∉ w.retired.items ∧ p ∉ w.reader.toFree) ∧
    (∀ p, w.reader = .holding (some p) → p ∉ w.freed) ∧
    (∀ bm w', step H w (.build bm false) = some w' →
      w'.active = w.active ∧ w'.generation = w.generation ∧ w'.retired = w.retired) := by
  have h := interleave_sound (init_sound m) hrun
  refine ⟨?_, nodup_of_census h.census_le .freed, ?_, h.held, ?_⟩
  · intro p hp
    apply existsUnique_of_census
    rw [h.counted p, if_pos hp]
  · intro p hp
    rw [← not_or]
    intro hmem
    have hactive : p ∈ w.snapshots .active := Option.mem_toList.mpr hp
    have hretired : p ∈ w.snapshots .retired := List.mem_append.mpr hmem
    have hplace : Place.active = Place.retired := eq_of_mem (h.census_le p) hactive hretired
    cases hplace
  · intro bm w' hs
    simp only [step, buildSnapshot, routingSnapshotCreate] at hs
    split at hs
    · cases hs
      exact ⟨rfl, rfl, rfl⟩
    · cases hs

/-- The datapath holds snapshot 0 while the writer swaps in snapshot 1, a reclaim
having run in between; what it holds is not freed. -/
theorem reclamation_safe_sample :
    let H : Hashes := ⟨fun _ => 0, fun _ => 0, fun _ => 0⟩
    let actions : List Action := [.build backendManagerCreate true, .exchange, .storeGeneration,
      .push true, .detach, .endReclaim, .receive, .load, .build backendManagerCreate true,
      .exchange]
    ∃ w, interleave H (World.init ⟨3, Nat.prime_three⟩) actions = some w ∧
      w.active = some 1 ∧ w.reader = .holding (some 0) ∧ 0 ∉ w.freed := by
  intro H actions
  have hend : (interleave H (World.init ⟨3, Nat.prime_three⟩) actions).map
      (fun w => (w.active, w.reader)) = some (some 1, .holding (some 0)) := by decide +kernel
  obtain ⟨w, hw, hstate⟩ := Option.map_eq_some_iff.mp hend
  obtain ⟨hactive, hreader⟩ := Prod.mk.inj hstate
  exact ⟨w, hw, hactive, hreader, (reclamation_safe H _ actions w hw).2.2.2.1 0 hreader⟩

/-- Between the return of the build and the exchange the new snapshot is in none
of the other five states. -/
theorem built_snapshot_private :
    ∃ w, interleave ⟨fun _ => 0, fun _ => 0, fun _ => 0⟩ (World.init ⟨3, Nat.prime_three⟩)
        [.build backendManagerCreate true] = some w ∧ w.heap.length = 1 ∧
      ∀ place, place ≠ .fresh → 0 ∉ w.snapshots place := by
  refine ⟨_, rfl, rfl, ?_⟩
  intro place hne
  cases place with
  | fresh => exact absurd rfl hne
  | active => exact List.not_mem_nil
  | swappedOut => exact List.not_mem_nil
  | retired => exact List.not_mem_nil
  | freed => exact List.not_mem_nil
  | leaked => exact List.not_mem_nil

/-! ## The sequential generator -/

/-- The generator value behind the pointers of a world. -/
structure World.Represents (w : World) (tg : Generator) : Prop where
  m : w.m = tg.m
  active : w.active.toList.map (w.heap[·]?) = tg.active.toList.map some
  generation : w.generation = tg.generation
  items : w.retired.items.map (w.heap[·]?) = tg.retired.items.map some
  cap : w.retired.cap = tg.retired.cap

theorem init_represents (m : TableSize) : (World.init m).Represents (tableGeneratorCreate m) :=
  ⟨rfl, rfl, rfl, rfl, rfl⟩

/-- Pointers that are in use keep their snapshots when another one is allocated. -/
theorem map_getElem?_append {l : List ℕ} {heap : List RoutingSnapshot}
    {snaps : List RoutingSnapshot} (h : l.map (heap[·]?) = snaps.map some)
    (newSnap : RoutingSnapshot) : l.map ((heap ++ [newSnap])[·]?) = snaps.map some := by
  rw [← h]
  apply List.map_congr_left
  intro p hp
  have hmem : heap[p]? ∈ snaps.map some := by
    rw [← h]
    exact List.mem_map_of_mem hp
  obtain ⟨snap, -, hsnap⟩ := List.mem_map.mp hmem
  have hlt : p < heap.length := (List.getElem?_eq_some_iff.mp hsnap.symm).1
  exact List.getElem?_append_left hlt

/-- Undisturbed, the writer's steps are the sequential rebuild. -/
theorem rebuild_represents {H : Hashes} {w : World} {tg : Generator} (h : w.Represents tg)
    (hw : w.writer = .idle) (bm : Manager) (createOk growOk : Bool) :
    ∃ w', interleave H w (if createOk then [.build bm true, .exchange, .storeGeneration,
        .push growOk] else [.build bm false]) = some w' ∧ w'.writer = .idle ∧
      w'.Represents (tableGeneratorRebuildAndInstall H bm createOk growOk tg).1 := by
  cases createOk with
  | false =>
      refine ⟨w, ?_, hw, ?_⟩
      · simp [interleave, step, hw, buildSnapshot, routingSnapshotCreate]
      · simpa [tableGeneratorRebuildAndInstall, buildSnapshot, routingSnapshotCreate] using h
  | true =>
      obtain ⟨hm, hactive, hgen, hitems, hcap⟩ := h
      let snap := currentSnapshot H w.m bm (w.generation + 1)
      have hb : buildSnapshot H bm w.m true (w.generation + 1) = some snap :=
        buildSnapshot_true H bm w.m (w.generation + 1)
      have hb' : buildSnapshot H bm tg.m true (tg.generation + 1) = some snap := by
        rw [← hm, ← hgen, hb]
      have hnew : (w.heap ++ [snap])[w.heap.length]? = some snap := List.getElem?_concat_length ..
      have hitems' := map_getElem?_append hitems snap
      have hactive' := map_getElem?_append hactive snap
      have hcons : ([w.heap.length] : List ℕ).map ((w.heap ++ [snap])[·]?) = [snap].map some := by
        rw [List.map_cons, hnew]
        rfl
      simp only [interleave, List.foldlM_cons, List.foldlM_nil, step, hw, hb, if_true,
        Option.bind_eq_bind, Option.bind_some, tableGeneratorRebuildAndInstall, hb']
      cases hwa : w.active with
      | none =>
          cases hta : tg.active with
          | none => exact ⟨_, rfl, rfl, hm, hcons, congrArg (· + 1) hgen, hitems', hcap⟩
          | some oldSnap =>
              rw [hwa, hta] at hactive
              cases hactive
      | some old =>
          cases hta : tg.active with
          | none =>
              rw [hwa, hta] at hactive
              cases hactive
          | some oldSnap =>
              rw [hwa, hta] at hactive'
              obtain ⟨hpush, hpushcap⟩ := RetiredList.push_related hitems' hcap growOk
                (List.cons.inj hactive').1
              exact ⟨_, rfl, rfl, hm, hcons, congrArg (· + 1) hgen, hpush, hpushcap⟩

end MaglevLb.Reclamation
