import MaglevLb.BackendIds

/-!
# The table generator

Rebuilding takes two filtered copies of the backend slots, makes a snapshot of
them, swaps it in and queues the old one. The outcomes of the two allocations on
the way are inputs. The control plane is the manager together with the generator
that subscribes to it: a call that notifies runs a rebuild before it returns.
-/
namespace MaglevLb.TableGenerator
open PacketFormat Maglev BackendManager

/-- The growable array behind `retired`. -/
structure RetiredList (α : Type*) where
  items : List α
  cap : ℕ
  bound : items.length ≤ cap

variable {α : Type*}

def RetiredList.empty : RetiredList α := ⟨[], 0, Nat.le_refl 0⟩

/-- A full array doubles, unless `realloc` fails. -/
def RetiredList.grow (growOk : Bool) (r : RetiredList α) : RetiredList α :=
  if r.items.length = r.cap ∧ growOk then
    { r with
      cap := if r.cap = 0 then 8 else r.cap * 2
      bound := by
        have h := r.bound
        split <;> omega }
  else r

/-- Queue a pointer; the second component is the pointer that found no room. -/
def RetiredList.push (growOk : Bool) (r : RetiredList α) (old : α) : RetiredList α × Option α :=
  let r := r.grow growOk
  if h : r.items.length < r.cap then
    ({ r with
        items := r.items ++ [old]
        bound := by
          rw [List.length_append, List.length_singleton]
          exact h }, none)
  else (r, some old)

theorem RetiredList.grow_items (growOk : Bool) (r : RetiredList α) :
    (r.grow growOk).items = r.items := by
  unfold RetiredList.grow
  split <;> rfl

theorem RetiredList.grow_cap (growOk : Bool) (r : RetiredList α) :
    (r.grow growOk).cap = if r.items.length = r.cap ∧ growOk then
      (if r.cap = 0 then 8 else r.cap * 2) else r.cap := by
  unfold RetiredList.grow
  split <;> rfl

theorem RetiredList.push_of_room {growOk : Bool} {r : RetiredList α}
    (h : (r.grow growOk).items.length < (r.grow growOk).cap) (old : α) :
    (r.push growOk old).1.items = r.items ++ [old] ∧
    (r.push growOk old).1.cap = (r.grow growOk).cap ∧ (r.push growOk old).2 = none := by
  unfold RetiredList.push
  dsimp only
  rw [dif_pos h]
  exact ⟨congrArg (· ++ [old]) (r.grow_items growOk), rfl, rfl⟩

theorem RetiredList.push_of_full {growOk : Bool} {r : RetiredList α}
    (h : ¬ (r.grow growOk).items.length < (r.grow growOk).cap) (old : α) :
    (r.push growOk old).1.items = r.items ∧
    (r.push growOk old).1.cap = (r.grow growOk).cap ∧ (r.push growOk old).2 = some old := by
  unfold RetiredList.push
  dsimp only
  rw [dif_neg h]
  exact ⟨r.grow_items growOk, rfl, rfl⟩

/-- Pushing keeps two lists related element by element. -/
theorem RetiredList.push_related {β γ : Type*} {f : α → γ} {g : β → γ} {r : RetiredList α}
    {s : RetiredList β} (hi : r.items.map f = s.items.map g) (hc : r.cap = s.cap) (growOk : Bool)
    {x : α} {y : β} (hxy : f x = g y) :
    (r.push growOk x).1.items.map f = (s.push growOk y).1.items.map g ∧
    (r.push growOk x).1.cap = (s.push growOk y).1.cap := by
  have hlen : r.items.length = s.items.length := by simpa using congrArg List.length hi
  have hcap : (r.grow growOk).cap = (s.grow growOk).cap := by
    rw [r.grow_cap, s.grow_cap, hlen, hc]
  have hroom : (r.grow growOk).items.length < (r.grow growOk).cap ↔
      (s.grow growOk).items.length < (s.grow growOk).cap := by
    rw [r.grow_items, s.grow_items, hlen, hcap]
  by_cases h : (r.grow growOk).items.length < (r.grow growOk).cap
  · obtain ⟨hri, hrc, -⟩ := RetiredList.push_of_room h x
    obtain ⟨hsi, hsc, -⟩ := RetiredList.push_of_room (hroom.mp h) y
    exact ⟨by rw [hri, hsi, List.map_append, List.map_append, hi]; simp [hxy],
      by rw [hrc, hsc, hcap]⟩
  · obtain ⟨hri, hrc, -⟩ := RetiredList.push_of_full h x
    obtain ⟨hsi, hsc, -⟩ := RetiredList.push_of_full (mt hroom.mpr h) y
    exact ⟨by rw [hri, hsi, hi], by rw [hrc, hsc, hcap]⟩

structure Generator where
  m : TableSize
  active : Option RoutingSnapshot
  generation : UInt64
  retired : RetiredList RoutingSnapshot

def tableGeneratorCreate (m : TableSize) : Generator := ⟨m, none, 0, .empty⟩

def copyView (b : Backend) : BackendView := ⟨b.id, b.addr, b.port, b.mac⟩

def copyViews (bs : List Backend) : List BackendView := bs.map copyView

/-- The snapshot of the manager's current state under a generation number. -/
def buildSnapshot (H : Hashes) (bm : Manager) (m : TableSize) (createOk : Bool)
    (generation : UInt64) : Option RoutingSnapshot :=
  routingSnapshotCreate H createOk
    (copyViews (backendManagerSnapshotRoutable bm backendMax))
    (copyViews (backendManagerSnapshotEligible bm backendMax)) m generation

/-- The new generator and whether the rebuild succeeded. -/
def tableGeneratorRebuildAndInstall (H : Hashes) (bm : Manager) (createOk growOk : Bool)
    (tg : Generator) : Generator × Bool :=
  let newGeneration := tg.generation + 1
  match buildSnapshot H bm tg.m createOk newGeneration with
  | none => (tg, false)
  | some newSnap =>
      let retired := match tg.active with
        | none => tg.retired
        | some old => (tg.retired.push growOk old).1
      ({ tg with active := some newSnap, generation := newGeneration, retired := retired }, true)

/-- `table_generator_reclaim`: free what is queued. -/
def tableGeneratorReclaim (tg : Generator) : Generator := { tg with retired := .empty }

structure ControlPlane where
  bm : Manager
  tg : Generator

/-- `table_generator_install_as_subscriber`. -/
def tableGeneratorInstallAsSubscriber (cp : ControlPlane) : ControlPlane :=
  { cp with bm := backendManagerSubscribe cp.bm }

/-- `on_backend_change`, with the outcome of the rebuild. -/
def onBackendChange (H : Hashes) (createOk growOk : Bool) (cp : ControlPlane) :
    ControlPlane × Bool :=
  let r := tableGeneratorRebuildAndInstall H cp.bm createOk growOk cp.tg
  ({ cp with tg := r.1 }, r.2)

/-- One call of the manager's interface and whether it made a new snapshot. -/
def call (H : Hashes) (createOk growOk : Bool) (cp : ControlPlane) (op : Op) :
    ControlPlane × Bool :=
  let r := apply cp.bm op
  let cp := { cp with bm := r.1 }
  if r.2 && r.1.subscribed then onBackendChange H createOk growOk cp else (cp, false)

/-- The control plane of `main` right before the threads start. -/
def startControlPlane (H : Hashes) (m : TableSize) (bm : Manager) : ControlPlane :=
  (onBackendChange H true true
    (tableGeneratorInstallAsSubscriber ⟨bm, tableGeneratorCreate m⟩)).1

/-- A run of calls in which memory never runs out. -/
abbrev runCalls (H : Hashes) : ControlPlane → List Op → ControlPlane :=
  EventRun.run fun cp op => (call H true true cp op).1

/-- How many calls of such a run made a new snapshot. -/
def rebuilds (H : Hashes) : ControlPlane → List Op → ℕ
  | _, [] => 0
  | cp, op :: ops =>
      (if (call H true true cp op).2 then 1 else 0) + rebuilds H (call H true true cp op).1 ops

/-- The snapshot that the state of the manager determines. -/
def currentSnapshot (H : Hashes) (m : TableSize) (bm : Manager) (generation : UInt64) :
    RoutingSnapshot where
  table := maglevTableGenerate H m (copyViews (bm.live.filter eligible))
  backends := copyViews (bm.live.filter routable)
  generation := generation

theorem buildSnapshot_true (H : Hashes) (bm : Manager) (m : TableSize) (generation : UInt64) :
    buildSnapshot H bm m true generation = some (currentSnapshot H m bm generation) := by
  rw [buildSnapshot, backendManagerSnapshotRoutable, backendManagerSnapshotEligible,
    snapshotWhere_eq, snapshotWhere_eq]
  rfl

/-- The active snapshot is the one of the manager's current state. -/
structure ControlPlane.Fresh (H : Hashes) (cp : ControlPlane) : Prop where
  subscribed : cp.bm.subscribed = true
  active : cp.tg.active = some (currentSnapshot H cp.tg.m cp.bm cp.tg.generation)

theorem rebuild_fresh (H : Hashes) (growOk : Bool) {cp : ControlPlane}
    (hs : cp.bm.subscribed = true) :
    ∃ cp', onBackendChange H true growOk cp = (cp', true) ∧ cp'.Fresh H ∧ cp'.bm = cp.bm ∧
      cp'.tg.m = cp.tg.m ∧ cp'.tg.generation = cp.tg.generation + 1 := by
  unfold onBackendChange tableGeneratorRebuildAndInstall
  simp only [buildSnapshot_true]
  exact ⟨_, rfl, ⟨hs, rfl⟩, rfl, rfl, rfl⟩

/-- The start-up leaves a fresh snapshot of generation one. -/
theorem startControlPlane_fresh (H : Hashes) (m : TableSize) (bm : Manager) :
    (startControlPlane H m bm).Fresh H ∧
    (startControlPlane H m bm).bm = backendManagerSubscribe bm ∧
    (startControlPlane H m bm).tg.m = m ∧ (startControlPlane H m bm).tg.generation = 1 := by
  let cp₀ := tableGeneratorInstallAsSubscriber ⟨bm, tableGeneratorCreate m⟩
  obtain ⟨cp, he, hfresh, hbm, hm, hgen⟩ := rebuild_fresh H true
    (show cp₀.bm.subscribed = true from rfl)
  have hstart : startControlPlane H m bm = cp := congrArg Prod.fst he
  rw [hstart]
  exact ⟨hfresh, hbm, hm, hgen⟩

theorem apply_subscribed (bm : Manager) (op : Op) :
    (apply bm op).1.subscribed = bm.subscribed := by
  rcases apply_cases bm op with he | ⟨-, hs, -⟩
  · rw [he]
  · exact hs

theorem call_bm (H : Hashes) (createOk growOk : Bool) (cp : ControlPlane) (op : Op) :
    (call H createOk growOk cp op).1.bm = (apply cp.bm op).1 := by
  unfold call
  dsimp only
  split <;> rfl

/-- Every call keeps the snapshot fresh: it rebuilds, or it changed nothing. -/
theorem call_fresh (H : Hashes) (growOk : Bool) {cp : ControlPlane} (h : cp.Fresh H)
    (hid : cp.bm.nextId ≠ noId) (op : Op) :
    ∃ cp' rebuilt, call H true growOk cp op = (cp', rebuilt) ∧ cp'.Fresh H ∧
      cp'.bm = (apply cp.bm op).1 ∧ cp'.tg.m = cp.tg.m ∧
      cp'.tg.generation = cp.tg.generation + (if rebuilt then 1 else 0) := by
  have hsub : (apply cp.bm op).1.subscribed = true := (apply_subscribed ..).trans h.subscribed
  unfold call
  dsimp only
  cases hn : (apply cp.bm op).2 with
  | true =>
      rw [hsub]
      let cp₁ : ControlPlane := { cp with bm := (apply cp.bm op).1 }
      obtain ⟨cp', he, hfresh, hbm, hm, hgen⟩ := rebuild_fresh H growOk
        (show cp₁.bm.subscribed = true from hsub)
      exact ⟨cp', true, he, hfresh, hbm, hm, hgen⟩
  | false =>
      have hsame : (apply cp.bm op).1 = cp.bm := apply_silent hid hn
      refine ⟨_, false, rfl, ⟨hsub, ?_⟩, rfl, rfl, (UInt64.add_zero _).symm⟩
      dsimp only
      rw [hsame]
      exact h.active

end MaglevLb.TableGenerator
