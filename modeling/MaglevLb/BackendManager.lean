import MaglevLb.EventRun
import MaglevLb.Maglev
import MaglevLb.SlotScan

/-!
# The backend manager

A fixed array of sixty-four slots, a counter that hands out ids and at most one
subscriber. The mutators are modelled as one thread runs them, each returning
whether it notifies the subscriber. A slot keeps its stale record after a
removal and is overwritten as a whole when it is taken again; ids are never
handed back.
-/
namespace MaglevLb.BackendManager
open PacketFormat Maglev SlotScan

inductive AdminState where
  | enabled
  | draining
  | disabled
deriving DecidableEq, Repr

structure Backend where
  id : UInt32
  addr : UInt32
  port : UInt16
  mac : Mac
  macResolved : Bool
  healthy : Bool
  adminState : AdminState
deriving DecidableEq, Repr

/-- One index of the arrays `backends` and `slot_used`. -/
structure Slot where
  used : Bool
  backend : Backend
deriving DecidableEq, Repr

def backendMax : ℕ := 64

structure Manager where
  slots : List Slot
  slots_length : slots.length = backendMax
  nextId : UInt32
  subscribed : Bool

/-- All bytes zero. -/
def Slot.zero : Slot := ⟨false, 0, 0, 0, Vector.replicate 6 0, false, false, .enabled⟩

def backendManagerCreate : Manager where
  slots := List.replicate backendMax Slot.zero
  slots_length := List.length_replicate
  nextId := 0
  subscribed := false

/-- Change the first slot that passes the test and leave the loop. -/
def Manager.rewrite (bm : Manager) (p : Slot → Bool) (f : Slot → Slot) : Option Manager :=
  match h : rewriteFirst p f bm.slots with
  | none => none
  | some slots =>
      some { bm with slots := slots, slots_length := (rewriteFirst_length h).trans bm.slots_length }

/-- The test of `find_slot`. -/
def holdsId (id : UInt32) (s : Slot) : Bool := s.used && s.backend.id == id

def findSlot (bm : Manager) (id : UInt32) : Option Backend :=
  (bm.slots.find? (holdsId id)).map Slot.backend

/-- The record a new backend starts with. -/
def freshBackend (id addr : UInt32) (port : UInt16) : Backend :=
  ⟨id, addr, port, Vector.replicate 6 0, false, true, .enabled⟩

/-- `UINT32_MAX`, which stands for a full table. -/
def noId : UInt32 := 0xFFFFFFFF

def backendManagerAdd (bm : Manager) (addr : UInt32) (port : UInt16) : Manager × UInt32 :=
  match bm.rewrite (fun s => !s.used) (fun _ => ⟨true, freshBackend bm.nextId addr port⟩) with
  | none => (bm, noId)
  | some bm' => ({ bm' with nextId := bm.nextId + 1 }, bm.nextId)

def backendManagerRemove (bm : Manager) (id : UInt32) : Manager × Bool :=
  match bm.rewrite (holdsId id) (fun s => { s with used := false }) with
  | none => (bm, false)
  | some bm' => (bm', true)

/-- Find the slot of `id`; if it exists and is `stale`, write it through the
pointer and report a change. -/
def updateBackend (bm : Manager) (id : UInt32) (stale : Backend → Bool)
    (f : Backend → Backend) : Manager × Bool :=
  match findSlot bm id with
  | none => (bm, false)
  | some b =>
      if stale b then
        match bm.rewrite (holdsId id) (fun s => { s with backend := f s.backend }) with
        | none => (bm, false)
        | some bm' => (bm', true)
      else (bm, false)

def backendManagerSetHealth (bm : Manager) (id : UInt32) (healthy : Bool) : Manager × Bool :=
  updateBackend bm id (fun b => b.healthy != healthy) (fun b => { b with healthy := healthy })

def backendManagerSetAdminState (bm : Manager) (id : UInt32) (state : AdminState) :
    Manager × Bool :=
  updateBackend bm id (fun b => b.adminState != state) (fun b => { b with adminState := state })

/-- A known id always counts as changed, also when the address is the same. -/
def backendManagerSetMac (bm : Manager) (id : UInt32) (mac : Mac) : Manager × Bool :=
  updateBackend bm id (fun _ => true) (fun b => { b with mac := mac, macResolved := true })

def backendManagerSubscribe (bm : Manager) : Manager := { bm with subscribed := true }

/-- Copy the used slots that pass a filter, in slot order, up to the capacity. -/
def snapshotWhere (keep : Backend → Bool) (bm : Manager) (outCap : ℕ) : List Backend :=
  ((bm.slots.filter fun s => s.used && keep s.backend).map Slot.backend).take outCap

def eligible (b : Backend) : Bool := b.adminState == .enabled && b.healthy && b.macResolved

def routable (b : Backend) : Bool := b.adminState != .disabled && b.healthy && b.macResolved

def backendManagerSnapshotEligible : Manager → ℕ → List Backend := snapshotWhere eligible

def backendManagerSnapshotRoutable : Manager → ℕ → List Backend := snapshotWhere routable

def backendManagerSnapshotAll : Manager → ℕ → List Backend := snapshotWhere fun _ => true

inductive Op where
  | add (addr : UInt32) (port : UInt16)
  | remove (id : UInt32)
  | setHealth (id : UInt32) (healthy : Bool)
  | setAdminState (id : UInt32) (state : AdminState)
  | setMac (id : UInt32) (mac : Mac)
deriving DecidableEq, Repr

/-- The new manager and whether the subscriber is called. -/
def apply (bm : Manager) : Op → Manager × Bool
  | .add addr port =>
      let r := backendManagerAdd bm addr port
      (r.1, r.2 != noId)
  | .remove id => backendManagerRemove bm id
  | .setHealth id healthy => backendManagerSetHealth bm id healthy
  | .setAdminState id state => backendManagerSetAdminState bm id state
  | .setMac id mac => backendManagerSetMac bm id mac

abbrev runOps : Manager → List Op → Manager := EventRun.run fun bm op => (apply bm op).1

theorem runOps_cons (bm : Manager) (op : Op) (ops : List Op) :
    runOps bm (op :: ops) = runOps (apply bm op).1 ops := rfl

def Op.isAdd : Op → Bool
  | .add _ _ => true
  | _ => false

/-- The number of add calls in a history. -/
def adds (ops : List Op) : ℕ := ops.countP Op.isAdd

theorem adds_append (ops ops' : List Op) : adds (ops ++ ops') = adds ops + adds ops' :=
  List.countP_append

/-! ## What one call does -/

theorem Manager.rewrite_eq_none {bm : Manager} {p : Slot → Bool} {f : Slot → Slot} :
    bm.rewrite p f = none ↔ ∀ s ∈ bm.slots, p s = false := by
  rw [← rewriteFirst_eq_none (f := f), Manager.rewrite]
  split
  · simp_all
  · simp_all

theorem Manager.rewrite_split {bm bm' : Manager} {p : Slot → Bool} {f : Slot → Slot}
    (h : bm.rewrite p f = some bm') :
    ∃ l₁ s l₂, bm.slots = l₁ ++ s :: l₂ ∧ bm'.slots = l₁ ++ f s :: l₂ ∧ p s = true ∧
      (∀ x ∈ l₁, p x = false) ∧ bm'.nextId = bm.nextId ∧ bm'.subscribed = bm.subscribed := by
  unfold Manager.rewrite at h
  split at h
  · cases h
  · rename_i slots hs
    cases h
    obtain ⟨l₁, s, l₂, hl, hl', hp, hfirst⟩ := rewriteFirst_split hs
    exact ⟨l₁, s, l₂, hl, hl', hp, hfirst, rfl, rfl⟩

/-- A scan that stops at a known slot changes that slot. -/
theorem Manager.rewrite_append {bm : Manager} {p : Slot → Bool} {f : Slot → Slot}
    {l₁ l₂ : List Slot} {s : Slot} (h : bm.slots = l₁ ++ s :: l₂)
    (hfirst : ∀ x ∈ l₁, p x = false) (hs : p s = true) :
    ∃ bm', bm.rewrite p f = some bm' ∧ bm'.slots = l₁ ++ f s :: l₂ ∧ bm'.nextId = bm.nextId := by
  have hscan : rewriteFirst p f bm.slots = some (l₁ ++ f s :: l₂) := by
    rw [h]
    exact rewriteFirst_append hfirst hs
  unfold Manager.rewrite
  split
  · next hnone =>
      rw [hscan] at hnone
      cases hnone
  · next slots hsome =>
      rw [hscan] at hsome
      cases hsome
      exact ⟨_, rfl, rfl, rfl⟩

/-- The slot a call changes, before and after. -/
inductive Change (bm : Manager) : Op → Slot → Slot → Prop
  | add {addr : UInt32} {port : UInt16} {s : Slot} : s.used = false →
      Change bm (.add addr port) s ⟨true, freshBackend bm.nextId addr port⟩
  | remove {id : UInt32} {s : Slot} : s.used = true → s.backend.id = id →
      Change bm (.remove id) s { s with used := false }
  | setHealth {id : UInt32} {healthy : Bool} {s : Slot} : s.used = true →
      s.backend.id = id →
      Change bm (.setHealth id healthy) s
        { s with backend := { s.backend with healthy := healthy } }
  | setAdminState {id : UInt32} {state : AdminState} {s : Slot} : s.used = true →
      s.backend.id = id →
      Change bm (.setAdminState id state) s
        { s with backend := { s.backend with adminState := state } }
  | setMac {id : UInt32} {mac : Mac} {s : Slot} : s.used = true → s.backend.id = id →
      Change bm (.setMac id mac) s
        { s with backend := { s.backend with mac := mac, macResolved := true } }

theorem holdsId_iff {id : UInt32} {s : Slot} :
    holdsId id s = true ↔ s.used = true ∧ s.backend.id = id := by
  simp [holdsId]

theorem updateBackend_cases (bm : Manager) (id : UInt32) (stale : Backend → Bool)
    (f : Backend → Backend) :
    updateBackend bm id stale f = (bm, false) ∨
    ((updateBackend bm id stale f).2 = true ∧ ∃ l₁ s l₂, bm.slots = l₁ ++ s :: l₂ ∧
      (updateBackend bm id stale f).1.slots = l₁ ++ { s with backend := f s.backend } :: l₂ ∧
      s.used = true ∧ s.backend.id = id ∧
      (updateBackend bm id stale f).1.nextId = bm.nextId ∧
      (updateBackend bm id stale f).1.subscribed = bm.subscribed) := by
  unfold updateBackend
  split
  · exact Or.inl rfl
  · split
    · split
      · exact Or.inl rfl
      · rename_i bm' h
        obtain ⟨l₁, s, l₂, hl, hl', hp, -, hn, hs⟩ := Manager.rewrite_split h
        obtain ⟨hu, hid⟩ := holdsId_iff.mp hp
        exact Or.inr ⟨rfl, l₁, s, l₂, hl, hl', hu, hid, hn, hs⟩
    · exact Or.inl rfl

theorem updateBackend_append (bm : Manager) {id : UInt32} (stale : Backend → Bool)
    (f : Backend → Backend) {l₁ l₂ : List Slot} {s : Slot} (h : bm.slots = l₁ ++ s :: l₂)
    (hfirst : ∀ x ∈ l₁, holdsId id x = false) (hs : holdsId id s = true)
    (hstale : stale s.backend = true) :
    ∃ bm', updateBackend bm id stale f = (bm', true) ∧
      bm'.slots = l₁ ++ { s with backend := f s.backend } :: l₂ ∧ bm'.nextId = bm.nextId := by
  have hnone : l₁.find? (holdsId id) = none := by
    rw [List.find?_eq_none]
    exact fun x hx => by simp [hfirst x hx]
  have hfind : findSlot bm id = some s.backend := by
    rw [findSlot, h, List.find?_append, hnone, List.find?_cons_of_pos hs]
    rfl
  obtain ⟨bm', hrewrite, hslots, hnext⟩ := Manager.rewrite_append
    (f := fun s => { s with backend := f s.backend }) h hfirst hs
  refine ⟨bm', ?_, hslots, hnext⟩
  unfold updateBackend
  simp only [hfind, hstale, if_true, hrewrite]

theorem findSlot_append {bm : Manager} {l₁ l₂ : List Slot} {s : Slot} {k : UInt32}
    (h : bm.slots = l₁ ++ s :: l₂) :
    findSlot bm k = ((l₁.find? (holdsId k)).or ((s :: l₂).find? (holdsId k))).map Slot.backend := by
  rw [findSlot, h, List.find?_append]

/-- A write through the pointer of `find_slot` that keeps the id. -/
theorem findSlot_updateBackend (bm : Manager) (id k : UInt32) (stale : Backend → Bool)
    {f : Backend → Backend} (hf : ∀ b, (f b).id = b.id) :
    findSlot (updateBackend bm id stale f).1 k =
      if k = id then (findSlot bm k).map fun b => if stale b then f b else b
      else findSlot bm k := by
  unfold updateBackend
  split
  · next hnone =>
      split
      · next hk => rw [hk, hnone]; rfl
      · rfl
  · next b hb =>
      split
      · next hs =>
          split
          · next hr =>
              -- the scan of the write finds the slot that the search found
              obtain ⟨s, hfind, -⟩ := Option.map_eq_some_iff.mp hb
              have hno := Manager.rewrite_eq_none.mp hr s (List.mem_of_find?_eq_some hfind)
              rw [List.find?_some hfind] at hno
              cases hno
          · next bm' hr =>
              obtain ⟨l₁, s, l₂, hl, hl', hp, hfirst, -⟩ := Manager.rewrite_split hr
              have hnone : l₁.find? (holdsId id) = none := by
                rw [List.find?_eq_none]
                exact fun x hx => by simp [hfirst x hx]
              obtain ⟨hu, hid⟩ := holdsId_iff.mp hp
              rw [findSlot_append hl', findSlot_append hl]
              split
              · next hk =>
                  subst hk
                  have hp' : holdsId k { s with backend := f s.backend } = true :=
                    holdsId_iff.mpr ⟨hu, (hf _).trans hid⟩
                  rw [findSlot_append hl, hnone, List.find?_cons_of_pos hp] at hb
                  cases hb
                  rw [hnone, List.find?_cons_of_pos hp, List.find?_cons_of_pos hp']
                  simp [hs]
              · next hk =>
                  have hne : holdsId k s = false := by simp [holdsId, hid, Ne.symm hk]
                  have hne' : holdsId k { s with backend := f s.backend } = false := by
                    simp [holdsId, hf, hid, Ne.symm hk]
                  simp [hne, hne']
      · next hs =>
          split
          · next hk =>
              rw [hk, hb]
              simp [hs]
          · rfl

section Read

variable {γ : Type*} {g : Backend → γ} {stale : Backend → Bool} {f : Backend → Backend}

/-- Such a write does not show in what `g` reads, if `f` keeps that. -/
theorem read_updateBackend_of_kept (hf : ∀ b, (f b).id = b.id) (hg : ∀ b, g (f b) = g b)
    (bm : Manager) (id k : UInt32) :
    (findSlot (updateBackend bm id stale f).1 k).map g = (findSlot bm k).map g := by
  rw [findSlot_updateBackend bm id k stale hf]
  split
  · rw [Option.map_map]
    refine congrArg (Option.map · (findSlot bm k)) (funext fun b => ?_)
    rw [Function.comp_apply]
    split
    · exact hg b
    · rfl
  · rfl

/-- After it `g` reads the value written, under that id only. -/
theorem read_updateBackend_of_set {x : γ} (hf : ∀ b, (f b).id = b.id) (hset : ∀ b, g (f b) = x)
    (hstale : ∀ b, stale b = false → g b = x) (bm : Manager) (id k : UInt32) :
    (findSlot (updateBackend bm id stale f).1 k).map g =
      if k = id then ((findSlot bm k).map g).map fun _ => x else (findSlot bm k).map g := by
  rw [findSlot_updateBackend bm id k stale hf]
  split
  · rw [Option.map_map, Option.map_map]
    refine congrArg (Option.map · (findSlot bm k)) (funext fun b => ?_)
    rw [Function.comp_apply, Function.comp_apply]
    split
    · exact hset b
    · next hb => exact hstale b (Bool.eq_false_iff.mpr hb)
  · rfl

end Read

/-- Every call either leaves the manager as it is and notifies nobody, or changes
one slot. Only an add moves the id counter. -/
theorem apply_cases (bm : Manager) (op : Op) :
    apply bm op = (bm, false) ∨
    ((apply bm op).2 = !(op.isAdd && bm.nextId == noId) ∧
      (apply bm op).1.subscribed = bm.subscribed ∧
      (apply bm op).1.nextId = (if op.isAdd then bm.nextId + 1 else bm.nextId) ∧
      ∃ l₁ s s' l₂, bm.slots = l₁ ++ s :: l₂ ∧ (apply bm op).1.slots = l₁ ++ s' :: l₂ ∧
        Change bm op s s') := by
  cases op with
  | add addr port =>
      simp only [apply, backendManagerAdd]
      split
      · exact Or.inl rfl
      · rename_i bm' h
        obtain ⟨l₁, s, l₂, hl, hl', hp, -, -, hs⟩ := Manager.rewrite_split h
        refine Or.inr ⟨?_, hs, rfl, l₁, s, _, l₂, hl, hl', .add (by simpa using hp)⟩
        simp only [Op.isAdd, Bool.true_and]
        rfl
  | remove id =>
      simp only [apply, backendManagerRemove]
      split
      · exact Or.inl rfl
      · rename_i bm' h
        obtain ⟨l₁, s, l₂, hl, hl', hp, -, hn, hs⟩ := Manager.rewrite_split h
        obtain ⟨hu, hid⟩ := holdsId_iff.mp hp
        exact Or.inr ⟨rfl, hs, hn, l₁, s, _, l₂, hl, hl', .remove hu hid⟩
  | setHealth id healthy =>
      rcases updateBackend_cases bm id (fun b => b.healthy != healthy)
        (fun b => { b with healthy := healthy }) with
        h | ⟨hc, l₁, s, l₂, hl, hl', hu, hid, hn, hs⟩
      · exact Or.inl h
      · exact Or.inr ⟨hc, hs, hn, l₁, s, _, l₂, hl, hl', .setHealth hu hid⟩
  | setAdminState id state =>
      rcases updateBackend_cases bm id (fun b => b.adminState != state)
        (fun b => { b with adminState := state }) with
        h | ⟨hc, l₁, s, l₂, hl, hl', hu, hid, hn, hs⟩
      · exact Or.inl h
      · exact Or.inr ⟨hc, hs, hn, l₁, s, _, l₂, hl, hl', .setAdminState hu hid⟩
  | setMac id mac =>
      rcases updateBackend_cases bm id (fun _ => true)
        (fun b => { b with mac := mac, macResolved := true }) with
        h | ⟨hc, l₁, s, l₂, hl, hl', hu, hid, hn, hs⟩
      · exact Or.inl h
      · exact Or.inr ⟨hc, hs, hn, l₁, s, _, l₂, hl, hl', .setMac hu hid⟩

/-- A call that does not notify has changed nothing, as long as the id counter
has not reached the value that stands for a full table. -/
theorem apply_silent {bm : Manager} {op : Op} (hid : bm.nextId ≠ noId)
    (h : (apply bm op).2 = false) : (apply bm op).1 = bm := by
  rcases apply_cases bm op with he | ⟨hc, -⟩
  · rw [he]
  · rw [h] at hc
    simp [hid] at hc

end MaglevLb.BackendManager
