import MaglevLb.BackendManager

/-!
# The life of a backend id

The abstract state of the manager is the list of the backends in its used slots.
A call inserts a fresh backend, drops one, or rewrites the flags and the hardware
address of one. Ids are handed out in increasing order and never again, so an id
names one endpoint for the whole run, as long as the counter does not wrap.
-/
namespace MaglevLb.BackendManager
open PacketFormat Maglev SlotScan

/-- The backends of the used slots, in slot order. -/
def Manager.live (bm : Manager) : List Backend := (bm.slots.filter Slot.used).map Slot.backend

/-- A snapshot with room for every slot filters the live backends. -/
theorem snapshotWhere_eq (keep : Backend → Bool) (bm : Manager) :
    snapshotWhere keep bm backendMax = bm.live.filter keep := by
  have hlen : ((bm.slots.filter fun s => s.used && keep s.backend).map Slot.backend).length ≤
      backendMax := by
    rw [List.length_map, ← bm.slots_length]
    exact List.length_filter_le ..
  rw [snapshotWhere, List.take_of_length_le hlen, Manager.live, List.filter_map, List.filter_filter]
  congr 1
  exact List.filter_congr fun s _ => Bool.and_comm ..

theorem live_of_slots {bm : Manager} {l₁ l₂ : List Slot} {s : Slot}
    (h : bm.slots = l₁ ++ s :: l₂) :
    bm.live = (l₁.filter Slot.used).map Slot.backend ++
      ((if s.used then [s.backend] else []) ++ (l₂.filter Slot.used).map Slot.backend) := by
  rw [Manager.live, h, List.filter_append, List.filter_cons, List.map_append]
  cases s.used <;> rfl

/-- Two records of one backend: what the mutators of a live backend keep. -/
def Backend.Same (x y : Backend) : Prop := y.id = x.id ∧ y.addr = x.addr ∧ y.port = x.port

/-- What a call does to the live backends. -/
inductive LiveChange (bm bm' : Manager) (op : Op) : Prop
  | silent (h : bm' = bm)
  | added (as bs : List Backend) (addr : UInt32) (port : UInt16) (hop : op.isAdd = true)
      (hnext : bm'.nextId = bm.nextId + 1) (hlive : bm.live = as ++ bs)
      (hlive' : bm'.live = as ++ freshBackend bm.nextId addr port :: bs)
  | removed (as bs : List Backend) (x : Backend) (hnext : bm'.nextId = bm.nextId)
      (hlive : bm.live = as ++ x :: bs) (hlive' : bm'.live = as ++ bs)
  | updated (as bs : List Backend) (x x' : Backend) (hsame : x.Same x')
      (hnext : bm'.nextId = bm.nextId) (hlive : bm.live = as ++ x :: bs)
      (hlive' : bm'.live = as ++ x' :: bs)

theorem apply_live (bm : Manager) (op : Op) : LiveChange bm (apply bm op).1 op := by
  rcases apply_cases bm op with he | ⟨-, -, hnext, l₁, s, s', l₂, hl, hl', hc⟩
  · exact .silent (by rw [he])
  · have hlive := live_of_slots hl
    have hlive' := live_of_slots hl'
    have hupd : ∀ x', s.used = true → s' = { s with backend := x' } → op.isAdd = false →
        s.backend.Same x' → LiveChange bm (apply bm op).1 op := by
      intro x' hu hs' hop hsame
      subst hs'
      rw [if_pos hu] at hlive hlive'
      rw [hop] at hnext
      exact .updated _ _ s.backend x' hsame hnext hlive hlive'
    cases hc with
    | add hu =>
        rw [hu] at hlive
        exact .added _ _ _ _ rfl hnext hlive hlive'
    | remove hu hid =>
        rw [if_pos hu] at hlive
        exact .removed _ _ s.backend hnext hlive hlive'
    | setHealth hu hid => exact hupd _ hu rfl rfl ⟨rfl, rfl, rfl⟩
    | setAdminState hu hid => exact hupd _ hu rfl rfl ⟨rfl, rfl, rfl⟩
    | setMac hu hid => exact hupd _ hu rfl rfl ⟨rfl, rfl, rfl⟩

/-- Distinct ids around one element of a list. -/
theorem ids_nodup_middle {as bs : List Backend} {x : Backend} :
    ((as ++ x :: bs).map Backend.id).Nodup ↔
      (∀ y ∈ as ++ bs, y.id ≠ x.id) ∧ ((as ++ bs).map Backend.id).Nodup := by
  rw [List.map_append, List.map_cons, List.nodup_middle, List.nodup_cons, ← List.map_append,
    List.mem_map]
  push Not
  rfl

/-- The slot of a live backend answers to its id. -/
theorem exists_slot_of_live {bm : Manager} {x : Backend} (hx : x ∈ bm.live) :
    ∃ s ∈ bm.slots, holdsId x.id s = true := by
  obtain ⟨s, hs, rfl⟩ := List.mem_map.mp hx
  obtain ⟨hmem, hused⟩ := List.mem_filter.mp hs
  exact ⟨s, hmem, holdsId_iff.mpr ⟨hused, rfl⟩⟩

/-- Ids of live backends are distinct and were handed out. -/
structure Manager.IdsOk (bm : Manager) : Prop where
  nodup : (bm.live.map Backend.id).Nodup
  below : ∀ x ∈ bm.live, x.id.toNat < bm.nextId.toNat

theorem backendManagerCreate_live : backendManagerCreate.live = [] := by decide +kernel

theorem backendManagerCreate_idsOk : backendManagerCreate.IdsOk := by
  constructor
  · rw [backendManagerCreate_live]
    exact List.nodup_nil
  · rw [backendManagerCreate_live]
    intro x hx
    cases hx

/-- The counter moves only with an add. -/
theorem apply_nextId (bm : Manager) (op : Op) (h : bm.nextId.toNat + adds [op] < 2 ^ 32) :
    bm.nextId.toNat ≤ (apply bm op).1.nextId.toNat ∧
    (apply bm op).1.nextId.toNat ≤ bm.nextId.toNat + adds [op] := by
  cases apply_live bm op with
  | silent he =>
      rw [he]
      omega
  | added as bs addr port hop hnext hl hl' =>
      have hone : adds [op] = 1 := by simp [adds, hop]
      rw [hone] at h ⊢
      rw [hnext, UInt32.toNat_add, UInt32.toNat_one]
      omega
  | removed as bs x hnext hl hl' =>
      rw [hnext]
      omega
  | updated as bs x x' hsame hnext hl hl' =>
      rw [hnext]
      omega

theorem apply_idsOk {bm : Manager} {op : Op} (hok : bm.IdsOk)
    (h : bm.nextId.toNat + adds [op] < 2 ^ 32) : (apply bm op).1.IdsOk := by
  obtain ⟨hnodup, hbelow⟩ := hok
  have hmono := (apply_nextId bm op h).1
  cases apply_live bm op with
  | silent he =>
      rw [he]
      exact ⟨hnodup, hbelow⟩
  | added as bs addr port hop hnext hl hl' =>
      have hsucc : (apply bm op).1.nextId.toNat = bm.nextId.toNat + 1 := by
        have hone : adds [op] = 1 := by simp [adds, hop]
        rw [hone] at h
        rw [hnext, UInt32.toNat_add, UInt32.toNat_one]
        omega
      rw [hl] at hnodup hbelow
      constructor
      · rw [hl', ids_nodup_middle]
        refine ⟨?_, hnodup⟩
        intro x hx hid
        have hlt := hbelow x hx
        rw [hid] at hlt
        exact Nat.lt_irrefl _ hlt
      · rw [hl', hsucc]
        intro x hx
        rcases List.mem_append.mp hx with hx | hx
        · exact Nat.lt_succ_of_lt (hbelow x (List.mem_append_left _ hx))
        · rcases List.mem_cons.mp hx with rfl | hx
          · exact Nat.lt_succ_self _
          · exact Nat.lt_succ_of_lt (hbelow x (List.mem_append_right _ hx))
  | removed as bs x hnext hl hl' =>
      rw [hl] at hnodup hbelow
      have hsub : List.Sublist (as ++ bs) (as ++ x :: bs) := by simp
      constructor
      · rw [hl']
        exact hnodup.sublist (hsub.map _)
      · rw [hl', hnext]
        exact fun y hy => hbelow y (hsub.subset hy)
  | updated as bs x x' hsame hnext hl hl' =>
      rw [hl] at hnodup hbelow
      constructor
      · rw [hl']
        simpa [hsame.1] using hnodup
      · rw [hl', hnext]
        intro y hy
        rcases List.mem_append.mp hy with hy | hy
        · exact hbelow y (List.mem_append_left _ hy)
        · rcases List.mem_cons.mp hy with rfl | hy
          · rw [hsame.1]
            exact hbelow x (by simp)
          · exact hbelow y (by simp [hy])

/-- A live backend whose id was handed out before the call was live before it,
under the same endpoint. -/
theorem apply_live_old {bm : Manager} {op : Op} {x : Backend}
    (hx : x ∈ (apply bm op).1.live) (hid : x.id.toNat < bm.nextId.toNat) :
    ∃ y ∈ bm.live, y.Same x := by
  have hself : ∀ {y : Backend}, y.Same y := ⟨rfl, rfl, rfl⟩
  cases apply_live bm op with
  | silent he =>
      rw [he] at hx
      exact ⟨x, hx, hself⟩
  | added as bs addr port hop hnext hl hl' =>
      rw [hl', List.mem_append, List.mem_cons] at hx
      rw [hl]
      rcases hx with hx | rfl | hx
      · exact ⟨x, List.mem_append_left _ hx, hself⟩
      · exact absurd hid (Nat.lt_irrefl _)
      · exact ⟨x, List.mem_append_right _ hx, hself⟩
  | removed as bs y hnext hl hl' =>
      rw [hl', List.mem_append] at hx
      rw [hl]
      rcases hx with hx | hx
      · exact ⟨x, List.mem_append_left _ hx, hself⟩
      · exact ⟨x, List.mem_append_right _ (List.mem_cons_of_mem _ hx), hself⟩
  | updated as bs y y' hsame hnext hl hl' =>
      rw [hl', List.mem_append, List.mem_cons] at hx
      rw [hl]
      rcases hx with hx | rfl | hx
      · exact ⟨x, List.mem_append_left _ hx, hself⟩
      · exact ⟨y, by simp, hsame⟩
      · exact ⟨x, List.mem_append_right _ (List.mem_cons_of_mem _ hx), hself⟩

theorem adds_cons (op : Op) (ops : List Op) : adds (op :: ops) = adds [op] + adds ops :=
  adds_append [op] ops

/-- What room the ids have for a history, they have for its first call and then for the rest. -/
theorem room_cons {bm : Manager} {op : Op} {ops : List Op}
    (h : bm.nextId.toNat + adds (op :: ops) < 2 ^ 32) :
    bm.nextId.toNat + adds [op] < 2 ^ 32 ∧
    bm.nextId.toNat ≤ (apply bm op).1.nextId.toNat ∧
    (apply bm op).1.nextId.toNat + adds ops < 2 ^ 32 := by
  rw [adds_cons] at h
  have hone : bm.nextId.toNat + adds [op] < 2 ^ 32 := by omega
  have hstep := apply_nextId bm op hone
  exact ⟨hone, hstep.1, by omega⟩

/-- A history hands out at most one id for each of its adds. -/
theorem runOps_nextId (bm : Manager) (ops : List Op)
    (h : bm.nextId.toNat + adds ops < 2 ^ 32) :
    bm.nextId.toNat ≤ (runOps bm ops).nextId.toNat ∧
    (runOps bm ops).nextId.toNat ≤ bm.nextId.toNat + adds ops := by
  induction ops generalizing bm with
  | nil => exact ⟨Nat.le_refl _, Nat.le_add_right ..⟩
  | cons op ops ih =>
      rw [adds_cons] at h ⊢
      have hstep := apply_nextId bm op (by omega)
      have hrest := ih (apply bm op).1 (by omega)
      rw [runOps_cons]
      constructor
      · exact hstep.1.trans hrest.1
      · have := hrest.2
        omega

theorem runOps_idsOk {bm : Manager} (hok : bm.IdsOk) (ops : List Op)
    (h : bm.nextId.toNat + adds ops < 2 ^ 32) : (runOps bm ops).IdsOk := by
  induction ops generalizing bm with
  | nil => exact hok
  | cons op ops ih =>
      obtain ⟨hone, -, hle⟩ := room_cons h
      exact ih (apply_idsOk hok hone) hle

/-- An id handed out before a history names, after it, only what it named before. -/
theorem runOps_live_old {bm : Manager} {ops : List Op}
    (h : bm.nextId.toNat + adds ops < 2 ^ 32) {x : Backend} (hx : x ∈ (runOps bm ops).live)
    (hid : x.id.toNat < bm.nextId.toNat) : ∃ y ∈ bm.live, y.Same x := by
  induction ops generalizing bm with
  | nil => exact ⟨x, hx, rfl, rfl, rfl⟩
  | cons op ops ih =>
      obtain ⟨-, hmono, hle⟩ := room_cons h
      obtain ⟨y, hy, hyid, hya, hyp⟩ := ih hle hx (hid.trans_le hmono)
      obtain ⟨z, hz, hzid, hza, hzp⟩ := apply_live_old hy (by rw [← hyid]; exact hid)
      exact ⟨z, hz, hyid.trans hzid, hya.trans hza, hyp.trans hzp⟩

end MaglevLb.BackendManager
