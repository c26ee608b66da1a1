import MaglevLb.Datapath
import MaglevLb.TableFill
import MaglevLb.TableGenerator

/-!
# The table is a function of the eligible set

The candidates are sorted by id before the fill, so with distinct ids the order
in which the slots list them does not matter, nor does anything else of the
history: two eligible sets with the same ids and endpoints give one table. Flags
that are changed and changed back leave the live backends, and so the table, as
they were.
-/
namespace MaglevLb.TableDeterminism
open Maglev BackendManager TableGenerator

/-! ## Sorting by distinct keys -/

section Canonical
variable {α β : Type*} (le : α → α → Prop) [DecidableRel le] [Std.Total le] [IsTrans α le]

/-- What is observed of a sorted list does not depend on the order it came in, if
elements that rank equal look equal. -/
theorem map_insertionSort_eq {obs : α → β} {l₁ l₂ : List α}
    (hanti : ∀ x ∈ l₁, ∀ y ∈ l₂, le x y → le y x → obs x = obs y)
    {r : β → β → Prop} (hr : ∀ x y, r (obs x) (obs y) ↔ le x y)
    (hperm : (l₁.map obs).Perm (l₂.map obs)) :
    (l₁.insertionSort le).map obs = (l₂.insertionSort le).map obs := by
  have hsorted : ∀ l : List α, ((l.insertionSort le).map obs).Pairwise r := by
    intro l
    rw [List.pairwise_map]
    exact (List.pairwise_insertionSort le l).imp fun h => (hr _ _).mpr h
  have hp : ∀ l : List α, ((l.insertionSort le).map obs).Perm (l.map obs) :=
    fun l => (List.perm_insertionSort le l).map obs
  refine List.Perm.eq_of_pairwise ?_ (hsorted l₁) (hsorted l₂)
    (((hp l₁).trans hperm).trans (hp l₂).symm)
  intro a b ha hb hab hba
  obtain ⟨x, hx, rfl⟩ := List.mem_map.mp ((hp l₁).subset ha)
  obtain ⟨y, hy, rfl⟩ := List.mem_map.mp ((hp l₂).subset hb)
  exact hanti x hx y hy ((hr x y).mp hab) ((hr y x).mp hba)

end Canonical

/-! ## The candidates -/

/-- What the fill reads of a backend. -/
def triple (v : BackendView) : UInt32 × UInt32 × UInt16 := (v.id, v.addr, v.port)

/-- The order of `backend_view_cmp_by_id`. -/
def byId (v w : BackendView) : Prop := v.id ≤ w.id

instance : DecidableRel byId := fun v w => inferInstanceAs (Decidable (v.id ≤ w.id))

instance : Std.Total byId := ⟨fun v w => UInt32.le_total v.id w.id⟩

instance : IsTrans BackendView byId := ⟨fun _ _ _ h h' => UInt32.le_trans h h'⟩

theorem triple_nodup {vs : List BackendView} (h : (vs.map BackendView.id).Nodup) :
    (vs.map triple).Nodup := by
  apply List.Nodup.of_map Prod.fst
  rw [List.map_map]
  exact h

theorem candidates_eq (H : Hashes) (m : TableSize) {vs ws : List BackendView}
    (hv : (vs.map BackendView.id).Nodup) (hw : (ws.map BackendView.id).Nodup)
    (h : ∀ t, t ∈ vs.map triple ↔ t ∈ ws.map triple) :
    candidates H m vs = candidates H m ws := by
  have hperm : (vs.map triple).Perm (ws.map triple) :=
    (List.perm_ext_iff_of_nodup (triple_nodup hv) (triple_nodup hw)).mpr h
  have hkey : ∀ x ∈ vs, ∀ y ∈ ws, x.id = y.id → triple x = triple y := by
    intro x hx y hy hid
    obtain ⟨x', hx', he⟩ := List.mem_map.mp ((h (triple x)).mp (List.mem_map_of_mem hx))
    have hid' : x'.id = y.id := (congrArg Prod.fst he).trans hid
    rw [← he, List.inj_on_of_nodup_map hw hx' hy hid']
  have hsort := map_insertionSort_eq byId (r := fun a b => a.1 ≤ b.1)
    (fun x hx y hy hxy hyx => hkey x hx y hy (UInt32.le_antisymm hxy hyx))
    (fun x y => Iff.rfl) hperm
  have hobs : ∀ l : List BackendView,
      (l.map fun v => candidate H m v.id v.addr v.port) =
        (l.map triple).map fun t => candidate H m t.1 t.2.1 t.2.2 := by
    intro l
    rw [List.map_map]
    rfl
  rw [candidates, candidates, hobs, hobs]
  exact congrArg (List.map _) hsort

theorem maglevTableGenerate_of_triples (H : Hashes) (m : TableSize) {vs ws : List BackendView}
    (hv : (vs.map BackendView.id).Nodup) (hw : (ws.map BackendView.id).Nodup)
    (h : ∀ t, t ∈ vs.map triple ↔ t ∈ ws.map triple) :
    maglevTableGenerate H m vs = maglevTableGenerate H m ws := by
  rw [maglevTableGenerate_eq, maglevTableGenerate_eq, candidates_eq H m hv hw h]

/-! ## Flags that come back -/

def isFlip : Op → Bool
  | .setHealth _ _ | .setAdminState _ _ => true
  | _ => false

/-- What a change of a flag does to one backend. -/
def flip (b : Backend) : Op → Backend
  | .setHealth id healthy => if b.id = id then { b with healthy := healthy } else b
  | .setAdminState id state => if b.id = id then { b with adminState := state } else b
  | _ => b

theorem map_ite_eq_self {l : List Backend} {p : Backend → Prop} [DecidablePred p]
    {f : Backend → Backend} (h : ∀ b ∈ l, p b → f b = b) :
    (l.map fun b => if p b then f b else b) = l := by
  rw [List.map_congr_left (g := id), List.map_id]
  intro b hb
  split
  · next hp => exact h b hb hp
  · rfl

/-- With distinct ids only one element of the list answers to an id. -/
theorem map_ite_of_nodup {as bs : List Backend} {x : Backend} {id : UInt32}
    (hnodup : ((as ++ x :: bs).map Backend.id).Nodup) (hid : x.id = id) (f : Backend → Backend) :
    ((as ++ x :: bs).map fun b => if b.id = id then f b else b) = as ++ f x :: bs := by
  have hother : ∀ b ∈ as ++ bs, b.id ≠ id := by
    rw [← hid]
    exact (ids_nodup_middle.mp hnodup).1
  rw [List.map_append, List.map_cons, if_pos hid,
    map_ite_eq_self fun b hb he => absurd he (hother b (List.mem_append_left _ hb)),
    map_ite_eq_self fun b hb he => absurd he (hother b (List.mem_append_right _ hb))]

/-- With distinct ids a setter rewrites the backend it names and no other. -/
theorem updateBackend_live {bm : Manager} (hnodup : (bm.live.map Backend.id).Nodup) (id : UInt32)
    {stale : Backend → Bool} {f : Backend → Backend} (hf : ∀ b, stale b = false → f b = b) :
    (updateBackend bm id stale f).1.live = bm.live.map fun b => if b.id = id then f b else b := by
  unfold updateBackend
  split
  · next hnone =>
      rw [findSlot, Option.map_eq_none_iff, List.find?_eq_none] at hnone
      rw [map_ite_eq_self]
      intro b hb hid
      obtain ⟨s, hmem, hs⟩ := exists_slot_of_live hb
      rw [hid] at hs
      exact absurd hs (hnone s hmem)
  · next b hsome =>
      obtain ⟨s, hfind, rfl⟩ := Option.map_eq_some_iff.mp hsome
      have hmem := List.mem_of_find?_eq_some hfind
      obtain ⟨hused, hid⟩ := holdsId_iff.mp (List.find?_some hfind)
      split
      · split
        · next hnone =>
            have hs := List.find?_some hfind
            rw [Manager.rewrite_eq_none.mp hnone s hmem] at hs
            cases hs
        · next bm' hrewrite =>
            obtain ⟨l₁, t, l₂, hl, hl', ht, -⟩ := Manager.rewrite_split hrewrite
            obtain ⟨htused, htid⟩ := holdsId_iff.mp ht
            have hlive := live_of_slots hl
            have hlive' := live_of_slots hl'
            rw [if_pos htused] at hlive hlive'
            rw [hlive] at hnodup
            rw [hlive, hlive']
            exact (map_ite_of_nodup hnodup htid f).symm
      · next hstale =>
          rw [map_ite_eq_self]
          intro b hb hb_id
          have hlive : s.backend ∈ bm.live :=
            List.mem_map_of_mem (List.mem_filter.mpr ⟨hmem, hused⟩)
          rw [List.inj_on_of_nodup_map hnodup hb hlive (hb_id.trans hid.symm)]
          exact hf s.backend (Bool.eq_false_of_not_eq_true hstale)

theorem apply_flip_live {bm : Manager} (hnodup : (bm.live.map Backend.id).Nodup) {op : Op}
    (hop : isFlip op = true) : (apply bm op).1.live = bm.live.map fun b => flip b op := by
  cases op with
  | add addr port => cases hop
  | remove id => cases hop
  | setHealth id healthy =>
      apply updateBackend_live hnodup
      intro b hb
      have he : b.healthy = healthy := by simpa using hb
      rw [← he]
  | setAdminState id state =>
      apply updateBackend_live hnodup
      intro b hb
      have he : b.adminState = state := by simpa using hb
      rw [← he]
  | setMac id mac => cases hop

theorem flip_id (b : Backend) (op : Op) : (flip b op).id = b.id := by
  cases op with
  | setHealth id healthy =>
      dsimp only [flip]
      split <;> rfl
  | setAdminState id state =>
      dsimp only [flip]
      split <;> rfl
  | _ => rfl

theorem runOps_flips_live {bm : Manager} (hnodup : (bm.live.map Backend.id).Nodup)
    {flips : List Op} (hflips : ∀ op ∈ flips, isFlip op = true) :
    (runOps bm flips).live = bm.live.map fun b => flips.foldl flip b := by
  induction flips generalizing bm with
  | nil => simp [runOps]
  | cons op flips ih =>
      have hop := apply_flip_live hnodup (hflips op (by simp))
      have hids : ((apply bm op).1.live.map Backend.id) = bm.live.map Backend.id := by
        rw [hop, List.map_map]
        exact List.map_congr_left fun b _ => flip_id b op
      rw [runOps_cons, ih (by rwa [hids]) (fun o ho => hflips o (by simp [ho])), hop, List.map_map]
      rfl

/-- The candidates of a rebuild, as the slots list them. -/
def eligibleViews (bm : Manager) : List BackendView :=
  copyViews (backendManagerSnapshotEligible bm backendMax)

/-- Two histories whose eligible backends have the same ids and endpoints give one
table, however the backends are enumerated; and a history of failures,
recoveries, drains and undrains that returns every backend to its flags returns
to the table. -/
theorem table_determinism (H : Hashes) (m : TableSize) (history : List Op) :
    let bm := runOps backendManagerCreate history
    (∀ history' : List Op,
      let bm' := runOps backendManagerCreate history'
      ((eligibleViews bm).map BackendView.id).Nodup →
      ((eligibleViews bm').map BackendView.id).Nodup →
      (∀ t, t ∈ (eligibleViews bm).map triple ↔ t ∈ (eligibleViews bm').map triple) →
      ∀ vs ws : List BackendView, vs.Perm (eligibleViews bm) → ws.Perm (eligibleViews bm') →
        maglevTableGenerate H m vs = maglevTableGenerate H m ws) ∧
    ∀ flips : List Op, (∀ op ∈ flips, isFlip op = true) →
      (bm.live.map Backend.id).Nodup → (∀ b ∈ bm.live, flips.foldl flip b = b) →
      maglevTableGenerate H m (eligibleViews (runOps backendManagerCreate (history ++ flips))) =
        maglevTableGenerate H m (eligibleViews bm) := by
  intro bm
  constructor
  · intro history' bm' hids hids' hsame vs ws hvs hws
    apply maglevTableGenerate_of_triples
    · exact (hvs.map _).nodup_iff.mpr hids
    · exact (hws.map _).nodup_iff.mpr hids'
    · intro t
      rw [(hvs.map _).mem_iff, (hws.map _).mem_iff]
      exact hsame t
  · intro flips hflips hnodup hback
    have hlive : (runOps bm flips).live = bm.live := by
      rw [runOps_flips_live hnodup hflips, List.map_congr_left (g := id) hback, List.map_id]
    rw [runOps, EventRun.run_append, eligibleViews, eligibleViews, backendManagerSnapshotEligible,
      snapshotWhere_eq, snapshotWhere_eq]
    exact congrArg (fun l => maglevTableGenerate H m (copyViews (l.filter eligible))) hlive

/-- Two histories that list the backends 1 and 2 in opposite orders, the second
after the first slot has been used again. -/
theorem table_determinism_sample :
    let mac : PacketFormat.Mac := Vector.replicate 6 2
    let history : List Op := [.add 0 80, .add 0x0b00000a 80, .setMac 1 mac, .add 0x0c00000a 80,
      .setMac 2 mac, .remove 0]
    let history' : List Op := [.add 0 80, .add 0x0b00000a 80, .setMac 1 mac, .remove 0,
      .add 0x0c00000a 80, .setMac 2 mac]
    let flips : List Op := [.setHealth 1 false, .setAdminState 2 .draining, .setHealth 1 true,
      .setAdminState 2 .enabled]
    let views := eligibleViews (runOps backendManagerCreate history)
    let views' := eligibleViews (runOps backendManagerCreate history')
    let table := maglevTableGenerate Datapath.sampleHashes Datapath.sampleSize
    views ≠ views' ∧ table views = table views' ∧
      table (eligibleViews (runOps backendManagerCreate (history ++ flips))) = table views := by
  intro mac history history' flips views views' table
  have h := table_determinism Datapath.sampleHashes Datapath.sampleSize history
  refine ⟨by decide +kernel, ?_, ?_⟩
  · have hperm : (views.map triple).Perm (views'.map triple) := by decide +kernel
    exact h.1 history' (by decide +kernel) (by decide +kernel) (fun t => hperm.mem_iff)
      views views' (List.Perm.refl _) (List.Perm.refl _)
  · exact h.2 flips (by decide) (by decide +kernel) (by decide +kernel)

end MaglevLb.TableDeterminism
