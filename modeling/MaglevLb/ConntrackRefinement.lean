import MaglevLb.Conntrack
import Mathlib.Algebra.BigOperators.Fin

/-!
# The table as a family of flow lists

The abstract state of the table is the list of flow records in each bucket.
Under the representation invariant every operation on links and records is an
operation on these lists: a lookup touches the first record with its key, an
insert puts a record in front, a sweep filters one bucket.
-/
namespace MaglevLb.Conntrack
open PacketFormat IntrusiveChain SlabPool

variable {n b : ℕ}

/-- The slab entries of a bucket, in chain order. -/
def ConntrackTable.chain (ct : ConntrackTable n b) (i : Fin b) : List (Fin n) :=
  walk ct.links.next n (ct.links.head i)

def ConntrackTable.freeChain (ct : ConntrackTable n b) : List (Fin n) :=
  walk ct.links.next n ct.links.free

/-- The flow records of a bucket, in chain order. -/
def ConntrackTable.contents (ct : ConntrackTable n b) (i : Fin b) : List Flow :=
  (ct.chain i).map ct.flow

/-- The number of tracked flows. -/
def ConntrackTable.size (ct : ConntrackTable n b) : ℕ := ∑ i, (ct.contents i).length

/-- Every slab entry is in exactly one of the chains and the free list, every
record sits in the bucket of its key, and `active` counts the records. -/
structure ConntrackTable.Wf (flowHash : FlowKey → UInt64) (ct : ConntrackTable n b) : Prop where
  holds : ct.links.Holds ct.chain ct.freeChain
  placed : ∀ i, ∀ f ∈ ct.contents i, ct.bucketIndex flowHash f.key = i
  active_eq : ct.active = UInt64.ofNat ct.size

/-- A layout of the links is what walking them shows. -/
theorem chain_eq {ct : ConntrackTable n b} {l : Fin b → List (Fin n)} {f : List (Fin n)}
    (h : ct.links.Holds l f) : ct.chain = l ∧ ct.freeChain = f := by
  have hlen : ∀ {p : Option (Fin n)} {l : List (Fin n)}, IsChain ct.links.next p l →
      l.length ≤ n := fun hc => by simpa using hc.length_le
  constructor
  · funext i
    exact walk_eq (h.head i) (hlen (h.head i))
  · exact walk_eq h.free (hlen h.free)

theorem contents_eq {ct : ConntrackTable n b} {l : Fin b → List (Fin n)} {f : List (Fin n)}
    (h : ct.links.Holds l f) (i : Fin b) : ct.contents i = (l i).map ct.flow := by
  rw [ConntrackTable.contents, (chain_eq h).1]

theorem wf_of_holds {flowHash : FlowKey → UInt64} {ct : ConntrackTable n b}
    {l : Fin b → List (Fin n)} {f : List (Fin n)} (h : ct.links.Holds l f)
    (hp : ∀ i, ∀ g ∈ ct.contents i, ct.bucketIndex flowHash g.key = i)
    (ha : ct.active = UInt64.ofNat ct.size) : ct.Wf flowHash := by
  obtain ⟨hl, hf⟩ := chain_eq h
  exact ⟨hl.symm ▸ hf.symm ▸ h, hp, ha⟩

/-- The records and the free entries fill the slab. -/
theorem ConntrackTable.Wf.size_add {flowHash : FlowKey → UInt64} {ct : ConntrackTable n b}
    (h : ct.Wf flowHash) : ct.size + ct.freeChain.length = n := by
  have ht := h.holds.total
  simpa only [ConntrackTable.size, ConntrackTable.contents, List.length_map,
    Fintype.card_fin] using ht

/-- Rewriting one bucket moves a total by the difference of that bucket. -/
theorem sum_update {α : Type*} (c : Fin b → α) (g : α → ℕ) (i : Fin b) (x : α) :
    (∑ j, g (Function.update c i x j)) + g (c i) = (∑ j, g (c j)) + g x := by
  have h : (fun j => g (Function.update c i x j)) =
      Function.update (fun j => g (c j)) i (g x) := by
    funext j
    rcases eq_or_ne j i with rfl | hj
    · simp
    · simp [Function.update_of_ne hj]
  rw [h, Finset.sum_update_of_mem (Finset.mem_univ i), Finset.sdiff_singleton_eq_erase,
    ← Finset.add_sum_erase Finset.univ (fun j => g (c j)) (Finset.mem_univ i)]
  omega

section
variable {flowHash : FlowKey → UInt64}

/-- Writing one record leaves every bucket without that entry as it was. -/
theorem map_update_of_notMem {flow : Fin n → Flow} {e : Fin n} {f : Flow} {l : List (Fin n)}
    (he : e ∉ l) : l.map (Function.update flow e f) = l.map flow := by
  apply List.map_congr_left
  intro a ha
  have hne : a ≠ e := fun h => he (h ▸ ha)
  rw [Function.update_of_ne hne]

theorem conntrackInit_wf (pow2 : b.isPowerOfTwo) (garbage : Fin n → Flow) :
    (conntrackInit n b pow2 garbage).Wf flowHash := by
  let ct := conntrackInit n b pow2 garbage
  have hfrom : ∀ k (hk : k ≤ n), IsChain ct.links.next
      (if h : k < n then some ⟨k, h⟩ else none) ((List.finRange n).drop k) := by
    intro k hk
    induction hd : n - k generalizing k with
    | zero =>
        obtain rfl : k = n := by omega
        rw [List.drop_of_length_le (by simp), dif_neg (Nat.lt_irrefl k)]
        exact isChain_nil.mpr rfl
    | succ d ih =>
        have hlt : k < n := by omega
        rw [dif_pos hlt, List.drop_eq_getElem_cons (by simpa using hlt), List.getElem_finRange]
        exact ⟨rfl, ih (k + 1) hlt (by omega)⟩
  have hholds : ct.links.Holds (fun _ => []) (List.finRange n) := by
    constructor
    · intro i
      exact isChain_nil.mpr rfl
    · exact hfrom 0 (Nat.zero_le n)
    · intro i j a ha
      cases ha
    · intro i a ha
      cases ha
    · intro a
      exact Or.inl (List.mem_finRange a)
  apply wf_of_holds hholds
  · intro i f hf
    rw [contents_eq hholds] at hf
    cases hf
  · have hz : ct.size = 0 := by simp [ConntrackTable.size, contents_eq hholds]
    rw [hz]
    rfl

theorem touch_key (ct : ConntrackTable n b) (e a : Fin n) (now : UInt64) :
    ((ct.touch e now).flow a).key = (ct.flow a).key := by
  simp only [ConntrackTable.touch]
  rcases eq_or_ne a e with rfl | ha
  · rw [Function.update_self]
  · rw [Function.update_of_ne ha]

theorem ConntrackTable.Wf.touch {ct : ConntrackTable n b} (h : ct.Wf flowHash) (e : Fin n)
    (now : UInt64) : (ct.touch e now).Wf flowHash := by
  refine ⟨h.holds, ?_, ?_⟩
  · intro i f hf
    obtain ⟨a, ha, rfl⟩ := List.mem_map.mp hf
    rw [touch_key]
    exact h.placed i (ct.flow a) (List.mem_map_of_mem ha)
  · have hs : (ct.touch e now).size = ct.size := by
      simp only [ConntrackTable.size, ConntrackTable.contents, List.length_map]
      rfl
    rw [hs]
    exact h.active_eq

theorem touch_contents {ct : ConntrackTable n b} (h : ct.Wf flowHash) {i : Fin b} {e : Fin n}
    {as bs : List (Fin n)} (hl : ct.chain i = as ++ e :: bs) (now : UInt64) :
    (ct.touch e now).contents = Function.update ct.contents i
      (as.map ct.flow ++ { ct.flow e with lastSeenNs := now } :: bs.map ct.flow) := by
  have hnd := (h.holds.head i).nodup
  rw [hl] at hnd
  have hne : e ∉ as ++ bs := (List.nodup_cons.mp (List.nodup_middle.mp hnd)).1
  simp only [List.mem_append, not_or] at hne
  funext j
  rcases eq_or_ne j i with rfl | hj
  · rw [Function.update_self]
    change (ct.chain j).map (Function.update ct.flow e _) = _
    rw [hl, List.map_append, List.map_cons, map_update_of_notMem hne.1,
      map_update_of_notMem hne.2, Function.update_self]
  · have hej : e ∉ ct.chain j := fun he =>
      hj (h.holds.disjoint j i e he (by rw [hl]; simp))
    rw [Function.update_of_ne hj]
    exact map_update_of_notMem hej

/-- A lookup misses and changes nothing, or touches the first record with the key. -/
theorem conntrackLookup_cases {ct : ConntrackTable n b} (h : ct.Wf flowHash) (key : FlowKey)
    (now : UInt64) :
    (conntrackLookup flowHash ct key now = (ct, none) ∧
      ∀ f ∈ ct.contents (ct.bucketIndex flowHash key), f.key ≠ key) ∨
    (∃ ct' l₁ f l₂, conntrackLookup flowHash ct key now = (ct', some f.backendId) ∧
      ct.contents (ct.bucketIndex flowHash key) = l₁ ++ f :: l₂ ∧ f.key = key ∧
      (∀ g ∈ l₁, g.key ≠ key) ∧ ct'.Wf flowHash ∧ ct'.sweepCursor = ct.sweepCursor ∧
      ct'.contents = Function.update ct.contents (ct.bucketIndex flowHash key)
        (l₁ ++ { f with lastSeenNs := now } :: l₂)) := by
  have hlen : (ct.chain (ct.bucketIndex flowHash key)).length ≤ n := by
    simpa using (h.holds.head (ct.bucketIndex flowHash key)).length_le
  rw [conntrackLookup, firstMatch_eq (h.holds.head (ct.bucketIndex flowHash key)) hlen]
  cases hm : (ct.chain (ct.bucketIndex flowHash key)).find? (fun e => (ct.flow e).key == key) with
  | none =>
      refine Or.inl ⟨rfl, ?_⟩
      intro f hf
      obtain ⟨e, he, rfl⟩ := List.mem_map.mp hf
      simpa using List.find?_eq_none.mp hm e he
  | some e =>
      obtain ⟨hkey, as, bs, hl, hfirst⟩ := List.find?_eq_some_iff_append.mp hm
      refine Or.inr ⟨ct.touch e now, as.map ct.flow, ct.flow e, bs.map ct.flow, rfl, ?_,
        by simpa using hkey, ?_, h.touch e now, rfl, touch_contents h hl now⟩
      · rw [ConntrackTable.contents, hl, List.map_append, List.map_cons]
      · intro g hg
        obtain ⟨a, ha, rfl⟩ := List.mem_map.mp hg
        simpa using hfirst a ha

/-- An insert fails and changes nothing when the slab is full; otherwise it puts
one record in front of its bucket. -/
theorem conntrackInsert_cases {ct : ConntrackTable n b} (h : ct.Wf flowHash) (key : FlowKey)
    (backendId : Int32) (now : UInt64) :
    (conntrackInsert flowHash ct key backendId now = none ∧ ct.size = n) ∨
    (∃ ct', conntrackInsert flowHash ct key backendId now = some ct' ∧ ct.size < n ∧
      ct'.Wf flowHash ∧ ct'.sweepCursor = ct.sweepCursor ∧
      ct'.contents = Function.update ct.contents (ct.bucketIndex flowHash key)
        (⟨key, backendId, now⟩ :: ct.contents (ct.bucketIndex flowHash key))) := by
  have hsum := h.size_add
  cases hf : ct.freeChain with
  | nil =>
      rw [hf] at hsum
      have hh := h.holds
      rw [hf] at hh
      refine Or.inl ⟨?_, by simpa using hsum⟩
      rw [conntrackInsert, Pool.pop_eq_none hh]
  | cons e f =>
      rw [hf, List.length_cons] at hsum
      have hh := h.holds
      rw [hf] at hh
      let ct' : ConntrackTable n b :=
        { ct with
          flow := Function.update ct.flow e ⟨key, backendId, now⟩
          links := ({ ct.links with free := ct.links.next e } : Pool (Fin n) (Fin b)).pushHead
            (ct.bucketIndex flowHash key) e
          active := ct.active + 1 }
      have hins : conntrackInsert flowHash ct key backendId now = some ct' := by
        rw [conntrackInsert, Pool.pop_eq hh]
      have hpush : ct'.links.Holds _ f := hh.pushHead (ct.bucketIndex flowHash key)
      have hel : ∀ j, e ∉ ct.chain j := fun j hj => hh.apart j e hj (by simp)
      have hcont : ct'.contents = Function.update ct.contents (ct.bucketIndex flowHash key)
          (⟨key, backendId, now⟩ :: ct.contents (ct.bucketIndex flowHash key)) := by
        funext j
        rw [contents_eq hpush]
        rcases eq_or_ne j (ct.bucketIndex flowHash key) with rfl | hj
        · simp only [Function.update_self, List.map_cons]
          rw [show ct'.flow e = ⟨key, backendId, now⟩ from Function.update_self ..]
          exact congrArg _ (map_update_of_notMem (hel _))
        · simp only [Function.update_of_ne hj]
          exact map_update_of_notMem (hel j)
      refine Or.inr ⟨ct', hins, by omega, wf_of_holds hpush ?_ ?_, rfl, hcont⟩
      · intro j g hg
        rw [hcont] at hg
        rcases eq_or_ne j (ct.bucketIndex flowHash key) with rfl | hj
        · rw [Function.update_self, List.mem_cons] at hg
          rcases hg with rfl | hg
          · rfl
          · exact h.placed _ g hg
        · rw [Function.update_of_ne hj] at hg
          exact h.placed j g hg
      · have hsz : ct'.size = ct.size + 1 := by
          have hu := sum_update ct.contents List.length (ct.bucketIndex flowHash key)
            (⟨key, backendId, now⟩ :: ct.contents (ct.bucketIndex flowHash key))
          rw [← hcont, List.length_cons] at hu
          change ct'.size + _ = ct.size + _ at hu
          omega
        rw [hsz, UInt64.ofNat_add, ← h.active_eq]
        rfl

/-- Sweeping the bucket under the cursor filters it. -/
theorem reapBucket_spec {ct : ConntrackTable n b} (h : ct.Wf flowHash) (t : Timeouts)
    (now : UInt64) :
    (reapBucket t now ct).1.Wf flowHash ∧
    (reapBucket t now ct).1.contents = Function.update ct.contents ct.sweepCursor
      ((ct.contents ct.sweepCursor).filter fun f => !expired t now f) ∧
    (reapBucket t now ct).1.sweepCursor.val = (ct.sweepCursor.val + 1) % b ∧
    (reapBucket t now ct).2 =
      ((ct.contents ct.sweepCursor).filter (expired t now)).map Flow.backendId := by
  have hlen : (ct.chain ct.sweepCursor).length < n + 1 := by
    have := (h.holds.head ct.sweepCursor).length_le
    rw [Fintype.card_fin] at this
    omega
  obtain ⟨hholds, hev⟩ := h.holds.sweep (fun e => expired t now (ct.flow e))
    ct.sweepCursor hlen
  have hcont : (reapBucket t now ct).1.contents = Function.update ct.contents ct.sweepCursor
      ((ct.contents ct.sweepCursor).filter fun f => !expired t now f) := by
    funext j
    rw [contents_eq hholds]
    rcases eq_or_ne j ct.sweepCursor with rfl | hj
    · simp only [Function.update_self, ConntrackTable.contents, List.filter_map]
      rfl
    · simp only [Function.update_of_ne hj]
      rfl
  refine ⟨wf_of_holds hholds ?_ ?_, hcont, rfl, ?_⟩
  · intro j g hg
    rw [hcont] at hg
    rcases eq_or_ne j ct.sweepCursor with rfl | hj
    · rw [Function.update_self] at hg
      exact h.placed _ g (List.mem_of_mem_filter hg)
    · rw [Function.update_of_ne hj] at hg
      exact h.placed j g hg
  · have hu := sum_update ct.contents List.length ct.sweepCursor
      ((ct.contents ct.sweepCursor).filter fun f => !expired t now f)
    rw [← hcont] at hu
    change (reapBucket t now ct).1.size + _ = ct.size + _ at hu
    have hev' : (Pool.sweep (fun e => expired t now (ct.flow e)) (n + 1)
        (.head ct.sweepCursor) ct.links).2.length =
        ((ct.contents ct.sweepCursor).filter (expired t now)).length := by
      rw [hev, ConntrackTable.contents, List.filter_map, List.length_map]
      rfl
    have hsplit := List.length_eq_length_filter_add (l := ct.contents ct.sweepCursor)
      (expired t now)
    have hsz : ct.size = (reapBucket t now ct).1.size +
        ((ct.contents ct.sweepCursor).filter (expired t now)).length := by omega
    change ct.active - UInt64.ofNat _ = _
    rw [hev', h.active_eq, hsz, UInt64.ofNat_add, UInt64.add_sub_cancel]
  · change List.map _ _ = _
    rw [hev, ConntrackTable.contents, List.filter_map, List.map_map]
    rfl

/-- The records of one key. -/
def ConntrackTable.records (flowHash : FlowKey → UInt64) (ct : ConntrackTable n b)
    (key : FlowKey) : List Flow :=
  (ct.contents (ct.bucketIndex flowHash key)).filter fun f => f.key = key

/-- Rewriting another bucket does not concern the records of a key. -/
theorem records_of_ne {ct ct' : ConntrackTable n b} {key : FlowKey} {i : Fin b} {l : List Flow}
    (hc : ct'.contents = Function.update ct.contents i l)
    (hi : ct.bucketIndex flowHash key ≠ i) :
    ct'.records flowHash key = ct.records flowHash key := by
  have hb : ct'.contents (ct'.bucketIndex flowHash key) =
      ct.contents (ct.bucketIndex flowHash key) := by
    rw [hc]
    exact Function.update_of_ne hi l ct.contents
  rw [ConntrackTable.records, ConntrackTable.records, hb]

theorem records_of_eq {ct ct' : ConntrackTable n b} {key : FlowKey} {i : Fin b} {l : List Flow}
    (hc : ct'.contents = Function.update ct.contents i l)
    (hi : ct.bucketIndex flowHash key = i) :
    ct'.records flowHash key = l.filter fun f => f.key = key := by
  subst hi
  have hb : ct'.contents (ct'.bucketIndex flowHash key) = l := by
    rw [hc]
    exact Function.update_self ..
  rw [ConntrackTable.records, hb]

theorem conntrackLookup_wf {ct : ConntrackTable n b} (h : ct.Wf flowHash) (key : FlowKey)
    (now : UInt64) : (conntrackLookup flowHash ct key now).1.Wf flowHash := by
  rcases conntrackLookup_cases h key now with ⟨he, -⟩ | ⟨ct', _, _, _, he, -, -, -, hwf, -, -⟩
  · rw [he]
    exact h
  · rw [he]
    exact hwf

theorem conntrackInsert_wf {ct ct' : ConntrackTable n b} (h : ct.Wf flowHash) {key : FlowKey}
    {backendId : Int32} {now : UInt64}
    (hi : conntrackInsert flowHash ct key backendId now = some ct') : ct'.Wf flowHash := by
  rcases conntrackInsert_cases h key backendId now with ⟨he, -⟩ | ⟨ct'', he, -, hwf, -, -⟩
  · rw [he] at hi
    cases hi
  · rw [he] at hi
    cases hi
    exact hwf

/-- A lookup of one key keeps the records of every other key. -/
theorem conntrackLookup_records_of_ne {ct : ConntrackTable n b} (h : ct.Wf flowHash)
    {key key' : FlowKey} (hne : key' ≠ key) (now : UInt64) :
    (conntrackLookup flowHash ct key' now).1.records flowHash key = ct.records flowHash key := by
  rcases conntrackLookup_cases h key' now with
    ⟨he, -⟩ | ⟨ct', l₁, f, l₂, he, hl, hk, -, -, -, hc⟩
  · rw [he]
  · rw [he]
    by_cases hi : ct.bucketIndex flowHash key = ct.bucketIndex flowHash key'
    · rw [records_of_eq hc hi, ConntrackTable.records, hi, hl]
      have hf : f.key ≠ key := hk ▸ hne
      simp [List.filter_append, hf]
    · exact records_of_ne hc hi

/-- A lookup answers with the first record of its key and refreshes it. -/
theorem conntrackLookup_records {ct : ConntrackTable n b} (h : ct.Wf flowHash) {key : FlowKey}
    {f : Flow} {fs : List Flow} (hr : ct.records flowHash key = f :: fs) (now : UInt64) :
    (conntrackLookup flowHash ct key now).2 = some f.backendId ∧
    (conntrackLookup flowHash ct key now).1.records flowHash key =
      { f with lastSeenNs := now } :: fs := by
  rcases conntrackLookup_cases h key now with
    ⟨-, hmiss⟩ | ⟨ct', l₁, g, l₂, he, hl, hk, hfirst, -, -, hc⟩
  · have hnil : ct.records flowHash key = [] := by
      simpa [ConntrackTable.records, List.filter_eq_nil_iff] using hmiss
    rw [hnil] at hr
    cases hr
  · have hpre : (l₁.filter fun f => f.key = key) = [] := by
      simpa [List.filter_eq_nil_iff] using hfirst
    have hrec : ct.records flowHash key = g :: l₂.filter fun f => f.key = key := by
      rw [ConntrackTable.records, hl, List.filter_append, hpre]
      simp [hk]
    rw [hrec, List.cons.injEq] at hr
    obtain ⟨rfl, rfl⟩ := hr
    rw [he, records_of_eq hc rfl, List.filter_append, hpre]
    simp [hk]

/-- A miss means that the key has no record. -/
theorem conntrackLookup_miss {ct : ConntrackTable n b} (h : ct.Wf flowHash) {key : FlowKey}
    {now : UInt64} (hm : (conntrackLookup flowHash ct key now).2 = none) :
    (conntrackLookup flowHash ct key now).1 = ct ∧ ct.records flowHash key = [] := by
  rcases conntrackLookup_cases h key now with ⟨he, hmiss⟩ | ⟨ct', _, _, _, he, -⟩
  · rw [he]
    exact ⟨rfl, by simpa [ConntrackTable.records, List.filter_eq_nil_iff] using hmiss⟩
  · rw [he] at hm
    cases hm

theorem conntrackInsert_records {ct ct' : ConntrackTable n b} (h : ct.Wf flowHash)
    {key' : FlowKey} {backendId : Int32} {now : UInt64}
    (hi : conntrackInsert flowHash ct key' backendId now = some ct') (key : FlowKey) :
    ct'.records flowHash key =
      (if key' = key then [⟨key', backendId, now⟩] else []) ++ ct.records flowHash key := by
  rcases conntrackInsert_cases h key' backendId now with ⟨he, -⟩ | ⟨ct'', he, -, -, -, hc⟩
  · rw [he] at hi
    cases hi
  · rw [he] at hi
    cases hi
    by_cases hb : ct.bucketIndex flowHash key = ct.bucketIndex flowHash key'
    · rw [records_of_eq hc hb, List.filter_cons, ConntrackTable.records, hb]
      split <;> simp_all
    · have hne : key' ≠ key := fun he => hb (he ▸ rfl)
      rw [records_of_ne hc hb, if_neg hne]
      rfl

/-- A sweep of one bucket removes only expired records. -/
theorem reapBucket_records {ct : ConntrackTable n b} (h : ct.Wf flowHash) (t : Timeouts)
    (now : UInt64) {key : FlowKey}
    (hlive : ∀ f ∈ ct.records flowHash key, expired t now f = false) :
    (reapBucket t now ct).1.records flowHash key = ct.records flowHash key := by
  obtain ⟨-, hc, -, -⟩ := reapBucket_spec h t now
  by_cases hi : ct.bucketIndex flowHash key = ct.sweepCursor
  · rw [records_of_eq hc hi, ← hi, List.filter_comm]
    change (ct.records flowHash key).filter _ = _
    rw [List.filter_eq_self]
    intro f hf
    rw [hlive f hf]
    rfl
  · exact records_of_ne hc hi

theorem reapLoop_records (t : Timeouts) (now : UInt64) {key : FlowKey} (k : ℕ)
    {ct : ConntrackTable n b} (h : ct.Wf flowHash)
    (hlive : ∀ f ∈ ct.records flowHash key, expired t now f = false) :
    (reapLoop t now k ct).1.records flowHash key = ct.records flowHash key := by
  induction k generalizing ct with
  | zero => rfl
  | succ k ih =>
      have hone := reapBucket_records h t now hlive
      rw [reapLoop, ih (reapBucket_spec h t now).1 (hone ▸ hlive), hone]

theorem reapLoop_wf (t : Timeouts) (now : UInt64) (k : ℕ) {ct : ConntrackTable n b}
    (h : ct.Wf flowHash) : (reapLoop t now k ct).1.Wf flowHash := by
  induction k generalizing ct with
  | zero => exact h
  | succ k ih => exact ih (reapBucket_spec h t now).1

end

end MaglevLb.Conntrack
