import MaglevLb.ConntrackRefinement
import Mathlib.Algebra.BigOperators.Group.Finset.Basic
import Mathlib.Algebra.Order.BigOperators.Group.Multiset

/-!
# The tracked flows as a multiset

Forgetting which bucket a record is in and where it stands there leaves the
multiset of tracked flows. A lookup exchanges one record, an insert adds one, and
a sweep removes the expired records of the buckets it scans.
-/
namespace MaglevLb.Conntrack
open PacketFormat

variable {n b : ℕ} {flowHash : FlowKey → UInt64}

def ConntrackTable.flows (ct : ConntrackTable n b) : Multiset Flow :=
  ∑ i, (ct.contents i : Multiset Flow)

theorem mem_flows {ct : ConntrackTable n b} {f : Flow} :
    f ∈ ct.flows ↔ ∃ i, f ∈ ct.contents i := by
  simp [ConntrackTable.flows, Multiset.mem_sum]

theorem card_flows (ct : ConntrackTable n b) : ct.flows.card = ct.size := by
  simp [ConntrackTable.flows, ConntrackTable.size, Multiset.card_sum]

theorem conntrackInit_contents (pow2 : b.isPowerOfTwo) (garbage : Fin n → Flow) (i : Fin b) :
    (conntrackInit n b pow2 garbage).contents i = [] := by
  have hchain : (conntrackInit n b pow2 garbage).chain i = [] :=
    IntrusiveChain.walk_eq (IntrusiveChain.isChain_nil.mpr rfl) (Nat.zero_le n)
  rw [ConntrackTable.contents, hchain, List.map_nil]

theorem conntrackInit_flows (pow2 : b.isPowerOfTwo) (garbage : Fin n → Flow) :
    (conntrackInit n b pow2 garbage).flows = 0 := by
  apply Multiset.eq_zero_of_forall_notMem
  intro f hf
  obtain ⟨i, hi⟩ := mem_flows.mp hf
  rw [conntrackInit_contents] at hi
  cases hi

/-- A record is in the bucket of its key, if it is anywhere. -/
theorem ConntrackTable.Wf.mem_flows_iff {ct : ConntrackTable n b} (h : ct.Wf flowHash) {f : Flow} :
    f ∈ ct.flows ↔ f ∈ ct.contents (ct.bucketIndex flowHash f.key) := by
  rw [mem_flows]
  constructor
  · rintro ⟨i, hf⟩
    rwa [h.placed i f hf]
  · intro hf
    exact ⟨_, hf⟩

/-- Rewriting one bucket leaves the records of the other buckets. -/
theorem flows_update {ct ct' : ConntrackTable n b} {i : Fin b} {l : List Flow}
    (hc : ct'.contents = Function.update ct.contents i l) :
    ∃ rest : Multiset Flow, ct.flows = ↑(ct.contents i) + rest ∧ ct'.flows = ↑l + rest ∧
      ∀ f ∈ rest, ∃ j ≠ i, f ∈ ct.contents j := by
  refine ⟨∑ j ∈ Finset.univ.erase i, (ct.contents j : Multiset Flow), ?_, ?_, ?_⟩
  · exact (Finset.add_sum_erase _ _ (Finset.mem_univ i)).symm
  · have hi : ct'.contents i = l := by
      rw [hc, Function.update_self]
    have hrest : ∑ j ∈ Finset.univ.erase i, (ct'.contents j : Multiset Flow) =
        ∑ j ∈ Finset.univ.erase i, (ct.contents j : Multiset Flow) := by
      apply Finset.sum_congr rfl
      intro j hj
      rw [hc, Function.update_of_ne (Finset.ne_of_mem_erase hj)]
    rw [ConntrackTable.flows, ← Finset.add_sum_erase _ _ (Finset.mem_univ i), hi, hrest]
  · intro f hf
    obtain ⟨j, hj, hf⟩ := Multiset.mem_sum.mp hf
    exact ⟨j, Finset.ne_of_mem_erase hj, hf⟩

/-! ### Lookup and insert -/

/-- A lookup misses when no record has the key, and otherwise refreshes one that has it. -/
theorem conntrackLookup_flows {ct : ConntrackTable n b} (h : ct.Wf flowHash) (key : FlowKey)
    (now : UInt64) :
    (conntrackLookup flowHash ct key now = (ct, none) ∧ ∀ f ∈ ct.flows, f.key ≠ key) ∨
    (∃ ct' f rest, conntrackLookup flowHash ct key now = (ct', some f.backendId) ∧ f.key = key ∧
      ct'.Wf flowHash ∧ ct'.sweepCursor = ct.sweepCursor ∧ ct.flows = f ::ₘ rest ∧
      ct'.flows = { f with lastSeenNs := now } ::ₘ rest) := by
  rcases conntrackLookup_cases h key now with
    ⟨he, hmiss⟩ | ⟨ct', l₁, f, l₂, he, hl, hk, -, hwf, hcursor, hc⟩
  · refine Or.inl ⟨he, fun f hf hkey => ?_⟩
    subst hkey
    exact hmiss f (h.mem_flows_iff.mp hf) rfl
  · obtain ⟨rest, hflows, hflows', -⟩ := flows_update hc
    refine Or.inr ⟨ct', f, ↑(l₁ ++ l₂) + rest, he, hk, hwf, hcursor, ?_, ?_⟩
    · rw [hflows, hl, ← Multiset.cons_add, Multiset.cons_coe]
      exact congrArg (· + rest) (Multiset.coe_eq_coe.mpr List.perm_middle)
    · rw [hflows', ← Multiset.cons_add, Multiset.cons_coe]
      exact congrArg (· + rest) (Multiset.coe_eq_coe.mpr List.perm_middle)

/-- An insert fails when the slab is full, and otherwise adds one record. -/
theorem conntrackInsert_flows {ct : ConntrackTable n b} (h : ct.Wf flowHash) (key : FlowKey)
    (backendId : Int32) (now : UInt64) :
    (conntrackInsert flowHash ct key backendId now = none ∧ ct.flows.card = n) ∨
    (∃ ct', conntrackInsert flowHash ct key backendId now = some ct' ∧ ct.flows.card < n ∧
      ct'.Wf flowHash ∧ ct'.sweepCursor = ct.sweepCursor ∧
      ct'.flows = ⟨key, backendId, now⟩ ::ₘ ct.flows) := by
  rw [card_flows]
  rcases conntrackInsert_cases h key backendId now with
    ⟨he, hfull⟩ | ⟨ct', he, hroom, hwf, hcursor, hc⟩
  · exact Or.inl ⟨he, hfull⟩
  · obtain ⟨rest, hflows, hflows', -⟩ := flows_update hc
    refine Or.inr ⟨ct', he, hroom, hwf, hcursor, ?_⟩
    rw [hflows', hflows, ← Multiset.cons_coe, Multiset.cons_add]

/-! ### The sweep -/

/-- A sweep of `k` buckets from the cursor scans bucket `j`. -/
def Scans (cursor : Fin b) (k : ℕ) (j : Fin b) : Prop := ∃ i < k, (cursor.val + i) % b = j.val

instance (cursor : Fin b) (k : ℕ) (j : Fin b) : Decidable (Scans cursor k j) :=
  inferInstanceAs (Decidable (∃ i < k, (cursor.val + i) % b = j.val))

theorem not_scans_zero (cursor j : Fin b) : ¬ Scans cursor 0 j := by
  rintro ⟨i, hi, -⟩
  exact absurd hi (Nat.not_lt_zero i)

theorem scans_succ {cursor next j : Fin b} (hnext : next.val = (cursor.val + 1) % b) (k : ℕ) :
    Scans cursor (k + 1) j ↔ j = cursor ∨ Scans next k j := by
  have hshift : ∀ i, (cursor.val + (i + 1)) % b = (next.val + i) % b := by
    intro i
    rw [hnext, Nat.mod_add_mod, Nat.add_right_comm, Nat.add_assoc]
  constructor
  · rintro ⟨i, hi, heq⟩
    cases i with
    | zero =>
        rw [Nat.add_zero, Nat.mod_eq_of_lt cursor.isLt] at heq
        exact Or.inl (Fin.ext heq.symm)
    | succ i =>
        rw [hshift] at heq
        exact Or.inr ⟨i, by omega, heq⟩
  · rintro (rfl | ⟨i, hi, heq⟩)
    · exact ⟨0, by omega, by rw [Nat.add_zero, Nat.mod_eq_of_lt j.isLt]⟩
    · exact ⟨i + 1, by omega, by rw [hshift, heq]⟩

/-- What a sweep does to the multiset of flows: `p` is the condition for removal. -/
structure Swept (flowHash : FlowKey → UInt64) (p : Flow → Prop) [DecidablePred p]
    (ct ct' : ConntrackTable n b) (evicted : List Int32) : Prop where
  wf : ct'.Wf flowHash
  flows : ct'.flows = ct.flows.filter fun f => ¬ p f
  evicted : (evicted : Multiset Int32) = (ct.flows.filter p).map Flow.backendId

theorem Swept.trans {p q r : Flow → Prop} [DecidablePred p] [DecidablePred q] [DecidablePred r]
    {ct₁ ct₂ ct₃ : ConntrackTable n b} {ev ev' : List Int32} (h : Swept flowHash p ct₁ ct₂ ev)
    (h' : Swept flowHash q ct₂ ct₃ ev') (hr : ∀ f, r f ↔ p f ∨ q f) :
    Swept flowHash r ct₁ ct₃ (ev ++ ev') := by
  refine ⟨h'.wf, ?_, ?_⟩
  · rw [h'.flows, h.flows, Multiset.filter_filter]
    apply Multiset.filter_congr
    intro f _
    rw [hr, not_or, and_comm]
  · have hsplit := Multiset.filter_add_filter p (fun f => q f ∧ ¬ p f) ct₁.flows
    have hnone : ct₁.flows.filter (fun f => p f ∧ q f ∧ ¬ p f) = 0 :=
      Multiset.filter_eq_nil.mpr fun f _ hf => hf.2.2 hf.1
    have hor : ct₁.flows.filter (fun f => p f ∨ q f ∧ ¬ p f) = ct₁.flows.filter r := by
      apply Multiset.filter_congr
      intro f _
      rw [hr]
      tauto
    rw [hnone, add_zero, hor] at hsplit
    rw [← Multiset.coe_add, h.evicted, h'.evicted, h.flows, Multiset.filter_filter, ← hsplit,
      Multiset.map_add]

theorem reapBucket_swept {ct : ConntrackTable n b} (h : ct.Wf flowHash) (t : Timeouts)
    (now : UInt64) :
    Swept flowHash
      (fun f => ct.bucketIndex flowHash f.key = ct.sweepCursor ∧ expired t now f = true)
      ct (reapBucket t now ct).1 (reapBucket t now ct).2 := by
  obtain ⟨hwf, hc, -, hev⟩ := reapBucket_spec h t now
  obtain ⟨rest, hflows, hflows', hrest⟩ := flows_update hc
  have hout : ∀ f ∈ rest, ¬ ct.bucketIndex flowHash f.key = ct.sweepCursor := by
    intro f hf heq
    obtain ⟨j, hj, hmem⟩ := hrest f hf
    exact hj ((h.placed j f hmem).symm.trans heq)
  refine ⟨hwf, ?_, ?_⟩
  · have hkeep : rest.filter (fun f => ¬ (ct.bucketIndex flowHash f.key = ct.sweepCursor ∧
        expired t now f = true)) = rest :=
      Multiset.filter_eq_self.mpr fun f hf hp => hout f hf hp.1
    rw [hflows', hflows, Multiset.filter_add, hkeep, Multiset.filter_coe]
    congr 2
    apply List.filter_congr
    intro f hf
    simp [h.placed _ f hf]
  · have hnone : rest.filter (fun f => ct.bucketIndex flowHash f.key = ct.sweepCursor ∧
        expired t now f = true) = 0 :=
      Multiset.filter_eq_nil.mpr fun f hf hp => hout f hf hp.1
    rw [hev, hflows, Multiset.filter_add, hnone, add_zero, Multiset.filter_coe, Multiset.map_coe]
    congr 2
    apply List.filter_congr
    intro f hf
    simp [h.placed _ f hf]

/-- The loop removes the expired records of the buckets it scans. -/
theorem reapLoop_swept (t : Timeouts) (now : UInt64) (k : ℕ) {ct : ConntrackTable n b}
    (h : ct.Wf flowHash) :
    Swept flowHash (fun f => Scans ct.sweepCursor k (ct.bucketIndex flowHash f.key) ∧
        expired t now f = true) ct (reapLoop t now k ct).1 (reapLoop t now k ct).2 ∧
      (reapLoop t now k ct).1.sweepCursor.val = (ct.sweepCursor.val + k) % b := by
  induction k generalizing ct with
  | zero =>
      have hnone : ∀ f ∈ ct.flows, ¬ (Scans ct.sweepCursor 0 (ct.bucketIndex flowHash f.key) ∧
          expired t now f = true) := fun f _ hf => not_scans_zero _ _ hf.1
      refine ⟨⟨h, (Multiset.filter_eq_self.mpr hnone).symm, ?_⟩,
        (Nat.mod_eq_of_lt ct.sweepCursor.isLt).symm⟩
      rw [Multiset.filter_eq_nil.mpr hnone]
      rfl
  | succ k ih =>
      obtain ⟨hwf, -, hnext, -⟩ := reapBucket_spec h t now
      obtain ⟨hswept, hcursor⟩ := ih hwf
      refine ⟨(reapBucket_swept h t now).trans hswept fun f => ?_, ?_⟩
      · rw [scans_succ hnext]
        exact or_and_right
      · rw [reapLoop, hcursor, hnext, Nat.mod_add_mod, Nat.add_right_comm, Nat.add_assoc]

theorem conntrackReapSlice_swept {ct : ConntrackTable n b} (h : ct.Wf flowHash) (now : UInt64)
    (t : Timeouts) (k : ℕ) :
    Swept flowHash (fun f => Scans ct.sweepCursor (min k b) (ct.bucketIndex flowHash f.key) ∧
        expired t now f = true)
      ct (conntrackReapSlice ct now t k).1 (conntrackReapSlice ct now t k).2 :=
  (reapLoop_swept t now (min k b) h).1

/-- With a clock that has not run backwards the unsigned difference does not wrap. -/
theorem expired_iff {t : Timeouts} {now : UInt64} {f : Flow} (hle : f.lastSeenNs ≤ now) :
    expired t now f = true ↔ (t.of f.key).toNat < now.toNat - f.lastSeenNs.toNat := by
  rw [expired, decide_eq_true_iff, UInt64.lt_iff_toNat_lt, UInt64.toNat_sub_of_le _ _ hle]

end MaglevLb.Conntrack
