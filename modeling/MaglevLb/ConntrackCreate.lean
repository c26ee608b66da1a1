import MaglevLb.CommandLine
import MaglevLb.ConntrackMap
import MaglevLb.LineText
import MaglevLb.Ownership
import Mathlib.Order.Bounds.Basic

/-!
# Creating the connection tracking table

`next_pow2` doubles a 64-bit word until it reaches its argument. The largest power
of two that fits is 2^63; doubled once more the word is zero and stays so, and for
a larger argument the loop does not end. The number of buckets that is asked for is
computed in doubles. A table that is created has its entries on one list each, the
free list or the chain of a bucket, and every call keeps that.
-/
namespace MaglevLb.ConntrackCreate

open PacketFormat IntrusiveChain SlabPool Conntrack ConntrackMap LineText Ownership

/-! ### The number of buckets -/

/-- The loop of `next_pow2` from `p` on. -/
def doubleFrom (x : UInt64) : ℕ → UInt64 → Option UInt64
  | 0, _ => none
  | fuel + 1, p => if p < x then doubleFrom x fuel (p <<< 1) else some p

/-- After 64 doublings the word is zero. -/
def nextPow2 (x : UInt64) : Option UInt64 := doubleFrom x 65 1

/-- `max_flows / 0.75` without rounding, and one more. -/
def exactBuckets (maxFlows : ℕ) : ℕ := 4 * maxFlows / 3 + 1

/-- The integer part of the double nearest to `d / 0.75`, for a double `d`. From 2^52 on
doubles are integers, and from 2^53 on they have 53 bits; ties go to even. -/
def divideDouble (d : ℕ) : ℕ :=
  if 4 * d < 3 * 2 ^ 52 then 4 * d / 3
  else
    let ulp := 2 ^ ((4 * d / 3).log2 - 52)
    let q := 4 * d / (3 * ulp)
    let r := 4 * d % (3 * ulp)
    (if 2 * r < 3 * ulp ∨ 2 * r = 3 * ulp ∧ q % 2 = 0 then q else q + 1) * ulp

/-- `(size_t)((double)max_flows / 0.75) + 1`; the conversion of a double that does not fit
is undefined. -/
def desiredBuckets (maxFlows : UInt64) : Option UInt64 :=
  let q := divideDouble (nearestDouble maxFlows.toNat)
  if q < 2 ^ 64 then some (UInt64.ofNat q + 1) else none

section Doubling

variable {x p : UInt64} {k fuel : ℕ}

theorem toNat_shiftLeft_one (p : UInt64) : (p <<< 1).toNat = p.toNat * 2 % 2 ^ 64 := by
  have hone : (1 : UInt64).toNat = 1 := rfl
  rw [UInt64.toNat_shiftLeft, hone, Nat.shiftLeft_eq]

theorem toNat_double (hp : p.toNat = 2 ^ k) (hk : k < 63) : (p <<< 1).toNat = 2 ^ (k + 1) := by
  have hlt : 2 ^ (k + 1) < 2 ^ 64 := Nat.pow_lt_pow_right (by decide) (by omega)
  rw [toNat_shiftLeft_one, hp, ← Nat.pow_succ]
  exact Nat.mod_eq_of_lt hlt

/-- With the smaller powers ruled out, the loop stops at the first one that is large enough. -/
theorem doubleFrom_eq (hx : x.toNat ≤ 2 ^ 63) (hp : p.toNat = 2 ^ k) (hk : k ≤ 63)
    (hbelow : ∀ j < k, 2 ^ j < x.toNat) (hfuel : 63 < k + fuel) :
    ∃ q j, doubleFrom x fuel p = some q ∧ q.toNat = 2 ^ j ∧ x.toNat ≤ 2 ^ j ∧
      ∀ i < j, 2 ^ i < x.toNat := by
  induction fuel generalizing p k with
  | zero => omega
  | succ fuel ih =>
      unfold doubleFrom
      split
      · next hlt =>
          rw [UInt64.lt_iff_toNat_lt, hp] at hlt
          have hnext : k < 63 := by
            by_contra hlast
            obtain rfl : k = 63 := by omega
            omega
          refine ih (toNat_double hp hnext) hnext (fun j hj => ?_) (by omega)
          rcases Nat.lt_succ_iff_lt_or_eq.mp hj with hj | rfl
          · exact hbelow j hj
          · exact hlt
      · next hge =>
          rw [UInt64.lt_iff_toNat_lt, hp, Nat.not_lt] at hge
          exact ⟨p, k, rfl, hp, hge, hbelow⟩

/-- From one, 65 tests reach every power of two that fits. -/
theorem doubleFrom_one (hx : x.toNat ≤ 2 ^ 63) :
    ∃ q j, doubleFrom x 65 1 = some q ∧ q.toNat = 2 ^ j ∧ x.toNat ≤ 2 ^ j ∧
      ∀ i < j, 2 ^ i < x.toNat := by
  have hone : (1 : UInt64).toNat = 2 ^ 0 := rfl
  exact doubleFrom_eq hx hone (by decide) (fun j hj => absurd hj (Nat.not_lt_zero j)) (by decide)

/-- The words the loop goes through: when it has come to zero it has doubled before. -/
def Doubled (x p : UInt64) : Prop := p.toNat = 0 ∧ 0 < x.toNat ∨ ∃ k ≤ 63, p.toNat = 2 ^ k

theorem doubled_one (x : UInt64) : Doubled x 1 := .inr ⟨0, Nat.zero_le _, rfl⟩

theorem Doubled.next (h : Doubled x p) (hlt : p < x) : Doubled x (p <<< 1) := by
  have hpos : 0 < x.toNat := Nat.zero_lt_of_lt (UInt64.lt_iff_toNat_lt.mp hlt)
  rcases h with ⟨hzero, -⟩ | ⟨k, hk, hp⟩
  · exact .inl ⟨by rw [toNat_shiftLeft_one, hzero]; rfl, hpos⟩
  · rcases Nat.lt_or_eq_of_le hk with hk | rfl
    · exact .inr ⟨k + 1, hk, toNat_double hp hk⟩
    · exact .inl ⟨by rw [toNat_shiftLeft_one, hp]; rfl, hpos⟩

/-- No power of two that fits reaches `x`: the loop does not end. -/
theorem doubleFrom_eq_none (hx : 2 ^ 63 < x.toNat) (hp : Doubled x p) (fuel : ℕ) :
    doubleFrom x fuel p = none := by
  induction fuel generalizing p with
  | zero => rfl
  | succ fuel ih =>
      have hlt : p < x := by
        rw [UInt64.lt_iff_toNat_lt]
        rcases hp with ⟨hzero, -⟩ | ⟨k, hk, hp⟩
        · omega
        · have hle : 2 ^ k ≤ 2 ^ 63 := Nat.pow_le_pow_right (by decide) hk
          omega
      rw [doubleFrom, if_pos hlt]
      exact ih (hp.next hlt)

/-- Where the loop stops there is a power of two. -/
theorem doubleFrom_pow2 {q : UInt64} (hp : Doubled x p) (h : doubleFrom x fuel p = some q) :
    q.toNat.isPowerOfTwo := by
  induction fuel generalizing p with
  | zero => cases h
  | succ fuel ih =>
      unfold doubleFrom at h
      split at h
      · next hlt => exact ih (hp.next hlt) h
      · next hge =>
          cases h
          rcases hp with ⟨hzero, hpos⟩ | ⟨k, -, hp⟩
          · rw [UInt64.lt_iff_toNat_lt, hzero] at hge
            exact absurd hpos hge
          · exact ⟨k, hp⟩

end Doubling

theorem nextPow2_pow2 {x b : UInt64} (h : nextPow2 x = some b) : b.toNat.isPowerOfTwo :=
  doubleFrom_pow2 (doubled_one x) h

/-- The powers of two that are large enough. -/
def EnoughBuckets (desired : ℕ) : Set ℕ := {b | b.isPowerOfTwo ∧ desired ≤ b}

theorem isLeast_enoughBuckets {desired j : ℕ} (hj : desired ≤ 2 ^ j)
    (hbelow : ∀ i < j, 2 ^ i < desired) : IsLeast (EnoughBuckets desired) (2 ^ j) := by
  refine ⟨⟨⟨j, rfl⟩, hj⟩, ?_⟩
  rintro b ⟨⟨i, rfl⟩, hi⟩
  by_contra hlt
  have hij : i < j := (Nat.pow_lt_pow_iff_right (by decide)).mp (Nat.not_le.mp hlt)
  exact absurd (hbelow i hij) (Nat.not_lt.mpr hi)

theorem exactBuckets_lt {maxFlows : ℕ} (h : maxFlows < 2 ^ 63) :
    exactBuckets maxFlows < 2 ^ 64 := by
  unfold exactBuckets
  omega

theorem exactBuckets_le_iff {maxFlows : ℕ} :
    exactBuckets maxFlows ≤ 2 ^ 63 ↔ maxFlows < 3 * 2 ^ 61 := by
  unfold exactBuckets
  omega

/-- For every `--max-flows` that is accepted: the loop ends, at the least power of two that
is large enough, if and only if the number is below 3 * 2^61; otherwise it never ends. -/
theorem next_pow2_ends_iff (maxFlows : ℕ) (hpos : 1 ≤ maxFlows) (hmax : maxFlows ≤ 2 ^ 63 - 1) :
    (UInt64.ofNat (exactBuckets maxFlows)).toNat = exactBuckets maxFlows ∧
    ((∃ fuel b, doubleFrom (UInt64.ofNat (exactBuckets maxFlows)) fuel 1 = some b ∧
        IsLeast (EnoughBuckets (exactBuckets maxFlows)) b.toNat) ↔ maxFlows < 3 * 2 ^ 61) ∧
    (3 * 2 ^ 61 ≤ maxFlows →
      ∀ fuel, doubleFrom (UInt64.ofNat (exactBuckets maxFlows)) fuel 1 = none) := by
  set x := UInt64.ofNat (exactBuckets maxFlows)
  have hx : x.toNat = exactBuckets maxFlows :=
    UInt64.toNat_ofNat_of_lt' (exactBuckets_lt (by omega))
  have hnever : 3 * 2 ^ 61 ≤ maxFlows → ∀ fuel, doubleFrom x fuel 1 = none := by
    intro hlarge fuel
    refine doubleFrom_eq_none ?_ (doubled_one x) fuel
    rw [hx, ← Nat.not_le, exactBuckets_le_iff]
    omega
  refine ⟨hx, ⟨?_, fun hsmall => ?_⟩, hnever⟩
  · rintro ⟨fuel, b, hb, -⟩
    by_contra hlarge
    rw [hnever (by omega) fuel] at hb
    cases hb
  · have hle : x.toNat ≤ 2 ^ 63 := hx ▸ exactBuckets_le_iff.mpr hsmall
    obtain ⟨b, j, hb, hj, henough, hbelow⟩ := doubleFrom_one hle
    rw [hx] at henough hbelow
    exact ⟨65, b, hb, hj ▸ isLeast_enoughBuckets henough hbelow⟩

/-- The default is 1000000. -/
theorem next_pow2_ends_default :
    ∃ fuel b, doubleFrom (UInt64.ofNat (exactBuckets 1000000)) fuel 1 = some b ∧
      IsLeast (EnoughBuckets (exactBuckets 1000000)) b.toNat :=
  (next_pow2_ends_iff 1000000 (by decide) (by decide)).2.1.mpr (by decide)

open CommandLine in
/-- `--max-flows 6917529027641081856` is accepted, in doubles the number of buckets asked for
is the same, and the loop does not end. -/
theorem large_max_flows_hangs :
    let argv := sampleArgv ["--max-flows", "6917529027641081856"]
    ∃ cfg, configParseArgs false argv = .ok cfg ∧ cfg.maxFlows.toNat = 3 * 2 ^ 61 ∧
      desiredBuckets cfg.maxFlows = some (UInt64.ofNat (exactBuckets (3 * 2 ^ 61))) ∧
      ∀ fuel, doubleFrom (UInt64.ofNat (exactBuckets (3 * 2 ^ 61))) fuel 1 = none := by
  intro argv
  have hready : (configParseArgs false argv).toOption.any (fun cfg =>
      cfg.maxFlows.toNat = 3 * 2 ^ 61 ∧
      desiredBuckets cfg.maxFlows = some (UInt64.ofNat (exactBuckets (3 * 2 ^ 61)))) = true := by
    decide +kernel
  obtain ⟨cfg, hok, hcfg⟩ := exists_of_any hready
  obtain ⟨hflows, hbuckets⟩ := of_decide_eq_true hcfg
  exact ⟨cfg, hok, hflows, hbuckets, doubleFrom_eq_none (by decide) (doubled_one _)⟩

/-! ### Tables that are created -/

section Doubles

/-- The unit in the last place of a double. -/
theorem ulp_le {a k : ℕ} (h : a < 2 ^ (k + 53)) : 2 ^ (a.log2 - 52) ≤ 2 ^ k := by
  refine Nat.pow_le_pow_right (by decide) ?_
  rcases Nat.eq_zero_or_pos a with rfl | hpos
  · simp
  · have hlog : a.log2 < k + 53 := (Nat.log2_lt (by omega)).mpr h
    omega

theorem nearestDouble_le {n : ℕ} (h : n < 2 ^ 63) : nearestDouble n ≤ n + 1024 := by
  unfold nearestDouble
  split
  · omega
  · have hulp : 2 ^ (n.log2 - 52) ≤ 1024 := ulp_le (k := 10) h
    have hdiv := Nat.div_mul_le_self n (2 ^ (n.log2 - 52))
    dsimp only
    split
    · omega
    · rw [Nat.add_mul]
      omega

theorem divideDouble_le {d : ℕ} (h : 4 * d < 3 * 2 ^ 63) : divideDouble d ≤ 4 * d / 3 + 1024 := by
  unfold divideDouble
  split
  · omega
  · have hulp : 2 ^ ((4 * d / 3).log2 - 52) ≤ 1024 := ulp_le (k := 10) (by omega)
    have hdiv := Nat.div_mul_le_self (4 * d / 3) (2 ^ ((4 * d / 3).log2 - 52))
    rw [Nat.div_div_eq_div_mul] at hdiv
    dsimp only
    split
    · omega
    · rw [Nat.add_mul]
      omega

theorem nearestDouble_eq {n : ℕ} (hlow : 2 ^ 62 ≤ n) (hhigh : n < 2 ^ 63) :
    nearestDouble n =
      (if 2 * (n % 1024) < 1024 ∨ 2 * (n % 1024) = 1024 ∧ n / 1024 % 2 = 0 then n / 1024
        else n / 1024 + 1) * 1024 := by
  have hlog : n.log2 = 62 := (Nat.log2_eq_iff (by omega)).mpr ⟨hlow, hhigh⟩
  rw [nearestDouble, if_neg (by omega), hlog]
  rfl

theorem divideDouble_eq {d : ℕ} (hlow : 3 * 2 ^ 60 ≤ d) (hhigh : d < 3 * 2 ^ 61) :
    divideDouble d =
      (if 2 * (4 * d % 3072) < 3072 ∨ 2 * (4 * d % 3072) = 3072 ∧ 4 * d / 3072 % 2 = 0 then
        4 * d / 3072 else 4 * d / 3072 + 1) * 1024 := by
  have hlog : (4 * d / 3).log2 = 62 := (Nat.log2_eq_iff (by omega)).mpr ⟨by omega, by omega⟩
  rw [divideDouble, if_neg (by omega), hlog]
  rfl

theorem le_divideDouble {d : ℕ} (hlow : 3 * 2 ^ 61 ≤ d) (hhigh : d ≤ 2 ^ 63) :
    2 ^ 63 ≤ divideDouble d ∧ divideDouble d % 2048 = 0 := by
  have hlog : (4 * d / 3).log2 = 63 := (Nat.log2_eq_iff (by omega)).mpr ⟨by omega, by omega⟩
  rw [divideDouble, if_neg (by omega), hlog]
  dsimp only
  split <;> omega

theorem nearestDouble_high {n : ℕ} (hlow : 3 * 2 ^ 61 - 512 ≤ n) (hhigh : n < 2 ^ 63) :
    3 * 2 ^ 61 ≤ nearestDouble n ∧ nearestDouble n ≤ 2 ^ 63 := by
  rw [nearestDouble_eq (by omega) hhigh]
  split <;> omega

/-- In doubles, fewer than 2^63 buckets are asked for up to 3 * 2^61 - 513. -/
theorem divideDouble_lt_iff {n : ℕ} (h : n < 2 ^ 63) :
    divideDouble (nearestDouble n) < 2 ^ 63 ↔ n < 3 * 2 ^ 61 - 512 := by
  by_cases hsmall : n < 2 ^ 62
  · have hn := nearestDouble_le h
    have hd := divideDouble_le (d := nearestDouble n) (by omega)
    omega
  · have hn := nearestDouble_eq (by omega) h
    by_cases hlow : n < 3 * 2 ^ 61 - 512
    · have hrange : 3 * 2 ^ 60 ≤ nearestDouble n ∧ nearestDouble n ≤ 3 * 2 ^ 61 - 1024 := by
        rw [hn]
        split <;> omega
      have hd := divideDouble_eq hrange.1 (by omega)
      have hlt : divideDouble (nearestDouble n) < 2 ^ 63 := by
        rw [hd]
        split <;> omega
      omega
    · have hrange := nearestDouble_high (Nat.not_lt.mp hlow) h
      have hd := (le_divideDouble hrange.1 hrange.2).1
      omega
end Doubles

theorem nextPow2_isSome_iff {x : UInt64} : (nextPow2 x).isSome ↔ x.toNat ≤ 2 ^ 63 := by
  constructor
  · intro hsome
    by_contra hlarge
    rw [nextPow2, doubleFrom_eq_none (Nat.not_le.mp hlarge) (doubled_one x)] at hsome
    cases hsome
  · intro hx
    obtain ⟨b, -, hb, -⟩ := doubleFrom_one hx
    rw [nextPow2, hb]
    rfl

/-- The table with its number of buckets; `none` when the loop does not end. -/
def conntrackCreate (maxFlows : UInt64) (garbage : Fin maxFlows.toNat → Flow) :
    Option (Σ b, ConntrackTable maxFlows.toNat b) :=
  match desiredBuckets maxFlows with
  | none => none
  | some desired =>
      match h : nextPow2 desired with
      | none => none
      | some b => some ⟨b.toNat, conntrackInit _ _ (nextPow2_pow2 h) garbage⟩

/-- A table is created for every accepted number of flows below 3 * 2^61 - 512. -/
theorem conntrackCreate_isSome_iff {maxFlows : UInt64} (hmax : maxFlows.toNat < 2 ^ 63)
    (garbage : Fin maxFlows.toNat → Flow) :
    (conntrackCreate maxFlows garbage).isSome ↔ maxFlows.toNat < 3 * 2 ^ 61 - 512 := by
  have hcreate : (conntrackCreate maxFlows garbage).isSome ↔
      ∃ desired, desiredBuckets maxFlows = some desired ∧ (nextPow2 desired).isSome := by
    unfold conntrackCreate
    split
    · next hnone => simp [hnone]
    · next desired hsome =>
        rw [hsome]
        split
        · next hloop => simp [hloop]
        · next hloop => simp [hloop]
  have hone : (1 : UInt64).toNat = 1 := rfl
  rw [hcreate, ← divideDouble_lt_iff hmax]
  simp only [nextPow2_isSome_iff, desiredBuckets]
  constructor
  · rintro ⟨desired, hdesired, hle⟩
    split at hdesired
    · next hfits =>
        cases hdesired
        by_contra hlarge
        have hrange := nearestDouble_high
          (Nat.not_lt.mp (mt (divideDouble_lt_iff hmax).mpr hlarge)) hmax
        have hmod := (le_divideDouble hrange.1 hrange.2).2
        rw [UInt64.toNat_add, UInt64.toNat_ofNat_of_lt' hfits, hone] at hle
        omega
    · cases hdesired
  · intro hlt
    have hfits : divideDouble (nearestDouble maxFlows.toNat) < 2 ^ 64 := by omega
    refine ⟨_, if_pos hfits, ?_⟩
    rw [UInt64.toNat_add, UInt64.toNat_ofNat_of_lt' hfits, hone]
    omega

variable {n b : ℕ} {flowHash : FlowKey → UInt64}

/-- The free list, and the chains of the buckets. -/
def lists (ct : ConntrackTable n b) : Option (Fin b) → List (Fin n)
  | none => ct.freeChain
  | some i => ct.chain i

/-- The pointer each of them starts at. -/
def first (ct : ConntrackTable n b) : Option (Fin b) → Option (Fin n)
  | none => ct.links.free
  | some i => ct.links.head i

/-- Following the pointers from where a list starts meets its entries and then null, and
over all lists every entry is met once. -/
structure Invariant (flowHash : FlowKey → UInt64) (ct : ConntrackTable n b) : Prop where
  pow2 : b.isPowerOfTwo
  linked : ∀ l, IsChain ct.links.next (first ct l) (lists ct l)
  once : ∀ e, census (lists ct) e = 1
  placed : ∀ i, ∀ e ∈ ct.chain i, (flowHash (ct.flow e).key).toNat % b = i
  cursor : ct.sweepCursor.val < b
  active_eq : ct.active.toNat = ∑ i, (ct.chain i).length
  active_le : ct.active.toNat ≤ n

theorem bucketIndex_eq_mod (ct : ConntrackTable n b) (key : FlowKey) :
    (ct.bucketIndex flowHash key).val = (flowHash key).toNat % b := by
  obtain ⟨k, rfl⟩ := ct.pow2
  exact Nat.and_two_pow_sub_one_eq_mod _ k

theorem census_lists {ct : ConntrackTable n b} (h : ct.links.Holds ct.chain ct.freeChain)
    (e : Fin n) : census (lists ct) e = 1 := by
  have hfree : e ∈ ct.freeChain → ct.freeChain.count e = 1 :=
    List.count_eq_one_of_mem h.free.nodup
  rw [census, Fintype.sum_option]
  rcases h.cover e with he | ⟨i, he⟩
  · have hchains : ∀ i, (ct.chain i).count e = 0 := fun i =>
      List.count_eq_zero.mpr fun hi => h.apart i e hi he
    simp [lists, hfree he, hchains]
  · have hnone : ct.freeChain.count e = 0 := List.count_eq_zero.mpr (h.apart i e he)
    have hothers : ∀ j, j ≠ i → (ct.chain j).count e = 0 := fun j hj =>
      List.count_eq_zero.mpr fun hj' => hj (h.disjoint j i e hj' he)
    have hone : (ct.chain i).count e = 1 := List.count_eq_one_of_mem (h.head i).nodup he
    simp only [lists, hnone, Nat.zero_add]
    rw [Finset.sum_eq_single i (fun j _ hj => hothers j hj)
      (fun hi => absurd (Finset.mem_univ i) hi), hone]

theorem invariant_of_wf {ct : ConntrackTable n b} (hn : n < 2 ^ 64) (h : ct.Wf flowHash) :
    Invariant flowHash ct := by
  have hsize := h.size_add
  have hactive : ct.active.toNat = ct.size := by
    rw [h.active_eq, UInt64.toNat_ofNat_of_lt' (show ct.size < 2 ^ 64 by omega)]
  refine ⟨ct.pow2, fun l => ?_, census_lists h.holds, fun i e he => ?_, ct.sweepCursor.isLt, ?_,
    by omega⟩
  · cases l with
    | none => exact h.holds.free
    | some i => exact h.holds.head i
  · rw [← bucketIndex_eq_mod ct, h.placed i (ct.flow e) (List.mem_map_of_mem he)]
  · simpa only [ConntrackTable.size, ConntrackTable.contents, List.length_map] using hactive

theorem perform_wf {ct : ConntrackTable n b} (h : ct.Wf flowHash) (c : Call) :
    (perform flowHash ct c).1.Wf flowHash := by
  cases c with
  | lookup key now =>
      have hwf := conntrackLookup_wf h key now
      unfold perform
      dsimp only
      split <;> rename_i heq <;> rwa [heq] at hwf
  | insert key backendId now =>
      unfold perform
      dsimp only
      split
      · next hins => exact conntrackInsert_wf h hins
      · exact h
  | reapSlice now t maxBucketsThisTick => exact reapLoop_wf t now _ h

/-- From a created table on, whatever is called with whatever arguments. -/
theorem conntrack_invariant (flowHash : FlowKey → UInt64) (maxFlows : UInt64)
    (garbage : Fin maxFlows.toNat → Flow) (b : ℕ) (ct : ConntrackTable maxFlows.toNat b)
    (h : conntrackCreate maxFlows garbage = some ⟨b, ct⟩) (calls : List Call) :
    Invariant flowHash (EventRun.run (fun ct c => (perform flowHash ct c).1) ct calls) := by
  have hcreated : ct.Wf flowHash := by
    unfold conntrackCreate at h
    split at h
    · cases h
    · split at h
      · cases h
      · cases h
        exact conntrackInit_wf _ garbage
  exact invariant_of_wf maxFlows.toNat_lt
    (EventRun.run_invariant (P := fun ct : ConntrackTable _ b => ct.Wf flowHash)
      (fun _ c h => perform_wf h c) hcreated calls)

/-- One key is inserted twice, and the clock runs backwards. -/
theorem conntrack_invariant_repeated :
    ∃ b, ∃ ct : ConntrackTable (3 : UInt64).toNat b,
      conntrackCreate 3 (fun _ => ⟨slowFlow, 0, 0⟩) = some ⟨b, ct⟩ ∧
      Invariant (fun key => key.srcPort.toUInt64) (EventRun.run
        (fun ct c => (perform (fun key => key.srcPort.toUInt64) ct c).1) ct
        [.insert slowFlow 1 50, .insert slowFlow 2 40, .lookup slowFlow 30,
          .reapSlice 20 ⟨5, 5⟩ 9, .insert lateFlow 3 10]) := by
  have hsome : (conntrackCreate 3 fun _ => ⟨slowFlow, 0, 0⟩).isSome = true := by decide +kernel
  obtain ⟨⟨b, ct⟩, h⟩ := Option.isSome_iff_exists.mp hsome
  exact ⟨b, ct, h, conntrack_invariant _ 3 _ b ct h _⟩

end MaglevLb.ConntrackCreate
