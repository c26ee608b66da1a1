import MaglevLb.IntrusiveChain
import Mathlib.Algebra.BigOperators.Fin
import Mathlib.Data.Finset.Card

/-!
# A slab of nodes shared by a free list and a family of chains

All nodes live in one fixed pool. The same successor field threads the free
list and every chain, so moving a node is a matter of rewriting links. A layout
records which nodes each chain and the free list hold; the three operations
below (take a free node to the front of a chain, sweep a chain through a
pointer to a link, and follow a chain) are specified by what they do to it.
-/
namespace MaglevLb.SlabPool
open IntrusiveChain

variable {α β : Type*}

structure Pool (α β : Type*) where
  next : α → Option α
  head : β → Option α
  free : Option α

/-- A place that holds a link: a chain head or the successor field of a node. -/
inductive Link (α β : Type*) where
  | head (i : β)
  | node (a : α)

def Pool.read (s : Pool α β) : Link α β → Option α
  | .head i => s.head i
  | .node a => s.next a

/-- Take the first free node; its successor becomes the head of the free list. -/
def Pool.pop (s : Pool α β) : Option (α × Pool α β) :=
  match s.free with
  | none => none
  | some e => some (e, { s with free := s.next e })

section
variable [DecidableEq α] [DecidableEq β]

def Pool.write (s : Pool α β) (link : Link α β) (p : Option α) : Pool α β :=
  match link with
  | .head i => { s with head := Function.update s.head i p }
  | .node a => { s with next := Function.update s.next a p }

/-- Make `e` the head of chain `i`. -/
def Pool.pushHead (s : Pool α β) (i : β) (e : α) : Pool α β :=
  { s with next := Function.update s.next e (s.head i),
           head := Function.update s.head i (some e) }

/-- Unlink `e`, which `link` points to, and put it in front of the free list. -/
def Pool.release (s : Pool α β) (link : Link α β) (e : α) : Pool α β :=
  let t := s.write link (s.next e)
  { t with next := Function.update t.next e t.free, free := some e }

/-- Walk a chain by a pointer to its current link and release every node that
passes the test. The released nodes are returned in the order met. -/
def Pool.sweep (test : α → Bool) : ℕ → Link α β → Pool α β → Pool α β × List α
  | 0, _, s => (s, [])
  | fuel + 1, link, s =>
      match s.read link with
      | none => (s, [])
      | some e =>
          if test e then
            let r := Pool.sweep test fuel link (s.release link e)
            (r.1, e :: r.2)
          else Pool.sweep test fuel (.node e) s

end

/-- Chain `i` holds the nodes `l i`, the free list holds `f`, and no node is
lost or held twice. -/
structure Pool.Holds (s : Pool α β) (l : β → List α) (f : List α) : Prop where
  head : ∀ i, IsChain s.next (s.head i) (l i)
  free : IsChain s.next s.free f
  disjoint : ∀ i j a, a ∈ l i → a ∈ l j → i = j
  apart : ∀ i a, a ∈ l i → a ∉ f
  cover : ∀ a, a ∈ f ∨ ∃ i, a ∈ l i

theorem Pool.Holds.unique {s : Pool α β} {l l' : β → List α} {f f' : List α}
    (h : s.Holds l f) (h' : s.Holds l' f') : l = l' ∧ f = f' := by
  refine ⟨?_, h.free.unique h'.free⟩
  funext i
  exact (h.head i).unique (h'.head i)

/-- The chains and the free list together have exactly the nodes of the pool. -/
theorem Pool.Holds.total [Fintype α] [Fintype β] [DecidableEq α] {s : Pool α β}
    {l : β → List α} {f : List α} (h : s.Holds l f) :
    (∑ i, (l i).length) + f.length = Fintype.card α := by
  classical
  have hl : ∀ i, (l i).toFinset.card = (l i).length := fun i =>
    List.toFinset_card_of_nodup (h.head i).nodup
  have hf : f.toFinset.card = f.length := List.toFinset_card_of_nodup h.free.nodup
  have hu : (Finset.univ.biUnion fun i => (l i).toFinset).card = ∑ i, (l i).length := by
    rw [Finset.card_biUnion]
    · exact Finset.sum_congr rfl (fun i _ => hl i)
    · intro i _ j _ hij
      rw [Function.onFun, Finset.disjoint_left]
      intro a hi hj
      exact hij (h.disjoint i j a (List.mem_toFinset.mp hi) (List.mem_toFinset.mp hj))
  have hd : Disjoint (Finset.univ.biUnion fun i => (l i).toFinset) f.toFinset := by
    rw [Finset.disjoint_left]
    intro a ha hb
    obtain ⟨i, -, hi⟩ := Finset.mem_biUnion.mp ha
    exact h.apart i a (List.mem_toFinset.mp hi) (List.mem_toFinset.mp hb)
  have hc : (Finset.univ.biUnion fun i => (l i).toFinset) ∪ f.toFinset = Finset.univ := by
    ext a
    simp only [Finset.mem_union, Finset.mem_biUnion, Finset.mem_univ, true_and,
      List.mem_toFinset, iff_true]
    exact (h.cover a).symm
  rw [← hu, ← hf, ← Finset.card_union_of_disjoint hd, hc, Finset.card_univ]

theorem Pool.pop_eq {s : Pool α β} {l : β → List α} {e : α} {f : List α}
    (h : s.Holds l (e :: f)) : s.pop = some (e, { s with free := s.next e }) := by
  simp only [Pool.pop, h.free.1]

theorem Pool.pop_eq_none {s : Pool α β} {l : β → List α} (h : s.Holds l []) :
    s.pop = none := by
  simp only [Pool.pop, isChain_nil.mp h.free]

/-- The link behind the last kept node of chain `i`. -/
def linkAfter (i : β) (kept : List α) : Link α β :=
  match kept.getLast? with
  | none => .head i
  | some a => .node a

@[simp] theorem linkAfter_nil (i : β) : linkAfter i ([] : List α) = .head i := rfl

@[simp] theorem linkAfter_concat (i : β) (kept : List α) (a : α) :
    linkAfter i (kept ++ [a]) = .node a := by
  simp [linkAfter]

theorem Pool.Holds.read_linkAfter {s : Pool α β} {l : β → List α} {f kept rest : List α}
    (h : s.Holds l f) {i : β} (hl : l i = kept ++ rest) :
    s.read (linkAfter i kept) = rest.head? := by
  have hc := h.head i
  rw [hl] at hc
  rcases List.eq_nil_or_concat' kept with rfl | ⟨kept, a, rfl⟩
  · cases rest with
    | nil => exact hc
    | cons e rest => exact hc.1
  · rw [List.append_assoc, List.singleton_append] at hc
    have ht := hc.suffix
    rw [linkAfter_concat]
    cases rest with
    | nil => exact ht
    | cons e rest => exact ht.1

section
variable [DecidableEq α] [DecidableEq β]

omit [DecidableEq α] in
theorem mem_update_cons {l : β → List α} {i j : β} {e a : α} :
    a ∈ Function.update l i (e :: l i) j ↔ j = i ∧ a = e ∨ a ∈ l j := by
  by_cases hj : j = i
  · subst hj
    simp
  · simp [hj]

/-- Taking a free node to the front of a chain. -/
theorem Pool.Holds.pushHead {s : Pool α β} {l : β → List α} {e : α} {f : List α}
    (h : s.Holds l (e :: f)) (i : β) :
    ({ s with free := s.next e } : Pool α β).pushHead i e |>.Holds
      (Function.update l i (e :: l i)) f := by
  have hef : e ∉ f := (List.nodup_cons.mp h.free.nodup).1
  have hel : ∀ j, e ∉ l j := fun j hj => h.apart j e hj (by simp)
  constructor
  · intro j
    by_cases hj : j = i
    · subst hj
      simp only [Pool.pushHead, Function.update_self, isChain_cons, true_and]
      exact (h.head j).update (hel j)
    · simp only [Pool.pushHead, Function.update_of_ne hj]
      exact (h.head j).update (hel j)
  · exact h.free.2.update hef
  · intro j k a hj hk
    rw [mem_update_cons] at hj hk
    rcases hj with ⟨hji, hae⟩ | hj
    · rcases hk with ⟨hki, -⟩ | hk
      · rw [hji, hki]
      · exact absurd (hae ▸ hk) (hel k)
    · rcases hk with ⟨-, hae⟩ | hk
      · exact absurd (hae ▸ hj) (hel j)
      · exact h.disjoint j k a hj hk
  · intro j a ha
    rcases mem_update_cons.mp ha with ⟨-, rfl⟩ | ha
    · exact hef
    · exact fun haf => h.apart j a ha (List.mem_cons_of_mem e haf)
  · intro a
    rcases h.cover a with ha | ⟨j, ha⟩
    · rcases List.mem_cons.mp ha with rfl | ha
      · exact Or.inr ⟨i, mem_update_cons.mpr (Or.inl ⟨rfl, rfl⟩)⟩
      · exact Or.inl ha
    · exact Or.inr ⟨j, mem_update_cons.mpr (Or.inr ha)⟩

/-- What unlinking writes: the link in front of `e`, which is the head of chain
`i` or sits inside it, and the link of `e` itself. -/
theorem Pool.Holds.release_links {s : Pool α β} {l : β → List α} {f kept rest : List α}
    {e : α} (h : s.Holds l f) {i : β} (hl : l i = kept ++ e :: rest) :
    IsChain (s.release (linkAfter i kept) e).next
      ((s.release (linkAfter i kept) e).head i) (kept ++ rest) ∧
    (∀ j, j ≠ i → (s.release (linkAfter i kept) e).head j = s.head j) ∧
    (∀ a, a ∉ l i → (s.release (linkAfter i kept) e).next a = s.next a) ∧
    (s.release (linkAfter i kept) e).next e = s.free := by
  have hc := h.head i
  rw [hl] at hc
  have her : e ∉ kept ++ rest := (List.nodup_cons.mp (List.nodup_middle.mp hc.nodup)).1
  have hei : e ∈ l i := by simp [hl]
  rcases List.eq_nil_or_concat' kept with rfl | ⟨kept, b, rfl⟩
  · simp only [List.nil_append, linkAfter_nil, Pool.release, Pool.write] at her ⊢
    refine ⟨?_, ?_, ?_, ?_⟩
    · rw [Function.update_self]
      exact hc.2.update her
    · intro j hj
      rw [Function.update_of_ne hj]
    · intro a ha
      rw [Function.update_of_ne]
      rintro rfl
      exact ha hei
    · rw [Function.update_self]
  · have hb : b ∈ l i := by simp [hl]
    rw [List.append_assoc, List.singleton_append] at hc her ⊢
    simp only [linkAfter_concat, Pool.release, Pool.write]
    refine ⟨hc.unlink.update her, fun j _ => trivial, ?_, ?_⟩
    · intro a ha
      rw [Function.update_of_ne, Function.update_of_ne]
      · rintro rfl
        exact ha hb
      · rintro rfl
        exact ha hei
    · rw [Function.update_self]

omit [DecidableEq α] in
/-- Leaving `e` out of its chain leaves it out of every chain. -/
theorem Pool.Holds.mem_update_unlinked {s : Pool α β} {l : β → List α} {f kept rest : List α}
    {e : α} (h : s.Holds l f) {i : β} (hl : l i = kept ++ e :: rest) {j : β} {a : α} :
    a ∈ Function.update l i (kept ++ rest) j ↔ a ∈ l j ∧ a ≠ e := by
  by_cases hj : j = i
  · subst hj
    have hc := (h.head j).nodup
    rw [hl] at hc ⊢
    rw [Function.update_self]
    have her : e ∉ kept ++ rest := (List.nodup_cons.mp (List.nodup_middle.mp hc)).1
    constructor
    · intro ha
      refine ⟨?_, fun hae => her (hae ▸ ha)⟩
      simp only [List.mem_append, List.mem_cons] at ha ⊢
      exact ha.imp_right Or.inr
    · rintro ⟨ha, hne⟩
      simpa only [List.mem_append, List.mem_cons, hne, false_or] using ha
  · rw [Function.update_of_ne hj]
    refine ⟨fun ha => ⟨ha, ?_⟩, And.left⟩
    rintro rfl
    exact hj (h.disjoint j i a ha (by simp [hl]))

/-- Unlinking one node of a chain onto the free list. -/
theorem Pool.Holds.release {s : Pool α β} {l : β → List α} {f kept rest : List α} {e : α}
    (h : s.Holds l f) {i : β} (hl : l i = kept ++ e :: rest) :
    (s.release (linkAfter i kept) e).Holds (Function.update l i (kept ++ rest)) (e :: f) := by
  obtain ⟨hchain, hhead, hnext, hnexte⟩ := h.release_links hl
  constructor
  · intro j
    by_cases hj : j = i
    · subst hj
      rwa [Function.update_self]
    · rw [Function.update_of_ne hj, hhead j hj]
      apply (h.head j).congr
      intro a ha
      exact hnext a (fun hai => hj (h.disjoint j i a ha hai))
  · refine ⟨rfl, ?_⟩
    rw [hnexte]
    apply h.free.congr
    intro a ha
    exact hnext a (fun hai => h.apart i a hai ha)
  · intro j k a hj hk
    rw [h.mem_update_unlinked hl] at hj hk
    exact h.disjoint j k a hj.1 hk.1
  · intro j a ha
    obtain ⟨ha, hne⟩ := (h.mem_update_unlinked hl).mp ha
    rw [List.mem_cons, not_or]
    exact ⟨hne, h.apart j a ha⟩
  · intro a
    rw [List.mem_cons]
    by_cases hae : a = e
    · exact Or.inl (Or.inl hae)
    · rcases h.cover a with ha | ⟨j, ha⟩
      · exact Or.inl (Or.inr ha)
      · exact Or.inr ⟨j, (h.mem_update_unlinked hl).mpr ⟨ha, hae⟩⟩

/-- The loop in the middle of a sweep: `kept` has been passed over, `rest` is
still ahead of the link. -/
theorem Pool.sweep_from {test : α → Bool} {fuel : ℕ} {i : β} (rest kept : List α)
    {f : List α} {s : Pool α β} {l : β → List α} (h : s.Holds l f)
    (hl : l i = kept ++ rest) (hf : rest.length < fuel) :
    (Pool.sweep test fuel (linkAfter i kept) s).1.Holds
      (Function.update l i (kept ++ rest.filter (fun a => !test a)))
      ((rest.filter test).reverse ++ f) ∧
    (Pool.sweep test fuel (linkAfter i kept) s).2 = rest.filter test := by
  induction rest generalizing kept f s l fuel with
  | nil =>
      obtain ⟨fuel, rfl⟩ := Nat.exists_eq_succ_of_ne_zero (Nat.ne_of_gt hf)
      rw [Pool.sweep, h.read_linkAfter hl]
      refine ⟨?_, rfl⟩
      simpa only [List.head?_nil, List.filter_nil, List.reverse_nil, List.nil_append, ← hl,
        Function.update_eq_self] using h
  | cons e rest ih =>
      obtain ⟨fuel, rfl⟩ := Nat.exists_eq_succ_of_ne_zero (Nat.ne_of_gt (Nat.zero_lt_of_lt hf))
      have hf' : rest.length < fuel := by simpa using hf
      rw [Pool.sweep, h.read_linkAfter hl]
      by_cases ht : test e = true
      · have hr := ih kept (h.release hl) (Function.update_self i _ l) hf'
        simp only [List.head?_cons, ht, if_true, List.filter_cons, Bool.not_true,
          Bool.false_eq_true, if_false, List.reverse_cons, List.append_assoc,
          List.singleton_append]
        rw [Function.update_idem] at hr
        exact ⟨hr.1, by rw [hr.2]⟩
      · have hk : l i = (kept ++ [e]) ++ rest := by simpa using hl
        have hr := ih (kept ++ [e]) h hk hf'
        rw [linkAfter_concat] at hr
        have hn : test e = false := Bool.eq_false_iff.mpr ht
        simp only [List.head?_cons, hn, Bool.false_eq_true, if_false, List.filter_cons,
          Bool.not_false, if_true]
        simpa only [List.append_assoc, List.singleton_append] using hr

/-- A sweep from the head keeps exactly the nodes that fail the test. -/
theorem Pool.Holds.sweep {fuel : ℕ} {s : Pool α β} {l : β → List α} {f : List α}
    (h : s.Holds l f) (test : α → Bool) (i : β) (hf : (l i).length < fuel) :
    (Pool.sweep test fuel (.head i) s).1.Holds
      (Function.update l i ((l i).filter fun a => !test a))
      (((l i).filter test).reverse ++ f) ∧
    (Pool.sweep test fuel (.head i) s).2 = (l i).filter test := by
  simpa only [linkAfter_nil, List.nil_append] using
    Pool.sweep_from (l i) [] h (by simp) hf

end

end MaglevLb.SlabPool
