import Mathlib.Algebra.BigOperators.Group.List.Basic
import Mathlib.Algebra.Order.Ring.Nat
import Mathlib.Data.List.Nodup

/-!
# Dictionaries in insertion order

A key occurs once. Writing a key that is present replaces its value in place;
writing a new key puts it last.
-/
namespace MaglevLb.OrderedDict

variable {κ ν : Type*} [DecidableEq κ]

/-- Replace the value of a key, or put the key last. -/
def upsert (k : κ) (v : ν) : List (κ × ν) → List (κ × ν)
  | [] => [(k, v)]
  | e :: l => if e.1 = k then (k, v) :: l else e :: upsert k v l

theorem mem_keys_upsert {k k' : κ} {v : ν} {l : List (κ × ν)} :
    k' ∈ (upsert k v l).map Prod.fst ↔ k' = k ∨ k' ∈ l.map Prod.fst := by
  induction l with
  | nil => simp [upsert]
  | cons e l ih =>
      unfold upsert
      split
      · next h => simp [h]
      · rw [List.map_cons, List.mem_cons, ih, List.map_cons, List.mem_cons]
        exact or_left_comm

theorem upsert_nodup {k : κ} {v : ν} {l : List (κ × ν)} (h : (l.map Prod.fst).Nodup) :
    ((upsert k v l).map Prod.fst).Nodup := by
  induction l with
  | nil => simp [upsert]
  | cons e l ih =>
      rw [List.map_cons, List.nodup_cons] at h
      unfold upsert
      split
      · next he =>
          rw [List.map_cons, List.nodup_cons, ← he]
          exact h
      · next he =>
          rw [List.map_cons, List.nodup_cons, mem_keys_upsert, not_or]
          exact ⟨⟨he, h.1⟩, ih h.2⟩

/-- A new key goes last. -/
theorem upsert_of_notMem {k : κ} {v : ν} {l : List (κ × ν)} (h : k ∉ l.map Prod.fst) :
    upsert k v l = l ++ [(k, v)] := by
  induction l with
  | nil => rfl
  | cons e l ih =>
      rw [List.map_cons, List.mem_cons, not_or] at h
      rw [upsert, if_neg (Ne.symm h.1), ih h.2, List.cons_append]

structure Dict (κ ν : Type*) where
  entries : List (κ × ν)
  nodup : (entries.map Prod.fst).Nodup

namespace Dict

def empty : Dict κ ν := ⟨[], List.nodup_nil⟩

def get? (d : Dict κ ν) (k : κ) : Option ν := (d.entries.find? fun e => e.1 = k).map Prod.snd

def set (d : Dict κ ν) (k : κ) (v : ν) : Dict κ ν := ⟨upsert k v d.entries, upsert_nodup d.nodup⟩

def erase (d : Dict κ ν) (k : κ) : Dict κ ν where
  entries := d.entries.filter fun e => e.1 ≠ k
  nodup := d.nodup.sublist (List.Sublist.map _ List.filter_sublist)

/-- Later pairs overwrite earlier ones. -/
def ofList (l : List (κ × ν)) : Dict κ ν := l.foldl (fun d e => d.set e.1 e.2) empty

theorem get?_eq_some {d : Dict κ ν} {k : κ} {v : ν} : d.get? k = some v ↔ (k, v) ∈ d.entries := by
  constructor
  · intro h
    obtain ⟨e, he, rfl⟩ := Option.map_eq_some_iff.mp h
    have hk : e.1 = k := by simpa using List.find?_some he
    rw [← hk]
    exact List.mem_of_find?_eq_some he
  · intro h
    cases hf : d.entries.find? fun e => e.1 = k with
    | none =>
        have hne := List.find?_eq_none.mp hf (k, v) h
        simp at hne
    | some e =>
        have hk : e.1 = k := by simpa using List.find?_some hf
        have he : e = (k, v) := List.inj_on_of_nodup_map d.nodup (List.mem_of_find?_eq_some hf) h hk
        rw [get?, hf, he]
        rfl

theorem get?_eq_none {d : Dict κ ν} {k : κ} : d.get? k = none ↔ k ∉ d.entries.map Prod.fst := by
  rw [get?, Option.map_eq_none_iff, List.find?_eq_none, List.mem_map]
  simp only [decide_eq_true_eq, not_exists, not_and]

theorem mem_upsert {k k' : κ} {v v' : ν} {l : List (κ × ν)} (h : (l.map Prod.fst).Nodup) :
    (k', v') ∈ upsert k v l ↔ (k' = k ∧ v' = v) ∨ (k' ≠ k ∧ (k', v') ∈ l) := by
  induction l with
  | nil => simp [upsert]
  | cons e l ih =>
      obtain ⟨a, x⟩ := e
      rw [List.map_cons, List.nodup_cons] at h
      unfold upsert
      split
      · next he =>
          obtain rfl : a = k := he
          have hout : ∀ y, (a, y) ∉ l := fun y hy => h.1 (List.mem_map.mpr ⟨_, hy, rfl⟩)
          grind
      · next he => grind

theorem get?_set (d : Dict κ ν) (k k' : κ) (v : ν) :
    (d.set k v).get? k' = if k' = k then some v else d.get? k' := by
  ext x
  rw [get?_eq_some]
  change (k', x) ∈ upsert k v d.entries ↔ _
  rw [mem_upsert d.nodup]
  split
  · next h => simp [h, eq_comm]
  · next h => simp [h, get?_eq_some]

theorem get?_erase (d : Dict κ ν) (k k' : κ) :
    (d.erase k).get? k' = if k' = k then none else d.get? k' := by
  ext x
  rw [get?_eq_some, erase, List.mem_filter]
  split
  · next h => simp [h]
  · next h => simp [h, get?_eq_some]

theorem set_entries_of_none {d : Dict κ ν} {k : κ} (h : d.get? k = none) (v : ν) :
    (d.set k v).entries = d.entries ++ [(k, v)] :=
  upsert_of_notMem (get?_eq_none.mp h)

theorem upsert_of_mem {k : κ} {v : ν} {l : List (κ × ν)} (h : (l.map Prod.fst).Nodup)
    (hmem : (k, v) ∈ l) : upsert k v l = l := by
  induction l with
  | nil => cases hmem
  | cons e l ih =>
      rw [List.map_cons, List.nodup_cons] at h
      rcases List.mem_cons.mp hmem with rfl | hl
      · rw [upsert, if_pos rfl]
      · have hne : e.1 ≠ k := fun he => h.1 (he ▸ List.mem_map_of_mem hl)
        rw [upsert, if_neg hne, ih h.2 hl]

/-- Writing the value a key has changes nothing. -/
theorem set_of_get? {d : Dict κ ν} {k : κ} {v : ν} (h : d.get? k = some v) : d.set k v = d := by
  have hentries : upsert k v d.entries = d.entries := upsert_of_mem d.nodup (get?_eq_some.mp h)
  cases d
  simp only [set, hentries]

/-- Pairs with new and distinct keys go last. -/
theorem foldl_set_entries {l : List (κ × ν)} {d : Dict κ ν}
    (h : ((d.entries ++ l).map Prod.fst).Nodup) :
    (l.foldl (fun d e => d.set e.1 e.2) d).entries = d.entries ++ l := by
  induction l generalizing d with
  | nil => simp
  | cons e l ih =>
      have hnew : d.get? e.1 = none := by
        rw [get?_eq_none]
        intro hmem
        rw [List.map_append, List.map_cons] at h
        exact (List.nodup_append.mp h).2.2 e.1 hmem e.1 List.mem_cons_self rfl
      rw [List.foldl_cons, ih]
      · rw [set_entries_of_none hnew, List.append_assoc, List.singleton_append]
      · rwa [set_entries_of_none hnew, List.append_assoc, List.singleton_append]

/-- Pairs with distinct keys are the entries of their dictionary. -/
theorem ofList_entries {l : List (κ × ν)} (h : (l.map Prod.fst).Nodup) :
    (ofList l).entries = l :=
  foldl_set_entries (d := empty) h

theorem mem_of_get?_foldl_set {l : List (κ × ν)} {d : Dict κ ν} {k : κ} {v : ν}
    (h : (l.foldl (fun d e => d.set e.1 e.2) d).get? k = some v) :
    (k, v) ∈ l ∨ d.get? k = some v := by
  induction l generalizing d with
  | nil => exact .inr h
  | cons e l ih =>
      rcases ih h with hmem | hget
      · exact .inl (List.mem_cons_of_mem e hmem)
      · rw [get?_set] at hget
        split at hget
        · next hk =>
            cases hget
            rw [hk]
            exact .inl List.mem_cons_self
        · exact .inr hget

theorem mem_of_get?_ofList {l : List (κ × ν)} {k : κ} {v : ν} (h : (ofList l).get? k = some v) :
    (k, v) ∈ l :=
  (mem_of_get?_foldl_set h).resolve_right nofun

theorem get?_ofList {l : List (κ × ν)} (h : (l.map Prod.fst).Nodup) {k : κ} {v : ν}
    (hmem : (k, v) ∈ l) : (ofList l).get? k = some v := by
  rw [get?_eq_some, ofList_entries h]
  exact hmem

/-! ### Counters -/

/-- The sum of the values. -/
def total (d : Dict κ ℕ) : ℕ := (d.entries.map Prod.snd).sum

/-- One more of a key. -/
def count (k : κ) (d : Dict κ ℕ) : Dict κ ℕ := d.set k ((d.get? k).getD 0 + 1)

end Dict

end MaglevLb.OrderedDict
