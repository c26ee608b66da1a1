import Mathlib.Data.Finset.Insert
import Mathlib.Data.Finset.Card

/-!
# Finite maps with a bound on the number of entries

A map is its graph. The operations say what they need of the map, and each is an
operation on the graph as a multiset.
-/
namespace MaglevLb

structure BoundedMap (K V : Type*) (cap : ℕ) where
  graph : Finset (K × V)
  functional : ∀ {k v w}, (k, v) ∈ graph → (k, w) ∈ graph → v = w
  card_le : graph.card ≤ cap

namespace BoundedMap

variable {K V : Type*} {cap : ℕ}

def empty : BoundedMap K V cap where
  graph := ∅
  functional h := absurd h (Finset.notMem_empty _)
  card_le := Nat.zero_le cap

def Absent (m : BoundedMap K V cap) (k : K) : Prop := ∀ v, (k, v) ∉ m.graph

variable (m : BoundedMap K V cap)

/-- Keep the entries that do not meet `p`. -/
def discard (p : K × V → Prop) [DecidablePred p] : BoundedMap K V cap where
  graph := m.graph.filter fun e => ¬ p e
  functional hv hw := m.functional (Finset.mem_of_mem_filter _ hv) (Finset.mem_of_mem_filter _ hw)
  card_le := (Finset.card_filter_le _ _).trans m.card_le

variable [DecidableEq K] [DecidableEq V]

/-- A new entry for a key that has none. -/
def add {k : K} (h : m.Absent k) (room : m.graph.card < cap) (v : V) : BoundedMap K V cap where
  graph := insert (k, v) m.graph
  functional := by
    intro k' v' w hv hw
    rw [Finset.mem_insert, Prod.mk.injEq] at hv hw
    rcases hv with ⟨rfl, rfl⟩ | hv
    · rcases hw with ⟨-, rfl⟩ | hw
      · rfl
      · exact absurd hw (h w)
    · rcases hw with ⟨rfl, rfl⟩ | hw
      · exact absurd hv (h v')
      · exact m.functional hv hw
  card_le := (Finset.card_insert_le _ _).trans room

/-- Another value for a key that has one. -/
def assign {k : K} {v : V} (h : (k, v) ∈ m.graph) (w : V) : BoundedMap K V cap where
  graph := insert (k, w) (m.graph.erase (k, v))
  functional := by
    intro k' v' w' hv hw
    rw [Finset.mem_insert, Finset.mem_erase, Prod.mk.injEq] at hv hw
    rcases hv with ⟨rfl, rfl⟩ | ⟨hne, hv⟩
    · rcases hw with ⟨-, rfl⟩ | ⟨hne, hw⟩
      · rfl
      · exact absurd (congrArg _ (m.functional hw h)) hne
    · rcases hw with ⟨rfl, rfl⟩ | ⟨-, hw⟩
      · exact absurd (congrArg _ (m.functional hv h)) hne
      · exact m.functional hv hw
  card_le := by
    have hle := Finset.card_insert_le (k, w) (m.graph.erase (k, v))
    rw [Finset.card_erase_add_one h] at hle
    exact hle.trans m.card_le

theorem add_val {k : K} (h : m.Absent k) (room : m.graph.card < cap) (v : V) :
    (m.add h room v).graph.val = (k, v) ::ₘ m.graph.val :=
  Finset.insert_val_of_notMem (h v)

theorem assign_val {k : K} {v : V} (h : (k, v) ∈ m.graph) (w : V) :
    (m.assign h w).graph.val = (k, w) ::ₘ m.graph.val.erase (k, v) := by
  have hnew : (k, w) ∉ m.graph.erase (k, v) := by
    intro hmem
    obtain ⟨hne, hw⟩ := Finset.mem_erase.mp hmem
    exact hne (congrArg _ (m.functional hw h))
  exact Finset.insert_val_of_notMem hnew

end BoundedMap

end MaglevLb
