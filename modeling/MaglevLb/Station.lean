import Mathlib.Data.Int.Order.Basic
import Mathlib.Data.List.Infix

/-!
# A station with a capacity and a bounded queue

Arrivals are started while fewer than `capacity` are in service, else queued while fewer
than `limit` wait, else refused. A place that comes free, and a change of either bound, pull
from the front of the queue; nothing in service or in the queue is ever put out.
-/
namespace MaglevLb

/-- `accepted` and `started` list the arrivals of each kind so far, in order. -/
structure Station (α : Type*) where
  capacity : ℤ
  limit : ℤ
  busy : ℤ
  queue : List α
  accepted : List α
  started : List α

namespace Station

variable {α : Type*}

def start (a : α) (s : Station α) : Station α :=
  { s with busy := s.busy + 1, started := s.started ++ [a] }

/-- Start from the front of `l` as long as there is room; the rest is the queue. -/
def pullFrom : List α → Station α → Station α
  | [], s => { s with queue := [] }
  | a :: l, s => if s.busy < s.capacity then pullFrom l (start a s) else { s with queue := a :: l }

def pull (s : Station α) : Station α := pullFrom s.queue s

inductive Move (α : Type*) where
  | arrive (a : α)
  | release
  | retune (capacity limit : ℤ)

def step (s : Station α) : Move α → Station α
  | .arrive a =>
      if s.busy < s.capacity then start a { s with accepted := s.accepted ++ [a] }
      else if (s.queue.length : ℤ) < s.limit then
        { s with queue := s.queue ++ [a], accepted := s.accepted ++ [a] }
      else s
  | .release => pull { s with busy := s.busy - 1 }
  | .retune capacity limit => pull { s with capacity := capacity, limit := limit }

/-- What pulling does: a first part of the list is started. It ends within capacity if it
started anything, and at capacity if it left anything. -/
theorem pullFrom_spec (l : List α) (s : Station α) :
    ∃ moved rest, l = moved ++ rest ∧
      pullFrom l s = { s with
        busy := s.busy + moved.length, queue := rest, started := s.started ++ moved } ∧
      (moved ≠ [] → s.busy + moved.length ≤ s.capacity) ∧
      (rest ≠ [] → s.capacity ≤ s.busy + moved.length) := by
  induction l generalizing s with
  | nil => exact ⟨[], [], rfl, by simp [pullFrom], by simp, by simp⟩
  | cons a l ih =>
      unfold pullFrom
      split
      · next hroom =>
          obtain ⟨moved, rest, rfl, heq, hwithin, hfull⟩ := ih (start a s)
          have hbusy : (start a s).busy + moved.length = s.busy + (a :: moved).length := by
            simp only [start, List.length_cons]
            omega
          refine ⟨a :: moved, rest, rfl, ?_, fun _ => ?_, fun hrest => ?_⟩
          · rw [heq, hbusy]
            simp [start]
          · cases moved with
            | nil => simpa using Int.add_one_le_iff.mpr hroom
            | cons a' moved =>
                rw [← hbusy]
                exact hwithin (List.cons_ne_nil _ _)
          · rw [← hbusy]
            exact hfull hrest
      · next hfull =>
          refine ⟨[], a :: l, rfl, by simp, by simp, fun _ => ?_⟩
          simpa using hfull

/-- Nobody waits while there is room, and arrivals are started in their order. -/
structure Orderly (s : Station α) : Prop where
  conserving : s.queue ≠ [] → s.capacity ≤ s.busy
  fifo : s.started ++ s.queue = s.accepted

theorem pull_orderly {s : Station α} (h : s.started ++ s.queue = s.accepted) :
    Orderly (pull s) := by
  obtain ⟨moved, rest, hsplit, heq, -, hfull⟩ := pullFrom_spec s.queue s
  rw [pull, heq]
  refine ⟨hfull, ?_⟩
  rw [List.append_assoc, ← hsplit, h]

theorem Orderly.step {s : Station α} (h : Orderly s) (m : Move α) : Orderly (s.step m) := by
  cases m with
  | arrive a =>
      unfold Station.step
      dsimp only
      split
      · next hroom =>
          -- with room nobody waits, so the arrival is next
          have hnone : s.queue = [] := by
            by_contra hne
            exact absurd (h.conserving hne) (by omega)
          refine ⟨fun hne => absurd hnone hne, ?_⟩
          simp [start, ← h.fifo, hnone]
      · next hroom =>
          split
          · refine ⟨fun _ => by simpa using hroom, ?_⟩
            rw [← h.fifo, List.append_assoc]
          · exact h
  | release => exact pull_orderly h.fifo
  | retune capacity limit => exact pull_orderly h.fifo

/-- A move that starts anything ends within capacity. -/
theorem step_started (s : Station α) (m : Move α) :
    (s.step m).started = s.started ∧ (s.step m).busy ≤ s.busy ∨
      (s.step m).busy ≤ (s.step m).capacity := by
  have hpull (s₁ : Station α) : (pull s₁).started = s₁.started ∧ (pull s₁).busy = s₁.busy ∨
      (pull s₁).busy ≤ (pull s₁).capacity := by
    obtain ⟨moved, rest, -, heq, hwithin, -⟩ := pullFrom_spec s₁.queue s₁
    rw [pull, heq]
    cases moved with
    | nil => exact .inl ⟨List.append_nil _, by simp⟩
    | cons a moved => exact .inr (hwithin (List.cons_ne_nil _ _))
  cases m with
  | arrive a =>
      unfold step
      dsimp only
      split
      · next hroom => exact .inr (Int.add_one_le_iff.mpr hroom)
      · split
        · exact .inl ⟨rfl, le_rfl⟩
        · exact .inl ⟨rfl, le_rfl⟩
  | release =>
      refine (hpull _).imp_left fun h => ⟨h.1, h.2.trans_le ?_⟩
      dsimp only
      omega
  | retune capacity limit => exact (hpull _).imp_left fun h => ⟨h.1, h.2.le⟩

/-- A move that queues anything ends within the limit. -/
theorem step_queue (s : Station α) (m : Move α) :
    (s.step m).queue <:+ s.queue ∨ ((s.step m).queue.length : ℤ) ≤ (s.step m).limit := by
  have hpull (s₁ : Station α) : (pull s₁).queue <:+ s₁.queue := by
    obtain ⟨moved, rest, hsplit, heq, -⟩ := pullFrom_spec s₁.queue s₁
    rw [pull, heq]
    exact ⟨moved, hsplit.symm⟩
  cases m with
  | arrive a =>
      unfold step
      dsimp only
      split
      · exact .inl List.suffix_rfl
      · split
        · next hlimit =>
            right
            simp only [List.length_append, List.length_singleton]
            omega
        · exact .inl List.suffix_rfl
  | release => exact .inl (hpull _)
  | retune capacity limit => exact .inl (hpull _)

/-- Only a change of the bounds changes them. -/
theorem step_bounds {s : Station α} {m : Move α} (h : ∀ c l, m ≠ .retune c l) :
    (s.step m).capacity = s.capacity ∧ (s.step m).limit = s.limit := by
  have hpull (s₁ : Station α) : (pull s₁).capacity = s₁.capacity ∧ (pull s₁).limit = s₁.limit := by
    obtain ⟨moved, rest, -, heq, -⟩ := pullFrom_spec s₁.queue s₁
    rw [pull, heq]
    exact ⟨rfl, rfl⟩
  cases m with
  | arrive a =>
      unfold step
      dsimp only
      split
      · exact ⟨rfl, rfl⟩
      · split <;> exact ⟨rfl, rfl⟩
  | release => exact hpull _
  | retune capacity limit => exact absurd rfl (h capacity limit)

end Station

end MaglevLb
