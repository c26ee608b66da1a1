import Mathlib.Algebra.BigOperators.Group.List.Basic
import Mathlib.Data.Int.Cast.Basic
import Mathlib.Tactic.Ring

/-!
# How long those present have been there

A counter says how many are present. It is added up over time by looking at the clock
before each change: at a look, the count since the last look is weighted with the time
that has passed. What it amounts to is the time that each of them has been there, over
those who have left and those who are still present. No order of the times is needed.
-/
namespace MaglevLb.Occupancy

variable {K α : Type*} [CommRing K]

/-- What the counter has amounted to, up to the last look at the clock. -/
structure Meter (K : Type*) where
  integral : K
  since : K
  deriving DecidableEq

def Meter.look (now : K) (present : ℤ) (m : Meter K) : Meter K :=
  ⟨m.integral + present * (now - m.since), now⟩

/-- Who is present and since when, and the time of those who have left. -/
structure Stays (K α : Type*) where
  present : List (α × K)
  past : K

namespace Stays

def enter (a : α) (t : K) (s : Stays K α) : Stays K α := { s with present := s.present ++ [(a, t)] }

def leave [DecidableEq α] (a : α) (t : K) (s : Stays K α) : Stays K α :=
  match s.present.find? (fun e => e.1 = a) with
  | none => s
  | some e => ⟨s.present.eraseP fun e => e.1 = a, s.past + (t - e.2)⟩

/-- Time is counted from `t` on. -/
def restart (t : K) (s : Stays K α) : Stays K α := ⟨s.present.map fun e => (e.1, t), 0⟩

/-- The time of all of them, up to `t`. -/
def upTo (s : Stays K α) (t : K) : K := s.past + (s.present.map fun e => t - e.2).sum

theorem map_fst_restart (t : K) (s : Stays K α) :
    (s.restart t).present.map Prod.fst = s.present.map Prod.fst := by
  simp [restart, Function.comp_def]

theorem sum_add_const (l : List (α × K)) (t u : K) :
    (l.map fun e => u - e.2).sum = (l.map fun e => t - e.2).sum + (l.length : K) * (u - t) := by
  induction l with
  | nil => simp
  | cons e l ih =>
      rw [List.map_cons, List.sum_cons, ih, List.map_cons, List.sum_cons, List.length_cons]
      push_cast
      ring

/-- Those present add up as time goes by. -/
theorem upTo_eq (s : Stays K α) (t u : K) :
    s.upTo u = s.upTo t + (s.present.length : K) * (u - t) := by
  rw [upTo, sum_add_const s.present t u, upTo, add_assoc]

theorem upTo_enter (a : α) (t : K) (s : Stays K α) : (s.enter a t).upTo t = s.upTo t := by
  simp [upTo, enter]

theorem upTo_restart (t : K) (s : Stays K α) : (s.restart t).upTo t = 0 := by
  simp [upTo, restart, Function.comp_def]

section Leave

variable [DecidableEq α]

theorem sum_eraseP {a : α} {e : α × K} {l : List (α × K)} (t : K)
    (h : l.find? (fun e => e.1 = a) = some e) :
    (l.map fun e => t - e.2).sum =
      (t - e.2) + ((l.eraseP fun e => e.1 = a).map fun e => t - e.2).sum := by
  induction l with
  | nil => cases h
  | cons b l ih =>
      by_cases hb : b.1 = a
      · rw [List.find?_cons_of_pos (by simpa using hb)] at h
        cases h
        rw [List.eraseP_cons_of_pos (by simpa using hb), List.map_cons, List.sum_cons]
      · rw [List.find?_cons_of_neg (by simpa using hb)] at h
        rw [List.eraseP_cons_of_neg (by simpa using hb), List.map_cons, List.sum_cons, ih h,
          List.map_cons, List.sum_cons]
        ring

omit [CommRing K] in
theorem exists_find? {a : α} {s : Stays K α} (h : a ∈ s.present.map Prod.fst) :
    ∃ e, s.present.find? (fun e => e.1 = a) = some e := by
  obtain ⟨e, he, rfl⟩ := List.mem_map.mp h
  exact Option.isSome_iff_exists.mp (List.find?_isSome.mpr ⟨e, he, by simp⟩)

theorem leave_of_find? {a : α} {e : α × K} {s : Stays K α} (t : K)
    (h : s.present.find? (fun e => e.1 = a) = some e) :
    s.leave a t = ⟨s.present.eraseP fun e => e.1 = a, s.past + (t - e.2)⟩ := by
  rw [leave, h]

theorem upTo_leave {a : α} {s : Stays K α} (t : K) (h : a ∈ s.present.map Prod.fst) :
    (s.leave a t).upTo t = s.upTo t := by
  obtain ⟨e, he⟩ := exists_find? h
  rw [leave_of_find? t he, upTo, upTo, sum_eraseP t he]
  ring

/-- Exactly one of those with the label leaves. -/
theorem map_fst_leave {a : α} {s : Stays K α} (t : K) (h : a ∈ s.present.map Prod.fst) :
    (s.leave a t).present.map Prod.fst = (s.present.map Prod.fst).erase a := by
  obtain ⟨e, he⟩ := exists_find? h
  rw [leave_of_find? t he]
  have hsame : ∀ l : List (α × K),
      (l.eraseP fun e => e.1 = a).map Prod.fst = (l.map Prod.fst).erase a := by
    intro l
    induction l with
    | nil => rfl
    | cons b l ih =>
        by_cases hb : b.1 = a
        · rw [List.eraseP_cons_of_pos (by simpa using hb), List.map_cons, hb, List.erase_cons_head]
        · rw [List.eraseP_cons_of_neg (by simpa using hb), List.map_cons, List.map_cons, ih,
            List.erase_cons_tail (by simpa using hb)]
  exact hsame s.present

end Leave

end Stays

/-- The meter of a counter that says how many are present. -/
structure Meter.Measures (m : Meter K) (n : ℤ) (s : Stays K α) : Prop where
  count : n = s.present.length
  integral : m.integral = s.upTo m.since

namespace Meter.Measures

variable {m : Meter K} {n : ℤ} {s : Stays K α}

theorem look (h : m.Measures n s) (now : K) : (m.look now n).Measures n s := by
  refine ⟨h.count, ?_⟩
  rw [Meter.look, s.upTo_eq m.since now, h.integral, h.count, Int.cast_natCast]

theorem enter (h : m.Measures n s) (a : α) (now : K) :
    (m.look now n).Measures (n + 1) (s.enter a now) := by
  refine ⟨?_, ?_⟩
  · rw [h.count, Stays.enter]
    simp
  · have hlook := (h.look now).integral
    rw [hlook]
    exact (Stays.upTo_enter a now s).symm

theorem leave [DecidableEq α] (h : m.Measures n s) {a : α} (ha : a ∈ s.present.map Prod.fst)
    (now : K) : (m.look now n).Measures (n - 1) (s.leave a now) := by
  refine ⟨?_, ?_⟩
  · have hlength := congrArg List.length (Stays.map_fst_leave now ha)
    rw [List.length_map, List.length_erase_of_mem ha, List.length_map] at hlength
    have hpos := List.length_pos_of_mem ha
    rw [List.length_map] at hpos
    rw [h.count, hlength]
    omega
  · have hlook := (h.look now).integral
    rw [hlook]
    exact (Stays.upTo_leave now ha).symm

theorem restart (h : m.Measures n s) (now : K) :
    (⟨0, now⟩ : Meter K).Measures n (s.restart now) := by
  refine ⟨?_, (Stays.upTo_restart now s).symm⟩
  rw [h.count, Stays.restart, List.length_map]

end Meter.Measures

end MaglevLb.Occupancy
