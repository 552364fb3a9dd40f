/-
**Ranges of cells.**

A range is a first cell and a number of cells. `Tiled n on ranges` says that no two of the ranges share
a cell and that, of the first `n` cells, those that are `on` are the ones in the ranges: the table of an
allocator beside what it has handed out.

* `Tiled.add`: a range of free cells is switched on;
* `Tiled.remove`: a range is switched off again.
-/

import Mathlib.Data.List.Perm.Basic
import Mathlib.Data.List.Pairwise

namespace Lib

/-- A run of numbers. -/
structure Range where
  first : Nat
  len : Nat
  deriving DecidableEq, Repr

namespace Range

variable {r s : Range}

/-- The cell is in the range. -/
def Holds (r : Range) (i : Nat) : Prop := r.first ≤ i ∧ i < r.first + r.len

instance (r : Range) (i : Nat) : Decidable (r.Holds i) := inferInstanceAs (Decidable (_ ∧ _))

/-- The ranges share no cell. -/
def Apart (r s : Range) : Prop := ∀ i, r.Holds i → ¬ s.Holds i

theorem Apart.symm (apart : r.Apart s) : s.Apart r := fun i second first => apart i first second

theorem apart_of_le (before : r.first + r.len ≤ s.first) : r.Apart s := fun _ first second =>
  absurd (Nat.lt_of_lt_of_le first.2 before) (Nat.not_lt.mpr second.1)

end Range

/-- The cells that are on are those in the ranges, and each of them is in one range. -/
structure Tiled (n : Nat) (on : Nat → Bool) (ranges : List Range) : Prop where
  apart : ranges.Pairwise Range.Apart
  exact : ∀ i < n, on i = true ↔ ∃ r ∈ ranges, r.Holds i

namespace Tiled

variable {n : Nat} {on on' : Nat → Bool} {ranges ranges' : List Range} {r : Range}

theorem perm (tiled : Tiled n on ranges) (same : ranges.Perm ranges') : Tiled n on ranges' where
  apart := (same.pairwise_iff Range.Apart.symm).mp tiled.apart
  exact i inside := by simp only [tiled.exact i inside, same.mem_iff]

/-- **A range of free cells is switched on.** -/
theorem add (tiled : Tiled n on ranges) (inside : ∀ s ∈ ranges, ∀ i, s.Holds i → i < n)
    (free : ∀ i, r.Holds i → on i = false)
    (now : ∀ i < n, on' i = (decide (r.Holds i) || on i)) : Tiled n on' (r :: ranges) where
  apart := by
    refine List.pairwise_cons.mpr ⟨fun s member i here there => ?_, tiled.apart⟩
    have isOn := (tiled.exact i (inside s member i there)).mpr ⟨s, member, there⟩
    rw [free i here] at isOn
    cases isOn
  exact i small := by
    rw [now i small, Bool.or_eq_true, decide_eq_true_iff, tiled.exact i small]
    simp only [List.mem_cons, exists_eq_or_imp]

/-- **A range is switched off.** -/
theorem remove (tiled : Tiled n on (r :: ranges))
    (now : ∀ i < n, on' i = (!decide (r.Holds i) && on i)) : Tiled n on' ranges where
  apart := (List.pairwise_cons.mp tiled.apart).2
  exact i small := by
    rw [now i small, Bool.and_eq_true, Bool.not_eq_true', decide_eq_false_iff_not, tiled.exact i small]
    have apart := (List.pairwise_cons.mp tiled.apart).1
    constructor
    · rintro ⟨outside, s, member, inside⟩
      rcases List.mem_cons.mp member with rfl | member
      · exact absurd inside outside
      · exact ⟨s, member, inside⟩
    · rintro ⟨s, member, inside⟩
      exact ⟨fun here => apart s member i here inside, s, List.mem_cons_of_mem r member, inside⟩

end Tiled

end Lib
