/-
**Flags in a machine word.**

A word of flags is a `BitVec`; a flag is the number of its bit. `hasBit`, `setBit` and `clearBit`
are the C idioms `s & F`, `s |= F` and `s &= ~F` for a mask `F` of one bit, and the lemmas say how
the three interact, so that no proof about flags looks at a word.
-/

import Mathlib.Data.BitVec

namespace Lib

/-- **A search finds the first of some values** if it finds one of them, and for each of them finds one
that is not behind it. -/
theorem isLeast_iff_of_search {α : Type*} [PartialOrder α] {search : Option α} {values : Set α}
    (sound : ∀ {a}, search = some a → a ∈ values)
    (complete : ∀ {a}, a ∈ values → ∃ found ≤ a, search = some found) :
    (∀ a, search = some a ↔ IsLeast values a) ∧ (search = none ↔ values = ∅) := by
  refine ⟨fun a => ⟨fun found => ⟨sound found, fun b member => ?_⟩, fun least => ?_⟩, fun none => ?_,
    fun empty => Option.eq_none_iff_forall_ne_some.mpr fun a found => ?_⟩
  · obtain ⟨first, before, found'⟩ := complete member
    cases found.symm.trans found'
    exact before
  · obtain ⟨first, before, found⟩ := complete least.1
    rwa [le_antisymm (least.2 (sound found)) before]
  · refine Set.eq_empty_of_forall_notMem fun a member => ?_
    obtain ⟨first, -, found⟩ := complete member
    cases none.symm.trans found
  · exact (empty ▸ sound found : a ∈ (∅ : Set α))

variable {w : Nat}

/-- `s & F`, as a truth value. -/
def hasBit (s : BitVec w) (bit : Nat) : Bool := s.getLsbD bit

/-- `s |= F`. -/
def setBit (s : BitVec w) (bit : Nat) : BitVec w := s ||| BitVec.twoPow w bit

/-- `s &= ~F`. -/
def clearBit (s : BitVec w) (bit : Nat) : BitVec w := s &&& ~~~ BitVec.twoPow w bit

@[simp] theorem hasBit_zero (bit : Nat) : hasBit (0#w) bit = false := by
  simp [hasBit]

theorem hasBit_setBit_self (s : BitVec w) {bit : Nat} (small : bit < w) :
    hasBit (setBit s bit) bit = true := by
  simp [hasBit, setBit, small]

theorem hasBit_setBit_of_ne (s : BitVec w) {bit other : Nat} (ne : other ≠ bit) :
    hasBit (setBit s bit) other = hasBit s other := by
  simp [hasBit, setBit, BitVec.getLsbD_twoPow, Ne.symm ne]

@[simp] theorem hasBit_clearBit_self (s : BitVec w) (bit : Nat) :
    hasBit (clearBit s bit) bit = false := by
  by_cases small : bit < w
  · simp [hasBit, clearBit, small]
  · simp [hasBit, BitVec.getLsbD_of_ge _ _ (Nat.le_of_not_lt small)]

theorem hasBit_clearBit_of_ne (s : BitVec w) {bit other : Nat} (ne : other ≠ bit) :
    hasBit (clearBit s bit) other = hasBit s other := by
  by_cases small : other < w
  · simp [hasBit, clearBit, small, ne]
  · simp [hasBit, BitVec.getLsbD_of_ge _ _ (Nat.le_of_not_lt small)]

theorem ne_zero_of_hasBit {s : BitVec w} {bit : Nat} (set : hasBit s bit = true) : s ≠ 0#w := by
  rintro rfl
  simp at set

/-- Clearing the flag that was just set in a word without it gives the word back. -/
theorem clearBit_setBit (s : BitVec w) {bit : Nat} (clear : hasBit s bit = false) :
    clearBit (setBit s bit) bit = s := by
  apply BitVec.eq_of_getLsbD_eq
  intro other _
  by_cases same : other = bit
  · subst same
    exact (hasBit_clearBit_self _ _).trans clear.symm
  · exact (hasBit_clearBit_of_ne _ same).trans (hasBit_setBit_of_ne _ same)

end Lib
