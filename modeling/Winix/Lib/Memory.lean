/-
**Arrays of words and the loops that copy them.**

An array is a function from indices to values; `slice array start n` lists `n` of its cells.

* `copyWords` is the loop `while (n-- > 0) *to++ = *from++` between two arrays
  (`slice_copyWords`: the target then holds the source's cells, `copyWords_outside`: nothing else
  changes);
* `fillWords` is `while (k < end) a[k++] = v`;
* `shiftWords` is the in-place shift `a[j] = a[i]; a[i] = v; i++; j++`, which moves the cells down
  when `j < i` (`shiftWords_moved`).
-/

import Mathlib.Logic.Function.Basic
import Mathlib.Data.List.Range

namespace Lib

open Function

variable {α : Type*}
variable {first second : Nat → α}

/-- The cells `array[start], …, array[start + n - 1]`. -/
def slice (array : Nat → α) (start n : Nat) : List α :=
  (List.range n).map fun i => array (start + i)

@[simp] theorem slice_zero (array : Nat → α) (start : Nat) : slice array start 0 = [] := rfl

@[simp] theorem length_slice (array : Nat → α) (start n : Nat) :
    (slice array start n).length = n := by
  simp [slice]

theorem slice_congr {start other n : Nat}
    (same : ∀ i, i < n → first (start + i) = second (other + i)) :
    slice first start n = slice second other n :=
  List.map_congr_left fun i member => same i (List.mem_range.mp member)

theorem slice_add (array : Nat → α) (start m n : Nat) :
    slice array start (m + n) = slice array start m ++ slice array (start + m) n := by
  simp only [slice, List.range_add, List.map_append, List.map_map]
  congr 1
  apply List.map_congr_left
  intro i _
  show array (start + (m + i)) = array (start + m + i)
  rw [Nat.add_assoc]

theorem eq_of_slice_eq {start other n i : Nat} (same : slice first start n = slice second other n)
    (inside : i < n) : first (start + i) = second (other + i) := by
  have cells := congrArg (fun cells => cells[i]?) same
  simpa [slice, inside] using cells

/-! ### Copying -/

/-- `while (n-- > 0) *to++ = *from++`. -/
def copyWords : Nat → (Nat → α) → Nat → (Nat → α) → Nat → Nat → α
  | 0, target, _, _, _ => target
  | n + 1, target, place, source, start =>
    copyWords n (update target place (source start)) (place + 1) source (start + 1)

theorem copyWords_outside (n : Nat) (target source : Nat → α) (place start : Nat) {i : Nat}
    (outside : i < place ∨ place + n ≤ i) : copyWords n target place source start i = target i := by
  induction n generalizing target place start with
  | zero => rfl
  | succ n ih =>
    rw [copyWords, ih _ _ _ (by omega), update_of_ne (by omega)]

theorem copyWords_inside (n : Nat) (target source : Nat → α) (place start : Nat) {i : Nat}
    (inside : i < n) : copyWords n target place source start (place + i) = source (start + i) := by
  induction n generalizing target place start i with
  | zero => omega
  | succ n ih =>
    rw [copyWords]
    cases i with
    | zero =>
      rw [copyWords_outside _ _ _ _ _ (by omega)]
      exact update_self ..
    | succ i =>
      have rest := ih (update target place (source start)) (place + 1) (start + 1)
        (Nat.lt_of_succ_lt_succ inside)
      rwa [show place + 1 + i = place + (i + 1) by omega,
        show start + 1 + i = start + (i + 1) by omega] at rest

theorem copyWords_congr {n : Nat} {target source : Nat → α} (other : Nat → α) {place start : Nat}
    (same : ∀ i < n, source (start + i) = other (start + i)) :
    copyWords n target place source start = copyWords n target place other start := by
  funext k
  by_cases inside : place ≤ k ∧ k < place + n
  · obtain ⟨i, rfl⟩ := Nat.exists_eq_add_of_le inside.1
    rw [copyWords_inside _ _ _ _ _ (by omega), copyWords_inside _ _ _ _ _ (by omega), same i (by omega)]
  · rw [copyWords_outside _ _ _ _ _ (by omega), copyWords_outside _ _ _ _ _ (by omega)]

/-- **A copied slice is the source's slice.** -/
theorem slice_copyWords (n : Nat) (target source : Nat → α) (place start : Nat) :
    slice (copyWords n target place source start) place n = slice source start n :=
  slice_congr fun _ inside => copyWords_inside n target source place start inside

theorem slice_copyWords_before (n : Nat) (target source : Nat → α) (place start : Nat) :
    slice (copyWords n target place source start) 0 place = slice target 0 place :=
  slice_congr fun _ inside => copyWords_outside n target source place start (by omega)

/-! ### Filling and shifting -/

/-- `while (k < end) array[k++] = value`, `n` times. -/
def fillWords (value : α) : Nat → (Nat → α) → Nat → Nat → α
  | 0, array, _ => array
  | n + 1, array, k => fillWords value n (update array k value) (k + 1)

theorem fillWords_outside (value : α) (n : Nat) (array : Nat → α) (k : Nat) {i : Nat}
    (outside : i < k ∨ k + n ≤ i) : fillWords value n array k i = array i := by
  induction n generalizing array k with
  | zero => rfl
  | succ n ih =>
    rw [fillWords, ih _ _ (by omega), update_of_ne (by omega)]

/-- `array[j] = array[i]; array[i] = value; i++; j++`, `n` times. -/
def shiftWords (value : α) : Nat → (Nat → α) → Nat → Nat → Nat → α
  | 0, array, _, _ => array
  | n + 1, array, i, j =>
    shiftWords value n (update (update array j (array i)) i value)
      (i + 1) (j + 1)

theorem shiftWords_outside (value : α) (n : Nat) (array : Nat → α) (i j : Nat) {k : Nat}
    (outside : k < j ∨ j + n ≤ k) (other : k < i ∨ i + n ≤ k) :
    shiftWords value n array i j k = array k := by
  induction n generalizing array i j with
  | zero => rfl
  | succ n ih =>
    rw [shiftWords, ih _ _ _ (by omega) (by omega), update_of_ne (by omega), update_of_ne (by omega)]

/-- **Shifting down moves the cells.** -/
theorem shiftWords_moved (value : α) (n : Nat) (array : Nat → α) {i j k : Nat}
    (down : j < i) (inside : k < n) :
    shiftWords value n array i j (j + k) = array (i + k) := by
  induction n generalizing array i j k with
  | zero => omega
  | succ n ih =>
    rw [shiftWords]
    cases k with
    | zero =>
      rw [shiftWords_outside _ _ _ _ _ (by omega) (by omega), update_of_ne (by omega)]
      exact update_self ..
    | succ k =>
      have rest := ih (update (update array j (array i)) i value)
        (Nat.add_lt_add_right down 1) (Nat.lt_of_succ_lt_succ inside)
      rw [show j + 1 + k = j + (k + 1) by omega, show i + 1 + k = i + (k + 1) by omega] at rest
      rw [rest, update_of_ne (by omega), update_of_ne (by omega)]

end Lib
