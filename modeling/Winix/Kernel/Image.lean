/-
**The memory of a process.**

What `struct proc` says of a process's memory: where its image lies, its heap and its protection table.
`winix/mm.c` hands pages out to a process by setting their bits in the memory map and in its table.

* `userGetFreePages`, `userGetFreePagesFrom`: pages anywhere, and pages at an address;
* lengths are rounded to pages as signed numbers (`numPages`), and a length near the largest one is
  rounded to a negative number of pages. No loop runs for it and no bound stops it;
* **`userGetFreePagesFrom_spec`**: pages at an address are granted whole or not at all.
-/

import Winix.Kernel.Vaddr

namespace Winix.Kernel

open Lib

/-- The memory of a process in `struct proc`. -/
structure Image where
  rbase : Word
  memStart : Word
  stackTop : Word
  heapTop : Word
  heapBreak : Word
  heapBottom : Word
  rbaseOffset : Word
  ptable : Nat → Word

/-- `get_physical_addr`. -/
def Image.physical (who : Image) (va : Word) : Word := va + who.rbase

/-- `get_virtual_addr`. -/
def Image.virtual (who : Image) (pa : Word) : Word := pa - who.rbase

/-- `user_get_free_pages`: a pointer, `0` is `NULL`. -/
def userGetFreePages (mm : Mm) (ptable : Nat → Word) (length flags : Word) :
    Mm × (Nat → Word) × Word :=
  let (mm, p) := getFreePages mm length flags
  if p = 0#32 then (mm, ptable, 0#32)
  else if nbitsFit ptableLen (paddrToPaged p) (paddrToNumPages length) then
    (mm, bitmapSetNbits ptable ptableLen (paddrToPaged p) (paddrToNumPages length), p)
  else (mm, ptable, 0#32)

/-- `user_get_free_pages_from`, at an address that is not negative: whether it returns `OK`. -/
def userGetFreePagesFrom (mm : Mm) (ptable : Nat → Word) (addr size : Word) :
    Mm × (Nat → Word) × Bool :=
  -- `bitmap_set_nbits` adds a negative number of bits to the first one, and has no bit to set.
  if numPages size < 0 then
    (mm, ptable, decide ((paddrToPaged addr : Int) + numPages size < memMapLen * 32))
  else
    let (mm, done) := getFreePagesFrom mm addr size
    if done then
      (mm, bitmapSetNbits ptable ptableLen (paddrToPaged addr) (paddrToNumPages size),
        nbitsFit ptableLen (paddrToPaged addr) (paddrToNumPages size))
    else (mm, ptable, false)

/-! ### Pages anywhere -/

section PagesAnywhere

variable {mm : Mm} {length flags : Word} (ptable : Nat → Word)

/-- Pages that a process gets: the ones that the search has found. -/
theorem userGetFreePages_got (got : (getFreePages mm length flags).2 ≠ 0#32) :
    ∃ nstart, searchPages mm (paddrToNumPages length) flags = some nstart ∧
      userGetFreePages mm ptable length flags =
        ({ mm with memMap := bitmapSetNbits mm.memMap memMapLen nstart (paddrToNumPages length) },
          markRun ptable nstart (paddrToNumPages length), pageToPaddr nstart) := by
  cases found : searchPages mm (paddrToNumPages length) flags with
  | none =>
    rw [getFreePages, found] at got
    exact absurd rfl got
  | some nstart =>
    obtain ⟨positive, below, -⟩ := searchPages_free found
    rw [getFreePages, found] at got
    have nonnull : pageToPaddr nstart ≠ 0#32 := got
    have within : ¬ ptableLen * 32 ≤ nstart + paddrToNumPages length := by
      unfold pagesNr ptableLen at *
      omega
    have paged := paddrToPaged_pageToPaddr (show nstart ≤ 127 by unfold pagesNr at below; omega)
    refine ⟨nstart, rfl, ?_⟩
    rw [userGetFreePages, getFreePages, found]
    simp only [if_neg nonnull, paged, bitmapSetNbits, nbitsFit, decide_eq_false within, Bool.not_false,
      if_true, if_neg within]

theorem userGetFreePages_null (none : (getFreePages mm length flags).2 = 0#32) :
    (userGetFreePages mm ptable length flags).2 = (ptable, 0#32) := by
  rw [userGetFreePages]
  simp only [none, if_true]

end PagesAnywhere

/-! ### Pages at an address -/

section PagesFrom

variable {mm : Mm} {ptable : Nat → Word} {addr size : Word}

/-- The pages at an address are free and end before the last one; a negative number of pages only has to
end there. -/
def pagesGranted (mm : Mm) (addr size : Word) : Bool :=
  if numPages size < 0 then decide ((paddrToPaged addr : Int) + numPages size < memMapLen * 32)
  else isPagesFreeFrom mm addr size && nbitsFit memMapLen (paddrToPaged addr) (paddrToNumPages size)

/-- **Pages at an address** are granted whole or not at all. -/
theorem userGetFreePagesFrom_spec :
    userGetFreePagesFrom mm ptable addr size =
      if pagesGranted mm addr size then
        ({ mm with memMap := markRun mm.memMap (paddrToPaged addr) (paddrToNumPages size) },
          markRun ptable (paddrToPaged addr) (paddrToNumPages size), true)
      else (mm, ptable, false) := by
  by_cases negative : numPages size < 0
  · -- no bit is set
    have none : paddrToNumPages size = 0 := Int.toNat_of_nonpos negative.le
    rw [userGetFreePagesFrom, pagesGranted, if_pos negative, if_pos negative, none]
    cases decide ((paddrToPaged addr : Int) + numPages size < memMapLen * 32) <;> rfl
  rw [userGetFreePagesFrom, if_neg negative, getFreePagesFrom, pagesGranted, if_neg negative]
  cases free : isPagesFreeFrom mm addr size with
  | false => simp
  | true =>
    cases fits : nbitsFit memMapLen (paddrToPaged addr) (paddrToNumPages size) with
    | false =>
      have beyond : memMapLen * 32 ≤ paddrToPaged addr + paddrToNumPages size := by
        simpa [nbitsFit] using fits
      simp [bitmapSetNbits, beyond]
    | true =>
      have within : paddrToPaged addr + paddrToNumPages size < memMapLen * 32 := by
        simpa [nbitsFit] using fits
      have table : paddrToPaged addr + paddrToNumPages size < ptableLen * 32 := by
        unfold memMapLen ptableLen at *
        omega
      simp [bitmapSetNbits, nbitsFit, not_le.mpr within, not_le.mpr table]

/-- A length that is rounded to a negative number of pages is granted at any address. -/
theorem pagesGranted_large (large : 2 ^ 31 - 1024 < size.toInt) (inside : addr.toNat < 2 ^ 31) :
    pagesGranted mm addr size = true := by
  have below : (paddrToPaged addr : Int) + -2 ^ 21 < memMapLen * 32 := by
    unfold paddrToPaged memMapLen pageLen
    omega
  rw [pagesGranted, numPages_of_large large, if_pos (by decide), decide_eq_true below]

theorem pagesGranted_fits (whole : 0 ≤ numPages size) (granted : pagesGranted mm addr size = true) :
    paddrToPaged addr + paddrToNumPages size < pagesNr := by
  rw [pagesGranted, if_neg (not_lt.mpr whole), Bool.and_eq_true, nbitsFit, Bool.not_eq_true',
    decide_eq_false_iff_not] at granted
  exact not_le.mp granted.2

end PagesFrom

end Winix.Kernel
