/-
**The page allocator.**

`winix/mm.c`. `mem_map` has a bit for each of the 128 pages of the memory; the pages of the kernel
image and the last page are never free. `get_free_pages` does not look at what `bitmap_set_nbits`
returns, which refuses a run that touches the last bit: it is the reserved last page that keeps the
searches from finding such a run.

* `getFreePages_spec`, `getFreePagesFrom_spec`, `releasePages_spec`: what the operations do to the bits;
* **`pages_tiled`**: no page is handed out twice in any run from `init_mem_table`;
  **`page_map_forgets`**: nothing of a range that has been given back is left.
-/

import Winix.Kernel.Bitmap
import Winix.Lib.Range
import Winix.Lib.Run

namespace Winix.Kernel

open Lib List

/-- `MEM_MAP_LEN`. -/
def memMapLen : Nat := 4
/-- `PAGE_LEN`. -/
def pageLen : Nat := 1024
/-- `FREE_MEM_END`. -/
def freeMemEnd : Nat := 0x1ffff
/-- `GFP_NORM`. -/
def gfpNorm : Word := 1#32
/-- `GFP_HIGH`. -/
def gfpHigh : Word := 2#32
/-- The bit of `GFP_HIGH`. -/
def gfpHighBit : Nat := 1

/-- `align_page`. -/
def alignPage (len : Word) : Word := ((len - 1#32).sshiftRight 10 <<< 10) + 1024#32

/-- `PADDR_TO_NUM_PAGES`. A negative number of pages is found as seldom as none. -/
def paddrToNumPages (len : Word) : Nat := ((alignPage len).toInt.tdiv 1024).toNat

/-- `PADDR_TO_PAGED`, for an address inside the memory. -/
def paddrToPaged (addr : Word) : Nat := addr.toNat / pageLen

/-- The address of a page. -/
def pageToPaddr (index : Nat) : Word := BitVec.ofNat 32 (index * pageLen)

/-- The variables of `mm.c`. -/
structure Mm where
  memMap : Nat → Word
  bssPageEnd : Nat

/-- `init_mem_table`, for an image that ends at `BSS_END`. -/
def initMemTable (bssEnd : Word) : Mm :=
  let freeMemBegin := (bssEnd ||| 0x3ff#32) + 1#32
  let len := freeMemBegin.toNat / pageLen
  let map := bitmapSetNbits (fun _ => 0#32) memMapLen 0 len
  ⟨bitmapSetBit map memMapLen (freeMemEnd / pageLen), paddrToPaged freeMemBegin⟩

/-- The search of `get_free_pages`. -/
def searchPages (mm : Mm) (num : Nat) (flags : Word) : Option Nat :=
  if hasBit flags gfpHighBit then bitmapSearchReverse mm.memMap memMapLen num
  else bitmapSearchFrom mm.memMap memMapLen mm.bssPageEnd num

/-- `get_free_pages`: a pointer, `0` is `NULL`. -/
def getFreePages (mm : Mm) (length flags : Word) : Mm × Word :=
  match searchPages mm (paddrToNumPages length) flags with
  | some nstart =>
    ({ mm with memMap := bitmapSetNbits mm.memMap memMapLen nstart (paddrToNumPages length) },
      pageToPaddr nstart)
  | none => (mm, 0#32)

/-- `is_pages_free_from`. -/
def isPagesFreeFrom (mm : Mm) (addr size : Word) : Bool :=
  (List.range (paddrToNumPages size)).all fun i =>
    !isBitOn mm.memMap memMapLen (paddrToPaged addr + i)

/-- `get_free_pages_from`: whether it returns `OK`. -/
def getFreePagesFrom (mm : Mm) (addr size : Word) : Mm × Bool :=
  if isPagesFreeFrom mm addr size then
    ({ mm with
        memMap := bitmapSetNbits mm.memMap memMapLen (paddrToPaged addr) (paddrToNumPages size) },
      nbitsFit memMapLen (paddrToPaged addr) (paddrToNumPages size))
  else (mm, false)

/-- `release_pages`: whether it returns `OK`. -/
def releasePages (mm : Mm) (page : Word) (len : Nat) : Mm × Bool :=
  if page.toNat % pageLen ≠ 0 then (mm, false)
  else
    ({ mm with memMap := bitmapClearNbits mm.memMap memMapLen (paddrToPaged page) len },
      nbitsFit memMapLen (paddrToPaged page) len)

/-! ### Sizes -/

section Sizes

variable {len : Word}

theorem toNat_sub_one {x : Word} (positive : 0 < x.toNat) : (x - 1#32).toNat = x.toNat - 1 := by
  bv_omega

theorem alignPage_toNat (positive : 0 < len.toInt) :
    (alignPage len).toNat = (len.toNat - 1) / 1024 * 1024 + 1024 := by
  have natLen : 0 < len.toNat ∧ len.toNat < 2 ^ 31 := by
    rw [BitVec.toInt_eq_toNat_cond] at positive
    omega
  have before := toNat_sub_one natLen.1
  have sign : (len - 1#32).msb = false := by
    rw [BitVec.msb_eq_decide, before]
    exact decide_eq_false (by omega)
  rw [alignPage, BitVec.sshiftRight_eq_of_msb_false sign, BitVec.toNat_add, BitVec.toNat_shiftLeft,
    BitVec.toNat_ushiftRight, before, Nat.shiftRight_eq_div_pow, Nat.shiftLeft_eq]
  simp only [BitVec.toNat_ofNat]
  omega

/-- `PADDR_TO_NUM_PAGES`, with its sign. -/
def numPages (len : Word) : Int := (alignPage len).toInt.tdiv 1024

theorem numPages_of_small (positive : 0 < len.toInt) (small : len.toInt ≤ 2 ^ 31 - 1024) :
    numPages len = ((len.toNat + 1023) / 1024 : Nat) := by
  have natLen : 0 < len.toNat ∧ len.toNat ≤ 2 ^ 31 - 1024 := by
    rw [BitVec.toInt_eq_toNat_cond] at positive small
    omega
  have aligned := alignPage_toNat positive
  rw [numPages, BitVec.toInt_eq_toNat_of_lt (by omega), aligned, Int.tdiv_eq_ediv_of_nonneg (by omega)]
  omega

/-- Above the last page that can be counted, the number of pages is negative. -/
theorem numPages_of_large (large : 2 ^ 31 - 1024 < len.toInt) : numPages len = -2 ^ 21 := by
  have natLen : len.toNat < 2 ^ 31 ∧ 2 ^ 31 - 1024 < len.toNat := by
    rw [BitVec.toInt_eq_toNat_cond] at large
    omega
  have aligned := alignPage_toNat (show 0 < len.toInt by omega)
  have negative : (alignPage len).toInt = -2 ^ 31 := by
    rw [BitVec.toInt_eq_toNat_cond, aligned, show (len.toNat - 1) / 1024 * 1024 + 1024 =
      2 ^ 31 by omega]
    rfl
  rw [numPages, negative]
  rfl

theorem paddrToNumPages_eq (positive : 0 < len.toInt) (small : len.toInt ≤ 2 ^ 31 - 1024) :
    paddrToNumPages len = (len.toNat + 1023) / 1024 :=
  congrArg Int.toNat (numPages_of_small positive small)

theorem paddrToNumPages_overflow (large : 2 ^ 31 - 1024 < len.toInt) : paddrToNumPages len = 0 :=
  congrArg Int.toNat (numPages_of_large large)

end Sizes

/-! ### The bits -/

/-- The pages of the memory. -/
def pagesNr : Nat := 128

theorem pageToPaddr_toNat {nstart : Nat} (small : nstart ≤ 127) :
    (pageToPaddr nstart).toNat = nstart * 1024 := by
  rw [pageToPaddr, BitVec.toNat_ofNat, pageLen]
  exact Nat.mod_eq_of_lt (by omega)

theorem paddrToPaged_pageToPaddr {nstart : Nat} (small : nstart ≤ 127) :
    paddrToPaged (pageToPaddr nstart) = nstart := by
  rw [paddrToPaged, pageToPaddr_toNat small, pageLen]
  omega

theorem pageToPaddr_ne_zero {nstart : Nat} (positive : 0 < nstart) (small : nstart ≤ 127) :
    pageToPaddr nstart ≠ 0#32 := by
  have place := pageToPaddr_toNat small
  bv_omega

theorem nbitsFit_of_le {first num : Nat} (fits : first + num ≤ 127) :
    nbitsFit memMapLen first num = true := by
  rw [nbitsFit, decide_eq_false (by unfold memMapLen; omega)]
  rfl

theorem searchPages_free {mm : Mm} {num nstart : Nat} {flags : Word}
    (found : searchPages mm num flags = some nstart) :
    0 < num ∧ nstart + num ≤ pagesNr ∧
      ∀ i, nstart ≤ i → i < nstart + num → bitOn mm.memMap i = false := by
  unfold searchPages at found
  split_ifs at found
  · exact bitmapSearchReverse_sound found
  · exact ⟨(bitmapSearchFrom_sound found).1, (bitmapSearchFrom_sound found).2.2⟩

/-- The pages of a kernel image that ends before this page, and the last page. -/
def kernelPages (kernel : Nat) : Range := ⟨0, kernel⟩
/-- The last page, which is never given out. -/
def reservedPage : Range := ⟨127, 1⟩

theorem reserved_perm (kernel : Nat) (r : Range) (live : List Range) :
    (kernelPages kernel :: reservedPage :: r :: live).Perm
      (r :: kernelPages kernel :: reservedPage :: live) :=
  ((List.Perm.swap _ _ _).cons _).trans (List.Perm.swap _ _ _)

/-- The bits that are set are those of the kernel image, the last page and what has been handed out. -/
structure PagesInv (mm : Mm) (kernel : Nat) (live : List Range) : Prop where
  image : 0 < kernel ∧ kernel ≤ 127
  tiled : Tiled pagesNr (bitOn mm.memMap) (kernelPages kernel :: reservedPage :: live)
  inside : ∀ r ∈ live, r.first + r.len ≤ 127

namespace PagesInv

variable {mm mm' : Mm} {kernel nstart num : Nat} {live : List Range} {length flags addr size : Word}
  {r : Range}

section

variable (inv : PagesInv mm kernel live)
include inv

theorem within : ∀ s ∈ kernelPages kernel :: reservedPage :: live, ∀ i, s.Holds i → i < pagesNr := by
  intro s member i holds
  have bound : s.first + s.len ≤ 128 := by
    rcases mem_cons.mp member with rfl | member
    · exact Nat.le_succ_of_le (by simpa [kernelPages] using inv.image.2)
    rcases mem_cons.mp member with rfl | member
    · exact le_rfl
    · exact Nat.le_succ_of_le (inv.inside s member)
  exact lt_of_lt_of_le holds.2 bound

theorem perm {live' : List Range} (same : live.Perm live') : PagesInv mm kernel live' :=
  ⟨inv.image, inv.tiled.perm ((same.cons _).cons _),
    fun r member => inv.inside r (same.mem_iff.mpr member)⟩

theorem bits_eq (inv' : PagesInv mm' kernel live) :
    ∀ i < pagesNr, bitOn mm'.memMap i = bitOn mm.memMap i := fun i inside =>
  Bool.eq_iff_iff.mpr ((inv'.tiled.exact i inside).trans (inv.tiled.exact i inside).symm)

theorem fresh (inv' : PagesInv mm' kernel (r :: live)) {i : Nat} (holds : r.Holds i) :
    i < pagesNr ∧ bitOn mm.memMap i = false ∧ bitOn mm'.memMap i = true := by
  have added := mem_cons_of_mem (kernelPages kernel)
    (mem_cons_of_mem reservedPage (mem_cons_self (a := r) (l := live)))
  have inside := inv'.within r added i holds
  refine ⟨inside, Bool.eq_false_iff.mpr fun taken => ?_,
    (inv'.tiled.exact i inside).mpr ⟨r, added, holds⟩⟩
  obtain ⟨other, member, holds'⟩ := (inv.tiled.exact i inside).mp taken
  exact (pairwise_cons.mp (inv'.tiled.perm (reserved_perm ..)).apart).1 other member i holds holds'

theorem last_taken : bitOn mm.memMap 127 = true :=
  (inv.tiled.exact 127 (by decide)).mpr ⟨reservedPage, mem_cons_of_mem _ mem_cons_self, by decide⟩

theorem bounds (positive : 0 < num) (small : nstart + num ≤ pagesNr)
    (free : ∀ i, nstart ≤ i → i < nstart + num → bitOn mm.memMap i = false) :
    0 < nstart ∧ nstart + num ≤ 127 := by
  have first : bitOn mm.memMap 0 = true := (inv.tiled.exact 0 (by decide)).mpr
    ⟨kernelPages kernel, mem_cons_self, le_rfl, by simpa [kernelPages] using inv.image.1⟩
  have last := inv.last_taken
  have notFirst : ¬ (nstart ≤ 0 ∧ 0 < nstart + num) := fun both => by
    rw [free 0 both.1 both.2] at first
    cases first
  have notLast : ¬ (nstart ≤ 127 ∧ 127 < nstart + num) := fun both => by
    rw [free 127 both.1 both.2] at last
    cases last
  unfold pagesNr at small
  omega

/-- **A run of free pages is handed out.** -/
theorem taken (fits : nstart + num ≤ 127)
    (free : ∀ i, nstart ≤ i → i < nstart + num → bitOn mm.memMap i = false) :
    PagesInv { mm with memMap := bitmapSetNbits mm.memMap memMapLen nstart num } kernel
      (⟨nstart, num⟩ :: live) := by
  have added : Tiled pagesNr (bitOn (markRun mm.memMap nstart num)) (⟨nstart, num⟩ :: _) :=
    inv.tiled.add inv.within (fun i holds => free i holds.1 holds.2)
      fun i _ => bitOn_markRun mm.memMap nstart num i
  refine ⟨inv.image, ?_, fun r member => ?_⟩
  · show Tiled _ (bitOn (bitmapSetNbits mm.memMap memMapLen nstart num)) _
    rw [bitmapSetNbits, if_neg (by unfold memMapLen; omega)]
    exact added.perm (reserved_perm ..).symm
  · rcases mem_cons.mp member with rfl | member
    · exact fits
    · exact inv.inside r member

/-- **A range of pages is given back.** -/
theorem givenBack (member : r ∈ live) :
    PagesInv { mm with memMap := bitmapClearNbits mm.memMap memMapLen r.first r.len } kernel
      (live.erase r) := by
  have fits := inv.inside r member
  refine ⟨inv.image, ?_, fun s member => inv.inside s (mem_of_mem_erase member)⟩
  have order := (((perm_cons_erase member).cons reservedPage).cons (kernelPages kernel)).trans
    (reserved_perm ..)
  show Tiled _ (bitOn (bitmapClearNbits mm.memMap memMapLen r.first r.len)) _
  rw [bitmapClearNbits, if_neg (by unfold memMapLen; omega)]
  exact (inv.tiled.perm order).remove fun i _ => bitOn_eraseRun mm.memMap r.first r.len i

theorem searchPages_eq_some (found : searchPages mm num flags = some nstart) :
    0 < num ∧ 0 < nstart ∧ nstart + num ≤ 127 ∧
      ∀ i, nstart ≤ i → i < nstart + num → bitOn mm.memMap i = false := by
  obtain ⟨positive, below, free⟩ := searchPages_free found
  obtain ⟨notFirst, notLast⟩ := inv.bounds positive below free
  exact ⟨positive, notFirst, notLast, free⟩

/-- **`get_free_pages`** hands out pages that were free, as many as the length needs, or nothing. -/
theorem getFreePages_spec (positive : 0 < length.toInt) (flags : Word) :
    getFreePages mm length flags = (mm, 0#32) ∨ ∃ mm' p, getFreePages mm length flags = (mm', p) ∧
      p ≠ 0#32 ∧ p.toNat = paddrToPaged p * pageLen ∧
      PagesInv mm' kernel (⟨paddrToPaged p, (length.toNat + 1023) / 1024⟩ :: live) := by
  unfold getFreePages
  cases found : searchPages mm (paddrToNumPages length) flags with
  | none => exact .inl rfl
  | some nstart =>
    obtain ⟨some', notFirst, fits, free⟩ := inv.searchPages_eq_some found
    have rounded : paddrToNumPages length = (length.toNat + 1023) / 1024 := by
      by_cases small : length.toInt ≤ 2 ^ 31 - 1024
      · exact paddrToNumPages_eq positive small
      · rw [paddrToNumPages_overflow (by omega)] at some'
        cases some'
    have place := pageToPaddr_toNat (show nstart ≤ 127 by omega)
    have paged := paddrToPaged_pageToPaddr (show nstart ≤ 127 by omega)
    refine .inr ⟨_, _, rfl, pageToPaddr_ne_zero notFirst (by omega), ?_, ?_⟩
    · rw [place, paged, pageLen]
    · rw [paged, ← rounded]
      exact inv.taken fits free

theorem getFreePages_null (nothing : getFreePages mm length flags = (mm', 0#32)) : mm' = mm := by
  unfold getFreePages at nothing
  cases found : searchPages mm (paddrToNumPages length) flags with
  | none =>
    rw [found] at nothing
    exact (Prod.ext_iff.mp nothing).1.symm
  | some nstart =>
    rw [found] at nothing
    obtain ⟨-, notFirst, fits, -⟩ := inv.searchPages_eq_some found
    exact absurd (Prod.ext_iff.mp nothing).2 (pageToPaddr_ne_zero notFirst (by omega))

/-- The last page stops `is_pages_free_from`. -/
theorem isPagesFreeFrom_spec (inMemory : addr.toNat < pagesNr * pageLen)
    (allFree : isPagesFreeFrom mm addr size = true) :
    paddrToPaged addr + paddrToNumPages size ≤ 127 ∧ ∀ i, paddrToPaged addr ≤ i →
      i < paddrToPaged addr + paddrToNumPages size → bitOn mm.memMap i = false := by
  have free : ∀ i < paddrToNumPages size, isBitOn mm.memMap memMapLen (paddrToPaged addr + i) = false :=
    fun i small => by
      simpa using all_eq_true.mp allFree i (mem_range.mpr small)
  have page : paddrToPaged addr ≤ 127 := by
    unfold paddrToPaged pagesNr pageLen at *
    omega
  have fits : paddrToPaged addr + paddrToNumPages size ≤ 127 := by
    by_contra beyond
    have stop := free (127 - paddrToPaged addr) (by omega)
    rw [Nat.add_sub_cancel' page, isBitOn, if_neg (by decide), inv.last_taken] at stop
    cases stop
  refine ⟨fits, fun i low high => ?_⟩
  have clear := free (i - paddrToPaged addr) (by omega)
  rwa [Nat.add_sub_cancel' low, isBitOn, if_neg (by unfold memMapLen; omega)] at clear

/-- **`get_free_pages_from`** hands out the pages at an address if all of them are free. -/
theorem getFreePagesFrom_spec (positive : 0 < size.toInt) (small : size.toInt ≤ 2 ^ 31 - 1024)
    (inMemory : addr.toNat < pagesNr * pageLen) :
    getFreePagesFrom mm addr size = (mm, false) ∨ ∃ mm', getFreePagesFrom mm addr size = (mm', true) ∧
      PagesInv mm' kernel (⟨paddrToPaged addr, (size.toNat + 1023) / 1024⟩ :: live) := by
  unfold getFreePagesFrom
  split_ifs with allFree
  · obtain ⟨fits, free⟩ := inv.isPagesFreeFrom_spec inMemory allFree
    rw [nbitsFit_of_le fits]
    refine .inr ⟨_, rfl, ?_⟩
    rw [← paddrToNumPages_eq positive small]
    exact inv.taken fits free
  · exact .inl rfl

/-- **`release_pages`** gives a range of pages back. -/
theorem releasePages_spec (member : r ∈ live) :
    ∃ mm', releasePages mm (pageToPaddr r.first) r.len = (mm', true) ∧
      PagesInv mm' kernel (live.erase r) := by
  have fits := inv.inside r member
  have place := pageToPaddr_toNat (show r.first ≤ 127 by omega)
  have paged := paddrToPaged_pageToPaddr (show r.first ≤ 127 by omega)
  refine ⟨_, ?_, inv.givenBack member⟩
  rw [releasePages, if_neg, paged, nbitsFit_of_le fits]
  rw [place, pageLen, Nat.mul_mod_left]
  exact not_not.mpr rfl

end

/-- **`init_mem_table`** leaves the image and the last page taken. -/
theorem init {bssEnd : Word} (below : bssEnd.toNat < 127 * 1024) :
    PagesInv (initMemTable bssEnd) (bssEnd.toNat / 1024 + 1) [] := by
  have low : (bssEnd.toNat ||| 0x3ff) = bssEnd.toNat / 1024 * 1024 + 1023 := by
    refine Nat.eq_of_testBit_eq fun i => ?_
    rw [Nat.testBit_or, mul_comm, show 1024 = 2 ^ 10 from rfl, show 0x3ff = 2 ^ 10 - 1 from rfl,
      Nat.testBit_two_pow_mul_add _ (by decide), Nat.testBit_two_pow_sub_one]
    by_cases small : i < 10
    · rw [decide_eq_true small, if_pos small, Bool.or_true]
    · rw [decide_eq_false small, if_neg small, Bool.or_false, Nat.testBit_div_two_pow,
        Nat.sub_add_cancel (Nat.le_of_not_lt small)]
  have begins : ((bssEnd ||| 0x3ff#32) + 1#32).toNat = (bssEnd.toNat / 1024 + 1) * 1024 := by
    rw [BitVec.toNat_add, BitVec.toNat_or]
    simp only [BitVec.toNat_ofNat, Nat.reduceMod, Nat.reducePow]
    rw [low]
    omega
  have pages : (bssEnd.toNat / 1024 + 1) * 1024 / pageLen = bssEnd.toNat / 1024 + 1 :=
    Nat.mul_div_cancel _ (by decide)
  refine ⟨by omega, ⟨?_, fun i small => ?_⟩, fun r member => absurd member not_mem_nil⟩
  · refine pairwise_pair.mpr (Range.apart_of_le ?_)
    show 0 + (bssEnd.toNat / 1024 + 1) ≤ 127
    omega
  · have marked : (initMemTable bssEnd).memMap =
        markBit (markRun (fun _ => 0#32) 0 (bssEnd.toNat / 1024 + 1)) 127 := by
      simp only [initMemTable, begins, pages]
      rw [bitmapSetNbits, if_neg (by unfold memMapLen; omega)]
      rfl
    have blank : bitOn (fun _ => 0#32) i = false := BitVec.getLsbD_zero
    rw [marked, bitOn_markBit, bitOn_markRun, blank]
    simp only [exists_mem_cons_iff, not_mem_nil, false_and, exists_false, Range.Holds,
      kernelPages, reservedPage, Bool.or_eq_true, decide_eq_true_iff, Bool.false_eq_true,
      or_false]
    omega

end PagesInv

/-! ### Runs -/

/-- What happens in a run: pages are asked for, anywhere or at an address, and given back. -/
inductive PageEvent
  | get (length flags : Word)
  | getFrom (addr size : Word)
  | release (r : Range)

/-- The calls that are made: for a positive length with one of the two flags, at a page of the memory
for a size that can be rounded up, and for a range that has been handed out. -/
def PageEvent.Made (live : List Range) : PageEvent → Prop
  | get length flags => 0 < length.toInt ∧ (flags = gfpNorm ∨ flags = gfpHigh)
  | getFrom addr size => addr.toNat % pageLen = 0 ∧ addr.toNat < pagesNr * pageLen ∧ 0 < size.toInt ∧
      size.toInt ≤ 2 ^ 31 - 1024
  | release r => r ∈ live

instance (live : List Range) : DecidablePred (PageEvent.Made live)
  | .get .. | .getFrom .. => inferInstanceAs (Decidable (_ ∧ _))
  | .release r => inferInstanceAs (Decidable (r ∈ live))

/-- The allocator beside the ranges of pages it has handed out. -/
def pageStep (s : Mm × List Range) (event : PageEvent) : Option (Mm × List Range) :=
  if event.Made s.2 then
    match event with
    | .get length flags =>
      let (mm, p) := getFreePages s.1 length flags
      some (mm, if p = 0#32 then s.2 else ⟨paddrToPaged p, (length.toNat + 1023) / 1024⟩ :: s.2)
    | .getFrom addr size =>
      let (mm, done) := getFreePagesFrom s.1 addr size
      some (mm, if done then ⟨paddrToPaged addr, (size.toNat + 1023) / 1024⟩ :: s.2 else s.2)
    | .release r => some ((releasePages s.1 (pageToPaddr r.first) r.len).1, s.2.erase r)
  else none

/-- A step keeps the invariant, beside ranges that others have been given. -/
theorem pageStep_inv {s s' : Mm × List Range} {event : PageEvent} {kernel : Nat} {beside : List Range}
    (inv : PagesInv s.1 kernel (s.2 ++ beside)) (stepped : pageStep s event = some s') :
    PagesInv s'.1 kernel (s'.2 ++ beside) := by
  unfold pageStep at stepped
  split_ifs at stepped with made
  cases event with
  | get length flags =>
    rcases inv.getFreePages_spec made.1 flags with nothing | ⟨mm', p, got, some', -, inv'⟩
    · simp only [nothing] at stepped
      cases stepped
      exact inv
    · simp only [got, if_neg some'] at stepped
      cases stepped
      exact inv'
  | getFrom addr size =>
    obtain ⟨-, inMemory, positive, small⟩ := made
    rcases inv.getFreePagesFrom_spec positive small inMemory with refused | ⟨mm', got, inv'⟩
    · simp only [refused] at stepped
      cases stepped
      exact inv
    · simp only [got] at stepped
      cases stepped
      exact inv'
  | release r =>
    obtain ⟨mm', released, inv'⟩ := inv.releasePages_spec (mem_append_left _ made)
    simp only [released] at stepped
    cases stepped
    rwa [erase_append_left _ made] at inv'

/-- **No page is handed out twice**: in every run from `init_mem_table` with an image that ends below
the last page, the ranges that are handed out share no page with each other, with the image or with the
last page, and the bits that are set are those of these ranges. -/
theorem pages_tiled {bssEnd : Word} {events : List PageEvent} {mm : Mm} {live : List Range}
    (below : bssEnd.toNat < 127 * 1024)
    (ran : runFrom pageStep (initMemTable bssEnd, []) events = some (mm, live)) :
    (kernelPages (bssEnd.toNat / 1024 + 1) :: reservedPage :: live).Pairwise Range.Apart ∧
    ∀ bit < pagesNr, bitOn mm.memMap bit = true ↔
      ∃ r ∈ kernelPages (bssEnd.toNat / 1024 + 1) :: reservedPage :: live, r.Holds bit := by
  have inv := runFrom_invariant
    (fun s : Mm × List Range => PagesInv s.1 (bssEnd.toNat / 1024 + 1) (s.2 ++ []))
    (fun _ _ _ inv _ stepped => pageStep_inv inv stepped) events (PagesInv.init below)
    (Meets.of_forall (fun _ _ => trivial) events _) ran
  rw [append_nil] at inv
  exact ⟨inv.tiled.apart, inv.tiled.exact⟩

/-- An image of two pages, three pages at the top, one page after the image, one more page at the top,
which is given back and asked for again by its address. -/
def tiledRun : List PageEvent :=
  [.get 3000#32 gfpHigh, .get 1#32 gfpNorm, .get 1024#32 gfpHigh, .release ⟨123, 1⟩,
    .getFrom 0x1ec00#32 512#32]

theorem tiledRun_apart : ∃ s, runFrom pageStep (initMemTable 2000#32, []) tiledRun = some s ∧
    s.2 = [⟨123, 1⟩, ⟨2, 1⟩, ⟨124, 3⟩] ∧
    (kernelPages 2 :: reservedPage :: s.2).Pairwise Range.Apart := by
  have ran : (runFrom pageStep (initMemTable 2000#32, []) tiledRun).map Prod.snd =
      some [⟨123, 1⟩, ⟨2, 1⟩, ⟨124, 3⟩] := by decide +kernel
  obtain ⟨s, run, live⟩ := Option.map_eq_some_iff.mp ran
  exact ⟨s, run, live, (pages_tiled (show (2000#32).toNat < 127 * 1024 by decide) run).1⟩

/-- **The page map forgets**: two runs that leave the same ranges in use, in whatever order, leave
the same pages free. -/
theorem page_map_forgets {bssEnd : Word} {events events' : List PageEvent} {mm mm' : Mm}
    {live live' : List Range} (below : bssEnd.toNat < 127 * 1024)
    (ran : runFrom pageStep (initMemTable bssEnd, []) events = some (mm, live))
    (ran' : runFrom pageStep (initMemTable bssEnd, []) events' = some (mm', live'))
    (same : live.Perm live') : ∀ bit < pagesNr, bitOn mm'.memMap bit = bitOn mm.memMap bit := by
  have inv : ∀ {events s}, runFrom pageStep (initMemTable bssEnd, []) events = some s →
      PagesInv s.1 (bssEnd.toNat / 1024 + 1) (s.2 ++ []) := fun ran =>
    runFrom_invariant _ (fun _ _ _ inv _ stepped => pageStep_inv inv stepped) _ (PagesInv.init below)
      (Meets.of_forall (fun _ _ => trivial) _ _) ran
  exact ((inv ran).perm (same.append_right [])).bits_eq (inv ran')

theorem givenBack_forgotten : ∃ s, runFrom pageStep (initMemTable 2000#32, [])
    [.get 3000#32 gfpHigh, .release ⟨124, 3⟩] = some s ∧
      ∀ bit < pagesNr, bitOn s.1.memMap bit = bitOn (initMemTable 2000#32).memMap bit := by
  obtain ⟨⟨mm, live⟩, ran, rfl⟩ := exists_of_any (by decide +kernel :
    (runFrom pageStep (initMemTable 2000#32, [])
      [.get 3000#32 gfpHigh, .release ⟨124, 3⟩]).any
        (fun s => decide (s.2 = [])) = true)
  exact ⟨_, ran, page_map_forgets (by decide) (runFrom_nil _) ran .rfl⟩

end Winix.Kernel
