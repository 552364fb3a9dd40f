/-
**Fork and the memory.**

`kernel/system/do_fork.c` with everything that a fork shares out: the process table (`sysFork`), the
open files (`copy_pcb` counts them up), the pages and the process images (`copy_mm` and `copy_pregs`).

* **`fork_atomic_iff`**: a fork that fails for want of pages is never undone. The slot of the child
  stays in use, since `release_proc_slot` only releases zombies, and the open files stay counted;
* **`forked_not_reproduced`**: no child has the parent's address space.
-/

import Winix.Fs.Counts
import Winix.Kernel.Brk
import Winix.Kernel.Sigframe
import Winix.Kernel.Spawn

namespace Winix.Kernel

open Lib Fs Function BitVec Option

/-! ### The code -/

/-- Everything that a fork changes. -/
structure Whole where
  kernel : Machine
  files : Files
  mm : Mm
  image : ProcNr → Image

/-- `copy_page`. -/
def copyPage (memory : Memory) (dest src : Word) : Memory :=
  writeWords memory dest pageLen fun i => memory (src + BitVec.ofNat 32 i)

/-- The loop of `copy_mm`, with at most this many pages to go. -/
def copyPages (heapBottom : Word) : Nat → Word → Word → Memory → Memory
  | 0, _, _, memory => memory
  | left + 1, dest, src, memory =>
    if src < heapBottom then
      copyPages heapBottom left (dest + BitVec.ofNat 32 pageLen) (src + BitVec.ofNat 32 pageLen)
        (copyPage memory dest src)
    else memory

/-- `dup_vm`, after the table of the child has been cleared. -/
def dupVm (mm : Mm) (parent : Image) : Mm × (Nat → Word) × Word :=
  userGetFreePages mm (fun _ => 0#32) (parent.heapBottom + 1#32 - parent.memStart) gfpNorm

/-- The image of a child in `copy_mm` and `copy_pregs`: `heap_top` is as `copy_pcb` has left it. -/
def forkedImage (parent : Image) (ptable : Nat → Word) (memStart : Word) : Image :=
  let child := { parent with
    ptable := ptable, memStart := memStart, rbase := memStart - parent.rbaseOffset, stackTop :=
      memStart }
  { child with
    heapBreak := child.physical (parent.virtual parent.heapBreak)
    heapBottom := child.physical (parent.virtual parent.heapBottom) }

/-- `copy_pcb`, as far as files go. -/
def shareFiles (parent child : ProcNr) : FilesM PUnit := do
  let w ← get
  updateFsProc child fun _ => { w.procs parent with inUse := true }
  shareAll child fdSlots

/-- What `copy_mm` makes for a child at an address; there are never pages for more than 127 pages to
copy. -/
def childMade (parent : Image) (memStart : Word) : ChildImage :=
  ⟨memStart - parent.rbaseOffset, memStart,
    copyPages parent.heapBottom pagesNr memStart parent.memStart⟩

/-- The rest of `sys_fork`, after `copy_pcb` has shared the files. -/
def forkImage (w : Whole) (parent child : ProcNr) (files : Files) : Whole × Int :=
  let image := w.image parent
  let pages := dupVm w.mm image
  if pages.2.2 = 0#32 then
    let forked := sysFork w.kernel parent none
    (⟨forked.1, files, pages.1,
      update w.image child { image with ptable := pages.2.1, memStart := 0#32 }⟩, forked.2)
  else
    let forked := sysFork w.kernel parent (some (childMade image pages.2.2))
    (⟨forked.1, files, pages.1,
      update w.image child (forkedImage image pages.2.1 pages.2.2)⟩, forked.2)

/-- `sys_fork`. -/
def sysForkWhole (w : Whole) (parent : ProcNr) : Option (Whole × Int) :=
  match freeSlot w.kernel with
  | none => some (w, eagain)
  | some child => (shareFiles parent child w.files).map fun shared => forkImage w parent child shared.2

/-! ### Runs -/

theorem shareAll_comes_back (child : ProcNr) (fds : List Fd) (files : Files) :
    ∃ files', shareAll child fds files = some (⟨⟩, files') := by
  induction fds generalizing files with
  | nil => exact ⟨files, rfl⟩
  | cons fd rest ih =>
    have read : readFsProc child files = some (files.procs child, files) := rfl
    rw [shareAll, Prog.bind_run read]
    cases held : (files.procs child).fpFilp fd with
    | none => exact ih files
    | some file => exact ih _

theorem shareFiles_comes_back (parent child : ProcNr) (files : Files) :
    ∃ files', shareFiles parent child files = some (⟨⟩, files') :=
  shareAll_comes_back child fdSlots _

section Cases

variable {w : Whole} (parent : ProcNr) {child : ProcNr}

theorem sysForkWhole_full (full : freeSlot w.kernel = none) :
    sysForkWhole w parent = some (w, eagain) := by
  rw [sysForkWhole, full]

section

variable (slot : freeSlot w.kernel = some child)
include slot

theorem sysForkWhole_slot : ∃ files, sysForkWhole w parent = some (forkImage w parent child files) := by
  obtain ⟨files, shared⟩ := shareFiles_comes_back parent child w.files
  refine ⟨files, ?_⟩
  rw [sysForkWhole, slot]
  show (shareFiles parent child w.files).map _ = _
  rw [shared, map_some]

theorem getFreeProcSlot_of_freeSlot : ∃ fresh, getFreeProcSlot w.kernel = some (child, fresh) := by
  obtain ⟨⟨i, fresh⟩, found, rfl⟩ := map_eq_some_iff.mp slot
  exact ⟨fresh, found⟩

theorem sysFork_made (image : ChildImage) :
    (sysFork w.kernel parent (some image)).2 = child ∧ 0 < child := by
  obtain ⟨fresh, found⟩ := getFreeProcSlot_of_freeSlot slot
  have positive : ∀ p ∈ userSlots, 0 < p := by decide
  refine ⟨?_, positive child (freeSlot_eq_some slot).1⟩
  rw [sysFork, found]

theorem sysFork_denied (used : (w.kernel.procTable parent).inUse = true)
    (alive : has (w.kernel.procTable parent).state .zombie = false) :
    (sysFork w.kernel parent none).2 = enomem ∧
      ((sysFork w.kernel parent none).1.procTable child).inUse = true := by
  obtain ⟨fresh, found⟩ := getFreeProcSlot_of_freeSlot slot
  have free := (freeSlot_eq_some slot).2
  have other : parent ≠ child := by
    rintro rfl
    rw [used] at free
    cases free
  have kept := (getFreeProcSlot_eq_some found).2.2.2 parent other
  have copied : (copyPcb fresh parent child).procTable child = _ := update_self _ _ _
  rw [kept] at copied
  have notReleased : releaseZombie (copyPcb fresh parent child) child = copyPcb fresh parent child := by
    rw [releaseZombie, if_neg]
    rw [copied, alive]
    exact Bool.false_ne_true
  rw [sysFork, found]
  refine ⟨rfl, ?_⟩
  show ((releaseZombie (copyPcb fresh parent child) child).procTable child).inUse = true
  rw [notReleased, copied]
  exact used

end

end Cases

/-! ### Failing -/

/-- The process slots in use, the counts of the open files and of the inodes, and the memory map. -/
structure Undone (before after : Whole) : Prop where
  slots : ∀ p, (after.kernel.procTable p).inUse = (before.kernel.procTable p).inUse
  filps : ∀ f, (after.files.fdTable f).filpCount = (before.files.fdTable f).filpCount
  inodes : ∀ i, (after.files.vol.inodeTable i).iCount = (before.files.vol.inodeTable i).iCount
  memMap : after.mm.memMap = before.mm.memMap

/-- A fork that fails leaves everything as it was. -/
def ForkAtomic (w : Whole) (parent : ProcNr) : Prop :=
  ∀ w' ret, sysForkWhole w parent = some (w', ret) → ret = enomem ∨ ret = eagain → Undone w w'

/-- **A fork is atomic** if and only if no slot is free, where nothing is done, or there are pages
for the child, where it does not fail. -/
theorem fork_atomic_iff (w : Whole) (parent : ProcNr) (used : (w.kernel.procTable parent).inUse = true)
    (alive : has (w.kernel.procTable parent).state .zombie = false) :
    ForkAtomic w parent ↔ freeSlot w.kernel = none ∨ (getFreePages w.mm
      ((w.image parent).heapBottom + 1#32 - (w.image parent).memStart) gfpNorm).2 ≠ 0#32 := by
  cases slot : freeSlot w.kernel with
  | none =>
    refine iff_of_true (fun w' ret ran _ => ?_) (.inl rfl)
    rw [sysForkWhole_full parent slot] at ran
    cases ran
    exact ⟨fun _ => rfl, fun _ => rfl, fun _ => rfl, rfl⟩
  | some child =>
    obtain ⟨files, run⟩ := sysForkWhole_slot parent slot
    by_cases denied : (getFreePages w.mm
      ((w.image parent).heapBottom + 1#32 - (w.image parent).memStart) gfpNorm).2 = 0#32
    · refine iff_of_false (fun atomic => ?_) (by simp [denied])
      obtain ⟨ret, stays⟩ := sysFork_denied parent slot used alive
      have null : (dupVm w.mm (w.image parent)).2.2 = 0#32 := by
        rw [dupVm, userGetFreePages_null _ denied]
      rw [forkImage, if_pos null] at run
      have same := (atomic _ _ run (.inl ret)).slots child
      rw [(freeSlot_eq_some slot).2] at same
      exact absurd (stays.symm.trans same) (by decide)
    · refine iff_of_true (fun w' ret ran failed => ?_) (.inr denied)
      obtain ⟨nstart, found, got⟩ := userGetFreePages_got (fun _ => 0#32) denied
      have nonnull : (dupVm w.mm (w.image parent)).2.2 ≠ 0#32 := by
        rw [dupVm, got]
        rw [getFreePages, found] at denied
        exact denied
      obtain ⟨number, positive⟩ := sysFork_made parent slot
        (childMade (w.image parent) (dupVm w.mm (w.image parent)).2.2)
      rw [run, forkImage, if_neg nonnull] at ran
      cases ran
      rw [number] at failed
      rcases failed with failed | failed
      · rw [failed] at positive
        exact absurd positive (by decide)
      · rw [failed] at positive
        exact absurd positive (by decide)

/-- Process 1 runs in three pages. -/
def forkState (mm : Mm) : Whole :=
  ⟨bootMachine [0, 1] (fun _ => 20480#32) (fun _ => 1000#32) (fun _ => 0#32),
    bootFiles (imageVolume plainLayout), mm, fun _ => threePages 20480#32⟩

/-- … and all other slots are in use. -/
def fullTable : Whole :=
  { forkState threePagesMap with
    kernel := bootMachine (0 :: userSlots) (fun _ => 20480#32) (fun _ => 1000#32) fun _ => 0#32 }

/-- No slot is free: the call fails, and nothing has been done. -/
theorem forkState_atomic :
    (sysForkWhole fullTable 1).map Prod.snd = some eagain ∧ ForkAtomic fullTable 1 :=
  ⟨by decide +kernel,
    (fork_atomic_iff fullTable 1 (by decide) (by decide)).mpr (.inl (by decide +kernel))⟩

/-- No page is free: slot 2 stays in use. -/
theorem fork_keeps_slot : ∃ w', sysForkWhole (forkState ⟨fun _ => -1#32, 20⟩) 1 = some (w', enomem) ∧
    ((forkState ⟨fun _ => -1#32, 20⟩).kernel.procTable 2).inUse = false ∧
    (w'.kernel.procTable 2).inUse = true ∧ ¬ ForkAtomic (forkState ⟨fun _ => -1#32, 20⟩) 1 := by
  obtain ⟨⟨w', ret⟩, ran, failed, stays⟩ := exists_of_any (show
    (sysForkWhole (forkState ⟨fun _ => -1#32, 20⟩) 1).any
      (fun r => r.2 = enomem ∧ (r.1.kernel.procTable 2).inUse = true) = true by decide +kernel)
  obtain rfl : ret = enomem := failed
  have free : ((forkState ⟨fun _ => -1#32, 20⟩).kernel.procTable 2).inUse = false := by decide
  refine ⟨w', ran, free, stays, fun atomic => ?_⟩
  have same := (atomic w' enomem ran (.inl rfl)).slots 2
  rw [stays, free] at same
  cases same

/-! ### The address space of the child -/

/-- The image starts at `mem_start`: `alloc_mem_welf` and `copy_mm` leave it so. -/
def Image.Based (who : Image) : Prop := who.rbase = who.memStart - who.rbaseOffset

instance (who : Image) : Decidable who.Based := inferInstanceAs (Decidable (_ = _))

/-- A child has been made at an address where there were free pages. -/
structure Forked (w w' : Whole) (parent child : ProcNr) (nstart : Nat) : Prop where
  slot : freeSlot w.kernel = some child
  found : searchPages w.mm
    (paddrToNumPages ((w.image parent).heapBottom + 1#32 - (w.image parent).memStart))
    gfpNorm = some nstart
  kernel : w'.kernel =
    (sysFork w.kernel parent (some (childMade (w.image parent) (pageToPaddr nstart)))).1
  image : w'.image = update w.image child
    (forkedImage (w.image parent) (markRun (fun _ => 0#32) nstart
      (paddrToNumPages ((w.image parent).heapBottom + 1#32 - (w.image parent).memStart)))
      (pageToPaddr nstart))

/-- **A fork that succeeds** makes a child. -/
theorem sysForkWhole_forked {w w' : Whole} {parent : ProcNr} {ret : Int}
    (ran : sysForkWhole w parent = some (w', ret)) (success : 0 ≤ ret) :
    ∃ nstart, Forked w w' parent ret nstart := by
  cases slot : freeSlot w.kernel with
  | none =>
    rw [sysForkWhole_full parent slot] at ran
    cases ran
    exact absurd success (by decide)
  | some child =>
    obtain ⟨files, run⟩ := sysForkWhole_slot parent slot
    rw [run, forkImage] at ran
    by_cases denied : (getFreePages w.mm
      ((w.image parent).heapBottom + 1#32 - (w.image parent).memStart) gfpNorm).2 = 0#32
    · have null : (dupVm w.mm (w.image parent)).2.2 = 0#32 := by
        rw [dupVm, userGetFreePages_null _ denied]
      obtain ⟨fresh, slotted⟩ := getFreeProcSlot_of_freeSlot slot
      have failed : (sysFork w.kernel parent none).2 = enomem := by
        rw [sysFork, slotted]
      rw [if_pos null] at ran
      cases ran
      rw [failed] at success
      exact absurd success (by decide)
    · obtain ⟨nstart, found, got⟩ := userGetFreePages_got (fun _ => 0#32) denied
      have made : dupVm w.mm (w.image parent) = _ := got
      have nonnull : pageToPaddr nstart ≠ 0#32 := by
        rw [getFreePages, found] at denied
        exact denied
      rw [made, if_neg nonnull] at ran
      dsimp only at ran
      cases ran
      obtain ⟨number, -⟩ := sysFork_made parent slot (childMade (w.image parent) (pageToPaddr nstart))
      rw [number]
      exact ⟨nstart, slot, found, rfl, rfl⟩

/-- The child's image and what `struct proc` says of it, relative to its base, are the parent's. -/
structure Reproduced (before after : Whole) (parent child : ProcNr) : Prop where
  words : ∀ va, (after.image child).memStart ≤ (after.image child).physical va →
    (after.image child).physical va ≤ (after.image child).heapBottom →
    after.kernel.memory ((after.image child).physical va) =
      after.kernel.memory ((before.image parent).physical va)
  stackTop : (after.image child).virtual (after.image child).stackTop =
    (before.image parent).virtual (before.image parent).stackTop
  heapTop : (after.image child).virtual (after.image child).heapTop =
    (before.image parent).virtual (before.image parent).heapTop
  heapBreak : (after.image child).virtual (after.image child).heapBreak =
    (before.image parent).virtual (before.image parent).heapBreak
  heapBottom : (after.image child).virtual (after.image child).heapBottom =
    (before.image parent).virtual (before.image parent).heapBottom
  message : (after.kernel.procTable child).message - (after.kernel.procTable child).ctx.rbase =
    (before.kernel.procTable parent).message - (before.kernel.procTable parent).ctx.rbase

namespace Forked

variable {w w' : Whole} {parent child : ProcNr} {nstart : Nat}

theorem forkedImage_eq (forked : Forked w w' parent child nstart) : w'.image child =
    forkedImage (w.image parent) (markRun (fun _ => 0#32) nstart
      (paddrToNumPages ((w.image parent).heapBottom + 1#32 - (w.image parent).memStart)))
      (pageToPaddr nstart) := by
  rw [forked.image, update_self]

/-- `heap_top` relative to the base is the parent's only at the parent's place. -/
theorem heapTop_iff (forked : Forked w w' parent child nstart) (based : (w.image parent).Based) :
    (w'.image child).virtual (w'.image child).heapTop =
        (w.image parent).virtual (w.image parent).heapTop ↔
      pageToPaddr nstart = (w.image parent).memStart := by
  rw [forked.forkedImage_eq]
  unfold Image.Based at based
  unfold forkedImage Image.virtual
  rw [based]
  dsimp only
  rw [sub_right_inj, sub_left_inj]

end Forked

/-- **No child has its parent's address space**: `heap_top` is not rebased, and the pages of the
child are not the parent's. -/
theorem forked_not_reproduced {w w' : Whole} {parent : ProcNr} {ret : Int}
    (based : (w.image parent).Based)
    (held : bitOn w.mm.memMap (paddrToPaged (w.image parent).memStart) = true)
    (ran : sysForkWhole w parent = some (w', ret)) (success : 0 ≤ ret) :
    ¬ Reproduced w w' parent ret := by
  intro reproduced
  obtain ⟨nstart, forked⟩ := sysForkWhole_forked ran success
  obtain ⟨positive, below, free⟩ := searchPages_free forked.found
  have place := (forked.heapTop_iff based).mp reproduced.heapTop
  have page := paddrToPaged_pageToPaddr (show nstart ≤ 127 by unfold pagesNr at below; omega)
  rw [← place, page, free nstart le_rfl (by omega)] at held
  cases held

/-- The child of process 1 is placed behind the page that is taken. -/
theorem forkState_not_reproduced :
    ∃ w', sysForkWhole (forkState threePagesMap) 1 = some (w', 2) ∧
      ¬ Reproduced (forkState threePagesMap) w' 1 2 := by
  obtain ⟨⟨w', ret⟩, ran, number⟩ := exists_of_any (show
    (sysForkWhole (forkState threePagesMap) 1).any (fun r => r.2 = 2) = true by decide +kernel)
  obtain rfl : ret = 2 := number
  exact ⟨w', ran, forked_not_reproduced (by decide) (by decide) ran (by decide)⟩

/-- Its `heap_top` is at another virtual address than the parent's. -/
theorem fork_heapTop_stays :
    ∃ w', sysForkWhole (forkState threePagesMap) 1 = some (w', 2) ∧
      (w'.image 2).virtual (w'.image 2).heapTop = 0xfffff800#32 ∧
      (w'.image 1).virtual (w'.image 1).heapTop = 2048#32 ∧
      ¬ Reproduced (forkState threePagesMap) w' 1 2 := by
  obtain ⟨⟨w', ret⟩, ran, number, childTop, parentTop⟩ := exists_of_any (show
    (sysForkWhole (forkState threePagesMap) 1).any (fun r => r.2 = 2 ∧
      (r.1.image 2).virtual (r.1.image 2).heapTop = 0xfffff800#32 ∧
      (r.1.image 1).virtual (r.1.image 1).heapTop = 2048#32) = true by decide +kernel)
  obtain rfl : ret = 2 := number
  refine ⟨w', ran, childTop, parentTop, fun reproduced => ?_⟩
  have same := reproduced.heapTop
  rw [childTop] at same
  exact absurd same (by decide)

end Winix.Kernel
