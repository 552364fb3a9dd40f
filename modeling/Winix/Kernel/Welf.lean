/-
**Loading an executable.**

`alloc_mem_welf` of `kernel/proc.c` and the read of the image that follows in `exec_welf`. All
lengths come from the header of the file: they are added as unsigned numbers, rounded as signed ones
and used as the lengths of `memset` and `read`. A program over the memory of the new process logs
what it writes.

* `Contained`: the segments of the process lie one behind the other in its pages, and so does everything
  that is written;
* `readBlocks_bounded`: a file that is read past the cache fills words of the buffer only;
* **`welf_contained_iff`**: whatever the header says, a process that is loaded is contained if and
  only if the lengths of the program and of its bss do not add up to `2 ^ 31` or more.
-/

import Winix.Fs.Roundtrip
import Winix.Kernel.Image

namespace Winix.Kernel

open Lib Fs BitVec

/-! ### The code -/

/-- `struct winix_elf`. -/
structure WinixElf where
  magic : Word
  binaryPc : Word
  binaryOffset : Word
  binarySize : Word
  textSize : Word
  dataSize : Word
  bssSize : Word

/-- `sizeof(struct winix_elf)`. -/
def elfLen : Word := 7#32

/-- `WINIX_ELF_MAGIC`. -/
def winixElfMagic : Word := 0x19960503#32
/-- `STACK_MAGIC`. -/
def stackMagic : Word := 0x12345678#32
/-- `USER_STACK_SIZE`. -/
def userStackSize : Word := 1024#32
/-- `USER_HEAP_SIZE`. -/
def userHeapSize : Word := 1024#32

/-- What is made of a process: its memory, its image and its stack pointer. -/
structure Loader where
  memory : Memory
  mm : Mm
  image : Image
  sp : Word

/-- A program that writes down its transfers. -/
abbrev LoadM := Logged Transfer Loader

namespace LoadM

/-- The state. -/
def look : LoadM Loader := Logged.lift get

/-- Change the state. -/
def change (f : Loader → Loader) : LoadM PUnit := Logged.lift (modify f)

/-- Write words in a row. -/
def fill (who : ProcNr) (start : Word) (len : Nat) (words : Nat → Word) : LoadM PUnit := do
  Logged.write [⟨who, start, len⟩]
  change fun s => { s with memory := writeWords s.memory start len words }

/-- `memset(start, 0, len)`. -/
def clear (who : ProcNr) (start len : Word) : LoadM PUnit := fill who start len.toNat fun _ => 0#32

variable {α : Type} {s : Loader}

theorem look_bind {f : Loader → LoadM α} : (look >>= f) s = f s s := rfl

theorem change_bind {g : Loader → Loader} {f : PUnit → LoadM α} : (change g >>= f) s = f ⟨⟩ (g s) := rfl

end LoadM

open LoadM

/-- `td_aligned`: the program and its bss, in whole pages. -/
def WinixElf.tdAligned (elf : WinixElf) : Word := alignPage (elf.binarySize + elf.bssSize)

/-- `proc_len`: the length of the whole process. -/
def WinixElf.procLen (elf : WinixElf) (stackSize heapSize : Word) : Word :=
  stackSize + elf.tdAligned + heapSize

/-- The checks of the header. -/
def WinixElf.accepted (elf : WinixElf) (stackSize : Word) : Bool :=
  elf.magic = winixElfMagic ∧ stackSize ≤ elf.binaryOffset ∧
    elf.binarySize = elf.textSize + elf.dataSize

/-- The image of a process that is loaded at an address. -/
def WinixElf.image (elf : WinixElf) (stackSize heapSize memStart : Word) (ptable : Nat → Word) :
    Image where
  rbase := memStart + stackSize - elf.binaryOffset
  memStart := memStart
  stackTop := memStart
  heapTop := memStart + stackSize + elf.tdAligned
  heapBreak := memStart + stackSize + elf.tdAligned
  heapBottom := memStart + stackSize + elf.tdAligned + heapSize - 1#32
  rbaseOffset := elf.binaryOffset - stackSize
  ptable := ptable

/-- `alloc_mem_welf`, when there are pages for the process. -/
def layOut (who : ProcNr) (elf : WinixElf) (stackSize heapSize memStart : Word) (ptable : Nat → Word) :
    LoadM Int := do
  let image := elf.image stackSize heapSize memStart ptable
  change fun s => { s with image := image, sp := image.virtual (memStart + stackSize - 1#32) }
  fill who memStart 1 fun _ => stackMagic
  clear who (memStart + stackSize + elf.binarySize) elf.bssSize
  clear who memStart stackSize
  clear who image.heapTop heapSize
  return ok

/-- `alloc_mem_welf`. -/
def allocMemWelf (who : ProcNr) (elf : WinixElf) (stackSize heapSize : Word) : LoadM Int := do
  if elf.accepted stackSize then do
    let s ← look
    let pages := userGetFreePages s.mm s.image.ptable (elf.procLen stackSize heapSize) gfpNorm
    change fun s => { s with mm := pages.1, image := { s.image with ptable := pages.2.1 } }
    if pages.2.2 = 0#32 then return enomem
    else layOut who elf stackSize heapSize pages.2.2 pages.2.1
  else return einval

/-! ### What a load leaves -/

section Load

variable {who : ProcNr} {elf : WinixElf} {s s' : Loader}

/-- **What a load leaves**, and what it has written. -/
structure WelfLoaded (who : ProcNr) (elf : WinixElf) (s s' : Loader) (log : List Transfer)
    (nstart : Nat) :
    Prop where
  accepted : elf.accepted userStackSize = true
  found : searchPages s.mm (paddrToNumPages (elf.procLen userStackSize userHeapSize)) gfpNorm =
    some nstart
  image : s'.image = elf.image userStackSize userHeapSize (pageToPaddr nstart)
    (markRun s.image.ptable nstart (paddrToNumPages (elf.procLen userStackSize userHeapSize)))
  sp : s'.sp = s'.image.virtual (pageToPaddr nstart + userStackSize - 1#32)
  log : log = [⟨who, pageToPaddr nstart, 1⟩,
    ⟨who, pageToPaddr nstart + userStackSize + elf.binarySize, elf.bssSize.toNat⟩,
    ⟨who, pageToPaddr nstart, 1024⟩, ⟨who, s'.image.heapTop, 1024⟩]

theorem allocMemWelf_eq {stackSize heapSize : Word} (acc : elf.accepted stackSize = true) :
    allocMemWelf who elf stackSize heapSize s =
      (if (userGetFreePages s.mm s.image.ptable (elf.procLen stackSize heapSize) gfpNorm).2.2 =
        0#32 then
        (return enomem : LoadM Int)
      else layOut who elf stackSize heapSize
        (userGetFreePages s.mm s.image.ptable (elf.procLen stackSize heapSize) gfpNorm).2.2
        (userGetFreePages s.mm s.image.ptable (elf.procLen stackSize heapSize) gfpNorm).2.1)
      { s with
        mm := (userGetFreePages s.mm s.image.ptable (elf.procLen stackSize heapSize) gfpNorm).1
        image := { s.image with
          ptable :=
            (userGetFreePages s.mm s.image.ptable (elf.procLen stackSize heapSize) gfpNorm).2.1 }
              } := by
  rw [allocMemWelf, if_pos acc, look_bind, change_bind]

/-- What is written does not depend on the memory that it is written to. -/
theorem layOut_run (who : ProcNr) (elf : WinixElf) (s : Loader) (stackSize heapSize memStart : Word)
    (ptable : Nat → Word) :
    ∃ memory, layOut who elf stackSize heapSize memStart ptable s =
      ([⟨who, memStart, 1⟩, ⟨who, memStart + stackSize + elf.binarySize, elf.bssSize.toNat⟩,
        ⟨who, memStart, stackSize.toNat⟩, ⟨who, memStart + stackSize + elf.tdAligned, heapSize.toNat⟩],
        some (ok, {
          memory := memory, mm := s.mm, image := elf.image stackSize heapSize memStart ptable
          sp := (elf.image stackSize heapSize memStart ptable).virtual (memStart + stackSize - 1#32)
            })) :=
  ⟨_, rfl⟩

theorem allocMemWelf_loaded {log : List Transfer}
    (ran : allocMemWelf who elf userStackSize userHeapSize s = (log, some (ok, s'))) :
    ∃ nstart, WelfLoaded who elf s s' log nstart := by
  by_cases acc : elf.accepted userStackSize = true
  · rw [allocMemWelf_eq acc] at ran
    by_cases denied : (getFreePages s.mm (elf.procLen userStackSize userHeapSize) gfpNorm).2 = 0#32
    · rw [userGetFreePages_null s.image.ptable denied, if_pos rfl] at ran
      exact absurd (Prod.mk.inj (Option.some.inj (Prod.mk.inj ran).2)).1 (by decide)
    · obtain ⟨nstart, found, got⟩ := userGetFreePages_got s.image.ptable denied
      have nonnull : pageToPaddr nstart ≠ 0#32 := by
        rw [getFreePages, found] at denied
        exact denied
      rw [got, if_neg nonnull] at ran
      dsimp only at ran
      obtain ⟨memory, laid⟩ := layOut_run who elf _ userStackSize userHeapSize (pageToPaddr nstart)
        (markRun s.image.ptable nstart (paddrToNumPages (elf.procLen userStackSize userHeapSize)))
      rw [laid] at ran
      cases ran
      exact ⟨nstart, acc, found, rfl, rfl, rfl⟩
  · rw [allocMemWelf, if_neg acc] at ran
    exact absurd (Prod.mk.inj (Option.some.inj (Prod.mk.inj ran).2)).1 (by decide)

end Load

/-! ### The read of the image -/

/-- Words of a buffer. -/
def Into (data : Word) (count : Nat) (t : Transfer) : Prop :=
  ∃ skipped, t.start = data + BitVec.ofNat 32 skipped ∧ skipped + t.len ≤ count

/-- A file that `sys_open` has opened past the cache and that is not a pipe. -/
structure OpenedImage (w : World) (who : ProcNr) (fd : Int) (f : FilpNr) : Prop where
  opened : ∃ slot, fdOpened (w.files.procs who) fd = some (slot, f)
  direct : anyBit (w.files.fdTable f).filpFlags oDirect = true
  blocking : anyBit (w.files.fdTable f).filpFlags oNonblock = false
  device : (w.files.fdTable f).filpDev ≠ some .pipe

/-- The position is not behind the size. -/
def WithinSize (w : World) (f : FilpNr) : Prop :=
  ∀ ino, (w.files.fdTable f).filpIno = some ino →
    (w.files.fdTable f).filpPos.toNat ≤ (w.files.vol.inodeTable ino).iSize.toNat

section Reads

variable {w w' : World} {who : ProcNr} {f : FilpNr} {ino : InodeNr} {fd : Int} {data count : Word}

theorem Into.whole (who : ProcNr) (data : Word) (n : Nat) : Into data n ⟨who, data, n⟩ :=
  ⟨0, (add_zero data).symm, (Nat.zero_add n).le⟩

theorem Into.later {t : Transfer} {r : Word} {n : Nat} (into : Into (data + r) n t)
    (le : r.toNat + n ≤ count.toNat) : Into data count.toNat t := by
  obtain ⟨skipped, start, fits⟩ := into
  refine ⟨r.toNat + skipped, ?_, by omega⟩
  rw [start, ofNat_add, ofNat_toNat, setWidth_eq, add_assoc]

theorem signedLoop_le (n : Nat) : signedLoop n ≤ n := by
  unfold signedLoop
  split <;> omega

theorem blkDevIoRead_le (c : Cache) (buf : Nat → Word) (off len : Nat) :
    (blkDevIoRead c buf off len).1 ≤ len := by
  unfold blkDevIoRead onDisk
  split
  · exact Nat.zero_le _
  · have wrapped := Nat.mod_le (off + len) wordSize
    dsimp only
    split <;> omega

/-- One block past the cache: no more than asked for. -/
theorem readFrom_le {filp : Filp} (who : ProcNr) (data bnr off len : Word)
    (direct : anyBit filp.filpFlags oDirect = true) :
    ∃ r memory n, n ≤ len.toNat ∧ r.toNat ≤ len.toNat ∧
      readFrom who filp data bnr off len w =
        ([⟨who, data, n⟩], some (r, w.fed w.files.vol.cache memory)) := by
  have most := blkDevIoRead_le w.files.vol.cache (fun _ => 0#32)
    (off + bnr * BitVec.ofNat 32 blockSize).toNat len.toNat
  rw [readFrom, if_pos direct]
  refine ⟨_, _, _, (signedLoop_le _).trans most, ?_, readDirect_eq⟩
  rw [toNat_ofNat]
  exact (Nat.mod_le _ _).trans most

/-- **A file that is read past the cache** fills words of the buffer only, if the position in the
block is not behind the size. -/
theorem readBlocks_bounded (who : ProcNr) (ret : Word) {left index : Nat} {off : Word}
    (direct : anyBit (w.files.fdTable f).filpFlags oDirect = true) (small : off.toNat ≤ blockSize)
    (within : off.toNat ≤ (w.files.vol.inodeTable ino).iSize.toNat) :
    ∀ t ∈ (readBlocks who f ino left index off count data ret w).1, Into data count.toNat t := by
  induction left generalizing w index off count data ret with
  | zero => exact fun t member => absurd member List.not_mem_nil
  | succ left ih =>
    by_cases behind : nrTzones ≤ index
    · rw [readBlocks_outside behind]
      exact fun t member => absurd member List.not_mem_nil
    have inside := Nat.lt_of_not_le behind
    by_cases hole : (w.files.vol.inodeTable ino).iZone index = 0#32
    · rw [readBlocks_hole inside hole]
      exact ih ret direct small within
    · have len := readLen_toNat count small within
      have most := pieceLen_le_count (w.files.vol.inodeTable ino).iSize.toNat off.toNat count.toNat
      obtain ⟨r, memory, n, short, less, read⟩ := readFrom_le (w := w) who data
        ((w.files.vol.inodeTable ino).iZone index) off
        (readLen (w.files.vol.inodeTable ino).iSize off count) direct
      have first : Into data count.toNat ⟨who, data, n⟩ :=
        ⟨0, (add_zero data).symm, show 0 + n ≤ count.toNat by omega⟩
      rw [readBlocks_block inside hole read]
      split
      · exact fun t member => List.mem_singleton.mp member ▸ first
      · intro t member
        rcases List.mem_append.mp member with here | there
        · exact List.mem_singleton.mp here ▸ first
        · have fewer : (count - readLen (w.files.vol.inodeTable ino).iSize off count).toNat =
              count.toNat - (readLen (w.files.vol.inodeTable ino).iSize off count).toNat :=
            toNat_sub_of_le (le_def.mpr (by omega))
          refine (ih (ret + r) ?_ (Nat.zero_le _) (Nat.zero_le _) t there).later (by omega)
          rw [moved_filp]
          exact direct

theorem ttyReadUser_quiet (who : ProcNr) (dev : DevId) (data count : Word)
    (blocking : anyBit (w.files.fdTable f).filpFlags oNonblock = false) :
    (ttyReadUser who dev f data count w).1 = [] ∧
      ∀ r w', (ttyReadUser who dev f data count w).2 = some (r, w') → w'.files = w.files := by
  have nothing : ¬ 0 < (Driver.ttyRead (w.ttys dev) w.kernel who false data count.toNat).1 := by
    unfold Driver.ttyRead
    split
    · exact (by decide : ¬ 0 < Driver.ebusy)
    · exact (by decide : ¬ 0 < suspend)
  rw [ttyReadUser, readWorld_bind, readFilp_bind]
  dsimp only
  rw [blocking, if_neg nothing]
  refine ⟨rfl, fun r w' ran => ?_⟩
  cases ran
  rfl

theorem OpenedImage.moved {cache : Cache} {memory : Memory} {r : Word} (file : OpenedImage w who fd f) :
    OpenedImage (w.moved f cache memory r) who fd f := by
  refine ⟨file.opened, ?_, ?_, ?_⟩ <;> rw [moved_filp]
  exacts [file.direct, file.blocking, file.device]

theorem OpenedImage.of_files (same : w'.files = w.files) (file : OpenedImage w who fd f) :
    OpenedImage w' who fd f := by
  refine ⟨?_, ?_, ?_, ?_⟩ <;> rw [same]
  exacts [file.opened, file.direct, file.blocking, file.device]

/-- **What a read does**: the blocks of a file, or nothing to the files and nothing yet to the
buffer. -/
theorem sysRead_cases (data count : Word) (file : OpenedImage w who fd f) :
    (∃ ino, (w.files.fdTable f).filpIno = some ino ∧ sysTransfer fopsRead who fd data count w =
      readBlocks who f ino (blocksTo (w.files.fdTable f).filpPos (w.files.fdTable f).filpPos count)
        ((w.files.fdTable f).filpPos.toNat / blockSize)
        (BitVec.ofNat 32 ((w.files.fdTable f).filpPos.toNat % blockSize)) count data 0#32 w) ∨
    ((sysTransfer fopsRead who fd data count w).1 = [] ∧
      ∀ r w', (sysTransfer fopsRead who fd data count w).2 = some (r, w') → w'.files = w.files) := by
  rw [sysTransfer_run fopsRead data count file.opened, fopsRead, readFilp_bind]
  cases device : (w.files.fdTable f).filpDev with
  | none =>
    refine .inr ⟨rfl, fun r w' ran => ?_⟩
    cases ran
  | some dev =>
    cases dev with
    | pipe => exact absurd device file.device
    | tty => exact .inr (ttyReadUser_quiet who .tty data count file.blocking)
    | tty2 => exact .inr (ttyReadUser_quiet who .tty2 data count file.blocking)
    | rootfs =>
      dsimp only
      cases inode : (w.files.fdTable f).filpIno with
      | none =>
        rw [rootFsRead, readFilp_bind, inode]
        refine .inr ⟨rfl, fun r w' ran => ?_⟩
        cases ran
      | some ino => exact .inl ⟨ino, rfl, rootFsRead_eq inode⟩

/-- One block from its start: the position does not get behind the size. -/
theorem readBlocks_within {header : Word} {r : Int} {log : List Transfer}
    (file : OpenedImage w who fd f)
    (inode : (w.files.fdTable f).filpIno = some ino) (start : (w.files.fdTable f).filpPos = 0#32)
    (ran : readBlocks who f ino 1 0 0#32 count header 0#32 w = (log, some (r, w'))) :
    OpenedImage w' who fd f ∧ WithinSize w' f := by
  by_cases hole : (w.files.vol.inodeTable ino).iZone 0 = 0#32
  · rw [readBlocks_hole (by decide) hole] at ran
    cases ran
    refine ⟨file, fun ino _ => ?_⟩
    rw [start]
    exact Nat.zero_le _
  · have len : (readLen (w.files.vol.inodeTable ino).iSize 0#32 count).toNat =
        pieceLen (w.files.vol.inodeTable ino).iSize.toNat 0 count.toNat :=
      readLen_toNat count (Nat.zero_le _) (Nat.zero_le _)
    have most : pieceLen (w.files.vol.inodeTable ino).iSize.toNat 0 count.toNat ≤
        (w.files.vol.inodeTable ino).iSize.toNat := pieceLen_le_size
    obtain ⟨got, memory, n, -, less, read⟩ := readFrom_le (w := w) who header
      ((w.files.vol.inodeTable ino).iZone 0) 0#32
      (readLen (w.files.vol.inodeTable ino).iSize 0#32 count) file.direct
    rw [readBlocks_block (by decide) hole read] at ran
    have last : w' = w.moved f w.files.vol.cache memory got := by
      split at ran <;> cases ran <;> rfl
    subst last
    refine ⟨file.moved, fun other same => ?_⟩
    rw [moved_filp] at same ⊢
    obtain rfl := Option.some.inj (inode.symm.trans same)
    rw [start, BitVec.zero_add]
    exact less.trans (len.trans_le most)

/-- **The header** is in the first block, and the position behind it is not behind the size. -/
theorem readHeader_within {header : Word} {r : Int} {log : List Transfer}
    (file : OpenedImage w who fd f)
    (start : (w.files.fdTable f).filpPos = 0#32)
    (ran : sysTransfer fopsRead who fd header elfLen w = (log, some (r, w'))) :
    OpenedImage w' who fd f ∧ WithinSize w' f := by
  rcases sysRead_cases header elfLen file with ⟨ino, inode, read⟩ | ⟨-, same⟩
  · rw [read, start] at ran
    exact readBlocks_within file inode start ran
  · have same := same r w' (congrArg Prod.snd ran)
    refine ⟨file.of_files same, fun ino _ => ?_⟩
    rw [same, start]
    exact Nat.zero_le _

theorem sysRead_into (data count : Word) (file : OpenedImage w who fd f) (within : WithinSize w f) :
    ∀ t ∈ (sysTransfer fopsRead who fd data count w).1, Into data count.toNat t := by
  rcases sysRead_cases data count file with ⟨ino, inode, read⟩ | ⟨quiet, -⟩
  · have offset := offset_small (w.files.fdTable f).filpPos
    have block := Nat.mod_lt (w.files.fdTable f).filpPos.toNat (show 0 < blockSize by decide)
    have below := Nat.mod_le (w.files.fdTable f).filpPos.toNat blockSize
    have size := within ino inode
    rw [read]
    exact readBlocks_bounded who 0#32 file.direct (by omega) (by omega)
  · rw [quiet]
    exact fun t member => absurd member List.not_mem_nil

end Reads

/-! ### Containment -/

/-- The words are in these pages. -/
def InPages (pages : Range) (t : Transfer) : Prop :=
  pages.first * pageLen ≤ t.start.toNat ∧ t.start.toNat + t.len ≤ (pages.first + pages.len) * pageLen

/-- These are the pages that the process has been given: they were free, and they are in its table. -/
structure TookPages (s s' : Loader) (pages : Range) : Prop where
  inside : pages.first + pages.len ≤ pagesNr
  free : ∀ i, pages.first ≤ i → i < pages.first + pages.len → bitOn s.mm.memMap i = false
  table : s'.image.ptable = markRun s.image.ptable pages.first pages.len

/-- **A process is contained**: its stack, its program, its bss and its heap lie one behind the
other in its pages, and so does what has been written and what is read of the image. -/
structure Contained (who : ProcNr) (elf : WinixElf) (image : Image) (log : List Transfer)
    (pages : Range) :
    Prop where
  stack : image.stackTop.toNat = pages.first * pageLen
  program : (image.physical elf.binaryOffset).toNat = image.stackTop.toNat + userStackSize.toNat
  bss : (image.physical elf.binaryOffset).toNat + elf.binarySize.toNat + elf.bssSize.toNat ≤
    image.heapTop.toNat
  heap : image.heapTop.toNat + userHeapSize.toNat = image.heapBottom.toNat + 1
  last : image.heapBottom.toNat < (pages.first + pages.len) * pageLen
  written : ∀ t ∈ log, InPages pages t
  read : ∀ w w' fd f header ret events, OpenedImage w who fd f → (w.files.fdTable f).filpPos = 0#32 →
    sysTransfer fopsRead who fd header elfLen w = (events, some (ret, w')) →
    ∀ t ∈ (sysTransfer fopsRead who fd (image.physical elf.binaryOffset) elf.binarySize w').1,
      InPages pages t

/-- … in the pages that it has been given. -/
def ContainedLoad (who : ProcNr) (elf : WinixElf) (s s' : Loader) (log : List Transfer) : Prop :=
  ∃ pages, TookPages s s' pages ∧ Contained who elf s'.image log pages

section Containment

variable {who : ProcNr} {elf : WinixElf} {s s' : Loader} {log : List Transfer} {nstart : Nat}

/-- The program and its bss, in whole pages, if their length is a signed number. -/
theorem tdAligned_toNat (small : elf.binarySize.toNat + elf.bssSize.toNat < 2 ^ 31) :
    elf.tdAligned.toNat = (elf.binarySize.toNat + elf.bssSize.toNat + 1023) / 1024 * 1024 := by
  have sum : (elf.binarySize + elf.bssSize).toNat = elf.binarySize.toNat + elf.bssSize.toNat :=
    toNat_add_of_lt (by omega)
  by_cases empty : elf.binarySize + elf.bssSize = 0#32
  · have zero : elf.binarySize.toNat + elf.bssSize.toNat = 0 := by rw [← sum, empty]; rfl
    rw [WinixElf.tdAligned, empty, zero]
    rfl
  · have nonzero : (elf.binarySize + elf.bssSize).toNat ≠ 0 := fun zero => empty (eq_of_toNat_eq zero)
    have positive : 0 < (elf.binarySize + elf.bssSize).toInt := by
      rw [toInt_eq_toNat_of_lt (by omega)]
      omega
    rw [WinixElf.tdAligned, alignPage_toNat positive, sum]
    omega

theorem WelfLoaded.room (loaded : WelfLoaded who elf s s' log nstart)
    (small : elf.binarySize.toNat + elf.bssSize.toNat < 2 ^ 31) :
    paddrToNumPages (elf.procLen userStackSize userHeapSize) = elf.tdAligned.toNat / 1024 + 2 ∧
      nstart + elf.tdAligned.toNat / 1024 + 2 ≤ 128 := by
  obtain ⟨positive, inside, -⟩ := searchPages_free loaded.found
  have aligned := tdAligned_toNat small
  have length : (elf.procLen userStackSize userHeapSize).toNat = elf.tdAligned.toNat + 2048 := by
    unfold WinixElf.procLen userStackSize userHeapSize
    rw [toNat_add, toNat_add]
    simp only [toNat_ofNat]
    omega
  by_cases signed : elf.tdAligned.toNat + 2048 < 2 ^ 31
  · have value := toInt_eq_toNat_of_lt (x := elf.procLen userStackSize userHeapSize) (by omega)
    have pages : paddrToNumPages (elf.procLen userStackSize userHeapSize) =
        ((elf.procLen userStackSize userHeapSize).toNat + 1023) / 1024 :=
      paddrToNumPages_eq (by omega) (by omega)
    unfold pagesNr at inside
    omega
  · -- The length is one of three negative numbers, and no pages are found for those.
    have negative : elf.procLen userStackSize userHeapSize = 0x80000000#32 ∨
        elf.procLen userStackSize userHeapSize = 0x80000400#32 ∨
        elf.procLen userStackSize userHeapSize = 0x80000800#32 := by
      simp only [← toNat_inj, length, toNat_ofNat]
      omega
    rcases negative with negative | negative | negative <;> rw [negative] at positive <;>
      exact absurd positive (by decide)

theorem Into.inPages {data : Word} {count : Nat} {t : Transfer} {pages : Range}
    (into : Into data count t)
    (inside : pages.first + pages.len ≤ pagesNr) (low : pages.first * pageLen ≤ data.toNat)
    (high : data.toNat + count ≤ (pages.first + pages.len) * pageLen) : InPages pages t := by
  obtain ⟨skipped, start, fits⟩ := into
  unfold pagesNr at inside
  unfold InPages
  unfold pageLen at *
  have place : t.start.toNat = data.toNat + skipped := by
    rw [start, toNat_add, toNat_ofNat]
    omega
  omega

/-- **The segments**, as numbers. -/
structure Segments (elf : WinixElf) (image : Image) (nstart : Nat) : Prop where
  stackTop : image.stackTop.toNat = nstart * 1024
  program : image.physical elf.binaryOffset = image.stackTop + 1024#32
  heapTop : image.heapTop.toNat = nstart * 1024 + 1024 + elf.tdAligned.toNat
  heapBottom : image.heapBottom.toNat = image.heapTop.toNat + 1023

section

variable (loaded : WelfLoaded who elf s s' log nstart)
include loaded

theorem WelfLoaded.segments (fits : nstart + elf.tdAligned.toNat / 1024 + 2 ≤ 128) :
    Segments elf s'.image nstart := by
  have start := pageToPaddr_toNat (show nstart ≤ 127 by omega)
  have top : (pageToPaddr nstart + userStackSize + elf.tdAligned).toNat =
      nstart * 1024 + 1024 + elf.tdAligned.toNat := by
    rw [toNat_add, toNat_add, start, show userStackSize.toNat = 1024 from rfl]
    omega
  rw [loaded.image]
  refine ⟨start, ?_, top, ?_⟩
  · show elf.binaryOffset + (pageToPaddr nstart + userStackSize - elf.binaryOffset) = _
    rw [add_comm, sub_add_cancel]
    rfl
  · show (pageToPaddr nstart + userStackSize + elf.tdAligned + userHeapSize - 1#32).toNat =
      (pageToPaddr nstart + userStackSize + elf.tdAligned).toNat + 1023
    rw [toNat_sub, toNat_add, top, show userHeapSize.toNat = 1024 from rfl]
    simp only [toNat_ofNat]
    omega

theorem WelfLoaded.took :
    TookPages s s' ⟨nstart, paddrToNumPages (elf.procLen userStackSize userHeapSize)⟩ := by
  obtain ⟨-, inside, free⟩ := searchPages_free loaded.found
  refine ⟨?_, ?_, ?_⟩ <;> dsimp only
  exacts [inside, free, by rw [loaded.image, WinixElf.image]]

theorem WelfLoaded.contained (small : elf.binarySize.toNat + elf.bssSize.toNat < 2 ^ 31) :
    Contained who elf s'.image log ⟨nstart,
      paddrToNumPages (elf.procLen userStackSize userHeapSize)⟩ := by
  obtain ⟨num, fits⟩ := loaded.room small
  have inside := loaded.took.inside
  have aligned := tdAligned_toNat small
  obtain ⟨top, program, heapTop, heapBottom⟩ := loaded.segments fits
  have start := pageToPaddr_toNat (show nstart ≤ 127 by omega)
  have text : (s'.image.physical elf.binaryOffset).toNat = nstart * 1024 + 1024 := by
    rw [program, toNat_add, top]
    simp only [toNat_ofNat]
    omega
  rw [num] at inside ⊢
  have whole {data : Word} {count : Nat} (low : nstart * 1024 ≤ data.toNat)
      (high : data.toNat + count ≤ (nstart + (elf.tdAligned.toNat / 1024 + 2)) * 1024) {t : Transfer}
      (into : Into data count t) : InPages ⟨nstart, elf.tdAligned.toNat / 1024 + 2⟩ t :=
    into.inPages inside low high
  refine ⟨top, ?_, ?_, ?_, ?_, ?_, ?_⟩
  · rw [text, top]
    rfl
  · omega
  · rw [show userHeapSize.toNat = 1024 from rfl]
    omega
  · dsimp only
    unfold pageLen
    omega
  · have bss : (pageToPaddr nstart + userStackSize + elf.binarySize).toNat =
        nstart * 1024 + 1024 + elf.binarySize.toNat := by
      rw [toNat_add, toNat_add, start, show userStackSize.toNat = 1024 from rfl]
      omega
    rw [loaded.log]
    intro t member
    simp only [List.mem_cons, List.not_mem_nil, or_false] at member
    rcases member with rfl | rfl | rfl | rfl
    · exact whole (by omega) (by omega) (Into.whole ..)
    · exact whole (by omega) (by omega) (Into.whole ..)
    · exact whole (by omega) (by omega) (Into.whole ..)
    · exact whole (by omega) (by omega) (Into.whole ..)
  · intro w w' fd f header ret events file start read
    obtain ⟨file, within⟩ := readHeader_within file start read
    intro t member
    exact whole (by omega) (by omega) (sysRead_into _ _ file within t member)

end

theorem ContainedLoad.short (contained : ContainedLoad who elf s s' log) :
    elf.binarySize.toNat + elf.bssSize.toNat < 2 ^ 31 := by
  obtain ⟨pages, took, contained⟩ := contained
  have inside := took.inside
  have last := contained.last
  have heap := contained.heap
  have bss := contained.bss
  unfold pagesNr at inside
  unfold pageLen at last
  omega

/-- **Whatever the header says**, a process that is loaded is contained if and only if its lengths
add up to a signed number. -/
theorem welf_contained_iff
    (ran : allocMemWelf who elf userStackSize userHeapSize s = (log, some (ok, s'))) :
    ContainedLoad who elf s s' log ↔ elf.binarySize.toNat + elf.bssSize.toNat < 2 ^ 31 := by
  obtain ⟨nstart, loaded⟩ := allocMemWelf_loaded ran
  exact ⟨fun contained => contained.short, fun small => ⟨_, loaded.took, loaded.contained small⟩⟩

end Containment

/-- A program of twelve words. -/
def smallElf (bssSize : Word) : WinixElf :=
  ⟨winixElfMagic, 1024#32, 1024#32, 12#32, 10#32, 2#32, bssSize⟩

/-- The kernel has 20 pages. -/
def freshLoader : Loader :=
  ⟨fun _ => 0#32, ⟨markRun (fun _ => 0#32) 0 20, 20⟩, ⟨0, 0, 0, 0, 0, 0, 0, fun _ => 0#32⟩, 0#32⟩

theorem smallElf_loads (bssSize : Word)
    (loads : (allocMemWelf 1 (smallElf bssSize) userStackSize userHeapSize freshLoader).2.any
      (fun r => r.1 = ok) = true) :
    ∃ s', allocMemWelf 1 (smallElf bssSize) userStackSize userHeapSize freshLoader =
      ((allocMemWelf 1 (smallElf bssSize) userStackSize userHeapSize freshLoader).1,
        some (ok, s')) := by
  obtain ⟨⟨ret, s'⟩, ran, done⟩ := exists_of_any loads
  obtain rfl : ret = ok := done
  exact ⟨s', Prod.ext rfl ran⟩

theorem smallElf_contained : ∃ log s',
    allocMemWelf 1 (smallElf 100#32) userStackSize userHeapSize freshLoader = (log, some (ok, s')) ∧
      ContainedLoad 1 (smallElf 100#32) freshLoader s' log := by
  obtain ⟨s', ran⟩ := smallElf_loads 100#32 (by decide +kernel)
  exact ⟨_, s', ran, (welf_contained_iff ran).mpr (by decide)⟩

/-- The length of the bss is `-12`. The process gets two pages, and `2 ^ 32 - 12` words are cleared. -/
theorem welf_clears_memory : ∃ log s',
    allocMemWelf 1 (smallElf (-12#32)) userStackSize userHeapSize freshLoader = (log, some (ok, s')) ∧
      ⟨1, 21516#32, 2 ^ 32 - 12⟩ ∈ log ∧ ¬ ContainedLoad 1 (smallElf (-12#32)) freshLoader s' log := by
  obtain ⟨s', ran⟩ := smallElf_loads (-12#32) (by decide +kernel)
  have cleared : (⟨1, 21516#32, 2 ^ 32 - 12⟩ : Transfer) ∈
      (allocMemWelf 1 (smallElf (-12#32)) userStackSize userHeapSize freshLoader).1 := by decide +kernel
  exact ⟨_, s', ran, cleared, fun contained => absurd contained.short (by decide)⟩

end Winix.Kernel
