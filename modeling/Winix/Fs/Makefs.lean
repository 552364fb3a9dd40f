/-
**The empty file system.**

`fs/makefs.c`, and how the kernel starts on a disk (`blk_dev_init`, `init_fs`). `makefs` runs on the
host, where a word is four bytes: the sizes it writes are in bytes, and `arch_superblock` and
`arch_inode` turn them into words.

* `image_tree`: a kernel that starts on the image finds a tree with the root directory only.
-/

import Winix.Fs.Tree

namespace Winix.Fs

open Kernel Lib Function

/-! ### `makefs` -/

/-- `SUPER_BLOCK_MAGIC`. -/
def superBlockMagic : Word := 0xabcdefff#32
/-- `DISK_SIZE` in words. -/
def diskSize : Nat := 51200
/-- `BLOCK_SIZE` on the host, in bytes. -/
def hostBlockSize : Nat := 4096
/-- `INODE_DISK_SIZE` on the host. -/
def hostInodeDiskSize : Nat := 64
/-- The words of `struct superblock`. -/
def superblockWords : Nat := 49

/-- `rootfs_name`. -/
def rootfsName : List Word :=
  "WINIX_ROOTFS".toList.map fun c => BitVec.ofNat 32 c.toNat

/-- The first word of a map with this many bits set. -/
def setBits (n : Nat) : Word := bitmapSetNbits (fun _ => 0#32) 1 0 n 0

/-- `blocks_nr`, an `unsigned int`. -/
def blocksNr (diskBytes : Nat) : Nat := diskBytes / hostBlockSize % 2 ^ 32

/-- `(int)(blocks_nr * 0.02)`, the blocks of the inode table. -/
def tableBlocks (blocksNr : Nat) : Nat := blocksNr / 50

/-- `root_node_block_nr`. -/
def rootNodeBlockNr (blocksNr : Nat) : Nat := 3 + tableBlocks blocksNr

/-- The words of the superblock that `makefs` writes. The subtraction for the free inodes wraps around
when there is no inode table. -/
def hostSuperblock (blocksNr : Nat) : List Word :=
  let blockInUse := rootNodeBlockNr blocksNr + 1
  let inodeTablesize := tableBlocks blocksNr * hostBlockSize
  [superBlockMagic] ++
    ([blockInUse, 1, blocksNr - blockInUse, inodeTablesize / hostInodeDiskSize + wordSize - 1,
      hostBlockSize, hostInodeDiskSize, 1, 0, hostBlockSize, 1, hostBlockSize, 2, hostBlockSize, 3,
      inodeTablesize, hostBlockSize / hostInodeDiskSize].map (BitVec.ofNat 32)) ++
    rootfsName

/-- `root_node`. -/
def rootNode (blocksNr : Nat) : Inode :=
  { Inode.zero with
    iMode := sIfdir ||| 0x755#32
    iNlinks := 1
    iMtime := inodeMockUtcTime
    iAtime := inodeMockUtcTime
    iCtime := inodeMockUtcTime
    iZone := update (fun _ => 0#32) 0 (BitVec.ofNat 32 (rootNodeBlockNr blocksNr))
    iNum := rootInodeNum
    iNdblock := 3
    iSize := BitVec.ofNat 32 hostBlockSize }

/-- `makefs`; nothing is `-1`. The size of the disk is in bytes, its contents are in words. -/
def makefs (diskRaw : Nat → Word) (diskBytes : Nat) : Option (Nat → Word) :=
  let blocksNr := blocksNr diskBytes
  let rootBlock := rootNodeBlockNr blocksNr
  let root := rootNode blocksNr
  let sb := hostSuperblock blocksNr
  if blocksNr < 8 ∨ 32 ≤ rootBlock + 1 then none
  else
    let disk := copyWords superblockWords diskRaw 0 (fun k => sb.getD k 0#32) 0
    let disk := update disk blockSize (setBits (rootBlock + 1))
    let disk := update disk (2 * blockSize) (bitmapSetNbits (fun _ => 0#32) 1 0 2 0)
    let disk := copyWords inodeDiskSize disk (3 * blockSize + inodeDiskSize) root.words 0
    let disk := fillDirent root dot1 (rootBlock * blockSize) disk
    some (fillDirent root dot2 (rootBlock * blockSize + direntSize) disk)

/-! ### Starting -/

/-- `memcpy(&root_sb, rootfs_disk, …)` and `arch_superblock`. -/
def readSuperblock (disk : Nat → Word) : Superblock where
  sBlockInuse := disk 1
  sInodeInuse := disk 2
  sFreeBlocks := disk 3
  sFreeInodes := disk 4
  sInodeSize := disk 6 / 4
  sBlockmapnr := disk 10
  sBlockmapSize := disk 11 / 4
  sInodemapnr := disk 12
  sInodemapSize := disk 13 / 4
  sInodeTablenr := disk 14
  sInodeTableSize := disk 15 / 4
  sInodePerBlock := disk 16

/-- The memory of the cache before `init_buf` sets it up. -/
def bareBuffers (disk : Nat → Word) : Cache where
  bufTable _ := ⟨fun _ => 0#32, none, none, 0, none, false, 0⟩
  rear := none
  front := none
  rootfsDisk := disk
  rootfsDiskSize := BitVec.ofNat 32 diskSize

/-- `init_fs` on a disk: an empty cache, an empty inode table. A disk without the magic number stops
the kernel. -/
def initFs (layout : Layout) (disk : Nat → Word) : Option Volume :=
  if disk 0 = superBlockMagic then
    some ⟨initBuf (bareBuffers disk), readSuperblock disk, fun _ => Inode.zero, fun _ => 0#32, layout⟩
  else none

/-! ### The image -/

/-- Buffers one behind the other, zeros behind them. -/
def plainLayout : Layout where
  bufTable i := BitVec.ofNat 32 (0x8000 + 1030 * i)
  rootfsDev := 0x7000#32
  behind _ := 0#32
  above := by decide

/-- What `makefs` writes on an empty disk of fifty blocks. -/
def image : Nat → Word := (makefs (fun _ => 0#32) (4 * diskSize)).getD fun _ => 0#32

theorem image_made : makefs (fun _ => 0#32) (4 * diskSize) = some image := rfl

/-- A kernel that has started on the image. -/
def imageVolume (layout : Layout) : Volume :=
  ⟨initBuf (bareBuffers image), readSuperblock image, fun _ => Inode.zero, fun _ => 0#32, layout⟩

/-- The inodes on the image. -/
def imageNodes (num : Int) : Node := (diskInode image num).node

/-- The root directory on the image. -/
def rootOnImage : Node := ⟨true, true, [4, 0, 0, 0, 0, 0, 0, 0]⟩

/-- The slot of the root. -/
def rootSlot : InodeNr := ⟨0, by decide⟩
/-- The slot of the file. -/
def fileSlot : InodeNr := ⟨1, by decide⟩

/-- The root, in the first slot of the table. -/
def loadedRoot : Inode := { rootNode 50 with iDev := some .rootfs, iCount := 1 }

section Image

variable {layout : Layout}

theorem image_rest : Rest (imageVolume layout).cache image := rest_initBuf (bareBuffers image)

theorem image_inUse {num : Int} : InUse image num ↔ num = 1 := by
  have bits : ∀ k : Fin 48, 0 < k.val →
      bitOn (fun k => image (2 * blockSize + k)) k.val = decide (k.val = 1) := by decide +kernel
  constructor
  · rintro ⟨positive, small, bit⟩
    have small : num < 48 := small
    have here := bits ⟨num.toNat, by omega⟩ (by simpa using positive)
    rw [bit] at here
    have := of_decide_eq_true here.symm
    dsimp only at this
    omega
  · rintro rfl
    exact ⟨by decide, by decide, bits 1 (by decide)⟩

theorem image_nodeAt (num : Int) (positive : 0 < num) :
    nodeAt (imageVolume layout) image num = imageNodes num := by
  rw [nodeAt, theInode_absent fun _ : InodeNr => ?_]
  · rfl
  · show (0 : Int) ≠ num
    omega

theorem image_root : imageNodes 1 = rootOnImage := by decide +kernel

theorem image_formatted : Formatted (readSuperblock image) := by
  constructor <;> decide +kernel

/-- **The file system that `makefs` writes** is a tree. -/
theorem image_tree : Tree (imageVolume layout) image where
  formatted := image_formatted
  size := rfl
  rest := image_rest
  unique i _ positive := absurd positive (lt_irrefl 0)
  used i positive := absurd positive (lt_irrefl 0)
  device i positive := absurd positive (lt_irrefl 0)
  zones num used _ zone member nonzero := by
    obtain rfl := image_inUse.mp used
    rw [image_nodeAt 1 (by decide), image_root] at member
    have four : zone = 4 := by
      simp only [rootOnImage, List.mem_cons, List.not_mem_nil, or_false] at member
      rcases member with four | zero | zero | zero | zero | zero | zero | zero
      · exact four
      all_goals exact absurd zero nonzero
    subst four
    exact inside_of_lt rfl (by decide) (by decide)
  entries num used _ e member named := by
    obtain rfl := image_inUse.mp used
    rw [image_nodeAt 1 (by decide), image_root] at member
    have all : ∀ e ∈ dirEntries image rootOnImage.zones, e.name ≠ [] → e.ino = 1 := by
      decide +kernel
    exact image_inUse.mpr (all e member named)

end Image

end Winix.Fs
