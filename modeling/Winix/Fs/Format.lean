/-
**What `makefs` writes.**

`fs/makefs.c` for every size of the disk. Two hundredths of the blocks are the inode table. A disk of
less than fifty blocks has no inode table at all: the root directory starts where the table would, over
the root inode, and no inode number is valid. On a larger disk everything but one number is right: the
entry of number 0 in the inode table is counted as a free inode.

* `Sound`: the ranges of blocks, the maps and the numbers in the superblock agree, but for the number of
  free inodes, and a kernel that starts on the disk finds the root directory;
* `Consistent`: the number of free inodes agrees, too;
* **`makefs_inconsistent`**: what `makefs` writes is never consistent, and it is sound if and only
  if the inode table has a block;
* `wrong_free_inodes`: disks of fifty and of eight blocks.
-/

import Winix.Fs.Makefs
import Winix.Lib.Range

namespace Winix.Fs

variable {diskBytes : Nat} {disk : Nat → Word}

open Kernel Lib Function List BitVec

/-! ### Consistent file systems -/

/-- The blocks of a number of bytes. -/
def byteBlocks (size : Word) : Nat := (size.toNat + hostBlockSize - 1) / hostBlockSize

/-- The ranges of blocks that a disk uses: superblock, block map, inode map and inode table as the
superblock has them, and the zones of the root directory. -/
def regions (disk : Nat → Word) : List Range :=
  [⟨(disk 8).toNat, byteBlocks (disk 9)⟩, ⟨(disk 10).toNat, byteBlocks (disk 11)⟩,
    ⟨(disk 12).toNat, byteBlocks (disk 13)⟩, ⟨(disk 14).toNat, byteBlocks (disk 15)⟩] ++
  ((diskInode disk 1).zones.filter (· ≠ 0#32)).map fun zone => ⟨zone.toNat, 1⟩

/-- The block map on a disk. -/
def blockMap (disk : Nat → Word) (k : Nat) : Word := disk (blockSize + k)
/-- The inode map on a disk. -/
def inodeMap (disk : Nat → Word) (k : Nat) : Word := disk (2 * blockSize + k)

/-- The numbers of the inodes that the inode table has an entry for. The first entry is that of
number 0, which is no inode. -/
def inodeNumbers (disk : Nat → Word) : List Nat :=
  (List.range ((disk 16).toNat * ((disk 15 / 4).toNat / blockSize) - 1)).map (· + 1)

/-- A kernel that has started on the disk, compiled for a disk of this size. -/
def mount (layout : Layout) (blocks : Nat) (disk : Nat → Word) : Option Volume :=
  (initFs layout disk).map fun v =>
    { v with cache := { v.cache with rootfsDiskSize := BitVec.ofNat 32 (blocks * blockSize) } }

/-- `read_inode` finds a directory in which `"."` and `".."` are the root inode. -/
def RootReadable (v : Volume) : Prop :=
  ∃ slot v', readInode rootInodeNum (some .rootfs) v = some ((ok, some slot), v') ∧
    (v'.inodeTable slot).node.isDir = true ∧
    ∀ name ∈ [dot1, dot2], ∃ v'', advance slot name v' = some (rootInodeNum, v'')

/-- The parts of the file system agree, but for the number of free inodes. -/
structure Sound (blocks : Nat) (disk : Nat → Word) : Prop where
  nonempty : ∀ r ∈ regions disk, 0 < r.len
  root : (diskInode disk 1).zones.filter (· ≠ 0#32) ≠ []
  inside : ∀ r ∈ regions disk, r.first + r.len ≤ blocks
  tiled : Tiled (32 * blockSize) (bitOn (blockMap disk)) (regions disk)
  blockInuse : (disk 1).toNat = (List.range blocks).countP (bitOn (blockMap disk))
  freeBlocks : (disk 3).toNat = (List.range blocks).countP fun b => !bitOn (blockMap disk) b
  inodeInuse : (disk 2).toNat = (inodeNumbers disk).countP (bitOn (inodeMap disk))
  readable : ∀ layout, ∃ v, mount layout blocks disk = some v ∧ RootReadable v

/-- All the parts of the file system agree. -/
structure Consistent (blocks : Nat) (disk : Nat → Word) : Prop extends Sound blocks disk where
  freeInodes : (disk 4).toNat = (inodeNumbers disk).countP fun num => !bitOn (inodeMap disk) num

/-! ### The words of the disk -/

/-- What `makefs` writes on an empty disk. -/
def formatDisk (blocks : Nat) : Nat → Word :=
  let rootBlock := rootNodeBlockNr blocks
  let root := rootNode blocks
  let disk :=
    copyWords superblockWords (fun _ => 0#32) 0 (fun k => (hostSuperblock blocks).getD k 0#32) 0
  let disk := update disk blockSize (setBits (rootBlock + 1))
  let disk := update disk (2 * blockSize) (bitmapSetNbits (fun _ => 0#32) 1 0 2 0)
  let disk := copyWords inodeDiskSize disk (3 * blockSize + inodeDiskSize) root.words 0
  let disk := fillDirent root dot1 (rootBlock * blockSize) disk
  fillDirent root dot2 (rootBlock * blockSize + direntSize) disk

theorem makefs_eq_some (made : makefs (fun _ => 0#32) diskBytes = some disk) :
    8 ≤ blocksNr diskBytes ∧ tableBlocks (blocksNr diskBytes) < 28 ∧
      disk = formatDisk (blocksNr diskBytes) := by
  unfold makefs at made
  dsimp only at made
  split_ifs at made with refused
  obtain ⟨large, few⟩ := not_or.mp refused
  unfold rootNodeBlockNr at few
  refine ⟨by omega, by omega, ?_⟩
  rw [← Option.some.inj made, formatDisk]

section Words

variable {blocks a : Nat}

theorem fillDirent_root (string : List Word) (place : Nat) (words : Nat → Word) :
    fillDirent (rootNode blocks) string place words =
      update (update (char32Strncpy words (place + 2) string dirnameLen) place 1#32)
        (place + 1) dtDir := by
  have type : direntType (rootNode blocks).iMode = some dtDir := by
    show direntType (sIfdir ||| 0x755#32) = some dtDir
    decide
  rw [fillDirent, type]
  rfl

theorem formatDisk_low (below : a < rootNodeBlockNr blocks * blockSize) :
    formatDisk blocks a = copyWords inodeDiskSize
      (update
        (update
          (copyWords superblockWords (fun _ => 0#32) 0 (fun k => (hostSuperblock blocks).getD k 0#32) 0)
          blockSize (setBits (rootNodeBlockNr blocks + 1)))
        (2 * blockSize) (bitmapSetNbits (fun _ => 0#32) 1 0 2 0))
      (3 * blockSize + inodeDiskSize) (rootNode blocks).words 0 a := by
  simp only [formatDisk, fillDirent_root, dot1, dot2, dirnameLen, char32Strncpy, direntSize]
  rw [update_of_ne (by omega), update_of_ne (by omega),
    update_of_ne (by omega), update_of_ne (by omega),
    update_of_ne (by omega), update_of_ne (by omega),
    update_of_ne (by omega), update_of_ne (by omega),
    update_of_ne (by omega)]

theorem rootBlock_le (blocks : Nat) : 3 * blockSize ≤ rootNodeBlockNr blocks * blockSize :=
  Nat.mul_le_mul_right _ (Nat.le_add_right 3 _)

theorem formatDisk_superblock (small : a < superblockWords) :
    formatDisk blocks a = (hostSuperblock blocks).getD a 0#32 := by
  have low := rootBlock_le blocks
  unfold blockSize superblockWords at *
  rw [formatDisk_low (by unfold blockSize; omega),
    copyWords_outside _ _ _ _ _ (by unfold blockSize; omega),
    update_of_ne (by unfold blockSize; omega), update_of_ne (by unfold blockSize; omega)]
  have copied := copyWords_inside superblockWords (fun _ => 0#32)
    (fun k => (hostSuperblock blocks).getD k 0#32) 0 0 small
  rwa [Nat.zero_add] at copied

theorem formatDisk_blockMap (small : a < blockSize) :
    blockMap (formatDisk blocks) a = if a = 0 then setBits (rootNodeBlockNr blocks + 1) else 0#32 := by
  have low := rootBlock_le blocks
  unfold blockMap
  unfold blockSize at *
  rw [formatDisk_low (by unfold blockSize; omega),
    copyWords_outside _ _ _ _ _ (by unfold blockSize; omega),
    update_of_ne (by unfold blockSize; omega)]
  split_ifs with first
  · rw [first]
    exact update_self ..
  · rw [update_of_ne (by unfold blockSize; omega),
      copyWords_outside _ _ _ _ _ (by unfold superblockWords; omega)]

theorem formatDisk_inodeMap (small : a < blockSize) :
    inodeMap (formatDisk blocks) a = if a = 0 then setBits 2 else 0#32 := by
  have low := rootBlock_le blocks
  unfold inodeMap
  unfold blockSize at *
  rw [formatDisk_low (by unfold blockSize; omega),
    copyWords_outside _ _ _ _ _ (by unfold blockSize; omega)]
  split_ifs with first
  · rw [first]
    exact update_self ..
  · rw [update_of_ne (by unfold blockSize; omega), update_of_ne (by unfold blockSize; omega),
      copyWords_outside _ _ _ _ _ (by unfold superblockWords; omega)]

theorem formatDisk_rootInode (table : 0 < tableBlocks blocks) (small : a < inodeDiskSize) :
    formatDisk blocks (3 * blockSize + inodeDiskSize + a) = (rootNode blocks).words a := by
  have low : 4 * blockSize ≤ rootNodeBlockNr blocks * blockSize :=
    Nat.mul_le_mul_right _ (by unfold rootNodeBlockNr; omega)
  rw [formatDisk_low (by unfold blockSize inodeDiskSize at *; omega),
    copyWords_inside _ _ _ _ _ small, Nat.zero_add]

theorem formatDisk_entries (blocks : Nat) :
    entryAt (formatDisk blocks) (rootNodeBlockNr blocks) 0 = ⟨dot1, 1⟩ ∧
      entryAt (formatDisk blocks) (rootNodeBlockNr blocks) 1 = ⟨dot2, 1⟩ := by
  simp only [entryAt, nameMax, nameWithin_succ, formatDisk, fillDirent_root, dot1, dot2, dirnameLen,
    char32Strncpy, direntSize]
  generalize rootNodeBlockNr blocks * blockSize = place
  generalize copyWords _ _ _ _ _ = words
  simp [Nat.add_assoc]

theorem bitOn_setBits {map : Nat → Word} {n bit : Nat} (few : n < 32) (small : bit < 32 * blockSize)
    (words : ∀ a < blockSize, map a = if a = 0 then setBits n else 0#32) :
    bitOn map bit = decide (bit < n) := by
  rw [bitOn, words (bit / 32) (by omega)]
  split_ifs with first
  · have marked := bitOn_markRun (fun _ => 0#32) 0 n bit
    have blank : bitOn (fun _ => 0#32) bit = false := getLsbD_zero
    rw [bitOn, first, blank, Bool.or_false] at marked
    rw [setBits, bitmapSetNbits, if_neg (by omega), marked]
    exact decide_eq_decide.mpr (by omega)
  · rw [decide_eq_false (by omega)]
    exact getLsbD_zero

theorem bitOn_blockMap {b : Nat} (few : tableBlocks blocks < 28) (small : b < 32 * blockSize) :
    bitOn (blockMap (formatDisk blocks)) b = decide (b < rootNodeBlockNr blocks + 1) :=
  bitOn_setBits (by unfold rootNodeBlockNr; omega) small fun _ => formatDisk_blockMap

theorem bitOn_inodeMap {num : Nat} (small : num < 32 * blockSize) :
    bitOn (inodeMap (formatDisk blocks)) num = decide (num < 2) :=
  bitOn_setBits (by decide) small fun _ => formatDisk_inodeMap

theorem formatDisk_zones (table : 0 < tableBlocks blocks) :
    (diskInode (formatDisk blocks) 1).zones = (rootNode blocks).zones := by
  refine map_congr_left fun zone member => ?_
  have few := mem_range.mp member
  have word := formatDisk_rootInode (a := zone + 8) table (by unfold nrTzones inodeDiskSize at *; omega)
  rw [show 3 * blockSize + inodeDiskSize + (zone + 8) =
    3 * blockSize + (1 * inodeDiskSize + 8 + zone) by
    omega] at word
  exact (if_pos few).trans word

theorem rootNode_zones : (rootNode blocks).zones =
    [BitVec.ofNat 32 (rootNodeBlockNr blocks), 0#32, 0#32, 0#32, 0#32, 0#32, 0#32, 0#32] := rfl

variable (few : tableBlocks blocks < 28)
include few

theorem rootZone_toNat :
    (BitVec.ofNat 32 (rootNodeBlockNr blocks)).toNat = rootNodeBlockNr blocks := by
  rw [toNat_ofNat]
  exact Nat.mod_eq_of_lt (by unfold rootNodeBlockNr; omega)

theorem rootZone_nonzero :
    BitVec.ofNat 32 (rootNodeBlockNr blocks) ≠ 0#32 := fun zero => by
  have value := rootZone_toNat few
  rw [zero] at value
  have : 0 = 3 + tableBlocks blocks := value
  omega

theorem rootZones_filter :
    (rootNode blocks).zones.filter (· ≠ 0#32) = [BitVec.ofNat 32 (rootNodeBlockNr blocks)] := by
  rw [rootNode_zones, filter_cons_of_pos (by simpa using rootZone_nonzero few)]
  rfl

end Words

/-! ### The numbers -/

section Numbers

variable {blocks : Nat}

theorem countP_range_lt {n m : Nat} (le : n ≤ m) :
    (List.range m).countP (fun b => decide (b < n)) = n := by
  obtain ⟨rest, rfl⟩ := Nat.exists_eq_add_of_le le
  rw [range_add, countP_append, countP_eq_length.mpr, countP_eq_zero.mpr]
  · simp
  · simp
  · simp

theorem inUse_le (large : 8 ≤ blocks) : rootNodeBlockNr blocks + 1 ≤ blocks := by
  unfold rootNodeBlockNr tableBlocks
  omega

theorem countP_not (l : List Nat) (p : Nat → Bool) :
    (l.countP fun b => !p b) = l.length - l.countP p := by
  have whole := l.length_eq_countP_add_countP p
  have same : l.countP (fun a => decide ¬ p a = true) = l.countP fun b => !p b :=
    countP_congr fun b _ => by simp
  rw [same] at whole
  omega

variable (few : tableBlocks blocks < 28)
include few

theorem byteBlocks_table :
    byteBlocks (formatDisk blocks 15) = tableBlocks blocks := by
  rw [formatDisk_superblock (by decide)]
  show byteBlocks (BitVec.ofNat 32 (tableBlocks blocks * 4096)) = _
  rw [byteBlocks, toNat_ofNat, hostBlockSize]
  omega

theorem blocks_lt : blocks < 1400 := by
  unfold tableBlocks at few
  omega

theorem countP_blockMap (large : 8 ≤ blocks) :
    (List.range blocks).countP (bitOn (blockMap (formatDisk blocks))) = rootNodeBlockNr blocks + 1 := by
  have count := countP_range_lt (inUse_le large)
  refine Eq.trans (countP_congr fun b member => ?_) count
  have small := mem_range.mp member
  have := blocks_lt few
  rw [bitOn_blockMap few (by unfold blockSize; omega)]

theorem inodeNumbers_formatDisk :
    inodeNumbers (formatDisk blocks) = (List.range (64 * tableBlocks blocks - 1)).map (· + 1) := by
  have size : (BitVec.ofNat 32 (tableBlocks blocks * 4096) / 4).toNat / 1024 = tableBlocks blocks := by
    rw [toNat_udiv, toNat_ofNat]
    show tableBlocks blocks * 4096 % 2 ^ 32 / 4 / 1024 = _
    omega
  rw [inodeNumbers, formatDisk_superblock (by decide), formatDisk_superblock (by decide)]
  show (List.range
    (64 * ((BitVec.ofNat 32 (tableBlocks blocks * 4096) / 4).toNat / 1024) - 1)).map _ = _
  rw [size]

variable (table : 0 < tableBlocks blocks)
include table

theorem regions_formatDisk :
    regions (formatDisk blocks) =
      [⟨0, 1⟩, ⟨1, 1⟩, ⟨2, 1⟩, ⟨3, tableBlocks blocks⟩, ⟨rootNodeBlockNr blocks, 1⟩] := by
  have word {k : Nat} (small : k < 49) : formatDisk blocks k = (hostSuperblock blocks).getD k 0#32 :=
    formatDisk_superblock small
  have one : byteBlocks (BitVec.ofNat 32 hostBlockSize) = 1 := by decide
  rw [regions, formatDisk_zones table, rootZones_filter few, byteBlocks_table few, word (by decide),
    word (by decide), word (by decide), word (by decide), word (by decide), word (by decide),
    word (by decide), map_singleton, rootZone_toNat few]
  show ([⟨0, byteBlocks (BitVec.ofNat 32 hostBlockSize)⟩,
    ⟨1, byteBlocks (BitVec.ofNat 32 hostBlockSize)⟩,
    ⟨2, byteBlocks (BitVec.ofNat 32 hostBlockSize)⟩, ⟨3, _⟩, _] : List Range) = _
  rw [one]

theorem countP_inodeMap :
    (inodeNumbers (formatDisk blocks)).countP (bitOn (inodeMap (formatDisk blocks))) = 1 := by
  rw [inodeNumbers_formatDisk few, countP_map]
  have count := countP_range_lt (show 1 ≤ 64 * tableBlocks blocks - 1 by omega)
  refine Eq.trans (countP_congr fun num member => ?_) count
  have small := mem_range.mp member
  rw [comp_apply, bitOn_inodeMap (by unfold blockSize; omega), decide_eq_true_iff,
    decide_eq_true_iff]
  omega

theorem countP_freeInodes :
    ((inodeNumbers (formatDisk blocks)).countP fun num => !bitOn (inodeMap (formatDisk blocks)) num) =
      64 * tableBlocks blocks - 2 := by
  rw [countP_not, countP_inodeMap few table, inodeNumbers_formatDisk few, length_map, length_range]
  omega

theorem freeInodes_toNat :
    (formatDisk blocks 4).toNat = 64 * tableBlocks blocks - 1 := by
  rw [formatDisk_superblock (by decide)]
  show (BitVec.ofNat 32 (tableBlocks blocks * 4096 / 64 + wordSize - 1)).toNat = _
  rw [toNat_ofNat, wordSize]
  omega

end Numbers

/-! ### Starting on the disk -/

section Starting

variable {blocks : Nat} {layout : Layout}

/-- The kernel that starts on the disk. -/
def formatVolume (layout : Layout) (blocks : Nat) : Volume :=
  ⟨initBuf { bareBuffers (formatDisk blocks) with
      rootfsDiskSize := BitVec.ofNat 32 (blocks * blockSize) },
    readSuperblock (formatDisk blocks), fun _ => Inode.zero, fun _ => 0#32, layout⟩

theorem mount_formatDisk :
    mount layout blocks (formatDisk blocks) = some (formatVolume layout blocks) := by
  have magic : formatDisk blocks 0 = superBlockMagic := formatDisk_superblock (by decide)
  rw [mount, initFs, if_pos magic]
  rfl

theorem formatVolume_rest : Rest (formatVolume layout blocks).cache (formatDisk blocks) :=
  rest_initBuf { bareBuffers (formatDisk blocks) with
    rootfsDiskSize := BitVec.ofNat 32 (blocks * blockSize) }

theorem componentName_dots {name : List Word} (named : name ∈ [dot1, dot2]) : ComponentName name := by
  rcases mem_pair.mp named with rfl | rfl
  · exact ⟨by decide, by simp [dot1], by decide⟩
  · exact ⟨by decide, by simp [dot2], by decide⟩

variable (few : tableBlocks blocks < 28)
include few

theorem formatVolume_inside {b : Nat} (positive : 1 ≤ b)
    (small : b < blocks) : Inside (formatVolume layout blocks).cache b := by
  refine ⟨positive, ?_⟩
  show b * 1024 + 1024 ≤ (BitVec.ofNat 32 (blocks * 1024)).toNat
  have := blocks_lt few
  rw [toNat_ofNat]
  omega

theorem findEntry_root {name : List Word} (named : name ∈ [dot1, dot2]) :
    findEntry (dirEntries (formatDisk blocks) (rootNode blocks).zones) name = some 1 := by
  obtain ⟨first, second⟩ := formatDisk_entries blocks
  have slots : List.range wholeSlots = 0 :: 1 :: (List.range wholeSlots).drop 2 := rfl
  rw [dirEntries, rootZones_filter few, flatMap_singleton, rootZone_toNat few, blockEntries, slots,
    map_cons, map_cons, first, second]
  rcases mem_pair.mp named with rfl | rfl
  · rfl
  · rfl

variable (table : 0 < tableBlocks blocks)
include table

theorem formatVolume_laid :
    Laid (formatVolume layout blocks).rootSb := by
  have word {k : Nat} (small : k < 49) : formatDisk blocks k = (hostSuperblock blocks).getD k 0#32 :=
    formatDisk_superblock small
  have count : (formatDisk blocks 16 * (formatDisk blocks 15 / 4 / BitVec.ofNat 32 blockSize)).toNat =
      64 * tableBlocks blocks := by
    rw [word (by decide), word (by decide)]
    show (64#32 * (BitVec.ofNat 32 (tableBlocks blocks * 4096) / 4#32 / 1024#32)).toNat = _
    rw [toNat_mul, toNat_udiv, toNat_udiv, toNat_ofNat]
    show 64 * (tableBlocks blocks * 4096 % 2 ^ 32 / 4 / 1024) % 2 ^ 32 = _
    omega
  refine ⟨?_, word (k := 12) (by decide), ?_, word (k := 14) (by decide), fun num positive small => ?_⟩
  · show formatDisk blocks 6 / 4 = 16
    rw [word (by decide)]
    show 64#32 / 4#32 = 16#32
    decide
  · show formatDisk blocks 13 / 4 = 1024
    rw [word (by decide)]
    show 4096#32 / 4#32 = 1024#32
    decide
  · rw [isValidInodeNum, if_neg (by omega)]
    show decide (num.toNat ≤ (formatDisk blocks 16 * (formatDisk blocks 15 / 4 / _)).toNat) = true
    rw [count]
    simp only [nrInodes] at small
    exact decide_eq_true (by omega)

/-- **The root directory is found** by a kernel that has just started. -/
theorem formatVolume_readable (large : 8 ≤ blocks) : RootReadable (formatVolume layout blocks) := by
  have used : InUse (formatDisk blocks) 1 :=
    ⟨by decide, by decide, bitOn_inodeMap (show 1 < 32 * blockSize by decide)⟩
  obtain ⟨slot, v', read, installed⟩ := readInode_laid (formatVolume_laid few table)
    (formatVolume_inside few (by decide) (by omega)) (formatVolume_inside few (by decide) (by omega))
    formatVolume_rest ⟨0, le_rfl⟩ used
  have device : (v'.inodeTable slot).iDev = some .rootfs :=
    congrArg (fun core => core.2.1) installed.core
  have node : (v'.inodeTable slot).node = (diskInode (formatDisk blocks) 1).node :=
    congrArg (fun core => core.2.2) installed.core
  have zones : (v'.inodeTable slot).zones = (rootNode blocks).zones :=
    (congrArg Node.zones node).trans (formatDisk_zones table)
  refine ⟨slot, v', read, ?_, fun name named => ?_⟩
  · have mode := formatDisk_rootInode (a := 0) table (by decide)
    rw [node]
    show anyBit (formatDisk blocks (3 * blockSize + (1 * inodeDiskSize))) sIfdir = true
    rw [one_mul]
    rw [Nat.add_zero] at mode
    rw [mode]
    show anyBit (sIfdir ||| 0x755#32) sIfdir = true
    decide
  · have proper := componentName_dots named
    obtain ⟨c', looked, -, -⟩ := lookupZones_run proper installed.rest
      fun zone (member : zone ∈ (rootNode blocks).zones) nonzero => by
        have here : zone ∈ (rootNode blocks).zones.filter (· ≠ 0#32) :=
          mem_filter.mpr ⟨member, by simpa using nonzero⟩
        rw [rootZones_filter few, mem_singleton] at here
        rw [here, rootZone_toNat few]
        refine inside_of_size installed.size (formatVolume_inside few ?_ (inUse_le large))
        unfold rootNodeBlockNr
        omega
    rw [findEntry_root few named] at looked
    refine ⟨{ v' with cache := c' }, ?_⟩
    rw [advance, if_neg proper.nonempty, Prog.bind_run readIno_run, device, zones]
    exact looked

end Starting

/-! ### The theorem -/

section Consistent

variable {blocks : Nat}

theorem Sound.table (few : tableBlocks blocks < 28) (sound : Sound blocks (formatDisk blocks)) :
    0 < tableBlocks blocks := by
  have positive := sound.nonempty ⟨(formatDisk blocks 14).toNat, byteBlocks (formatDisk blocks 15)⟩
    (mem_append_left _ (by simp))
  rwa [byteBlocks_table few] at positive

theorem formatDisk_sound (large : 8 ≤ blocks) (few : tableBlocks blocks < 28)
    (table : 0 < tableBlocks blocks) : Sound blocks (formatDisk blocks) where
  nonempty := by
    rw [regions_formatDisk few table]
    simp [table]
  root := by
    rw [formatDisk_zones table, rootZones_filter few]
    exact cons_ne_nil _ _
  inside := by
    have := inUse_le large
    rw [regions_formatDisk few table]
    unfold rootNodeBlockNr at *
    simp only [mem_cons, not_mem_nil, or_false, forall_eq_or_imp, forall_eq]
    omega
  tiled := by
    rw [regions_formatDisk few table]
    refine ⟨?_, fun b small => ?_⟩
    · refine List.Pairwise.imp Range.apart_of_le ?_
      unfold rootNodeBlockNr
      simp only [pairwise_cons, mem_cons, not_mem_nil, or_false, forall_eq_or_imp,
        forall_eq, List.Pairwise.nil, and_true, false_imp_iff, implies_true]
      omega
    · rw [bitOn_blockMap few small, decide_eq_true_iff]
      simp only [exists_mem_cons_iff, not_mem_nil, false_and, exists_false, or_false, Range.Holds]
      unfold rootNodeBlockNr
      omega
  blockInuse := by
    rw [countP_blockMap few large, formatDisk_superblock (by decide)]
    show (BitVec.ofNat 32 (rootNodeBlockNr blocks + 1)).toNat = _
    rw [toNat_ofNat]
    exact Nat.mod_eq_of_lt (by unfold rootNodeBlockNr; omega)
  freeBlocks := by
    rw [countP_not, countP_blockMap few large, formatDisk_superblock (by decide), length_range]
    show (BitVec.ofNat 32 (blocks - (rootNodeBlockNr blocks + 1))).toNat = _
    have := blocks_lt few
    rw [toNat_ofNat]
    omega
  inodeInuse := by
    rw [countP_inodeMap few table, formatDisk_superblock (by decide)]
    rfl
  readable layout := ⟨_, mount_formatDisk, formatVolume_readable few table large⟩

/-- The number of free inodes is one too large. -/
theorem formatDisk_inconsistent (few : tableBlocks blocks < 28) :
    ¬ Consistent blocks (formatDisk blocks) := by
  intro consistent
  have table := consistent.toSound.table few
  have free := consistent.freeInodes
  rw [countP_freeInodes few table, freeInodes_toNat few table] at free
  omega

end Consistent

/-- **What `makefs` writes is never consistent**: the number of free inodes is wrong on every disk.
All the rest is right if and only if two hundredths of the blocks are at least one block. -/
theorem makefs_inconsistent (made : makefs (fun _ => 0#32) diskBytes = some disk) :
    ¬ Consistent (blocksNr diskBytes) disk ∧
      (Sound (blocksNr diskBytes) disk ↔ 50 ≤ blocksNr diskBytes) := by
  obtain ⟨large, few, rfl⟩ := makefs_eq_some made
  have table : 0 < tableBlocks (blocksNr diskBytes) ↔ 50 ≤ blocksNr diskBytes := by
    unfold tableBlocks
    omega
  rw [← table]
  exact ⟨formatDisk_inconsistent few, Sound.table few, formatDisk_sound large few⟩

/-- A disk of fifty blocks is sound. -/
theorem image_sound : Sound 50 image ∧ ¬ Consistent 50 image :=
  ⟨(makefs_inconsistent image_made).2.mpr (by decide), (makefs_inconsistent image_made).1⟩

/-- **One inode too many is free** on a disk of fifty blocks. A disk of eight blocks is accepted,
too, and has no inode table: its range is empty, and `read_inode` finds no root inode. -/
theorem wrong_free_inodes :
    ((image 4).toNat = 63 ∧ ((inodeNumbers image).countP fun num => !bitOn (inodeMap image) num) = 62) ∧
    ∃ disk, makefs (fun _ => 0#32) (8 * hostBlockSize) = some disk ∧
      (⟨3, 0⟩ ∈ regions disk) ∧ ∃ v, mount plainLayout 8 disk = some v ∧
        (readInode rootInodeNum (some .rootfs) v).map Prod.fst = some (einval, none) ∧
      ¬ Sound 8 disk := by
  refine ⟨⟨by decide +kernel, by decide +kernel⟩, formatDisk 8, rfl, by decide +kernel, _,
    mount_formatDisk,
    by decide +kernel, fun sound => ?_⟩
  exact absurd (sound.table (by decide)) (by decide)

/-- Of all the numbers with an entry in the inode table, number 0 among them, one fewer is free than
`s_free_inodes` says. -/
theorem freeInodes_entries (made : makefs (fun _ => 0#32) diskBytes = some disk)
    (large : 50 ≤ blocksNr diskBytes) :
    (disk 4).toNat = ((List.range (64 * tableBlocks (blocksNr diskBytes))).countP fun num =>
      !bitOn (inodeMap disk) num) + 1 := by
  obtain ⟨-, few, rfl⟩ := makefs_eq_some made
  have table : 0 < tableBlocks (blocksNr diskBytes) := by
    unfold tableBlocks
    omega
  have count := countP_range_lt (show 2 ≤ 64 * tableBlocks (blocksNr diskBytes) by omega)
  have same : (List.range (64 * tableBlocks (blocksNr diskBytes))).countP
      (bitOn (inodeMap (formatDisk (blocksNr diskBytes)))) = 2 := by
    refine Eq.trans (countP_congr fun num member => ?_) count
    have small := mem_range.mp member
    rw [bitOn_inodeMap (by unfold blockSize; omega)]
  rw [countP_not, same, freeInodes_toNat few table, length_range]
  omega

theorem image_freeInodes : (image 4).toNat = ((List.range (64 * tableBlocks 50)).countP fun num =>
    !bitOn (inodeMap image) num) + 1 :=
  freeInodes_entries image_made (by decide)

end Winix.Fs
