/-
**Inodes that are written back.**

`put_inode` writes an inode to the block that it was read from (`i_ndblock`), and `read_inode` looks
for it in the block that the superblock gives. Records of sixteen words do not straddle the end of a
block.

* `putInode_run`: what `put_inode` writes to the disk, for an inode of the root file system;
* `readInode_words`: what `read_inode` reads, for an inode whose size is in words;
* **`inode_round_trips_iff`**: which inodes are read again as they were. That of a device has the device
  as `i_dev`, which has no superblock.
-/

import Winix.Fs.Counts

namespace Winix.Fs

open Kernel Lib Prog

/-! ### Inodes in memory -/

/-- The inode in this slot is in use. Its place on the disk and the bit that its size is in words are as
`read_inode` and `alloc_inode` leave them, and there is a slot for another one. -/
structure Resident (v : Volume) (array : Nat → Word) (inode : InodeNr) : Prop where
  formatted : Formatted v.rootSb
  size : v.cache.rootfsDiskSize = 51200
  rest : Rest v.cache array
  used : InUse array (v.inodeTable inode).iNum
  place : (v.inodeTable inode).iNdblock = inodeBlock v.rootSb (v.inodeTable inode).iNum
  arch : isBitOn v.inodeArchMap inodeArcMapLen (v.inodeTable inode).iNum.toNat = true
  room : ∃ i, (v.inodeTable i).iNum ≤ 0

/-- Where the record of an inode is on the disk. -/
def recordPlace (num : Int) : Nat := 3 * blockSize + num.toNat * inodeDiskSize

/-- `put_inode(inode, true)` and `read_inode` of the number: the record is read into another slot as
it was, and every other word on the disk stays. -/
def RoundTrips (v : Volume) (array : Nat → Word) (inode : InodeNr) : Prop :=
  ∃ v₁ array', putInode (some inode) true v = some (ok, v₁) ∧ Rest v₁.cache array' ∧
    (∀ a, ¬ (recordPlace (v.inodeTable inode).iNum ≤ a ∧
      a < recordPlace (v.inodeTable inode).iNum + inodeDiskSize) → array' a = array a) ∧
    ∃ slot v₂, readInode (v.inodeTable inode).iNum (some .rootfs) v₁ = some ((ok, some slot), v₂) ∧
      slot ≠ inode ∧
      ∀ k < inodeDiskSize, (v₂.inodeTable slot).words k = (v.inodeTable inode).words k

section Writeback

variable {v v' : Volume} {array : Nat → Word} {inode slot : InodeNr} {num : Int}

/-! ### Writing -/

theorem record_fits (small : num < nrInodes) :
    num.toNat * inodeDiskSize + inodeDiskSize ≤ blockSize := by
  simp only [nrInodes] at small
  unfold inodeDiskSize blockSize
  omega

/-- **`put_inode` writes the record**, for an inode of the root file system. -/
theorem putInode_run (resident : Resident v array inode)
    (device : (v.inodeTable inode).iDev = some .rootfs) :
    ∃ c', putInode (some inode) true v = some (ok, { v.updateInode inode
          (fun i => { i with iCount := i.iCount - 1 }) with cache := c' }) ∧
      Rest c' (copyWords inodeDiskSize array (recordPlace (v.inodeTable inode).iNum)
        (v.inodeTable inode).words 0) ∧
      c'.rootfsDiskSize = v.cache.rootfsDiskSize := by
  obtain ⟨positive, small, -⟩ := resident.used
  obtain ⟨place, offset⟩ := inode_place resident.formatted.laid positive small
  have three : (v.inodeTable inode).iNdblock.toNat = 3 := by
    rw [resident.place, place]
    rfl
  have inside : Inside v.cache (v.inodeTable inode).iNdblock.toNat := by
    rw [three]
    exact inside_of_lt resident.size (by decide) (by decide)
  obtain ⟨i, c₁, got, held, took⟩ := derefBlock_idle
    (v := v.updateInode inode fun i => { i with iCount := i.iCount - 1 })
    (resident.rest.settled fun _ => True) inside
  rw [three] at held
  obtain ⟨c₂, put, idle, size⟩ := rewriteBlock_settled
    (v := { v.updateInode inode (fun i => { i with iCount := i.iCount - 1 }) with cache := c₁ }) held
    (by decide) fun words =>
      copyWords inodeDiskSize words ((v.inodeTable inode).iNum.toNat * inodeDiskSize)
      (v.inodeTable inode).words 0
  rw [copyBlock_part (record_fits small) (held.shows (by decide) trivial)] at idle
  refine ⟨c₂, ?_, idle.rest_of_settled, size.trans took.size⟩
  have here : (v.updateInode inode fun i => { i with iCount := i.iCount - 1 }).inodeTable inode =
      { v.inodeTable inode with iCount := (v.inodeTable inode).iCount - 1 } := Volume.updateInode_same
  rw [putInode, bind_run updateInode_run, Bool.not_true, if_neg Bool.false_ne_true,
    bind_run readIno_run, here]
  dsimp only
  rw [device, bind_run derefSb_run, bind_run got, bind_run changeBlock_run,
    show inodeOffset (v.updateInode inode fun i => { i with iCount := i.iCount - 1 }).rootSb
      (v.inodeTable inode).iNum = (v.inodeTable inode).iNum.toNat * inodeDiskSize from offset]
  exact bind_run put

theorem putInode_none (device : (v.inodeTable inode).iDev ≠ some .rootfs) :
    putInode (some inode) true v = none := by
  have here : (v.updateInode inode fun i => { i with iCount := i.iCount - 1 }).inodeTable inode =
      { v.inodeTable inode with iCount := (v.inodeTable inode).iCount - 1 } := Volume.updateInode_same
  rw [putInode, bind_run updateInode_run, Bool.not_true, if_neg Bool.false_ne_true,
    bind_run readIno_run, here]
  refine bind_none ?_
  rw [derefSb, get_bind, getSb, if_neg device]
  rfl

/-! ### Reading -/

theorem Inode.load_words (i : Inode) (words : Nat → Word) (offset k : Nat)
    (inside : k < inodeDiskSize) :
    (i.load words offset).words k = words (offset + k) := by
  match k with
  | 0 | 1 | 2 | 3 | 4 | 5 | 6 | 7 => rfl
  | k + 8 =>
    have entry : k < nrTzones := by
      unfold inodeDiskSize nrTzones at *
      omega
    exact (if_pos entry).trans (congrArg words (by omega))

theorem initInodeNonDisk_words {dev : Option DevId} {sb : Option Superblock}
    (ran : initInodeNonDisk slot num dev sb v = some (⟨⟩, v')) :
    (v'.inodeTable slot).words = (v.inodeTable slot).words ∧ (v'.inodeTable slot).iNum = num ∧
      v'.inodeArchMap = v.inodeArchMap := by
  rw [initInodeNonDisk, updateInode_run] at ran
  obtain ⟨-, rfl⟩ := Prod.mk.inj (Option.some.inj ran)
  rw [Volume.updateInode_same]
  cases sb with
  | none => exact ⟨rfl, rfl, rfl⟩
  | some sb =>
    dsimp only
    split_ifs
    · exact ⟨rfl, rfl, rfl⟩
    · exact ⟨rfl, rfl, rfl⟩

/-- `arch_inode` leaves an inode alone whose size is in words. -/
theorem archInode_words
    (arch : isBitOn v.inodeArchMap inodeArcMapLen (v.inodeTable slot).iNum.toNat = true)
    (ran : archInode slot v = some (⟨⟩, v')) : v' = v := by
  have same : archInode slot v = some (⟨⟩, v) := by
    show some (PUnit.unit, if isBitOn v.inodeArchMap inodeArcMapLen (v.inodeTable slot).iNum.toNat =
      true
      then v else _) = _
    rw [if_pos arch]
  exact ((run_unique ran same).2)

/-- **`read_inode` reads the record**, if the size is in words. -/
theorem readInode_words (formatted : Formatted v.rootSb) (size : v.cache.rootfsDiskSize = 51200)
    (rest : Rest v.cache array) (used : InUse array num) (room : ∃ i, (v.inodeTable i).iNum ≤ 0)
    (arch : isBitOn v.inodeArchMap inodeArcMapLen num.toNat = true) :
    ∃ slot v', readInode num (some .rootfs) v = some ((ok, some slot), v') ∧
      (v.inodeTable slot).iNum ≤ 0 ∧
      ∀ k < inodeDiskSize, (v'.inodeTable slot).words k = array (recordPlace num + k) := by
  obtain ⟨slot, cleared, free⟩ := getFreeInodeSlot_run room
  obtain ⟨c₁, inUse, idle, size₁⟩ := isInodeInUse_run (v := v.updateInode slot fun _ => Inode.zero)
    formatted.laid (inside_of_lt size (by decide) (by decide)) (rest.settled fun _ => True) used
  obtain ⟨i, c, v₁, v₂, c', held, initialised, arched, read, -, -⟩ :=
    readInode_steps formatted.laid used.1
    used.2.1 (inside_of_lt (size₁.trans size) (by decide) (by decide)) idle cleared inUse
  obtain ⟨words, number, map⟩ := initInodeNonDisk_words initialised
  have arch₁ : isBitOn v₁.inodeArchMap inodeArcMapLen (v₁.inodeTable slot).iNum.toNat = true := by
    rw [number, map]
    exact arch
  obtain rfl := archInode_words arch₁ arched
  refine ⟨slot, _, read, free, fun k inside => ?_⟩
  have fits := record_fits used.2.1
  have word : (c.bufTable i).block (num.toNat * inodeDiskSize + k) =
      array (3 * blockSize + (num.toNat * inodeDiskSize + k)) :=
    held.shows (by decide) trivial _ (by omega)
  show (v₂.inodeTable slot).words k = _
  rw [words, Volume.copied_same, recordPlace, Nat.add_assoc, ← word]
  exact Inode.load_words Inode.zero _ _ k inside

/-! ### Both -/

theorem inUse_copyWords (used : InUse array num) (n : Int) (words : Nat → Word) :
    InUse (copyWords inodeDiskSize array (recordPlace n) words 0) num := by
  obtain ⟨positive, small, bit⟩ := used
  refine ⟨positive, small, ?_⟩
  have word : copyWords inodeDiskSize array (recordPlace n) words 0 (2 * blockSize + num.toNat / 32) =
      array (2 * blockSize + num.toNat / 32) := by
    refine copyWords_outside _ _ _ _ _ (.inl ?_)
    simp only [nrInodes] at small
    unfold recordPlace blockSize
    omega
  rw [bitOn, word]
  exact bit

/-- **An inode is read again as it was written back** if and only if it is one of the root file
system. -/
theorem inode_round_trips_iff (v : Volume) (array : Nat → Word) (inode : InodeNr)
    (resident : Resident v array inode) :
    RoundTrips v array inode ↔ (v.inodeTable inode).iDev = some .rootfs := by
  constructor
  · rintro ⟨v₁, array', put, -⟩
    by_contra other
    rw [putInode_none other] at put
    cases put
  · intro device
    obtain ⟨c', put, rest, size⟩ := putInode_run resident device
    refine ⟨_, _, put, rest, fun a outside => copyWords_outside _ _ _ _ _ (by omega), ?_⟩
    have room : ∃ i, ((v.updateInode inode fun i =>
        { i with iCount := i.iCount - 1 }).inodeTable i).iNum ≤ 0 := by
      obtain ⟨i, free⟩ := resident.room
      refine ⟨i, ?_⟩
      by_cases here : i = inode
      · rw [here, Volume.updateInode_same]
        exact here ▸ free
      · rw [Volume.updateInode_of_ne here]
        exact free
    obtain ⟨slot, v₂, read, free, words⟩ := readInode_words
      (v := { v.updateInode inode (fun i => { i with iCount := i.iCount - 1 }) with cache := c' })
      resident.formatted (size.trans resident.size) rest
      (inUse_copyWords resident.used (v.inodeTable inode).iNum _) room resident.arch
    refine ⟨slot, v₂, read, ?_, fun k inside => ?_⟩
    · rintro rfl
      have same :
          ((v.updateInode slot fun i => { i with iCount := i.iCount - 1 }).inodeTable slot).iNum =
          (v.inodeTable slot).iNum := by rw [Volume.updateInode_same]
      exact absurd (same ▸ free) (not_le.mpr resident.used.1)
    · rw [words k inside, copyWords_inside _ _ _ _ _ inside, Nat.zero_add]

end Writeback

/-! ### The root, and a device -/

/-- The root is in the first slot, with its size in words. -/
def rootInMemory : Volume :=
  let vol := imageVolume plainLayout
  { vol with
    inodeTable := Function.update vol.inodeTable rootSlot loadedRoot
    inodeArchMap := bitmapSetBit (fun _ => 0#32) inodeArcMapLen 1 }

/-- The root directory of a new file system is written back and read again. -/
theorem root_round_trips : RoundTrips rootInMemory image rootSlot := by
  have tree : Tree (imageVolume plainLayout) image := image_tree
  have resident : Resident rootInMemory image rootSlot :=
    ⟨tree.formatted, tree.size, tree.rest, ⟨by decide, by decide, by decide +kernel⟩, by decide +kernel,
      by decide +kernel, ⟨1, by decide⟩, by decide⟩
  exact (inode_round_trips_iff rootInMemory image rootSlot resident).mpr rfl

/-- **A device can not be written back**: a process makes `/t`, a terminal. Its inode is in use, and
`put_inode(inode, true)` follows a null pointer. -/
theorem device_not_written_back :
    ∃ w, runFrom fileStep (bootFiles (imageVolume plainLayout))
      [.mknod 1 [slash, 116#32] 0x777#32 0x301#32] =
        some w ∧
      ∃ slot, (w.vol.inodeTable slot).iNum = 2 ∧ (w.vol.inodeTable slot).iDev = some .tty ∧
        (isInodeInUse 2 (some .rootfs) w.vol).map Prod.fst = some true ∧
        putInode (some slot) true w.vol = none := by
  have ran : (runFrom fileStep (bootFiles (imageVolume plainLayout))
      [.mknod 1 [slash, 116#32] 0x777#32 0x301#32]).any (fun w =>
        decide ((w.vol.inodeTable ⟨1, by decide⟩).iNum = 2 ∧
          (w.vol.inodeTable ⟨1, by decide⟩).iDev = some .tty ∧
          (isInodeInUse 2 (some .rootfs) w.vol).map Prod.fst = some true)) = true := by
    decide +kernel
  obtain ⟨w, ran, number, device, used⟩ := exists_of_any ran
  refine ⟨w, ran, ⟨1, by decide⟩, number, device, used, putInode_none ?_⟩
  rw [device]
  decide

end Winix.Fs
