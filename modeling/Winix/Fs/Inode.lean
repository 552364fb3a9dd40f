/-
**Inodes.**

`fs/inode.c` and the bitmaps on the disk. The volume is the block cache with the disk behind it, the
superblock in memory and `inode_table`, whose slots hold the inodes that have been read; a slot is
never taken away from an inode that exists. All functions are programs over the volume; a null
pointer that is followed is a fault.
-/

import Winix.Fs.Cache
import Winix.Kernel.Bitmap
import Winix.Kernel.Signal
import Winix.Lib.Triple

namespace Winix.Fs

open Kernel Lib Function

/-! ### The volume -/

/-- `NR_INODES`. -/
abbrev nrInodes : Nat := 48
/-- `NR_TZONES`. -/
def nrTzones : Nat := 8
/-- `ROOT_INODE_NUM`. -/
def rootInodeNum : Int := 1
/-- `INODE_DISK_SIZE`. -/
def inodeDiskSize : Nat := 16
/-- `INODE_ARC_MAP_LEN`. -/
def inodeArcMapLen : Nat := 8
/-- `INODE_MOCK_UTC_TIME`. -/
def inodeMockUtcTime : Word := 1587268254#32

/-- `S_IFMT`. -/
def sIfmt : Word := 0x0170000#32
/-- `S_IFCHR`. -/
def sIfchr : Word := 0x0020000#32
/-- `S_IFDIR`. -/
def sIfdir : Word := 0x0040000#32
/-- `S_IFBLK`. -/
def sIfblk : Word := 0x0060000#32
/-- `S_IFREG`. -/
def sIfreg : Word := 0x0100000#32
/-- `S_IFIFO`. -/
def sIfifo : Word := 0x0010000#32

/-- `S_ISDIR(m)`. -/
def sIsdir (m : Word) : Bool := m &&& sIfmt = sIfdir

/-- `m & flag`, as a truth value. -/
def anyBit (m flag : Word) : Bool := m &&& flag != 0#32

/-- The registered devices. -/
inductive DevId
  | rootfs | tty | tty2 | pipe
  deriving DecidableEq, Repr

/-- `dev_id`. -/
def DevId.devId : DevId → Word
  | .rootfs => 0x101#32
  | .tty => 0x301#32
  | .tty2 => 0x302#32
  | .pipe => 0x201#32

/-- `device_type`. -/
def DevId.deviceType : DevId → Word
  | .rootfs => sIfreg
  | .tty => sIfchr
  | .tty2 => sIfchr
  | .pipe => sIfifo

/-- `get_dev`. -/
def getDev (dev : Word) : Option DevId :=
  [DevId.pipe, .rootfs, .tty2, .tty].find? fun id => id.devId = dev

/-- A pointer into `inode_table`. -/
abbrev InodeNr := Fin nrInodes

/-- `struct inode`; the lists of a pipe are in `Winix.Fs.Pipe`. -/
structure Inode where
  iMode : Word
  iNlinks : Word
  iUid : Word
  iGid : Word
  iSize : Word
  iAtime : Word
  iMtime : Word
  iCtime : Word
  iZone : Nat → Word
  iDev : Option DevId
  iNum : Int
  iCount : Int
  iNdblock : Word
  iTotalSize : Word
  flags : Word

/-- `memset(inode, 0, sizeof(struct inode))`. -/
def Inode.zero : Inode := ⟨0, 0, 0, 0, 0, 0, 0, 0, fun _ => 0, none, 0, 0, 0, 0, 0⟩

/-- `i_zone[0]` to `i_zone[NR_TZONES - 1]`. -/
def Inode.zones (ino : Inode) : List Word := (List.range nrTzones).map ino.iZone

/-- `struct superblock`, without the fields that only `statfs` and `makefs` use. -/
structure Superblock where
  sBlockInuse : Word
  sInodeInuse : Word
  sFreeBlocks : Word
  sFreeInodes : Word
  sInodeSize : Word
  sBlockmapnr : Word
  sBlockmapSize : Word
  sInodemapnr : Word
  sInodemapSize : Word
  sInodeTablenr : Word
  sInodeTableSize : Word
  sInodePerBlock : Word
  deriving DecidableEq, Repr

/-- Where the linker put what a read behind the end of a block finds. The first page of the kernel is
not accessible, so nothing lies there. -/
structure Layout where
  bufTable : BufNr → Word
  rootfsDev : Word
  behind : Nat → Word
  above : ∀ i, 1024 ≤ (bufTable i).toNat

/-- The mounted file system. -/
structure Volume where
  cache : Cache
  rootSb : Superblock
  inodeTable : InodeNr → Inode
  inodeArchMap : Nat → Word
  layout : Layout

/-- A program over the volume. -/
abbrev VolM := Prog Volume

/-- `for (i = 0; i < NR_INODES; i++)`. -/
def inodeSlots : List InodeNr := List.finRange nrInodes

/-- Assign fields of an inode. -/
def Volume.updateInode (v : Volume) (ino : InodeNr) (change : Inode → Inode) : Volume :=
  { v with inodeTable := update v.inodeTable ino (change (v.inodeTable ino)) }

theorem Volume.updateInode_same {v : Volume} {ino : InodeNr} {change : Inode → Inode} :
    (v.updateInode ino change).inodeTable ino = change (v.inodeTable ino) :=
  update_self ..

theorem Volume.updateInode_of_ne {v : Volume} {ino other : InodeNr} (ne : other ≠ ino)
    {change : Inode → Inode} : (v.updateInode ino change).inodeTable other = v.inodeTable other :=
  update_of_ne ne ..

/-- Change an inode of the table. -/
def updateInode (ino : InodeNr) (change : Inode → Inode) : VolM PUnit :=
  modify fun v => v.updateInode ino change

/-- `*ino`. -/
def readIno (ino : InodeNr) : VolM Inode := do return (← get).inodeTable ino

/-- `ino->i_zone[index]`. An index behind the array is a fault: what lies there is no zone. -/
def Inode.zoneAt (ino : Inode) (index : Nat) : VolM Word :=
  if index < nrTzones then return ino.iZone index else Prog.fault

/-- An index of the array. -/
theorem Inode.zoneAt_run {ino : Inode} {index : Nat} (inside : index < nrTzones) :
    ino.zoneAt index = pure (ino.iZone index) := if_pos inside

/-- Behind the array there is no zone. -/
theorem Inode.zoneAt_behind {ino : Inode} {index : Nat} (behind : nrTzones ≤ index) :
    ino.zoneAt index = Prog.fault := if_neg (Nat.not_lt.mpr behind)

/-! ### Blocks -/

/-- `get_sb`: null for every device but the root file system. -/
def getSb (v : Volume) (id : Option DevId) : Option Superblock :=
  if id = some .rootfs then some v.rootSb else none

/-- `get_sb(id)->…`. -/
def derefSb (id : Option DevId) : VolM Superblock := do Prog.ofOption (getSb (← get) id)

/-- The block device behind a device; blocks of terminals and pipes are never asked for. -/
def blockDevice : Option DevId → Option Device
  | some .rootfs => some .rootfs
  | _ => none

/-- `get_block_buffer`. -/
def getBlock (blocknr : Word) (id : Option DevId) : VolM (Option BufNr) := fun v => do
  let dev ← blockDevice id
  let (tbuf, cache) ← getBlockBuffer v.cache blocknr.toNat dev
  some (tbuf, { v with cache })

/-- `get_block_buffer(…)->…`. -/
def derefBlock (blocknr : Word) (id : Option DevId) : VolM BufNr := do
  Prog.ofOption (← getBlock blocknr id)

/-- `put_block_buffer`. -/
def putBlock (tbuf : BufNr) : VolM PUnit := fun v =>
  (putBlockBuffer v.cache tbuf).map fun cache => (⟨⟩, { v with cache })

/-- `put_block_buffer_dirt`. -/
def putBlockDirt (tbuf : BufNr) : VolM PUnit := fun v =>
  (putBlockBufferDirt v.cache tbuf).map fun cache => (⟨⟩, { v with cache })

/-- The words of a buffer's block. -/
def readBlock (tbuf : BufNr) : VolM (Nat → Word) := do return ((← get).cache.bufTable tbuf).block

/-- Assign words of a buffer's block. -/
def changeBlock (tbuf : BufNr) (change : (Nat → Word) → Nat → Word) : VolM PUnit :=
  modify fun v => { v with
    cache := v.cache.updateBuf tbuf fun buf => { buf with block := change buf.block } }

/-- `alloc_block` from the map's block `bnr` on, with this many blocks of the map to look at. -/
def allocFrom (ino : InodeNr) (id : Option DevId) : Nat → Word → BufNr → VolM Int
  | 0, _, bmap => do
    putBlock bmap
    return enospc
  | left + 1, bnr, bmap => do
    match bitmapSearchFrom (← readBlock bmap) blockSize 0 1 with
    | some (freeBit + 1) => do
      changeBlock bmap fun map => bitmapSetBit map blockSize (freeBit + 1)
      modify fun v => { v with rootSb := { v.rootSb with
        sBlockInuse := v.rootSb.sBlockInuse + 1, sFreeBlocks := v.rootSb.sFreeBlocks - 1 } }
      updateInode ino fun i => { i with iTotalSize := i.iTotalSize + BitVec.ofNat 32 blockSize }
      putBlockDirt bmap
      return (freeBit + 1 : Int)
    | _ => do
      putBlock bmap
      allocFrom ino id left (bnr + 1) (← derefBlock (bnr + 1) id)

/-- `alloc_block`. -/
def allocBlock (ino : InodeNr) (id : Option DevId) : VolM Int := do
  let sb ← derefSb id
  let bmap ← derefBlock sb.sBlockmapnr id
  allocFrom ino id (sb.sBlockmapSize.toNat / blockSize) sb.sBlockmapnr bmap

/-- `release_block`. The block of the map is not put back as dirty. -/
def releaseBlock (bnr : Word) (id : Option DevId) : VolM Int := do
  let sb ← derefSb id
  if sb.sBlockmapSize.toNat < bnr.toNat then return -1
  else do
    let block ← derefBlock bnr id
    changeBlock block fun words => fillWords 0#32 blockSize words 0
    putBlockDirt block
    let bmap ← derefBlock (sb.sBlockmapnr + BitVec.ofNat 32 (bnr.toNat / blockSize)) id
    changeBlock bmap fun map => bitmapClearBit map blockSize bnr.toNat
    modify fun v => { v with rootSb := { v.rootSb with
      sBlockInuse := v.rootSb.sBlockInuse - 1, sFreeBlocks := v.rootSb.sFreeBlocks + 1 } }
    putBlock bmap
    return ok

/-! ### The inode table -/

/-- `get_free_inode_slot`. -/
def getFreeInodeSlot : VolM (Option InodeNr) := do
  let v ← get
  match inodeSlots.find? fun i => (v.inodeTable i).iNum ≤ 0 with
  | none => return none
  | some rep => do
    updateInode rep fun _ => Inode.zero
    return some rep

/-- `is_valid_inode_num`. -/
def isValidInodeNum (sb : Superblock) (num : Int) : Bool :=
  if num ≤ 0 ∨ (nrInodes : Int) ≤ num then false
  else num.toNat ≤ (sb.sInodePerBlock * (sb.sInodeTableSize / BitVec.ofNat 32 blockSize)).toNat

/-- `is_inode_in_use`. -/
def isInodeInUse (num : Int) (id : Option DevId) : VolM Bool := do
  let sb ← derefSb id
  if !isValidInodeNum sb num then return false
  else do
    let buf ← derefBlock sb.sInodemapnr id
    let map ← readBlock buf
    putBlock buf
    return isBitOn map sb.sInodemapSize.toNat num.toNat

/-- `get_inode_blocks`. -/
def getInodeBlocks (ino : Inode) : Nat := ino.zones.countP fun zone => zone ≠ 0#32

/-- `get_inode_total_size_word`. -/
def getInodeTotalSizeWord (ino : Inode) : Word := BitVec.ofNat 32 (blockSize * getInodeBlocks ino)

/-- The block of the inode table that holds an inode. -/
def inodeBlock (sb : Superblock) (num : Int) : Word :=
  BitVec.ofInt 32 num * sb.sInodeSize / BitVec.ofNat 32 blockSize + sb.sInodeTablenr

/-- Where in that block it lies. -/
def inodeOffset (sb : Superblock) (num : Int) : Nat :=
  (BitVec.ofInt 32 num * sb.sInodeSize).toNat % blockSize

/-- `init_inode_non_disk`; no caller looks at what it returns. -/
def initInodeNonDisk (ino : InodeNr) (num : Int) (dev : Option DevId) (sb : Option Superblock) :
    VolM PUnit :=
  updateInode ino fun i =>
    let i := { i with iDev := dev, iNum := num, iTotalSize := getInodeTotalSizeWord i }
    match sb with
    | none => i
    | some sb =>
      let bnr := inodeBlock sb num
      if sb.sInodeTablenr * BitVec.ofNat 32 blockSize + sb.sInodeTableSize ≤
          bnr * BitVec.ofNat 32 blockSize then i
      else { i with iNdblock := bnr }

/-- `arch_inode`: the size of an inode that is read for the first time is in bytes. -/
def archInode (ino : InodeNr) : VolM PUnit := modify fun v =>
  let num := (v.inodeTable ino).iNum.toNat
  if isBitOn v.inodeArchMap inodeArcMapLen num then v
  else { v.updateInode ino fun i => { i with iSize := i.iSize / 4 } with
    inodeArchMap := bitmapSetBit v.inodeArchMap inodeArcMapLen num }

/-- The fields of `struct inode_disk`, from the words of a block. -/
def Inode.load (i : Inode) (words : Nat → Word) (offset : Nat) : Inode :=
  { i with
    iMode := words offset, iNlinks := words (offset + 1), iUid := words (offset + 2)
    iGid := words (offset + 3), iSize := words (offset + 4), iAtime := words (offset + 5)
    iMtime := words (offset + 6), iCtime := words (offset + 7)
    iZone := fun zone => if zone < nrTzones then words (offset + 8 + zone) else 0#32 }

/-- The words of `struct inode_disk`. -/
def Inode.words (i : Inode) (k : Nat) : Word :=
  match k with
  | 0 => i.iMode
  | 1 => i.iNlinks
  | 2 => i.iUid
  | 3 => i.iGid
  | 4 => i.iSize
  | 5 => i.iAtime
  | 6 => i.iMtime
  | 7 => i.iCtime
  | k + 8 => i.iZone k

/-- `read_inode`: an error, or the slot. -/
def readInode (num : Int) (id : Option DevId) : VolM (Int × Option InodeNr) := do
  let sb ← derefSb id
  match ← getFreeInodeSlot with
  | none => return (enospc, none)
  | some inode => do
    if !(← isInodeInUse num id) then return (einval, none)
    else if num = 0 then return (einval, none)
    else do
      let buffer ← derefBlock (inodeBlock sb num) id
      let words ← readBlock buffer
      updateInode inode fun i => i.load words (inodeOffset sb num)
      updateInode inode fun i => { i with iCount := i.iCount + 1 }
      initInodeNonDisk inode num id (some sb)
      archInode inode
      putBlock buffer
      return (ok, some inode)

/-- The last slot, where the loop of `get_inode` leaves its pointer. -/
def lastSlot : InodeNr := 47

/-- `get_inode`. If the inode can not be read, the pointer is the one the loop left. -/
def getInode (num : Int) (id : Option DevId) : VolM InodeNr := do
  let v ← get
  match inodeSlots.find? fun i => (v.inodeTable i).iNum = num with
  | some rep => do
    updateInode rep fun i => { i with iCount := i.iCount + 1 }
    return rep
  | none => do
    let (_, read) ← readInode num id
    return read.getD lastSlot

/-- `put_inode`. -/
def putInode (inode : Option InodeNr) (isDirty : Bool) : VolM Int :=
  match inode with
  | none => return einval
  | some inode => do
    updateInode inode fun i => { i with iCount := i.iCount - 1 }
    if !isDirty then return ok
    else do
      let ino ← readIno inode
      let sb ← derefSb ino.iDev
      let buffer ← derefBlock ino.iNdblock ino.iDev
      changeBlock buffer fun words =>
        copyWords inodeDiskSize words (inodeOffset sb ino.iNum) ino.words 0
      putBlockDirt buffer
      return ok

/-! ### New and dead inodes -/

/-- The loop of `alloc_inode`: the number of a free inode and the block of the map it was found in.
After the map's first block the search goes on in block 1 of the disk. -/
def searchImap (imapEnd : Nat) (id : Option DevId) : Nat → Nat → Nat → BufNr →
    VolM (Option Nat × BufNr)
  | 0, _, _, imap => return (none, imap)
  | fuel + 1, here, bnr, imap => do
    if imapEnd ≤ here then return (none, imap)
    else match bitmapSearchFrom (← readBlock imap) blockSize 0 1 with
      | some (inum + 1) => return (some (inum + 1), imap)
      | _ => do
        putBlock imap
        let imap ← derefBlock (BitVec.ofNat 32 (bnr + 1)) id
        searchImap imapEnd id fuel (bnr + 1) (bnr + 1) imap

/-- What `alloc_inode` and the checks of permissions read of a process. -/
structure Owner where
  uid : Word
  gid : Word
  umask : Word
  deriving DecidableEq, Repr

/-- `alloc_inode`. -/
def allocInode (who : Owner) (parentdev inodev : Option DevId) :
    VolM (Option InodeNr) := do
  let sb ← derefSb parentdev
  let imap ← derefBlock sb.sInodemapnr parentdev
  let imapEnd := sb.sInodemapnr.toNat + sb.sBlockmapSize.toNat / blockSize
  match ← searchImap imapEnd parentdev (imapEnd + 1) sb.sInodemapnr.toNat 0 imap with
  | (none, imap) => do
    putBlock imap
    return none
  | (some inum, imap) => do
    changeBlock imap fun map => bitmapSetBit map blockSize inum
    putBlockDirt imap
    let inode ← Prog.ofOption (← getFreeInodeSlot)
    initInodeNonDisk inode inum inodev (some sb)
    updateInode inode fun i =>
      { i with iGid := who.gid, iUid := who.uid, iCount := i.iCount + 1, iCtime := inodeMockUtcTime }
    modify fun v => { v with
      inodeArchMap := bitmapSetBit v.inodeArchMap inodeArcMapLen inum
      rootSb := { v.rootSb with
        sFreeInodes := v.rootSb.sFreeInodes - 1, sInodeInuse := v.rootSb.sInodeInuse + 1 } }
    return some inode

/-- `truncate_inode`, from this zone on. -/
def truncateZones (inode : InodeNr) : List Nat → VolM PUnit
  | [] => return ⟨⟩
  | i :: rest => do
    let ino ← readIno inode
    if ino.iZone i ≠ 0#32 then do
      let _ ← releaseBlock (ino.iZone i) ino.iDev
      updateInode inode fun ino => { ino with iZone := update ino.iZone i 0 }
    truncateZones inode rest

/-- `truncate_inode`. -/
def truncateInode (inode : InodeNr) : VolM PUnit := truncateZones inode (List.range nrTzones)

/-- `release_inode`. The bit of the inode is cleared in the first block of the inode table. -/
def releaseInode (inode : InodeNr) : VolM Int := do
  let ino ← readIno inode
  let sb ← derefSb ino.iDev
  if !(← isInodeInUse ino.iNum ino.iDev) then return einval
  else do
    truncateInode inode
    let imap ← derefBlock sb.sInodeTablenr ino.iDev
    changeBlock imap fun map => bitmapClearBit map blockSize ino.iNum.toNat
    modify fun v => { v with rootSb := { v.rootSb with
      sInodeInuse := v.rootSb.sInodeInuse - 1, sFreeInodes := v.rootSb.sFreeInodes + 1 } }
    putBlockDirt imap
    updateInode inode fun _ => Inode.zero
    return ok

end Winix.Fs
