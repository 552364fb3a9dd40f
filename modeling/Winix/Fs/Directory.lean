/-
**Directories.**

The directory functions of `fs/inode.c` and `fs/path.c`. A block of a directory is an array of
`struct winix_dirent`, 33 words each. As 33 does not divide `BLOCK_SIZE`, the loops over a block visit
a 32nd entry of which only the first word is in the block; its name lies in the other fields of the
buffer and behind it (`bufWord`). It is compared like any name; filling it overwrites the cache's own
bookkeeping and is a fault here.
-/

import Winix.Fs.Inode

namespace Winix.Fs

open Kernel Lib Function

/-- `sizeof(struct dirent)` on the disk. -/
def direntSize : Nat := 33
/-- `DIRNAME_LEN`. -/
def dirnameLen : Nat := 30
/-- The entries with `dirstream < dirend`. -/
def dirSlots : Nat := 32
/-- The entries that are all in the block. -/
def wholeSlots : Nat := 31

/-- `DT_CHR`. -/
def dtChr : Word := 2#32
/-- `DT_DIR`. -/
def dtDir : Word := 4#32
/-- `DT_BLK`. -/
def dtBlk : Word := 6#32
/-- `DT_REG`. -/
def dtReg : Word := 8#32

/-- `"."`. -/
def dot1 : List Word := [46#32]
/-- `".."`. -/
def dot2 : List Word := [46#32, 46#32]

/-! ### Words of a buffer -/

/-- The words of `struct block_buffer`. -/
def bufferSize : Nat := 1030

/-- A pointer to a buffer. -/
def Layout.pointer (layout : Layout) : Option BufNr → Word
  | none => 0#32
  | some i => layout.bufTable i

/-- A word of `struct block_buffer`. -/
def Layout.field (layout : Layout) (buf : BlockBuffer) (k : Nat) : Word :=
  if k < blockSize then buf.block k
  else match k - blockSize with
    | 0 => layout.pointer buf.prev
    | 1 => layout.pointer buf.next
    | 2 => BitVec.ofNat 32 buf.bBlocknr
    | 3 => if buf.bDev = none then 0#32 else layout.rootfsDev
    | 4 => if buf.bDirt then 1#32 else 0#32
    | _ => BitVec.ofInt 32 buf.bCount

/-- The word at this distance from the start of a buffer, which may be in another one. -/
def bufWord (v : Volume) (i : BufNr) (k : Nat) : Word :=
  let place := i * bufferSize + k
  if inTable : place / bufferSize < lruLen then
    v.layout.field (v.cache.bufTable ⟨place / bufferSize, inTable⟩) (place % bufferSize)
  else v.layout.behind (place - lruLen * bufferSize)

/-- `dirstream->dirent.d_ino` of an entry in the buffer. -/
def dIno (v : Volume) (i : BufNr) (slot : Nat) : Int := (bufWord v i (direntSize * slot)).toInt

/-- `dirstream->dirent.d_name`. -/
def dName (v : Volume) (i : BufNr) (slot : Nat) (k : Nat) : Word :=
  bufWord v i (direntSize * slot + 2 + k)

/-! ### Strings -/

/-- `char32_strcmp`. -/
def char32Strcmp (s1 : Nat → Word) : List Word → Word
  | [] => s1 0
  | c :: s2 =>
    if s1 0 ≠ 0#32 ∧ s1 0 = c then char32Strcmp (fun k => s1 (k + 1)) s2 else s1 0 - c

/-- `char32_strncpy` to this place. -/
def char32Strncpy (words : Nat → Word) (dest : Nat) : List Word → Nat → Nat → Word
  | c :: src, n + 1 => char32Strncpy (update words dest c) (dest + 1) src n
  | _, _ => update words dest 0#32

/-! ### Looking up -/

/-- The loop of `advance` and `get_parent_inode_num` over the zones. -/
def lookupZones (id : Option DevId) (string : List Word) : List Word → VolM Int
  | [] => return err
  | zone :: zones => do
    if zone = 0#32 then lookupZones id string zones
    else match ← getBlock zone id with
      | none => lookupZones id string zones
      | some buffer => do
        let v ← get
        match (List.range dirSlots).find? fun slot =>
            char32Strcmp (dName v buffer slot) string = 0#32 with
        | some slot => do
          putBlock buffer
          return dIno v buffer slot
        | none => do
          putBlock buffer
          lookupZones id string zones

/-- `advance`. -/
def advance (dirp : InodeNr) (string : List Word) : VolM Int := do
  if string = [] then return err
  else do
    let dir ← readIno dirp
    lookupZones dir.iDev string dir.zones

/-- `get_parent_inode_num`. -/
def getParentInodeNum (dirp : InodeNr) : VolM Int := do
  let dir ← readIno dirp
  lookupZones dir.iDev dot2 dir.zones

/-- `memcpy(string, p, char32_strlen(p) + 1)` into an array of `NAME_MAX`; a longer name overruns
it. -/
def copyName (name : Nat → Word) : Option (List Word) :=
  ((List.range 32).find? fun len => name len = 0#32).map fun len => (List.range len).map name

/-- The loop of `get_child_inode_name`. -/
def childZones (id : Option DevId) (num : Int) : List Word → VolM (Option (List Word))
  | [] => return none
  | zone :: zones => do
    if zone = 0#32 then childZones id num zones
    else match ← getBlock zone id with
      | none => childZones id num zones
      | some buffer => do
        let v ← get
        match (List.range dirSlots).find? fun slot => dIno v buffer slot = num with
        | some slot => do
          let string ← Prog.ofOption (copyName (dName v buffer slot))
          putBlock buffer
          return some string
        | none => do
          putBlock buffer
          childZones id num zones

/-- `get_child_inode_name`: the name, or nothing for `ERR`. -/
def getChildInodeName (parent child : InodeNr) : VolM (Option (List Word)) := do
  let dir ← readIno parent
  let ino ← readIno child
  childZones dir.iDev ino.iNum dir.zones

/-! ### Changing directories -/

/-- `has_file_access`. -/
def hasFileAccess (who : Owner) (ino : Inode) (mode : Word) : Bool :=
  who.uid = 0#32 || (who.uid = ino.iUid && anyBit (mode <<< 8) ino.iMode) ||
    (who.gid = ino.iGid && anyBit (mode <<< 4) ino.iMode) || anyBit mode ino.iMode

/-- `W_OK`. -/
def wOk : Word := 2#32

/-- `d_type` for a mode, if `fill_dirent` sets it. -/
def direntType (mode : Word) : Option Word :=
  if anyBit mode sIfdir then some dtDir
  else if anyBit mode sIfchr then some dtChr
  else if anyBit mode sIfreg then some dtReg
  else if anyBit mode sIfblk then some dtBlk
  else none

/-- `fill_dirent` on the entry at this place of a block. -/
def fillDirent (ino : Inode) (string : List Word) (place : Nat) (words : Nat → Word) :
    Nat → Word :=
  let words := char32Strncpy words (place + 2) string dirnameLen
  let words := update words place (BitVec.ofInt 32 ino.iNum)
  match direntType ino.iMode with
  | none => words
  | some type => update words (place + 1) type

/-- `init_dirent`. -/
def initDirent (dir ino : InodeNr) : VolM Int := do
  let child ← readIno ino
  let parent ← readIno dir
  if !sIsdir child.iMode then return enotdir
  else match child.zones.find? fun zone => zone ≠ 0#32 with
    | none => return enospc
    | some bnr => do
      let buf ← derefBlock bnr child.iDev
      changeBlock buf (fillDirent child dot1 0)
      changeBlock buf (fillDirent parent dot2 direntSize)
      putBlockDirt buf
      return ok

/-- The zone of a directory, allocated if it is not there yet. -/
def growZone (dir : InodeNr) (i : Nat) : VolM Word := do
  let d ← readIno dir
  if d.iZone i ≠ 0#32 then return d.iZone i
  else do
    let bnr := BitVec.ofInt 32 (← allocBlock dir d.iDev)
    updateInode dir fun d => { d with iZone := update d.iZone i bnr }
    return bnr

/-- What `add_inode_to_directory` does with a free entry. -/
def fillSlot (ino : InodeNr) (string : List Word) (buf : BufNr) (slot : Nat) : VolM Int := do
  let target ← readIno ino
  let dev ← Prog.ofOption target.iDev
  -- the last entry would be written over the pointers of the buffer
  if wholeSlots ≤ slot then Prog.fault
  else do
    changeBlock buf fun words =>
      update (fillDirent target string (direntSize * slot) words)
        (direntSize * slot + 32) dev.devId
    updateInode ino fun i => { i with iNlinks := i.iNlinks + 1 }
    putBlockDirt buf
    return ok

/-- The loop of `add_inode_to_directory`. -/
def addZones (dir ino : InodeNr) (string : List Word) : List Nat → VolM Int
  | [] => return enospc
  | i :: rest => do
    let bnr ← growZone dir i
    let buf ← derefBlock bnr (← readIno dir).iDev
    let v ← get
    match (List.range dirSlots).find? fun slot => dName v buf slot 0 = 0#32 with
    | some slot => fillSlot ino string buf slot
    | none => do
      putBlock buf
      addZones dir ino string rest

/-- `add_inode_to_directory`. -/
def addInodeToDirectory (who : Owner) (dir ino : InodeNr) (string : List Word) : VolM Int := do
  let d ← readIno dir
  if !sIsdir d.iMode then return einval
  else if !hasFileAccess who d wOk then return eacces
  else if dirnameLen ≤ string.length then return enametoolong
  else addZones dir ino string (List.range nrTzones)

/-- What `remove_inode_from_dir` does with the entry. -/
def clearSlot (target : InodeNr) (buf : BufNr) (slot : Nat) : VolM Int := do
  if wholeSlots ≤ slot then Prog.fault
  else do
    changeBlock buf fun words =>
      update (update words (direntSize * slot + 2) 0#32) (direntSize * slot) 0#32
    putBlockDirt buf
    updateInode target fun i => { i with iNlinks := i.iNlinks - 1 }
    return ok

/-- The loop of `remove_inode_from_dir`. -/
def removeZones (id : Option DevId) (target : InodeNr) (name : List Word) : List Word → VolM Int
  | [] => return enoent
  | bnr :: rest => do
    if bnr = 0#32 then removeZones id target name rest
    else do
      let buf ← derefBlock bnr id
      let v ← get
      let num := (v.inodeTable target).iNum
      match (List.range dirSlots).find? fun slot =>
          dIno v buf slot = num && char32Strcmp (dName v buf slot) name = 0#32 with
      | some slot => clearSlot target buf slot
      | none => do
        putBlock buf
        removeZones id target name rest

/-- `remove_inode_from_dir`. -/
def removeInodeFromDir (who : Owner) (dir target : InodeNr) (name : List Word) : VolM Int := do
  let d ← readIno dir
  if !hasFileAccess who d wOk then return eacces
  else removeZones d.iDev target name d.zones

end Winix.Fs
