/-
**System calls that take a pointer.**

`sys_read`, `sys_write`, `do_getdents` and `sys_getcwd`, with `root_fs_read` and `root_fs_write` of
`fs/rootfs.c`. They run over the whole kernel (`World`), and write down every run of words that they
read or write through a pointer of a process (`Transfer`). A word that is looked at again is not
written down again.

A request that waits on a pipe is completed in the call of another process: that is a transfer of the
process that waits. What the kernel sends to a process when its request is complete is left out.
-/

import Winix.Driver.Tty
import Winix.Fs.Calls
import Winix.Fs.Pipe
import Winix.Kernel.Vaddr
import Winix.Lib.Logged

namespace Winix.Fs

open Kernel Lib Function

/-- `O_NONBLOCK`. -/
def oNonblock : Word := 0x4000#32
/-- `O_DIRECT`. -/
def oDirect : Word := 0x80000#32

/-! ### The kernel and the memory of the processes -/

/-- A run of words that is read or written through a pointer of a process. -/
structure Transfer where
  who : ProcNr
  start : Word
  len : Nat
  deriving DecidableEq, Repr

/-- `getdents_zone_nr` and `getdents_dirstream_nr` of a `struct filp`. -/
structure DirPos where
  zoneNr : Nat
  dirstreamNr : Nat

/-- A pipe's page and the requests that wait on it. -/
structure PipePage where
  data : Nat → Word
  pos : Nat
  writingList : List Pipe.Waiting
  readingList : List Pipe.Waiting

/-- The kernel. `page` and `block` say whether there is memory for a page and for a `kmalloc`. -/
structure World where
  kernel : Machine
  tables : Tables
  files : Files
  dirPos : FilpNr → DirPos
  pipes : InodeNr → PipePage
  ttys : DevId → Driver.Tty
  page : Bool
  block : Bool

/-- A program that writes down its transfers. -/
abbrev AccessM := Logged Transfer World

/-- A program over the files. -/
def onFiles {α : Type} (x : FilesM α) : AccessM α :=
  Logged.lift fun w => (x w.files).map fun (a, files) => (a, { w with files })

/-- A program over the volume. -/
def onDisks {α : Type} (x : VolM α) : AccessM α := onFiles (onVolume x)

/-- The state. -/
def readWorld : AccessM World := Logged.lift get

/-- Change the state. -/
def modifyWorld (change : World → World) : AccessM PUnit := Logged.lift (modify change)

/-- A null pointer is followed. -/
def faultAccess {α : Type} : AccessM α := Logged.lift Prog.fault

/-- The pointer, if it is not null. -/
def nonnull {α : Type} (pointer : Option α) : AccessM α := Logged.lift (Prog.ofOption pointer)

/-- The memory after this many words have been written in a row. -/
def putWords (memory : Memory) (start : Word) (len : Nat) (words : Nat → Word) : Memory := fun a =>
  if (a - start).toNat < len then words (a - start).toNat else memory a

/-- Write words through a pointer of a process. -/
def writeUser (who : ProcNr) (start : Word) (len : Nat) (words : Nat → Word) : AccessM PUnit := do
  Logged.write [⟨who, start, len⟩]
  modifyWorld fun w =>
    { w with kernel := { w.kernel with memory := putWords w.kernel.memory start len words } }

/-- Read words through a pointer of a process. -/
def readUser (who : ProcNr) (start : Word) (len : Nat) : AccessM (Nat → Word) := do
  Logged.write [⟨who, start, len⟩]
  let w ← readWorld
  return fun i => w.kernel.memory (start + BitVec.ofNat 32 i)

/-- `get_physical_addr(va, who)`. -/
def World.paddr (w : World) (who : ProcNr) (va : Word) : Word :=
  physicalAddr (w.kernel.procTable who) va

/-- `is_vaddr_accessible(va, who)`. -/
def World.checks (w : World) (who : ProcNr) (va : Word) : Bool := w.tables.isVaddrOk w.kernel who va

/-! ### Files -/

/-- What `root_fs_read` reads of one block. The difference in the second line is one of unsigned
numbers. -/
def readLen (iSize off count : Word) : Word :=
  let len := if count < BitVec.ofNat 32 blockSize - off then count else BitVec.ofNat 32 blockSize - off
  if off + len < iSize then len else iSize - off

/-- `root_fs_read` of one block, with `O_DIRECT`. -/
def readDirect (who : ProcNr) (data off len : Word) : AccessM Word := do
  let w ← readWorld
  let (r, words) := blkDevIoRead w.files.vol.cache (fun _ => 0#32) off.toNat len.toNat
  writeUser who data (signedLoop r) words
  return BitVec.ofNat 32 r

/-- `root_fs_read` of one block, through the cache. -/
def readBuffered (who : ProcNr) (dev : Option DevId) (data bnr off len : Word) : AccessM Word := do
  let buffer ← onDisks (derefBlock bnr dev)
  let w ← readWorld
  writeUser who data len.toNat fun i => bufWord w.files.vol buffer (off.toNat + i)
  onDisks (putBlock buffer)
  return len

/-- `root_fs_read` of one block: how many words it has read. -/
def readFrom (who : ProcNr) (filp : Filp) (data bnr off len : Word) : AccessM Word :=
  if anyBit filp.filpFlags oDirect then readDirect who data (off + bnr * BitVec.ofNat 32 blockSize) len
  else readBuffered who filp.filpDev data bnr off len

/-- `filp->filp_pos += r`. -/
def advancePos (f : FilpNr) (r : Word) : AccessM PUnit :=
  onFiles (updateFilp f fun filp => { filp with filpPos := filp.filpPos + r })

/-- The loop of `root_fs_read`, with this many blocks to go. -/
def readBlocks (who : ProcNr) (f : FilpNr) (ino : InodeNr) :
    Nat → Nat → Word → Word → Word → Word → AccessM Int
  | 0, _, _, _, _, ret => return ret.toInt
  | left + 1, index, off, count, data, ret => do
    let inode ← onDisks (readIno ino)
    let filp ← onFiles (readFilp f)
    let bnr ← onDisks (inode.zoneAt index)
    if bnr = 0#32 then readBlocks who f ino left (index + 1) off count data ret
    else do
      let len := readLen inode.iSize off count
      let r ← readFrom who filp data bnr off len
      advancePos f r
      if r = 0#32 then return (ret + r).toInt
      else readBlocks who f ino left (index + 1) 0#32 (count - len) (data + r) (ret + r)

/-- The blocks from the position to `fp_limit`. -/
def blocksTo (offset pos count : Word) : Nat :=
  (pos + count).toNat / blockSize + 1 - offset.toNat / blockSize

/-- `root_fs_read`. -/
def rootFsRead (who : ProcNr) (f : FilpNr) (data count offset : Word) : AccessM Int := do
  let filp ← onFiles (readFilp f)
  let ino ← nonnull filp.filpIno
  readBlocks who f ino (blocksTo offset filp.filpPos count) (offset.toNat / blockSize)
    (BitVec.ofNat 32 (offset.toNat % blockSize)) count data 0#32

/-- The zone of a file that is written to. `alloc_block` returns a signed number and `bnr` is an
unsigned one, so that an error is a block number, too. -/
def writeZone (ino : InodeNr) (index : Nat) : VolM Word := do
  let inode ← readIno ino
  let bnr ← inode.zoneAt index
  if bnr ≠ 0#32 then return bnr
  else do
    let bnr ← allocBlock ino inode.iDev
    let bnr := BitVec.ofInt 32 bnr
    if bnr ≠ 0#32 then do
      updateInode ino fun i => { i with iZone := update i.iZone index bnr }
      return bnr
    else return 0#32

/-- What `root_fs_write` writes to one block. -/
def writeLen (off count : Word) : Word :=
  if count < BitVec.ofNat 32 blockSize - off then count else BitVec.ofNat 32 blockSize - off

/-- `root_fs_write` of one block, with `O_DIRECT`. -/
def writeDirect (who : ProcNr) (data off len : Word) : AccessM Word := do
  let w ← readWorld
  let r := (blkDevIoWrite w.files.vol.cache (fun _ => 0#32) off.toNat len.toNat).1
  let words ← readUser who data (signedLoop r)
  onDisks (modify fun v => { v with cache := (blkDevIoWrite v.cache words off.toNat len.toNat).2 })
  return BitVec.ofNat 32 r

/-- `root_fs_write` of one block, through the cache. -/
def writeBuffered (who : ProcNr) (dev : Option DevId) (data bnr off len : Word) : AccessM Word := do
  let buffer ← onDisks (derefBlock bnr dev)
  let words ← readUser who data len.toNat
  onDisks (changeBlock buffer fun block => copyWords len.toNat block off.toNat words 0)
  onDisks (putBlockDirt buffer)
  return len

/-- `root_fs_write` of one block: how many words it has written. -/
def writeTo (who : ProcNr) (filp : Filp) (data bnr off len : Word) : AccessM Word :=
  if anyBit filp.filpFlags oDirect then writeDirect who data (off + bnr * BitVec.ofNat 32 blockSize) len
  else writeBuffered who filp.filpDev data bnr off len

/-- `filp->filp_ino->i_size += r`. -/
def growSize (ino : InodeNr) (r : Word) : AccessM PUnit :=
  onDisks (updateInode ino fun i => { i with iSize := i.iSize + r })

/-- The loop of `root_fs_write`, with this many blocks to go. -/
def writeBlocks (who : ProcNr) (f : FilpNr) (ino : InodeNr) :
    Nat → Nat → Word → Word → Word → Word → AccessM Int
  | 0, _, _, _, _, ret => return ret.toInt
  | left + 1, index, off, count, data, ret => do
    let bnr ← onDisks (writeZone ino index)
    let filp ← onFiles (readFilp f)
    if bnr = 0#32 then return enospc
    else do
      let len := writeLen off count
      let r ← writeTo who filp data bnr off len
      if r = 0#32 then return ret.toInt
      else do
        advancePos f r
        growSize ino r
        writeBlocks who f ino left (index + 1) 0#32 (count - len) (data + r) (ret + r)

/-- `root_fs_write`. -/
def rootFsWrite (who : ProcNr) (f : FilpNr) (data count offset : Word) : AccessM Int := do
  let filp ← onFiles (readFilp f)
  let ino ← nonnull filp.filpIno
  writeBlocks who f ino (blocksTo offset filp.filpPos count) (offset.toNat / blockSize)
    (BitVec.ofNat 32 (offset.toNat % blockSize)) count data 0#32

/-! ### Terminals -/

/-- The words that `strncpy` copies before the zero. -/
def copied (src : Nat → Word) : Nat → Nat
  | 0 => 0
  | n + 1 => if src 0 = 0#32 then 0 else copied (fun i => src (i + 1)) n + 1

/-- `tty_read`, with the words that its `strncpy` stores, the zero included. -/
def ttyReadUser (who : ProcNr) (dev : DevId) (f : FilpNr) (data count : Word) : AccessM Int := do
  let w ← readWorld
  let filp ← onFiles (readFilp f)
  let (ret, tty, memory) := Driver.ttyRead (w.ttys dev) w.kernel who (anyBit filp.filpFlags oNonblock)
    data count.toNat
  Logged.write (if 0 < ret then [⟨who, data, copied (w.ttys dev).line ret.toNat + 1⟩] else [])
  modifyWorld fun w => { w with ttys := update w.ttys dev tty, kernel := { w.kernel with memory } }
  return ret

/-- `tty_write`, without the characters that are transmitted. -/
def ttyWriteUser (who : ProcNr) (data count : Word) : AccessM Int := do
  let _ ← readUser who data count.toNat
  return count.toInt

/-! ### Pipes -/

/-- The end of a pipe that a descriptor is. -/
def pipeModeOf (mode : Word) : Pipe.PipeMode := if mode = filpPipeWrite then .write else .read

/-- A pipe, as `Winix.Fs.Pipe` has it. -/
def World.pipe (w : World) (ino : InodeNr) : Pipe.State where
  data := (w.pipes ino).data
  pos := (w.pipes ino).pos
  iCount := (w.files.vol.inodeTable ino).iCount
  writingList := (w.pipes ino).writingList
  readingList := (w.pipes ino).readingList
  memory := fun a => w.kernel.memory (BitVec.ofNat 32 a)
  flags := fun p => (w.kernel.procTable p).flags
  ignoresSigpipe := fun p => decide (((w.kernel.procTable p).sigTable 13).handler = sigIgn)

/-- The pipe after a call. -/
def World.setPipe (w : World) (ino : InodeNr) (s : Pipe.State) : World :=
  { w with
    pipes := update w.pipes ino ⟨s.data, s.pos, s.writingList, s.readingList⟩
    kernel := { w.kernel with
      memory := fun a => s.memory a.toNat
      procTable := fun p => { w.kernel.procTable p with flags := s.flags p } } }

/-- The words that a call on a pipe moves: its result counts those of its caller, and what it answers
the request that it completes counts those of that request. -/
def pipeTransfers (who : ProcNr) (data : Word) (outcome : Pipe.Outcome) : List Transfer :=
  ⟨who, data, outcome.result.toNat⟩ ::
    outcome.replies.map fun (next, ret) => ⟨next.who, BitVec.ofNat 32 next.data, ret.toNat⟩

/-- `pipe_read` and `pipe_write`. -/
def pipeUser (who : ProcNr) (f : FilpNr) (data : Word)
    (call : Pipe.State → Pipe.Filp → Bool → Pipe.Outcome) : AccessM Int := do
  let w ← readWorld
  let filp ← onFiles (readFilp f)
  let ino ← nonnull filp.filpIno
  let outcome := call (w.pipe ino) ⟨pipeModeOf filp.pipeMode, filp.filpFlags⟩ w.block
  Logged.write (pipeTransfers who data outcome)
  modifyWorld fun w => w.setPipe ino outcome.pipe
  return outcome.result

/-! ### `read_write.c` -/

/-- `file->filp_dev->fops->read`. -/
def fopsRead (who : ProcNr) (f : FilpNr) (buf count : Word) : AccessM Int := do
  let filp ← onFiles (readFilp f)
  match filp.filpDev with
  | none => faultAccess
  | some .rootfs => rootFsRead who f buf count filp.filpPos
  | some .pipe => pipeUser who f buf fun s filp granted =>
      Pipe.pipeRead s who filp buf.toNat count.toNat granted
  | some dev => ttyReadUser who dev f buf count

/-- `file->filp_dev->fops->write`. -/
def fopsWrite (who : ProcNr) (f : FilpNr) (buf count : Word) : AccessM Int := do
  let filp ← onFiles (readFilp f)
  match filp.filpDev with
  | none => faultAccess
  | some .rootfs => rootFsWrite who f buf count filp.filpPos
  | some .pipe => pipeUser who f buf fun s pipe granted =>
      Pipe.pipeWrite s who pipe buf.toNat count.toNat filp.filpPos.toNat granted
  | some _ => ttyWriteUser who buf count

/-- `sys_read` and `sys_write`. -/
def sysTransfer (fops : ProcNr → FilpNr → Word → Word → AccessM Int) (who : ProcNr) (fd : Int)
    (buf count : Word) : AccessM Int := do
  let p ← onFiles (readFsProc who)
  match fdOpened p fd with
  | none => return ebadf
  | some (_, f) => fops who f buf count

/-- The check that most handlers make, of one pointer. -/
def ifAccessible (who : ProcNr) (va : Word) (handler : Word → AccessM Int) : AccessM Int := do
  let w ← readWorld
  if w.checks who va then handler (w.paddr who va) else return eacces

/-! ### `getdent.c` -/

/-- Move the position in a directory. -/
def setDirPos (f : FilpNr) (change : DirPos → DirPos) : AccessM PUnit :=
  modifyWorld fun w => { w with dirPos := update w.dirPos f (change (w.dirPos f)) }

/-- `sizeof(struct dirent)`. -/
def direntLen : Nat := 32

/-- Where `sys_getdents` is: the next entry to write, the entries still asked for, `dirstream_nr` and
`ret`. -/
structure Listing where
  dst : Word
  count : Word
  dirstreamNr : Nat
  ret : Int

/-- The inner loop of `sys_getdents`, over the entries of a block. -/
def listEntries (who : ProcNr) (f : FilpNr) (buffer : BufNr) : List Nat → Listing → AccessM Listing
  | [], l => return l
  | slot :: rest, l =>
    if l.count = 0#32 then return l
    else do
      let w ← readWorld
      if 0 < dIno w.files.vol buffer slot then do
        writeUser who l.dst direntLen fun i => bufWord w.files.vol buffer (direntSize * slot + i)
        setDirPos f fun pos => { pos with dirstreamNr := slot + 1 }
        listEntries who f buffer rest ⟨l.dst + 32#32, l.count - 1, slot + 1, l.ret + 32⟩
      else listEntries who f buffer rest { l with dirstreamNr := slot + 1 }

/-- The end of a block of `sys_getdents`. -/
def endOfBlock (f : FilpNr) (l : Listing) : AccessM Listing :=
  if l.count ≠ 0#32 then do
    setDirPos f fun pos => { pos with zoneNr := pos.zoneNr + 1 }
    return { l with dirstreamNr := 0 }
  else return l

/-- The outer loop of `sys_getdents`, over the zones. -/
def listZones (who : ProcNr) (f : FilpNr) (dirp : InodeNr) : List Nat → Listing → AccessM Int
  | [], l => return l.ret
  | i :: rest, l => do
    let dir ← onDisks (readIno dirp)
    if dir.iZone i = 0#32 then listZones who f dirp rest l
    else do
      let buffer ← onDisks (derefBlock (dir.iZone i) dir.iDev)
      let l ← listEntries who f buffer ((List.range dirSlots).drop l.dirstreamNr) l
      let l ← endOfBlock f l
      onDisks (putBlock buffer)
      listZones who f dirp rest l

/-- `sys_getdents`. -/
def sysGetdents (who : ProcNr) (fd : Int) (dst count : Word) : AccessM Int := do
  let p ← onFiles (readFsProc who)
  match fdOpened p fd with
  | none => return eacces
  | some (_, f) => do
    let filp ← onFiles (readFilp f)
    let dirp ← nonnull filp.filpIno
    let dir ← onDisks (readIno dirp)
    if !sIsdir dir.iMode then return enotdir
    else do
      let w ← readWorld
      listZones who f dirp ((List.range nrTzones).drop (w.dirPos f).zoneNr)
        ⟨dst, count, (w.dirPos f).dirstreamNr, 0⟩

/-- `do_getdents`. -/
def doGetdents (who : ProcNr) (m : Message) : AccessM Int :=
  ifAccessible who m.m1p1 fun dst => sysGetdents who m.m1i1.toInt dst m.m1i2

/-! ### Paths -/

/-- The characters at an address, up to the zero. -/
def stringAt (memory : Memory) : Nat → Word → List Word
  | 0, _ => []
  | left + 1, a => if memory a = 0#32 then [] else memory a :: stringAt memory left (a + 1)

/-- The path at an address. -/
def pathAt (w : World) (a : Word) : List Word := stringAt w.kernel.memory (2 ^ 32) a

/-- `sys_getcwd`. -/
def sysGetcwdUser (who : ProcNr) (pathname size : Word) : AccessM Int := do
  let w ← readWorld
  if !w.checks who pathname ∨ !w.checks who (pathname + size) then return efault
  else if size.toInt ≤ 1 then return erange
  else
    match ← getcwdFrom onFiles (writeUser who) who size.toInt (w.paddr who (pathname + size)) with
    | .error ret => return ret
    | .ok p => return (p - (w.kernel.procTable who).ctx.rbase).toInt

end Winix.Fs
